import SchemaAtlas.Proofs.ReferenceClosure

namespace SchemaAtlas

namespace Component

theorem kind_mapSchema (f : String → SchemaNode → SchemaNode) (c : Component) : (c.mapSchema f).kind = c.kind := by
  cases c <;> rfl

theorem name_mapSchema (f : String → SchemaNode → SchemaNode) (c : Component) : (c.mapSchema f).name = c.name := by
  cases c <;> rfl

theorem mapSchema_other {c : Component} (other : c.kind ≠ .schemas) : c.mapSchema f = c := by
  cases c with
  | schema name node => exact absurd rfl other
  | _ => rfl

end Component

-- What holds of the parameters of an operation, also as they are grouped, of its request
-- body and of its responses.
structure Operation.Throughout (P : Parameter → Prop) (B : RequestBody → Prop) (R : Response → Prop)
    (o : Operation) : Prop where
  parameters : ∀ p ∈ o.parameters, P p
  grouped : ∀ p ∈ o.parameterGroups.path ++ o.parameterGroups.query ++ o.parameterGroups.header ++
    o.parameterGroups.cookie, P p
  body : ∀ b ∈ o.requestBody, B b
  responses : ∀ r ∈ o.responses, R r.response

theorem Operation.Throughout.imp {o : Operation} (all : o.Throughout P B R) (parameter : ∀ p, P p → P' p)
    (body : ∀ b, B b → B' b) (response : ∀ r, R r → R' r) : o.Throughout P' B' R' :=
  ⟨fun p listed => parameter p (all.parameters p listed), fun p listed => parameter p (all.grouped p listed),
    fun b held => body b (all.body b held), fun r listed => response _ (all.responses r listed)⟩

namespace Document

variable {d : Document} {c : Component}

structure Holds (d : Document) (c : Component) : Prop where
  found : d.component? c.kind c.name = some c
  sole : ∀ other ∈ d.components, other.kind = c.kind → other.name = c.name → other = c

theorem holds_of_mem (listed : c ∈ d.components)
    (sole : ∀ other ∈ d.components, other.kind = c.kind → other.name = c.name → other = c) : d.Holds c := by
  refine ⟨?_, sole⟩
  unfold component?
  cases found : d.components.find? fun other => other.kind == c.kind && other.name == c.name with
  | none =>
    have missing := List.find?_eq_none.mp found c listed
    simp at missing
  | some other =>
    have fits := List.find?_some found
    simp only [Bool.and_eq_true, beq_iff_eq] at fits
    rw [sole other (List.mem_of_find?_eq_some found) fits.1 fits.2]

theorem Holds.listed (held : d.Holds c) : c ∈ d.components := List.mem_of_find?_eq_some held.found

theorem Holds.analyze (held : d.Holds c) (other : c.kind ≠ .schemas) : d.analyze.Holds c := by
  have same : c.mapSchema (annotated d.dependencyGraphOf) = c := Component.mapSchema_other other
  refine holds_of_mem (List.mem_map.mpr ⟨c, held.listed, same⟩) ?_
  intro new listed kind name
  obtain ⟨old, inside, rfl⟩ := List.mem_map.mp listed
  rw [Component.kind_mapSchema] at kind
  rw [Component.name_mapSchema] at name
  rw [held.sole old inside kind name, same]

end Document

namespace OpenApi

variable {start p : Place} {members : Members} {components : List Component} {d : Document} {kind : Section}
  {read : Place → Json → Option String → Except Failure α} {wrap : String → α → Component} {a : α}

def sharedComponent (read : Place → Json → Option String → Except Failure α) (wrap : String → α → Component)
    (p : Place) (value : Json) (name : String) : Except Failure Component :=
  noAlias p value >>= fun _ => read p value (some name) >>= fun a => pure (wrap name a)

theorem readSection_kind {read : Place → Json → String → Except Failure Component}
    (accepted : readSection start members kind read = .ok found)
    (kinds : ∀ place value name component, read place value name = .ok component → component.kind = kind) :
    ∀ component ∈ found, component.kind = kind := by
  intro component listed
  rcases readSection_parts accepted with ⟨rfl, _⟩ | ⟨entries, _, all⟩
  · cases listed
  · obtain ⟨entry, _, one⟩ := exists_of_forall₂ all listed
    exact kinds _ _ _ _ one

theorem sharedComponent_kind (kinds : ∀ name a, (wrap name a).kind = kind)
    (accepted : sharedComponent read wrap place value name = .ok component) : component.kind = kind := by
  obtain ⟨_, a, _, rfl⟩ := wrapped_ok.mp accepted
  exact kinds name a

theorem filter_kind {found : List Component} (all : ∀ component ∈ found, component.kind = own) (kind : Section) :
    found.filter (fun component => component.kind == kind) = if own = kind then found else [] := by
  split
  · rename_i same
    exact List.filter_eq_self.mpr fun component listed => by rw [all component listed, same, beq_self_eq_true]
  · rename_i other
    exact List.filter_eq_nil_iff.mpr fun component listed => by rw [all component listed]; simpa using other

theorem readComponents_kinds (accepted : readComponents start = .ok components)
    (held : start.root.get? "components" = some all) : ∃ members, all = .object members ∧
      readSection start members .parameters (sharedComponent readParameterBody .parameter) =
        .ok (components.filter fun component => component.kind == .parameters) ∧
      readSection start members .responses (sharedComponent readResponseBody .response) =
        .ok (components.filter fun component => component.kind == .responses) ∧
      readSection start members .requestBodies (sharedComponent readRequestBodyBody .requestBody) =
        .ok (components.filter fun component => component.kind == .requestBodies) := by
  rcases readComponents_parts accepted with ⟨_, missing⟩ |
    ⟨members, schemas, parameters, responses, bodies, schemes, held', inSchemas, inParameters, inResponses, inBodies, inSchemes, rfl⟩
  · cases missing.symm.trans held
  · cases held'.symm.trans held
    have schemas_ := readSection_kind inSchemas fun _ _ _ _ one => by
      obtain ⟨node, _, rfl⟩ := map_ok.mp one
      rfl
    have parameters_ := readSection_kind inParameters fun _ _ _ _ => sharedComponent_kind fun _ _ => rfl
    have responses_ := readSection_kind inResponses fun _ _ _ _ => sharedComponent_kind fun _ _ => rfl
    have bodies_ := readSection_kind inBodies fun _ _ _ _ => sharedComponent_kind fun _ _ => rfl
    have schemes_ := readSection_kind inSchemes fun _ _ _ _ one => by
      obtain ⟨_, scheme, _, rfl⟩ := wrapped_ok.mp one
      rfl
    refine ⟨members, rfl, ?_, ?_, ?_⟩ <;>
      simp only [List.filter_append, filter_kind schemas_, filter_kind parameters_, filter_kind responses_,
        filter_kind bodies_, filter_kind schemes_, reduceCtorEq, if_true, if_false, List.nil_append, List.append_nil]
    · exact inParameters
    · exact inResponses
    · exact inBodies

def ReadAt (start : Place) (kind : Section) (read : Place → Json → Option String → Except Failure α)
    (component : Option String) (a : α) : Prop :=
  ∀ name ∈ component, ∃ target, Pointer.find? start.root ["components", kind.segment, name] = some target ∧
    read (start.at_ ["components", kind.segment, name]) target (some name) = .ok a

theorem holds_of_section (distinct : start.root.KeysDistinct)
    (held : start.root.get? "components" = some (.object members))
    (accepted : readSection start members kind (sharedComponent read wrap) =
      .ok (d.components.filter fun component => component.kind == kind))
    (kinds : ∀ name a, (wrap name a).kind = kind) (names : ∀ name a, (wrap name a).name = name)
    (inside : members.get? kind.segment = some section_) (listed : Pointer.step? section_ name = some target)
    (reads : read (start.at_ ["components", kind.segment, name]) target (some name) = .ok a) : d.Holds (wrap name a) := by
  obtain ⟨component, member, one⟩ := readSection_member accepted inside listed
  obtain ⟨_, b, again, rfl⟩ := wrapped_ok.mp one
  cases again.symm.trans reads
  refine Document.holds_of_mem (List.mem_filter.mp member).1 fun other old sameKind sameName => ?_
  rw [kinds] at sameKind
  rw [names] at sameName
  have filtered : other ∈ d.components.filter fun component => component.kind == kind :=
    List.mem_filter.mpr ⟨old, by rw [sameKind, beq_self_eq_true]⟩
  rcases readSection_parts accepted with ⟨none_, _⟩ | ⟨entries, inside', all⟩
  · rw [none_] at filtered
    cases filtered
  · cases inside'.symm.trans inside
    have once := (Json.keysDistinct_object.mp ((distinct.get? held).get? inside)).1
    obtain ⟨⟨key, value⟩, entry, two⟩ := exists_of_forall₂ all filtered
    obtain ⟨_, b, again, rfl⟩ := wrapped_ok.mp two
    rw [names] at sameName
    dsimp only at sameName again
    subst sameName
    cases (Entries.get?_of_mem once entry).symm.trans listed
    cases again.symm.trans reads
    rfl

theorem ReadAt.holds (distinct : start.root.KeysDistinct) (reads : ReadAt start kind read component a)
    (sections : ∀ all, start.root.get? "components" = some all → ∃ members, all = .object members ∧
      readSection start members kind (sharedComponent read wrap) =
        .ok (d.components.filter fun component => component.kind == kind))
    (kinds : ∀ name a, (wrap name a).kind = kind) (names : ∀ name a, (wrap name a).name = name)
    (known : Pointer.index? kind.segment = none) (other : kind ≠ .schemas) :
    ∀ name ∈ component, d.analyze.Holds (wrap name a) := by
  intro name named
  obtain ⟨target, found, read⟩ := reads name named
  obtain ⟨all, section_, held, inside, listed⟩ := find?_component known found
  obtain ⟨members, rfl, accepted⟩ := sections all held
  have holds := holds_of_section distinct held accepted kinds names inside listed read
  exact holds.analyze (kinds name a ▸ other)

-- Places that differ in where they stand and not in what they read from: whatever was
-- passed on the way, a component is read under the same conditions.
def SameSource (start p : Place) : Prop := ∀ tokens, p.at_ tokens = start.at_ tokens

theorem SameSource.root (same : SameSource start p) : p.root = start.root := by
  have roots := congrArg Place.root (same [])
  exact roots

theorem resolveHere_found (known : ∀ segment, kind ≠ .other segment) (accepted : resolveHere p text kind = .ok (name, target)) :
    Pointer.find? p.root ["components", kind.segment, name] = some target := by
  unfold resolveHere at accepted
  obtain ⟨settled, inResolve, accepted⟩ := bind_ok.mp accepted
  unfold resolve at inResolve
  obtain ⟨reference, _, inResolve⟩ := bind_ok.mp inResolve
  dsimp only at inResolve
  split at inResolve
  · cases inResolve
  · rename_i fits
    have fits : reference.kind = kind := not_not.mp fits
    split at inResolve
    · cases inResolve
      cases accepted
    · rename_i here
      have looked : target? p reference = Pointer.find? p.root ["components", reference.kind.segment, reference.name] :=
        target?_standard rfl (by simpa using here) (fits ▸ known)
      split at inResolve
      · cases inResolve
      · rename_i standing target_in
        split at inResolve
        · cases inResolve
        · cases inResolve
          cases accepted
          rw [← fits, ← looked, target_in]

theorem resolved_reads (known : ∀ segment, kind ≠ .other segment) (same : SameSource start p) {component : α → Option String}
    (named : ∀ p value own a, read p value own = .ok a → component a = own)
    (accepted : resolved kind read p value = .ok a) : ReadAt start kind read (component a) a := by
  unfold resolved at accepted
  obtain ⟨reference, _, accepted⟩ := bind_ok.mp accepted
  split at accepted
  · rw [named _ _ _ _ accepted]
    exact nofun
  · obtain ⟨⟨name, target⟩, found, accepted⟩ := bind_ok.mp accepted
    dsimp only at accepted
    rw [named _ _ _ _ accepted]
    rintro _ ⟨⟩
    rw [same] at accepted
    exact ⟨target, same.root ▸ resolveHere_found known found, accepted⟩

theorem readParameterBody_component (accepted : readParameterBody p value own = .ok parameter) : parameter.component = own := by
  unfold readParameterBody at accepted
  obtain ⟨m, _, accepted⟩ := bind_ok.mp accepted
  split at accepted
  · split at accepted
    · obtain ⟨location, _, accepted⟩ := bind_ok.mp accepted
      obtain ⟨schema, _, accepted⟩ := bind_ok.mp accepted
      cases accepted
      rfl
    · cases accepted
  · cases accepted

theorem readRequestBodyBody_component (accepted : readRequestBodyBody p value own = .ok body) : body.component = own := by
  obtain ⟨m, _, accepted⟩ := bind_ok.mp accepted
  obtain ⟨content, _, accepted⟩ := bind_ok.mp accepted
  cases accepted
  rfl

theorem readResponseBody_component (accepted : readResponseBody p value own = .ok response) : response.component = own := by
  obtain ⟨m, _, accepted⟩ := bind_ok.mp accepted
  obtain ⟨headers, _, accepted⟩ := bind_ok.mp accepted
  obtain ⟨content, _, accepted⟩ := bind_ok.mp accepted
  cases accepted
  rfl

abbrev OperationReads (start : Place) : Operation → Prop :=
  Operation.Throughout (fun parameter => ReadAt start .parameters readParameterBody parameter.component parameter)
    (fun body => ReadAt start .requestBodies readRequestBodyBody body.component body)
    (fun response => ReadAt start .responses readResponseBody response.component response)

theorem readParameter_reads (same : SameSource start p) (accepted : readParameter p value = .ok parameter) :
    ReadAt start .parameters readParameterBody parameter.component parameter :=
  resolved_reads (by simp) same (fun _ _ _ _ => readParameterBody_component) accepted

theorem readParameterList_reads (same : SameSource start p) (accepted : readParameterList p value = .ok parameters) :
    ∀ parameter ∈ parameters, ReadAt start .parameters readParameterBody parameter.component parameter := by
  obtain ⟨items, _, accepted⟩ := bind_ok.mp accepted
  intro parameter listed
  obtain ⟨item, _, one⟩ := mapM_mem accepted listed
  exact readParameter_reads (p := p.token item.1) same one

theorem at?_reads {m : Members} {read : Json → Except Failure α} {P : α → Prop}
    (each : ∀ value a, read value = .ok a → P a) (accepted : m.at? key read = .ok found) : ∀ a ∈ found, P a := by
  rintro a ⟨⟩
  obtain ⟨value, _, one⟩ := at?_ok.mp accepted
  exact each value a one

theorem at?_listed {m : Members} {read : Json → Except Failure (List α)} {P : α → Prop}
    (each : ∀ value list, read value = .ok list → ∀ a ∈ list, P a) (accepted : m.at? key read = .ok found) :
    ∀ a ∈ found.getD [], P a := by
  intro a listed
  cases found with
  | none => cases listed
  | some list => exact at?_reads each accepted list rfl a listed

theorem readResponses_reads (same : SameSource start p) (accepted : readResponses p value = .ok responses) :
    ∀ r ∈ responses, ReadAt start .responses readResponseBody r.response.component r.response := by
  obtain ⟨declared, _, accepted⟩ := bind_ok.mp accepted
  intro r listed
  obtain ⟨⟨status, inner⟩, _, one⟩ := mapM_mem accepted listed
  obtain ⟨response, read, wrapped⟩ := bind_ok.mp one
  cases wrapped
  exact resolved_reads (p := p.token status) (by simp) same (fun _ _ _ _ => readResponseBody_component) read

theorem readOperation_reads (same : SameSource start p) {shared : Shared}
    (before : ∀ parameter ∈ shared.parameters, ReadAt start .parameters readParameterBody parameter.component parameter)
    (accepted : readOperation shared p method value = .ok o) : OperationReads start o := by
  obtain ⟨m, _, accepted⟩ := bind_ok.mp accepted
  obtain ⟨own, inOwn, accepted⟩ := bind_ok.mp accepted
  obtain ⟨body, inBody, accepted⟩ := bind_ok.mp accepted
  obtain ⟨responses, inResponses, accepted⟩ := bind_ok.mp accepted
  obtain ⟨security, _, accepted⟩ := bind_ok.mp accepted
  cases accepted
  have parameters : ∀ parameter ∈ (own.getD []).foldl mergeParameter shared.parameters,
      ReadAt start .parameters readParameterBody parameter.component parameter := by
    intro parameter listed
    rcases mem_foldl_mergeParameter listed with older | new
    · exact before parameter older
    · exact at?_listed (fun _ _ => readParameterList_reads (p := p.token "parameters") same) inOwn parameter new
  refine ⟨parameters, ?_, ?_, ?_⟩
  · intro parameter listed
    exact parameters parameter (mem_ofParameters listed)
  · exact at?_reads (fun _ _ => resolved_reads (p := p.token "requestBody") (by simp) same
      fun _ _ _ _ => readRequestBodyBody_component) inBody
  · exact at?_listed (fun _ _ => readResponses_reads (p := p.token "responses") same) inResponses

theorem readPathItem_reads (same : SameSource start p) (accepted : readPathItem p security path value = .ok operations) :
    ∀ o ∈ operations, OperationReads start o := by
  obtain ⟨m, _, accepted⟩ := bind_ok.mp accepted
  dsimp only at accepted
  split at accepted
  · cases accepted
  · obtain ⟨own, inOwn, accepted⟩ := bind_ok.mp accepted
    intro o listed
    obtain ⟨⟨key, method, inner⟩, _, one⟩ := mapM_mem accepted listed
    refine readOperation_reads (p := p.token key) same ?_ one
    exact at?_listed (fun _ _ => readParameterList_reads (p := p.token "parameters") same) inOwn

theorem readPaths_reads (accepted : readPaths start security = .ok operations) :
    ∀ o ∈ operations, OperationReads start o := by
  intro o listed
  unfold readPaths at accepted
  split at accepted
  · cases accepted
    cases listed
  · split at accepted
    · rename_i paths _
      obtain ⟨groups, inGroups, accepted⟩ := bind_ok.mp accepted
      cases accepted
      obtain ⟨group, inside, member⟩ := List.mem_flatten.mp listed
      obtain ⟨⟨path, item⟩, _, one⟩ := mapM_mem inGroups inside
      exact readPathItem_reads (fun _ => rfl) one o member
    · cases accepted

-- What an operation shows of a component is the component, however it came to it.
theorem build_shared (distinct : source.KeysDistinct) (built : build maxDepth source = .ok d) :
    ∀ o ∈ d.operations, o.Throughout (fun parameter => ∀ name ∈ parameter.component, d.Holds (.parameter name parameter))
      (fun body => ∀ name ∈ body.component, d.Holds (.requestBody name body))
      (fun response => ∀ name ∈ response.component, d.Holds (.response name response)) := by
  obtain ⟨document, inComponents, ⟨security, inOperations⟩, rfl⟩ := build_parts built
  intro o listed
  refine (readPaths_reads inOperations o listed).imp ?_ ?_ ?_
  · intro parameter reads
    refine reads.holds distinct (fun all held => ?_) (fun _ _ => rfl) (fun _ _ => rfl) (by decide) (by decide)
    obtain ⟨members, same, parameters, _, _⟩ := readComponents_kinds inComponents held
    exact ⟨members, same, parameters⟩
  · intro body reads
    refine reads.holds distinct (fun all held => ?_) (fun _ _ => rfl) (fun _ _ => rfl) (by decide) (by decide)
    obtain ⟨members, same, _, _, bodies⟩ := readComponents_kinds inComponents held
    exact ⟨members, same, bodies⟩
  · intro response reads
    refine reads.holds distinct (fun all held => ?_) (fun _ _ => rfl) (fun _ _ => rfl) (by decide) (by decide)
    obtain ⟨members, same, _, responses, _⟩ := readComponents_kinds inComponents held
    exact ⟨members, same, responses⟩

def sharedDescription : Json := .object [
  ("openapi", .string "3.1.0"),
  ("paths", .object [("/pets", .object [
    ("parameters", .array [.object [("$ref", .string "#/components/parameters/a~1b")]]),
    ("put", .object [
      ("requestBody", .object [("$ref", .string "#/components/requestBodies/Pet")]),
      ("responses", .object [("404", .object [("$ref", .string "#/components/responses/Missing")])])])])]),
  ("components", .object [
    ("parameters", .object [("a/b", .object [
      ("name", .string "id"), ("in", .string "path"), ("schema", .object [("type", .string "integer")])])]),
    ("requestBodies", .object [("Pet", .object [("content", .object [("application/json", .object [
      ("schema", .object [("type", Json.ofStrings ["object", "null"])])])])])]),
    ("responses", .object [("Missing", .object [("headers", .object [("X", .object [
      ("schema", .object [("type", .string "string")])])])])])])]

def namedComponents (d : Document) : List (List (Option String) × Option String × List (Option String)) :=
  d.operations.map fun o => (o.parameters.map Parameter.component, o.requestBody.bind RequestBody.component,
    o.responses.map fun r => r.response.component)

theorem build_shared_named : sharedDescription.KeysDistinct ∧ ∃ d, build 4 sharedDescription = .ok d ∧
    ∃ o ∈ d.operations, (∃ parameter ∈ o.parameters, d.Holds (.parameter "a/b" parameter)) ∧
      (∃ body ∈ o.requestBody, d.Holds (.requestBody "Pet" body)) ∧
      ∃ r ∈ o.responses, d.Holds (.response "Missing" r.response) := by
  have distinct : sharedDescription.KeysDistinct := by
    simp [sharedDescription, Json.ofStrings, Entries.Distinct, Entries.keys]
  have names : (build 4 sharedDescription).toOption.map namedComponents =
      some [([some "a/b"], some "Pet", [some "Missing"])] := by decide +kernel
  cases built : build 4 sharedDescription with
  | error failure => simp [built, Except.toOption] at names
  | ok d =>
    rw [built] at names
    obtain ⟨o, rest, operations, named, _⟩ := List.map_eq_cons_iff.mp (Option.some.inj names)
    obtain ⟨parameters, others⟩ := Prod.mk.inj named
    obtain ⟨body, responses⟩ := Prod.mk.inj others
    have listed : o ∈ d.operations := operations ▸ List.mem_cons_self
    have shared := build_shared distinct built o listed
    obtain ⟨parameter, inside, first⟩ := List.mem_map.mp (parameters ▸ List.mem_cons_self : some "a/b" ∈ _)
    obtain ⟨held, given, second⟩ := Option.bind_eq_some_iff.mp body
    obtain ⟨r, among, third⟩ := List.mem_map.mp (responses ▸ List.mem_cons_self : some "Missing" ∈ _)
    exact ⟨distinct, d, rfl, o, listed, ⟨parameter, inside, shared.parameters parameter inside "a/b" first⟩,
      ⟨held, given, shared.body held given "Pet" second⟩, r, among, shared.responses r among "Missing" third⟩

end OpenApi
end SchemaAtlas
