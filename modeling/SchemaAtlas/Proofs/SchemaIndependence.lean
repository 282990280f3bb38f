import SchemaAtlas.Proofs.Build
import SchemaAtlas.Proofs.BuildTerms
import SchemaAtlas.Proofs.Places
import SchemaAtlas.Proofs.Reanalysis

namespace SchemaAtlas

namespace Json

-- Two values that are one but for what stands at the end of a path: `old` in the first and
-- `new` in the second.
inductive Replaces (old new : Json) : List String → Json → Json → Prop where
  | here : Replaces old new [] old new
  | member {front back : Entries Json} : Entries.get? front key = none → Replaces old new rest one two →
      Replaces old new (key :: rest) (.object (front ++ (key, one) :: back)) (.object (front ++ (key, two) :: back))

namespace Replaces

variable {old new one two : Json} {rest : List String}

theorem get?_other (replaces : Replaces old new (key :: rest) one two) (apart : other ≠ key) :
    two.get? other = one.get? other := by
  cases replaces with
  | member first inner =>
    simp only [Json.get?, Entries.get?, List.lookup_append, List.lookup_cons, beq_eq_false_iff_ne.mpr apart]

theorem get?_key (replaces : Replaces old new (key :: rest) one two) :
    ∃ a b, one.get? key = some a ∧ two.get? key = some b ∧ Replaces old new rest a b := by
  cases replaces with
  | member first inner =>
    refine ⟨_, _, ?_, ?_, inner⟩
    all_goals
      unfold Entries.get? at first
      simp [Json.get?, Entries.get?, List.lookup_append, first]

theorem step? (replaces : Replaces old new (key :: rest) one two) (token : String) :
    Pointer.step? one token = one.get? token ∧ Pointer.step? two token = two.get? token := by
  cases replaces with
  | member => exact ⟨rfl, rfl⟩

theorem find?_apart (front : List String) {back others : List String}
    (replaces : Replaces old new (front ++ key :: back) one two) (apart : other ≠ key) :
    Pointer.find? two (front ++ other :: others) = Pointer.find? one (front ++ other :: others) := by
  induction front generalizing one two with
  | nil =>
    obtain ⟨first, second⟩ := replaces.step? other
    rw [List.nil_append, Pointer.find?, Pointer.find?, first, second, replaces.get?_other apart]
  | cons token front ih =>
    obtain ⟨first, second⟩ := replaces.step? token
    obtain ⟨a, b, inOne, inTwo, inner⟩ := replaces.get?_key
    rw [List.cons_append, Pointer.find?, Pointer.find?, first, second, inOne, inTwo]
    exact ih inner

theorem find?_end {tokens : List String} (replaces : Replaces old new tokens one two) :
    Pointer.find? one tokens = some old ∧ Pointer.find? two tokens = some new := by
  induction tokens generalizing one two with
  | nil =>
    cases replaces
    exact ⟨rfl, rfl⟩
  | cons token tokens ih =>
    obtain ⟨first, second⟩ := replaces.step? token
    obtain ⟨a, b, inOne, inTwo, inner⟩ := replaces.get?_key
    rw [Pointer.find?, Pointer.find?, first, second, inOne, inTwo]
    exact ih inner

end Replaces
end Json

namespace OpenApi

variable {old new one two : Json} {name : String} {ceiling : Nat} {p : Place}

def ExchangesSchema (name : String) (old new one two : Json) : Prop :=
  Json.Replaces old new ["components", "schemas", name] one two

def SameLink (a b : Json) : Prop := b.get? "$ref" = a.get? "$ref"

namespace ExchangesSchema

theorem other_section {segment : String} (exchanges : ExchangesSchema name old new one two) (apart : segment ≠ "schemas")
    (other : String) :
    Pointer.find? two ["components", segment, other] = Pointer.find? one ["components", segment, other] :=
  Json.Replaces.find?_apart ["components"] exchanges apart

theorem schema (exchanges : ExchangesSchema name old new one two) (plain : SameLink old new) (other : String) :
    Option.Rel SameLink (Pointer.find? one ["components", "schemas", other])
      (Pointer.find? two ["components", "schemas", other]) := by
  by_cases same : other = name
  · obtain ⟨inOne, inTwo⟩ := Json.Replaces.find?_end exchanges
    rw [same, inOne, inTwo]
    exact .some plain
  · have apart : Pointer.find? two ["components", "schemas", other] = Pointer.find? one ["components", "schemas", other] :=
      Json.Replaces.find?_apart ["components", "schemas"] exchanges same
    rw [apart]
    cases Pointer.find? one ["components", "schemas", other] with
    | none => exact .none
    | some value => exact .some rfl

end ExchangesSchema

theorem resolve_exchanged (R : Json → Json → Prop) {q : Place} {f g : Resolved → Except Failure α}
    (found : ∀ r : ComponentRef, r.kind = kind → r.isExternal = false → Option.Rel R (target? p r) (target? q r))
    (link : ∀ a b, R a b → SameLink a b) (path : q.path = p.path)
    (next : ∀ r a b, R a b → f (.component r a) = g (.component r b)) (lifted : ∀ r, f (.lifted r) = g (.lifted r)) :
    KeptUnless (fun _ => True) (resolve p text kind >>= f) (resolve q text kind >>= g) := by
  unfold resolve
  have classified : classify q text = classify p text := by
    unfold classify
    rw [path]
  rw [classified]
  cases classify p text with
  | error e => exact .stopped trivial
  | ok r =>
    dsimp only [bind, Except.bind]
    by_cases fits : r.kind = kind
    · rw [if_neg (not_not.mpr fits), if_neg (not_not.mpr fits)]
      by_cases outside : r.isExternal = true
      · rw [if_pos outside, if_pos outside]
        exact .of_eq (lifted r)
      · rw [if_neg outside, if_neg outside]
        have both := found r fits (Bool.eq_false_iff.mpr outside)
        generalize target? p r = a? at both
        generalize target? q r = b? at both
        cases both with
        | none => exact .stopped trivial
        | @some a b alike =>
          dsimp only
          rw [link a b alike]
          cases a.get? "$ref" with
          | some further => exact .stopped trivial
          | none => exact .of_eq (next r a b alike)
    · rw [if_pos fits]
      exact .stopped trivial

theorem agree_exchanged (exchanges : ExchangesSchema name old new one two) (plain : SameLink old new) (ceiling : Nat) :
    Terms.Agree (fun _ => True) ⟨one, ceiling⟩ ⟨two, ceiling⟩ := by
  refine ⟨Nat.le_refl _, fun _ _ => trivial, fun text p => ?_, fun kind inPlace text p => ?_⟩
  · refine resolve_exchanged SameLink (fun r fits here => ?_) (fun _ _ link => link) rfl (fun _ _ _ _ => rfl) fun _ => rfl
    rw [target?_standard rfl here (by simp [fits]), target?_standard rfl here (by simp [fits]), fits]
    exact exchanges.schema plain r.name
  · refine resolve_exchanged Eq (fun r fits here => ?_) (fun _ _ same => same ▸ rfl) rfl ?_ fun _ => rfl
    · have known : ∀ segment, r.kind ≠ .other segment := by
        rintro segment same
        rw [← fits, same] at inPlace
        cases inPlace
      have apart : kind.segment ≠ "schemas" := by
        cases kind with
        | parameters | responses | requestBodies | headers => decide
        | _ => cases inPlace
      rw [target?_standard rfl here known, target?_standard rfl here known, fits, Place.under, Place.under,
        exchanges.other_section apart]
      cases Pointer.find? one ["components", kind.segment, r.name] with
      | none => exact .none
      | some value => exact .some rfl
    · rintro r a _ rfl
      rfl

def SameBut (name : String) (c d : Component) : Prop :=
  d = c ∨ ∃ node other, c = .schema name node ∧ d = .schema name other

theorem SameBut.mapSchema (same : SameBut name c d) (f : String → SchemaNode → SchemaNode) :
    SameBut name (c.mapSchema f) (d.mapSchema f) := by
  rcases same with rfl | ⟨node, other, rfl, rfl⟩
  · exact .inl rfl
  · exact .inr ⟨_, _, rfl, rfl⟩

theorem forall₂_meet {S : α → β → Prop} {R : α → γ → Prop} {R' : β → δ → Prop} {T : γ → δ → Prop}
    (sources : List.Forall₂ S as bs) (first : List.Forall₂ R as cs) (second : List.Forall₂ R' bs ds)
    (each : ∀ a b c d, S a b → R a c → R' b d → T c d) : List.Forall₂ T cs ds := by
  induction sources generalizing cs ds with
  | nil =>
    cases first
    cases second
    exact .nil
  | cons here _ ih =>
    cases first with
    | cons one first =>
      cases second with
      | cons two second => exact .cons (each _ _ _ _ here one two) (ih first second)

theorem entries_exchanged (replaces : Json.Replaces old new [name] (.object first) (.object second)) :
    List.Forall₂ (fun a b => b = a ∨ a.1 = name ∧ b.1 = name) first second := by
  cases replaces with
  | @member front back fresh inner =>
    have same (entries : Entries Json) : List.Forall₂ (fun a b => b = a ∨ a.1 = name ∧ b.1 = name) entries entries :=
      List.forall₂_same.mpr fun _ _ => .inl rfl
    exact List.rel_append (same _) (.cons (.inr ⟨rfl, rfl⟩) (same _))

theorem readSection_exchanged {read : Place → Json → String → Except Failure Component}
    (each : ∀ value name, Kept (fun _ => True) ⟨one, ceiling⟩ ⟨two, ceiling⟩ (read · value name) (read · value name))
    (same : Entries.get? second kind.segment = Entries.get? first kind.segment)
    (accepted : readSection (Place.start one ceiling) first kind read = .ok found)
    (other : readSection (Place.start two ceiling) second kind read = .ok found') : found' = found := by
  have keeps : KeptUnless (fun _ => True) (readSection (Place.start one ceiling) first kind read)
      (readSection (Place.start two ceiling) first kind read) :=
    readSection_kept first kind each (Place.start one ceiling)
  have moved : readSection (Place.start two ceiling) second kind read =
      readSection (Place.start two ceiling) first kind read := by
    unfold readSection
    rw [same]
  have kept := keeps.ok accepted
  rw [← moved, other] at kept
  exact Except.ok.inj kept

theorem schemas_exchanged (agree : Terms.Agree (fun _ => True) ⟨one, ceiling⟩ ⟨two, ceiling⟩)
    (replaces : Json.Replaces old new ["schemas", name] (.object first) (.object second))
    (accepted : readSection (Place.start one ceiling) first .schemas schemaComponent = .ok found)
    (other : readSection (Place.start two ceiling) second .schemas schemaComponent = .ok found') :
    List.Forall₂ (SameBut name) found found' := by
  obtain ⟨a, b, inFirst, inSecond, inner⟩ := replaces.get?_key
  rcases readSection_parts accepted with ⟨_, missing⟩ | ⟨entries, held, all⟩
  · cases missing.symm.trans inFirst
  rcases readSection_parts other with ⟨_, missing⟩ | ⟨entries', held', all'⟩
  · cases missing.symm.trans inSecond
  cases held.symm.trans inFirst
  cases held'.symm.trans inSecond
  refine forall₂_meet (entries_exchanged inner) all all' ?_
  rintro entry entry' c d (rfl | ⟨named, named'⟩) readOne readTwo
  · have keeps := schemaComponent_kept agree entry'.2 entry'.1
      ((Place.start one ceiling).at_ ["components", "schemas", entry'.1])
    have kept := keeps.ok readOne
    exact .inl (Except.ok.inj (readTwo.symm.trans kept))
  · obtain ⟨node, _, rfl⟩ := map_ok.mp readOne
    obtain ⟨other, _, rfl⟩ := map_ok.mp readTwo
    rw [named, named']
    exact .inr ⟨node, other, rfl, rfl⟩

theorem readComponents_exchanged (exchanges : ExchangesSchema name old new one two) (plain : SameLink old new)
    (accepted : readComponents (Place.start one ceiling) = .ok components)
    (other : readComponents (Place.start two ceiling) = .ok components') :
    List.Forall₂ (SameBut name) components components' := by
  have agree := agree_exchanged exchanges plain ceiling
  obtain ⟨a, b, inOne, inTwo, inner⟩ := exchanges.get?_key
  rcases readComponents_parts accepted with ⟨_, missing⟩ |
    ⟨first, schemas, parameters, responses, bodies, schemes, held, inSchemas, inParameters, inResponses, inBodies, inSchemes, rfl⟩
  · cases missing.symm.trans inOne
  rcases readComponents_parts other with ⟨_, missing⟩ |
    ⟨second, schemas', parameters', responses', bodies', schemes', held', inSchemas', inParameters', inResponses', inBodies', inSchemes', rfl⟩
  · cases missing.symm.trans inTwo
  cases held.symm.trans inOne
  cases held'.symm.trans inTwo
  have section_ (kind : Section) (apart : kind.segment ≠ "schemas") :
      Entries.get? second kind.segment = Entries.get? first kind.segment := inner.get?_other apart
  obtain rfl := readSection_exchanged (parameterComponent_kept agree) (section_ _ (by decide)) inParameters inParameters'
  obtain rfl := readSection_exchanged (responseComponent_kept agree) (section_ _ (by decide)) inResponses inResponses'
  obtain rfl := readSection_exchanged (requestBodyComponent_kept agree) (section_ _ (by decide)) inBodies inBodies'
  obtain rfl := readSection_exchanged securitySchemeComponent_kept (section_ _ (by decide)) inSchemes inSchemes'
  have own (components : List Component) : List.Forall₂ (SameBut name) components components :=
    List.forall₂_same.mpr fun _ _ => .inl rfl
  refine List.rel_append (List.rel_append (List.rel_append (List.rel_append ?_ (own _)) (own _)) (own _)) (own _)
  exact schemas_exchanged agree inner inSchemas inSchemas'

-- With one schema exchanged for another, neither of them a mere reference, a description gives
-- the same operations and the same components, all but that one schema, up to what the analysis
-- writes.
theorem build_exchanged {old new : Entries Json} (exchanges : ExchangesSchema name (.object old) (.object new) one two)
    (plain : Entries.get? old "$ref" = none) (plain' : Entries.get? new "$ref" = none)
    (built : build maxDepth one = .ok d) (built' : build maxDepth two = .ok e) :
    e.operations = d.operations ∧ List.Forall₂ (SameBut name) d.unanalyzed.components e.unanalyzed.components := by
  have link : SameLink (.object old) (.object new) := plain'.trans plain.symm
  have agree := agree_exchanged exchanges link maxDepth
  obtain ⟨root, security, document, rfl, inSecurity, inComponents, inOperations, rfl⟩ := build_steps built
  obtain ⟨root', security', document', rfl, inSecurity', inComponents', inOperations', rfl⟩ := build_steps built'
  constructor
  · have required : Entries.get? root' "security" = Entries.get? root "security" := exchanges.get?_other (by decide)
    have paths : Json.get? (.object root') "paths" = Json.get? (.object root) "paths" := exchanges.get?_other (by decide)
    have secured : security' = security := by
      unfold Members.at? at inSecurity inSecurity'
      rw [required] at inSecurity'
      exact Except.ok.inj (inSecurity'.symm.trans inSecurity)
    subst secured
    have keeps : KeptUnless (fun _ => True) (readPaths (Place.start (.object root) maxDepth) security')
        (readPaths (Place.start (.object root') maxDepth) security') :=
      readPaths_kept agree paths security' (Place.start (.object root) maxDepth)
    exact Except.ok.inj (inOperations'.symm.trans (keeps.ok inOperations))
  · rw [Document.unanalyzed_analyze, Document.unanalyzed_analyze]
    refine List.rel_map (fun c d same => ?_) (readComponents_exchanged exchanges link inComponents inComponents')
    exact same.mapSchema _

def ownedDescription (owner : Entries Json) : Json := .object ([
  ("openapi", .string "3.1.0"),
  ("paths", .object [("/owners", .object [("get", .object [
    ("parameters", .array [.object [("name", .string "sort"), ("in", .string "query"),
      ("schema", .object [("$ref", .string "#/components/schemas/Owner")])]])])])])] ++
  ("components", .object ([] ++ ("schemas", .object ([
    ("Pet", .object [("items", .object [("$ref", .string "#/components/schemas/Owner")])])] ++
    ("Owner", .object owner) :: [])) :: [])) :: [])

theorem build_exchanged_owner : ∃ d e,
    ExchangesSchema "Owner" (.object [("type", .string "string")]) (.object [("items", .bool true)])
      (ownedDescription [("type", .string "string")]) (ownedDescription [("items", .bool true)]) ∧
    build 4 (ownedDescription [("type", .string "string")]) = .ok d ∧
    build 4 (ownedDescription [("items", .bool true)]) = .ok e ∧ e.operations = d.operations ∧
    List.Forall₂ (SameBut "Owner") d.unanalyzed.components e.unanalyzed.components := by
  have exchanges : ExchangesSchema "Owner" (.object [("type", .string "string")]) (.object [("items", .bool true)])
      (ownedDescription [("type", .string "string")]) (ownedDescription [("items", .bool true)]) :=
    .member rfl (.member rfl (.member rfl .here))
  have first : (build 4 (ownedDescription [("type", .string "string")])).isOk = true := by decide +kernel
  have second : (build 4 (ownedDescription [("items", .bool true)])).isOk = true := by decide +kernel
  cases built : build 4 (ownedDescription [("type", .string "string")]) with
  | error failure => simp [built, Except.isOk, Except.toBool] at first
  | ok d =>
    cases built' : build 4 (ownedDescription [("items", .bool true)]) with
    | error failure => simp [built', Except.isOk, Except.toBool] at second
    | ok e => exact ⟨d, e, exchanges, rfl, rfl, build_exchanged exchanges rfl rfl built built'⟩

end OpenApi
end SchemaAtlas
