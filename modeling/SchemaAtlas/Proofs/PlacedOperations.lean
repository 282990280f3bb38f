import SchemaAtlas.OpenApi.Build
import SchemaAtlas.Proofs.DocumentNodes
import SchemaAtlas.Proofs.PlacedSchemas

namespace SchemaAtlas
namespace OpenApi

variable {source value inner : Json} {ceiling : Nat} {p start : Place} {m : Members}

-- Security. What is read here holds no schema.

theorem readLocation_reports (stands : Stands source ceiling p value) (held : value.get? "in" = some inner) (name : String) :
    Reports source (fun _ => True) (readLocation p name) := by
  unfold readLocation
  split
  · exact .ok trivial
  · exact (stands.under held).shape

theorem text?_held (named : Members.text? m key = some text) : ∃ inner, m.get? key = some inner := by
  obtain ⟨inner, held, _⟩ := Option.bind_eq_some_iff.mp named
  exact ⟨inner, held⟩

theorem readFlow_reports (stands : Stands source ceiling p value) : Reports source (fun _ => True) (readFlow p value) := by
  unfold readFlow
  exact stands.objectOr.bind fun members _ => .ok trivial

theorem readFlows_reports (stands : Stands source ceiling p value) : Reports source (fun _ => True) (readFlows p value) := by
  -- Without an object there are no members.
  have member (key : String) {inner : Json} (held : Entries.get? (value.asObject?.getD []) key = some inner) :
      Stands source ceiling (p.token key) inner := by
    cases value with
    | object entries => exact stands.member held
    | _ => cases held
  unfold readFlows
  refine Reports.bind (Reports.at? fun inner held => readFlow_reports (member "implicit" held)) fun _ _ => ?_
  refine Reports.bind (Reports.at? fun inner held => readFlow_reports (member "password" held)) fun _ _ => ?_
  refine Reports.bind (Reports.at? fun inner held => readFlow_reports (member "clientCredentials" held)) fun _ _ => ?_
  refine Reports.bind (Reports.at? fun inner held => readFlow_reports (member "authorizationCode" held)) fun _ _ => ?_
  exact .ok trivial

theorem readSecurityScheme_reports (stands : Stands source ceiling p value) :
    Reports source (fun _ => True) (readSecurityScheme p value) := by
  unfold readSecurityScheme
  refine stands.objectOr.bind ?_
  rintro m rfl
  split
  · rename_i typeName named
    obtain ⟨inner, held⟩ := text?_held named
    split
    · refine Reports.bind (P := fun _ => True) ?_ ?_
      · cases located : Members.text? m "in" with
        | none => exact .ok trivial
        | some name =>
          obtain ⟨inner, held⟩ := text?_held located
          exact (readLocation_reports stands held name).map fun _ _ => trivial
      · intro location _
        refine Reports.bind (Reports.at? fun inner held => readFlows_reports (stands.member held)) fun flows _ => ?_
        exact .ok trivial
    · exact (stands.member held).shape
  · exact stands.shape

theorem readRequirements_reports (stands : Stands source ceiling p value) :
    Reports source (fun _ => True) (readRequirements p value) := by
  unfold readRequirements
  refine stands.arrayOr.bind ?_
  rintro items rfl
  refine Reports.mono (Reports.mapM (Q := fun _ => True) ?_) fun _ _ => trivial
  rintro ⟨index, item⟩ listed
  exact (stands.item listed).objectOr.bind fun members _ => .ok trivial

-- Records with schemas. Every tree that hangs in them nests, from the depth at which it is
-- read.

def AllNest (source : Json) (ceiling : Nat) (roots : List SchemaNode) : Prop :=
  ∀ root ∈ roots, ∃ depth, Nests source ceiling depth root

theorem allNest_append : AllNest source ceiling (front ++ back) ↔ AllNest source ceiling front ∧ AllNest source ceiling back :=
  List.forall_mem_append

theorem allNest_flatMap {roots : α → List SchemaNode} {items : List α}
    (each : ∀ item ∈ items, AllNest source ceiling (roots item)) : AllNest source ceiling (items.flatMap roots) := by
  intro root listed
  obtain ⟨item, inside, hangs⟩ := List.mem_flatMap.mp listed
  exact each item inside root hangs

theorem resolved_reports {read : Place → Json → Option String → Except Failure α} {P : α → Prop}
    (known : ∀ segment, kind ≠ .other segment)
    (reads : ∀ p value component, Stands source ceiling p value → Reports source P (read p value component))
    (stands : Stands source ceiling p value) : Reports source P (resolved kind read p value) := by
  unfold resolved
  refine (referenceOf_reports stands).bind fun found _ => ?_
  split
  · exact reads p value none stands
  · refine (resolveHere_reports stands known).bind ?_
    rintro ⟨name, target⟩ found
    exact reads _ target _ (stands.at_ found)

theorem schemaUnder_reports (stands : Stands source ceiling p value) (required : Bool) :
    Reports source (fun found => AllNest source ceiling found.toList) (schemaUnder p required value) := by
  unfold schemaUnder
  split
  · refine .ok ?_
    intro root listed
    cases listed
  · rename_i schema held
    refine (readSchema_reports _ _ (stands.under held).child.withRequired).map ?_
    intro node nests root listed
    obtain rfl := List.mem_singleton.mp listed
    exact ⟨_, nests⟩

theorem firstContentSchema_reports (stands : Stands source ceiling p value) (required : Bool) :
    Reports source (fun found => AllNest source ceiling found.toList) (firstContentSchema p required value) := by
  unfold firstContentSchema
  split
  · exact schemaUnder_reports (stands.entry List.mem_cons_self) required
  · refine .ok ?_
    intro root listed
    cases listed

theorem parameterSchema_reports (stands : Stands source ceiling p (.object m)) (required : Bool) :
    Reports source (fun found => AllNest source ceiling found.toList) (parameterSchema p m required) := by
  unfold parameterSchema
  split
  · exact schemaUnder_reports stands required
  · split
    · rename_i content held
      exact firstContentSchema_reports (stands.member held) required
    · refine .ok ?_
      intro root listed
      cases listed

theorem readParameterBody_reports (p : Place) (value : Json) (component : Option String) (stands : Stands source ceiling p value) :
    Reports source (fun parameter => AllNest source ceiling parameter.roots) (readParameterBody p value component) := by
  unfold readParameterBody
  refine stands.objectOr.bind ?_
  rintro m rfl
  split
  · split
    · rename_i located
      obtain ⟨inner, held⟩ := text?_held located
      refine (readLocation_reports stands held _).bind fun location _ => ?_
      dsimp only
      exact (parameterSchema_reports stands _).bind fun schema nests => .ok nests
    · exact stands.shape
  · exact stands.shape

theorem readParameter_reports (stands : Stands source ceiling p value) :
    Reports source (fun parameter => AllNest source ceiling parameter.roots) (readParameter p value) :=
  resolved_reports (by simp) readParameterBody_reports stands

theorem readParameterList_reports (stands : Stands source ceiling p value) :
    Reports source (fun parameters => ∀ parameter ∈ parameters, AllNest source ceiling parameter.roots)
      (readParameterList p value) := by
  unfold readParameterList
  refine stands.arrayOr.bind ?_
  rintro items rfl
  refine Reports.mapM ?_
  rintro ⟨index, item⟩ listed
  exact readParameter_reports (stands.item listed)

theorem mem_mergeParameter (listed : parameter ∈ mergeParameter parameters new) :
    parameter ∈ parameters ∨ parameter = new := by
  induction parameters with
  | nil => exact .inr (List.mem_singleton.mp listed)
  | cons other rest ih =>
    unfold mergeParameter at listed
    split at listed
    · rcases List.mem_cons.mp listed with rfl | later
      · exact .inr rfl
      · exact .inl (List.mem_cons_of_mem _ later)
    · rcases List.mem_cons.mp listed with rfl | later
      · exact .inl List.mem_cons_self
      · exact (ih later).imp (List.mem_cons_of_mem _) id

theorem mem_foldl_mergeParameter {own shared : List Parameter} (listed : parameter ∈ own.foldl mergeParameter shared) :
    parameter ∈ shared ∨ parameter ∈ own := by
  induction own generalizing shared with
  | nil => exact .inl listed
  | cons first rest ih =>
    rcases ih listed with before | later
    · rcases mem_mergeParameter before with old | rfl
      · exact .inl old
      · exact .inr List.mem_cons_self
    · exact .inr (List.mem_cons_of_mem _ later)

theorem mem_ofParameters {parameters : List Parameter}
    (listed : parameter ∈ (ParameterGroups.ofParameters parameters).path ++ (ParameterGroups.ofParameters parameters).query ++
      (ParameterGroups.ofParameters parameters).header ++ (ParameterGroups.ofParameters parameters).cookie) :
    parameter ∈ parameters := by
  simp only [ParameterGroups.ofParameters, List.mem_append, List.mem_filter] at listed
  tauto

theorem readMediaType_reports (stands : Stands source ceiling p value) :
    Reports source (fun media => AllNest source ceiling media.roots) (readMediaType p value) := by
  unfold readMediaType
  exact (schemaUnder_reports stands true).map fun _ nests => nests

theorem readContent_reports (stands : Stands source ceiling p (.object m)) :
    Reports source (fun content => AllNest source ceiling (contentRoots content)) (readContent p m) := by
  unfold readContent
  split
  · refine .ok ?_
    intro root listed
    cases listed
  · rename_i value held
    refine (stands.member held).objectOr.bind ?_
    rintro declared rfl
    refine Reports.mono (Reports.readEntries (Q := fun media => AllNest source ceiling media.roots) ?_)
      fun content nests => allNest_flatMap nests
    rintro ⟨media, entry⟩ listed
    exact readMediaType_reports ((stands.member held).entry listed)

theorem readRequestBodyBody_reports (p : Place) (value : Json) (component : Option String) (stands : Stands source ceiling p value) :
    Reports source (fun body => AllNest source ceiling body.roots) (readRequestBodyBody p value component) := by
  unfold readRequestBodyBody
  refine stands.objectOr.bind ?_
  rintro m rfl
  exact (readContent_reports stands).bind fun content nests => .ok nests

theorem readRequestBody_reports (stands : Stands source ceiling p value) :
    Reports source (fun body => AllNest source ceiling body.roots) (readRequestBody p value) :=
  resolved_reports (by simp) readRequestBodyBody_reports stands

theorem readHeaderBody_reports (p : Place) (value : Json) (component : Option String) (stands : Stands source ceiling p value) :
    Reports source (fun header => AllNest source ceiling header.roots) (readHeaderBody p value component) := by
  unfold readHeaderBody
  refine stands.objectOr.bind fun m _ => ?_
  dsimp only
  exact (schemaUnder_reports stands _).bind fun schema nests => .ok nests

theorem readHeader_reports (stands : Stands source ceiling p value) :
    Reports source (fun header => AllNest source ceiling header.roots) (readHeader p value) :=
  resolved_reports (by simp) readHeaderBody_reports stands

theorem readHeaders_reports (stands : Stands source ceiling p (.object m)) :
    Reports source (fun headers => ∀ entry ∈ headers, AllNest source ceiling entry.2.roots) (readHeaders p m) := by
  unfold readHeaders
  split
  · refine .ok ?_
    intro entry listed
    cases listed
  · rename_i value held
    refine (stands.member held).objectOr.bind ?_
    rintro declared rfl
    refine Reports.readEntries (Q := fun header : Header => AllNest source ceiling header.roots) ?_
    rintro ⟨name, header⟩ listed
    exact readHeader_reports ((stands.member held).entry listed)

theorem readResponseBody_reports (p : Place) (value : Json) (component : Option String) (stands : Stands source ceiling p value) :
    Reports source (fun response => AllNest source ceiling response.roots) (readResponseBody p value component) := by
  unfold readResponseBody
  refine stands.objectOr.bind ?_
  rintro m rfl
  refine (readHeaders_reports stands).bind fun headers nests => ?_
  refine (readContent_reports stands).bind fun content all => .ok ?_
  exact allNest_append.mpr ⟨all, allNest_flatMap nests⟩

theorem readResponse_reports (stands : Stands source ceiling p value) :
    Reports source (fun response => AllNest source ceiling response.roots) (readResponse p value) :=
  resolved_reports (by simp) readResponseBody_reports stands

theorem readResponses_reports (stands : Stands source ceiling p value) :
    Reports source (fun responses => ∀ r ∈ responses, AllNest source ceiling r.response.roots) (readResponses p value) := by
  unfold readResponses
  refine stands.objectOr.bind ?_
  rintro declared rfl
  refine Reports.mapM ?_
  rintro ⟨status, response⟩ listed
  exact (readResponse_reports (stands.entry listed)).bind fun response nests => .ok nests

theorem readOperation_reports (stands : Stands source ceiling p value) {shared : Shared} (method : HttpMethod)
    (nests : ∀ parameter ∈ shared.parameters, AllNest source ceiling parameter.roots) :
    Reports source (fun operation => AllNest source ceiling operation.roots) (readOperation shared p method value) := by
  unfold readOperation
  refine stands.objectOr.bind ?_
  rintro m rfl
  refine Reports.bind (Reports.at? fun inner held => readParameterList_reports (stands.member held)) fun own inOwn => ?_
  dsimp only
  refine Reports.bind (Reports.at? fun inner held => readRequestBody_reports (stands.member held)) fun body inBody => ?_
  refine Reports.bind (Reports.at? fun inner held => readResponses_reports (stands.member held)) fun responses inResponses => ?_
  refine Reports.bind (Reports.at? fun inner held => readRequirements_reports (stands.member held)) fun security _ => ?_
  have parameters : ∀ parameter ∈ (own.getD []).foldl mergeParameter shared.parameters,
      AllNest source ceiling parameter.roots := by
    intro parameter listed
    rcases mem_foldl_mergeParameter listed with old | new
    · exact nests parameter old
    · cases own with
      | none => cases new
      | some all => exact inOwn all rfl parameter new
  refine .ok ?_
  unfold Operation.roots ParameterGroups.roots
  simp only [allNest_append]
  refine ⟨⟨⟨allNest_flatMap parameters, ?_⟩, ?_⟩, ?_⟩
  · refine allNest_flatMap ?_
    intro parameter listed
    exact parameters parameter (mem_ofParameters listed)
  · refine allNest_flatMap ?_
    intro one given
    exact inBody one (Option.mem_toList.mp given)
  · refine allNest_flatMap ?_
    intro response listed
    cases responses with
    | none => cases listed
    | some all => exact inResponses all rfl response listed

theorem readPathItem_reports (stands : Stands source ceiling p value) (security : Option (List SecurityRequirement))
    (path : String) : Reports source (fun operations => ∀ o ∈ operations, AllNest source ceiling o.roots)
      (readPathItem p security path value) := by
  unfold readPathItem
  refine stands.objectOr.bind ?_
  rintro m rfl
  dsimp only
  split
  · exact stands.shape
  · refine Reports.bind (Reports.at? fun inner held => readParameterList_reports (stands.member held)) fun own inOwn => ?_
    refine Reports.mapM ?_
    rintro ⟨key, method, inner⟩ listed
    obtain ⟨⟨_, _⟩, member, same⟩ := List.mem_filterMap.mp listed
    obtain ⟨_, _, same⟩ := Option.map_eq_some_iff.mp same
    cases same
    refine readOperation_reports (stands.entry member) method ?_
    intro parameter inside
    cases own with
    | none => cases inside
    | some all => exact inOwn all rfl parameter inside

theorem find?_root (held : source.get? key = some value) (found : Pointer.find? value tokens = some inner) :
    Pointer.find? source (key :: tokens) = some inner := by
  have here : Pointer.step? source key = some value := by
    cases source with
    | object entries => exact held
    | _ => cases held
  rw [Pointer.find?, here, Option.bind_some, found]

theorem readPaths_reports (stands : Stands source ceiling start source) (security : Option (List SecurityRequirement)) :
    Reports source (fun operations => ∀ o ∈ operations, AllNest source ceiling o.roots) (readPaths start security) := by
  unfold readPaths
  rw [stands.root]
  split
  · refine .ok ?_
    intro o listed
    cases listed
  · rename_i value held
    split
    · rename_i paths same
      cases Json.asObject?_some same
      refine Reports.bind (Reports.mapM (Q := fun operations => ∀ o ∈ operations, AllNest source ceiling o.roots) ?_) ?_
      · rintro ⟨path, item⟩ listed
        have distinct := (stands.distinct.get? held)
        have member := Entries.get?_of_mem (Json.keysDistinct_object.mp distinct).1 listed
        refine readPathItem_reports (stands.at_ (find?_root held ?_)) security path
        rw [Pointer.find?, Pointer.step?, member]
        rfl
      · intro groups nests
        refine .ok ?_
        intro o listed
        obtain ⟨group, inside, member⟩ := List.mem_flatten.mp listed
        exact nests group inside o member
    · exact .error (by simp [Failure.path?])

theorem noAlias_reports (stands : Stands source ceiling p value) : Reports source (fun _ => True) (noAlias p value) := by
  unfold noAlias
  refine (referenceOf_reports stands).bind fun found _ => ?_
  split
  · exact stands.fails rfl
  · exact .ok trivial

theorem readSection_reports {components : Members} {read : Place → Json → String → Except Failure Component}
    (stands : Stands source ceiling start source) (held : source.get? "components" = some (.object components))
    (reads : ∀ p value name, Stands source ceiling p value → Reports source (fun c => AllNest source ceiling c.roots) (read p value name)) :
    Reports source (fun found => ∀ c ∈ found, AllNest source ceiling c.roots) (readSection start components kind read) := by
  unfold readSection
  split
  · refine .ok ?_
    intro c listed
    cases listed
  · rename_i entries inside
    have distinct := (Json.keysDistinct_object.mp ((stands.distinct.get? held).get? inside)).1
    refine Reports.mapM ?_
    rintro ⟨name, value⟩ listed
    refine reads _ value name (stands.at_ (find?_root held ?_))
    have member := Entries.get?_of_mem distinct listed
    simp [Pointer.find?, Pointer.step?, inside, member]
  · rename_i value _ inside
    have found : Pointer.find? (.object components) [kind.segment] = some value := by
      simp [Pointer.find?, Pointer.step?, inside]
    exact (stands.at_ (find?_root held found)).shape

theorem schemaComponent_reports (p : Place) (value : Json) (name : String) (stands : Stands source ceiling p value) :
    Reports source (fun c => AllNest source ceiling c.roots) (schemaComponent p value name) := by
  unfold schemaComponent
  refine (readSchema_reports p value stands).map ?_
  intro node nests root listed
  obtain rfl := List.mem_singleton.mp listed
  exact ⟨_, nests⟩

theorem parameterComponent_reports (p : Place) (value : Json) (name : String) (stands : Stands source ceiling p value) :
    Reports source (fun c => AllNest source ceiling c.roots) (parameterComponent p value name) := by
  unfold parameterComponent
  refine (noAlias_reports stands).bind fun _ _ => ?_
  exact (readParameterBody_reports p value _ stands).bind fun _ nests => .ok nests

theorem responseComponent_reports (p : Place) (value : Json) (name : String) (stands : Stands source ceiling p value) :
    Reports source (fun c => AllNest source ceiling c.roots) (responseComponent p value name) := by
  unfold responseComponent
  refine (noAlias_reports stands).bind fun _ _ => ?_
  exact (readResponseBody_reports p value _ stands).bind fun _ nests => .ok nests

theorem requestBodyComponent_reports (p : Place) (value : Json) (name : String) (stands : Stands source ceiling p value) :
    Reports source (fun c => AllNest source ceiling c.roots) (requestBodyComponent p value name) := by
  unfold requestBodyComponent
  refine (noAlias_reports stands).bind fun _ _ => ?_
  exact (readRequestBodyBody_reports p value _ stands).bind fun _ nests => .ok nests

theorem securitySchemeComponent_reports (p : Place) (value : Json) (name : String) (stands : Stands source ceiling p value) :
    Reports source (fun c => AllNest source ceiling c.roots) (securitySchemeComponent p value name) := by
  unfold securitySchemeComponent
  refine (noAlias_reports stands).bind fun _ _ => ?_
  refine (readSecurityScheme_reports stands).bind fun _ _ => .ok ?_
  intro root listed
  cases listed

theorem readComponents_reports (stands : Stands source ceiling start source) :
    Reports source (fun components => ∀ c ∈ components, AllNest source ceiling c.roots) (readComponents start) := by
  unfold readComponents
  rw [stands.root]
  split
  · refine .ok ?_
    intro c listed
    cases listed
  · rename_i value held
    split
    · rename_i components same
      cases Json.asObject?_some same
      refine (readSection_reports stands held schemaComponent_reports).bind fun schemas inSchemas => ?_
      refine (readSection_reports stands held parameterComponent_reports).bind fun parameters inParameters => ?_
      refine (readSection_reports stands held responseComponent_reports).bind fun responses inResponses => ?_
      refine (readSection_reports stands held requestBodyComponent_reports).bind fun bodies inBodies => ?_
      refine (readSection_reports stands held securitySchemeComponent_reports).bind fun schemes inSchemes => ?_
      refine .ok ?_
      simp only [List.forall_mem_append]
      exact ⟨⟨⟨⟨inSchemas, inParameters⟩, inResponses⟩, inBodies⟩, inSchemes⟩
    · exact .error (by simp [Failure.path?])

theorem checkVersion_reports : Reports source (fun _ => True) (checkVersion source) := by
  unfold checkVersion
  split
  · exact .error (by simp [Failure.path?])
  · split
    · exact .error (by simp [Failure.path?])
    · split
      · exact .ok trivial
      · exact .error (by simp [Failure.path?])

theorem build_nests (maxDepth : Nat) (distinct : source.KeysDistinct) :
    Reports source (fun d => ∃ document : Document, document.analyze = d ∧ AllNest source maxDepth document.roots)
      (build maxDepth source) := by
  have stands : Stands source maxDepth (Place.start source maxDepth) source := .start distinct
  unfold build
  split
  · rename_i root same
    cases Json.asObject?_some same
    refine checkVersion_reports.bind fun version _ => ?_
    dsimp only
    refine Reports.bind (Reports.at? (Q := fun _ => True) fun value held => ?_) fun security _ => ?_
    · exact readRequirements_reports (stands.at_ (find?_root held rfl))
    · refine (readComponents_reports stands).bind fun components inComponents => ?_
      refine (readPaths_reports stands security).bind fun operations inOperations => ?_
      refine .ok ⟨_, rfl, ?_⟩
      exact allNest_append.mpr ⟨allNest_flatMap inComponents, allNest_flatMap inOperations⟩
  · exact .error (by simp [Failure.path?])

theorem build_reports (maxDepth : Nat) (distinct : source.KeysDistinct) :
    Reports source (fun d => ∃ document : Document, document.analyze = d ∧ ∀ root ∈ document.roots, Closed source root)
      (build maxDepth source) := by
  refine (build_nests maxDepth distinct).mono ?_
  rintro d ⟨document, analyzed, nest⟩
  refine ⟨document, analyzed, fun root listed => ?_⟩
  obtain ⟨_, nests⟩ := nest root listed
  exact nests.closed

end OpenApi
end SchemaAtlas
