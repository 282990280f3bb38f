import SchemaAtlas.OpenApi.Build
import SchemaAtlas.Proofs.KeptUnless

namespace SchemaAtlas

def Section.readInPlace : Section → Bool
  | .parameters | .responses | .requestBodies | .headers => true
  | _ => false

namespace OpenApi

-- Two builds side by side. All that a reader learns of its document is what a reference
-- leads to, and how deep it may go: on two terms that agree on this, each reader gives the same.

structure Terms where
  root : Json
  ceiling : Nat

def Place.under (p : Place) (terms : Terms) : Place := { p with root := terms.root, maxDepth := terms.ceiling }

def Kept (stops : Failure → Prop) (one two : Terms) (first second : Place → Except Failure α) : Prop :=
  ∀ p : Place, KeptUnless stops (first (p.under one)) (second (p.under two))

-- What the two terms have to agree on. Of a schema that is referred to nothing is read.
structure Terms.Agree (stops : Failure → Prop) (one two : Terms) : Prop where
  higher : one.ceiling ≤ two.ceiling
  nesting : ∀ limit path, stops (.recursionLimit limit path)
  reference : ∀ text, Kept stops one two (readReference · text) (readReference · text)
  target : ∀ kind, kind.readInPlace = true → ∀ text, Kept stops one two (resolveHere · text kind) (resolveHere · text kind)

variable {stops : Failure → Prop} {one two : Terms} {low high : Descent} {m : Members}

theorem checkDepth_kept (agree : one.Agree stops two) : Kept stops one two Place.checkDepth Place.checkDepth := by
  intro p
  by_cases inside : p.depth ≤ one.ceiling
  · have within (terms : Terms) (held : p.depth ≤ terms.ceiling) : (p.under terms).checkDepth = .ok () := if_pos held
    rw [within one inside, within two (Nat.le_trans inside agree.higher)]
    exact .kept _
  · have beyond : (p.under one).checkDepth = .error (.recursionLimit one.ceiling p.path) := if_neg inside
    rw [beyond]
    exact .stopped (agree.nesting _ _)

theorem at?_kept {read read' : Json → Except Failure α} (key : String)
    (each : ∀ value, KeptUnless stops (read value) (read' value)) :
    KeptUnless stops (m.at? key read) (m.at? key read') := by
  unfold Members.at?
  cases m.get? key with
  | none => exact .kept _
  | some value => exact (each value).map _

theorem readEntries_kept {read read' : String → Json → Except Failure α} {entries : Entries Json}
    (each : ∀ key value, KeptUnless stops (read key value) (read' key value)) :
    KeptUnless stops (readEntries read entries) (readEntries read' entries) :=
  .mapM fun (key, value) _ => (each key value).map _

section Schemas

variable (agree : one.Agree stops two) (below : ∀ value, Kept stops one two (low · value) (high · value))

section

include below

theorem readMembers_kept (m : Members) (key : String) :
    Kept stops one two (readMembers low · m key) (readMembers high · m key) := by
  intro p
  refine at?_kept key fun value => ?_
  refine .after _ fun items => .mapM fun (index, item) _ => ?_
  exact below item ((p.token key).child index)

theorem readProperties_kept (m : Members) :
    Kept stops one two (readProperties low · m) (readProperties high · m) := by
  intro p
  refine at?_kept _ fun value => ?_
  refine .after _ fun declared => readEntries_kept fun name schema => ?_
  exact below schema (((p.token "properties").child name).withRequired ((m.texts "required").contains name))

theorem readAdditional_kept (value : Json) :
    Kept stops one two (readAdditional low · value) (readAdditional high · value) := by
  intro p
  unfold readAdditional
  split
  · exact .kept _
  · exact (below value (p.child "additionalProperties")).map _

theorem readParts_kept (m : Members) : Kept stops one two (readParts low · m) (readParts high · m) := by
  intro p
  refine (readProperties_kept below m p).bind fun properties => ?_
  refine (at?_kept "items" fun value => below value (p.child "items")).bind fun items => ?_
  refine (readMembers_kept below m "prefixItems" p).bind fun prefixItems => ?_
  refine (at?_kept "additionalProperties" fun value => readAdditional_kept below value p).bind fun additional => ?_
  refine (readMembers_kept below m "allOf" p).bind fun allOf => ?_
  refine (readMembers_kept below m "oneOf" p).bind fun oneOf => ?_
  exact (readMembers_kept below m "anyOf" p).bind fun anyOf => .kept _

theorem readBody_kept (m : Members) (type : Option SchemaType) (nullable : Bool) :
    Kept stops one two (readBody low · m type nullable) (readBody high · m type nullable) := by
  intro p
  refine .after _ fun keywords => ?_
  refine (readParts_kept below m p).bind fun parts => ?_
  exact .after _ fun discriminator => .kept _

theorem readUnion_kept (m : Members) (list : TypeList) (nullable : Bool) :
    Kept stops one two (readUnion low · m list nullable) (readUnion high · m list nullable) := by
  intro p
  refine KeptUnless.bind (.mapM fun (index, type) _ => ?_) fun members => .kept _
  exact readBody_kept below m (some type) false ((p.token "type").child index)

end

include agree below

theorem readObject_kept (m : Members) : Kept stops one two (readObject low · m) (readObject high · m) := by
  intro p
  refine .after _ fun reference => ?_
  cases reference with
  | some text => exact agree.reference text p
  | none =>
    refine .after _ fun list => ?_
    dsimp only
    split
    · exact readBody_kept below m _ _ p
    · exact readUnion_kept below m list _ p

theorem readLevel_kept (value : Json) :
    Kept stops one two (readLevel low · value) (readLevel high · value) := by
  intro p
  refine (checkDepth_kept agree p).bind fun _ => ?_
  split
  · exact readObject_kept agree below _ p
  · exact .kept _
  · exact .kept _
  · exact .kept _

end Schemas

section Operations

variable (agree : one.Agree stops two)

include agree

theorem readWithin_kept {levels more : Nat} (grown : levels ≤ more) (value : Json) :
    Kept stops one two (readWithin levels · value) (readWithin more · value) := by
  induction levels generalizing more value with
  | zero => exact fun p => .stopped (agree.nesting _ _)
  | succ levels ih =>
    cases more with
    | zero => cases grown
    | succ more => exact readLevel_kept agree (fun value => ih (Nat.le_of_succ_le_succ grown) value) value

theorem readSchema_kept (value : Json) :
    Kept stops one two (readSchema · value) (readSchema · value) := by
  intro p
  exact readWithin_kept agree (Nat.sub_le_sub_right (Nat.succ_le_succ agree.higher) p.depth) value p

theorem resolved_kept {read : Place → Json → Option String → Except Failure α} (kind : Section)
    (inPlace : kind.readInPlace = true) (value : Json)
    (each : ∀ value component, Kept stops one two (read · value component) (read · value component)) :
    Kept stops one two (resolved kind read · value) (resolved kind read · value) := by
  intro p
  refine .after _ fun reference => ?_
  cases reference with
  | none => exact each value none p
  | some text =>
    refine (agree.target kind inPlace text p).bind ?_
    rintro ⟨name, target⟩
    exact each target (some name) (p.at_ ["components", kind.segment, name])

omit agree in
theorem readSection_kept {read : Place → Json → String → Except Failure Component} (components : Members) (kind : Section)
    (each : ∀ value name, Kept stops one two (read · value name) (read · value name)) :
    Kept stops one two (readSection · components kind read) (readSection · components kind read) := by
  intro start
  dsimp only [readSection]
  split
  · exact .kept _
  · refine .mapM fun (name, value) _ => ?_
    exact each value name (start.at_ ["components", kind.segment, name])
  · exact .kept _

theorem schemaUnder_kept (required : Bool) (value : Json) :
    Kept stops one two (schemaUnder · required value) (schemaUnder · required value) := by
  intro p
  dsimp only [schemaUnder]
  cases value.get? "schema" with
  | none => exact .kept _
  | some schema => exact (readSchema_kept agree schema ((p.child "schema").withRequired required)).map _

theorem parameterSchema_kept (m : Members) (required : Bool) :
    Kept stops one two (parameterSchema · m required) (parameterSchema · m required) := by
  intro p
  dsimp only [parameterSchema]
  split
  · exact schemaUnder_kept agree required (.object m) p
  · cases m.get? "content" with
    | none => exact .kept _
    | some content =>
      dsimp only [firstContentSchema]
      split
      · rename_i media entry _
        exact schemaUnder_kept agree required entry ((p.token "content").token media)
      · exact .kept _

theorem readParameterBody_kept (value : Json) (component : Option String) :
    Kept stops one two (readParameterBody · value component) (readParameterBody · value component) := by
  intro p
  refine .after _ fun m => ?_
  cases m.text? "name" with
  | none => exact .kept _
  | some name =>
    cases m.text? "in" with
    | none => exact .kept _
    | some location =>
      refine .after _ fun location => ?_
      exact (parameterSchema_kept agree m _ p).bind fun schema => .kept _

theorem readParameterList_kept (value : Json) :
    Kept stops one two (readParameterList · value) (readParameterList · value) := by
  intro p
  refine .after _ fun items => .mapM fun (index, item) _ => ?_
  exact resolved_kept agree .parameters rfl item (readParameterBody_kept agree) (p.token index)

theorem readContent_kept (m : Members) : Kept stops one two (readContent · m) (readContent · m) := by
  intro p
  dsimp only [readContent]
  cases m.get? "content" with
  | none => exact .kept _
  | some value =>
    refine .after _ fun declared => readEntries_kept fun media entry => ?_
    exact (schemaUnder_kept agree true entry ((p.token "content").token media)).map _

theorem readRequestBodyBody_kept (value : Json) (component : Option String) :
    Kept stops one two (readRequestBodyBody · value component) (readRequestBodyBody · value component) := by
  intro p
  exact .after _ fun m => (readContent_kept agree m p).bind fun content => .kept _

theorem readHeaderBody_kept (value : Json) (component : Option String) :
    Kept stops one two (readHeaderBody · value component) (readHeaderBody · value component) := by
  intro p
  exact .after _ fun m => (schemaUnder_kept agree _ value p).bind fun schema => .kept _

theorem readHeaders_kept (m : Members) : Kept stops one two (readHeaders · m) (readHeaders · m) := by
  intro p
  dsimp only [readHeaders]
  cases m.get? "headers" with
  | none => exact .kept _
  | some value =>
    refine .after _ fun declared => readEntries_kept fun name header => ?_
    exact resolved_kept agree .headers rfl header (readHeaderBody_kept agree) ((p.token "headers").token name)

theorem readResponseBody_kept (value : Json) (component : Option String) :
    Kept stops one two (readResponseBody · value component) (readResponseBody · value component) := by
  intro p
  refine .after _ fun m => ?_
  exact (readHeaders_kept agree m p).bind fun headers => (readContent_kept agree m p).bind fun content => .kept _

theorem readResponses_kept (value : Json) : Kept stops one two (readResponses · value) (readResponses · value) := by
  intro p
  refine .after _ fun declared => .mapM fun (status, response) _ => ?_
  exact (resolved_kept agree .responses rfl response (readResponseBody_kept agree) (p.token status)).bind fun _ => .kept _

theorem readOperation_kept (shared : Shared) (method : HttpMethod) (value : Json) :
    Kept stops one two (readOperation shared · method value) (readOperation shared · method value) := by
  intro p
  refine .after _ fun m => ?_
  refine (at?_kept "parameters" fun value => readParameterList_kept agree value (p.token "parameters")).bind
    fun own => ?_
  refine (at?_kept "requestBody" fun value => resolved_kept agree .requestBodies rfl value
    (readRequestBodyBody_kept agree) (p.token "requestBody")).bind fun requestBody => ?_
  refine (at?_kept "responses" fun value => readResponses_kept agree value (p.token "responses")).bind
    fun responses => ?_
  exact .after _ fun security => .kept _

theorem readPathItem_kept (security : Option (List SecurityRequirement)) (path : String) (value : Json) :
    Kept stops one two (readPathItem · security path value) (readPathItem · security path value) := by
  intro p
  refine .after _ fun m => ?_
  dsimp only
  split
  · exact .kept (.error (p.shapeError "path item references must be bundled first"))
  · refine (at?_kept "parameters" fun value => readParameterList_kept agree value (p.token "parameters")).bind
      fun parameters => .mapM fun (key, method, value) _ => ?_
    exact readOperation_kept agree _ method value (p.token key)

theorem schemaComponent_kept (value : Json) (name : String) :
    Kept stops one two (schemaComponent · value name) (schemaComponent · value name) :=
  fun p => (readSchema_kept agree value p).map _

theorem parameterComponent_kept (value : Json) (name : String) :
    Kept stops one two (parameterComponent · value name) (parameterComponent · value name) :=
  fun p => .after _ fun _ => (readParameterBody_kept agree value _ p).bind fun _ => .kept _

theorem responseComponent_kept (value : Json) (name : String) :
    Kept stops one two (responseComponent · value name) (responseComponent · value name) :=
  fun p => .after _ fun _ => (readResponseBody_kept agree value _ p).bind fun _ => .kept _

theorem requestBodyComponent_kept (value : Json) (name : String) :
    Kept stops one two (requestBodyComponent · value name) (requestBodyComponent · value name) :=
  fun p => .after _ fun _ => (readRequestBodyBody_kept agree value _ p).bind fun _ => .kept _

omit agree in
theorem securitySchemeComponent_kept (value : Json) (name : String) :
    Kept stops one two (securitySchemeComponent · value name) (securitySchemeComponent · value name) :=
  fun _ => .kept _

theorem readPaths_kept (paths : two.root.get? "paths" = one.root.get? "paths")
    (security : Option (List SecurityRequirement)) : Kept stops one two (readPaths · security) (readPaths · security) := by
  intro start
  dsimp only [readPaths, Place.under]
  rw [paths]
  cases one.root.get? "paths" with
  | none => exact .kept _
  | some value =>
    dsimp only
    cases value.asObject? with
    | none => exact .kept _
    | some paths =>
      refine KeptUnless.bind (.mapM fun (path, item) _ => ?_) fun operations => .kept _
      exact readPathItem_kept agree security path item (start.at_ ["paths", path])

end Operations

end OpenApi
end SchemaAtlas
