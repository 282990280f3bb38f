import SchemaAtlas.Document.Json
import SchemaAtlas.OpenApi.Build
import SchemaAtlas.Proofs.DocumentNodes
import SchemaAtlas.Proofs.SchemaRecord

namespace SchemaAtlas

open Json

-- A document with every schema tree rewritten, record by record, and nothing else.

def Parameter.mapNodes (f : SchemaNode → SchemaNode) (p : Parameter) : Parameter := { p with schema := p.schema.map f }
def MediaType.mapNodes (f : SchemaNode → SchemaNode) (m : MediaType) : MediaType := { m with schema := m.schema.map f }
def Header.mapNodes (f : SchemaNode → SchemaNode) (h : Header) : Header := { h with schema := h.schema.map f }

def RequestBody.mapNodes (f : SchemaNode → SchemaNode) (b : RequestBody) : RequestBody :=
  { b with content := b.content.mapValues (MediaType.mapNodes f) }

def Response.mapNodes (f : SchemaNode → SchemaNode) (r : Response) : Response :=
  { r with content := r.content.mapValues (MediaType.mapNodes f), headers := r.headers.mapValues (Header.mapNodes f) }

def ParameterGroups.mapNodes (f : SchemaNode → SchemaNode) (g : ParameterGroups) : ParameterGroups :=
  { path := g.path.map (Parameter.mapNodes f)
    query := g.query.map (Parameter.mapNodes f)
    header := g.header.map (Parameter.mapNodes f)
    cookie := g.cookie.map (Parameter.mapNodes f) }

def OperationResponse.mapNodes (f : SchemaNode → SchemaNode) (r : OperationResponse) : OperationResponse :=
  { r with response := r.response.mapNodes f }

def Operation.mapNodes (f : SchemaNode → SchemaNode) (o : Operation) : Operation :=
  { o with
    parameters := o.parameters.map (Parameter.mapNodes f)
    parameterGroups := o.parameterGroups.mapNodes f
    requestBody := o.requestBody.map (RequestBody.mapNodes f)
    responses := o.responses.map (OperationResponse.mapNodes f) }

def Component.mapNodes (f : SchemaNode → SchemaNode) : Component → Component
  | .schema name node => .schema name (f node)
  | .parameter name p => .parameter name (p.mapNodes f)
  | .response name r => .response name (r.mapNodes f)
  | .requestBody name b => .requestBody name (b.mapNodes f)
  | .securityScheme name s => .securityScheme name s

def Document.mapNodes (f : SchemaNode → SchemaNode) (d : Document) : Document :=
  { d with components := d.components.map (Component.mapNodes f), operations := d.operations.map (Operation.mapNodes f) }

def ByRoots (f : SchemaNode → SchemaNode) (rewrite : α → α) (roots : α → List SchemaNode) : Prop :=
  ∀ a, rewrite a = a ↔ ∀ root ∈ roots a, f root = root

section

variable {f : SchemaNode → SchemaNode} {rewrite : α → α} {roots : α → List SchemaNode}

theorem ByRoots.list (each : ByRoots f rewrite roots) : ByRoots f (List.map rewrite) (List.flatMap roots) := by
  intro items
  rw [map_eq_self, List.forall_mem_flatMap]
  exact forall₂_congr fun a _ => each a

theorem ByRoots.values (each : ByRoots f rewrite roots) :
    ByRoots f (Entries.mapValues rewrite) (List.flatMap fun entry => roots entry.2) := by
  refine ByRoots.list fun entry => ?_
  rw [← each entry.2, Prod.ext_iff]
  exact and_iff_right rfl

theorem ByRoots.option (each : ByRoots f rewrite roots) :
    ByRoots f (Option.map rewrite) (fun value => value.toList.flatMap roots) := by
  intro value
  cases value with
  | none => simp
  | some a => simp [each a]

theorem ByRoots.node : ByRoots f (Option.map f) Option.toList := by
  intro value
  cases value <;> simp

end

theorem Parameter.byRoots (f : SchemaNode → SchemaNode) : ByRoots f (Parameter.mapNodes f) Parameter.roots := by
  intro p
  rw [roots, ← ByRoots.node]
  cases p
  simp [mapNodes]

theorem MediaType.byRoots (f : SchemaNode → SchemaNode) : ByRoots f (MediaType.mapNodes f) MediaType.roots := by
  intro m
  rw [roots, ← ByRoots.node]
  cases m
  simp [mapNodes]

theorem Header.byRoots (f : SchemaNode → SchemaNode) : ByRoots f (Header.mapNodes f) Header.roots := by
  intro h
  rw [roots, ← ByRoots.node]
  cases h
  simp [mapNodes]

theorem RequestBody.byRoots (f : SchemaNode → SchemaNode) : ByRoots f (RequestBody.mapNodes f) RequestBody.roots := by
  intro b
  have content := (MediaType.byRoots f).values b.content
  unfold roots contentRoots
  rw [← content]
  cases b
  simp [mapNodes]

theorem Response.byRoots (f : SchemaNode → SchemaNode) : ByRoots f (Response.mapNodes f) Response.roots := by
  intro r
  have content := (MediaType.byRoots f).values r.content
  have headers := (Header.byRoots f).values r.headers
  unfold roots contentRoots
  rw [List.forall_mem_append, ← content, ← headers]
  cases r
  simp [mapNodes]

theorem ParameterGroups.byRoots (f : SchemaNode → SchemaNode) :
    ByRoots f (ParameterGroups.mapNodes f) ParameterGroups.roots := by
  intro g
  have list := (Parameter.byRoots f).list
  unfold roots
  simp only [List.flatMap_append, List.forall_mem_append, ← list _]
  cases g
  simp [mapNodes, and_assoc]

theorem Operation.byRoots (f : SchemaNode → SchemaNode) : ByRoots f (Operation.mapNodes f) Operation.roots := by
  intro o
  have parameters := (Parameter.byRoots f).list o.parameters
  have groups := ParameterGroups.byRoots f o.parameterGroups
  have body := (RequestBody.byRoots f).option o.requestBody
  have responses : ByRoots f (OperationResponse.mapNodes f) (fun r => r.response.roots) := by
    intro r
    rw [← Response.byRoots f r.response]
    cases r
    simp [OperationResponse.mapNodes]
  unfold roots
  simp only [List.forall_mem_append, ← parameters, ← groups, ← body, ← responses.list o.responses]
  cases o
  simp [mapNodes, and_assoc]

theorem Component.byRoots (f : SchemaNode → SchemaNode) : ByRoots f (Component.mapNodes f) Component.roots := by
  intro c
  cases c with
  | schema name node => simp [mapNodes, roots]
  | parameter name p => simp [mapNodes, roots, Parameter.byRoots f p]
  | response name r => simp [mapNodes, roots, Response.byRoots f r]
  | requestBody name b => simp [mapNodes, roots, RequestBody.byRoots f b]
  | securityScheme name s => simp [mapNodes, roots]

theorem Document.byRoots (f : SchemaNode → SchemaNode) : ByRoots f (Document.mapNodes f) Document.roots := by
  intro d
  unfold roots
  rw [List.forall_mem_append, ← (Component.byRoots f).list d.components, ← (Operation.byRoots f).list d.operations]
  cases d
  simp [mapNodes]

theorem ParameterLocation.ofName?_name (l : ParameterLocation) : ParameterLocation.ofName? l.name = some l := by
  cases l <;> decide

theorem ResponseAdvisory.ofName?_name (a : ResponseAdvisory) : ResponseAdvisory.ofName? a.name = some a := by
  cases a <;> decide

theorem SecuritySchemeType.ofName?_name (t : SecuritySchemeType) : SecuritySchemeType.ofName? t.name = some t := by
  cases t <;> decide

theorem HttpMethod.ofName?_name (m : HttpMethod) : HttpMethod.ofName? m.name = some m := by
  cases m <;> decide

@[simp] theorem readName_string (ofName? : String → Option α) (text : String) :
    readName ofName? (.string text) = ofName? text := rfl

theorem DocumentInfo.readsBack (i : DocumentInfo) : ReadsBack DocumentInfo.toJson DocumentInfo.ofJson? id i := by
  refine ⟨?_, nofun⟩
  unfold toJson ofJson?
  simp

theorem Server.readsBack (s : Server) : ReadsBack Server.toJson Server.ofJson? id s := by
  refine ⟨?_, nofun⟩
  unfold toJson ofJson?
  simp

theorem readsBack_dependencies (names : List String) : ReadsBack dependenciesJson readDependencies id names := by
  refine ⟨?_, nofun⟩
  unfold dependenciesJson readDependencies
  simp

theorem DependencySummary.readsBack (s : DependencySummary) :
    ReadsBack DependencySummary.toJson DependencySummary.ofJson? id s := by
  refine ⟨?_, nofun⟩
  unfold toJson ofJson?
  simp [(readsBack_values s.nodes readsBack_dependencies).back]

theorem EnumSummary.readsBack (e : EnumSummary) : ReadsBack EnumSummary.toJson EnumSummary.ofJson? id e := by
  refine ⟨?_, nofun⟩
  unfold toJson ofJson?
  simp

theorem SecurityRequirement.readsBack (r : SecurityRequirement) :
    ReadsBack SecurityRequirement.toJson SecurityRequirement.ofJson? id r :=
  readsBack_values r readsBack_strings

theorem optionalOf_security (value : Option (List SecurityRequirement)) :
    optionalOf (readList SecurityRequirement.ofJson?) (value.map (listOf SecurityRequirement.toJson)) = some value :=
  optionalOf_same fun items => readsBack_members items SecurityRequirement.readsBack

theorem OAuthFlow.readsBack (o : OAuthFlow) : ReadsBack OAuthFlow.toJson OAuthFlow.ofJson? id o := by
  refine ⟨?_, nofun⟩
  unfold toJson ofJson?
  simp [(readsBack_values o.scopes readsBack_string).back]

theorem OAuthFlows.readsBack (o : OAuthFlows) : ReadsBack OAuthFlows.toJson OAuthFlows.ofJson? id o := by
  refine ⟨?_, nofun⟩
  have flow (value : Option OAuthFlow) : optionalOf OAuthFlow.ofJson? (value.map OAuthFlow.toJson) = some value :=
    optionalOf_same OAuthFlow.readsBack
  unfold toJson ofJson?
  simp [flow]

theorem SecurityScheme.readsBack (s : SecurityScheme) : ReadsBack SecurityScheme.toJson SecurityScheme.ofJson? id s := by
  refine ⟨?_, nofun⟩
  have location : optionalOf (readName ParameterLocation.ofName?) (s.location.map fun l => .string l.name) =
      some s.location := optionalOf_same (readsBack_name ParameterLocation.ofName?_name)
  have flows : optionalOf OAuthFlows.ofJson? (s.flows.map OAuthFlows.toJson) = some s.flows :=
    optionalOf_same OAuthFlows.readsBack
  unfold toJson ofJson?
  simp [location, flows, SecuritySchemeType.ofName?_name]

@[simp] theorem optionalOf_node (value : Option SchemaNode) :
    optionalOf SchemaNode.ofJson? (value.map SchemaNode.toJson) = some (value.map SchemaNode.withoutNulls) :=
  optionalOf_back fun n _ => n.readsBack

theorem Parameter.readsBack (p : Parameter) :
    ReadsBack Parameter.toJson Parameter.ofJson? (Parameter.mapNodes SchemaNode.withoutNulls) p := by
  refine ⟨?_, nofun⟩
  unfold toJson ofJson?
  simp [-Bool.exists_bool, mapNodes, ParameterLocation.ofName?_name]

theorem readsBack_parameters (items : List Parameter) :
    ReadsBack (listOf Parameter.toJson) (readList Parameter.ofJson?)
      (List.map (Parameter.mapNodes SchemaNode.withoutNulls)) items :=
  readsBack_listOf fun p _ => p.readsBack

theorem ParameterGroups.readsBack (g : ParameterGroups) :
    ReadsBack ParameterGroups.toJson ParameterGroups.ofJson? (ParameterGroups.mapNodes SchemaNode.withoutNulls) g := by
  refine ⟨?_, nofun⟩
  unfold toJson ofJson?
  simp [mapNodes, (readsBack_parameters _).back]

theorem MediaType.readsBack (m : MediaType) :
    ReadsBack MediaType.toJson MediaType.ofJson? (MediaType.mapNodes SchemaNode.withoutNulls) m := by
  refine ⟨?_, nofun⟩
  unfold toJson ofJson?
  simp [mapNodes]

theorem readsBack_content (content : Entries MediaType) :
    ReadsBack (mapOf MediaType.toJson) (readMap MediaType.ofJson?)
      (Entries.mapValues (MediaType.mapNodes SchemaNode.withoutNulls)) content :=
  readsBack_mapOf fun entry _ => entry.2.readsBack

theorem Header.readsBack (h : Header) :
    ReadsBack Header.toJson Header.ofJson? (Header.mapNodes SchemaNode.withoutNulls) h := by
  refine ⟨?_, nofun⟩
  unfold toJson ofJson?
  simp [-Bool.exists_bool, mapNodes]

theorem RequestBody.readsBack (b : RequestBody) :
    ReadsBack RequestBody.toJson RequestBody.ofJson? (RequestBody.mapNodes SchemaNode.withoutNulls) b := by
  refine ⟨?_, nofun⟩
  unfold toJson ofJson?
  simp [mapNodes, (readsBack_content _).back]

theorem Response.ofFields?_back (r : Response) {f : Json.Fields}
    (same : ∀ key ∈ ["description", "content", "headers", "component"], f key = Entries.get? r.fields key) :
    Response.ofFields? f = some (r.mapNodes SchemaNode.withoutNulls) := by
  have headers : ReadsBack (mapOf Header.toJson) (readMap Header.ofJson?)
      (Entries.mapValues (Header.mapNodes SchemaNode.withoutNulls)) r.headers :=
    readsBack_mapOf fun entry _ => entry.2.readsBack
  simp only [List.forall_mem_cons] at same
  obtain ⟨description, content, headers', component, -⟩ := same
  simp [ofFields?, description, content, headers', component, fields, mapNodes, (readsBack_content _).back, headers.back]

theorem Response.readsBack (r : Response) :
    ReadsBack Response.toJson Response.ofJson? (Response.mapNodes SchemaNode.withoutNulls) r := by
  refine ⟨?_, nofun⟩
  exact Response.ofFields?_back r fun _ _ => rfl

theorem OperationResponse.readsBack (r : OperationResponse) :
    ReadsBack OperationResponse.toJson OperationResponse.ofJson?
      (OperationResponse.mapNodes SchemaNode.withoutNulls) r := by
  refine ⟨?_, nofun⟩
  have response : Response.ofFields? (Entries.get? (field "status" (.string r.status) ++ r.response.fields)) =
      some (r.response.mapNodes SchemaNode.withoutNulls) := by
    refine Response.ofFields?_back r.response fun key listed => ?_
    have other : key ≠ "status" := by
      rintro rfl
      revert listed
      decide
    simp [other]
  unfold toJson ofJson?
  simp [response, mapNodes]

theorem Operation.readsBack (o : Operation) :
    ReadsBack Operation.toJson Operation.ofJson? (Operation.mapNodes SchemaNode.withoutNulls) o := by
  refine ⟨?_, nofun⟩
  have body : optionalOf RequestBody.ofJson? (o.requestBody.map RequestBody.toJson) =
      some (o.requestBody.map (RequestBody.mapNodes SchemaNode.withoutNulls)) := optionalOf_back fun b _ => b.readsBack
  have responses : ReadsBack (listOf OperationResponse.toJson) (readList OperationResponse.ofJson?)
      (List.map (OperationResponse.mapNodes SchemaNode.withoutNulls)) o.responses :=
    readsBack_listOf fun r _ => r.readsBack
  have advisory : optionalOf (readName ResponseAdvisory.ofName?) (o.responseAdvisory.map fun a => .string a.name) =
      some o.responseAdvisory := optionalOf_same (readsBack_name ResponseAdvisory.ofName?_name)
  unfold toJson ofJson?
  simp [mapNodes, HttpMethod.ofName?_name, (readsBack_parameters _).back,
    (ParameterGroups.readsBack _).back, body, responses.back, optionalOf_security, advisory]

theorem Component.bodyKey_other (kind : Section) : bodyKey kind ≠ "kind" ∧ bodyKey kind ≠ "name" := by
  cases kind <;> simp [bodyKey]

theorem Component.untag?_toJson (c : Component) : Component.untag? c.toJson =
    some (c.kind.memberName, .object (field "name" (.string c.name) ++ field (bodyKey c.kind) c.bodyJson)) := by
  simp [toJson, untag?, field, Entries.get?, bodyKey_other]

theorem Component.kindOfName?_kind (c : Component) : kindOfName? c.kind.memberName = some c.kind := by
  cases c <;> dsimp only [kind] <;> decide

theorem Component.readsBack (c : Component) :
    ReadsBack Component.toJson Component.ofJson? (Component.mapNodes SchemaNode.withoutNulls) c := by
  refine ⟨?_, nofun⟩
  unfold ofJson?
  simp only [untag?_toJson, required?_eq, Option.bind_eq_bind, Option.bind_some, kindOfName?_kind, fields?_object,
    get?_append, get?_field, ↓reduceIte, Option.some_or, asString?_string, bodyKey_other, Option.none_or]
  cases c with
  | schema name node => simp [kind, Component.name, bodyJson, mapNodes, node.readsBack.back]
  | parameter name p => simp [kind, Component.name, bodyJson, mapNodes, p.readsBack.back]
  | response name r => simp [kind, Component.name, bodyJson, mapNodes, r.readsBack.back]
  | requestBody name b => simp [kind, Component.name, bodyJson, mapNodes, b.readsBack.back]
  | securityScheme name s => simp [kind, Component.name, bodyJson, mapNodes, s.readsBack.back]

namespace Document

def withoutNulls (d : Document) : Document := d.mapNodes SchemaNode.withoutNulls

theorem readsBack (d : Document) : ReadsBack Document.toJson Document.ofJson? withoutNulls d := by
  refine ⟨?_, nofun⟩
  have components : ReadsBack (listOf Component.toJson) (readList Component.ofJson?)
      (List.map (Component.mapNodes SchemaNode.withoutNulls)) d.components := readsBack_listOf fun c _ => c.readsBack
  have operations : ReadsBack (listOf Operation.toJson) (readList Operation.ofJson?)
      (List.map (Operation.mapNodes SchemaNode.withoutNulls)) d.operations := readsBack_listOf fun o _ => o.readsBack
  unfold toJson ofJson?
  simp [withoutNulls, mapNodes, (DocumentInfo.readsBack _).back,
    (readsBack_members d.servers Server.readsBack).back, optionalOf_security, components.back, operations.back,
    (DependencySummary.readsBack _).back, (readsBack_values d.enums EnumSummary.readsBack).back]

theorem withoutNulls_eq_self {d : Document} : d.withoutNulls = d ↔ d.Everywhere SchemaNode.NullFree := by
  unfold withoutNulls Everywhere
  rw [Document.byRoots]
  exact forall₂_congr fun _ _ => SchemaNode.withoutNulls_eq_self

-- Every document reads back from its JSON with nothing lost but the nulls that stand as a
-- value of their own, so it reads back as itself where it has none.
theorem ofJson?_toJson (d : Document) :
    ofJson? d.toJson = some d.withoutNulls ∧ (ofJson? d.toJson = some d ↔ d.Everywhere SchemaNode.NullFree) := by
  refine ⟨d.readsBack.back, ?_⟩
  rw [d.readsBack.back, Option.some_inj]
  exact withoutNulls_eq_self

def nullDescription : Json := .object [
  ("openapi", .string "3.1.0"),
  ("components", .object [("schemas", .object [("A", .object [("const", .null)])])])]

theorem ofJson?_toJson_null :
    ∃ d, OpenApi.build 4 nullDescription = .ok d ∧ ofJson? d.toJson ≠ some d := by
  have holds : (match OpenApi.build 4 nullDescription with
      | .ok d => d.roots.any fun n => n.keywords.const.any fun value => !value.notNull
      | .error _ => false) = true := by decide +kernel
  cases built : OpenApi.build 4 nullDescription with
  | error failure => simp [built] at holds
  | ok d =>
    refine ⟨d, rfl, fun same => ?_⟩
    simp only [built, List.any_eq_true] at holds
    obtain ⟨root, listed, null⟩ := holds
    rw [d.readsBack.back, Option.some_inj, withoutNulls_eq_self] at same
    obtain ⟨value, held, null⟩ := (Option.any_eq_true _ _).mp null
    refine (same root listed root .here).2 ?_
    rw [held]
    cases value with
    | null => rfl
    | _ => cases null

end Document
end SchemaAtlas
