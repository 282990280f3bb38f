import SchemaAtlas.Proofs.DeclarationFates
import SchemaAtlas.Proofs.MetadataCoherence

namespace SchemaAtlas

namespace SchemaNode

variable {n : SchemaNode}

theorem Tidy.visited (tidy : n.Tidy) : ∀ target ∈ n.visitedReferences, ∃ name, name ≠ "" ∧ target = schemaRef name := by
  induction n using children_induction with
  | step n ih =>
    intro target listed
    rw [visitedReferences_eq] at listed
    rcases List.mem_append.mp listed with own | deeper
    · exact tidy.own.named target (by simpa using own)
    · obtain ⟨_, mapped, inside⟩ := List.mem_flatten.mp deeper
      obtain ⟨child, below, rfl⟩ := List.mem_map.mp mapped
      exact ih child below (tidy.below child below) target inside

theorem Tidy.targets (tidy : n.Tidy) :
    let targets := (n.finalizeTree 0).metadata.dependencies.references.filterMap schemaNameOf?
    targets.Nodup ∧ ∀ name, name ∈ targets ↔ n.RefersTo name := by
  have references := (coherentFrom_iff.mp (tidy.coherent 0)).1.references
  rw [(reworked_finalizeTree n 0).visitedReferences] at references
  simp only [references]
  refine ⟨?_, fun name => by simp [RefersTo, List.mem_filterMap]⟩
  refine List.pairwise_filterMap.mpr ((eraseDups_nodup n.visitedReferences).imp_of_mem ?_)
  intro first second inFirst inSecond differ name named other same
  obtain ⟨one, oneNamed, rfl⟩ := tidy.visited first (List.mem_eraseDups.mp inFirst)
  obtain ⟨two, twoNamed, rfl⟩ := tidy.visited second (List.mem_eraseDups.mp inSecond)
  rw [schemaNameOf?_schemaRef oneNamed] at named
  rw [schemaNameOf?_schemaRef twoNamed] at same
  rintro rfl
  exact differ (by rw [Option.some.inj named, Option.some.inj same])

end SchemaNode

namespace Builder

open Script

variable {settings : ParseSettings} {r : Survey} {d : Declaration} {report : Diagnostic}

-- What is said of a name without a schema: it is declared but was rejected, or nothing
-- declares it.
def danglingMessages (name : String) : List String :=
  ["was rejected and contributes no schema", "is not a schema declared in this file"].map fun text =>
    "`" ++ name ++ "` " ++ text

def Dangles (declaration name : String) (report : Diagnostic) : Bool :=
  report.code == .unresolvedReference && report.declaration == some declaration &&
    (danglingMessages name).contains report.message

theorem getLast?_append (front : String) {text : String} (last : text.toList.getLast? = some c) :
    (front ++ text).toList.getLast? = some c := by
  rw [String.toList_append, List.getLast?_append, last, Option.some_or]

theorem danglingMessages_inj (first : message ∈ danglingMessages name) (second : message ∈ danglingMessages other) :
    name = other := by
  obtain ⟨text, known, rfl⟩ := List.mem_map.mp first
  obtain ⟨text', known', same⟩ := List.mem_map.mp second
  -- Behind the name stands one of two texts, which end differently.
  have ends : ∀ c c', text.toList.getLast? = some c → text'.toList.getLast? = some c' → c' = c := by
    intro c c' last last'
    have both := getLast?_append ("`" ++ other ++ "` ") last'
    rw [same, getLast?_append _ last] at both
    exact (Option.some.inj both).symm
  have texts : text' = text := by
    simp only [List.mem_cons, List.not_mem_nil, or_false] at known known'
    rcases known with rfl | rfl <;> rcases known' with rfl | rfl
    · rfl
    · exact absurd (ends 'a' 'e' (by decide) (by decide)) (by decide)
    · exact absurd (ends 'e' 'a' (by decide) (by decide)) (by decide)
    · rfl
  rw [texts, String.append_left_inj, String.append_left_inj, String.append_right_inj] at same
  exact same.symm

theorem danglingReference_message (d : Declaration) (emitted declared : List String) (target : String) :
    (danglingReference d emitted declared target).message ∈ danglingMessages target := by
  change "`" ++ target ++ "` " ++ (if declared.contains target then "was rejected and contributes no schema"
    else "is not a schema declared in this file") ∈ _
  split <;> simp [danglingMessages]

theorem dangles_danglingReference :
    Dangles declaration name (danglingReference d emitted declared target) = true ↔
      d.name = declaration ∧ target = name := by
  have message := danglingReference_message d emitted declared target
  have own : (danglingReference d emitted declared target).declaration = some d.name := rfl
  have code : (danglingReference d emitted declared target).code = .unresolvedReference := rfl
  simp only [Dangles, own, code, beq_self_eq_true, Bool.true_and, Bool.and_eq_true, beq_iff_eq, Option.some.injEq,
    List.contains_iff_mem]
  refine and_congr_right fun _ => ?_
  constructor
  · exact fun listed => danglingMessages_inj message listed
  · rintro rfl
    exact message

def missingTargets (emitted : List String) (schema : SchemaNode) : List String :=
  (schema.metadata.dependencies.references.filterMap schemaNameOf?).filter fun target => !emitted.contains target

theorem mem_advise (listed : report ∈ advise settings emitted declared d schema) :
    report = missingDescription d ∨ ∃ target ∈ missingTargets emitted schema,
      report = danglingReference d emitted declared target := by
  rcases List.mem_append.mp listed with description | reference
  · split at description
    · exact .inl (List.mem_singleton.mp description)
    · cases description
  · obtain ⟨target, inside, rfl⟩ := List.mem_map.mp reference
    exact .inr ⟨target, inside, rfl⟩

theorem countP_advise (once : (missingTargets emitted schema).Nodup) :
    (advise settings emitted declared d schema).countP (Dangles d.name name) =
      if name ∈ missingTargets emitted schema then 1 else 0 := by
  have described : ∀ report ∈ (if settings.requireDescriptions && d.exported && schema.keywords.description.isNone
      then [missingDescription d] else []), ¬ Dangles d.name name report = true := by
    intro report listed
    split at listed
    · obtain rfl := List.mem_singleton.mp listed
      simp [Dangles, missingDescription, Diagnostic.of, Diagnostic.at_, Diagnostic.inDeclaration,
        Diagnostic.withReplacement]
    · cases listed
  have counted : (Dangles d.name name ∘ danglingReference d emitted declared) = fun target => target == name := by
    funext target
    rw [Bool.eq_iff_iff, Function.comp_apply, dangles_danglingReference, beq_iff_eq]
    exact and_iff_right rfl
  unfold advise
  dsimp only
  rw [List.countP_append, List.countP_eq_zero.mpr described, Nat.zero_add, List.countP_map, counted]
  exact once.count

theorem declaration_advise (listed : report ∈ advise settings emitted declared d schema) :
    report.declaration = some d.name := by
  rcases mem_advise listed with rfl | ⟨target, _, rfl⟩
  · rfl
  · rfl

theorem countP_flatMap_own {key : α → String} {f : α → List β} {p : β → Bool} {items : List α} {item : α}
    (once : (items.map key).Nodup) (inside : item ∈ items)
    (own : ∀ other ∈ items, ∀ result ∈ f other, p result = true → key other = key item) :
    (items.flatMap f).countP p = (f item).countP p := by
  induction items with
  | nil => cases inside
  | cons first rest ih =>
    obtain ⟨fresh, once⟩ := List.nodup_cons.mp once
    obtain ⟨here, later⟩ := List.forall_mem_cons.mp own
    rw [List.flatMap_cons, List.countP_append]
    rcases List.mem_cons.mp inside with rfl | inside
    · have none_ : (rest.flatMap f).countP p = 0 := by
        refine List.countP_eq_zero.mpr fun result listed counts => ?_
        obtain ⟨other, member, listed⟩ := List.mem_flatMap.mp listed
        exact fresh (later other member result listed counts ▸ List.mem_map_of_mem member)
      rw [none_, Nat.add_zero]
    · have none_ : (f first).countP p = 0 := by
        refine List.countP_eq_zero.mpr fun result listed counts => ?_
        exact fresh (here result listed counts ▸ List.mem_map_of_mem inside)
      rw [none_, Nat.zero_add, ih once inside later]

-- How an outcome accounts for references without a schema: one advisory for each of them
-- in each schema component, no other advisory of the kind, and no edge of the graph.
structure Outcome.Advises (o : Outcome) : Prop where
  dangling : ∀ entry ∈ o.document.schemas, ∀ name, entry.2.RefersTo name → name ∉ o.document.schemas.map Prod.fst →
    o.advisories.countP (Dangles entry.1 name) = 1
  silent : ∀ entry ∈ o.document.schemas, ∀ name, ¬ (entry.2.RefersTo name ∧ name ∉ o.document.schemas.map Prod.fst) →
    o.advisories.countP (Dangles entry.1 name) = 0
  reported : ∀ report ∈ o.advisories, report.code = .unresolvedReference →
    ∃ entry ∈ o.document.schemas, ∃ name, Dangles entry.1 name report = true
  edges : ∀ entry ∈ o.document.schemas, ∃ dependencies,
    o.document.dependencyGraph.nodes.get? entry.1 = some dependencies ∧
    ∀ name, name ∈ dependencies ↔ entry.2.RefersTo name ∧ name ∈ o.document.schemas.map Prod.fst

theorem missingTargets_emitted (listed : given ∈ r.emitted settings) : (missingTargets emitted given.2).Nodup ∧
    ∀ name, name ∈ missingTargets emitted given.2 ↔ given.2.RefersTo name ∧ name ∉ emitted := by
  obtain ⟨lowered, tidy, same⟩ := emitted_tidy listed
  obtain ⟨once, named⟩ := tidy.targets
  rw [same] at once named
  refine ⟨once.filter _, fun name => ?_⟩
  unfold missingTargets
  rw [List.mem_filter, named, ← same, (SchemaNode.reworked_finalizeTree lowered 0).refersTo]
  simp

theorem advisories_eq (settings : ParseSettings) (r : Survey) : (r.outcome settings).advisories =
    (r.emitted settings).flatMap fun given =>
      advise settings ((r.outcome settings).document.schemas.map Prod.fst) (r.declarations.map Declaration.name)
        given.1 given.2 := by
  rw [outcome_schemas]
  rfl

theorem countP_advisories (sound : r.Sound) (listed : given ∈ r.emitted settings) :
    (r.outcome settings).advisories.countP (Dangles given.1.name name) =
      if name ∈ missingTargets ((r.outcome settings).document.schemas.map Prod.fst) given.2 then 1 else 0 := by
  rw [advisories_eq, countP_flatMap_own (emitted_names settings sound.once) listed,
    countP_advise (missingTargets_emitted listed).1]
  intro other _ report inside dangles
  have own := declaration_advise inside
  simp only [Dangles, own, Bool.and_eq_true, beq_iff_eq, Option.some.injEq] at dangles
  exact dangles.1.2

theorem outcome_advises (sound : r.Sound) : (r.outcome settings).Advises := by
  refine ⟨?_, ?_, ?_, ?_⟩
  · intro entry listed name refers missing
    obtain ⟨given, inside, same, remarked⟩ := outcome_entry listed
    have targeted := ((missingTargets_emitted inside).2 name).mpr ⟨remarked.refersTo.mp refers, missing⟩
    rw [same, countP_advisories sound inside, if_pos targeted]
  · intro entry listed name other
    obtain ⟨given, inside, same, remarked⟩ := outcome_entry listed
    rw [remarked.refersTo, ← (missingTargets_emitted inside).2] at other
    rw [same, countP_advisories sound inside, if_neg other]
  · intro report listed code
    rw [advisories_eq] at listed
    obtain ⟨given, inside, advised⟩ := List.mem_flatMap.mp listed
    have named : given.1.name ∈ (r.outcome settings).document.schemas.map Prod.fst := by
      rw [outcome_schemas]
      exact List.mem_map_of_mem inside
    obtain ⟨entry, stands, same⟩ := List.mem_map.mp named
    refine ⟨entry, stands, ?_⟩
    rcases mem_advise advised with rfl | ⟨target, _, rfl⟩
    · cases code
    · exact ⟨target, dangles_danglingReference.mpr ⟨same.symm, rfl⟩⟩
  · intro entry listed
    obtain ⟨document, same, schemas⟩ := outcome_parts settings r
    rw [same] at listed ⊢
    refine ⟨_, Document.nodes_analyze (distinct_of_emitted sound.once schemas) listed, ?_⟩
    intro name
    rw [List.mem_eraseDups, Document.mem_occurrences]
    rfl

-- No reference of a script dangles without notice, whatever tree the script has.
theorem references_advised (settings : ParseSettings) :
    (∀ root : Tree, ((Survey.ofTree settings root).outcome settings).Advises) ∧
      ∀ source, (parse settings source).Advises := by
  have whole (root : Tree) : ((Survey.ofTree settings root).outcome settings).Advises :=
    outcome_advises (ofTree_sound settings root)
  exact ⟨whole, fun source => whole (Script.parse source)⟩

end Builder
end SchemaAtlas
