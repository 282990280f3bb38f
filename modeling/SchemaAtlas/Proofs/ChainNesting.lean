import SchemaAtlas.Proofs.DeclarationFates
import SchemaAtlas.Proofs.LoweringSteps
import SchemaAtlas.Proofs.MetadataCoherence

namespace SchemaAtlas

namespace SchemaNode

variable {n new inner : SchemaNode} {R : Metadata → Metadata → Prop}

def height (n : SchemaNode) : Nat := (n.children.attach.map fun ⟨child, _⟩ => child.height + 1).foldr max 0
termination_by sizeOf n
decreasing_by exact sizeOf_child_lt ‹_›

theorem height_eq (n : SchemaNode) : n.height = (n.children.map fun child => child.height + 1).foldr max 0 := by
  rw [height]
  simp

theorem foldr_max_le {levels : List Nat} : levels.foldr max 0 ≤ k ↔ ∀ level ∈ levels, level ≤ k := by
  induction levels with
  | nil => simp
  | cons first rest ih => rw [List.foldr_cons, Nat.max_le, ih, List.forall_mem_cons]

theorem height_le_iff : n.height ≤ k ↔ ∀ child ∈ n.children, child.height < k := by
  rw [height_eq, foldr_max_le, List.forall_mem_map]
  exact Iff.rfl

theorem height_lt (listed : child ∈ n.children) : child.height < n.height := height_le_iff.mp (Nat.le_refl _) child listed

theorem height_congr (same : new.parts = n.parts) : new.height = n.height := by
  rw [height_eq, height_eq n, children, children, same]

theorem Reworked.height_le (reworked : Reworked R new n) : new.height ≤ n.height := by
  induction reworked with
  | node _ _ _ parts _ ih =>
    refine height_le_iff.mpr fun child listed => ?_
    rw [children_map parts] at listed
    obtain ⟨old, inside, rfl⟩ := List.mem_map.mp listed
    exact Nat.lt_of_le_of_lt (ih old inside) (height_lt inside)

theorem Below.le_height (below : Below inner steps n) : steps ≤ n.height := by
  induction below with
  | here => exact Nat.zero_le _
  | down listed _ ih => exact Nat.lt_of_le_of_lt ih (height_lt listed)

theorem exists_below (inside : Inside inner n) : ∃ steps, Below inner steps n := by
  induction inside with
  | here => exact ⟨0, .here⟩
  | down listed _ ih =>
    obtain ⟨steps, below⟩ := ih
    exact ⟨steps + 1, .down listed below⟩

theorem CoherentFrom.depth_le (coherent : n.CoherentFrom 0) (height : n.height ≤ k) :
    n.Everywhere fun inner => inner.metadata.dependencies.depth ≤ k := by
  intro inner inside
  obtain ⟨steps, below⟩ := exists_below inside
  have counted := (coherent steps inner below).depth
  have levels := below.le_height
  omega

end SchemaNode

namespace Builder

open Script SchemaNode

def wrapping : List String := ["array", "or", "and"] ++ extending ++ annotating

-- How far past the ceiling the schema of an expression may reach: a level for each method
-- that wraps, and one where a name alone is a property.
def Bindings.slack (b : Bindings) (s : Site) : Nat :=
  b.callCount wrapping s + min 1 (s.count (·.kind == .shorthandProperty))

variable {lower : Lower} {cx : Context} {s next : State} {n node child : SchemaNode} {call : Call} {site : Site}
  {b : Bindings} {inner outer : Site}

theorem height_setRequired (required : Bool) (n : SchemaNode) : (setRequired required n).height = n.height :=
  height_congr rfl

theorem height_finish (s : State) : s.finish.height = s.node.height := height_congr rfl

theorem height_pushValidation (n : SchemaNode) (text : String) : (pushValidation n text).height = n.height :=
  height_congr rfl

theorem height_referenceTo (name : String) : (referenceTo name).height = 0 :=
  Nat.le_zero.mp (height_le_iff.mpr fun _ listed => absurd listed (by simp [referenceTo, children_ofReference]))

theorem slack_le (inside : inner ∈ outer.preorder) : b.slack inner ≤ b.slack outer := by
  have calls : b.callCount wrapping inner ≤ b.callCount wrapping outer := Site.count_le _ inside
  have names := Site.count_le (·.kind == .shorthandProperty) inside
  unfold Bindings.slack
  omega

theorem slack_pos (inside : inner ∈ outer.preorder) (shorthand : inner.kind = .shorthandProperty) :
    0 < b.slack outer := by
  have counted : 0 < outer.count (·.kind == .shorthandProperty) := by
    refine List.countP_pos_iff.mpr ⟨inner, inside, ?_⟩
    rw [shorthand]
    rfl
  unfold Bindings.slack
  omega

def Bounded (lower : Lower) : Prop :=
  ∀ cx site node, lower cx site = .ok node →
    cx.depth ≤ cx.maxDepth ∧ node.height ≤ cx.maxDepth - cx.depth + cx.bindings.slack site

theorem part_height (below : Bounded lower) (slack : ∀ a ∈ call.arguments, cx.bindings.slack a.site ≤ m)
    (part : Part lower cx call child) : child.height < cx.maxDepth - cx.depth + m := by
  cases part with
  | lowered given exposes lowered =>
    obtain ⟨within, height⟩ := below _ _ _ lowered
    have loose := Nat.le_trans (slack_le exposes.inside) (slack _ given)
    simp only [Context.child] at within height
    omega
  | named given exposes shorthand =>
    have loose := Nat.lt_of_lt_of_le (slack_pos exposes.inside shorthand) (slack _ given)
    rw [height_setRequired, height_referenceTo]
    omega

theorem added_height (below : Bounded lower) (slack : ∀ a ∈ call.arguments, cx.bindings.slack a.site ≤ m)
    (added : Added lower cx call node) : node.height ≤ cx.maxDepth - (cx.depth + 1) + m := by
  cases added with
  | lowered given lowered =>
    obtain ⟨_, height⟩ := below _ _ _ lowered
    exact Nat.le_trans height (Nat.add_le_add_left (slack _ given) _)
  | written parts =>
    refine height_le_iff.mpr fun child listed => ?_
    rcases mem_children_withProperties listed with ⟨entry, inside, rfl⟩ | none
    · have deeper : entry.2.height < cx.child.maxDepth - cx.child.depth + m :=
        part_height below slack (parts entry inside)
      exact deeper
    · cases none

theorem built_height (below : Bounded lower) (slack : ∀ a ∈ call.arguments, cx.bindings.slack a.site ≤ m)
    (built : Built lower cx call node) : node.height ≤ cx.maxDepth - cx.depth + m := by
  cases built with
  | given _ argument given lowered =>
    obtain ⟨_, height⟩ := below _ _ _ lowered
    have loose := Nat.le_trans (slack_le (given_mem_preorder given)) (slack _ argument)
    exact Nat.le_trans height (Nat.add_le_add_left loose _)
  | unlisted _ _ _ _ =>
    rw [height_referenceTo]
    exact Nat.zero_le _
  | parts _ _ each => exact height_le_iff.mpr fun child listed => part_height below slack (each child listed)

theorem height_deepPartial_le (n : SchemaNode) : (deepPartial n).height ≤ n.height := by
  induction n using children_induction with
  | step n ih =>
    have below : ∀ child ∈ (partialParts n.parts).toList, child.height < n.height := by
      intro child listed
      rcases mem_partialParts listed with old | ⟨old, inside, rfl | rfl⟩
      · exact height_lt old
      · exact Nat.lt_of_le_of_lt (ih old inside) (height_lt inside)
      · rw [height_setRequired]
        exact Nat.lt_of_le_of_lt (ih old inside) (height_lt inside)
    rw [deepPartial_eq]
    split
    · exact height_le_iff.mpr below
    · exact height_le_iff.mpr below

theorem origin_height (below : Bounded lower) (slack : ∀ a ∈ call.arguments, cx.bindings.slack a.site ≤ m)
    (fits : cx.maxDepth - cx.depth + m ≤ k) (height : n.height ≤ k) (origin : Origin lower cx n call child) :
    child.height < k := by
  cases origin with
  | kept old => exact Nat.lt_of_lt_of_le (height_lt (mem_children_of_besides old)) height
  | marked old _ =>
    rw [height_setRequired]
    exact Nat.lt_of_lt_of_le (height_lt (mem_children_of_besides old)) height
  | new part => exact Nat.lt_of_lt_of_le (part_height below slack part) fits
  | added added inside =>
    have deeper := height_lt (mem_children_of_besides inside)
    have extra := added_height below slack added
    omega

theorem height_around_le {members : List SchemaNode} (around : n.children = members)
    (each : ∀ child ∈ members, child.height ≤ k) : n.height ≤ k + 1 := by
  rw [height_le_iff, around]
  exact fun child listed => Nat.lt_succ_of_le (each child listed)

theorem height_single_le (around : n.children = [child]) (inside : child.height ≤ k) : n.height ≤ k + 1 :=
  height_around_le around (List.forall_mem_singleton.mpr inside)

theorem height_pair_le (around : n.children = [node, child]) (first : node.height ≤ k) (second : child.height ≤ k) :
    n.height ≤ k + 1 :=
  height_around_le around (List.forall_mem_cons.mpr ⟨first, List.forall_mem_singleton.mpr second⟩)

theorem change_height (below : Bounded lower) (slack : ∀ a ∈ call.arguments, cx.bindings.slack a.site ≤ m)
    (fits : cx.maxDepth - cx.depth + m ≤ k) (height : s.node.height ≤ k) (change : Change lower cx s call node) :
    node.height ≤ k + namedCount wrapping [call] := by
  have finished : s.finish.height ≤ k := (height_finish s).trans_le height
  have member {other : SchemaNode} (part : Part lower cx call other) : other.height ≤ k :=
    Nat.le_trans (Nat.le_of_lt (part_height below slack part)) fits
  have wraps (listed : call.name ∈ wrapping) (wrapped : node.height ≤ k + 1) :
      node.height ≤ k + namedCount wrapping [call] := by
    rwa [namedCount, List.countP_singleton, if_pos (List.contains_iff_mem.mpr listed)]
  cases change with
  | revised _ combination origins =>
    refine Nat.le_trans (height_le_iff.mpr fun child listed => ?_) (Nat.le_add_right _ _)
    rcases Parts.mem_toList_iff_besides.mp listed with beside | combined
    · exact origin_height below slack fits height (origins child beside)
    · rcases combination with same | none
      · rw [same] at combined
        exact Nat.lt_of_lt_of_le (height_lt (Parts.mem_toList_iff_besides.mpr (.inr combined))) height
      · rw [none] at combined
        cases combined
  | annotated named _ _ parts =>
    exact wraps (List.mem_append_right _ named) (height_single_le (congrArg Parts.toList parts) height)
  | listed named _ parts =>
    exact wraps (by simp [named, wrapping]) (height_single_le (congrArg Parts.toList parts) finished)
  | either named part _ parts =>
    exact wraps (by simp [named, wrapping]) (height_pair_le (congrArg Parts.toList parts) finished (member part))
  | both named part _ parts =>
    exact wraps (by simp [named, wrapping]) (height_pair_le (congrArg Parts.toList parts) finished (member part))
  | extended named added _ parts =>
    have extra := added_height below slack added
    have listed : call.name ∈ wrapping := List.mem_append_left _ (List.mem_append_right _ named)
    exact wraps listed (height_pair_le (congrArg Parts.toList parts) finished (by omega))
  | softened _ => exact Nat.le_trans (Nat.le_trans (height_deepPartial_le _) height) (Nat.le_add_right _ _)

theorem calls_height (below : Bounded lower) {calls : List Call}
    (slack : ∀ call ∈ calls, ∀ a ∈ call.arguments, cx.bindings.slack a.site ≤ m)
    (fits : cx.maxDepth - cx.depth + m ≤ k) (height : s.node.height ≤ k)
    (applied : calls.foldlM (apply lower cx) s = .ok next) : next.node.height ≤ k + namedCount wrapping calls := by
  induction calls generalizing s k with
  | nil =>
    cases applied
    exact height
  | cons call rest ih =>
    rw [List.foldlM_cons] at applied
    obtain ⟨after, first, applied⟩ := bind_ok.mp applied
    obtain ⟨own, later⟩ := List.forall_mem_cons.mp slack
    have stepped := change_height below own fits height (apply_step first).1
    have ended := ih later (Nat.le_add_right_of_le fits) stepped applied
    have counted : namedCount wrapping (call :: rest) = namedCount wrapping [call] + namedCount wrapping rest :=
      namedCount_append wrapping [call] rest
    omega

-- A whole expression. The methods of its own chain are not those of its arguments.

theorem lowerRoot_height (below : Bounded lower) {root : Root}
    (slack : ∀ a ∈ root.arguments, cx.bindings.slack a.site ≤ m) (lowered : lowerRoot lower cx root = .ok node) :
    node.height ≤ cx.maxDepth - cx.depth + m := by
  cases root with
  | builder base coerce =>
    obtain ⟨built, building, same⟩ := bind_ok.mp lowered
    have height := built_height below slack (build_built building)
    cases same
    split
    · exact (height_pushValidation _ _).trans_le height
    · exact height
  | identifier other =>
    cases lowered
    rw [height_referenceTo]
    exact Nat.zero_le _

theorem lowerOver_bounded (below : Bounded lower) : Bounded (lowerOver lower) := by
  intro cx site node lowered
  obtain ⟨within, chain, root, state, found, rooted, applied, rfl⟩ := lowerOver_ok lowered
  refine ⟨within, ?_⟩
  have spans := chain?_spans found
  have own := spans.counted wrapping
  have loose : ∀ a ∈ chain.root.arguments ++ chain.calls.flatMap Call.arguments,
      cx.bindings.slack a.site ≤ cx.bindings.slack site - namedCount wrapping chain.calls := by
    intro a given
    obtain ⟨inside, beside⟩ := spans.arguments a given
    have methods := beside wrapping
    have names := Site.count_le (·.kind == .shorthandProperty) inside
    unfold Bindings.slack
    omega
  have start := lowerRoot_height below (fun a given => loose a (List.mem_append_left _ given)) rooted
  have ended := calls_height below (s := State.start root)
    (fun call listed a given => loose a (List.mem_append_right _ (List.mem_flatMap.mpr ⟨call, listed, given⟩)))
    (Nat.le_refl _) start applied
  have finished := height_finish state
  have whole : namedCount wrapping chain.calls ≤ cx.bindings.slack site := Nat.le_add_right_of_le own
  omega

theorem lowerWithin_bounded (levels : Nat) : Bounded (lowerWithin levels) := by
  induction levels with
  | zero =>
    intro cx site node lowered
    cases lowered
  | succ levels ih => exact lowerOver_bounded ih

theorem lowerExpression_height (lowered : lowerExpression cx site = .ok node) :
    node.height ≤ cx.maxDepth - cx.depth + cx.bindings.slack site :=
  (lowerWithin_bounded _ _ _ _ lowered).2

variable {settings : ParseSettings} {r : Survey}

-- How deep the schemas of an outcome are. Each comes from a declaration, and no node of it
-- passes the ceiling by more than its initializer has slack; where that calls no method
-- that wraps and has no name alone for a property, none passes it. A declaration without a
-- schema has errors instead.
structure Outcome.Nests (o : Outcome) (b : Bindings) (ceiling : Nat) (declared : List Declaration) : Prop where
  bounded : ∀ entry ∈ o.document.schemas, ∃ d ∈ declared, d.name = entry.1 ∧
    (entry.2.Everywhere fun inner => inner.metadata.dependencies.depth ≤ ceiling + b.slack d.value) ∧
    ((∀ site ∈ d.value.preorder, site.kind ≠ .shorthandProperty ∧ b.callsAny wrapping site = false) →
      entry.2.Everywhere fun inner => inner.metadata.dependencies.depth ≤ ceiling)
  refused : ∀ d ∈ declared, d.name ∉ o.document.schemas.map Prod.fst →
    ∃ report ∈ o.diagnostics, report.isError = true ∧ report.declaration = some d.name

theorem slack_eq_zero (plain : ∀ site ∈ outer.preorder, site.kind ≠ .shorthandProperty ∧ b.callsAny wrapping site = false) :
    b.slack outer = 0 := by
  have calls : b.callCount wrapping outer = 0 := by
    refine List.countP_eq_zero.mpr fun site inside => ?_
    simp [(plain site inside).2]
  have names : outer.count (·.kind == .shorthandProperty) = 0 := by
    refine List.countP_eq_zero.mpr fun site inside => ?_
    simp [(plain site inside).1]
  simp [Bindings.slack, calls, names]

theorem outcome_depth (listed : entry ∈ (r.outcome settings).document.schemas) : ∃ d ∈ r.declarations, d.name = entry.1 ∧
    entry.2.Everywhere fun inner =>
      inner.metadata.dependencies.depth ≤ settings.maxDepth + r.bindings.slack d.value := by
  obtain ⟨d, declared, named, lowered, value, reworked⟩ := outcome_lowered listed
  refine ⟨d, declared, named, ?_⟩
  have coherent := Document.coherent_iff.mp (outcome_coherent settings r) entry listed
  exact coherent.depth_le (Nat.le_trans reworked.height_le (lowerExpression_height value))

theorem outcome_nests (sound : r.Sound) : (r.outcome settings).Nests r.bindings settings.maxDepth r.declarations := by
  refine ⟨?_, ?_⟩
  · intro entry listed
    obtain ⟨d, declared, named, depth⟩ := outcome_depth listed
    refine ⟨d, declared, named, depth, fun plain => ?_⟩
    rwa [slack_eq_zero plain] at depth
  · intro d declared missing
    have accounts : (r.outcome settings).Accounts r.declarations (r.duplicates ++ r.found) := outcome_accounts sound
    rcases accounts.settled d declared with ⟨once, _⟩ | ⟨errors, _⟩
    · exact absurd (List.count_pos_iff.mp (by omega)) missing
    · obtain ⟨report, listed, error, own, _⟩ := errors
      exact ⟨report, listed, error, own⟩

-- The ceiling bounds what a script contributes up to the slack of each declaration, whatever
-- tree the script has.
theorem nesting_bounded (settings : ParseSettings) :
    (∀ root : Tree, ((Survey.ofTree settings root).outcome settings).Nests (.collect settings root) settings.maxDepth
      (Declaration.firsts (.collect settings root) root)) ∧
    ∀ source, (parse settings source).Nests (.collect settings (Script.parse source)) settings.maxDepth
      (Declaration.firsts (.collect settings (Script.parse source)) (Script.parse source)) := by
  have whole (root : Tree) : ((Survey.ofTree settings root).outcome settings).Nests (.collect settings root)
      settings.maxDepth (Declaration.firsts (.collect settings root) root) := by
    rw [← declarations_ofTree]
    exact outcome_nests (ofTree_sound settings root)
  exact ⟨whole, fun source => whole (Script.parse source)⟩

-- The items of an array stand one level down, where a ceiling of none allows nothing.
theorem nesting_exceeded : ¬ ∀ entry ∈ (parse { maxDepth := 0 } "let A=z.int().array()").document.schemas,
    entry.2.Everywhere fun inner => inner.metadata.dependencies.depth ≤ 0 := by
  have deep : ((parse { maxDepth := 0 } "let A=z.int().array()").document.schemas.all fun entry =>
      entry.2.children.all fun child => child.metadata.dependencies.depth ≤ 0) = false := by decide +kernel
  intro shallow
  simp only [List.all_eq_false, Bool.not_eq_true, decide_eq_false_iff_not] at deep
  obtain ⟨entry, listed, child, below, past⟩ := deep
  exact past (shallow entry listed child (.down below .here))

end Builder
end SchemaAtlas
