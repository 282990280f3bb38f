import SchemaAtlas.Proofs.DeclarationFates
import SchemaAtlas.Proofs.LoweringSteps

namespace SchemaAtlas

namespace Parts

theorem besides_map (f : α → β) (p : Parts α) : (p.map f).besides = p.besides.map f := toList_map f { p with allOf := none }

end Parts

namespace SchemaNode

open Builder (extending)

-- A combination around the reference that a text or a mark for reading only is about.
def AroundReference (called : String → Prop) (members : List SchemaNode) : Prop :=
  (called "describe" ∨ called "readonly") ∧ ∃ target, members = [target] ∧ target.isReference = true

-- A combination of a schema and the object, written out in place, that extends it.
def AroundExtension (called : String → Prop) (members : List SchemaNode) : Prop :=
  (∃ name ∈ extending, called name) ∧ ∃ first object, members = [first, object] ∧ first.metadata.required = true ∧
    object.reference = none ∧ object.keywords.type = some .object ∧ object.parts.properties.isSome = true

-- How the parts of a node are marked where `called` are the methods of a script: all are
-- required, but for a member of a combination that one of two kinds of calls makes.
structure Presents (called : String → Prop) (n : SchemaNode) : Prop where
  beside : ∀ child ∈ n.parts.besides, child.metadata.required = true
  combined : ∀ members, n.parts.allOf = some members →
    (∀ member ∈ members, member.metadata.required = true) ∨ AroundReference called members ∨ AroundExtension called members

def Marked (called : String → Prop) (n : SchemaNode) : Prop := n.Everywhere (Presents called)

def Kept (called : String → Prop) (n : SchemaNode) : Prop := n.metadata.required = true ∧ n.Marked called

variable {called : String → Prop} {n new child : SchemaNode}

theorem marked_iff : n.Marked called ↔ n.Presents called ∧ ∀ child ∈ n.children, child.Marked called := everywhere_iff

theorem Marked.own (marked : n.Marked called) : n.Presents called := (marked_iff.mp marked).1

theorem Marked.below (marked : n.Marked called) : ∀ child ∈ n.children, child.Marked called := (marked_iff.mp marked).2

theorem mem_children_of_combined (given : n.parts.allOf = some members) (listed : child ∈ members) : child ∈ n.children :=
  Parts.mem_toList_iff_besides.mpr (.inr (by rwa [given]))

theorem Marked.congr (marked : n.Marked called) (same : new.parts = n.parts) : new.Marked called := by
  obtain ⟨⟨beside, combined⟩, below⟩ := marked_iff.mp marked
  refine marked_iff.mpr ⟨⟨?_, ?_⟩, ?_⟩
  · rwa [same]
  · rwa [same]
  · rwa [children, same]

theorem Marked.beside (marked : n.Marked called) (listed : child ∈ n.parts.besides) : child.Kept called :=
  ⟨marked.own.beside child listed, marked.below child (mem_children_of_besides listed)⟩

theorem marked_of_children (kept : ∀ child ∈ n.children, child.Kept called) : n.Marked called := by
  refine marked_iff.mpr ⟨⟨?_, ?_⟩, fun child listed => (kept child listed).2⟩
  · exact fun child listed => (kept child (mem_children_of_besides listed)).1
  · exact fun members given => .inl fun member listed => (kept member (mem_children_of_combined given listed)).1

theorem marked_of_single (around : n.children = [child]) (kept : child.Kept called) : n.Marked called := by
  refine marked_of_children ?_
  rw [around]
  exact List.forall_mem_singleton.mpr kept

theorem marked_of_pair (around : n.children = [first, second]) (kept : first.Kept called) (other : second.Kept called) :
    n.Marked called := by
  refine marked_of_children ?_
  rw [around]
  exact List.forall_mem_cons.mpr ⟨kept, List.forall_mem_singleton.mpr other⟩

theorem marked_of_combination (parts : n.parts = { allOf := some members })
    (own : (∀ member ∈ members, member.metadata.required = true) ∨ AroundReference called members ∨ AroundExtension called members)
    (below : ∀ member ∈ members, member.Marked called) : n.Marked called := by
  refine marked_iff.mpr ⟨⟨?_, ?_⟩, ?_⟩
  · rw [parts]
    exact nofun
  · rw [parts]
    rintro _ ⟨⟩
    exact own
  · intro child listed
    rw [children, parts] at listed
    exact below child (by simpa [Parts.mem_toList, Parts.propertyEntries] using listed)

theorem Presents.map (presents : n.Presents called) {f : SchemaNode → SchemaNode} (parts : new.parts = n.parts.map f)
    (kept : ∀ old ∈ n.children, Reworked (fun new old => new.required = old.required) (f old) old) :
    new.Presents called := by
  have required (old : SchemaNode) (inside : old ∈ n.children) : (f old).metadata.required = old.metadata.required :=
    (kept old inside).metadata
  refine ⟨?_, ?_⟩
  · intro child listed
    rw [parts, Parts.besides_map] at listed
    obtain ⟨old, inside, rfl⟩ := List.mem_map.mp listed
    rw [required old (mem_children_of_besides inside)]
    exact presents.beside old inside
  · intro members given
    rw [parts] at given
    obtain ⟨olds, held, rfl⟩ := Option.map_eq_some_iff.mp given
    have inside (old : SchemaNode) (listed : old ∈ olds) : old ∈ n.children := mem_children_of_combined held listed
    rcases presents.combined olds held with all | reference | extension
    · refine .inl fun member listed => ?_
      obtain ⟨old, stands, rfl⟩ := List.mem_map.mp listed
      rw [required old (inside old stands)]
      exact all old stands
    · obtain ⟨named, target, rfl, alone⟩ := reference
      refine .inr (.inl ⟨named, f target, rfl, ?_⟩)
      rwa [isReference, (kept target (inside target (by simp))).reference]
    · obtain ⟨named, first, object, rfl, own, plain, type, written⟩ := extension
      refine .inr (.inr ⟨named, f first, f object, rfl, ?_, ?_⟩)
      · rw [required first (inside first (by simp))]
        exact own
      · cases kept object (inside object (by simp)) with
        | node keywords reference _ parts _ =>
          rw [keywords, reference, parts]
          exact ⟨plain, type, by simpa [Parts.map] using written⟩

theorem Reworked.marked (reworked : Reworked (fun new old => new.required = old.required) new n)
    (marked : n.Marked called) : new.Marked called := by
  induction reworked with
  | node _ _ _ parts below ih =>
    refine marked_iff.mpr ⟨marked.own.map parts below, fun child listed => ?_⟩
    rw [children_map parts] at listed
    obtain ⟨old, inside, rfl⟩ := List.mem_map.mp listed
    exact ih old inside (marked.below old inside)

theorem Kept.everywhere (kept : n.Kept called) (described : ¬ called "describe") (readonly : ¬ called "readonly")
    (extended : ∀ name ∈ extending, ¬ called name) : n.Everywhere fun inner => inner.metadata.required = true := by
  refine everywhere_of_children kept.1 fun inner inside child listed => ?_
  obtain ⟨beside, combined⟩ := kept.2 inner inside
  rcases Parts.mem_toList_iff_besides.mp listed with other | member
  · exact beside child other
  · cases given : inner.parts.allOf with
    | none => simp [given] at member
    | some members =>
      rw [given] at member
      rcases combined members given with all | ⟨named, _⟩ | ⟨⟨name, known, named⟩, _⟩
      · exact all child member
      · exact absurd named (not_or.mpr ⟨described, readonly⟩)
      · exact absurd named (extended name known)

end SchemaNode

namespace Builder

open Script SchemaNode

def Bindings.Calls (b : Bindings) (s : Site) (name : String) : Prop := ∃ inner ∈ s.preorder, b.method? inner = some name

def softening : List String := omitting ++ ["partial", "deepPartial"]

variable {called : String → Prop} {lower : Lower} {cx : Context} {s next : State} {n node child : SchemaNode}
  {call : Call} {site : Site} {b : Bindings} {inner outer : Site}

theorem calls_of_inside (inside : inner ∈ outer.preorder) (calls : b.Calls inner name) : b.Calls outer name := by
  obtain ⟨site, deeper, method⟩ := calls
  exact ⟨site, Site.mem_preorder_trans deeper inside, method⟩

def Keeps (called : String → Prop) (lower : Lower) : Prop :=
  ∀ cx site node, (∀ name, cx.bindings.Calls site name → called name) → lower cx site = .ok node → node.Kept called

def Covers (called : String → Prop) (b : Bindings) (arguments : List Argument) : Prop :=
  ∀ a ∈ arguments, ∀ name, b.Calls a.site name → called name

theorem Covers.inside (covers : Covers called b arguments) (given : a ∈ arguments) (inside : site ∈ a.site.preorder) :
    ∀ name, b.Calls site name → called name :=
  fun name calls => covers a given name (calls_of_inside inside calls)

theorem part_kept (below : Keeps called lower) (covers : Covers called cx.bindings call.arguments)
    (part : Part lower cx call child) : child.Kept called := by
  cases part with
  | lowered given exposes lowered => exact below cx.child _ _ (covers.inside given exposes.inside) lowered
  | named _ _ _ => exact ⟨rfl, marked_of_children nofun⟩

theorem added_marked (below : Keeps called lower) (covers : Covers called cx.bindings call.arguments)
    (added : Added lower cx call node) : node.Marked called ∧ (node.metadata.required = true ∨
      node.reference = none ∧ node.keywords.type = some .object ∧ node.parts.properties.isSome = true) := by
  cases added with
  | lowered given lowered =>
    have kept := below cx.child _ _ (covers _ given) lowered
    exact ⟨kept.2, .inl kept.1⟩
  | written parts =>
    have inner : Covers called cx.child.bindings call.arguments := covers
    refine ⟨marked_of_children fun child listed => ?_, .inr ⟨rfl, rfl, rfl⟩⟩
    rcases mem_children_withProperties listed with ⟨entry, inside, rfl⟩ | none
    · exact part_kept below inner (parts entry inside)
    · cases none

theorem built_marked (below : Keeps called lower) (covers : Covers called cx.bindings call.arguments)
    (built : Built lower cx call node) : node.Marked called := by
  cases built with
  | given _ argument given lowered => exact (below cx _ _ (covers.inside argument (given_mem_preorder given)) lowered).2
  | unlisted _ _ _ _ => exact marked_of_children nofun
  | parts _ _ each => exact marked_of_children fun child listed => part_kept below covers (each child listed)

theorem lowerRoot_marked (below : Keeps called lower) {root : Root} (covers : Covers called cx.bindings root.arguments)
    (lowered : lowerRoot lower cx root = .ok node) : node.Marked called := by
  cases root with
  | builder base coerce =>
    obtain ⟨built, building, same⟩ := bind_ok.mp lowered
    have marked := built_marked below covers (build_built building)
    cases same
    split
    · exact marked.congr rfl
    · exact marked
  | identifier other =>
    cases lowered
    exact marked_of_children nofun

def Standing (called : String → Prop) (s : State) : Prop := s.node.Marked called ∧ s.optional = false

theorem finish_kept (standing : Standing called s) : s.finish.Kept called := by
  refine ⟨?_, standing.1.congr rfl⟩
  rw [State.finish, standing.2]
  rfl

variable (quiet : ∀ name ∈ softening, ¬ called name)

include quiet

theorem origin_kept (below : Keeps called lower) (covers : Covers called cx.bindings call.arguments) (own : called call.name)
    (marked : n.Marked called) (origin : Origin lower cx n call child) : child.Kept called := by
  cases origin with
  | kept old => exact marked.beside old
  | marked old mark =>
    rcases mark with rfl | named
    · exact ⟨rfl, (marked.beside old).2.congr rfl⟩
    · exact absurd own (quiet _ (by simp [named, softening]))
  | new part => exact part_kept below covers part
  | added added inside => exact (added_marked below covers added).1.beside inside

theorem change_marked (below : Keeps called lower) (covers : Covers called cx.bindings call.arguments) (own : called call.name)
    (standing : Standing called s) (change : Change lower cx s call node) : node.Marked called := by
  have marked := standing.1
  have finished := finish_kept standing
  cases change with
  | revised _ combination origins =>
    have beside (child : SchemaNode) (listed : child ∈ node.parts.besides) : child.Kept called :=
      origin_kept quiet below covers own marked (origins child listed)
    refine marked_iff.mpr ⟨⟨fun child listed => (beside child listed).1, ?_⟩, ?_⟩
    · rcases combination with same | none
      · rw [same]
        exact marked.own.combined
      · rw [none]
        exact nofun
    · intro child listed
      rcases Parts.mem_toList_iff_besides.mp listed with other | member
      · exact (beside child other).2
      · rcases combination with same | none
        · rw [same] at member
          exact marked.below child (Parts.mem_toList_iff_besides.mpr (.inr member))
        · rw [none] at member
          cases member
  | annotated named reference _ parts =>
    have kind : called "describe" ∨ called "readonly" := by
      simp only [annotating, List.mem_cons, List.not_mem_nil, or_false] at named
      rcases named with named | named | named | named
      · exact .inl (named ▸ own)
      · exact absurd own (quiet _ (by simp [named, softening, omitting]))
      · exact absurd own (quiet _ (by simp [named, softening, omitting]))
      · exact .inr (named ▸ own)
    refine marked_of_combination parts (.inr (.inl ⟨kind, _, rfl, reference⟩)) ?_
    simpa using marked
  | listed _ _ parts => exact marked_of_single (congrArg Parts.toList parts) finished
  | either _ part _ parts => exact marked_of_pair (congrArg Parts.toList parts) finished (part_kept below covers part)
  | both _ part _ parts => exact marked_of_pair (congrArg Parts.toList parts) finished (part_kept below covers part)
  | extended named added _ parts =>
    obtain ⟨marked, required | ⟨plain, type, written⟩⟩ := added_marked below covers added
    · exact marked_of_pair (congrArg Parts.toList parts) finished ⟨required, marked⟩
    · refine marked_of_combination parts (.inr (.inr ⟨⟨_, named, own⟩, _, _, rfl, finished.1, plain, type, written⟩)) ?_
      exact List.forall_mem_cons.mpr ⟨finished.2, List.forall_mem_singleton.mpr marked⟩
  | softened named => exact absurd own (quiet _ (by simp [named, softening]))

theorem apply_standing (below : Keeps called lower) (covers : Covers called cx.bindings call.arguments)
    (own : called call.name) (standing : Standing called s) (applied : apply lower cx s call = .ok next) :
    Standing called next := by
  obtain ⟨change, mark⟩ := apply_step applied
  refine ⟨change_marked quiet below covers own standing change, ?_⟩
  rw [← Bool.not_eq_true]
  intro marks
  rcases mark marks with before | omits
  · rw [standing.2] at before
    cases before
  · exact quiet _ (List.mem_append_left _ omits) own

theorem lowerOver_keeps (below : Keeps called lower) : Keeps called (lowerOver lower) := by
  intro cx site node calls lowered
  obtain ⟨_, chain, root, state, found, rooted, applied, rfl⟩ := lowerOver_ok lowered
  have spans := chain?_spans found
  have own : ∀ call ∈ chain.calls, called call.name := by
    intro call listed
    obtain ⟨inner, inside, method⟩ := spans.methods call listed
    exact calls _ ⟨inner, inside, method⟩
  have covers : Covers called cx.bindings (chain.root.arguments ++ chain.calls.flatMap Call.arguments) :=
    fun a given name inner => calls name (calls_of_inside (spans.arguments a given).1 inner)
  have inCalls : ∀ call ∈ chain.calls, Covers called cx.bindings call.arguments := fun call listed a given =>
    covers a (List.mem_append_right _ (List.mem_flatMap.mpr ⟨call, listed, given⟩))
  have start : (State.start root).node.Marked called :=
    lowerRoot_marked below (fun a given => covers a (List.mem_append_left _ given)) rooted
  refine finish_kept (foldlM_keeps (P := Standing called) ⟨start, rfl⟩ ?_ applied)
  exact fun call listed _ _ standing step => apply_standing quiet below (inCalls call listed) (own call listed) standing step

theorem lowerWithin_keeps (levels : Nat) : Keeps called (lowerWithin levels) := by
  induction levels with
  | zero =>
    intro cx site node _ lowered
    cases lowered
  | succ levels ih => exact lowerOver_keeps quiet ih

theorem lowerExpression_kept (covered : ∀ name, cx.bindings.Calls site name → called name)
    (lowered : lowerExpression cx site = .ok node) : node.Kept called :=
  lowerWithin_keeps quiet _ _ _ _ covered lowered

omit quiet

instance (b : Bindings) (s : Site) (name : String) : Decidable (b.Calls s name) :=
  inferInstanceAs (Decidable (∃ inner ∈ s.preorder, b.method? inner = some name))

variable {settings : ParseSettings} {r : Survey}

-- What an outcome says of presence. The schema of a declaration is required, and so is
-- every node in it, but for the two exceptions that calls in its own initializer make.
def Outcome.Requires (o : Outcome) (b : Bindings) (declared : List Declaration) : Prop :=
  ∀ entry ∈ o.document.schemas, ∃ d ∈ declared, d.name = entry.1 ∧ entry.2.Kept (b.Calls d.value) ∧
    (¬ b.Calls d.value "describe" → ¬ b.Calls d.value "readonly" → (∀ name ∈ extending, ¬ b.Calls d.value name) →
      entry.2.Everywhere fun inner => inner.metadata.required = true)

theorem outcome_requires (quiet : ∀ d ∈ r.declarations, ∀ name ∈ softening, ¬ r.bindings.Calls d.value name) :
    (r.outcome settings).Requires r.bindings r.declarations := by
  intro entry listed
  obtain ⟨d, declared, named, lowered, value, reworked⟩ := outcome_lowered listed
  have covered : ∀ name, (r.context settings).bindings.Calls d.value name → r.bindings.Calls d.value name :=
    fun _ calls => calls
  obtain ⟨required, marked⟩ := lowerExpression_kept (quiet d declared) covered value
  have kept : entry.2.Kept (r.bindings.Calls d.value) := ⟨reworked.metadata.trans required, reworked.marked marked⟩
  exact ⟨d, declared, named, kept, kept.everywhere⟩

-- Nothing becomes optional unasked, but for the two exceptions, whatever tree a script has.
theorem presence_unasked (settings : ParseSettings) :
    (∀ root : Tree, (∀ name ∈ softening, ¬ (Bindings.collect settings root).Calls (Site.root root) name) →
      ((Survey.ofTree settings root).outcome settings).Requires (.collect settings root)
        (Declaration.firsts (.collect settings root) root)) ∧
    ∀ source, (∀ name ∈ softening, ¬ (Bindings.collect settings (Script.parse source)).Calls
        (Site.root (Script.parse source)) name) →
      (parse settings source).Requires (.collect settings (Script.parse source))
        (Declaration.firsts (.collect settings (Script.parse source)) (Script.parse source)) := by
  have whole (root : Tree) (quiet : ∀ name ∈ softening, ¬ (Bindings.collect settings root).Calls (Site.root root) name) :
      ((Survey.ofTree settings root).outcome settings).Requires (.collect settings root)
        (Declaration.firsts (.collect settings root) root) := by
    rw [← declarations_ofTree]
    refine outcome_requires fun d declared name soft calls => quiet name soft ?_
    exact calls_of_inside (declarations_inside declared) calls
  exact ⟨whole, fun source => whole (Script.parse source)⟩

def unaskedScript : String := "let A=z.int(),B=A.readonly(),C=A.extend({})"

theorem quiet_unaskedScript : ∀ name ∈ softening, ¬ (Bindings.collect {} (Script.parse unaskedScript)).Calls
    (Site.root (Script.parse unaskedScript)) name := by decide +kernel

theorem presence_unasked_script :
    (∀ name ∈ softening, ¬ (Bindings.collect {} (Script.parse unaskedScript)).Calls
      (Site.root (Script.parse unaskedScript)) name) ∧
    (parse {} unaskedScript).Requires (.collect {} (Script.parse unaskedScript))
      (Declaration.firsts (.collect {} (Script.parse unaskedScript)) (Script.parse unaskedScript)) :=
  ⟨quiet_unaskedScript, (presence_unasked {}).2 _ quiet_unaskedScript⟩

-- In `B` and in `C` one member is left out unasked.
theorem presence_unasked_members :
    (∀ name ∈ softening, ¬ (Bindings.collect {} (Script.parse unaskedScript)).Calls
      (Site.root (Script.parse unaskedScript)) name) ∧
    ∀ name ∈ ["B", "C"], ∃ entry ∈ (parse {} unaskedScript).document.schemas, entry.1 = name ∧
      ¬ entry.2.Everywhere fun inner => inner.metadata.required = true := by
  have marks : ∀ name ∈ ["B", "C"], ∃ entry ∈ (parse {} unaskedScript).document.schemas, entry.1 = name ∧
      ∃ child ∈ entry.2.children, child.metadata.required = false := by decide +kernel
  refine ⟨quiet_unaskedScript, fun name known => ?_⟩
  obtain ⟨entry, listed, named, child, below, optional⟩ := marks name known
  refine ⟨entry, listed, named, fun all => ?_⟩
  have required : child.metadata.required = true := all child (.down below .here)
  rw [optional] at required
  cases required

end Builder
end SchemaAtlas
