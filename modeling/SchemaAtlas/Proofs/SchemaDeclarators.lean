import SchemaAtlas.Proofs.DeclarationFates
import SchemaAtlas.Proofs.Reachability

namespace SchemaAtlas
namespace Builder

open Script

-- Which declarators of a script are taken for declarations of schemas.

namespace Declaration

structure DeclaredIn (d : Declaration) (declaration : Site) : Prop where
  names : declaration.kind = .lexicalDeclaration ∨ declaration.kind = .variableDeclaration
  declarator : ∃ declarator ∈ declaration.parts, declarator.kind = .declarator ∧
    (∃ target, declarator.child? .name = some target ∧ target.kind = .identifier ∧ target.text = d.name) ∧
    declarator.child? .value = some d.value

def TopLevel (root : Tree) (d : Declaration) : Prop :=
  ∃ statement ∈ (Site.root root).parts,
    if statement.kind = .exportStatement then
      d.exported = true ∧ ∃ inner, statement.child? .declaration = some inner ∧ d.DeclaredIn inner
    else d.exported = false ∧ d.DeclaredIn statement

variable {b : Bindings} {root : Tree} {all : List Declaration} {d e : Declaration} {visible : Bool}

theorem ofDeclarator?_eq_some {declarator : Site} : ofDeclarator? visible declarator = some d ↔
    (∃ target, declarator.child? .name = some target ∧ target.kind = .identifier ∧ target.text = d.name) ∧
      declarator.child? .value = some d.value ∧ d.exported = visible := by
  unfold ofDeclarator?
  constructor
  · intro given
    obtain ⟨target, named, given⟩ := Option.bind_eq_some_iff.mp given
    obtain ⟨value, stands, given⟩ := Option.bind_eq_some_iff.mp given
    split at given
    · rename_i plain
      cases given
      exact ⟨⟨target, named, beq_iff_eq.mp plain, rfl⟩, stands, rfl⟩
    · cases given
  · obtain ⟨name, value, exported⟩ := d
    rintro ⟨⟨target, named, plain, rfl⟩, stands, rfl⟩
    simp only at stands
    simp [named, stands, plain]

theorem mem_declarators {declaration declarator : Site} : declarator ∈ declarators declaration ↔
    (declaration.kind = .lexicalDeclaration ∨ declaration.kind = .variableDeclaration) ∧
      declarator ∈ declaration.parts ∧ declarator.kind = .declarator := by
  unfold declarators
  split <;> simp_all

theorem mem_declared {declaration : Site} : d ∈ (declarators declaration).filterMap (ofDeclarator? visible) ↔
    d.exported = visible ∧ d.DeclaredIn declaration := by
  rw [List.mem_filterMap]
  constructor
  · rintro ⟨declarator, listed, given⟩
    obtain ⟨names, part, kind⟩ := mem_declarators.mp listed
    obtain ⟨named, stands, same⟩ := ofDeclarator?_eq_some.mp given
    exact ⟨same, names, declarator, part, kind, named, stands⟩
  · rintro ⟨same, names, declarator, part, kind, named, stands⟩
    exact ⟨declarator, mem_declarators.mpr ⟨names, part, kind⟩, ofDeclarator?_eq_some.mpr ⟨named, stands, same⟩⟩

theorem mem_initialized : d ∈ initialized root ↔ TopLevel root d := by
  unfold initialized TopLevel
  rw [List.mem_flatMap]
  refine exists_congr fun statement => and_congr_right fun _ => ?_
  unfold ofStatement?
  by_cases export_ : statement.kind = .exportStatement
  · rw [export_, if_pos rfl]
    cases inner : statement.child? .declaration with
    | none => simp
    | some declaration =>
      dsimp only [Option.map_some]
      rw [mem_declared]
      simp
  · rw [if_neg export_]
    split
    · rename_i found
      split at found
      · contradiction
      · cases found
        exact mem_declared
    · rename_i found
      split at found
      · contradiction
      · cases found

theorem sublist_of_parts {s : Site} {pick : Site → List Site} (inside : ∀ part ∈ s.parts, (pick part).Sublist part.preorder) :
    (s.parts.flatMap pick).Sublist s.preorder := by
  have parts : s.parts.Sublist (s.tree.children.map s.down) := List.filter_sublist.map _
  calc (s.parts.flatMap pick).Sublist (s.parts.flatMap Site.preorder) := List.Sublist.flatMap_right _ inside
    List.Sublist _ ((s.tree.children.map s.down).flatMap Site.preorder) := parts.flatMap _
    List.Sublist _ s.preorder := by
      rw [Site.preorder_eq s, List.flatMap_map]
      exact List.sublist_cons_self _ _

theorem declared_sublist (declaration : Site) (visible : Bool) :
    (((declarators declaration).filterMap (ofDeclarator? visible)).map Declaration.value).Sublist
      declaration.preorder := by
  have some (declarator : Site) :
      (((ofDeclarator? visible declarator).map Declaration.value).toList).Sublist declarator.preorder := by
    cases given : ofDeclarator? visible declarator with
    | none => exact List.nil_sublist _
    | some d =>
      obtain ⟨_, stands, _⟩ := ofDeclarator?_eq_some.mp given
      exact List.singleton_sublist.mpr (Site.child?_mem_preorder stands)
  rw [List.map_filterMap, List.filterMap_eq_flatMap_toList]
  unfold declarators
  split
  case h_3 => exact List.nil_sublist _
  all_goals
    refine List.Sublist.trans (List.Sublist.flatMap List.filter_sublist _) ?_
    exact sublist_of_parts fun declarator _ => some declarator

theorem initialized_sublist (root : Tree) :
    ((initialized root).map Declaration.value).Sublist (Site.root root).preorder := by
  unfold initialized
  rw [List.map_flatMap]
  refine sublist_of_parts fun statement _ => ?_
  split
  · rename_i found
    refine (declared_sublist _ _).trans ?_
    exact Site.preorder_sublist (ofStatement?_exposes found).inside
  · exact List.nil_sublist _

def Builds (b : Bindings) (d : Declaration) : Prop := ∃ chain, b.chain? d.value = some chain ∧ chain.isBuilder = true

def StartsFrom (b : Bindings) (d : Declaration) (name : String) : Prop :=
  ∃ chain, b.chain? d.value = some chain ∧ chain.rootName? = some name

-- Its own initializer is built, or starts from the name of one that leads to a builder.
inductive Leads (b : Bindings) (root : Tree) : Declaration → Prop where
  | built {d : Declaration} : TopLevel root d → d.Builds b → Leads b root d
  | named {d e : Declaration} : TopLevel root d → d.StartsFrom b e.name → Leads b root e → Leads b root d

theorem start?_built : d.start? b = some none ↔ d.Builds b := by
  unfold start? Builds Chain.isBuilder Chain.rootName?
  cases b.chain? d.value with
  | none => simp
  | some chain => cases root : chain.root <;> simp [root]

theorem start?_named {name : String} : d.start? b = some (some name) ↔ d.StartsFrom b name := by
  unfold start? StartsFrom
  cases b.chain? d.value <;> simp

theorem Leads.start?_ne_none (leads : Leads b root d) : d.start? b ≠ none := by
  cases leads with
  | built _ built => rw [start?_built.mpr built]; exact Option.some_ne_none _
  | named _ named => rw [start?_named.mpr named]; exact Option.some_ne_none _

theorem Leads.topLevel (leads : Leads b root d) : TopLevel root d := by
  cases leads with
  | built top => exact top
  | named top => exact top

theorem Leads.not_ring {names : List String} (leads : Leads b root d)
    (ring : ∀ d, TopLevel root d → d.name ∈ names → ∃ name ∈ names, d.StartsFrom b name) : d.name ∉ names := by
  induction leads with
  | built top builds =>
    intro inside
    obtain ⟨name, _, starts⟩ := ring _ top inside
    have same := (start?_built.mpr builds).symm.trans (start?_named.mpr starts)
    cases same
  | named top starts _ ih =>
    intro inside
    obtain ⟨name, listed, other⟩ := ring _ top inside
    have same := (start?_named.mpr starts).symm.trans (start?_named.mpr other)
    cases same
    exact ih listed

section
variable {candidates : List (String × Option (Option String))} {accepted : List String} {name : String}

theorem mem_accept : name ∈ accept candidates accepted ↔
    name ∈ accepted ∨ ∃ root, (name, some (some root)) ∈ candidates ∧ root ∈ accepted := by
  unfold accept
  rw [List.mem_append, List.mem_map]
  constructor
  · rintro (old | ⟨⟨other, start⟩, new, rfl⟩)
    · exact .inl old
    · obtain ⟨listed, waits⟩ := List.mem_filter.mp new
      rw [Bool.and_eq_true] at waits
      obtain ⟨_, rooted⟩ := waits
      split at rooted
      · rename_i root
        exact .inr ⟨root, listed, List.contains_iff_mem.mp rooted⟩
      · cases rooted
  · rintro (old | ⟨root, listed, rooted⟩)
    · exact .inl old
    · by_cases old : name ∈ accepted
      · exact .inl old
      · refine .inr ⟨_, List.mem_filter.mpr ⟨listed, ?_⟩, rfl⟩
        simpa [old] using rooted

def waiting (candidates : List (String × Option (Option String))) (accepted : List String) : Nat :=
  (candidates.map Prod.fst).countP fun name => !accepted.contains name

theorem waiting_le (candidates : List (String × Option (Option String))) (accepted : List String) :
    waiting candidates accepted ≤ candidates.length := by
  calc waiting candidates accepted ≤ (candidates.map Prod.fst).length := List.countP_le_length
    _ = candidates.length := List.length_map _

theorem accept_settled_or_fewer (candidates : List (String × Option (Option String))) (accepted : List String) :
    accept candidates accepted = accepted ∨
      waiting candidates (accept candidates accepted) < waiting candidates accepted := by
  by_cases fresh : ∃ name ∈ accept candidates accepted, name ∉ accepted
  · obtain ⟨name, listed, new⟩ := fresh
    obtain ⟨root, candidate, _⟩ := (mem_accept.mp listed).resolve_left new
    right
    calc waiting candidates (accept candidates accepted)
        ≤ waiting candidates (name :: accepted) := by
          refine countP_unvisited_le fun other kept => ?_
          rcases List.mem_cons.mp kept with rfl | old
          · exact listed
          · exact mem_accept.mpr (.inl old)
      _ < waiting candidates accepted := countP_unvisited_lt (List.mem_map_of_mem candidate) new
  · left
    unfold accept at fresh ⊢
    rw [List.append_right_eq_self, List.map_eq_nil_iff, List.filter_eq_nil_iff]
    intro entry listed waits
    refine fresh ⟨entry.1, List.mem_append_right _ (List.mem_map_of_mem (List.mem_filter.mpr ⟨listed, waits⟩)), ?_⟩
    simp only [Bool.and_eq_true] at waits
    simpa using waits.1

end

-- Steps that settle or make something smaller have settled after as many as its size.
theorem repeat_settled (f : α → α) (size : α → Nat) (step : ∀ a, f a = a ∨ size (f a) < size a) {a : α} {rounds : Nat}
    (enough : size a ≤ rounds) : f (Nat.repeat f rounds a) = Nat.repeat f rounds a := by
  have within (rounds : Nat) :
      f (Nat.repeat f rounds a) = Nat.repeat f rounds a ∨ size (Nat.repeat f rounds a) + rounds ≤ size a := by
    induction rounds with
    | zero => exact .inr (Nat.le_refl _)
    | succ rounds ih =>
      change f (f (Nat.repeat f rounds a)) = f (Nat.repeat f rounds a) ∨ size (f (Nat.repeat f rounds a)) + _ ≤ _
      rcases ih with settled | fewer
      · exact .inl (congrArg f settled)
      · rcases step (Nat.repeat f rounds a) with settled | smaller
        · exact .inl (congrArg f settled)
        · exact .inr (by omega)
  rcases within rounds with settled | fewer
  · exact settled
  · exact (step _).resolve_right (by omega)

theorem acceptedNames_settled (candidates : List (String × Option (Option String))) :
    accept candidates (acceptedNames candidates) = acceptedNames candidates :=
  repeat_settled (accept candidates) (waiting candidates) (accept_settled_or_fewer candidates) (waiting_le _ _)

theorem subset_rounds (candidates : List (String × Option (Option String))) (accepted : List String) (rounds : Nat) :
    accepted ⊆ Nat.repeat (accept candidates) rounds accepted := by
  induction rounds with
  | zero => exact List.Subset.refl _
  | succ rounds ih => exact fun name old => mem_accept.mpr (.inl (ih old))

def candidates (b : Bindings) (root : Tree) : List (String × Option (Option String)) :=
  (initialized root).map fun d => (d.name, d.start? b)

theorem mem_candidates {name : String} {start : Option (Option String)} :
    (name, start) ∈ candidates b root ↔ ∃ d, TopLevel root d ∧ d.name = name ∧ d.start? b = start := by
  simp [candidates, mem_initialized]

theorem mem_acceptedNames {name : String} :
    name ∈ acceptedNames (candidates b root) ↔ ∃ d, d.name = name ∧ Leads b root d := by
  have built : ∀ name, name ∈ ((candidates b root).filter (·.2 == some none)).map Prod.fst ↔
      ∃ d, d.name = name ∧ TopLevel root d ∧ d.Builds b := by
    intro name
    rw [List.mem_map]
    constructor
    · rintro ⟨⟨_, start⟩, listed, rfl⟩
      obtain ⟨candidate, isBuilt⟩ := List.mem_filter.mp listed
      obtain ⟨d, top, named, same⟩ := mem_candidates.mp candidate
      exact ⟨d, named, top, start?_built.mp (same.trans (beq_iff_eq.mp isBuilt))⟩
    · rintro ⟨d, rfl, top, builds⟩
      exact ⟨_, List.mem_filter.mpr ⟨mem_candidates.mpr ⟨d, top, rfl, start?_built.mpr builds⟩, rfl⟩, rfl⟩
  constructor
  · unfold acceptedNames
    generalize (candidates b root).length = rounds
    induction rounds generalizing name with
    | zero =>
      intro start
      obtain ⟨d, named, top, builds⟩ := (built name).mp start
      exact ⟨d, named, .built top builds⟩
    | succ rounds ih =>
      intro listed
      rcases mem_accept.mp listed with old | ⟨other, candidate, rooted⟩
      · exact ih old
      · obtain ⟨d, top, named, same⟩ := mem_candidates.mp candidate
        obtain ⟨e, rfl, leads⟩ := ih rooted
        exact ⟨d, named, .named top (start?_named.mp same) leads⟩
  · rintro ⟨d, rfl, leads⟩
    induction leads with
    | built top builds => exact subset_rounds _ _ _ ((built _).mpr ⟨_, rfl, top, builds⟩)
    | named top starts _ ih =>
      rw [← acceptedNames_settled]
      exact mem_accept.mpr (.inr ⟨_, mem_candidates.mpr ⟨_, top, rfl, start?_named.mpr starts⟩, ih⟩)

open Classical in
theorem find_eq (b : Bindings) (root : Tree) :
    find b root = (initialized root).filter fun d => ∃ e, e.name = d.name ∧ Leads b root e := by
  refine List.filter_congr fun d _ => ?_
  rw [Bool.eq_iff_iff, List.contains_iff_mem, decide_eq_true_iff]
  exact mem_acceptedNames

-- The declarations of a script: in the order of the script, those declarators at its top of
-- whose name one leads to a builder. Where no name is declared twice these are the ones that
-- lead there themselves. Names that only lead to one another are left out, and the rounds in
-- which names are accepted end.
open Classical in
theorem schemas_declared (b : Bindings) (root : Tree) :
    (∀ d, d ∈ initialized root ↔ TopLevel root d) ∧
    ((initialized root).map Declaration.value).Sublist (Site.root root).preorder ∧
    find b root = (initialized root).filter (fun d => ∃ e, e.name = d.name ∧ Leads b root e) ∧
    (((initialized root).map Declaration.name).Nodup → find b root = (initialized root).filter (Leads b root)) ∧
    (∀ names : List String, (∀ d, TopLevel root d → d.name ∈ names → ∃ name ∈ names, d.StartsFrom b name) →
      ∀ d ∈ find b root, d.name ∉ names) ∧
    accept (candidates b root) (acceptedNames (candidates b root)) = acceptedNames (candidates b root) := by
  refine ⟨fun d => mem_initialized, initialized_sublist root, find_eq b root, ?_, ?_, acceptedNames_settled _⟩
  · intro once
    rw [find_eq]
    refine List.filter_congr fun d listed => ?_
    rw [decide_eq_decide]
    constructor
    · rintro ⟨e, same, leads⟩
      rwa [← List.inj_on_of_nodup_map once (mem_initialized.mpr leads.topLevel) listed same]
    · exact fun leads => ⟨d, rfl, leads⟩
  · intro names ring d found inside
    rw [find_eq, List.mem_filter, decide_eq_true_iff] at found
    obtain ⟨_, e, same, leads⟩ := found
    exact leads.not_ring ring (same ▸ inside)

def forwardScript : String := "import \x7b z \x7d from \"zod\";
export const Shown = Named.optional();
const Named = Text.min(1);
const First = Second.optional(), Second = First.nullable();
const limit = 5, helper = make();
const Text = z.string();
"

open Classical in
theorem schemas_declared_forward :
    ((initialized (Script.parse forwardScript)).map Declaration.name).Nodup ∧
    find (.collect {} (Script.parse forwardScript)) (Script.parse forwardScript) =
      (initialized (Script.parse forwardScript)).filter
        (Leads (.collect {} (Script.parse forwardScript)) (Script.parse forwardScript)) := by
  have once : ((initialized (Script.parse forwardScript)).map Declaration.name).Nodup := by decide +kernel
  exact ⟨once, (schemas_declared _ _).2.2.2.1 once⟩

-- A name that is declared twice brings in a declarator that is no schema, and that one is kept
-- for the name.
def redeclaringScript : String := "import \x7b z \x7d from \"zod\";
var A = 5;
var A = z.string();
"

theorem schemas_declared_redeclaring :
    let root := Script.parse redeclaringScript
    let b := Bindings.collect {} root
    (∃ d ∈ find b root, ¬ Leads b root d) ∧ ∃ d, firsts b root = [d] ∧ ¬ Leads b root d := by
  intro root b
  have found : ∃ d ∈ find b root, d.start? b = none := by decide +kernel
  have kept : (firsts b root).map (start? b) = [none] := by decide +kernel
  obtain ⟨d, listed, start⟩ := found
  obtain ⟨first, one, none⟩ := List.map_eq_singleton_iff.mp kept
  exact ⟨⟨d, listed, fun leads => leads.start?_ne_none start⟩, first, one, fun leads => leads.start?_ne_none none⟩

end Declaration
end Builder
end SchemaAtlas
