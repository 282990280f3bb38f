import SchemaAtlas.Graph.Dependency

namespace SchemaAtlas
namespace DependencyGraph

-- The emission order comes from a depth-first traversal with its own stack. A frame
-- is a name in progress with the dependencies of it that are still to be followed.
structure Frame where
  name : String
  pending : List String
deriving DecidableEq, Repr

-- `entered` are the names in progress and the names that are done, `left` only the
-- latter, in the order in which they were done.
structure Traversal where
  entered : List String := []
  stack : List Frame := []
  left : List String := []
deriving DecidableEq, Repr

def enter (g : DependencyGraph) (t : Traversal) (name : String) : Traversal :=
  { t with entered := name :: t.entered, stack := ⟨name, g.dependencies name⟩ :: t.stack }

-- One turn of the loop. An edge into a name that is entered already is skipped, so a
-- cycle opens at the name it is first entered by. `none`: nothing is in progress.
def step (g : DependencyGraph) (t : Traversal) : Option Traversal :=
  match t.stack with
  | [] => none
  | ⟨name, []⟩ :: below => some { t with stack := below, left := t.left ++ [name] }
  | ⟨name, next :: pending⟩ :: below =>
    let followed := { t with stack := ⟨name, pending⟩ :: below }
    some (if t.entered.contains next then followed else g.enter followed next)

-- What the loop has before it at most: two turns for an edge, one for leaving a name.
def frameWork (f : Frame) : Nat := 1 + 2 * f.pending.length

def stackWork : List Frame → Nat
  | [] => 0
  | f :: below => frameWork f + stackWork below

def namesWork (g : DependencyGraph) (entered names : List String) : Nat :=
  stackWork ((names.filter fun name => !entered.contains name).map fun name => ⟨name, g.dependencies name⟩)

def work (g : DependencyGraph) (t : Traversal) : Nat := g.namesWork t.entered g.names + stackWork t.stack

theorem namesWork_cons_le (g : DependencyGraph) (next : String) (entered listed : List String) :
    g.namesWork (next :: entered) listed ≤ g.namesWork entered listed := by
  induction listed with
  | nil => exact Nat.le_refl _
  | cons name listed ih =>
    simp only [namesWork, List.filter_cons, List.contains_cons] at ih ⊢
    by_cases old : name ∈ entered <;> by_cases same : name = next <;> simp_all [stackWork]
    omega

-- A new name takes its own work out of what lies ahead.
theorem namesWork_cons_lt (g : DependencyGraph) {listed : List String} (known : next ∈ listed)
    (fresh : next ∉ entered) :
    frameWork ⟨next, g.dependencies next⟩ + g.namesWork (next :: entered) listed ≤ g.namesWork entered listed := by
  induction listed with
  | nil => cases known
  | cons name listed ih =>
    have rest := namesWork_cons_le g next entered listed
    simp only [namesWork, List.filter_cons, List.contains_cons] at ih rest ⊢
    by_cases same : name = next
    · subst name
      simp_all [stackWork]
    · by_cases old : name ∈ entered <;> simp_all [Ne.symm same, stackWork]
      omega

theorem dependencies_unknown (g : DependencyGraph) (unknown : name ∉ g.names) : g.dependencies name = [] := by
  have missing : List.lookup name g.entries = none := by
    rw [List.lookup_eq_none_iff]
    intro entry inside
    have other : name ≠ entry.1 := fun same => unknown (same ▸ List.mem_map_of_mem inside)
    simpa using other
  simp [dependencies, Entries.get?, missing]

theorem work_step_lt (g : DependencyGraph) (checked : g.step t = some after) : g.work after < g.work t := by
  obtain ⟨entered, stack, left⟩ := t
  unfold step at checked
  split at checked
  · cases checked
  · rename_i same
    cases Option.some.inj checked
    subst same
    simp [work, stackWork, frameWork]
  · rename_i name next pending below same
    cases Option.some.inj checked
    subst same
    dsimp only
    split
    · simp [work, stackWork, frameWork]
    · rename_i fresh
      have fresh : next ∉ entered := by simpa using fresh
      by_cases known : next ∈ g.names
      · have less := namesWork_cons_lt g known fresh
        simp only [work, enter, stackWork, frameWork, List.length_cons] at less ⊢
        omega
      · have less := namesWork_cons_le g next entered g.names
        simp only [work, enter, stackWork, frameWork, dependencies_unknown g known, List.length_cons,
          List.length_nil] at less ⊢
        omega

-- The loop, until nothing is in progress.
def settle (g : DependencyGraph) (t : Traversal) : Traversal :=
  match _checked : g.step t with
  | none => t
  | some after => g.settle after
termination_by g.work t
decreasing_by exact work_step_lt g ‹_›

def start (g : DependencyGraph) (t : Traversal) (name : String) : Traversal :=
  if t.entered.contains name then t else g.settle (g.enter t name)

-- Every name is a start, in declaration order.
def traverse (g : DependencyGraph) : Traversal := g.names.foldl g.start {}

-- Dependencies before their dependents, as far as no cycle stands against it.
def topologicalOrder (g : DependencyGraph) : List String := g.traverse.left

-- Reachability is the same traversal in the shape of a recursion: a name is entered
-- once, and left after everything it depends on.
structure Visit where
  entered : List String := []
  left : List String := []
deriving Repr

-- `fuel` bounds how deep the visit goes; the number of names is enough, because every
-- level enters a new one.
def visit (dependencies : String → List String) : Nat → Visit → String → Visit
  | 0, v, _ => v
  | fuel + 1, v, name =>
    if v.entered.contains name then v
    else
      let inner := (dependencies name).foldl (visit dependencies fuel) { v with entered := name :: v.entered }
      { inner with left := inner.left ++ [name] }

def visitAll (g : DependencyGraph) (starts : List String) : Visit :=
  starts.foldl (visit g.dependencies g.nodeCount) {}

-- The names that some path leads to, in the order they are left.
def reachable (g : DependencyGraph) (name : String) : List String := (g.visitAll (g.dependencies name)).left

-- The groups of names that reach one another, and of single names that reach
-- themselves; members and groups stand in declaration order.
def cycleGroups (g : DependencyGraph) : List (List String) :=
  let table := g.names.map fun name => (name, g.reachable name)
  let reaches (a b : String) : Bool := ((table.lookup a).getD []).contains b
  let grouped := g.names.filter fun name => reaches name name
  firstAppearances (grouped.map fun name => grouped.filter fun other => reaches name other && reaches other name)

end DependencyGraph

def topologicalSort (map : Entries (List String)) : List String := (DependencyGraph.ofMap map).topologicalOrder

end SchemaAtlas
