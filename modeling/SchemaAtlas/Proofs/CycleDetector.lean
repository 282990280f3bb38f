import SchemaAtlas.Proofs.Reachability
import SchemaAtlas.Graph.Cycle

namespace SchemaAtlas
namespace DependencyGraph

variable {g : DependencyGraph} {root : String}

structure Trail (g : DependencyGraph) (root : String) (way : List String) : Prop where
  chain : way.IsChain g.Edge
  head : way.head? = some root

theorem Trail.snoc (trail : g.Trail root (path ++ [name])) (edge : g.Edge name next) :
    g.Trail root (path ++ [name] ++ [next]) := by
  refine ⟨List.isChain_append.mpr ⟨trail.chain, List.isChain_singleton _, ?_⟩, ?_⟩
  · intro x last y first
    simp only [List.getLast?_append, List.getLast?_singleton, Option.some_or, Option.mem_def, Option.some.injEq] at last
    cases last
    cases Option.some.inj first
    exact edge
  · rw [List.head?_append, trail.head]
    rfl

theorem Trail.reaches {way : List String} (trail : g.Trail root way) (listed : name ∈ way) :
    name = root ∨ g.Reaches root name := by
  obtain ⟨chain, head⟩ := trail
  cases way with
  | nil => cases listed
  | cons first rest =>
    cases Option.some.inj head
    rcases List.mem_cons.mp listed with same | later
    · exact .inl same
    · exact .inr ((List.pairwise_cons.mp (chain_pairwise chain)).1 name later)

def Recordable (g : DependencyGraph) (root name : String) : Prop := g.Reaches root name ∧ g.OnCycle name

theorem onCycle_of_loop (chain : List.IsChain g.Edge (name :: rest ++ [name])) (listed : member ∈ name :: rest) :
    g.OnCycle member := by
  have pairs := chain_pairwise chain
  rw [List.cons_append, List.pairwise_cons] at pairs
  rcases List.mem_cons.mp listed with rfl | later
  · exact pairs.1 _ (List.mem_append_right _ List.mem_cons_self)
  · have away := pairs.1 member (List.mem_append_left _ later)
    have back := (List.pairwise_append.mp pairs.2).2.2 member later name List.mem_cons_self
    exact back.trans away

theorem recordable_suffix (trail : g.Trail root (path ++ [name])) (inside : name ∈ path)
    (listed : member ∈ path.dropWhile (· != name)) : g.Recordable root member := by
  obtain ⟨front, rest, rfl, fresh⟩ := List.eq_append_cons_of_mem inside
  have suffix : (front ++ name :: rest).dropWhile (· != name) = name :: rest := by
    rw [List.dropWhile_append_of_pos]
    · simp
    · intro other before
      simpa using fun same : other = name => fresh (same ▸ before)
  rw [suffix] at listed
  have loop : List.IsChain g.Edge (name :: rest ++ [name]) := by
    have chain := trail.chain
    rw [List.append_assoc] at chain
    exact chain.right_of_append
  have cycle := onCycle_of_loop loop listed
  refine ⟨?_, cycle⟩
  rcases trail.reaches (List.mem_append_left _ (List.mem_append_right _ listed)) with rfl | path
  · exact cycle
  · exact path

theorem walk_recordable (fuel : Nat) (path : List String) (w : CycleWalk) (name : String)
    (trail : g.Trail root (path ++ [name])) (old : ∀ member ∈ w.found, g.Recordable root member) :
    ∀ member ∈ (walk g.dependencies fuel path w name).found, g.Recordable root member := by
  induction fuel generalizing path w name with
  | zero => exact old
  | succ fuel ih =>
    unfold walk
    split
    · rename_i onPath
      intro member listed
      rcases mem_foldl_appendNew.mp listed with before | suffix
      · exact old member before
      · exact recordable_suffix trail (by simpa using onPath) suffix
    · split
      · exact old
      · refine List.foldlRecOn (motive := fun w : CycleWalk => ∀ member ∈ w.found, g.Recordable root member) _ _ old ?_
        intro w kept next edge
        exact ih _ w next (trail.snoc edge) kept

theorem cycleMembers_recordable (listed : member ∈ g.cycleMembers root) :
    g.Recordable root member ∧ g.OnCycle root := by
  have trail : g.Trail root ([] ++ [root]) := ⟨List.isChain_singleton _, rfl⟩
  have all := walk_recordable (g.nodeCount + 2) [] {} root trail (by simp)
  unfold cycleMembers at listed
  dsimp only at listed
  split at listed
  · rename_i part
    exact ⟨all member listed, (all root (by simpa using part)).2⟩
  · cases listed

-- The names that a walk may still enter. Each level enters one, so fuel beyond their
-- number is never used up.
def unvisited (g : DependencyGraph) (root : String) (visited : List String) : Nat :=
  (root :: g.names).countP fun name => !visited.contains name

theorem unvisited_mono (kept : ∀ name ∈ visited, name ∈ later) : g.unvisited root later ≤ g.unvisited root visited :=
  countP_unvisited_le kept

theorem unvisited_cons_lt (declared : name ∈ root :: g.names) (fresh : name ∉ visited) :
    g.unvisited root (name :: visited) < g.unvisited root visited :=
  countP_unvisited_lt declared fresh

-- Some way from the root to the name is recorded from end to end.
def WayRecorded (g : DependencyGraph) (root name : String) (found : List String) : Prop :=
  ∃ way, g.Trail root (way ++ [name]) ∧ ∀ member ∈ way ++ [name], member ∈ found

theorem WayRecorded.later (recorded : g.WayRecorded root name found) (kept : ∀ member ∈ found, member ∈ more) :
    g.WayRecorded root name more := by
  obtain ⟨way, trail, all⟩ := recorded
  exact ⟨way, trail, fun member inside => kept member (all member inside)⟩

theorem WayRecorded.root_mem (recorded : g.WayRecorded root name found) : root ∈ found := by
  obtain ⟨way, trail, all⟩ := recorded
  exact all root (List.mem_of_mem_head? trail.head)

theorem WayRecorded.name_mem (recorded : g.WayRecorded root name found) : name ∈ found := by
  obtain ⟨way, _, all⟩ := recorded
  exact all name (List.mem_append_right _ List.mem_cons_self)

-- What a piece of the walk adds. Whatever it enters has all its dependencies entered,
-- and is recorded with the way to it where one of them is the root.
structure Progress (g : DependencyGraph) (root : String) (w after : CycleWalk) : Prop where
  visited : ∀ name ∈ w.visited, name ∈ after.visited
  found : ∀ name ∈ w.found, name ∈ after.found
  followed : ∀ name ∈ after.visited, name ∉ w.visited → ∀ next, g.Edge name next → next ∈ after.visited
  recorded : ∀ name ∈ after.visited, name ∉ w.visited → g.Edge name root → g.WayRecorded root name after.found

theorem Progress.refl (g : DependencyGraph) (root : String) (w : CycleWalk) : g.Progress root w w :=
  ⟨fun _ old => old, fun _ old => old, fun _ old fresh => absurd old fresh, fun _ old fresh => absurd old fresh⟩

theorem Progress.trans (first : g.Progress root w middle) (second : g.Progress root middle after) :
    g.Progress root w after := by
  refine ⟨fun name old => second.visited name (first.visited name old),
    fun name old => second.found name (first.found name old), ?_, ?_⟩
  · intro name listed fresh next edge
    by_cases early : name ∈ middle.visited
    · exact second.visited next (first.followed name early fresh next edge)
    · exact second.followed name listed early next edge
  · intro name listed fresh edge
    by_cases early : name ∈ middle.visited
    · exact (first.recorded name early fresh edge).later second.found
    · exact second.recorded name listed early edge

theorem walk_back (fuel : Nat) (w : CycleWalk) (head : path.head? = some root) (listed : name ∈ path) :
    name ∈ (walk g.dependencies (fuel + 1) path w root).found := by
  cases path with
  | nil => cases listed
  | cons first rest =>
    cases Option.some.inj head
    unfold walk
    rw [if_pos (by simp)]
    exact mem_foldl_appendNew.mpr (.inr (by simpa using listed))

structure Ready (g : DependencyGraph) (root : String) (fuel : Nat) (path : List String) (w : CycleWalk) : Prop where
  enough : g.unvisited root w.visited < fuel
  entered : ∀ name ∈ path, name ∈ w.visited

theorem Ready.later (ready : g.Ready root fuel path w) (progress : g.Progress root w after) :
    g.Ready root fuel path after :=
  ⟨Nat.lt_of_le_of_lt (unvisited_mono progress.visited) ready.enough,
    fun name inside => progress.visited name (ready.entered name inside)⟩

-- The walk through several names one after the other, from what one name does.
theorem walk_all_complete (nexts : List String) (one : ∀ w, ∀ name ∈ nexts, g.Ready root fuel path w →
      g.Progress root w (walk g.dependencies fuel path w name) ∧ name ∈ (walk g.dependencies fuel path w name).visited)
    (head : path.head? = some root) (ready : g.Ready root fuel path w) :
    g.Progress root w (nexts.foldl (walk g.dependencies fuel path) w) ∧
      (∀ next ∈ nexts, next ∈ (nexts.foldl (walk g.dependencies fuel path) w).visited) ∧
      (root ∈ nexts → ∀ name ∈ path, name ∈ (nexts.foldl (walk g.dependencies fuel path) w).found) := by
  induction nexts generalizing w with
  | nil => exact ⟨.refl g root w, by simp, by simp⟩
  | cons next rest ih =>
    obtain ⟨first, entered⟩ := one w next List.mem_cons_self ready
    obtain ⟨later, all, back⟩ := ih (fun w other inside => one w other (List.mem_cons_of_mem _ inside))
      (ready.later first)
    refine ⟨first.trans later, ?_, ?_⟩
    · intro other inside
      rcases List.mem_cons.mp inside with rfl | older
      · exact later.visited _ entered
      · exact all other older
    · intro rooted name inside
      rcases List.mem_cons.mp rooted with rfl | older
      · cases fuel with
        | zero => exact absurd ready.enough (Nat.not_lt_zero _)
        | succ fuel => exact later.found name (walk_back fuel w head inside)
      · exact back older name inside

theorem walk_complete (closed : g.Closed) (fuel : Nat) (path : List String) (w : CycleWalk) (name : String)
    (declared : name ∈ root :: g.names) (trail : g.Trail root (path ++ [name]))
    (ready : g.Ready root fuel path w) :
    g.Progress root w (walk g.dependencies fuel path w name) ∧
      name ∈ (walk g.dependencies fuel path w name).visited := by
  induction fuel generalizing path w name with
  | zero => exact absurd ready.enough (Nat.not_lt_zero _)
  | succ fuel ih =>
    unfold walk
    split
    · rename_i onPath
      have old := ready.entered name (by simpa using onPath)
      exact ⟨⟨fun _ old => old, fun _ old => mem_foldl_appendNew.mpr (.inl old),
        fun _ old fresh => absurd old fresh, fun _ old fresh => absurd old fresh⟩, old⟩
    · split
      · rename_i old
        exact ⟨.refl g root w, by simpa using old⟩
      · rename_i fresh
        have fresh : name ∉ w.visited := by simpa using fresh
        have entered : g.Ready root fuel (path ++ [name]) { w with visited := name :: w.visited } := by
          refine ⟨Nat.lt_of_lt_of_le (unvisited_cons_lt declared fresh) (Nat.le_of_lt_succ ready.enough), ?_⟩
          intro other inside
          rcases List.mem_append.mp inside with before | last
          · exact List.mem_cons_of_mem _ (ready.entered other before)
          · exact List.mem_singleton.mp last ▸ List.mem_cons_self
        obtain ⟨progress, all, back⟩ := walk_all_complete (g.dependencies name)
          (fun w next edge ready => ih _ w next (List.mem_cons_of_mem _ (closed name next edge)) (trail.snoc edge) ready)
          trail.head entered
        have own := progress.visited name List.mem_cons_self
        refine ⟨⟨fun other old => progress.visited other (List.mem_cons_of_mem _ old), progress.found, ?_, ?_⟩, own⟩
        · intro other listed new next edge
          by_cases same : other = name
          · subst same
            exact all next edge
          · exact progress.followed other listed (by simp [same, new]) next edge
        · intro other listed new edge
          by_cases same : other = name
          · subst same
            exact ⟨path, trail, back edge⟩
          · exact progress.recorded other listed (by simp [same, new]) edge

theorem cycleMembers_of_back (closed : g.Closed) (path : name = root ∨ g.Reaches root name) (back : g.Edge name root) :
    g.WayRecorded root name (g.cycleMembers root) := by
  have ready : g.Ready root (g.nodeCount + 2) [] {} := by
    refine ⟨?_, by simp⟩
    have most : g.unvisited root [] ≤ (root :: g.names).length := List.countP_le_length
    simp only [List.length_cons, names, Entries.keys, List.length_map] at most
    exact Nat.lt_succ_of_le most
  obtain ⟨progress, entered⟩ := walk_complete closed (g.nodeCount + 2) [] {} root List.mem_cons_self
    ⟨List.isChain_singleton _, rfl⟩ ready
  have all : name ∈ (walk g.dependencies (g.nodeCount + 2) [] {} root).visited := by
    rcases path with rfl | path
    · exact entered
    · exact path.carries (fun x y inside edge => progress.followed x inside (by simp) y edge) entered
  have recorded := progress.recorded name all (by simp) back
  unfold cycleMembers
  rw [if_pos (by simpa using recorded.root_mem)]
  exact recorded

theorem root_mem_cycleMembers (closed : g.Closed) (cycle : g.OnCycle root) : root ∈ g.cycleMembers root := by
  obtain ⟨before, path, back⟩ := cycle.last
  exact (cycleMembers_of_back closed path back).root_mem

theorem cycleMembers_ne_nil (closed : g.Closed) : g.cycleMembers root ≠ [] ↔ g.OnCycle root := by
  constructor
  · intro some_
    obtain ⟨member, listed⟩ := List.exists_mem_of_ne_nil _ some_
    exact (cycleMembers_recordable listed).2
  · exact fun cycle => List.ne_nil_of_mem (root_mem_cycleMembers closed cycle)

end DependencyGraph
end SchemaAtlas
