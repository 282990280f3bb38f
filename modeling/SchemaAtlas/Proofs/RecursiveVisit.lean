import SchemaAtlas.Proofs.EmissionOrder

namespace SchemaAtlas
namespace DependencyGraph

variable {g : DependencyGraph} {v : Visit}

-- The loop with its own stack and the recursion go the same way: what the loop makes of a
-- name, on whatever stack, is what the recursive visit makes of it.

def Visit.over (v : Visit) (stack : List Frame) : Traversal := ⟨v.entered, stack, v.left⟩

def meet (g : DependencyGraph) (v : Visit) (stack : List Frame) (name : String) : Traversal :=
  if v.entered.contains name then v.over stack else g.enter (v.over stack) name

theorem settle_of_step (checked : g.step t = some after) : g.settle t = g.settle after := by
  rw [settle]
  split
  · rename_i stopped
    cases stopped.symm.trans checked
  · rename_i other same
    rw [Option.some.inj (same.symm.trans checked)]

theorem settle_follow : g.settle (v.over (⟨name, next :: pending⟩ :: below)) =
    g.settle (g.meet v (⟨name, pending⟩ :: below) next) :=
  settle_of_step rfl

theorem settle_leave : g.settle (v.over (⟨name, []⟩ :: below)) =
    g.settle (Visit.over { v with left := v.left ++ [name] } below) :=
  settle_of_step rfl

def unentered (g : DependencyGraph) (v : Visit) : Nat := g.names.countP fun name => !v.entered.contains name

theorem unentered_le (g : DependencyGraph) (v : Visit) : g.unentered v ≤ g.nodeCount := by
  have most : g.unentered v ≤ g.names.length := List.countP_le_length
  simpa [nodeCount, names, Entries.keys] using most

theorem visit_entered (fuel : Nat) (v : Visit) (name : String) :
    ∀ other ∈ v.entered, other ∈ (visit g.dependencies fuel v name).entered := by
  induction fuel generalizing v name with
  | zero => exact fun _ old => old
  | succ fuel ih =>
    unfold visit
    split
    · exact fun _ old => old
    · intro other old
      refine List.foldlRecOn (motive := fun w : Visit => other ∈ w.entered) _ _ (List.mem_cons_of_mem _ old) ?_
      exact fun w kept next _ => ih w next other kept

theorem unentered_visit (fuel : Nat) (v : Visit) (name : String) :
    g.unentered (visit g.dependencies fuel v name) ≤ g.unentered v :=
  countP_unvisited_le (visit_entered fuel v name)

theorem settle_visits {fuel : Nat} {nexts : List String}
    (one : ∀ w stack, ∀ next ∈ nexts, g.unentered w ≤ fuel →
      g.settle (g.meet w stack next) = g.settle ((visit g.dependencies fuel w next).over stack))
    (enough : g.unentered v ≤ fuel) : g.settle (v.over (⟨name, nexts⟩ :: below)) =
      g.settle ((nexts.foldl (visit g.dependencies fuel) v).over (⟨name, []⟩ :: below)) := by
  induction nexts generalizing v with
  | nil => rfl
  | cons next rest ih =>
    rw [settle_follow, one v _ next List.mem_cons_self enough, List.foldl_cons]
    exact ih (fun w stack other inside => one w stack other (List.mem_cons_of_mem _ inside))
      (Nat.le_trans (unentered_visit fuel v next) enough)

theorem settle_visit (closed : g.Closed) (fuel : Nat) (v : Visit) (stack : List Frame) (declared : name ∈ g.names)
    (enough : g.unentered v ≤ fuel) :
    g.settle (g.meet v stack name) = g.settle ((visit g.dependencies fuel v name).over stack) := by
  -- The fuel suffices as long as it counts the names not entered yet, because a level is
  -- only begun by entering one.
  induction fuel generalizing v stack name with
  | zero =>
    have none_ := List.countP_eq_zero.mp (Nat.le_zero.mp enough) name declared
    rw [meet, if_pos (by simpa using none_), visit]
  | succ fuel ih =>
    unfold meet visit
    by_cases old : v.entered.contains name = true
    · rw [if_pos old, if_pos old]
    · rw [if_neg old, if_neg old]
      have fresh : name ∉ v.entered := by simpa using old
      have less : g.unentered { v with entered := name :: v.entered } ≤ fuel :=
        Nat.le_of_lt_succ (Nat.lt_of_lt_of_le (countP_unvisited_lt declared fresh) enough)
      calc g.settle (g.enter (v.over stack) name)
          = g.settle (Visit.over { v with entered := name :: v.entered } (⟨name, g.dependencies name⟩ :: stack)) := rfl
        _ = _ := settle_visits (fun w below next edge => ih w below (closed name next edge)) less
        _ = _ := settle_leave

theorem settle_idle_eq (v : Visit) : g.settle (v.over []) = v.over [] := by
  rw [settle]
  split
  · rfl
  · rename_i same
    cases same

theorem start_eq : g.start (v.over []) name = g.settle (g.meet v [] name) := by
  change (if v.entered.contains name then v.over [] else g.settle (g.enter (v.over []) name)) = _
  unfold meet
  split
  · exact (settle_idle_eq v).symm
  · rfl

theorem start_visit (closed : g.Closed) (declared : name ∈ g.names) :
    g.start (v.over []) name = (visit g.dependencies g.nodeCount v name).over [] := by
  rw [start_eq, settle_visit closed g.nodeCount v [] declared (unentered_le g v), settle_idle_eq]

theorem starts_visit (closed : g.Closed) (starts : List String) (declared : ∀ name ∈ starts, name ∈ g.names) :
    starts.foldl g.start (v.over []) = (starts.foldl (visit g.dependencies g.nodeCount) v).over [] := by
  induction starts generalizing v with
  | nil => rfl
  | cons first rest ih =>
    rw [List.foldl_cons, List.foldl_cons, start_visit closed (declared first List.mem_cons_self)]
    exact ih fun name inside => declared name (List.mem_cons_of_mem _ inside)

theorem visitAll_over (closed : g.Closed) (starts : List String) (declared : ∀ name ∈ starts, name ∈ g.names) :
    starts.foldl g.start {} = (g.visitAll starts).over [] :=
  starts_visit (v := {}) closed starts declared

-- The recursion without fuel. A name that is entered already, whether it is in progress or left,
-- is passed over. Any other is entered, then what it depends on is visited, then it is left.
inductive Visits (known : String → List String) : Visit → List String → Visit → Prop where
  | done : Visits known w [] w
  | skip : name ∈ w.entered → Visits known w rest after → Visits known w (name :: rest) after
  | enter : name ∉ w.entered → Visits known { w with entered := name :: w.entered } (known name) below →
      Visits known { below with left := below.left ++ [name] } rest after → Visits known w (name :: rest) after

theorem Visits.unique (first : Visits known v starts after) (second : Visits known v starts after') :
    after = after' := by
  induction first generalizing after' with
  | done =>
    cases second with
    | done => rfl
  | skip old _ ih =>
    cases second with
    | skip _ later => exact ih later
    | enter fresh _ _ => exact absurd old fresh
  | enter fresh _ _ deeper later =>
    cases second with
    | skip old _ => exact absurd old fresh
    | enter _ inside onward =>
      cases deeper inside
      exact later onward

theorem visits_foldl (closed : g.Closed) (fuel : Nat) (v : Visit) (starts : List String)
    (declared : ∀ name ∈ starts, name ∈ g.names) (enough : g.unentered v ≤ fuel) :
    Visits g.dependencies v starts (starts.foldl (visit g.dependencies fuel) v) := by
  -- On the fuel and, at each level, on the names that are still to be visited there.
  induction fuel generalizing v starts with
  | zero =>
    induction starts with
    | nil => exact .done
    | cons name rest ih =>
      obtain ⟨known, others⟩ := List.forall_mem_cons.mp declared
      have old := List.countP_eq_zero.mp (Nat.le_zero.mp enough) name known
      exact .skip (by simpa using old) (ih others)
  | succ fuel ih =>
    induction starts generalizing v with
    | nil => exact .done
    | cons name rest later =>
      obtain ⟨known, others⟩ := List.forall_mem_cons.mp declared
      have onward := later (visit g.dependencies (fuel + 1) v name) others
        (Nat.le_trans (unentered_visit (fuel + 1) v name) enough)
      rw [List.foldl_cons]
      by_cases old : name ∈ v.entered
      · have passed : visit g.dependencies (fuel + 1) v name = v := by simp [visit, old]
        rw [passed] at onward ⊢
        exact .skip old onward
      · have less : g.unentered { v with entered := name :: v.entered } ≤ fuel :=
          Nat.le_of_lt_succ (Nat.lt_of_lt_of_le (countP_unvisited_lt known old) enough)
        have inside := ih { v with entered := name :: v.entered } (g.dependencies name)
          (fun next edge => closed name next edge) less
        refine .enter old inside ?_
        simpa [visit, old] using onward

theorem visit_within {P : String → Prop} (passes : ∀ x y, P x → g.Edge x y → P y) (fuel : Nat) (v : Visit)
    (name : String) (start : P name) (old : ∀ other ∈ v.left, P other) :
    ∀ other ∈ (visit g.dependencies fuel v name).left, P other := by
  induction fuel generalizing v name with
  | zero => exact old
  | succ fuel ih =>
    unfold visit
    split
    · exact old
    · have inner : ∀ other ∈ ((g.dependencies name).foldl (visit g.dependencies fuel)
          { v with entered := name :: v.entered }).left, P other :=
        List.foldlRecOn (motive := fun w : Visit => ∀ other ∈ w.left, P other) _ _ old
          fun w kept next edge => ih w next (passes name next start edge) kept
      intro other listed
      rcases List.mem_append.mp listed with before | last
      · exact inner other before
      · exact List.mem_singleton.mp last ▸ start

theorem Idle.closed (idle : g.Idle t) (left : source ∈ t.left) (edge : g.Edge source target) : target ∈ t.left := by
  rw [← idle.line] at left ⊢
  rcases idle.followed source target left edge with ⟨f, framed, _⟩ | ⟨inside, _⟩
  · rw [idle.idle] at framed
    cases framed
  · exact inside

theorem mem_reachable (closed : g.Closed) : target ∈ g.reachable name ↔ g.Reaches name target := by
  unfold reachable
  constructor
  · have within : ∀ other ∈ (g.visitAll (g.dependencies name)).left, g.Reaches name other := by
      refine List.foldlRecOn (motive := fun w : Visit => ∀ other ∈ w.left, g.Reaches name other) _ _ (by simp) ?_
      exact fun w old next edge => visit_within (fun _ _ => Reaches.snoc) _ w next (.edge edge) old
    exact within target
  · intro path
    have declared : ∀ next ∈ g.dependencies name, next ∈ g.names := fun next edge => closed name next edge
    obtain ⟨idle, all⟩ := starts_idle closed (g.dependencies name) declared ⟨sound_initial, rfl⟩
    rw [visitAll_over closed (g.dependencies name) declared] at idle all
    have left : ∀ next, g.Edge name next → next ∈ (g.visitAll (g.dependencies name)).left := by
      intro next edge
      have listed := (idle.entered next).mp (all next (.inl edge))
      rwa [idle.line] at listed
    cases path with
    | edge edge => exact left target edge
    | step edge later =>
      exact later.carries (P := (· ∈ (g.visitAll (g.dependencies name)).left)) (fun x y => idle.closed) (left _ edge)

end DependencyGraph

-- The order of a map is what the recursion leaves when it visits the keys in their order, and
-- below each name its dependencies as they are listed, as far as they are keys.
theorem topologicalSort_visits (map : Entries (List String)) (order : List String) :
    topologicalSort map = order ↔ ∃ entered, DependencyGraph.Visits
      (fun name => ((map.get? name).getD []).filter map.contains) {} map.keys ⟨entered, order⟩ := by
  have closed := DependencyGraph.closed_ofMap map
  have names := DependencyGraph.names_ofMap map
  have known : (fun name => ((map.get? name).getD []).filter map.contains) = (DependencyGraph.ofMap map).dependencies :=
    funext fun name => (DependencyGraph.dependencies_ofMap map name).symm
  have declared : ∀ name ∈ map.keys, name ∈ (DependencyGraph.ofMap map).names := fun _ listed => names ▸ listed
  have visited := DependencyGraph.visits_foldl closed _ {} map.keys declared (DependencyGraph.unentered_le _ _)
  have left : topologicalSort map = ((DependencyGraph.ofMap map).visitAll map.keys).left := by
    have same := DependencyGraph.visitAll_over closed map.keys declared
    rw [topologicalSort, DependencyGraph.topologicalOrder, DependencyGraph.traverse, names, same]
    rfl
  rw [known, left]
  constructor
  · intro same
    subst same
    exact ⟨_, visited⟩
  · intro ⟨entered, other⟩
    exact congrArg DependencyGraph.Visit.left (visited.unique other)

end SchemaAtlas
