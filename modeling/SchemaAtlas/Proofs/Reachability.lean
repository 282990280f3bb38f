import Mathlib.Data.List.Chain
import Mathlib.Data.List.Nodup
import Mathlib.Data.List.Sort
import SchemaAtlas.Proofs.Entries
import SchemaAtlas.Graph.Dependency

namespace SchemaAtlas

def Before (order : List String) (a b : String) : Prop := b ∈ order ∧ order.idxOf a < order.idxOf b

instance : Decidable (Before order a b) := inferInstanceAs (Decidable (_ ∧ _))

instance : Std.Irrefl (Before order) := ⟨fun _ before => Nat.lt_irrefl _ before.2⟩

instance : Std.Antisymm (Before order) := ⟨fun _ _ there back => absurd there.2 (Nat.lt_asymm back.2)⟩

section
variable {order front back : List String} {item new : String}

theorem pairwise_before (distinct : order.Nodup) : order.Pairwise (Before order) := by
  rw [List.pairwise_iff_getElem]
  intro i j first second less
  refine ⟨List.getElem_mem second, ?_⟩
  rwa [distinct.idxOf_getElem, distinct.idxOf_getElem]

theorem eq_of_mem_iff (distinct : order.Nodup) (first : front.Sublist order) (second : back.Sublist order)
    (same : ∀ item, item ∈ front ↔ item ∈ back) : front = back :=
  ((pairwise_before distinct).sublist first).eq_of_mem_iff ((pairwise_before distinct).sublist second) same

theorem idxOf_mem_front (inside : item ∈ front) : (front ++ back).idxOf item < front.length := by
  rw [List.idxOf_append_of_mem inside]
  exact List.idxOf_lt_length_of_mem inside

theorem idxOf_not_mem_front (outside : item ∉ front) : front.length ≤ (front ++ back).idxOf item := by
  rw [List.idxOf_append_of_notMem outside]
  exact Nat.le_add_right _ _

theorem idxOf_insert (other : item ≠ new) : (front ++ new :: back).idxOf item =
    if item ∈ front then (front ++ back).idxOf item else (front ++ back).idxOf item + 1 := by
  simp only [List.idxOf_append, List.idxOf_cons_ne _ (Ne.symm other)]
  split <;> omega

theorem idxOf_insert_new (fresh : new ∉ front) : (front ++ new :: back).idxOf new = front.length := by
  simp [List.idxOf_append, fresh]

end

theorem countP_unvisited_le {listed visited later : List String} (kept : ∀ name ∈ visited, name ∈ later) :
    (listed.countP fun name => !later.contains name) ≤ listed.countP fun name => !visited.contains name := by
  refine List.countP_mono_left fun name _ fresh => ?_
  simp only [List.contains_eq_mem, Bool.not_eq_true', decide_eq_false_iff_not] at fresh ⊢
  exact fun old => fresh (kept name old)

theorem countP_unvisited_lt {listed visited : List String} (declared : name ∈ listed) (fresh : name ∉ visited) :
    (listed.countP fun other => !(name :: visited).contains other) < listed.countP fun other => !visited.contains other := by
  induction listed with
  | nil => cases declared
  | cons other rest ih =>
    have less : (rest.countP fun other => !(name :: visited).contains other) ≤
        rest.countP fun other => !visited.contains other := countP_unvisited_le fun _ old => List.mem_cons_of_mem _ old
    by_cases same : other = name
    · subst same
      rw [List.countP_cons_of_neg (by simp), List.countP_cons_of_pos (by simpa using fresh)]
      exact Nat.lt_succ_of_le less
    · have inner := ih ((List.mem_cons.mp declared).resolve_left (Ne.symm same))
      have keeps : (name :: visited).contains other = visited.contains other := by simp [same]
      simp only [List.countP_cons, keeps]
      exact Nat.add_lt_add_right inner _

namespace DependencyGraph

theorem Reaches.trans {g : DependencyGraph} (first : g.Reaches a b) (second : g.Reaches b c) : g.Reaches a c := by
  induction first with
  | edge edge => exact .step edge second
  | step edge _ ih => exact .step edge (ih second)

theorem Reaches.snoc {g : DependencyGraph} (first : g.Reaches a b) (edge : g.Edge b c) : g.Reaches a c :=
  first.trans (.edge edge)

instance (g : DependencyGraph) : Trans g.Reaches g.Reaches g.Reaches := ⟨Reaches.trans⟩

theorem chain_pairwise {g : DependencyGraph} {way : List String} (chain : way.IsChain g.Edge) :
    way.Pairwise g.Reaches :=
  (chain.imp fun _ _ edge => .edge edge).pairwise

theorem Reaches.last {g : DependencyGraph} (path : g.Reaches a b) :
    ∃ before, (before = a ∨ g.Reaches a before) ∧ g.Edge before b := by
  induction path with
  | edge edge => exact ⟨_, .inl rfl, edge⟩
  | step edge _ ih =>
    obtain ⟨before, from_, last⟩ := ih
    refine ⟨before, .inr ?_, last⟩
    rcases from_ with rfl | path
    · exact .edge edge
    · exact .step edge path

theorem Reaches.carries {g : DependencyGraph} {P : String → Prop} (path : g.Reaches a b)
    (passes : ∀ x y, P x → g.Edge x y → P y) (start : P a) : P b := by
  induction path with
  | edge edge => exact passes _ _ start edge
  | step edge _ ih => exact ih (passes _ _ start edge)

-- Both lie on a cycle through the other; a single name on its own self-reference.
def CommonCycle (g : DependencyGraph) (a b : String) : Prop := g.Reaches a b ∧ g.Reaches b a

theorem CommonCycle.symm {g : DependencyGraph} (common : g.CommonCycle a b) : g.CommonCycle b a :=
  ⟨common.2, common.1⟩

theorem CommonCycle.trans {g : DependencyGraph} (first : g.CommonCycle a b) (second : g.CommonCycle b c) :
    g.CommonCycle a c :=
  ⟨first.1.trans second.1, second.2.trans first.2⟩

theorem CommonCycle.onCycle {g : DependencyGraph} (common : g.CommonCycle a b) : g.OnCycle a :=
  common.1.trans common.2

def Closed (g : DependencyGraph) : Prop := ∀ source target, g.Edge source target → target ∈ g.names

theorem Closed.reaches {g : DependencyGraph} (closed : g.Closed) (path : g.Reaches a b) : b ∈ g.names := by
  obtain ⟨_, _, edge⟩ := path.last
  exact closed _ _ edge

theorem Reaches.stays {g : DependencyGraph} (path : g.Reaches a b) (inside : List String) (start : a ∈ inside)
    (kept : ∀ entry ∈ g.entries, entry.1 ∈ inside → ∀ target ∈ entry.2, target ∈ inside) : b ∈ inside := by
  refine path.carries (P := (· ∈ inside)) ?_ start
  intro source target listed edge
  unfold Edge dependencies at edge
  cases found : g.entries.get? source with
  | none => rw [found] at edge; cases edge
  | some targets =>
    rw [found] at edge
    exact kept _ (Entries.mem_of_get? found) listed target edge

def Together (g : DependencyGraph) (a b : String) : Prop := a = b ∨ g.CommonCycle a b

theorem Together.symm {g : DependencyGraph} (together : g.Together a b) : g.Together b a := by
  rcases together with rfl | ⟨there, back⟩
  · exact .inl rfl
  · exact .inr ⟨back, there⟩

theorem Reaches.from_together {g : DependencyGraph} (together : g.Together a b) (path : g.Reaches a c) :
    g.Reaches b c := by
  rcases together with rfl | ⟨_, back⟩
  · exact path
  · exact back.trans path

theorem Reaches.to_together {g : DependencyGraph} (path : g.Reaches a b) (together : g.Together b c) :
    g.Reaches a c := by
  rcases together with rfl | ⟨there, _⟩
  · exact path
  · exact path.trans there

@[simp] theorem names_ofMap (map : Entries (List String)) : (ofMap map).names = map.keys :=
  Entries.keys_mapValues _

theorem dependencies_ofMap (map : Entries (List String)) (name : String) :
    (ofMap map).dependencies name = ((map.get? name).getD []).filter map.contains := by
  unfold dependencies ofMap
  rw [Entries.get?_mapValues]
  cases map.get? name <;> rfl

theorem edge_ofMap {map : Entries (List String)} :
    (ofMap map).Edge source target ↔ target ∈ (map.get? source).getD [] ∧ target ∈ map.keys := by
  rw [Edge, dependencies_ofMap, List.mem_filter, Entries.contains_iff]

theorem closed_ofMap (map : Entries (List String)) : (ofMap map).Closed := by
  intro source target edge
  rw [names_ofMap]
  exact (edge_ofMap.mp edge).2

end DependencyGraph
end SchemaAtlas
