import Mathlib.Data.List.Flatten
import Mathlib.Data.List.Perm.Subperm
import SchemaAtlas.Script.Tree

namespace SchemaAtlas
namespace Script
namespace Site

variable {s inner middle outer : Site}

theorem down_induction {P : Site → Prop} (step : ∀ s, (∀ child ∈ s.tree.children, P (s.down child)) → P s)
    (s : Site) : P s :=
  step s fun child _ => down_induction step (s.down child)
termination_by sizeOf s.tree
decreasing_by exact Tree.sizeOf_child_lt ‹_›

theorem preorder_eq (s : Site) : s.preorder = s :: s.tree.children.flatMap fun child => (s.down child).preorder := by
  rw [preorder, preorderTree]
  simp [preorder, down, List.flatMap]

theorem map_preorder (s : Site) : s.preorder.map Site.tree = s.tree.preorder := by
  induction s using down_induction with
  | step s ih =>
    have below : (s.tree.children.map fun child => (s.down child).preorder.map Site.tree) =
        s.tree.children.map Tree.preorder := List.map_congr_left ih
    rw [preorder_eq, Tree.preorder, List.map_cons, List.flatMap, List.map_flatten, List.map_map, Function.comp_def,
      below]
    simp

theorem mem_preorder_self (s : Site) : s ∈ s.preorder := by
  rw [preorder_eq]
  exact List.mem_cons_self

theorem preorder_down_sublist (listed : child ∈ s.tree.children) : (s.down child).preorder.Sublist s.preorder := by
  rw [preorder_eq s]
  exact (List.sublist_flatten_of_mem (List.mem_map_of_mem listed)).cons s

theorem preorder_sublist (inside : inner ∈ outer.preorder) : inner.preorder.Sublist outer.preorder := by
  induction outer using down_induction with
  | step outer ih =>
    rw [preorder_eq] at inside
    rcases List.mem_cons.mp inside with rfl | deeper
    · exact List.Sublist.refl _
    · obtain ⟨child, listed, inside⟩ := List.mem_flatMap.mp deeper
      exact (ih child listed inside).trans (preorder_down_sublist listed)

theorem mem_preorder_trans (lower : inner ∈ middle.preorder) (upper : middle ∈ outer.preorder) :
    inner ∈ outer.preorder :=
  (preorder_sublist upper).subset lower

theorem unwrap_step (s : Site) :
    s.unwrap = if s.kind.isWrapper then (((s.tree.children.find? (·.kind.isPart)).map s.down).map unwrap).getD s else s := by
  obtain ⟨tree, above⟩ := s
  rw [unwrap, unwrapTree]
  simp only [kind]
  split
  · split <;> simp [*, down, unwrap]
  · simp [*]

theorem unwrap_of_not_wrapper (plain : s.kind.isWrapper = false) : s.unwrap = s := by
  rw [unwrap_step, plain]
  rfl

theorem unwrap_wrapper {inner : Tree} (wrapper : s.kind.isWrapper = true)
    (first : s.tree.children.find? (·.kind.isPart) = some inner) :
    s.unwrap = (s.down inner).unwrap := by
  rw [unwrap_step, if_pos wrapper, first]
  rfl

theorem mem_children_of_child? (found : s.tree.child? role = some child) :
    child ∈ s.tree.children ∧ child.role = role :=
  ⟨List.mem_of_find?_eq_some found, by simpa using List.find?_some found⟩

theorem down_mem_preorder (listed : child ∈ s.tree.children) : s.down child ∈ s.preorder :=
  (preorder_down_sublist listed).subset (mem_preorder_self _)

theorem child?_mem_preorder (found : s.child? role = some inner) : inner ∈ s.preorder := by
  obtain ⟨child, named, rfl⟩ := Option.map_eq_some_iff.mp found
  exact down_mem_preorder (mem_children_of_child? named).1

theorem parts_mem_preorder (listed : inner ∈ s.parts) : inner ∈ s.preorder := by
  obtain ⟨child, part, rfl⟩ := List.mem_map.mp listed
  exact down_mem_preorder (List.mem_of_mem_filter part)

theorem length_preorder_le (inside : inner ∈ outer.preorder) : inner.tree.preorder.length ≤ outer.tree.preorder.length := by
  rw [← map_preorder, ← map_preorder, List.length_map, List.length_map]
  exact (preorder_sublist inside).length_le

theorem length_preorder_lt (found : s.child? role = some inner) : inner.tree.preorder.length < s.tree.preorder.length := by
  obtain ⟨child, named, rfl⟩ := Option.map_eq_some_iff.mp found
  have below := (List.sublist_flatten_of_mem (List.mem_map_of_mem (f := fun child => (s.down child).preorder)
    (mem_children_of_child? named).1)).length_le
  rw [← map_preorder, ← map_preorder, List.length_map, List.length_map, preorder_eq s, List.length_cons]
  exact Nat.lt_succ_of_le below

def count (p : Site → Bool) (s : Site) : Nat := s.preorder.countP p

theorem count_le (p : Site → Bool) (inside : inner ∈ outer.preorder) : inner.count p ≤ outer.count p :=
  (preorder_sublist inside).countP_le

theorem count_below_le (p : Site → Bool) (distinct : List.Subperm below s.tree.children) :
    (if p s then 1 else 0) + (below.flatMap fun child => (s.down child).preorder).countP p ≤ s.count p := by
  obtain ⟨ordered, perm, inside⟩ := distinct
  have same := (perm.flatMap_right fun child => (s.down child).preorder).countP_eq p
  have bound := (inside.flatMap fun child => (s.down child).preorder).countP_le (p := p)
  rw [count, preorder_eq, List.countP_cons]
  omega

theorem count_child_le (p : Site → Bool) (found : s.child? role = some inner) :
    (if p s then 1 else 0) + inner.count p ≤ s.count p := by
  obtain ⟨child, named, rfl⟩ := Option.map_eq_some_iff.mp found
  have below := count_below_le p (List.singleton_subperm_iff.mpr (mem_children_of_child? named).1)
  rwa [List.flatMap_singleton] at below

theorem count_children_le (p : Site → Bool) (found : s.child? role = some inner) (beside : s.child? other = some middle)
    (apart : role ≠ other) : (if p s then 1 else 0) + (inner.count p + middle.count p) ≤ s.count p := by
  obtain ⟨first, named, rfl⟩ := Option.map_eq_some_iff.mp found
  obtain ⟨second, stands, rfl⟩ := Option.map_eq_some_iff.mp beside
  obtain ⟨inFirst, firstRole⟩ := mem_children_of_child? named
  obtain ⟨inSecond, secondRole⟩ := mem_children_of_child? stands
  have differ : first ≠ second := by
    rintro rfl
    exact apart (firstRole.symm.trans secondRole)
  have both : [first, second] ⊆ s.tree.children :=
    List.cons_subset.mpr ⟨inFirst, List.cons_subset.mpr ⟨inSecond, List.nil_subset _⟩⟩
  have below := count_below_le p (List.subperm_of_subset (by simpa using differ) both)
  rwa [List.flatMap_cons, List.flatMap_singleton, List.countP_append] at below

end Site
end Script
end SchemaAtlas
