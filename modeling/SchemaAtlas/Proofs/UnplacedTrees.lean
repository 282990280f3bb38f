import SchemaAtlas.Proofs.LikeTrees

namespace SchemaAtlas
namespace Script

-- Trees that differ in nothing but where they stand in the text.

namespace Tree

mutual

def equals : Tree → Tree → Bool
  | ⟨kind, role, location, offset, text, children, _⟩, ⟨kind', role', location', offset', text', children', _⟩ =>
    kind = kind' && role = role' && location = location' && offset = offset' && text = text' &&
      equalsAll children children'

def equalsAll : List Tree → List Tree → Bool
  | [], [] => true
  | first :: rest, other :: others => first.equals other && equalsAll rest others
  | _, _ => false

end

mutual

theorem equals_iff : (t u : Tree) → (t.equals u = true ↔ t = u)
  | ⟨kind, role, location, offset, text, children, named⟩, ⟨kind', role', location', offset', text', children', named'⟩ => by
    simp only [equals, Bool.and_eq_true, decide_eq_true_eq, Tree.mk.injEq, equalsAll_iff children children', and_assoc]

theorem equalsAll_iff : (ts us : List Tree) → (equalsAll ts us = true ↔ ts = us)
  | [], [] => by simp [equalsAll]
  | [], _ :: _ => by simp [equalsAll]
  | _ :: _, [] => by simp [equalsAll]
  | first :: rest, other :: others => by
    simp only [equalsAll, Bool.and_eq_true, equals_iff first other, equalsAll_iff rest others, List.cons.injEq]

end

instance : DecidableEq Tree := fun t u => decidable_of_iff _ (equals_iff t u)

def unplaced (t : Tree) : Tree :=
  { t with location := .start, offset := 0, children := t.children.attach.map fun ⟨child, _⟩ => child.unplaced }
termination_by sizeOf t
decreasing_by exact sizeOf_child_lt ‹_›

variable {t u child : Tree} {name : String}

theorem unplaced_eq (t : Tree) :
    t.unplaced = { t with location := .start, offset := 0, children := t.children.map unplaced } := by
  rw [unplaced]
  congr 1
  exact List.attach_map_val.symm ▸ List.map_congr_left fun _ _ => rfl

@[simp] theorem unplaced_kind (t : Tree) : t.unplaced.kind = t.kind := by rw [unplaced]
@[simp] theorem unplaced_role (t : Tree) : t.unplaced.role = t.role := by rw [unplaced]
@[simp] theorem unplaced_text (t : Tree) : t.unplaced.text = t.text := by rw [unplaced]

@[simp] theorem unplaced_children (t : Tree) : t.unplaced.children = t.children.map unplaced := by rw [unplaced_eq]

@[simp] theorem unplaced_parts (t : Tree) : t.unplaced.parts = t.parts.map unplaced := by
  simp [parts, List.filter_map, Function.comp_def]

@[simp] theorem unplaced_child? (t : Tree) (role : Role) : t.unplaced.child? role = (t.child? role).map unplaced := by
  rw [child?, child?, unplaced_children, List.find?_map]
  simp only [Function.comp_def, unplaced_role]

@[simp] theorem unplaced_unplaced (t : Tree) : t.unplaced.unplaced = t.unplaced := by
  induction size : sizeOf t using Nat.strongRecOn generalizing t with
  | ind _ ih =>
    have children : t.unplaced.children.map unplaced = t.children.map unplaced := by
      rw [unplaced_children, List.map_map]
      exact List.map_congr_left fun child listed => ih _ (size ▸ sizeOf_child_lt listed) child rfl
    rw [unplaced_eq t.unplaced, unplaced_eq t]
    rw [unplaced_eq t] at children
    congr 1

theorem length_preorder_unplaced (t : Tree) : t.unplaced.preorder.length = t.preorder.length := by
  induction size : sizeOf t using Nat.strongRecOn generalizing t with
  | ind _ ih =>
    have pieces : t.unplaced.children.map (·.preorder.length) = t.children.map (·.preorder.length) := by
      rw [unplaced_children, List.map_map]
      exact List.map_congr_left fun child listed => ih _ (size ▸ sizeOf_child_lt listed) child rfl
    rw [preorder, preorder]
    simpa [List.length_flatten, List.map_attach_eq_pmap, Function.comp_def] using congrArg List.sum pieces

theorem unplaced_unwrap (t : Tree) : t.unplaced.unwrap = t.unwrap.unplaced := by
  fun_induction unwrap t with
  | case1 t wrapper inner found ih =>
    rw [unwrap_step t.unplaced, unplaced_kind, if_pos wrapper, unplaced_children, List.find?_map]
    simp only [Function.comp_def, unplaced_kind, found, Option.map_some, Option.getD_some, ih]
  | case2 t wrapper none =>
    rw [unwrap_step t.unplaced, unplaced_kind, if_pos wrapper, unplaced_children, List.find?_map]
    simp only [Function.comp_def, unplaced_kind, none, Option.map_none, Option.getD_none]
  | case3 t plain => simp [unwrap_step t.unplaced, plain]

theorem unplaced_isSpare (t : Tree) : t.unplaced.isSpare = t.isSpare := by
  simp [isSpare]

theorem unplaced_kept (t : Tree) : t.unplaced.kept = t.kept.map unplaced := by
  have wrapped : t.unplaced.wrapped? = t.wrapped?.map unplaced := by
    unfold wrapped?
    rw [unplaced_kind]
    split
    · rw [unplaced_children, List.find?_map]
      simp only [Function.comp_def, unplaced_kind]
    · rfl
  rw [kept, kept, wrapped, List.map_append, unplaced_children, List.filter_map, Option.filter_map]
  simp [Function.comp_def, unplaced_isSpare, Option.toList_map]

theorem unplaced_behind? (t : Tree) : t.unplaced.behind? = t.behind?.map unplaced := by
  unfold behind?
  rw [unplaced_kind, unplaced_child?]
  split <;> rfl

theorem unplaced_heads (t : Tree) : t.unplaced.heads = t.heads := by
  simp [heads, Function.comp_def]

theorem unplaced_spelling (t : Tree) : t.unplaced.spelling = t.spelling := by
  have called : t.unplaced.called? = t.called?.map unplaced := by
    unfold called?
    rw [unplaced_child?]
    cases t.child? .function <;> simp [unplaced_unwrap]
  have argument : t.unplaced.argument? = t.argument?.map unplaced := by
    unfold argument?
    rw [unplaced_child?]
    cases t.child? .arguments <;> simp
  simp only [spelling, unplaced_kind, unplaced_text, unplaced_parts, unplaced_child?, called, argument, List.any_map,
    Option.any_map, Option.map_map, List.map_map, Function.comp_def, unplaced_behind?, unplaced_heads]

theorem Like.of_unplaced (same : t.unplaced = u.unplaced) : t.Like (fun _ _ => True) u := by
  induction t using children_induction generalizing u with
  | step t ih =>
    have kept : List.Forall₂ (fun c d => c ∈ t.kept ∧ c.unplaced = d.unplaced) t.kept u.kept := by
      have equal := congrArg Tree.kept same
      rw [unplaced_kept, unplaced_kept, ← List.forall₂_eq_eq_eq, List.forall₂_map_left_iff,
        List.forall₂_map_right_iff] at equal
      exact (List.forall₂_and_left _ _).mpr ⟨fun _ listed => listed, equal⟩
    refine .node ?_ ?_ ?_ trivial (kept.imp fun c d here => ih c (mem_children_of_kept here.1) here.2)
    · rw [← unplaced_kind u, ← same, unplaced_kind]
    · rw [← unplaced_role u, ← same, unplaced_role]
    · rw [← unplaced_spelling u, ← same, unplaced_spelling]

theorem like_unplaced (t : Tree) : t.Like (fun _ _ => True) t.unplaced := .of_unplaced (unplaced_unplaced t).symm

theorem unplaced_binds (name : String) (t : Tree) : t.unplaced.binds name = t.binds name := t.like_unplaced.binds name

theorem unplaced_declares (name : String) (t : Tree) : t.unplaced.declares name = t.declares name :=
  t.like_unplaced.declares name

theorem unplaced_literal? (t : Tree) : t.unplaced.literal? = t.literal? := t.like_unplaced.literal?

end Tree
end Script

namespace Builder

open Script

theorem enumValues?_unplaced (body : Tree) : enumValues? body.unplaced = enumValues? body :=
  enumValues?_like body.like_unplaced

end Builder
end SchemaAtlas
