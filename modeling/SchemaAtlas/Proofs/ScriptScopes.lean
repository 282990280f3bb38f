import SchemaAtlas.Proofs.ScriptSites
import SchemaAtlas.Script.Scope

namespace SchemaAtlas
namespace Script

-- The scopes that stand between a site and one inside it.

def Kind.isScope : Kind → Bool
  | .arrowFunction | .functionDeclaration | .functionExpression | .generatorFunction | .generatorDeclaration | .method
  | .catchClause | .forStatement | .forInStatement | .statementBlock | .program | .classBody | .switchBody => Bool.true
  | _ => Bool.false

theorem Tree.isScope_of_rebinds {t : Tree} (rebinds : t.rebinds name = true) : t.kind.isScope = true := by
  unfold Tree.rebinds at rebinds
  split at rebinds
  case h_14 => cases rebinds
  all_goals
    rename_i kind
    rw [kind]
    rfl

namespace Site

-- A site inside another one, with no scope between them but those that `P` allows.
structure Reaches (P : Tree → Prop) (outer inner : Site) : Prop where
  inside : inner ∈ outer.preorder
  passed : ∃ between, inner.above = between ++ outer.above ∧ ∀ t ∈ between, t.kind.isScope = true → P t

def Exposes (outer inner : Site) : Prop := Reaches (fun _ => False) outer inner

variable {P Q : Tree → Prop} {s inner middle outer : Site}

namespace Reaches

theorem refl (s : Site) : Reaches P s s := ⟨mem_preorder_self s, [], rfl, nofun⟩

theorem trans (upper : Reaches P outer middle) (lower : Reaches P middle inner) : Reaches P outer inner := by
  obtain ⟨inside, between, above, allowed⟩ := upper
  obtain ⟨deeper, further, beneath, below⟩ := lower
  refine ⟨mem_preorder_trans deeper inside, further ++ between, by rw [beneath, above, List.append_assoc], ?_⟩
  intro t listed
  rcases List.mem_append.mp listed with low | high
  · exact below t low
  · exact allowed t high

theorem mono (reaches : Reaches P outer inner) (wider : ∀ t, P t → Q t) : Reaches Q outer inner := by
  obtain ⟨inside, between, above, allowed⟩ := reaches
  exact ⟨inside, between, above, fun t listed scope => wider t (allowed t listed scope)⟩

theorem down (allowed : s.kind.isScope = true → P s.tree) (listed : child ∈ s.tree.children) :
    Reaches P s (s.down child) :=
  ⟨down_mem_preorder listed, [s.tree], rfl, List.forall_mem_singleton.mpr allowed⟩

theorem child? (allowed : s.kind.isScope = true → P s.tree) (found : s.child? role = some inner) : Reaches P s inner := by
  obtain ⟨child, named, rfl⟩ := Option.map_eq_some_iff.mp found
  exact down allowed (mem_children_of_child? named).1

theorem part (allowed : s.kind.isScope = true → P s.tree) (listed : inner ∈ s.parts) : Reaches P s inner := by
  obtain ⟨child, part, rfl⟩ := List.mem_map.mp listed
  exact down allowed (List.mem_of_mem_filter part)

end Reaches

theorem Exposes.reaches (exposes : outer.Exposes inner) : Reaches P outer inner := exposes.mono nofun

theorem exposes_child? (open_ : s.kind.isScope = false) (found : s.child? role = some inner) : s.Exposes inner :=
  .child? (fun scope => Bool.false_ne_true (open_.symm.trans scope)) found

theorem exposes_part (open_ : s.kind.isScope = false) (listed : inner ∈ s.parts) : s.Exposes inner :=
  .part (fun scope => Bool.false_ne_true (open_.symm.trans scope)) listed

theorem isScope_of_isWrapper {kind : Kind} (wrapper : kind.isWrapper = true) : kind.isScope = false := by
  cases kind <;> first | rfl | cases wrapper

theorem exposes_unwrapTree (above : List Tree) (t : Tree) :
    ({ tree := t, above := above } : Site).Exposes (unwrapTree above t) := by
  fun_induction unwrapTree above t with
  | case1 above t wrapper child found ih =>
    refine Reaches.trans ?_ ih
    refine Reaches.down (s := { tree := t, above := above }) ?_ (List.mem_of_find?_eq_some found)
    exact fun scope => Bool.false_ne_true ((isScope_of_isWrapper wrapper).symm.trans scope)
  | case2 => exact .refl _
  | case3 => exact .refl _

theorem exposes_unwrap (s : Site) : s.Exposes s.unwrap := exposes_unwrapTree s.above s.tree

theorem Reaches.isShadowed (reaches : Reaches (fun t => t.rebinds name = false) outer inner) :
    inner.isShadowed name = outer.isShadowed name := by
  obtain ⟨_, between, above, plain⟩ := reaches
  have none : between.any (·.rebinds name) = false := by
    refine List.any_eq_false.mpr fun t listed rebinds => ?_
    exact Bool.false_ne_true ((plain t listed (Tree.isScope_of_rebinds rebinds)).symm.trans rebinds)
  rw [Site.isShadowed, above, List.any_append, none, Bool.false_or, Site.isShadowed]

end Site
end Script
end SchemaAtlas
