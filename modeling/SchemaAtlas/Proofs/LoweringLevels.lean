import SchemaAtlas.Proofs.AlikeLowering

namespace SchemaAtlas

def Script.Likeness.knowing (l : Script.Likeness) (P : Script.Site → Prop) : Script.Likeness := { l with inside := P }

namespace Builder

open Script

-- The levels that an expression is lowered within. The arguments of a chain have fewer trees
-- in them than the expression that it is read from, so no more levels are reached than there
-- are trees.

variable {l : Likeness} {P : Site → Prop} {b : Bindings} {cx : Context} {s t : Site} {a : Argument} {node : SchemaNode}

theorem Call.Alike.knowing {c d : Call} (alike : c.Alike l d) (inside : ∀ a ∈ c.arguments, ∀ inner ∈ a.site.preorder, P inner) :
    c.Alike (l.knowing P) d := by
  refine ⟨alike.name, ?_, alike.location⟩
  have each := (List.forall₂_and_left _ _).mpr ⟨inside, alike.arguments⟩
  exact each.imp fun a b here => ⟨⟨here.2.site.tree, here.2.site.shadowed, here.1⟩, here.2.value⟩

theorem Chain.Alike.knowing {c d : Chain} (alike : c.Alike l d)
    (inside : ∀ a ∈ c.root.arguments ++ c.calls.flatMap Call.arguments, ∀ inner ∈ a.site.preorder, P inner) :
    c.Alike (l.knowing P) d := by
  obtain ⟨root, calls⟩ := c
  obtain ⟨other, methods⟩ := d
  refine ⟨?_, ?_⟩
  · cases alike.root with
    | builder base => exact .builder (base.knowing fun a given => inside a (List.mem_append_left _ given))
    | identifier text => exact .identifier text
  · have each := (List.forall₂_and_left _ _).mpr ⟨fun call (listed : call ∈ calls) => listed, alike.calls⟩
    refine each.imp fun call twin here => ⟨here.2.toAlike.knowing fun a given => ?_, here.2.shown⟩
    exact inside a (List.mem_append_right _ (List.mem_flatMap.mpr ⟨call, here.1, given⟩))

theorem passes_smaller {argument : Site} (passes : Bindings.Passes s argument) :
    argument.tree.preorder.length < s.tree.preorder.length := by
  obtain ⟨call, list, exposes, _, found, part⟩ := passes
  calc argument.tree.preorder.length
      ≤ list.tree.preorder.length := Site.length_preorder_le (Site.parts_mem_preorder part)
    _ < call.tree.preorder.length := Site.length_preorder_lt found
    _ ≤ s.tree.preorder.length := Site.length_preorder_le exposes.inside

theorem chain_smaller (found : b.chain? s = some chain)
    (given : a ∈ chain.root.arguments ++ chain.calls.flatMap Call.arguments) :
    a.site.tree.preorder.length < s.tree.preorder.length := by
  obtain ⟨new, same, passed⟩ := (Bindings.chain?_reads found).passes
  rw [List.append_nil] at same
  subst same
  exact Nat.lt_of_lt_of_le (passes_smaller (passed a given)) (Site.length_preorder_le (Site.exposes_unwrap s).inside)

def bounding (b : Bindings) (levels : Nat) : Comparison :=
  { places := Eq, bindings := b, known := fun _ => True, stops := fun _ => True
    inside := fun s => s.tree.preorder.length ≤ levels }

theorem bounding_sound (b : Bindings) (levels : Nat) : (bounding b levels).Sound :=
  ⟨.inr fun _ => trivial, fun _ _ => trivial⟩

theorem lowerWithin_bounded_alike (more : levels ≤ higher) (alike : s.Alike (bounding b levels).likeness t) :
    (bounding b levels).Matches (lowerWithin higher · s) (lowerWithin levels · t) := by
  induction levels generalizing higher s t with
  | zero =>
    have none := (alike.inside s (Site.mem_preorder_self s)).1
    have some : 0 < s.tree.preorder.length := by
      rw [Tree.preorder]
      exact Nat.succ_pos _
    exact absurd some (Nat.not_lt.mpr none)
  | succ levels ih =>
    obtain ⟨higher, rfl⟩ := Nat.exists_eq_add_one.mpr (Nat.lt_of_lt_of_le (Nat.succ_pos _) more)
    refine lowerOver_chain (bounding_sound b _) alike fun chain other found same one two beside => ?_
    have size := (alike.inside s (Site.mem_preorder_self s)).1
    have confined := same.knowing (P := (bounding b levels).likeness.inside) fun a given inner within =>
      ⟨Nat.le_of_lt_succ (Nat.lt_of_le_of_lt (Site.length_preorder_le within)
        (Nat.lt_of_lt_of_le (chain_smaller found given) size)), fun _ _ => trivial⟩
    refine lowerCalls_alike (bounding_sound b levels) (fun _ _ => ih (Nat.le_of_succ_le_succ more)) confined
      (fun _ _ _ _ => trivial) one two ⟨beside.first, beside.second, beside.depth, beside.raised, beside.values⟩

theorem lowerWithin_enough (enough : s.tree.preorder.length ≤ levels) :
    lowerWithin levels cx s = .ok node ↔ lowerExpression cx s = .ok node := by
  constructor
  · intro lowered
    have alike : s.Alike (bounding cx.bindings s.tree.preorder.length).likeness s :=
      .refl (fun _ => rfl) s fun inner within => ⟨Site.length_preorder_le within, fun _ _ => trivial⟩
    exact (lowerWithin_bounded_alike enough alike cx cx ⟨rfl, rfl, rfl, Nat.le_refl _, fun _ _ => rfl⟩).ok lowered
  · intro lowered
    have alike : s.Alike (raising cx.bindings).likeness s :=
      .refl (fun _ => rfl) s fun _ _ => ⟨trivial, fun _ _ => trivial⟩
    exact (lowerWithin_raised (Nat.le_refl cx.maxDepth) enough cx alike).ok lowered

end Builder
end SchemaAtlas
