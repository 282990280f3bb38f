import SchemaAtlas.Proofs.ChainReading
import SchemaAtlas.Proofs.LikeTrees

namespace SchemaAtlas

namespace Script

-- How alike two sites are: how the places of two pieces of them go together, and what is
-- known of everything inside the first of them.
structure Likeness where
  places : Tree → Tree → Prop
  inside : Site → Prop

def Likeness.exact (l : Likeness) : Prop := ∀ t u, l.places t u → t = u

namespace Site

theorem unwrap_tree (s : Site) : s.unwrap.tree = s.tree.unwrap := by
  induction s using down_induction with
  | step s ih =>
    rw [unwrap_step, Tree.unwrap_step]
    change (if s.tree.kind.isWrapper then _ else _ : Site).tree = _
    split
    · cases first : s.tree.children.find? (·.kind.isPart) with
      | none => rfl
      | some child => exact ih child (List.mem_of_find?_eq_some first)
    · rfl

-- Two sites with one tree, up to comments, around which the same names are bound anew.
-- Nothing that the builder makes of an expression tells them apart, but for the places it
-- speaks of.
structure Alike (l : Likeness) (s t : Site) : Prop where
  tree : s.tree.Like l.places t.tree
  shadowed : ∀ name, s.isShadowed name = t.isShadowed name
  inside : ∀ inner ∈ s.preorder, l.inside inner

variable {l : Likeness} {s t inner : Site}

namespace Alike

theorem refl (placed : ∀ t, l.places t t) (s : Site) (inside : ∀ inner ∈ s.preorder, l.inside inner) : s.Alike l s :=
  ⟨.refl placed _, fun _ => rfl, inside⟩

-- In the other direction nothing is known of what is inside.
theorem symm (alike : s.Alike l t) : t.Alike { places := fun t u => l.places u t, inside := fun _ => True } s :=
  ⟨alike.tree.symm, fun name => (alike.shadowed name).symm, fun _ _ => trivial⟩

theorem kind (alike : s.Alike l t) : t.kind = s.kind := alike.tree.kind

theorem text (alike : s.Alike l t) (word : s.kind.isWord = true) : t.text = s.text :=
  alike.tree.text word

theorem tree_eq (alike : s.Alike l t) (exact : l.exact) : t.tree = s.tree := (exact _ _ alike.tree.placed).symm

theorem location (alike : s.Alike l t) (exact : l.exact) : t.location = s.location :=
  congrArg Tree.location (alike.tree_eq exact)

theorem down {child other : Tree} (alike : s.Alike l t) (here : child ∈ s.tree.children ∧ child.Like l.places other) :
    (s.down child).Alike l (t.down other) := by
  refine ⟨here.2, fun name => ?_, fun inner within =>
    alike.inside inner ((preorder_down_sublist here.1).subset within)⟩
  have around := alike.shadowed name
  unfold isShadowed at around
  simp only [isShadowed, Site.down, List.any_cons, around, alike.tree.rebinds]

theorem child?_rel (alike : s.Alike l t) (role : Role) (other : role ≠ .plain) :
    Option.Rel (Alike l) (s.child? role) (t.child? role) := by
  have rel := alike.tree.child?_rel role other
  unfold Site.child?
  generalize s.tree.child? role = one at rel
  generalize t.tree.child? role = two at rel
  cases rel with
  | none => exact .none
  | some here => exact .some (alike.down here)

theorem child? (alike : s.Alike l t) (found : s.child? role = some inner) (other : role ≠ .plain := by decide) :
    ∃ twin, t.child? role = some twin ∧ inner.Alike l twin := by
  have rel := alike.child?_rel role other
  rw [found] at rel
  generalize t.child? role = given at rel
  cases rel with
  | some same => exact ⟨_, rfl, same⟩

theorem child?_none (alike : s.Alike l t) (missing : s.child? role = none) (other : role ≠ .plain := by decide) :
    t.child? role = none := by
  have rel := alike.child?_rel role other
  rw [missing] at rel
  generalize t.child? role = given at rel
  cases rel
  rfl

theorem parts (alike : s.Alike l t) : List.Forall₂ (Alike l) s.parts t.parts := by
  rw [Site.parts, Site.parts, List.forall₂_map_left_iff, List.forall₂_map_right_iff]
  exact alike.tree.parts.imp fun _ _ here => alike.down here

theorem unwrap (alike : s.Alike l t) : s.unwrap.Alike l t.unwrap := by
  induction s using down_induction generalizing t with
  | step s ih =>
    rw [unwrap_step s, unwrap_step t, alike.kind]
    split
    · rename_i wrapper
      have rel := alike.tree.wrapped wrapper
      generalize s.tree.children.find? (·.kind.isPart) = one at rel
      generalize t.tree.children.find? (·.kind.isPart) = two at rel
      cases rel with
      | none => exact alike
      | some here => exact ih _ here.1 (alike.down here)
    · exact alike

theorem property_text {property twin : Site} (alike : s.Alike l t) (member : s.kind = .member)
    (named : s.child? .property = some property) (found : t.child? .property = some twin) : twin.text = property.text := by
  obtain ⟨one, stands, rfl⟩ := Option.map_eq_some_iff.mp named
  obtain ⟨two, given, rfl⟩ := Option.map_eq_some_iff.mp found
  have same := alike.tree.property member
  rw [stands, given] at same
  exact Option.some.inj same

theorem argument_text {function property : Site} (alike : s.Alike l t) (isCall : s.kind = .call)
    (called : s.child? .function = some function) (named : function.unwrap.child? .property = some property)
    (shown : Tree.showsArgument property.text = true) :
    t.tree.argument?.map Tree.text = s.tree.argument?.map Tree.text := by
  have own : s.tree.called?.any (fun property => Tree.showsArgument property.text) = true := by
    obtain ⟨child, stands, rfl⟩ := Option.map_eq_some_iff.mp called
    obtain ⟨inner, given, rfl⟩ := Option.map_eq_some_iff.mp named
    rw [unwrap_tree] at given
    have word : Tree.showsArgument inner.text = true := shown
    change child.unwrap.child? .property = some inner at given
    simp [Tree.called?, stands, given, word]
  have same := alike.tree.spelling
  have kind : s.tree.kind = .call := isCall
  simp only [Tree.spelling, alike.tree.kind, kind, own, if_true] at same
  split at same
  · simpa using same
  · cases same

end Alike
end Site
end Script

namespace Builder

open Script

structure Argument.Alike (l : Likeness) (a b : Argument) : Prop where
  site : a.site.Alike l b.site
  value : b.value = a.value

structure Call.Alike (l : Likeness) (c d : Call) : Prop where
  name : d.name = c.name
  arguments : List.Forall₂ (Argument.Alike l) c.arguments d.arguments
  location : l.exact → d.location = c.location

def Call.shown? (c : Call) : Option String :=
  if Tree.showsArgument c.name then (c.argument? 0).map (·.site.text) else none

structure Call.ShownAlike (l : Likeness) (c d : Call) : Prop extends Call.Alike l c d where
  shown : d.shown? = c.shown?

inductive Root.Alike (l : Likeness) : Root → Root → Prop where
  | builder {base other : Call} : base.Alike l other → Root.Alike l (.builder base coerce) (.builder other coerce)
  | identifier {s t : Site} : t.text = s.text → Root.Alike l (.identifier s) (.identifier t)

structure Chain.Alike (l : Likeness) (c d : Chain) : Prop where
  root : c.root.Alike l d.root
  calls : List.Forall₂ (Call.ShownAlike l) c.calls d.calls

variable {l : Likeness}

theorem Call.alike_ofTree {name other s t : Site} (alike : s.Alike l t) (named : name.Alike l other)
    (text : other.text = name.text) : (Call.ofTree name s).Alike l (Call.ofTree other t) := by
  refine ⟨text, ?_, named.location⟩
  unfold Call.ofTree
  dsimp only
  cases found : s.child? .arguments with
  | none =>
    rw [alike.child?_none found]
    exact .nil
  | some list =>
    obtain ⟨same, stands, each⟩ := alike.child? found
    rw [stands]
    dsimp only
    rw [List.forall₂_map_left_iff, List.forall₂_map_right_iff]
    exact each.parts.imp fun a b alike => ⟨alike, alike.tree.literal?⟩

theorem Call.argument_ofTree (name s : Site) :
    ((Call.ofTree name s).argument? 0).map (·.site.text) = s.tree.argument?.map Tree.text := by
  unfold Call.argument? Call.ofTree Tree.argument? Site.child?
  cases s.tree.child? .arguments with
  | none => rfl
  | some list => cases parts : list.parts <;> simp [Site.parts, Site.down, parts, Site.text]

theorem Call.shownAlike_ofTree {function property twin s t : Site} (alike : s.Alike l t) (isCall : s.kind = .call)
    (called : s.child? .function = some function) (named : function.unwrap.child? .property = some property)
    (calls : (Call.ofTree property s).Alike l (Call.ofTree twin t)) :
    (Call.ofTree property s).ShownAlike l (Call.ofTree twin t) := by
  refine ⟨calls, ?_⟩
  unfold Call.shown?
  rw [calls.name]
  split
  · rename_i shown
    rw [Call.argument_ofTree, Call.argument_ofTree, alike.argument_text isCall called named shown]
  · rfl

namespace Bindings

variable {b : Bindings} {s t : Site} {calls others : List Call} {chain : Chain}

theorem resolve_alike (alike : s.Alike l t) (identifier : s.kind = .identifier) : b.resolve t = b.resolve s := by
  rw [resolve, resolve, alike.text (by rw [identifier]; rfl), alike.shadowed]

theorem isNamespace_alike (alike : s.Alike l t) : b.isNamespace t = b.isNamespace s := by
  rw [isNamespace, isNamespace, alike.kind]
  by_cases identifier : s.kind = .identifier
  · rw [resolve_alike alike identifier]
  · rw [beq_eq_false_iff_ne.mpr identifier, Bool.false_and, Bool.false_and]

theorem namespaceRoot?_alike (alike : s.Alike l t) : b.namespaceRoot? t = b.namespaceRoot? s := by
  unfold namespaceRoot?
  rw [isNamespace_alike alike, alike.kind]
  split
  · rfl
  · split
    · rename_i member
      cases named : s.child? .property with
      | none => rw [alike.child?_none named]
      | some property =>
        obtain ⟨property', named', beside⟩ := alike.child? named
        rw [named']
        cases on : s.child? .object with
        | none => rw [alike.child?_none on]
        | some object =>
          obtain ⟨object', on', under⟩ := alike.child? on
          rw [on']
          dsimp only
          rw [alike.property_text (eq_of_beq member) named named', isNamespace_alike under.unwrap]
    · rfl

theorem reads_alike (reads : Reads b calls s chain) (alike : s.Alike l t)
    (around : List.Forall₂ (Call.ShownAlike l) calls others) : ∃ other, Reads b others t other ∧ chain.Alike l other := by
  induction reads generalizing t others with
  | @builder coerce calls s function object property isCall called member on named schema =>
    obtain ⟨function', called', same⟩ := alike.child? called
    obtain ⟨object', on', under⟩ := same.unwrap.child? on
    obtain ⟨property', named', beside⟩ := same.unwrap.child? named
    have text := same.unwrap.property_text member named named'
    have schema' := (namespaceRoot?_alike under.unwrap).trans schema
    exact ⟨_, .builder (alike.kind.trans isCall) called' (same.unwrap.kind.trans member) on' named' schema',
      .builder (Call.alike_ofTree alike beside text), around⟩
  | @method chain calls s function object property isCall called member on named schema _ ih =>
    obtain ⟨function', called', same⟩ := alike.child? called
    obtain ⟨object', on', under⟩ := same.unwrap.child? on
    obtain ⟨property', named', beside⟩ := same.unwrap.child? named
    have text := same.unwrap.property_text member named named'
    have schema' := (namespaceRoot?_alike under.unwrap).trans schema
    have calls' := Call.shownAlike_ofTree alike isCall called named (Call.alike_ofTree alike beside text)
    obtain ⟨other, reads, equal⟩ := ih under.unwrap (.cons calls' around)
    exact ⟨other, .method (alike.kind.trans isCall) called' (same.unwrap.kind.trans member) on' named' schema' reads, equal⟩
  | @factory name calls s function isCall called identifier bound =>
    obtain ⟨function', called', same⟩ := alike.child? called
    have bound' := (resolve_alike (b := b) same.unwrap identifier).trans bound
    refine ⟨_, .factory (alike.kind.trans isCall) called' (same.unwrap.kind.trans identifier) bound', .builder ?_, around⟩
    have called := Call.alike_ofTree alike same.unwrap (same.unwrap.text (by rw [identifier]; rfl))
    exact ⟨rfl, called.arguments, called.location⟩
  | identifier identifier free =>
    exact ⟨_, .identifier (alike.kind.trans identifier) ((resolve_alike alike identifier).trans free),
      .identifier (alike.text (by rw [identifier]; rfl)), around⟩

theorem chain?_alike (alike : s.Alike l t) : Option.Rel (Chain.Alike l) (b.chain? s) (b.chain? t) := by
  cases found : b.chain? s with
  | some chain =>
    obtain ⟨other, reads, equal⟩ := reads_alike (chain?_reads found) alike.unwrap .nil
    have stands : b.chain? t = some other := reads_iff.mpr reads
    rw [stands]
    exact .some equal
  | none =>
    cases stands : b.chain? t with
    | none => exact .none
    | some other =>
      obtain ⟨chain, reads, _⟩ := reads_alike (chain?_reads stands) alike.symm.unwrap .nil
      cases found.symm.trans (reads_iff.mpr reads)

end Bindings
end Builder
end SchemaAtlas
