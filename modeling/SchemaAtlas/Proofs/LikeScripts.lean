import SchemaAtlas.Proofs.AlikeFindings
import SchemaAtlas.Proofs.LoweringLevels

namespace SchemaAtlas

-- Two scripts of one shape, up to comments, in which the pieces stand in the same order. They
-- declare the same names, and what becomes of each of them is the same in both.

namespace Script

def Ordered (places : Tree → Tree → Prop) : Prop :=
  ∀ t u t' u', places t u → places t' u' →
    (u.offset ≤ u'.offset ↔ t.offset ≤ t'.offset) ∧ (u.finish ≤ u'.finish ↔ t.finish ≤ t'.finish)

theorem Ordered.symm {places : Tree → Tree → Prop} (ordered : Ordered places) : Ordered fun t u => places u t := by
  intro t u t' u' one two
  obtain ⟨starts, ends⟩ := ordered _ _ _ _ one two
  exact ⟨starts.symm, ends.symm⟩

namespace Site

variable {places : Tree → Tree → Prop} {s t inner : Site}

structure Twins (places : Tree → Tree → Prop) (s t : Site) : Prop where
  tree : s.tree.Like places t.tree
  above : List.Forall₂ (Tree.Like places) s.above t.above

namespace Twins

theorem symm (twins : s.Twins places t) : t.Twins (fun t u => places u t) s :=
  ⟨twins.tree.symm, (twins.above.imp fun _ _ like => like.symm).flip⟩

theorem kind (twins : s.Twins places t) : t.kind = s.kind := twins.tree.kind

theorem down {child other : Tree} (twins : s.Twins places t) (here : child ∈ s.tree.children ∧ child.Like places other) :
    (s.down child).Twins places (t.down other) := ⟨here.2, .cons twins.tree twins.above⟩

theorem child?_rel (twins : s.Twins places t) (role : Role) (other : role ≠ .plain) :
    Option.Rel (Twins places) (s.child? role) (t.child? role) := by
  have rel := twins.tree.child?_rel role other
  unfold Site.child?
  generalize s.tree.child? role = one at rel
  generalize t.tree.child? role = two at rel
  cases rel with
  | none => exact .none
  | some here => exact .some (twins.down here)

theorem parts (twins : s.Twins places t) : List.Forall₂ (Twins places) s.parts t.parts := by
  rw [Site.parts, Site.parts, List.forall₂_map_left_iff, List.forall₂_map_right_iff]
  exact twins.tree.parts.imp fun _ _ here => twins.down here

theorem alike (twins : s.Twins places t) : s.Alike { places := places, inside := fun _ => True } t :=
  ⟨twins.tree, fun name => (forall₂_any (fun _ _ like => like.rebinds name) twins.above).symm, fun _ _ => trivial⟩

theorem isOutermost (twins : s.Twins places t) : Builder.isOutermost t = Builder.isOutermost s := by
  obtain ⟨tree, above⟩ := s
  obtain ⟨other, upper⟩ := t
  have role := twins.tree.role
  unfold Builder.isOutermost
  cases twins.above with
  | nil => rfl
  | cons member rest =>
    cases rest with
    | nil => rfl
    | cons call =>
      dsimp only
      rw [member.kind, role, member.role, call.kind]

theorem mem_preorder (twins : s.Twins places t) (inside : inner ∈ s.preorder) (other : inner.tree.isSpare = false) :
    ∃ twin ∈ t.preorder, inner.Twins places twin := by
  induction s using down_induction generalizing t with
  | step s ih =>
    rw [preorder_eq] at inside
    rcases List.mem_cons.mp inside with rfl | deeper
    · exact ⟨t, mem_preorder_self t, twins⟩
    · obtain ⟨child, listed, within⟩ := List.mem_flatMap.mp deeper
      have plain : child.isSpare = false := by
        by_contra spare
        simp only [Bool.not_eq_false] at spare
        simp only [Tree.isSpare, Bool.and_eq_true, List.isEmpty_iff] at spare
        rw [preorder_eq, Site.down, spare.2, List.flatMap_nil, List.mem_singleton] at within
        subst within
        simp [Tree.isSpare, spare] at other
      have kept : child ∈ s.tree.kept := List.mem_append_right _ (List.mem_filter.mpr ⟨listed, by simp [plain]⟩)
      obtain ⟨twin, listed', like⟩ := forall₂_mem twins.tree.each kept
      obtain ⟨last, found, same⟩ := ih child listed (twins.down like) within
      exact ⟨last, (preorder_down_sublist (Tree.mem_children_of_kept listed')).subset found, same⟩

end Twins
end Site

theorem Tree.Like.broken? {t u : Tree} (like : t.Like places u) (broken : t.broken?.isSome = true) :
    u.broken?.isSome = true := by
  simp only [Tree.broken?, Tree.find?, List.find?_isSome] at broken ⊢
  obtain ⟨piece, listed, broken⟩ := broken
  change piece ∈ (Site.root t).tree.preorder at listed
  rw [← Site.map_preorder] at listed
  obtain ⟨s, inside, rfl⟩ := List.mem_map.mp listed
  have plain : s.tree.isSpare = false := by
    cases spare : s.tree.isSpare with
    | false => rfl
    | true => simp [Tree.kind_of_isSpare spare, Kind.isBroken] at broken
  have twins : (Site.root t).Twins places (Site.root u) := ⟨like, .nil⟩
  obtain ⟨twin, found, same⟩ := twins.mem_preorder inside plain
  refine ⟨twin.tree, ?_, by rw [same.tree.kind]; exact broken⟩
  change twin.tree ∈ (Site.root u).tree.preorder
  rw [← Site.map_preorder]
  exact List.mem_map_of_mem found

end Script

namespace Builder

open Script

variable {places : Tree → Tree → Prop} {settings : ParseSettings} {b : Bindings} {one two : Tree} {d e : Declaration}
  {all others : List Declaration}

structure Declaration.Twins (places : Tree → Tree → Prop) (d e : Declaration) : Prop where
  name : e.name = d.name
  value : d.value.Twins places e.value

theorem ofDeclarator?_twins {s t : Site} (twins : s.Twins places t) (exported other : Bool) :
    Option.Rel (Declaration.Twins places) (Declaration.ofDeclarator? exported s) (Declaration.ofDeclarator? other t) := by
  have names := twins.child?_rel .name (by decide)
  have values := twins.child?_rel .value (by decide)
  unfold Declaration.ofDeclarator?
  generalize s.child? .name = name at names
  generalize t.child? .name = name' at names
  generalize s.child? .value = value at values
  generalize t.child? .value = value' at values
  cases names with
  | none => exact .none
  | @some name _ named =>
    cases values with
    | none => exact .none
    | some given =>
      simp only [Option.bind_eq_bind, Option.bind_some, named.kind]
      split
      · rename_i identifier
        exact .some ⟨named.tree.text (by rw [show name.tree.kind = _ from eq_of_beq identifier]; rfl), given⟩
      · exact .none

theorem declarators_twins {s t : Site} (twins : s.Twins places t) :
    List.Forall₂ (Site.Twins places) (Declaration.declarators s) (Declaration.declarators t) := by
  unfold Declaration.declarators
  rw [twins.kind]
  split
  · exact forall₂_filter (fun _ _ here => by rw [here.kind]) twins.parts
  · exact forall₂_filter (fun _ _ here => by rw [here.kind]) twins.parts
  · exact .nil

theorem ofStatement?_twins {s t : Site} (twins : s.Twins places t) :
    Option.Rel (fun given other => given.1.Twins places other.1) (Declaration.ofStatement? s) (Declaration.ofStatement? t) := by
  unfold Declaration.ofStatement?
  rw [twins.kind]
  split
  · have rel := twins.child?_rel .declaration (by decide)
    generalize s.child? .declaration = declaration at rel
    generalize t.child? .declaration = other at rel
    cases rel with
    | none => exact .none
    | some here => exact .some here
  · exact .some twins

theorem initialized_twins (like : one.Like places two) :
    List.Forall₂ (Declaration.Twins places) (Declaration.initialized one) (Declaration.initialized two) := by
  have twins : (Site.root one).Twins places (Site.root two) := ⟨like, .nil⟩
  refine forall₂_flatMap (fun s t statement => ?_) twins.parts
  have rel := ofStatement?_twins statement
  generalize Declaration.ofStatement? s = given at rel
  generalize Declaration.ofStatement? t = other at rel
  cases rel with
  | none => exact .nil
  | some here =>
    refine List.rel_filterMap (fun s t declarator => ?_) (declarators_twins here)
    exact ofDeclarator?_twins declarator _ _

theorem start?_twins (twins : d.Twins places e) : e.start? b = d.start? b :=
  rel_map_eq (fun _ _ same => rootName?_alike same) (Bindings.chain?_alike twins.value.alike)

theorem find_twins (like : one.Like places two) :
    List.Forall₂ (Declaration.Twins places) (Declaration.find b one) (Declaration.find b two) := by
  have each := initialized_twins like
  unfold Declaration.find
  dsimp only
  rw [forall₂_map_eq (fun _ _ twins => by rw [twins.name, start?_twins twins]) each]
  exact forall₂_filter (fun _ _ twins => by rw [twins.name]) each

theorem unique_twins (each : List.Forall₂ (Declaration.Twins places) all others) (seen : List String) :
    List.Forall₂ (Declaration.Twins places) (Declaration.unique seen all).1 (Declaration.unique seen others).1 := by
  induction each generalizing seen with
  | nil => exact .nil
  | cons here _ ih =>
    unfold Declaration.unique
    dsimp only
    rw [here.name]
    split
    · exact ih _
    · exact .cons here (ih _)

theorem declarations_twins (settings : ParseSettings) (like : one.Like places two) :
    List.Forall₂ (Declaration.Twins places) (Survey.ofTree settings one).declarations
      (Survey.ofTree settings two).declarations := by
  change List.Forall₂ _ (Declaration.unique [] (Declaration.find (.collect settings one) one)).1
    (Declaration.unique [] (Declaration.find (.collect settings two) two)).1
  rw [collect_like settings like]
  exact unique_twins (find_twins like) []

theorem declarationKind_twins (kinds : Kinds) (twins : d.Twins places e) :
    declarationKind b kinds e = declarationKind b kinds d := by
  have chains := Bindings.chain?_alike (b := b) twins.value.alike
  unfold declarationKind
  generalize b.chain? d.value = first at chains
  generalize b.chain? e.value = second at chains
  cases chains with
  | none => rfl
  | some same =>
    dsimp only
    rw [startKind?_alike kinds same]
    exact forall₂_foldl_eq (fun _ _ call kind => by rw [call.name]) same.calls _

theorem declarationKinds_twins (each : List.Forall₂ (Declaration.Twins places) all others) :
    declarationKinds b others = declarationKinds b all := by
  have round (kinds : Kinds) : kindRound b others kinds = kindRound b all kinds :=
    forall₂_foldl_eq (fun _ _ twins kinds => by rw [twins.name, declarationKind_twins kinds twins]) each kinds
  rw [declarationKinds, declarationKinds, round, round]

theorem enclosing?_twins {s t : Site} (ordered : Ordered places) (each : List.Forall₂ (Declaration.Twins places) all others)
    (twins : s.Twins places t) :
    (enclosing? others t).map Declaration.name = (enclosing? all s).map Declaration.name := by
  refine rel_map_eq (fun _ _ same => same.name) (forall₂_find? (fun d e same => ?_) each)
  obtain ⟨starts, _⟩ := ordered _ _ _ _ same.value.tree.placed twins.tree.placed
  obtain ⟨_, ends⟩ := ordered _ _ _ _ twins.tree.placed same.value.tree.placed
  simp only [starts, ends]

theorem rejects_iff (settings : ParseSettings) (root : Tree) (name : String) :
    (Survey.ofTree settings root).rejects name = true ↔ ∃ s ∈ (Site.root root).preorder,
      flagged (.collect settings root) (declarationKinds (.collect settings root) (Survey.ofTree settings root).declarations) s
        = true ∧ (enclosing? (Survey.ofTree settings root).declarations s).map Declaration.name = some name := by
  have found : (Survey.ofTree settings root).rejects name = true ↔
      ∃ report ∈ (Survey.ofTree settings root).found, report.declaration = some name := by
    unfold Survey.rejects
    rw [List.any_eq_true]
    refine exists_congr fun report => and_congr_right fun listed => ?_
    simp [((ofTree_sound settings root).found report listed).1]
  have places : (∃ report ∈ (Survey.ofTree settings root).found, report.declaration = some name) ↔
      ∃ s ∈ (Site.root root).preorder, ∃ report ∈ siteFindings (.collect settings root)
        (declarationKinds (.collect settings root) (Survey.ofTree settings root).declarations)
        (Survey.ofTree settings root).declarations s, report.declaration = some name := by
    change (∃ report ∈ findings _ root _, _) ↔ _
    unfold findings
    simp only [List.mem_mergeSort, List.mem_flatMap]
    constructor
    · rintro ⟨report, ⟨s, inside, listed⟩, own⟩
      exact ⟨s, inside, report, listed, own⟩
    · rintro ⟨s, inside, report, listed, own⟩
      exact ⟨report, ⟨s, inside, listed⟩, own⟩
  rw [found, places]
  exact exists_congr fun s => and_congr_right fun _ => found_in_iff

theorem rejects_twins (ordered : Ordered places) (like : one.Like places two)
    (rejects : (Survey.ofTree settings one).rejects name = true) : (Survey.ofTree settings two).rejects name = true := by
  obtain ⟨s, inside, flag, own⟩ := (rejects_iff settings one name).mp rejects
  have plain : s.tree.isSpare = false := by
    cases spare : s.tree.isSpare with
    | false => rfl
    | true => simp [flagged, Site.kind, Tree.kind_of_isSpare spare] at flag
  have each := declarations_twins settings like
  have top : (Site.root one).Twins places (Site.root two) := ⟨like, .nil⟩
  obtain ⟨t, found, twins⟩ := top.mem_preorder inside plain
  refine (rejects_iff settings two name).mpr ⟨t, found, ?_, ?_⟩
  · rw [collect_like settings like, declarationKinds_twins each, flagged_alike twins.alike twins.isOutermost]
    exact flag
  · rw [enclosing?_twins ordered each twins]
    exact own

def commenting (places : Tree → Tree → Prop) (b : Bindings) : Comparison :=
  { places := places, bindings := b, known := fun _ => True, stops := fun _ => True }

theorem commenting_sound (places : Tree → Tree → Prop) (b : Bindings) : (commenting places b).Sound :=
  ⟨.inr fun _ => trivial, fun _ _ => trivial⟩

theorem lowered_twins (program : one.kind = .program) (like : one.Like places two) (twins : d.Twins places e)
    (lowered : lowerExpression ((Survey.ofTree settings one).context settings) d.value = .ok node) :
    lowerExpression ((Survey.ofTree settings two).context settings) e.value = .ok node := by
  have alike : d.value.Alike (commenting places (.collect settings one)).likeness e.value :=
    ⟨twins.value.tree, twins.value.alike.shadowed, fun _ _ => ⟨trivial, fun _ _ => trivial⟩⟩
  have beside : (commenting places (.collect settings one)).Beside ((Survey.ofTree settings one).context settings)
      ((Survey.ofTree settings two).context settings) :=
    ⟨rfl, collect_like settings like, rfl, Nat.le_refl _, fun name _ => namedValues?_like program like name⟩
  -- Both within as many levels as either of them needs.
  have first := (lowerWithin_enough (Nat.le_max_left _ e.value.tree.preorder.length)).mpr lowered
  exact (lowerWithin_enough (Nat.le_max_right _ _)).mp
    ((lowerWithin_alike (commenting_sound _ _) (Nat.le_refl _) alike _ _ beside).ok first)

theorem fate_emitted_iff {r : Survey} : (r.fate settings d).schema? = some (d, node) ↔
    d.value.tree.broken?.isSome = false ∧ r.rejects d.name = false ∧
      ∃ lowered, lowerExpression (r.context settings) d.value = .ok lowered ∧ lowered.finalizeTree 0 = node := by
  unfold Survey.fate brokenRefusal? Survey.context
  cases d.value.tree.broken? with
  | some broken => simp [Fate.schema?]
  | none =>
    cases r.rejects d.name with
    | true => simp [Fate.schema?]
    | false =>
      generalize lowerExpression { bindings := r.bindings, root := r.root, maxDepth := settings.maxDepth } d.value = lowered
      cases lowered <;> simp [Fate.schema?]

theorem emitted_twins (ordered : Ordered places) (program : one.kind = .program) (like : one.Like places two)
    (twins : d.Twins places e) (given : ((Survey.ofTree settings one).fate settings d).schema? = some (d, node)) :
    ((Survey.ofTree settings two).fate settings e).schema? = some (e, node) := by
  obtain ⟨whole, free, lowered, value, final⟩ := fate_emitted_iff.mp given
  refine fate_emitted_iff.mpr ⟨?_, ?_, lowered, lowered_twins program like twins value, final⟩
  · rw [← Bool.not_eq_true] at whole ⊢
    exact mt twins.value.tree.symm.broken? whole
  · rw [twins.name, ← Bool.not_eq_true]
    rw [← Bool.not_eq_true] at free
    exact mt (rejects_twins ordered.symm like.symm) free

theorem schema?_twins (ordered : Ordered places) (program : one.kind = .program) (like : one.Like places two)
    (twins : d.Twins places e) : Option.Rel (fun entry other => other.1.name = entry.1.name ∧ other.2 = entry.2)
      ((Survey.ofTree settings one).fate settings d).schema? ((Survey.ofTree settings two).fate settings e).schema? := by
  cases given : ((Survey.ofTree settings one).fate settings d).schema? with
  | some entry =>
    obtain ⟨rfl, _⟩ := fate_schema? given
    rw [emitted_twins ordered program like twins given]
    exact .some ⟨twins.name, rfl⟩
  | none =>
    cases beside : ((Survey.ofTree settings two).fate settings e).schema? with
    | none => exact .none
    | some other =>
      obtain ⟨rfl, _⟩ := fate_schema? beside
      cases given.symm.trans (emitted_twins ordered.symm (like.kind.trans program) like.symm
        ⟨twins.name.symm, twins.value.symm⟩ beside)

-- Both scripts contribute the same schemas, and so the same document.
theorem document_like (ordered : Ordered places) (program : one.kind = .program) (like : one.Like places two) :
    ((Survey.ofTree settings two).outcome settings).document = ((Survey.ofTree settings one).outcome settings).document := by
  have emitted : List.Forall₂ (fun entry other => other.1.name = entry.1.name ∧ other.2 = entry.2)
      ((Survey.ofTree settings one).emitted settings) ((Survey.ofTree settings two).emitted settings) := by
    unfold Survey.emitted
    rw [List.filterMap_map, List.filterMap_map]
    exact List.rel_filterMap (fun _ _ twins => schema?_twins ordered program like twins) (declarations_twins settings like)
  have components : ((Survey.ofTree settings two).emitted settings).map (fun entry => Component.schema entry.1.name entry.2) =
      ((Survey.ofTree settings one).emitted settings).map fun entry => Component.schema entry.1.name entry.2 :=
    forall₂_map_eq (fun _ _ same => by rw [same.1, same.2]) emitted
  have whole (r : Survey) : (r.outcome settings).document = ({
      sourceFormatVersion := sourceFormat
      components := (r.emitted settings).map fun entry => .schema entry.1.name entry.2 } : Document).analyze := rfl
  rw [whole, whole, components]

end Builder
end SchemaAtlas
