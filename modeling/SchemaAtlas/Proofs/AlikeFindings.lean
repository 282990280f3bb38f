import SchemaAtlas.Proofs.AlikeSites
import SchemaAtlas.Proofs.DeclarationFates

namespace SchemaAtlas
namespace Builder

open Script

-- What the lint finds in alike chains. The findings are of the same kinds, in the same
-- order; their places and texts may differ.

variable {l : Likeness} {c d : Call} {calls others : List Call} {chain other : Chain} {s t : Site} {b : Bindings}
  {kinds : Kinds} {kind : ShapeKind}

theorem memberFindings_alike (alike : s.Alike l t) :
    (memberFindings t).map Diagnostic.code = (memberFindings s).map Diagnostic.code := by
  have keys := alike.child?_rel .key (by decide)
  have names := alike.child?_rel .name (by decide)
  unfold memberFindings
  rw [alike.kind]
  dsimp only
  generalize s.child? .key = key at keys
  generalize t.child? .key = key' at keys
  generalize s.child? .name = name at names
  generalize t.child? .name = name' at names
  split
  · cases keys with
    | none => rfl
    | some here =>
      dsimp only
      rw [here.kind]
      split <;> rfl
  · cases names with
    | none => rfl
    | some here =>
      dsimp only
      rw [here.kind]
      split <;> rfl
  · rfl
  · rfl

theorem shapeFindings_alike (alike : c.Alike l d) :
    (shapeFindings d).map Diagnostic.code = (shapeFindings c).map Diagnostic.code := by
  have arguments := forall₂_getElem? alike.arguments 0
  unfold shapeFindings Call.argument?
  rw [alike.name]
  generalize c.arguments[0]? = one at arguments
  generalize d.arguments[0]? = two at arguments
  cases arguments with
  | none => rfl
  | some beside =>
    have literal := beside.site.unwrap
    dsimp only
    rw [literal.kind]
    split
    · rw [List.map_flatMap, List.map_flatMap, List.flatMap_def, List.flatMap_def,
        forall₂_map_eq (fun _ _ member => memberFindings_alike member) literal.parts]
    · rfl

theorem legacyFindings_alike (kind : ShapeKind) (alike : c.Alike l d) :
    (legacyFindings kind d).map Diagnostic.code = (legacyFindings kind c).map Diagnostic.code := by
  unfold legacyFindings
  rw [alike.name]
  split <;> rfl

theorem callFindings_alike (kind : ShapeKind) (alike : List.Forall₂ (Call.ShownAlike l) calls others) :
    (callFindings kind others).map Diagnostic.code = (callFindings kind calls).map Diagnostic.code := by
  induction alike generalizing kind with
  | nil => rfl
  | cons here _ ih =>
    simp only [callFindings, List.map_append, legacyFindings_alike kind here.toAlike, shapeFindings_alike here.toAlike,
      here.name, ih]

theorem chainFindings_alike (kind : ShapeKind) (alike : chain.Alike l other) :
    (chainFindings other kind).map Diagnostic.code = (chainFindings chain kind).map Diagnostic.code := by
  obtain ⟨root, calls⟩ := chain
  obtain ⟨twin, others⟩ := other
  unfold chainFindings
  rw [List.map_append, List.map_append, callFindings_alike kind alike.calls]
  cases alike.root with
  | builder base => exact congrArg (· ++ _) (shapeFindings_alike base)
  | identifier => rfl

theorem startKind?_alike (kinds : Kinds) (alike : chain.Alike l other) : startKind? kinds other = startKind? kinds chain := by
  obtain ⟨root, calls⟩ := chain
  obtain ⟨twin, others⟩ := other
  unfold startKind?
  cases alike.root with
  | builder base => exact congrArg (fun name => some (ShapeKind.ofFactory name)) base.name
  | identifier text => exact congrArg kinds.get? text

theorem rootName?_alike (alike : chain.Alike l other) : other.rootName? = chain.rootName? := by
  obtain ⟨root, calls⟩ := chain
  obtain ⟨twin, others⟩ := other
  unfold Chain.rootName?
  cases alike.root with
  | builder => rfl
  | identifier text => exact congrArg some text

def flagged (b : Bindings) (kinds : Kinds) (s : Site) : Bool :=
  s.kind == .call && isOutermost s && (b.chain? s).any fun chain =>
    (startKind? kinds chain).any fun start => !(chainFindings chain start).isEmpty

theorem flagged_alike (alike : s.Alike l t) (outermost : isOutermost t = isOutermost s) :
    flagged b kinds t = flagged b kinds s := by
  unfold flagged
  rw [alike.kind, outermost, rel_any (fun chain other same => ?_) (Bindings.chain?_alike (b := b) alike)]
  rw [startKind?_alike kinds same]
  refine congrArg (Option.any · _) (funext fun start => ?_)
  have codes := congrArg List.isEmpty (chainFindings_alike start same)
  simpa using codes

theorem found_in_iff {all : List Declaration} : (∃ report ∈ siteFindings b kinds all s, report.declaration = some name) ↔
    flagged b kinds s = true ∧ (enclosing? all s).map Declaration.name = some name := by
  unfold siteFindings flagged
  split
  · rename_i outermost
    rw [outermost, Bool.true_and]
    cases b.chain? s with
    | none => simp
    | some chain =>
      dsimp only [Option.any_some]
      cases startKind? kinds chain with
      | none => simp
      | some start =>
        dsimp only [Option.any_some]
        cases enclosing? all s with
        | none =>
          refine iff_of_false ?_ (by simp)
          rintro ⟨report, listed, own⟩
          cases (chainFindings_sound listed).2.symm.trans own
        | some d =>
          cases found : chainFindings chain start <;> simp [Diagnostic.inDeclaration]
  · rename_i inner
    simp [Bool.not_eq_true _ ▸ inner]

end Builder
end SchemaAtlas
