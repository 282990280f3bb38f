import SchemaAtlas.Builder.Lowering.Expression
import SchemaAtlas.Proofs.AlikeCalls
import SchemaAtlas.Proofs.KeptUnless

namespace SchemaAtlas
namespace Builder

open Script

-- Two lowerings of alike expressions, which may stand in two scripts. The second one has at
-- least as high a ceiling and as many levels to go down, and it ends as the first one did,
-- unless that was stopped.

def Refusal.BeyondCeiling (r : Refusal) : Prop :=
  ∃ ceiling location, r = .at_ ("schema nesting exceeds the limit of " ++ toString (ceiling : Nat)) location

def Call.Enumerates (base : Call) (name : String) : Prop :=
  (base.name = "enum" ∨ base.name = "nativeEnum") ∧
    ∃ a, base.argument? 0 = some a ∧ a.site.unwrap.kind = .identifier ∧ a.site.unwrap.text = name

def Bindings.Enumerates (b : Bindings) (s : Site) (name : String) : Prop :=
  ∃ base, (b.chain? s).bind Chain.base? = some base ∧ base.Enumerates name

instance (base : Call) (name : String) : Decidable (base.Enumerates name) :=
  decidable_of_iff ((base.name = "enum" ∨ base.name = "nativeEnum") ∧
    ((base.argument? 0).any fun a => a.site.unwrap.kind == .identifier && a.site.unwrap.text == name) = true) (by
    simp [Call.Enumerates, Option.any_eq_true])

instance (b : Bindings) (s : Site) (name : String) : Decidable (b.Enumerates s name) :=
  decidable_of_iff (((b.chain? s).bind Chain.base?).any (fun base => decide (base.Enumerates name)) = true) (by
    simp [Bindings.Enumerates, Option.any_eq_true])

-- How two lowerings are compared: how the places of both go together, under which bindings,
-- the names that have the same values in both scripts, what stops the first one, and what
-- else is known of everything inside the first expression.
structure Comparison where
  places : Tree → Tree → Prop
  bindings : Bindings
  known : String → Prop
  stops : Refusal → Prop
  inside : Site → Prop := fun _ => True

namespace Comparison

def likeness (k : Comparison) : Likeness :=
  { places := k.places, inside := fun s => k.inside s ∧ ∀ name, k.bindings.Enumerates s name → k.known name }

structure Sound (k : Comparison) : Prop where
  excuses : Excuses k.stops k.likeness
  ceiling : ∀ r : Refusal, r.BeyondCeiling → k.stops r

structure Beside (k : Comparison) (one two : Context) : Prop where
  first : one.bindings = k.bindings
  second : two.bindings = k.bindings
  depth : two.depth = one.depth
  raised : one.maxDepth ≤ two.maxDepth
  values : ∀ name, k.known name → namedValues? two.root name = namedValues? one.root name

def Matches (k : Comparison) (low high : Context → Lowered α) : Prop :=
  ∀ one two, k.Beside one two → KeptUnless k.stops (low one) (high two)

theorem Beside.child {k : Comparison} {one two : Context} (beside : k.Beside one two) : k.Beside one.child two.child :=
  ⟨beside.first, beside.second, congrArg (· + 1) beside.depth, beside.raised, beside.values⟩

end Comparison

variable {k : Comparison} {low high : Lower} {base other call twin : Call} {s t : Site}

theorem namedEnum_alike {one two : Context} (beside : k.Beside one two) (known : k.known name) :
    namedEnum two name = namedEnum one name := by
  rw [namedEnum, namedEnum, beside.values name known]

theorem nativeEnum_of_reference (family : Family.ofFactory? name = some .reference) (other : name ≠ "lazy") :
    name = "nativeEnum" := by
  have listed := List.find?_some family
  simpa [Family.factories, other] using listed

def lowerCalls (lower : Lower) (cx : Context) (chain : Chain) : Lowered SchemaNode := do
  let node ← lowerRoot lower cx chain.root
  let state ← chain.calls.foldlM (apply lower cx) (State.start node)
  return state.finish

variable (sound : k.Sound)

include sound

theorem buildEnum_alike (alike : base.Alike k.likeness other) (isEnum : base.name = "enum")
    (known : ∀ name, base.Enumerates name → k.known name) : k.Matches (buildEnum · base) (buildEnum · other) := by
  intro one two beside
  refine argumentOr_alike sound.excuses alike 0 "expects an argument" fun a b given same => ?_
  dsimp only
  rw [same.site.unwrap.kind]
  split
  · rename_i identifier
    rw [same.site.unwrap.text (by rw [eq_of_beq identifier]; rfl)]
    refine .of_eq (congrArg _ (namedEnum_alike beside ?_).symm)
    exact known _ ⟨.inl isEnum, a, given, eq_of_beq identifier, rfl⟩
  · exact buildTextEnum_alike sound.excuses alike

theorem buildNativeEnum_alike (alike : base.Alike k.likeness other) (isEnum : base.name = "nativeEnum")
    (known : ∀ name, base.Enumerates name → k.known name) :
    k.Matches (buildNativeEnum · base) (buildNativeEnum · other) := by
  intro one two beside
  refine argumentOr_alike sound.excuses alike 0 "expects an argument" fun a b given same => ?_
  dsimp only
  rw [same.site.unwrap.kind]
  split
  · rename_i identifier
    rw [same.site.unwrap.text (by rw [eq_of_beq identifier]; rfl)]
    refine .of_eq (congrArg _ (namedEnum_alike beside ?_).symm)
    exact known _ ⟨.inr isEnum, a, given, eq_of_beq identifier, rfl⟩
  · exact refuse_alike sound.excuses _ same.site.unwrap.location

section Calls

-- One chain of calls over two lowerings of what it is given.
variable (below : ∀ s t, s.Alike k.likeness t → k.Matches (low · s) (high · t))

include below

theorem lowerMembers_alike (alike : s.Alike k.likeness t) : k.Matches (lowerMembers low · s) (lowerMembers high · t) := by
  intro one two beside
  dsimp only [lowerMembers]
  rw [alike.unwrap.kind]
  split
  · exact refuse_alike sound.excuses _ alike.unwrap.location
  · exact .mapM₂ (alike.unwrap.parts.imp fun _ _ part => below _ _ part _ _ beside.child)

theorem lowerMember_alike (alike : s.Alike k.likeness t) : k.Matches (lowerMember low · s) (lowerMember high · t) := by
  intro one two beside
  dsimp only [lowerMember]
  rw [alike.kind]
  split
  · cases named : s.child? .key with
    | none =>
      rw [alike.child?_none named]
      exact .kept _
    | some key =>
      obtain ⟨key', named', under⟩ := alike.child? named
      rw [named']
      cases stands : s.child? .value with
      | none =>
        rw [alike.child?_none stands]
        exact .kept _
      | some value =>
        obtain ⟨value', stands', given⟩ := alike.child? stands
        rw [stands']
        dsimp only
        rw [under.tree.key?]
        cases key.tree.key? with
        | none => exact refuse_alike sound.excuses _ under.location
        | some name => exact (below _ _ given _ _ beside.child).map _
  · rename_i shorthand
    exact .of_eq (by rw [alike.text (by rw [shorthand]; rfl)])
  · exact refuse_alike sound.excuses _ alike.location
  · exact refuse_alike sound.excuses _ alike.location

theorem lowerShape_alike (alike : s.Alike k.likeness t) : k.Matches (lowerShape low · s) (lowerShape high · t) := by
  intro one two beside
  dsimp only [lowerShape]
  rw [alike.unwrap.kind]
  split
  · exact refuse_alike sound.excuses _ alike.location
  · exact .map (.mapM₂ (alike.unwrap.parts.imp fun _ _ member => lowerMember_alike sound below member _ _ beside)) _

section Factories

variable (alike : base.Alike k.likeness other)

include alike

theorem buildObject_alike : k.Matches (buildObject low · base) (buildObject high · other) := by
  intro one two beside
  dsimp only [buildObject]
  rw [alike.name]
  have arguments := alike.argument? 0
  generalize base.argument? 0 = a? at arguments
  generalize other.argument? 0 = b? at arguments
  cases arguments with
  | none => exact .kept _
  | some same => exact (lowerShape_alike sound below same.site _ _ beside).bind fun properties => .kept _

theorem buildUnion_alike : k.Matches (buildUnion low · base) (buildUnion high · other) := by
  intro one two beside
  dsimp only [buildUnion]
  rw [alike.name]
  split
  · rw [alike.text]
    cases (base.argument? 0).bind Argument.text? with
    | none => exact call_refuse_alike sound.excuses alike _
    | some key =>
      refine argumentOr_alike sound.excuses alike _ _ fun a b _ options => ?_
      exact (lowerMembers_alike sound below options.site _ _ beside).bind fun members => .kept _
  · refine argumentOr_alike sound.excuses alike _ _ fun a b _ options => ?_
    exact (lowerMembers_alike sound below options.site _ _ beside).bind fun members => .kept _

theorem buildIntersection_alike : k.Matches (buildIntersection low · base) (buildIntersection high · other) := by
  intro one two beside
  dsimp only [buildIntersection]
  rw [alike.arguments.length_eq]
  split
  · exact call_refuse_alike sound.excuses alike _
  · refine KeptUnless.bind (.mapM₂ (alike.arguments.imp fun a b same => ?_)) fun members => .kept _
    exact below _ _ same.site _ _ beside.child

theorem buildList_alike : k.Matches (buildList low · base) (buildList high · other) := by
  intro one two beside
  dsimp only [buildList]
  rw [alike.name]
  refine first_alike sound.excuses alike fun a b first => ?_
  exact (below _ _ first.site _ _ beside.child).bind fun item => .kept _

theorem buildTuple_alike : k.Matches (buildTuple low · base) (buildTuple high · other) := by
  intro one two beside
  refine first_alike sound.excuses alike fun a b first => ?_
  refine (lowerMembers_alike sound below first.site _ _ beside).bind fun members => ?_
  refine KeptUnless.bind (.option₂ ?_) fun rest => .kept _
  have second := alike.argument? 1
  generalize base.argument? 1 = a? at second
  generalize other.argument? 1 = b? at second
  cases second with
  | none => exact .none
  | some same => exact .some (below _ _ same.site _ _ beside.child)

theorem buildRecord_alike : k.Matches (buildRecord low · base) (buildRecord high · other) := by
  intro one two beside
  dsimp only [buildRecord]
  rw [alike.name]
  have last := forall₂_getLast? alike.arguments
  generalize base.arguments.getLast? = a? at last
  generalize other.arguments.getLast? = b? at last
  cases last with
  | none => exact call_refuse_alike sound.excuses alike _
  | some same => exact (below _ _ same.site _ _ beside.child).bind fun value => .kept _

theorem buildComposition_alike (known : ∀ name, base.Enumerates name → k.known name) :
    k.Matches (buildComposition low · base) (buildComposition high · other) := by
  intro one two beside
  dsimp only [buildComposition]
  rw [alike.name]
  split
  · exact buildTuple_alike sound below alike _ _ beside
  · exact buildRecord_alike sound below alike _ _ beside
  · exact buildRecord_alike sound below alike _ _ beside
  · rename_i isEnum
    exact buildEnum_alike sound alike isEnum known _ _ beside
  · exact buildList_alike sound below alike _ _ beside

theorem buildLazy_alike : k.Matches (buildLazy low · base) (buildLazy high · other) := by
  intro one two beside
  refine first_alike sound.excuses alike fun a b first => ?_
  have given := givenBy?_alike first.site.unwrap
  dsimp only
  generalize givenBy? a.site.unwrap = a? at given
  generalize givenBy? b.site.unwrap = b? at given
  cases given with
  | none => exact refuse_alike sound.excuses _ first.site.unwrap.location
  | some body => exact below _ _ body _ _ beside

theorem build_alike (known : ∀ name, base.Enumerates name → k.known name) :
    k.Matches (build low · base) (build high · other) := by
  intro one two beside
  dsimp only [build]
  rw [alike.name]
  split
  · exact refuse_alike sound.excuses _ alike.location
  · exact buildScalar_alike sound.excuses alike
  · exact buildObject_alike sound below alike _ _ beside
  · exact buildUnion_alike sound below alike _ _ beside
  · exact buildIntersection_alike sound below alike _ _ beside
  · exact buildComposition_alike sound below alike known _ _ beside
  · rename_i family
    split
    · exact buildLazy_alike sound below alike _ _ beside
    · rename_i other
      exact buildNativeEnum_alike sound alike (nativeEnum_of_reference family other) known _ _ beside

end Factories

theorem addition_alike (alike : s.Alike k.likeness t) : k.Matches (addition low · s) (addition high · t) := by
  intro one two beside
  dsimp only [addition]
  rw [alike.unwrap.kind]
  split
  · exact (lowerShape_alike sound below alike _ _ beside.child).map _
  · exact below _ _ alike _ _ beside.child

variable (alike : base.Alike k.likeness other)

include alike

theorem extend_alike (s : State) : k.Matches (extend low · s base) (extend high · s other) := by
  intro one two beside
  refine first_alike sound.excuses alike fun a b first => ?_
  exact (addition_alike sound below first.site _ _ beside).bind fun added => .kept _

theorem setKey_alike (n : SchemaNode) : k.Matches (setKey low · n base) (setKey high · n other) := by
  intro one two beside
  dsimp only [setKey]
  rw [alike.text]
  cases (base.argument? 0).bind Argument.text? with
  | none => exact call_refuse_alike sound.excuses alike _
  | some key =>
    have value := alike.argument? 1
    dsimp only
    generalize base.argument? 1 = a? at value
    generalize other.argument? 1 = b? at value
    cases value with
    | none => exact call_refuse_alike sound.excuses alike _
    | some same => exact (below _ _ same.site _ _ beside.child).bind fun node => .kept _

theorem applyObjectMethod_alike (n : SchemaNode) :
    k.Matches (applyObjectMethod low · n base) (applyObjectMethod high · n other) := by
  intro one two beside
  dsimp only [applyObjectMethod]
  have marked (required : Bool) := markProperties_alike sound.excuses n required alike
  have kept (keep : Bool) := keepProperties_alike sound.excuses n keep alike
  rw [alike.name]
  split
  case h_1 => exact (setKey_alike sound below alike n _ _ beside).bind fun _ => .kept _
  case h_10 =>
    refine first_alike sound.excuses alike fun a b first => ?_
    exact (below _ _ first.site _ _ beside.child).bind fun _ => .kept _
  all_goals first
    | exact .kept _
    | exact (marked _).bind fun _ => .kept _
    | exact (kept _).bind fun _ => .kept _

theorem applyToObject_alike (s : State) : k.Matches (applyToObject low · s base) (applyToObject high · s other) := by
  intro one two beside
  dsimp only [applyToObject]
  rw [alike.name]
  split
  · exact (extend_alike sound below alike s _ _ beside).bind fun _ => .kept _
  · split
    · exact (applyObjectMethod_alike sound below alike s.node _ _ beside).bind fun _ => .kept _
    · exact .kept _

theorem setRest_alike (n : SchemaNode) : k.Matches (setRest low · n base) (setRest high · n other) := by
  intro one two beside
  refine first_alike sound.excuses alike fun a b first => ?_
  exact (below _ _ first.site _ _ beside.child).bind fun rest => .kept _

theorem applyToCollection_alike (n : SchemaNode) :
    k.Matches (applyToCollection low · n base) (applyToCollection high · n other) := by
  intro one two beside
  dsimp only [applyToCollection]
  rw [alike.name]
  split
  · split
    · exact (restrictEnum_alike sound.excuses n _ alike).bind fun _ => .kept _
    · split
      · exact (setRest_alike sound below alike n _ _ beside).bind fun _ => .kept _
      · exact .kept _
  · split
    · exact (setRest_alike sound below alike n _ _ beside).bind fun _ => .kept _
    · exact .kept _
  · exact .kept _

omit alike

theorem applyGeneral_alike (alike : call.ShownAlike k.likeness twin) (s : State) :
    k.Matches (applyGeneral low · s call) (applyGeneral high · s twin) := by
  intro one two beside
  dsimp only [applyGeneral]
  rw [alike.name, alike.text, refinement_alike alike.toAlike]
  split
  case h_4 | h_5 =>
    rename_i shown
    exact .of_eq (by rw [applyDefault_alike s alike (by rw [shown]; rfl)])
  case h_6 =>
    split
    · exact .kept _
    · exact call_refuse_alike sound.excuses alike.toAlike _
  case h_8 | h_9 =>
    refine first_alike sound.excuses alike.toAlike fun a b first => ?_
    exact (below _ _ first.site _ _ beside.child).bind fun _ => .kept _
  all_goals exact .kept _

theorem apply_alike (alike : call.ShownAlike k.likeness twin) (s : State) :
    k.Matches (apply low · s call) (apply high · s twin) := by
  intro one two beside
  refine (applyGeneral_alike sound below alike s _ _ beside).bind fun general => ?_
  cases general with
  | some next => exact .kept _
  | none =>
    refine (constrain_alike sound.excuses s.node alike.toAlike).bind fun constrained => ?_
    cases constrained with
    | some node => exact .kept _
    | none =>
      refine (applyToObject_alike sound below alike.toAlike s _ _ beside).bind fun object => ?_
      cases object with
      | some next => exact .kept _
      | none =>
        refine (applyToCollection_alike sound below alike.toAlike s.node _ _ beside).bind fun collection => ?_
        cases collection with
        | some node => exact .kept _
        | none =>
          dsimp only
          rw [alike.name]
          exact refuse_alike sound.excuses _ alike.location

theorem lowerRoot_alike {root twin : Root} (alike : root.Alike k.likeness twin)
    (known : ∀ base coerce, root = .builder base coerce → ∀ name, base.Enumerates name → k.known name) :
    k.Matches (lowerRoot low · root) (lowerRoot high · twin) := by
  intro one two beside
  cases alike with
  | builder base => exact (build_alike sound below base (known _ _ rfl) _ _ beside).bind fun node => .kept _
  | identifier text =>
    dsimp only [lowerRoot]
    rw [text]
    exact .kept _

end Calls

theorem checkDepth_alike (s t : Site) : k.Matches (·.checkDepth s) (·.checkDepth t) := by
  intro one two beside
  dsimp only
  by_cases inside : one.depth ≤ one.maxDepth
  · have first : one.checkDepth s = .ok () := if_pos inside
    have second : two.checkDepth t = .ok () := if_pos (beside.depth ▸ Nat.le_trans inside beside.raised)
    rw [first, second]
    exact .kept _
  · have beyond : one.checkDepth s = refuse ("schema nesting exceeds the limit of " ++ toString one.maxDepth) s.location :=
      if_neg inside
    rw [beyond]
    exact .stopped (sound.ceiling _ ⟨one.maxDepth, _, rfl⟩)

theorem lowerCalls_alike (below : ∀ s t, s.Alike k.likeness t → k.Matches (low · s) (high · t)) {chain other : Chain}
    (alike : chain.Alike k.likeness other) (known : ∀ base, chain.base? = some base → ∀ name, base.Enumerates name → k.known name) :
    k.Matches (lowerCalls low · chain) (lowerCalls high · other) := by
  intro one two beside
  have root := lowerRoot_alike sound below alike.root (fun base coerce factory => known base (by rw [Chain.base?, factory]))
    _ _ beside
  refine root.bind fun node => ?_
  exact (KeptUnless.foldlM₂ (alike.calls.imp fun _ _ call state => apply_alike sound below call state _ _ beside) _).bind
    fun state => .kept _

theorem lowerOver_chain (alike : s.Alike k.likeness t)
    (chains : ∀ chain other, k.bindings.chain? s = some chain → chain.Alike k.likeness other →
      k.Matches (lowerCalls low · chain) (lowerCalls high · other)) :
    k.Matches (lowerOver low · s) (lowerOver high · t) := by
  intro one two beside
  refine (checkDepth_alike sound s t _ _ beside).bind fun _ => ?_
  rw [beside.first, beside.second]
  have rel := Bindings.chain?_alike (b := k.bindings) alike
  generalize k.bindings.chain? s = first at rel chains
  generalize k.bindings.chain? t = second at rel
  cases rel with
  | none =>
    rcases sound.excuses with exact | all
    · exact .of_eq (by simp only [Site.text, alike.tree_eq exact, alike.location exact])
    · exact .stopped (all _)
  | some same => exact chains _ _ rfl same _ _ beside

theorem lowerOver_alike (below : ∀ s t, s.Alike k.likeness t → k.Matches (low · s) (high · t))
    (alike : s.Alike k.likeness t) : k.Matches (lowerOver low · s) (lowerOver high · t) := by
  refine lowerOver_chain sound alike fun chain other found same => lowerCalls_alike sound below same ?_
  intro base factory name enumerates
  exact (alike.inside s (Site.mem_preorder_self s)).2 name ⟨base, by rw [found]; exact factory, enumerates⟩

theorem lowerWithin_alike (deeper : levels ≤ more) (alike : s.Alike k.likeness t) :
    k.Matches (lowerWithin levels · s) (lowerWithin more · t) := by
  induction levels generalizing more s t with
  | zero => exact fun one _ _ => .stopped (sound.ceiling _ ⟨one.maxDepth, _, rfl⟩)
  | succ levels ih =>
    obtain ⟨more, rfl⟩ := Nat.exists_eq_add_one.mpr (Nat.lt_of_lt_of_le (Nat.succ_pos _) deeper)
    exact lowerOver_alike sound (fun _ _ => ih (Nat.le_of_succ_le_succ deeper)) alike

omit sound

def Context.under (cx : Context) (ceiling : Nat) : Context := { cx with maxDepth := ceiling }

def raising (b : Bindings) : Comparison :=
  { places := Eq, bindings := b, known := fun _ => True, stops := Refusal.BeyondCeiling }

theorem raising_sound (b : Bindings) : (raising b).Sound := ⟨.inl fun _ _ same => same, fun _ beyond => beyond⟩

theorem raising_beside (cx : Context) (raised : lower ≤ higher) :
    (raising cx.bindings).Beside (cx.under lower) (cx.under higher) :=
  ⟨rfl, rfl, rfl, raised, fun _ _ => rfl⟩

theorem lowerWithin_raised (raised : lower ≤ higher) (deeper : levels ≤ more) (cx : Context)
    (alike : s.Alike (raising cx.bindings).likeness t) :
    KeptUnless Refusal.BeyondCeiling (lowerWithin levels (cx.under lower) s) (lowerWithin more (cx.under higher) t) :=
  lowerWithin_alike (raising_sound cx.bindings) deeper alike _ _ (raising_beside cx raised)

theorem lowerExpression_raised (raised : lower ≤ higher) (cx : Context) (s : Site) :
    KeptUnless Refusal.BeyondCeiling (lowerExpression (cx.under lower) s) (lowerExpression (cx.under higher) s) :=
  lowerWithin_raised raised (Nat.le_refl _) cx (.refl (fun _ => rfl) s fun _ _ => ⟨trivial, fun _ _ => trivial⟩)

end Builder
end SchemaAtlas
