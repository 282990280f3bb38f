import Mathlib.Data.List.Pairwise
import SchemaAtlas.Proofs.LoweringSteps
import SchemaAtlas.Proofs.NumberValues

namespace SchemaAtlas
namespace Builder

-- Calls that bound a number or a length: what each of them asks for, and what a row of
-- them leaves on a node.

-- A keyword that bounds something: what a node says there, what a call asks for there, and
-- what that means.
structure Slot (α X : Type) where
  kept : Keywords → Option α
  asked : Call → Option α
  Allows : α → X → Prop

-- The slots for one kind of subject. `without` is what keywords say beside them.
structure Slots (α X : Type) where
  list : List (Slot α X)
  without : Keywords → Keywords
  typed : ∀ k, (without k).type = k.type := by intro k; rfl

namespace Slots

variable {α X : Type}

def Allow (slots : Slots α X) (k : Keywords) (x : X) : Prop := ∀ slot ∈ slots.list, ∀ v ∈ slot.kept k, slot.Allows v x

def Ask (slots : Slots α X) (call : Call) (x : X) : Prop := ∀ slot ∈ slots.list, ∀ v ∈ slot.asked call, slot.Allows v x

def Bounding (slots : Slots α X) (call : Call) : Prop := ∃ slot ∈ slots.list, (slot.asked call).isSome = true

def Tightens (slots : Slots α X) (earlier later : Call) : Prop :=
  ∀ slot ∈ slots.list, ∀ v ∈ slot.asked earlier, ∀ w ∈ slot.asked later, ∀ x, slot.Allows w x → slot.Allows v x

end Slots

-- Numbers. The value of a literal is that of the nearest double.

def Call.bound? (call : Call) : Option (Bound × Double) :=
  let asked := (call.argument? 0).bind Argument.double?
  match call.name with
  | "min" | "gte" => asked.map (.minimum, ·)
  | "max" | "lte" => asked.map (.maximum, ·)
  | "gt" => asked.map (.exclusiveMinimum, ·)
  | "lt" => asked.map (.exclusiveMaximum, ·)
  | "nonnegative" => some (.minimum, .zero false)
  | "nonpositive" => some (.maximum, .zero false)
  | "positive" => some (.exclusiveMinimum, .zero false)
  | "negative" => some (.exclusiveMaximum, .zero false)
  | _ => none

def Call.boundAs? (bound : Bound) (call : Call) : Option Double :=
  call.bound?.bind fun (own, v) => if own = bound then some v else none

def numbers : Slots Double ℚ where
  list := [
    { kept := Keywords.minimum, asked := Call.boundAs? .minimum, Allows := fun low x => low.value ≤ x },
    { kept := Keywords.maximum, asked := Call.boundAs? .maximum, Allows := fun high x => x ≤ high.value },
    { kept := Keywords.exclusiveMinimum, asked := Call.boundAs? .exclusiveMinimum, Allows := fun low x => low.value < x },
    { kept := Keywords.exclusiveMaximum, asked := Call.boundAs? .exclusiveMaximum, Allows := fun high x => x < high.value }]
  without k := { k with minimum := none, maximum := none, exclusiveMinimum := none, exclusiveMaximum := none }

def Call.length? (call : Call) : Option (LengthBound × Nat) :=
  let asked := (call.argument? 0).bind Argument.count?
  match call.name with
  | "min" => asked.map (.least, ·)
  | "max" => asked.map (.most, ·)
  | "length" => asked.map (.exact, ·)
  | "nonempty" => some (.least, 1)
  | _ => none

def Call.least? (call : Call) : Option Nat :=
  call.length?.bind fun (own, v) => if own = .most then none else some v

def Call.most? (call : Call) : Option Nat :=
  call.length?.bind fun (own, v) => if own = .least then none else some v

def texts : Slots Nat Nat where
  list := [
    { kept := Keywords.minLength, asked := Call.least?, Allows := fun least n => least ≤ n },
    { kept := Keywords.maxLength, asked := Call.most?, Allows := fun most n => n ≤ most }]
  without k := { k with minLength := none, maxLength := none }

def lists : Slots Nat Nat where
  list := [
    { kept := Keywords.minItems, asked := Call.least?, Allows := fun least n => least ≤ n },
    { kept := Keywords.maxItems, asked := Call.most?, Allows := fun most n => n ≤ most }]
  without k := { k with minItems := none, maxItems := none }

-- What calls leave: nothing else changes, and each slot holds what the last call for it asks.
structure Slots.Left (slots : Slots α X) (calls : List Call) (before after : State) : Prop where
  beside : after = { before with node := withKeywords before.node after.node.keywords } ∧
    slots.without after.node.keywords = slots.without before.node.keywords
  last : ∀ slot ∈ slots.list, slot.kept after.node.keywords =
    (calls.filterMap slot.asked).getLast?.or (slot.kept before.node.keywords)

variable {α X : Type} {slots : Slots α X} {slot : Slot α X} {lower : Lower} {cx : Context}
  {s next ended : State}
  {n node : SchemaNode} {call : Call} {calls : List Call} {k : Keywords}

theorem exists_asked (listed : v ∈ (calls.filterMap slot.asked).getLast?) : ∃ call ∈ calls, v ∈ slot.asked call := by
  obtain ⟨call, inside, asked⟩ := List.mem_filterMap.mp (List.mem_of_getLast? listed)
  exact ⟨call, inside, asked⟩

theorem Slots.Left.allow (left : slots.Left calls s next) (before : slots.Allow s.node.keywords x)
    (all : ∀ call ∈ calls, slots.Ask call x) : slots.Allow next.node.keywords x := by
  intro slot listed v kept
  rw [Option.mem_def, left.last slot listed] at kept
  rcases Option.or_eq_some_iff.mp kept with given | ⟨_, old⟩
  · obtain ⟨call, inside, asked⟩ := exists_asked given
    exact all call inside slot listed v asked
  · exact before slot listed v old

theorem Slots.Left.allow_iff (left : slots.Left calls s next) (before : slots.Allow s.node.keywords x)
    (tightens : calls.Pairwise slots.Tightens) :
    (∀ call ∈ calls, slots.Ask call x) ↔ slots.Allow next.node.keywords x := by
  refine ⟨left.allow before, fun allowed call inside slot listed v asked => ?_⟩
  have given : v ∈ calls.filterMap slot.asked := List.mem_filterMap.mpr ⟨call, inside, asked⟩
  have ordered : (calls.filterMap slot.asked).Pairwise fun v w => slot.Allows w x → slot.Allows v x :=
    List.pairwise_filterMap.mpr (tightens.imp fun keeps v asked w later => keeps slot listed v asked w later x)
  refine ordered.rel_getLast_of_rel_getLast_getLast given id (allowed slot listed _ ?_)
  rw [Option.mem_def, left.last slot listed, List.getLast?_eq_some_getLast (List.ne_nil_of_mem given), Option.some_or]

theorem Slots.Left.refl (slots : Slots α X) (s : State) : slots.Left [] s s := by
  obtain ⟨⟨keywords, parts, reference, metadata⟩, optional, nullable⟩ := s
  exact ⟨⟨rfl, rfl⟩, fun _ _ => rfl⟩

theorem Slots.Left.cons (first : slots.Left [call] s next) (later : slots.Left calls next ended) :
    slots.Left (call :: calls) s ended := by
  refine ⟨⟨?_, later.beside.2.trans first.beside.2⟩, fun slot listed => ?_⟩
  · rw [later.beside.1, first.beside.1]
    rfl
  · rw [later.last slot listed, first.last slot listed, ← Option.or_assoc, ← List.getLast?_append,
      ← List.filterMap_append, List.singleton_append]

theorem Slots.Left.type (left : slots.Left calls s next) : next.node.keywords.type = s.node.keywords.type := by
  rw [← slots.typed, left.beside.2, slots.typed]

theorem exists_left {P : Option SchemaType → Prop}
    (step : ∀ s : State, P s.node.keywords.type → ∀ call, slots.Bounding call →
      ∃ next, apply lower cx s call = .ok next ∧ slots.Left [call] s next)
    (typed : P s.node.keywords.type) (bounding : ∀ call ∈ calls, slots.Bounding call) :
    ∃ next, calls.foldlM (apply lower cx) s = .ok next ∧ slots.Left calls s next := by
  induction calls generalizing s with
  | nil => exact ⟨s, rfl, .refl slots s⟩
  | cons call rest ih =>
    obtain ⟨own, later⟩ := List.forall_mem_cons.mp bounding
    obtain ⟨next, applied, first⟩ := step s typed call own
    obtain ⟨ended, all, left⟩ := ih (by rwa [first.type]) later
    refine ⟨ended, ?_, first.cons left⟩
    rw [List.foldlM_cons, applied]
    exact all

theorem firstDouble_ok (given : (call.argument? 0).bind Argument.double? = some v) : call.firstDouble = .ok v := by
  obtain ⟨a, first, value⟩ := Option.bind_eq_some_iff.mp given
  simp [Call.firstDouble, Call.first, first, value, bind, Except.bind, pure, Except.pure]

theorem firstCount_ok (given : (call.argument? 0).bind Argument.count? = some v) : call.firstCount = .ok v := by
  obtain ⟨a, first, value⟩ := Option.bind_eq_some_iff.mp given
  simp [Call.firstCount, Call.first, first, value, bind, Except.bind, pure, Except.pure]

theorem constrainNumber_bound (asks : call.bound? = some (bound, v)) :
    call.name ∉ generalMethods ∧ bound ≠ .multipleOf ∧
      constrainNumber n call = .ok (some (withKeywords n (bound.set v n.keywords))) := by
  have literal (method : Bound.ofMethod? call.name = some bound)
      (asked : (call.argument? 0).bind Argument.double? = some v) :
      constrainNumber n call = .ok (some (withKeywords n (bound.set v n.keywords))) := by
    simp [constrainNumber, method, firstDouble_ok asked, bind, Except.bind, pure, Except.pure]
  have sign (other : Bound.ofMethod? call.name = none) (method : Bound.ofSignMethod? call.name = some bound)
      (zero : v = .zero false) : constrainNumber n call = .ok (some (withKeywords n (bound.set v n.keywords))) := by
    simp [constrainNumber, other, method, zero, pure, Except.pure]
  unfold Call.bound? at asks
  dsimp only at asks
  split at asks
  case h_11 => cases asks
  case h_7 | h_8 | h_9 | h_10 =>
    rename_i named
    cases asks
    rw [named] at sign ⊢
    exact ⟨by decide, by decide, sign rfl rfl rfl⟩
  all_goals
    rename_i named
    obtain ⟨value, asked, same⟩ := Option.map_eq_some_iff.mp asks
    cases same
    rw [named] at literal ⊢
    exact ⟨by decide, by decide, literal rfl asked⟩

theorem Slots.left_single (beside : slots.without k = slots.without s.node.keywords)
    (settled : ∀ slot ∈ slots.list, slot.kept k = (slot.asked call).or (slot.kept s.node.keywords)) :
    slots.Left [call] s { s with node := withKeywords s.node k } := by
  refine ⟨⟨rfl, beside⟩, fun slot listed => ?_⟩
  rw [withKeywords, settled slot listed, List.filterMap_cons]
  cases slot.asked call <;> rfl

theorem left_number (asks : call.bound? = some (bound, v)) (plain : bound ≠ .multipleOf) :
    numbers.Left [call] s { s with node := withKeywords s.node (bound.set v s.node.keywords) } := by
  refine Slots.left_single ?_ ?_
  · cases bound <;> first | rfl | exact absurd rfl plain
  · simp only [numbers, List.forall_mem_cons, Call.boundAs?, asks, Option.bind_some]
    cases bound <;> simp [Bound.set]

theorem length?_some (asks : call.length? = some (bound, v)) :
    call.name ∉ generalMethods ∧ (LengthBound.ofMethod? call.name = some bound ∧ call.firstCount = .ok v ∨
      call.name = "nonempty" ∧ bound = .least ∧ v = 1) := by
  unfold Call.length? at asks
  dsimp only at asks
  split at asks
  case h_5 => cases asks
  case h_4 =>
    rename_i named
    cases asks
    exact ⟨by rw [named]; decide, .inr ⟨named, rfl, rfl⟩⟩
  all_goals
    rename_i named
    obtain ⟨value, asked, same⟩ := Option.map_eq_some_iff.mp asks
    cases same
    exact ⟨by rw [named]; decide, .inl ⟨by rw [named]; rfl, firstCount_ok asked⟩⟩

theorem constrainText_length (asks : call.length? = some (bound, v)) :
    ∃ k, constrainText s.node call = .ok (some (withKeywords s.node k)) ∧
      texts.Left [call] s { s with node := withKeywords s.node k } := by
  refine ⟨{ s.node.keywords with
    minLength := (bound.set v (s.node.keywords.minLength, s.node.keywords.maxLength)).1
    maxLength := (bound.set v (s.node.keywords.minLength, s.node.keywords.maxLength)).2 }, ?_, Slots.left_single rfl ?_⟩
  · rcases (length?_some asks).2 with ⟨method, count⟩ | ⟨named, rfl, rfl⟩
    · simp [constrainText, method, count, bind, Except.bind, pure, Except.pure]
    · simp [constrainText, named, LengthBound.ofMethod?, LengthBound.set, List.lookup_cons, pure, Except.pure]
  · simp only [texts, List.forall_mem_cons, Call.least?, Call.most?, asks, Option.bind_some]
    cases bound <;> simp [LengthBound.set]

theorem constrainArray_length (asks : call.length? = some (bound, v)) :
    ∃ k, constrainArray s.node call = .ok (some (withKeywords s.node k)) ∧
      lists.Left [call] s { s with node := withKeywords s.node k } := by
  refine ⟨{ s.node.keywords with
    minItems := (bound.set v (s.node.keywords.minItems, s.node.keywords.maxItems)).1
    maxItems := (bound.set v (s.node.keywords.minItems, s.node.keywords.maxItems)).2 }, ?_, Slots.left_single rfl ?_⟩
  · rcases (length?_some asks).2 with ⟨method, count⟩ | ⟨named, rfl, rfl⟩
    · simp [constrainArray, method, count, bind, Except.bind, pure, Except.pure]
    · simp [constrainArray, named, LengthBound.ofMethod?, LengthBound.set, List.lookup_cons, pure, Except.pure]
  · simp only [lists, List.forall_mem_cons, Call.least?, Call.most?, asks, Option.bind_some]
    cases bound <;> simp [LengthBound.set]

theorem apply_constrained (other : call.name ∉ generalMethods) (constrained : constrain s.node call = .ok (some node)) :
    apply lower cx s call = .ok { s with node := node } := by
  simp [apply, applyGeneral_none other, constrained, bind, Except.bind, pure, Except.pure]

theorem exists_bound (bounding : numbers.Bounding call) : ∃ bound v, call.bound? = some (bound, v) := by
  obtain ⟨slot, listed, asks⟩ := bounding
  cases given : call.bound? with
  | none =>
    have silent : ∀ slot ∈ numbers.list, slot.asked call = none := by simp [numbers, Call.boundAs?, given]
    rw [silent slot listed] at asks
    cases asks
  | some asked => exact ⟨asked.1, asked.2, rfl⟩

theorem apply_number (typed : s.node.keywords.type = some .number ∨ s.node.keywords.type = some .integer)
    (bounding : numbers.Bounding call) : ∃ next, apply lower cx s call = .ok next ∧ numbers.Left [call] s next := by
  obtain ⟨bound, v, asks⟩ := exists_bound bounding
  obtain ⟨other, plain, constrained⟩ := constrainNumber_bound asks
  refine ⟨_, apply_constrained other ?_, left_number asks plain⟩
  unfold constrain
  rcases typed with type | type <;> rw [type] <;> exact constrained

theorem exists_length (bounding : texts.Bounding call ∨ lists.Bounding call) : ∃ bound v, call.length? = some (bound, v) := by
  cases given : call.length? with
  | none =>
    have silent : (∀ slot ∈ texts.list, slot.asked call = none) ∧ ∀ slot ∈ lists.list, slot.asked call = none := by
      simp [texts, lists, Call.least?, Call.most?, given]
    rcases bounding with ⟨slot, listed, asks⟩ | ⟨slot, listed, asks⟩
    · rw [silent.1 slot listed] at asks
      cases asks
    · rw [silent.2 slot listed] at asks
      cases asks
  | some asked => exact ⟨asked.1, asked.2, rfl⟩

theorem apply_text (typed : s.node.keywords.type = some .string) (bounding : texts.Bounding call) :
    ∃ next, apply lower cx s call = .ok next ∧ texts.Left [call] s next := by
  obtain ⟨bound, v, asks⟩ := exists_length (.inl bounding)
  obtain ⟨k, constrained, left⟩ := constrainText_length asks
  refine ⟨_, apply_constrained (length?_some asks).1 ?_, left⟩
  rw [constrain, typed]
  exact constrained

theorem apply_list (typed : s.node.keywords.type = some .array) (bounding : lists.Bounding call) :
    ∃ next, apply lower cx s call = .ok next ∧ lists.Left [call] s next := by
  obtain ⟨bound, v, asks⟩ := exists_length (.inr bounding)
  obtain ⟨k, constrained, left⟩ := constrainArray_length asks
  refine ⟨_, apply_constrained (length?_some asks).1 ?_, left⟩
  rw [constrain, typed]
  exact constrained

-- A row of calls succeeds, and what it leaves follows from the calls: a value that every call
-- allows is allowed by the node, and the other way round where no call weakens an earlier one.
structure Slots.Bounds (slots : Slots α X) (lower : Lower) (cx : Context) (calls : List Call) (s next : State) : Prop where
  runs : calls.foldlM (apply lower cx) s = .ok next
  left : slots.Left calls s next
  sound : ∀ x, slots.Allow s.node.keywords x → (∀ call ∈ calls, slots.Ask call x) → slots.Allow next.node.keywords x
  exact : ∀ x, slots.Allow s.node.keywords x → calls.Pairwise slots.Tightens →
    ((∀ call ∈ calls, slots.Ask call x) ↔ slots.Allow next.node.keywords x)

theorem exists_bounds {P : Option SchemaType → Prop}
    (step : ∀ s : State, P s.node.keywords.type → ∀ call, slots.Bounding call →
      ∃ next, apply lower cx s call = .ok next ∧ slots.Left [call] s next)
    (typed : P s.node.keywords.type) (bounding : ∀ call ∈ calls, slots.Bounding call) :
    ∃ next, slots.Bounds lower cx calls s next := by
  obtain ⟨next, runs, left⟩ := exists_left step typed bounding
  exact ⟨next, runs, left, fun _ => left.allow, fun _ => left.allow_iff⟩

-- Calls that bound a node, in whatever number and order.
theorem bounding_calls (lower : Lower) (cx : Context) (s : State) (calls : List Call) :
    (s.node.keywords.type = some .number ∨ s.node.keywords.type = some .integer →
      (∀ call ∈ calls, numbers.Bounding call) → ∃ next, numbers.Bounds lower cx calls s next) ∧
    (s.node.keywords.type = some .string → (∀ call ∈ calls, texts.Bounding call) →
      ∃ next, texts.Bounds lower cx calls s next) ∧
    (s.node.keywords.type = some .array → (∀ call ∈ calls, lists.Bounding call) →
      ∃ next, lists.Bounds lower cx calls s next) := by
  refine ⟨fun typed bounding => ?_, fun typed bounding => ?_, fun typed bounding => ?_⟩
  · exact exists_bounds (P := fun type => type = some .number ∨ type = some .integer)
      (fun _ typed _ bounding => apply_number typed bounding) typed bounding
  · exact exists_bounds (P := (· = some .string)) (fun _ typed _ bounding => apply_text typed bounding) typed bounding
  · exact exists_bounds (P := (· = some .array)) (fun _ typed _ bounding => apply_list typed bounding) typed bounding

def literalCall (method : String) (n : Int) : Call :=
  { name := method, arguments := [{ site := default, value := some (.number (.whole n)) }], location := .start }

def bareContext : Context := { bindings := {}, root := default, maxDepth := 0 }

-- Two bounds that rise, a length that is fixed at last, and lists that are not empty.
theorem bounding_calls_rising :
    (∃ next, numbers.Bounds (lowerWithin 0) bareContext [literalCall "nonnegative" 0, literalCall "min" 5]
      (.start (.ofType .integer)) next) ∧
    (∃ next, texts.Bounds (lowerWithin 0) bareContext [literalCall "max" 9, literalCall "length" 4]
      (.start (.ofType .string)) next) ∧
    ∃ next, lists.Bounds (lowerWithin 0) bareContext [literalCall "nonempty" 0, literalCall "max" 3]
      (.start (.ofType .array)) next := by
  refine ⟨(bounding_calls _ _ _ _).1 (.inr rfl) ?_, (bounding_calls _ _ _ _).2.1 rfl ?_, (bounding_calls _ _ _ _).2.2 rfl ?_⟩
  · exact List.forall_mem_cons.mpr ⟨⟨_, List.mem_cons_self, rfl⟩,
      List.forall_mem_singleton.mpr ⟨_, List.mem_cons_self, rfl⟩⟩
  · exact List.forall_mem_cons.mpr ⟨⟨_, List.mem_cons_of_mem _ List.mem_cons_self, rfl⟩,
      List.forall_mem_singleton.mpr ⟨_, List.mem_cons_self, rfl⟩⟩
  · exact List.forall_mem_cons.mpr ⟨⟨_, List.mem_cons_self, rfl⟩,
      List.forall_mem_singleton.mpr ⟨_, List.mem_cons_of_mem _ List.mem_cons_self, rfl⟩⟩

-- A second, lower minimum takes the place of the first one, and lets 4 through.
theorem bounding_calls_weakened : ∃ next,
    [literalCall "min" 5, literalCall "min" 3].foldlM (apply (lowerWithin 0) bareContext) (.start (.ofType .integer)) =
      .ok next ∧
    ¬ ((∀ call ∈ [literalCall "min" 5, literalCall "min" 3], numbers.Ask call 4) ↔
      numbers.Allow next.node.keywords 4) := by
  refine ⟨_, rfl, fun both => ?_⟩
  have allowed : numbers.Allow { type := some .integer, minimum := some (Double.ofInt 3) } 4 := by
    have low : (Double.ofInt 3).value ≤ 4 := by
      rw [Double.value_ofInt (by decide)]
      norm_num
    simpa [numbers, Slots.Allow] using low
  have asked : (Double.ofInt 5).value ≤ 4 := both.mpr allowed _ List.mem_cons_self _ List.mem_cons_self _ rfl
  rw [Double.value_ofInt (by decide)] at asked
  norm_num at asked

end Builder
end SchemaAtlas
