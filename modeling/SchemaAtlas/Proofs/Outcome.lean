import Mathlib.Data.List.Forall2
import SchemaAtlas.Emission.Boundary

namespace SchemaAtlas

-- When a sequence of checked steps succeeds, and with what.

theorem bind_ok {x : Except ε α} {f : α → Except ε β} : (x >>= f) = .ok b ↔ ∃ a, x = .ok a ∧ f a = .ok b := by
  cases x with
  | error e => simp [bind, Except.bind]
  | ok a => simp [bind, Except.bind]

theorem check_ok {x : Except ε Unit} {f : Unit → Except ε β} : (x >>= f) = .ok b ↔ x = .ok () ∧ f () = .ok b :=
  bind_ok.trans ⟨fun ⟨_, checked, later⟩ => ⟨checked, later⟩, fun ⟨checked, later⟩ => ⟨(), checked, later⟩⟩

@[simp] theorem throw_ne_ok {e : ε} {a : α} : (throw e : Except ε α) ≠ .ok a := by
  simp [throw, throwThe, MonadExceptOf.throw]

theorem map_ok {x : Except ε α} {f : α → β} : x.map f = .ok b ↔ ∃ a, x = .ok a ∧ f a = b := by
  cases x with
  | error e => simp [Except.map]
  | ok a => simp [Except.map]

theorem require_ok {failure : Failure} : require condition failure = .ok () ↔ condition = true := by
  unfold require
  cases condition <;> simp

theorem forM_ok {items : List α} {check : α → Except ε Unit} :
    items.forM check = .ok () ↔ ∀ item ∈ items, check item = .ok () := by
  induction items with
  | nil => simp [List.forM, pure, Except.pure]
  | cons first rest ih =>
    change (check first >>= fun _ => rest.forM check) = .ok () ↔ _
    rw [check_ok, List.forall_mem_cons, ih]

theorem mapM_ok {read : α → Except ε β} {items : List α} {results : List β} :
    items.mapM read = .ok results ↔ List.Forall₂ (fun item result => read item = .ok result) items results := by
  induction items generalizing results with
  | nil =>
    rw [List.mapM_nil, List.forall₂_nil_left_iff]
    exact ⟨fun same => by cases same; rfl, fun same => by rw [same]; rfl⟩
  | cons first rest ih =>
    rw [List.mapM_cons, bind_ok, List.forall₂_cons_left_iff]
    constructor
    · rintro ⟨one, readOne, later⟩
      obtain ⟨all, readAll, same⟩ := bind_ok.mp later
      cases same
      exact ⟨one, all, readOne, ih.mp readAll, rfl⟩
    · rintro ⟨one, all, readOne, readAll, rfl⟩
      exact ⟨one, readOne, bind_ok.mpr ⟨all, ih.mpr readAll, rfl⟩⟩

theorem exists_of_forall₂ {R : α → β → Prop} (both : List.Forall₂ R items results) (listed : result ∈ results) :
    ∃ item ∈ items, R item result := by
  induction both with
  | nil => cases listed
  | cons one _ ih =>
    rcases List.mem_cons.mp listed with rfl | later
    · exact ⟨_, List.mem_cons_self, one⟩
    · obtain ⟨item, inside, same⟩ := ih later
      exact ⟨item, List.mem_cons_of_mem _ inside, same⟩

theorem mapM_mem {items : List α} {read : α → Except ε β} (accepted : items.mapM read = .ok results)
    (listed : result ∈ results) : ∃ item ∈ items, read item = .ok result :=
  exists_of_forall₂ (R := fun item result => read item = .ok result) (mapM_ok.mp accepted) listed

theorem foldlM_keeps {P : β → Prop} {items : List α} {step : β → α → Except ε β} (before : P start)
    (keeps : ∀ item ∈ items, ∀ state next, P state → step state item = .ok next → P next)
    (accepted : items.foldlM step start = .ok last) : P last := by
  induction items generalizing start with
  | nil =>
    cases accepted
    exact before
  | cons first rest ih =>
    rw [List.foldlM_cons] at accepted
    obtain ⟨next, one, accepted⟩ := bind_ok.mp accepted
    obtain ⟨own, later⟩ := List.forall_mem_cons.mp keeps
    exact ih (own _ _ before one) later accepted

end SchemaAtlas
