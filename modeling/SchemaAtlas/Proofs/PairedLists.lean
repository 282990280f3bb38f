import Mathlib.Data.List.Forall2

namespace SchemaAtlas

-- What is taken out of two lists, or two options, in step.

variable {R : α → β → Prop} {items : List α} {others : List β} {a? : Option α} {b? : Option β}

theorem forall₂_getElem? (each : List.Forall₂ R items others) (index : Nat) : Option.Rel R items[index]? others[index]? := by
  induction each generalizing index with
  | nil => exact .none
  | cons here _ ih =>
    cases index with
    | zero => exact .some here
    | succ index => exact ih index

theorem forall₂_head? (each : List.Forall₂ R items others) : Option.Rel R items.head? others.head? := by
  cases each with
  | nil => exact .none
  | cons here _ => exact .some here

theorem forall₂_getLast? (each : List.Forall₂ R items others) : Option.Rel R items.getLast? others.getLast? := by
  rw [List.getLast?_eq_getElem?, List.getLast?_eq_getElem?, each.length_eq]
  exact forall₂_getElem? each _

theorem forall₂_find? {p : α → Bool} {q : β → Bool} (same : ∀ a b, R a b → q b = p a) (each : List.Forall₂ R items others) :
    Option.Rel R (items.find? p) (others.find? q) := by
  induction each with
  | nil => exact .none
  | cons here _ ih =>
    rw [List.find?_cons, List.find?_cons, same _ _ here]
    split
    · exact .some here
    · exact ih

theorem forall₂_filter {p : α → Bool} {q : β → Bool} (same : ∀ a b, R a b → q b = p a) (each : List.Forall₂ R items others) :
    List.Forall₂ R (items.filter p) (others.filter q) := by
  induction each with
  | nil => exact .nil
  | cons here _ ih =>
    rw [List.filter_cons, List.filter_cons, same _ _ here]
    split
    · exact .cons here ih
    · exact ih

theorem forall₂_map_eq {f : α → γ} {g : β → γ} (same : ∀ a b, R a b → g b = f a) (each : List.Forall₂ R items others) :
    others.map g = items.map f := by
  induction each with
  | nil => rfl
  | cons here _ ih => rw [List.map_cons, List.map_cons, same _ _ here, ih]

theorem forall₂_any {p : α → Bool} {q : β → Bool} (same : ∀ a b, R a b → q b = p a) (each : List.Forall₂ R items others) :
    others.any q = items.any p := by
  simpa [List.any_map] using congrArg (List.any · id) (forall₂_map_eq same each)

theorem forall₂_foldl_eq {f : γ → α → γ} {g : γ → β → γ} (same : ∀ a b, R a b → ∀ c, g c b = f c a)
    (each : List.Forall₂ R items others) (start : γ) : others.foldl g start = items.foldl f start := by
  induction each generalizing start with
  | nil => rfl
  | cons here _ ih => rw [List.foldl_cons, List.foldl_cons, same _ _ here, ih]

theorem forall₂_mem (each : List.Forall₂ R items others) (listed : a ∈ items) : ∃ b ∈ others, R a b := by
  induction each with
  | nil => cases listed
  | cons here _ ih =>
    rcases List.mem_cons.mp listed with rfl | later
    · exact ⟨_, List.mem_cons_self, here⟩
    · obtain ⟨b, inside, same⟩ := ih later
      exact ⟨b, List.mem_cons_of_mem _ inside, same⟩

theorem forall₂_flatMap {P : γ → δ → Prop} {f : α → List γ} {g : β → List δ}
    (inner : ∀ a b, R a b → List.Forall₂ P (f a) (g b)) (each : List.Forall₂ R items others) :
    List.Forall₂ P (items.flatMap f) (others.flatMap g) :=
  List.rel_flatMap each fun a b here => inner a b here

theorem forall₂_and_map_eq {f : α → γ} {g : β → γ} (each : List.Forall₂ R items others) (same : others.map g = items.map f) :
    List.Forall₂ (fun a b => R a b ∧ g b = f a) items others := by
  induction each with
  | nil => exact .nil
  | cons here _ ih =>
    obtain ⟨own, rest⟩ := List.cons.inj same
    exact .cons ⟨here, own⟩ (ih rest)

theorem rel_map_eq {f : α → γ} {g : β → γ} (same : ∀ a b, R a b → g b = f a) (rel : Option.Rel R a? b?) : b?.map g = a?.map f := by
  cases rel with
  | none => rfl
  | some here => exact congrArg some (same _ _ here)

theorem rel_any {p : α → Bool} {q : β → Bool} (same : ∀ a b, R a b → q b = p a) (rel : Option.Rel R a? b?) :
    b?.any q = a?.any p := by
  simpa [Option.any_map] using congrArg (Option.any id) (rel_map_eq same rel)

theorem rel_bind_eq {f : α → Option γ} {g : β → Option γ} (same : ∀ a b, R a b → g b = f a) (rel : Option.Rel R a? b?) :
    b?.bind g = a?.bind f := by
  cases rel with
  | none => rfl
  | some here => exact same _ _ here

theorem mapM_some {P : α → γ → Prop} {f : β → Option γ}
    (each : List.Forall₂ (fun a b => ∃ c, f b = some c ∧ P a c) items others) :
    ∃ found, others.mapM f = some found ∧ List.Forall₂ P items found := by
  induction each with
  | nil => exact ⟨[], rfl, .nil⟩
  | cons own _ ih =>
    obtain ⟨w, here, related⟩ := own
    obtain ⟨ws, all, others⟩ := ih
    exact ⟨w :: ws, by rw [List.mapM_cons, here, all]; rfl, .cons related others⟩

end SchemaAtlas
