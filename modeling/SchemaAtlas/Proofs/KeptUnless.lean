import Mathlib.Data.List.Forall2
import SchemaAtlas.Proofs.Outcome

namespace SchemaAtlas

-- Two runs of one computation, of which the second is held to less: it ends as the first one
-- does, with the same result or the same failure, unless the first one was stopped.
inductive KeptUnless (stops : ε → Prop) : Except ε α → Except ε α → Prop where
  | kept (x : Except ε α) : KeptUnless stops x x
  | stopped {e : ε} {y : Except ε α} : stops e → KeptUnless stops (.error e) y

namespace KeptUnless

variable {stops : ε → Prop} {x y : Except ε α}

theorem of_eq (same : x = y) : KeptUnless stops x y := same ▸ .kept x

theorem eq_of_not_stopped (keeps : KeptUnless stops x y) (through : ∀ e, stops e → x ≠ .error e) : y = x := by
  cases keeps with
  | kept x => rfl
  | stopped stop => exact absurd rfl (through _ stop)

theorem ok (keeps : KeptUnless stops x y) (given : x = .ok a) : y = .ok a := by
  cases keeps with
  | kept x => exact given
  | stopped stop => cases given

theorem bind {f g : α → Except ε β} (first : KeptUnless stops x y) (next : ∀ a, KeptUnless stops (f a) (g a)) :
    KeptUnless stops (x >>= f) (y >>= g) := by
  cases first with
  | kept x =>
    cases x with
    | error e => exact .kept _
    | ok a => exact next a
  | stopped stop => exact .stopped stop

theorem after (x : Except ε α) {f g : α → Except ε β} (next : ∀ a, KeptUnless stops (f a) (g a)) :
    KeptUnless stops (x >>= f) (x >>= g) := (KeptUnless.kept x).bind next

theorem map (keeps : KeptUnless stops x y) (f : α → β) : KeptUnless stops (x.map f) (y.map f) := by
  cases keeps with
  | kept x => exact .kept _
  | stopped stop => exact .stopped stop

theorem mapM₂ {f : α → Except ε γ} {g : β → Except ε γ} {items : List α} {others : List β}
    (each : List.Forall₂ (fun a b => KeptUnless stops (f a) (g b)) items others) :
    KeptUnless stops (items.mapM f) (others.mapM g) := by
  induction each with
  | nil => exact .kept _
  | cons here _ ih =>
    rw [List.mapM_cons, List.mapM_cons]
    exact here.bind fun one => ih.bind fun all => .kept _

theorem mapM {f g : α → Except ε β} {items : List α} (each : ∀ item ∈ items, KeptUnless stops (f item) (g item)) :
    KeptUnless stops (items.mapM f) (items.mapM g) :=
  mapM₂ (List.forall₂_same.mpr each)

theorem foldlM₂ {f : γ → α → Except ε γ} {g : γ → β → Except ε γ} {items : List α} {others : List β}
    (each : List.Forall₂ (fun a b => ∀ state, KeptUnless stops (f state a) (g state b)) items others) (start : γ) :
    KeptUnless stops (items.foldlM f start) (others.foldlM g start) := by
  induction each generalizing start with
  | nil => exact .kept _
  | cons here _ ih =>
    rw [List.foldlM_cons, List.foldlM_cons]
    exact (here start).bind fun next => ih next

theorem option₂ {f : α → Except ε γ} {g : β → Except ε γ} {a? : Option α} {b? : Option β}
    (each : Option.Rel (fun a b => KeptUnless stops (f a) (g b)) a? b?) : KeptUnless stops (a?.mapM f) (b?.mapM g) := by
  cases each with
  | none => exact .kept _
  | some here => exact here.bind fun _ => .kept _

end KeptUnless
end SchemaAtlas
