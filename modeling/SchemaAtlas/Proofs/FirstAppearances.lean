import Mathlib.Data.List.Induction
import Mathlib.Data.List.Nodup
import SchemaAtlas.Proofs.Entries

namespace SchemaAtlas

-- First appearances are what the library calls erasing duplicates. Two walks list the
-- same in the same order when they are equal up to duplicates.

variable [BEq α] [LawfulBEq α] [BEq β] [LawfulBEq β]

theorem eraseDups_append_singleton (items : List α) (item : α) :
    (items ++ [item]).eraseDups = appendNew items.eraseDups item := by
  rw [List.eraseDups_append]
  unfold appendNew
  by_cases listed : item ∈ items
  · simp [List.removeAll, listed]
  · simp [List.removeAll, listed, List.eraseDups_cons]

theorem firstAppearances_eq_eraseDups (items : List α) : firstAppearances items = items.eraseDups := by
  rw [firstAppearances_eq]
  induction items using List.reverseRecOn with
  | nil => rfl
  | append_singleton items item ih => rw [List.foldl_append, ih, eraseDups_append_singleton]; rfl

theorem appendNew_nodup {items : List α} (once : items.Nodup) : (appendNew items item).Nodup := by
  unfold appendNew
  split
  · exact once
  · rename_i fresh
    have fresh : item ∉ items := by simpa using fresh
    simp [List.nodup_append, once]
    intro other listed same
    exact fresh (same ▸ listed)

theorem foldl_appendNew_nodup {start : List α} (once : start.Nodup) (items : List α) :
    (items.foldl appendNew start).Nodup := by
  induction items generalizing start with
  | nil => exact once
  | cons item rest ih => exact ih (appendNew_nodup once)

theorem foldl_appendNew (start items : List α) :
    items.foldl appendNew start = start ++ (items.filter fun item => !start.contains item).eraseDups := by
  induction items using List.reverseRecOn with
  | nil => simp
  | append_singleton items item ih =>
    rw [List.foldl_concat, ih, List.filter_append]
    by_cases old : item ∈ start
    · simp [appendNew, old]
    · by_cases listed : item ∈ items <;> simp [appendNew, old, listed, eraseDups_append_singleton]

theorem eraseDups_nodup (items : List α) : items.eraseDups.Nodup := by
  induction items using List.reverseRecOn with
  | nil => simp
  | append_singleton items item ih =>
    rw [eraseDups_append_singleton]
    exact appendNew_nodup ih

omit [BEq α] [LawfulBEq α] in
theorem eraseDups_map_pairwise {R : β → β → Prop} {f : α → β} {items : List α}
    (new : ∀ front item back, items = front ++ item :: back → f item ∉ front.map f →
      ∀ other ∈ front, R (f other) (f item)) : (items.map f).eraseDups.Pairwise R := by
  induction items using List.reverseRecOn with
  | nil => simp
  | append_singleton items item ih =>
    have earlier := ih fun front other back same => new front other (back ++ [item]) (by simp [same])
    rw [List.map_append, List.map_singleton, eraseDups_append_singleton]
    unfold appendNew
    split
    · exact earlier
    · rename_i fresh
      refine List.pairwise_append.mpr ⟨earlier, List.pairwise_singleton _ _, ?_⟩
      intro first old last same
      obtain ⟨other, listed, rfl⟩ := List.mem_map.mp (List.mem_eraseDups.mp old)
      rw [List.mem_singleton.mp same]
      exact new items item [] rfl (by simpa using fresh) other listed

theorem eraseDups_filterMap (f : α → Option β) (items : List α) :
    (items.eraseDups.filterMap f).eraseDups = (items.filterMap f).eraseDups := by
  induction items using List.reverseRecOn with
  | nil => rfl
  | append_singleton items item ih =>
    rw [eraseDups_append_singleton, List.filterMap_append]
    unfold appendNew
    split
    · rename_i listed
      have listed : item ∈ items := by simpa using listed
      cases given : f item with
      | none => simp [given, ih]
      | some result =>
        have taken : result ∈ items.filterMap f := List.mem_filterMap.mpr ⟨item, listed, given⟩
        simp [given, eraseDups_append_singleton, appendNew, taken, ih]
    · cases given : f item with
      | none => simp [given, ih]
      | some result => simp [given, eraseDups_append_singleton, ih]

theorem eraseDups_eraseDups (items : List α) : items.eraseDups.eraseDups = items.eraseDups := by
  simpa using eraseDups_filterMap some items

theorem eraseDups_filter (p : α → Bool) (items : List α) :
    items.eraseDups.filter p = (items.filter p).eraseDups := by
  induction items using List.reverseRecOn with
  | nil => rfl
  | append_singleton items item ih =>
    rw [eraseDups_append_singleton, List.filter_append]
    unfold appendNew
    by_cases listed : item ∈ items <;> by_cases kept : p item = true <;>
      simp [listed, kept, ih, eraseDups_append_singleton, appendNew]

theorem eraseDups_append_congr {front front' back back' : List α} (first : front.eraseDups = front'.eraseDups)
    (second : back.eraseDups = back'.eraseDups) : (front ++ back).eraseDups = (front' ++ back').eraseDups := by
  have same : ∀ item, front.elem item = front'.elem item := by
    intro item
    rw [Bool.eq_iff_iff, List.elem_iff, List.elem_iff, ← List.mem_eraseDups, first, List.mem_eraseDups]
  simp only [List.eraseDups_append, List.removeAll, ← eraseDups_filter, first, second, same]

theorem eraseDups_append_self (items : List α) : (items ++ items).eraseDups = items.eraseDups := by
  have none_new : items.removeAll items = [] := by simp [List.removeAll, List.filter_eq_nil_iff]
  rw [List.eraseDups_append, none_new, List.eraseDups_nil, List.append_nil]

theorem eraseDups_flatten_congr {walks walks' : List (List α)}
    (agree : List.Forall₂ (fun walk walk' => walk.eraseDups = walk'.eraseDups) walks walks') :
    walks.flatten.eraseDups = walks'.flatten.eraseDups := by
  induction agree with
  | nil => rfl
  | cons first _ ih =>
    rw [List.flatten_cons, List.flatten_cons]
    exact eraseDups_append_congr first ih

theorem eraseDups_flatten_const {walks : List (List α)} {walk : List α} (some_ : walks ≠ [])
    (agree : ∀ other ∈ walks, other.eraseDups = walk.eraseDups) : walks.flatten.eraseDups = walk.eraseDups := by
  induction walks with
  | nil => exact absurd rfl some_
  | cons first rest ih =>
    obtain ⟨own, later⟩ := List.forall_mem_cons.mp agree
    cases rest with
    | nil => simpa using own
    | cons second rest =>
      calc (first :: second :: rest).flatten.eraseDups
          = (first ++ (second :: rest).flatten).eraseDups := by rw [List.flatten_cons]
        _ = (walk ++ walk).eraseDups := eraseDups_append_congr own (ih (by simp) later)
        _ = walk.eraseDups := eraseDups_append_self walk

end SchemaAtlas
