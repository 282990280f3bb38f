import Mathlib.Data.List.Nodup
import SchemaAtlas.Schema.Descriptor

namespace SchemaAtlas
namespace Entries

variable {entries : Entries α}

theorem contains_iff : entries.contains key = true ↔ key ∈ entries.keys := by
  simp [contains, keys]

theorem get?_insert_self : (entries.insert key value).get? key = some value := by
  induction entries with
  | nil => simp [insert, get?]
  | cons entry rest ih =>
    obtain ⟨first, old⟩ := entry
    by_cases same : first = key
    · simp [insert, get?, same]
    · simpa [insert, same, get?, List.lookup_cons, beq_eq_false_iff_ne.mpr (Ne.symm same)] using ih

theorem get?_insert_other (apart : other ≠ key) : (entries.insert key value).get? other = entries.get? other := by
  induction entries with
  | nil => simp [insert, get?, List.lookup_cons, beq_eq_false_iff_ne.mpr apart]
  | cons entry rest ih =>
    obtain ⟨first, old⟩ := entry
    by_cases same : first = key
    · subst same
      simp [insert, get?, List.lookup_cons, beq_eq_false_iff_ne.mpr apart]
    · simp only [insert, same, if_false, get?, List.lookup_cons] at ih ⊢
      rw [ih]

theorem mem_of_get? (found : entries.get? key = some value) : (key, value) ∈ entries := by
  induction entries with
  | nil => cases found
  | cons entry rest ih =>
    obtain ⟨other, first⟩ := entry
    by_cases same : key = other
    · subst same
      simp only [get?, List.lookup_cons_self, Option.some.injEq] at found
      simp [found]
    · simp only [get?, List.lookup_cons, beq_eq_false_iff_ne.mpr same] at found
      exact List.mem_cons_of_mem _ (ih found)

theorem exists_get? (listed : key ∈ entries.keys) : ∃ value, entries.get? key = some value := by
  induction entries with
  | nil => cases listed
  | cons entry rest ih =>
    obtain ⟨other, first⟩ := entry
    by_cases same : key = other
    · exact ⟨first, by simp [get?, same]⟩
    · obtain ⟨value, found⟩ := ih ((List.mem_cons.mp listed).resolve_left same)
      exact ⟨value, by simpa [get?, List.lookup_cons, beq_eq_false_iff_ne.mpr same] using found⟩

theorem get?_of_mem (distinct : entries.Distinct) (inside : (key, value) ∈ entries) :
    entries.get? key = some value := by
  induction entries with
  | nil => cases inside
  | cons entry rest ih =>
    obtain ⟨other, first⟩ := entry
    obtain ⟨fresh, distinct⟩ := List.nodup_cons.mp distinct
    rcases List.mem_cons.mp inside with same | below
    · cases same; simp [get?]
    · have differs : key ≠ other := by
        rintro rfl
        exact fresh (List.mem_map.mpr ⟨_, below, rfl⟩)
      simpa [get?, List.lookup_cons, beq_eq_false_iff_ne.mpr differs] using ih distinct below

@[simp] theorem keys_mapValues (f : α → β) : (entries.mapValues f).keys = entries.keys := by
  simp [keys, mapValues]

theorem get?_mapValues (f : α → β) : (entries.mapValues f).get? key = (entries.get? key).map f := by
  induction entries with
  | nil => rfl
  | cons entry rest ih =>
    obtain ⟨other, first⟩ := entry
    by_cases same : key = other
    · simp [get?, mapValues, same]
    · simpa [get?, mapValues, List.lookup_cons, beq_eq_false_iff_ne.mpr same] using ih

theorem insert_new (fresh : key ∉ entries.keys) : entries.insert key value = entries ++ [(key, value)] := by
  induction entries with
  | nil => rfl
  | cons entry rest ih =>
    obtain ⟨other, first⟩ := entry
    obtain ⟨differs, fresh⟩ := not_or.mp (mt List.mem_cons.mpr fresh)
    simp [insert, Ne.symm differs, ih fresh]

theorem keys_insert_old (listed : key ∈ entries.keys) : (entries.insert key value).keys = entries.keys := by
  induction entries with
  | nil => cases listed
  | cons entry rest ih =>
    obtain ⟨other, first⟩ := entry
    by_cases same : other = key
    · simp [insert, keys, same]
    · have inside := (List.mem_cons.mp listed).resolve_left (Ne.symm same)
      simpa [insert, keys, same] using ih inside

theorem insert_distinct (distinct : entries.Distinct) : (entries.insert key value).Distinct := by
  by_cases listed : key ∈ entries.keys
  · simpa only [Distinct, keys_insert_old listed] using distinct
  · simp only [Distinct, insert_new listed, keys, List.map_append, List.map_cons, List.map_nil]
    exact List.nodup_append.mpr ⟨distinct, List.nodup_singleton _, by
      intro a inside b same
      rw [List.mem_singleton.mp same]
      rintro rfl
      exact listed inside⟩

theorem foldl_insert_distinct {items : List (String × α)} (distinct : entries.Distinct) :
    (items.foldl (fun (all : Entries α) entry => all.insert entry.1 entry.2) entries).Distinct := by
  induction items generalizing entries with
  | nil => exact distinct
  | cons item rest ih => exact ih (insert_distinct distinct)

theorem mem_insert (inside : entry ∈ entries.insert key value) : entry ∈ entries ∨ entry = (key, value) := by
  induction entries with
  | nil => exact .inr (List.mem_singleton.mp inside)
  | cons first rest ih =>
    obtain ⟨other, old⟩ := first
    unfold insert at inside
    split at inside
    · rename_i same
      subst same
      rcases List.mem_cons.mp inside with replaced | later
      · exact .inr replaced
      · exact .inl (List.mem_cons_of_mem _ later)
    · rcases List.mem_cons.mp inside with kept | later
      · exact .inl (List.mem_cons.mpr (.inl kept))
      · exact (ih later).imp_left (List.mem_cons_of_mem _)

theorem mem_foldl_insert {items : List (String × α)}
    (inside : entry ∈ items.foldl (fun (all : Entries α) entry => all.insert entry.1 entry.2) entries) :
    entry ∈ entries ∨ entry ∈ items := by
  induction items generalizing entries with
  | nil => exact .inl inside
  | cons item rest ih =>
    rcases ih inside with early | later
    · rcases mem_insert early with older | same
      · exact .inl older
      · exact .inr (List.mem_cons.mpr (.inl same))
    · exact .inr (List.mem_cons_of_mem _ later)

theorem ofList_eq (items : List (String × α)) :
    ofList items = items.foldl (fun (all : Entries α) entry => all.insert entry.1 entry.2) [] := rfl

theorem ofList_distinct (items : List (String × α)) : (ofList items).Distinct := foldl_insert_distinct List.nodup_nil

theorem ofList_of_distinct {items : List (String × α)} (distinct : Distinct items) : ofList items = items := by
  rw [ofList_eq]
  suffices general : ∀ start : Entries α, Distinct (start ++ items) →
      items.foldl (fun (all : Entries α) entry => all.insert entry.1 entry.2) start = start ++ items from general [] distinct
  clear distinct
  induction items with
  | nil => intro start _; simp
  | cons item rest ih =>
    intro start distinct
    have fresh : item.1 ∉ start.keys := by
      simp only [Distinct, keys, List.map_append, List.map_cons] at distinct
      exact fun inside => (List.nodup_append.mp distinct).2.2 _ inside _ List.mem_cons_self rfl
    simp only [List.foldl_cons, insert_new fresh]
    rw [ih _ (by simpa using distinct)]
    simp

theorem mem_ofList {items : List (String × α)} (inside : entry ∈ ofList items) : entry ∈ items :=
  (mem_foldl_insert inside).resolve_left List.not_mem_nil

end Entries

theorem mem_appendNew [BEq α] [LawfulBEq α] {items : List α} :
    other ∈ appendNew items item ↔ other ∈ items ∨ other = item := by
  unfold appendNew
  split
  · rename_i listed
    refine ⟨.inl, ?_⟩
    rintro (inside | rfl)
    · exact inside
    · simpa using listed
  · simp

theorem mem_foldl_appendNew [BEq α] [LawfulBEq α] {start items : List α} :
    item ∈ items.foldl appendNew start ↔ item ∈ start ∨ item ∈ items := by
  induction items generalizing start with
  | nil => simp
  | cons first rest ih => rw [List.foldl_cons, ih, mem_appendNew, List.mem_cons, or_assoc]

theorem firstAppearances_eq [BEq α] (items : List α) : firstAppearances items = items.foldl appendNew [] := rfl

theorem length_foldl_appendNew_le [BEq α] (start items : List α) :
    (items.foldl appendNew start).length ≤ start.length + items.length := by
  induction items generalizing start with
  | nil => simp
  | cons item rest ih =>
    have one : (appendNew start item).length ≤ start.length + 1 := by
      unfold appendNew
      split
      · omega
      · simp
    have later := ih (appendNew start item)
    simp only [List.foldl_cons, List.length_cons]
    omega

theorem length_firstAppearances_le [BEq α] (items : List α) : (firstAppearances items).length ≤ items.length := by
  simpa [firstAppearances_eq] using length_foldl_appendNew_le [] items

theorem mem_firstAppearances [BEq α] [LawfulBEq α] {items : List α} :
    item ∈ firstAppearances items ↔ item ∈ items := by
  rw [firstAppearances_eq, mem_foldl_appendNew]; simp

end SchemaAtlas
