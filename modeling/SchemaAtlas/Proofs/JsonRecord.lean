import Mathlib.Data.List.Basic
import SchemaAtlas.Json.Record

namespace SchemaAtlas
namespace Json

-- What is written reads back. A record is read by key, so the order of its fields does
-- not matter; a field that was left out reads as absent.

-- The value reads back as what it settles to. It is never written as null, so an
-- optional field does not lose it.
structure ReadsBack (write : α → Json) (read : Json → Option α) (settle : α → α) (a : α) : Prop where
  back : read (write a) = some (settle a)
  filled : write a ≠ .null

variable {write : α → Json} {read : Json → Option α} {settle : α → α}

theorem readsBack_string (text : String) : ReadsBack .string asString? id text := ⟨rfl, nofun⟩

theorem readsBack_bool (flag : Bool) : ReadsBack .bool asBool? id flag := ⟨rfl, nofun⟩

theorem readsBack_count (n : Nat) : ReadsBack ofNat asCount? id n := by
  refine ⟨?_, nofun⟩
  simp [ofNat, asCount?]

theorem readsBack_name {name : α → String} {ofName? : String → Option α} (known : ∀ a, ofName? (name a) = some a) (a : α) :
    ReadsBack (fun a => .string (name a)) (readName ofName?) id a :=
  ⟨known a, nofun⟩

theorem readsBack_array (items : List Json) : ReadsBack .array asArray? id items := ⟨rfl, nofun⟩

theorem readsBack_listOf {items : List α} (each : ∀ a ∈ items, ReadsBack write read settle a) :
    ReadsBack (listOf write) (readList read) (List.map settle) items := by
  refine ⟨?_, nofun⟩
  change (items.map write).mapM read = some (items.map settle)
  induction items with
  | nil => rfl
  | cons first rest ih =>
    obtain ⟨here, later⟩ := List.forall_mem_cons.mp each
    rw [List.map_cons, List.mapM_cons, here.back, ih later]
    rfl

theorem readsBack_mapOf {entries : Entries α} (each : ∀ entry ∈ entries, ReadsBack write read settle entry.2) :
    ReadsBack (mapOf write) (readMap read) (Entries.mapValues settle) entries := by
  refine ⟨?_, nofun⟩
  change (entries.mapValues write).mapM _ = some (entries.mapValues settle)
  induction entries with
  | nil => rfl
  | cons first rest ih =>
    obtain ⟨name, a⟩ := first
    obtain ⟨here, later⟩ := List.forall_mem_cons.mp each
    have here := here.back
    dsimp only at here
    have rest := ih later
    unfold Entries.mapValues at rest ⊢
    rw [List.map_cons, List.mapM_cons, rest]
    simp [here]

theorem readsBack_members (items : List α) (each : ∀ a, ReadsBack write read id a) :
    ReadsBack (listOf write) (readList read) id items := by
  have back := (readsBack_listOf fun a (_ : a ∈ items) => each a).back
  rw [List.map_id] at back
  exact ⟨back, nofun⟩

theorem mapValues_id (entries : Entries α) : Entries.mapValues id entries = entries := List.map_id entries

theorem readsBack_values (entries : Entries α) (each : ∀ a, ReadsBack write read id a) :
    ReadsBack (mapOf write) (readMap read) id entries := by
  have back := (readsBack_mapOf fun entry (_ : entry ∈ entries) => each entry.2).back
  rw [mapValues_id] at back
  exact ⟨back, nofun⟩

theorem readsBack_strings (items : List String) : ReadsBack ofStrings (readList asString?) id items :=
  readsBack_members items readsBack_string

@[simp] theorem fields?_object (keys : List String) (entries : Entries Json) :
    fields? keys (.object entries) = some (Entries.get? entries) := rfl

@[simp] theorem get?_append (front back : Entries Json) (key : String) :
    Entries.get? (front ++ back) key = (Entries.get? front key).or (Entries.get? back key) :=
  List.lookup_append

@[simp] theorem get?_nil (key : String) : Entries.get? ([] : Entries Json) key = none := rfl

theorem get?_single (name : String) (value : Json) (key : String) :
    Entries.get? [(name, value)] key = if key = name then some value else none := by
  unfold Entries.get?
  rw [List.lookup_cons]
  by_cases same : key = name
  · rw [if_pos same, beq_iff_eq.mpr same]
  · rw [if_neg same, beq_eq_false_iff_ne.mpr same]
    rfl

@[simp] theorem get?_field (name : String) (value : Json) (key : String) :
    Entries.get? (field name value) key = if key = name then some value else none :=
  get?_single name value key

@[simp] theorem get?_fieldOf (name : String) (write : α → Json) (value : Option α) (key : String) :
    Entries.get? (fieldOf name write value) key = if key = name then value.map write else none := by
  cases value with
  | none => simp [fieldOf, Entries.get?]
  | some a => exact get?_single name (write a) key

@[simp] theorem get?_flagField (name : String) (flag : Bool) (key : String) :
    Entries.get? (flagField name flag) key = if key = name then (if flag then some (.bool true) else none) else none := by
  cases flag with
  | false => simp [flagField, Entries.get?]
  | true => exact get?_single name (.bool true) key

@[simp ↓] theorem bind_eq_some {x : Option α} {next : α → Option β} {b : β} :
    (x >>= next) = some b ↔ ∃ a, x = some a ∧ next a = some b := Option.bind_eq_some_iff

def optionalOf (read : Json → Option α) : Option Json → Option (Option α)
  | none => some none
  | some .null => some none
  | some value => (read value).map some

@[simp] theorem required?_eq (f : Fields) (key : String) (read : Json → Option α) :
    f.required? key read = (f key).bind read := rfl

@[simp] theorem optional?_eq (f : Fields) (key : String) (read : Json → Option α) :
    f.optional? key read = optionalOf read (f key) := rfl

@[simp] theorem default?_eq (f : Fields) (key : String) (read : Json → Option α) (standing : α) :
    f.default? key read standing = (f key).elim (some standing) read := by
  unfold Fields.default?
  cases f key <;> rfl

theorem optionalOf_filled {read : Json → Option α} {value : Json} (filled : value ≠ .null) :
    optionalOf read (some value) = (read value).map some := by
  unfold optionalOf
  split
  · rename_i none
    cases none
  · rename_i null
    exact absurd (Option.some.inj null) filled
  · rename_i same
    cases same
    rfl

theorem optionalOf_back {value : Option α} (reads : ∀ a, value = some a → ReadsBack write read settle a) :
    optionalOf read (value.map write) = some (value.map settle) := by
  cases value with
  | none => rfl
  | some a =>
    obtain ⟨back, filled⟩ := reads a rfl
    rw [Option.map_some, optionalOf_filled filled, back]
    rfl

theorem optionalOf_same {value : Option α} (reads : ∀ a, ReadsBack write read id a) :
    optionalOf read (value.map write) = some value := by
  have back : optionalOf read (value.map write) = some (value.map id) := optionalOf_back fun a _ => reads a
  simpa using back

@[simp] theorem optionalOf_string (value : Option String) : optionalOf asString? (value.map .string) = some value :=
  optionalOf_same readsBack_string

@[simp] theorem optionalOf_bool (value : Option Bool) : optionalOf asBool? (value.map .bool) = some value :=
  optionalOf_same readsBack_bool

@[simp] theorem optionalOf_count (value : Option Nat) : optionalOf asCount? (value.map ofNat) = some value :=
  optionalOf_same readsBack_count

@[simp] theorem optionalOf_array (value : Option (List Json)) : optionalOf asArray? (value.map .array) = some value :=
  optionalOf_same readsBack_array

@[simp] theorem optionalOf_strings (value : Option (List String)) :
    optionalOf (readList asString?) (value.map ofStrings) = some value :=
  optionalOf_same readsBack_strings

@[simp] theorem asString?_string (text : String) : asString? (.string text) = some text := rfl
@[simp] theorem asBool?_bool (flag : Bool) : asBool? (.bool flag) = some flag := rfl
@[simp] theorem asArray?_array (items : List Json) : asArray? (.array items) = some items := rfl
@[simp] theorem asCount?_ofNat (n : Nat) : asCount? (ofNat n) = some n := (readsBack_count n).back

@[simp] theorem readList_ofStrings (items : List String) : readList asString? (ofStrings items) = some items :=
  (readsBack_strings items).back

@[simp] theorem elim_flag (flag : Bool) :
    Option.elim (if flag = true then some (bool true) else none) (some false) asBool? = some flag := by
  cases flag <;> rfl

theorem depth_lt_of_item (listed : item ∈ items) : depth item < (array items).depth := by
  change depth item < depthOfItems items + 1
  induction items with
  | nil => cases listed
  | cons first rest ih =>
    rw [depthOfItems]
    cases listed with
    | head => omega
    | tail _ later =>
      have := ih later
      omega

theorem depth_lt_of_entry (listed : entry ∈ entries) : depth entry.2 < (object entries).depth := by
  change depth entry.2 < depthOfEntries entries + 1
  induction entries with
  | nil => cases listed
  | cons first rest ih =>
    rw [depthOfEntries]
    cases listed with
    | head => omega
    | tail _ later =>
      have := ih later
      omega

end Json
end SchemaAtlas
