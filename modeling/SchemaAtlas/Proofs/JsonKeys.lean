import SchemaAtlas.Json.Reader
import SchemaAtlas.Proofs.Entries

namespace SchemaAtlas

namespace Json

-- No object of a value holds a key twice. Every value that is read is so.
inductive KeysDistinct : Json → Prop where
  | null : KeysDistinct .null
  | bool : KeysDistinct (.bool flag)
  | number : KeysDistinct (.number n)
  | string : KeysDistinct (.string text)
  | array : (∀ item ∈ items, KeysDistinct item) → KeysDistinct (.array items)
  | object {entries : Entries Json} : entries.Distinct → (∀ entry ∈ entries, KeysDistinct entry.2) →
      KeysDistinct (.object entries)

@[simp] theorem keysDistinct_string (text : String) : KeysDistinct (.string text) := .string

@[simp] theorem keysDistinct_array {items : List Json} :
    KeysDistinct (.array items) ↔ ∀ item ∈ items, item.KeysDistinct := by
  constructor
  · intro distinct
    cases distinct with
    | array all => exact all
  · exact .array

@[simp] theorem keysDistinct_object {entries : Entries Json} :
    KeysDistinct (.object entries) ↔ entries.Distinct ∧ ∀ entry ∈ entries, entry.2.KeysDistinct := by
  constructor
  · intro distinct
    cases distinct with
    | object own all => exact ⟨own, all⟩
  · exact fun ⟨own, all⟩ => .object own all

theorem KeysDistinct.get? {value part : Json} (distinct : value.KeysDistinct) (found : value.get? key = some part) :
    part.KeysDistinct := by
  cases distinct with
  | object _ deeper => exact deeper _ (Entries.mem_of_get? found)
  | _ => cases found

theorem asObject?_some {value : Json} (found : value.asObject? = some members) : value = .object members := by
  cases value <;> cases found
  rfl

theorem keysDistinct_word {value : Json} (own : value.KeysDistinct) (read : readWord word value cs = some (result, rest)) :
    result.KeysDistinct := by
  unfold readWord at read
  split at read
  · cases read
    exact own
  · cases read

-- What the three readers give with some fuel. What was read before comes in through
-- `out`.
structure Readers (fuel : Nat) : Prop where
  one : readValue fuel levels cs = some (value, rest) → value.KeysDistinct
  several : readItems fuel levels out cs = some (items, rest) → (∀ item ∈ out, item.KeysDistinct) →
    ∀ item ∈ items, item.KeysDistinct
  members : readEntries fuel levels out cs = some (entries, rest) → (∀ entry ∈ out, entry.2.KeysDistinct) →
    KeysDistinct (.object entries)

theorem readValue_step (readers : Readers fuel) (read : readValue (fuel + 1) levels cs = some (value, rest)) :
    value.KeysDistinct := by
  unfold readValue at read
  split at read
  · obtain ⟨⟨text, _⟩, _, same⟩ := Option.map_eq_some_iff.mp read
    cases same
    exact .string
  · split at read
    · cases read
    · split at read
      · cases read
        exact .array (by simp)
      · obtain ⟨⟨items, _⟩, inner, same⟩ := Option.map_eq_some_iff.mp read
        cases same
        exact .array (readers.several inner (by simp))
  · split at read
    · cases read
    · split at read
      · cases read
        exact .object List.nodup_nil (by simp)
      · obtain ⟨⟨entries, _⟩, inner, same⟩ := Option.map_eq_some_iff.mp read
        cases same
        exact readers.members inner (by simp)
  · exact keysDistinct_word .bool read
  · exact keysDistinct_word .bool read
  · exact keysDistinct_word .null read
  · obtain ⟨⟨n, _⟩, _, same⟩ := Option.map_eq_some_iff.mp read
    cases same
    exact .number

theorem readItems_step (readers : Readers fuel) (read : readItems (fuel + 1) levels out cs = some (items, rest))
    (kept : ∀ item ∈ out, item.KeysDistinct) : ∀ item ∈ items, item.KeysDistinct := by
  unfold readItems at read
  obtain ⟨⟨item, _⟩, one, read⟩ := Option.bind_eq_some_iff.mp read
  have kept : ∀ other ∈ item :: out, other.KeysDistinct := List.forall_mem_cons.mpr ⟨readers.one one, kept⟩
  dsimp only at read
  split at read
  · exact readers.several read kept
  · cases read
    exact fun other inside => kept other (List.mem_reverse.mp inside)
  · cases read

theorem readEntries_step (readers : Readers fuel) (read : readEntries (fuel + 1) levels out cs = some (entries, rest))
    (kept : ∀ entry ∈ out, entry.2.KeysDistinct) : KeysDistinct (.object entries) := by
  unfold readEntries at read
  split at read
  · obtain ⟨⟨key, _⟩, _, read⟩ := Option.bind_eq_some_iff.mp read
    dsimp only at read
    split at read
    · obtain ⟨⟨value, _⟩, one, read⟩ := Option.bind_eq_some_iff.mp read
      have kept : ∀ entry ∈ (key, value) :: out, entry.2.KeysDistinct :=
        List.forall_mem_cons.mpr ⟨readers.one one, kept⟩
      dsimp only at read
      split at read
      · exact readers.members read kept
      · cases read
        exact .object (Entries.ofList_distinct _) fun entry inside =>
          kept entry (List.mem_reverse.mp (Entries.mem_ofList inside))
      · cases read
    · cases read
  · cases read

theorem readers (fuel : Nat) : Readers fuel := by
  induction fuel with
  | zero =>
    exact ⟨fun read => (by cases read), fun read => (by cases read), fun read => (by cases read)⟩
  | succ fuel ih => exact ⟨readValue_step ih, readItems_step ih, readEntries_step ih⟩

theorem read?_keysDistinct (read : read? levels text = some value) : value.KeysDistinct := by
  unfold read? at read
  dsimp only at read
  split at read
  · rename_i inner
    split at read
    · cases read
      exact (readers _).one inner
    · cases read
  · cases read

end Json
end SchemaAtlas
