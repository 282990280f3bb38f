import Mathlib.Data.List.Perm.Subperm
import SchemaAtlas.Proofs.FirstAppearances
import SchemaAtlas.Proofs.NumberValues
import SchemaAtlas.Proofs.SchemaReading
import SchemaAtlas.Proofs.SchemaRecord

namespace SchemaAtlas

-- The values of a type. A number without a fraction is an integer, however it is written.
inductive SchemaType.Holds : SchemaType → Json → Prop where
  | null : Holds .null .null
  | boolean (flag : Bool) : Holds .boolean (.bool flag)
  | integer {n : Number} {k : Int} : n.value = k → Holds .integer (.number n)
  | number (n : Number) : Holds .number (.number n)
  | string (text : String) : Holds .string (.string text)
  | array (items : List Json) : Holds .array (.array items)
  | object (entries : List (String × Json)) : Holds .object (.object entries)

theorem SchemaType.name_injective {type other : SchemaType} (same : type.name = other.name) : type = other := by
  have found := SchemaType.ofName?_name type
  rw [same, SchemaType.ofName?_name] at found
  exact (Option.some.inj found).symm

theorem SchemaType.name_of_ofName? (found : SchemaType.ofName? text = some type) : type.name = text := by
  simpa using List.find?_some found

theorem SchemaType.Holds.shared {type other : SchemaType} (holds : type.Holds v) (also : other.Holds v)
    (different : type ≠ other) :
    SchemaType.integer.Holds v ∧ (type = .integer ∧ other = .number ∨ type = .number ∧ other = .integer) := by
  cases holds <;> cases also <;> first | exact absurd rfl different | skip
  case integer.number whole => exact ⟨.integer whole, .inl ⟨rfl, rfl⟩⟩
  case number.integer whole => exact ⟨.integer whole, .inr ⟨rfl, rfl⟩⟩

-- What a schema asks of a value beside its type. A bound concerns numbers, a length texts
-- and a count of items lists; every value of another kind passes.
structure Limits where
  minimum : Option ℚ
  maximum : Option ℚ
  exclusiveMinimum : Option ℚ
  exclusiveMaximum : Option ℚ
  minLength : Option Nat
  maxLength : Option Nat
  minItems : Option Nat
  maxItems : Option Nat
  enum : Option (List Json)
  const : Option Json

namespace Limits

def Bound (l : Limits) : Json → Prop
  | .number n => (∀ low ∈ l.minimum, low ≤ n.value) ∧ (∀ high ∈ l.maximum, n.value ≤ high) ∧
      (∀ low ∈ l.exclusiveMinimum, low < n.value) ∧ ∀ high ∈ l.exclusiveMaximum, n.value < high
  | .string text => (∀ least ∈ l.minLength, least ≤ text.length) ∧ ∀ most ∈ l.maxLength, text.length ≤ most
  | .array items => (∀ least ∈ l.minItems, least ≤ items.length) ∧ ∀ most ∈ l.maxItems, items.length ≤ most
  | _ => True

-- When two values are the same is left open: what follows holds for every reading of it.
def Allow (same : Json → Json → Prop) (l : Limits) (v : Json) : Prop :=
  l.Bound v ∧ (∀ values ∈ l.enum, ∃ value ∈ values, same value v) ∧ ∀ value ∈ l.const, same value v

end Limits

def Keywords.limits (k : Keywords) : Limits where
  minimum := k.minimum.map Double.value
  maximum := k.maximum.map Double.value
  exclusiveMinimum := k.exclusiveMinimum.map Double.value
  exclusiveMaximum := k.exclusiveMaximum.map Double.value
  minLength := k.minLength
  maxLength := k.maxLength
  minItems := k.minItems
  maxItems := k.maxItems
  enum := k.enum
  const := k.const

-- What a node without parts and without a reference says of a value.
def SchemaNode.Admits (same : Json → Json → Prop) (node : SchemaNode) (v : Json) : Prop :=
  (∀ type ∈ node.keywords.type, type.Holds v) ∧ node.keywords.limits.Allow same v

namespace OpenApi
namespace Members

-- What the source says. A bound stands for the value that `read` gives it: its own, or
-- that of the nearest double.

def numberUnder (read : Number → ℚ) (m : Members) (key : String) : Option ℚ :=
  match m.get? key with
  | some (.number n) => some (read n)
  | _ => none

-- A bound with its exclusive form. Under `true` the plain bound is the exclusive one.
def boundsUnder (read : Number → ℚ) (m : Members) (key exclusive : String) : Option ℚ × Option ℚ :=
  match m.get? exclusive with
  | some (.bool true) => (none, m.numberUnder read key)
  | _ => (m.numberUnder read key, m.numberUnder read exclusive)

def countUnder (m : Members) (key : String) : Option Nat := (m.get? key).bind Json.asCount?

def limits (read : Number → ℚ) (m : Members) : Limits where
  minimum := (m.boundsUnder read "minimum" "exclusiveMinimum").1
  maximum := (m.boundsUnder read "maximum" "exclusiveMaximum").1
  exclusiveMinimum := (m.boundsUnder read "minimum" "exclusiveMinimum").2
  exclusiveMaximum := (m.boundsUnder read "maximum" "exclusiveMaximum").2
  minLength := m.countUnder "minLength"
  maxLength := m.countUnder "maxLength"
  minItems := m.countUnder "minItems"
  maxItems := m.countUnder "maxItems"
  enum := (m.get? "enum").bind Json.asArray?
  const := m.get? "const"

def Lists (m : Members) (type : SchemaType) : Prop :=
  ∃ names, m.get? "type" = some (.array names) ∧ Json.string type.name ∈ names

def Satisfied (read : Number → ℚ) (same : Json → Json → Prop) (m : Members) (v : Json) : Prop :=
  (∃ type, m.Lists type ∧ type.Holds v) ∧ (m.limits read).Allow same v

def ListsSeveral (m : Members) : Prop :=
  ∃ first second : SchemaType, first ≠ second ∧ first ≠ .null ∧ second ≠ .null ∧ m.Lists first ∧ m.Lists second

def Flat (m : Members) : Prop :=
  ∀ key ∈ ["$ref", "properties", "items", "prefixItems", "additionalProperties", "allOf", "oneOf", "anyOf"],
    m.get? key = none

def NarrowBounds (m : Members) : Prop :=
  ∀ key ∈ ["minimum", "maximum", "exclusiveMinimum", "exclusiveMaximum"], ∀ n : Int,
    m.get? key = some (.number (.whole n)) → n.natAbs < 2 ^ 53

-- A list of nodes says together what the source says, and outside of the integers that two
-- of the listed types share exactly one of them says it.
structure SplitInto (read : Number → ℚ) (m : Members) (members : List SchemaNode) : Prop where
  some_admits (same : Json → Json → Prop) {v : Json} (present : v ≠ .null) :
    m.Satisfied read same v ↔ ∃ member ∈ members, member.Admits same v
  one_admits (same : Json → Json → Prop) {v : Json} (present : v ≠ .null)
    (apart : ¬ (m.Lists .integer ∧ m.Lists .number ∧ SchemaType.integer.Holds v)) :
    m.Satisfied read same v ↔ ∃! i : Fin members.length, (members.get i).Admits same v

structure AlternativeFor (m : Members) (type : SchemaType) (node : SchemaNode) : Prop where
  type : node.keywords.type = some type
  limits : node.keywords.limits = m.limits fun n => n.toDouble.value
  parts : node.parts = {}
  reference : node.reference = none

end Members

variable {p : Place} {m : Members} {descend : Descent} {node : SchemaNode} {members : List SchemaNode}
  {type : SchemaType} {list : TypeList}

theorem at?_bind {read : Json → Except Failure α} {parse : Json → Option α}
    (reads : ∀ value result, read value = .ok result → parse value = some result)
    (accepted : m.at? key read = .ok found) : found = (m.get? key).bind parse := by
  cases found with
  | none => rw [at?_none.mp accepted, Option.bind_none]
  | some result =>
    obtain ⟨value, given, parsed⟩ := at?_ok.mp accepted
    rw [given, Option.bind_some, reads value result parsed]

theorem numberAt_ok (accepted : numberAt p m key = .ok found) :
    found.map Double.value = m.numberUnder (fun n => n.toDouble.value) key := by
  have parsed : found = (m.get? key).bind Json.asDouble? := by
    refine at?_bind (fun value x read => ?_) accepted
    split at read
    · cases read
      assumption
    · cases read
  rw [parsed, Members.numberUnder]
  cases m.get? key with
  | none => rfl
  | some value => cases value <;> rfl

theorem countAt_ok (accepted : countAt p m key = .ok found) : found = m.countUnder key := by
  refine at?_bind (fun value n read => ?_) accepted
  split at read
  · cases read
    assumption
  · cases read

theorem exclusiveAt_ok (accepted : exclusiveAt p m exclusive bound = .ok found)
    (plain : bound.map Double.value = m.numberUnder (fun n => n.toDouble.value) key) :
    (found.1.map Double.value, found.2.map Double.value) =
      m.boundsUnder (fun n => n.toDouble.value) key exclusive := by
  unfold exclusiveAt at accepted
  unfold Members.boundsUnder
  split at accepted
  · rename_i given
    cases accepted
    rw [given, plain, Option.map_none]
  · rename_i given
    cases accepted
    rw [given, plain, Option.map_none]
    simp [Members.numberUnder, given]
  · rename_i other _
    obtain ⟨x, read, rfl⟩ := map_ok.mp accepted
    rw [plain, numberAt_ok read]
    split
    · rename_i given
      exact absurd given other
    · rfl

theorem values_ok (accepted : m.at? "enum" (p.arrayOr reason) = .ok found) :
    found = (m.get? "enum").bind Json.asArray? := by
  refine at?_bind (fun value items read => ?_) accepted
  unfold Place.arrayOr at read
  split at read
  · cases read
    assumption
  · cases read

theorem readKeywords_ok {keywords : Keywords} (accepted : readKeywords p m (some type) = .ok keywords) :
    keywords.type = some type ∧ keywords.limits = m.limits fun n => n.toDouble.value := by
  obtain ⟨minimum, low, accepted⟩ := bind_ok.mp accepted
  obtain ⟨maximum, high, accepted⟩ := bind_ok.mp accepted
  obtain ⟨multipleOf, _, accepted⟩ := bind_ok.mp accepted
  obtain ⟨minLength, shortest, accepted⟩ := bind_ok.mp accepted
  obtain ⟨maxLength, longest, accepted⟩ := bind_ok.mp accepted
  obtain ⟨minItems, fewest, accepted⟩ := bind_ok.mp accepted
  obtain ⟨maxItems, most, accepted⟩ := bind_ok.mp accepted
  obtain ⟨lower, below, accepted⟩ := bind_ok.mp accepted
  obtain ⟨upper, above, accepted⟩ := bind_ok.mp accepted
  obtain ⟨values, listed, accepted⟩ := bind_ok.mp accepted
  cases accepted
  refine ⟨rfl, ?_⟩
  unfold Keywords.limits Members.limits
  rw [← exclusiveAt_ok below (numberAt_ok low), ← exclusiveAt_ok above (numberAt_ok high), ← countAt_ok shortest,
    ← countAt_ok longest, ← countAt_ok fewest, ← countAt_ok most, ← values_ok listed]

theorem at?_missing {read : Json → Except Failure α} (missing : m.get? key = none)
    (accepted : m.at? key read = .ok found) : found = none := by
  rw [at?_none.mpr missing] at accepted
  cases accepted
  rfl

theorem readParts_flat (flat : m.Flat) (accepted : readParts descend p m = .ok parts) : parts = {} := by
  obtain ⟨properties, inProperties, accepted⟩ := bind_ok.mp accepted
  obtain ⟨items, inItems, accepted⟩ := bind_ok.mp accepted
  obtain ⟨prefixItems, inPrefix, accepted⟩ := bind_ok.mp accepted
  obtain ⟨additional, inAdditional, accepted⟩ := bind_ok.mp accepted
  obtain ⟨allOf, inAll, accepted⟩ := bind_ok.mp accepted
  obtain ⟨oneOf, inOne, accepted⟩ := bind_ok.mp accepted
  obtain ⟨anyOf, inAny, accepted⟩ := bind_ok.mp accepted
  cases accepted
  rw [at?_missing (flat _ (by simp)) inProperties, at?_missing (flat _ (by simp)) inItems,
    at?_missing (flat _ (by simp)) inPrefix, at?_missing (flat _ (by simp)) inAdditional,
    at?_missing (flat _ (by simp)) inAll, at?_missing (flat _ (by simp)) inOne, at?_missing (flat _ (by simp)) inAny]

theorem readBody_alternative (flat : m.Flat) (accepted : readBody descend p m (some type) nullable = .ok node) :
    m.AlternativeFor type node := by
  obtain ⟨keywords, parts, discriminator, inKeywords, inParts, rfl⟩ := readBody_parts accepted
  obtain ⟨typed, limits⟩ := readKeywords_ok inKeywords
  exact ⟨typed, limits, readParts_flat flat inParts, rfl⟩

theorem readUnion_alternatives (flat : m.Flat) (accepted : readUnion descend p m list nullable = .ok node) :
    ∃ members, node.parts = { oneOf := some members } ∧ node.reference = none ∧
      List.Forall₂ m.AlternativeFor list.types members := by
  obtain ⟨members, inMembers, accepted⟩ := bind_ok.mp accepted
  cases accepted
  refine ⟨members, rfl, rfl, ?_⟩
  rw [← map_snd_numbered list.types, List.forall₂_map_left_iff]
  exact (mapM_ok.mp inMembers).imp fun _ _ read => readBody_alternative flat read

theorem add_ok {new : TypeList} (accepted : TypeList.add p list name = .ok new) : ∃ type : SchemaType,
    name = .string type.name ∧ new.types = if type = .null then list.types else appendNew list.types type := by
  unfold TypeList.add at accepted
  cases name with
  | string text =>
    dsimp only [Json.asString?] at accepted
    split at accepted
    · cases accepted
    · rename_i known
      cases accepted
      exact ⟨.null, by rw [SchemaType.name_of_ofName? known], by rw [if_pos rfl]⟩
    · rename_i type other known
      cases accepted
      exact ⟨type, by rw [SchemaType.name_of_ofName? known], by rw [if_neg (by simpa using other)]⟩
  | _ => cases accepted

theorem add_mem {new : TypeList} (accepted : TypeList.add p list name = .ok new) :
    type ∈ new.types ↔ type ∈ list.types ∨ type ≠ .null ∧ name = .string type.name := by
  obtain ⟨added, rfl, types⟩ := add_ok accepted
  have named : Json.string added.name = .string type.name ↔ type = added := by
    rw [Json.string.injEq]
    exact ⟨fun same => (SchemaType.name_injective same).symm, fun same => by rw [same]⟩
  rw [types, named]
  split
  · rename_i null
    subst null
    tauto
  · rename_i other
    rw [mem_appendNew]
    exact or_congr_right ⟨fun same => ⟨same ▸ other, same⟩, And.right⟩

theorem adds_mem {names : List Json} (accepted : names.foldlM (TypeList.add p) start = .ok list) :
    type ∈ list.types ↔ type ∈ start.types ∨ type ≠ .null ∧ Json.string type.name ∈ names := by
  induction names generalizing start with
  | nil =>
    cases accepted
    simp
  | cons name rest ih =>
    rw [List.foldlM_cons] at accepted
    obtain ⟨next, one, accepted⟩ := bind_ok.mp accepted
    rw [ih accepted, add_mem one, List.mem_cons, or_assoc, ← and_or_left, eq_comm (a := name)]

theorem adds_nodup {names : List Json} (once : start.types.Nodup)
    (accepted : names.foldlM (TypeList.add p) start = .ok list) : list.types.Nodup := by
  refine foldlM_keeps (P := fun list : TypeList => list.types.Nodup) once (fun _ _ _ _ before one => ?_) accepted
  obtain ⟨added, _, types⟩ := add_ok one
  rw [types]
  split
  · exact before
  · exact appendNew_nodup before

theorem types_listed (several : m.ListsSeveral) (accepted : TypeList.read p (m.get? "type") = .ok list) :
    list.types.Nodup ∧ (∀ type, type ∈ list.types ↔ type ≠ .null ∧ m.Lists type) ∧ 1 < list.types.length := by
  obtain ⟨first, second, different, firstPresent, secondPresent, firstListed, secondListed⟩ := several
  obtain ⟨names, given, _⟩ := id firstListed
  have lists (type : SchemaType) : m.Lists type ↔ Json.string type.name ∈ names := by
    refine ⟨?_, fun named => ⟨names, given, named⟩⟩
    rintro ⟨others, same, named⟩
    rw [given] at same
    cases same
    exact named
  rw [given] at accepted
  have inside (type : SchemaType) : type ∈ list.types ↔ type ≠ .null ∧ m.Lists type := by
    rw [adds_mem accepted, lists]
    simp
  refine ⟨adds_nodup List.nodup_nil accepted, inside, ?_⟩
  have both : [first, second] ⊆ list.types := by
    simp [inside, firstPresent, firstListed, secondPresent, secondListed]
  exact (List.subperm_of_subset (by simpa using different) both).length_le

theorem readSchema_members (flat : m.Flat) (several : m.ListsSeveral)
    (accepted : readSchema p (.object m) = .ok node) : ∃ list members,
      TypeList.read p (m.get? "type") = .ok list ∧ node.parts = { oneOf := some members } ∧ node.reference = none ∧
      List.Forall₂ m.AlternativeFor list.types members := by
  have plain : referenceOf p (.object m) = .ok none := by
    have missing : (Json.object m).get? "$ref" = none := flat "$ref" (by simp)
    rw [referenceOf, missing]
  unfold readSchema at accepted
  cases levels : p.maxDepth + 1 - p.depth with
  | zero =>
    rw [levels] at accepted
    cases accepted
  | succ levels' =>
    rw [levels] at accepted
    obtain ⟨_, accepted⟩ := check_ok.mp accepted
    obtain ⟨reference, found, accepted⟩ := bind_ok.mp accepted
    rw [plain] at found
    cases found
    obtain ⟨list, types, accepted⟩ := bind_ok.mp accepted
    rw [if_neg (Nat.not_le.mpr (types_listed several types).2.2)] at accepted
    obtain ⟨members, parts, reference, alternatives⟩ := readUnion_alternatives flat accepted
    exact ⟨list, members, types, parts, reference, alternatives⟩

namespace Members

theorem AlternativeFor.admits_iff (one : m.AlternativeFor type node) :
    node.Admits same v ↔ type.Holds v ∧ (m.limits fun n => n.toDouble.value).Allow same v := by
  simp [SchemaNode.Admits, one.type, one.limits]

section Alternatives

variable {types : List SchemaType} {same : Json → Json → Prop} {v : Json}
  (listed : ∀ type, type ∈ types ↔ type ≠ .null ∧ m.Lists type)
  (alternatives : List.Forall₂ m.AlternativeFor types members)

include listed alternatives

theorem satisfied_iff_get (present : v ≠ .null) : m.Satisfied (fun n => n.toDouble.value) same v ↔
    ∃ i : Fin members.length, (members.get i).Admits same v := by
  obtain ⟨size, each⟩ := List.forall₂_iff_get.mp alternatives
  constructor
  · rintro ⟨⟨type, named, holds⟩, allowed⟩
    have notNull : type ≠ .null := by
      rintro rfl
      cases holds
      exact present rfl
    obtain ⟨⟨i, bound⟩, rfl⟩ := List.get_of_mem ((listed type).mpr ⟨notNull, named⟩)
    exact ⟨⟨i, size ▸ bound⟩, (each i bound (size ▸ bound)).admits_iff.mpr ⟨holds, allowed⟩⟩
  · rintro ⟨⟨i, bound⟩, admits⟩
    obtain ⟨holds, allowed⟩ := (each i (size ▸ bound) bound).admits_iff.mp admits
    exact ⟨⟨_, ((listed _).mp (List.get_mem types ⟨i, size ▸ bound⟩)).2, holds⟩, allowed⟩

-- Alternatives at two positions are for two types, and those share no more than integers.
theorem admits_get_unique (once : types.Nodup) (apart : ¬ (m.Lists .integer ∧ m.Lists .number ∧ SchemaType.integer.Holds v))
    {i j : Fin members.length} (admits : (members.get i).Admits same v) (also : (members.get j).Admits same v) :
    i = j := by
  obtain ⟨size, each⟩ := List.forall₂_iff_get.mp alternatives
  obtain ⟨i, bound⟩ := i
  obtain ⟨j, other⟩ := j
  by_contra different
  have places : (⟨i, size ▸ bound⟩ : Fin types.length) ≠ ⟨j, size ▸ other⟩ := by
    rintro ⟨⟩
    exact different rfl
  have holds := ((each i (size ▸ bound) bound).admits_iff.mp admits).1
  have again := ((each j (size ▸ other) other).admits_iff.mp also).1
  have named := ((listed _).mp (List.get_mem types ⟨i, size ▸ bound⟩)).2
  have alsoNamed := ((listed _).mp (List.get_mem types ⟨j, size ▸ other⟩)).2
  obtain ⟨whole, shared⟩ := holds.shared again fun equal => places (once.injective_get equal)
  rcases shared with ⟨one, two⟩ | ⟨one, two⟩
  · exact apart ⟨one ▸ named, two ▸ alsoNamed, whole⟩
  · exact apart ⟨two ▸ alsoNamed, one ▸ named, whole⟩

theorem splitInto_of_alternatives (once : types.Nodup) : m.SplitInto (fun n => n.toDouble.value) members := by
  constructor
  · intro same v present
    rw [satisfied_iff_get listed alternatives present]
    constructor
    · rintro ⟨i, admits⟩
      exact ⟨_, List.get_mem members i, admits⟩
    · rintro ⟨member, inside, admits⟩
      obtain ⟨i, rfl⟩ := List.get_of_mem inside
      exact ⟨i, admits⟩
  · intro same v present apart
    rw [satisfied_iff_get listed alternatives present]
    refine ⟨?_, ExistsUnique.exists⟩
    rintro ⟨i, admits⟩
    exact ⟨i, admits, fun j also => admits_get_unique listed alternatives once apart also admits⟩

end Alternatives

theorem limits_exact (narrow : m.NarrowBounds) : (m.limits fun n => n.toDouble.value) = m.limits Number.value := by
  have same (key : String) (bound : key ∈ ["minimum", "maximum", "exclusiveMinimum", "exclusiveMaximum"]) :
      m.numberUnder (fun n => n.toDouble.value) key = m.numberUnder Number.value key := by
    unfold numberUnder
    split
    · rename_i n given
      cases n with
      | whole n => exact congrArg some (Double.value_ofInt (narrow key bound n given))
      | double x => rfl
    · rfl
  unfold limits boundsUnder
  simp only [same _ (show "minimum" ∈ _ by simp), same _ (show "maximum" ∈ _ by simp),
    same _ (show "exclusiveMinimum" ∈ _ by simp), same _ (show "exclusiveMaximum" ∈ _ by simp)]

theorem SplitInto.exact (split : m.SplitInto (fun n => n.toDouble.value) members) (narrow : m.NarrowBounds) :
    m.SplitInto Number.value members := by
  have same (equal : Json → Json → Prop) (v : Json) :
      m.Satisfied (fun n => n.toDouble.value) equal v ↔ m.Satisfied Number.value equal v := by
    rw [Satisfied, limits_exact narrow, Satisfied]
  constructor
  · intro equal v present
    rw [← same]
    exact split.some_admits equal present
  · intro equal v present apart
    rw [← same]
    exact split.one_admits equal present apart

end Members

-- An object that lists several types becomes one alternative for each. What they say of
-- a value is what the object says, its bounds being kept as doubles.
theorem readSchema_alternatives (flat : m.Flat) (several : m.ListsSeveral)
    (accepted : readSchema p (.object m) = .ok node) :
    ∃ members, node.parts = { oneOf := some members } ∧ node.reference = none ∧
      (∀ member ∈ members, member.parts = {} ∧ member.reference = none) ∧
      m.SplitInto (fun n => n.toDouble.value) members ∧ (m.NarrowBounds → m.SplitInto Number.value members) := by
  obtain ⟨list, members, types, parts, reference, alternatives⟩ := readSchema_members flat several accepted
  obtain ⟨once, listed, _⟩ := types_listed several types
  have split := Members.splitInto_of_alternatives listed alternatives once
  refine ⟨members, parts, reference, ?_, split, split.exact⟩
  intro member inside
  obtain ⟨type, _, one⟩ := exists_of_forall₂ alternatives inside
  exact ⟨one.parts, one.reference⟩

def textOrCount : Members := [("type", Json.ofStrings ["string", "integer"]), ("minimum", .number (.whole 1))]

theorem readSchema_alternatives_textOrCount : textOrCount.Flat ∧ textOrCount.ListsSeveral ∧ textOrCount.NarrowBounds ∧
    ∃ node members, readSchema (.start .null 4) (.object textOrCount) = .ok node ∧
      node.parts = { oneOf := some members } ∧ textOrCount.SplitInto Number.value members := by
  have flat : textOrCount.Flat := by simp [Members.Flat, textOrCount, Entries.get?, List.lookup_cons]
  have several : textOrCount.ListsSeveral :=
    ⟨.string, .integer, by decide, by decide, by decide, ⟨_, rfl, .head _⟩, ⟨_, rfl, .tail _ (.head _)⟩⟩
  have narrow : textOrCount.NarrowBounds := by
    simp [Members.NarrowBounds, textOrCount, Entries.get?, List.lookup_cons]
  obtain ⟨node, accepted⟩ : ∃ node, readSchema (.start .null 4) (.object textOrCount) = .ok node := ⟨_, rfl⟩
  obtain ⟨members, parts, _, _, _, exact⟩ := readSchema_alternatives flat several accepted
  exact ⟨flat, several, narrow, node, members, accepted, parts, exact narrow⟩

-- The integer and the number both admit a whole number, and a bound of more bits than a
-- double has is another one afterwards.
def countOrAmount : Members := [("type", Json.ofStrings ["integer", "number"])]

def wideCountOrText : Members :=
  [("type", Json.ofStrings ["integer", "string"]), ("maximum", .number (.whole 9007199254740993))]

theorem several_not_one :
    (countOrAmount.Flat ∧ countOrAmount.ListsSeveral ∧
      countOrAmount.Satisfied Number.value Eq (.number (.whole 1)) ∧
      ∃ node members, readSchema (.start .null 4) (.object countOrAmount) = .ok node ∧
        node.parts = { oneOf := some members } ∧
        ¬ ∃! i : Fin members.length, (members.get i).Admits Eq (.number (.whole 1))) ∧
    wideCountOrText.Flat ∧ wideCountOrText.ListsSeveral ∧
      wideCountOrText.Satisfied Number.value Eq (.number (.whole 9007199254740993)) ∧
      ∃ node members, readSchema (.start .null 4) (.object wideCountOrText) = .ok node ∧
        node.parts = { oneOf := some members } ∧
        ¬ ∃! i : Fin members.length, (members.get i).Admits Eq (.number (.whole 9007199254740993)) := by
  refine ⟨?shared, ?wide⟩
  case shared =>
    have flat : countOrAmount.Flat := by simp [Members.Flat, countOrAmount, Entries.get?, List.lookup_cons]
    have several : countOrAmount.ListsSeveral :=
      ⟨.integer, .number, by decide, by decide, by decide, ⟨_, rfl, .head _⟩, ⟨_, rfl, .tail _ (.head _)⟩⟩
    have allowed (read : Number → ℚ) : (countOrAmount.limits read).Allow Eq (.number (.whole 1)) := by
      simp [Limits.Allow, Limits.Bound, Members.limits, Members.boundsUnder, Members.numberUnder, countOrAmount,
        Entries.get?, List.lookup_cons]
    have whole : SchemaType.integer.Holds (.number (.whole 1)) := .integer (k := 1) rfl
    obtain ⟨node, accepted⟩ : ∃ node, readSchema (.start .null 4) (.object countOrAmount) = .ok node := ⟨_, rfl⟩
    obtain ⟨list, members, types, parts, _, alternatives⟩ := readSchema_members flat several accepted
    cases (show Except.ok ⟨[.integer, .number], false⟩ = Except.ok list from types)
    obtain _ | ⟨integer, _ | ⟨number, _ | _⟩⟩ := alternatives
    refine ⟨flat, several, ⟨⟨.integer, ⟨_, rfl, .head _⟩, whole⟩, allowed _⟩, node, _, accepted, parts, ?_⟩
    intro one
    have same : (0 : Fin 2) = 1 := one.unique (integer.admits_iff.mpr ⟨whole, allowed _⟩)
      (number.admits_iff.mpr ⟨.number _, allowed _⟩)
    cases same
  case wide =>
    have flat : wideCountOrText.Flat := by simp [Members.Flat, wideCountOrText, Entries.get?, List.lookup_cons]
    have several : wideCountOrText.ListsSeveral :=
      ⟨.integer, .string, by decide, by decide, by decide, ⟨_, rfl, .head _⟩, ⟨_, rfl, .tail _ (.head _)⟩⟩
    have allowed : (wideCountOrText.limits Number.value).Allow Eq (.number (.whole 9007199254740993)) := by
      simp [Limits.Allow, Limits.Bound, Members.limits, Members.boundsUnder, Members.numberUnder, wideCountOrText,
        Entries.get?, List.lookup_cons]
    obtain ⟨node, accepted⟩ : ∃ node, readSchema (.start .null 4) (.object wideCountOrText) = .ok node := ⟨_, rfl⟩
    obtain ⟨list, members, types, parts, _, alternatives⟩ := readSchema_members flat several accepted
    refine ⟨flat, several, ⟨⟨.integer, ⟨_, rfl, .head _⟩, .integer (k := 9007199254740993) rfl⟩, allowed⟩, node, members,
      accepted, parts, ?_⟩
    rintro ⟨i, admits, _⟩
    obtain ⟨type, _, one⟩ := exists_of_forall₂ alternatives (List.get_mem members i)
    have bounded := (one.admits_iff.mp admits).2.1.2.1 _ (show _ ∈ some (Double.ofInt 9007199254740993).value from rfl)
    rw [Double.value_ofInt_wide] at bounded
    norm_num [Number.value] at bounded

end OpenApi
end SchemaAtlas
