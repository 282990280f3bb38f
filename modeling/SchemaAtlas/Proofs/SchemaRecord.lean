import SchemaAtlas.Proofs.JsonRecord
import SchemaAtlas.Proofs.SchemaTree
import SchemaAtlas.Schema.Json

namespace SchemaAtlas

open Json

theorem map_eq_self {f : α → α} {items : List α} : items.map f = items ↔ ∀ a ∈ items, f a = a := by
  have same : items.map f = items.map id ↔ ∀ a ∈ items, f a = id a := List.map_inj_left
  rwa [List.map_id] at same

theorem Presence.ofName?_name (p : Presence) : Presence.ofName? p.name = some p := by
  cases p <;> decide

theorem SchemaType.ofName?_name (t : SchemaType) : SchemaType.ofName? t.name = some t := by
  cases t <;> decide

@[simp] theorem optionalOf_type (value : Option SchemaType) :
    optionalOf (readName SchemaType.ofName?) (value.map fun t => .string t.name) = some value :=
  optionalOf_same (readsBack_name SchemaType.ofName?_name)

@[simp] theorem optionalOf_double (value : Option Double) :
    optionalOf asDouble? (value.map SchemaNode.doubleJson) = some value :=
  optionalOf_same fun _ => ⟨rfl, nofun⟩

theorem Discriminator.readsBack (d : Discriminator) : ReadsBack Discriminator.toJson Discriminator.ofJson? id d := by
  refine ⟨?_, nofun⟩
  obtain ⟨name, mapping⟩ := d
  have back : readMap asString? (mapOf .string mapping) = some mapping := (readsBack_values mapping readsBack_string).back
  unfold Discriminator.toJson Discriminator.ofJson?
  by_cases empty : mapping = []
  · simp [empty]
  · simp [empty, back]

theorem NodeDependencies.readsBack (d : NodeDependencies) :
    ReadsBack NodeDependencies.toJson NodeDependencies.ofJson? id d := by
  refine ⟨?_, nofun⟩
  unfold NodeDependencies.toJson NodeDependencies.ofJson?
  simp

theorem ValidationChain.readsBack (c : ValidationChain) :
    ReadsBack ValidationChain.toJson ValidationChain.ofJson? id c := by
  refine ⟨?_, nofun⟩
  unfold ValidationChain.toJson ValidationChain.ofJson?
  simp [readName, Presence.ofName?_name]

theorem Metadata.readsBack (m : Metadata) : ReadsBack Metadata.toJson Metadata.ofJson? id m := by
  refine ⟨?_, nofun⟩
  unfold Metadata.toJson Metadata.ofJson?
  simp [-Bool.exists_bool, (NodeDependencies.readsBack _).back, (ValidationChain.readsBack _).back]

def Json.notNull : Json → Bool
  | .null => false
  | _ => true

theorem optionalOf_any (value : Option Json) : optionalOf readAny value = some (value.filter notNull) := by
  cases value with
  | none => rfl
  | some value => cases value <;> rfl

theorem filter_notNull {value : Option Json} : value.filter notNull = value ↔ value ≠ some .null := by
  cases value with
  | none => simp
  | some value => cases value <;> simp [notNull]

def Keywords.withoutNulls (k : Keywords) : Keywords :=
  { k with default := k.default.filter notNull, const := k.const.filter notNull }

theorem Keywords.withoutNulls_eq_iff {k : Keywords} :
    k.withoutNulls = k ↔ k.default ≠ some .null ∧ k.const ≠ some .null := by
  rw [← filter_notNull, ← filter_notNull]
  constructor
  · intro same
    exact ⟨congrArg Keywords.default same, congrArg Keywords.const same⟩
  · rintro ⟨default, const⟩
    unfold withoutNulls
    rw [default, const]

namespace Parts

variable {f : α → α} {p : Parts α}

theorem map_eq_self_iff : p.map f = p ↔ ∀ part ∈ p.toList, f part = part := by
  constructor
  · intro same
    refine map_eq_self.mp ?_
    rw [← toList_map, same]
  · intro each
    have list {members : Option (List α)} (inside : ∀ part ∈ members.getD [], part ∈ p.toList) :
        members.map (fun items => items.map f) = members := by
      cases members with
      | none => rfl
      | some items => exact congrArg some (map_eq_self.mpr fun part listed => each part (inside part listed))
    simp only [mem_toList] at each list
    obtain ⟨properties, items, prefixItems, additional, allOf, oneOf, anyOf⟩ := p
    simp only [map, Parts.mk.injEq]
    refine ⟨?_, ?_, list ?_, ?_, list ?_, list ?_, list ?_⟩
    · cases properties with
      | none => rfl
      | some entries =>
        refine congrArg some (map_eq_self.mpr fun entry listed => ?_)
        rw [each entry.2 (.inl ⟨entry, listed, rfl⟩)]
    · cases items with
      | none => rfl
      | some item => exact congrArg some (each item (.inr (.inl rfl)))
    · exact fun _ listed => .inr (.inr (.inl listed))
    · rcases additional with _ | allowed | node
      · rfl
      · rfl
      · exact congrArg (some ∘ Sum.inr) (each node (.inr (.inr (.inr (.inl rfl)))))
    · exact fun _ listed => .inr (.inr (.inr (.inr (.inl listed))))
    · exact fun _ listed => .inr (.inr (.inr (.inr (.inr (.inl listed)))))
    · exact fun _ listed => .inr (.inr (.inr (.inr (.inr (.inr listed)))))

end Parts

namespace SchemaNode

variable {n : SchemaNode}

def withoutNulls (n : SchemaNode) : SchemaNode :=
  { n with keywords := n.keywords.withoutNulls, parts := n.parts.mapEach fun child _ => child.withoutNulls }
termination_by sizeOf n
decreasing_by exact sizeOf_child_lt ‹_›

theorem withoutNulls_eq (n : SchemaNode) : n.withoutNulls =
    { n with keywords := n.keywords.withoutNulls, parts := n.parts.map withoutNulls } := by
  rw [withoutNulls, Parts.mapEach_eq_map]

theorem toJson_eq (n : SchemaNode) :
    n.toJson = .object (fieldsWith n.keywords (n.parts.map toJson) n.reference n.metadata) := by
  rw [toJson, Parts.mapEach_eq_map]

theorem toJson_ne_null (n : SchemaNode) : n.toJson ≠ .null := by
  rw [toJson_eq]
  nofun

theorem get?_parts (k : Keywords) (parts : Parts Json) (reference : Option String) (metadata : Metadata) :
    Entries.get? (fieldsWith k parts reference metadata) "properties" = parts.properties.map .object ∧
    Entries.get? (fieldsWith k parts reference metadata) "items" = parts.items ∧
    Entries.get? (fieldsWith k parts reference metadata) "prefixItems" = parts.prefixItems.map .array ∧
    Entries.get? (fieldsWith k parts reference metadata) "additionalProperties" =
      parts.additional.map (Sum.elim .bool id) ∧
    Entries.get? (fieldsWith k parts reference metadata) "allOf" = parts.allOf.map .array ∧
    Entries.get? (fieldsWith k parts reference metadata) "oneOf" = parts.oneOf.map .array ∧
    Entries.get? (fieldsWith k parts reference metadata) "anyOf" = parts.anyOf.map .array := by
  unfold fieldsWith
  simp

theorem get?_record (k : Keywords) (parts : Parts Json) (reference : Option String) (metadata : Metadata) :
    Entries.get? (fieldsWith k parts reference metadata) "$ref" = reference.map .string ∧
    Entries.get? (fieldsWith k parts reference metadata) "metadata" = some metadata.toJson := by
  unfold fieldsWith
  simp

theorem readKeywords_back (k : Keywords) (parts : Parts Json) (reference : Option String) (metadata : Metadata) :
    readKeywords (Entries.get? (fieldsWith k parts reference metadata)) = some k.withoutNulls := by
  have discriminator : optionalOf Discriminator.ofJson? (k.discriminator.map Discriminator.toJson) =
      some k.discriminator := optionalOf_same Discriminator.readsBack
  unfold readKeywords fieldsWith
  simp [optionalOf_any, discriminator, Keywords.withoutNulls]

variable {read : Json → Option SchemaNode} {p : Parts SchemaNode}

theorem readAdditional_back (each : ∀ child ∈ p.toList, ReadsBack toJson read withoutNulls child) :
    optionalOf (readAdditional read) ((p.map toJson).additional.map (Sum.elim .bool id)) =
      some (p.map withoutNulls).additional := by
  rcases additional : p.additional with _ | allowed | child
  · simp [Parts.map, additional, optionalOf]
  · simp [Parts.map, Parts.mapAdditional, additional, optionalOf, readAdditional]
  · obtain ⟨back, filled⟩ := each child (Parts.mem_toList.mpr (.inr (.inr (.inr (.inl additional)))))
    have node : readAdditional read child.toJson = (read child.toJson).map .inr := by
      rw [toJson_eq]
      rfl
    simp [Parts.map, Parts.mapAdditional, additional, optionalOf_filled filled, node, back]

theorem readParts_back (each : ∀ child ∈ p.toList, ReadsBack toJson read withoutNulls child) (k : Keywords)
    (reference : Option String) (metadata : Metadata) :
    readParts read (Entries.get? (fieldsWith k (p.map toJson) reference metadata)) = some (p.map withoutNulls) := by
  have reads {child : SchemaNode} (inside : _) : ReadsBack toJson read withoutNulls child :=
    each child (Parts.mem_toList.mpr inside)
  have properties : optionalOf (readMap read) ((p.map toJson).properties.map .object) =
      some (p.map withoutNulls).properties := by
    have back : optionalOf (readMap read) (p.properties.map (mapOf toJson)) =
        some (p.properties.map (Entries.mapValues withoutNulls)) :=
      optionalOf_back fun entries same => readsBack_mapOf fun entry listed =>
        reads (.inl ⟨entry, by rw [Parts.propertyEntries, same]; exact listed, rfl⟩)
    rw [Parts.map, Option.map_map]
    exact back
  have items : optionalOf read (p.map toJson).items = some (p.map withoutNulls).items :=
    optionalOf_back fun item same => reads (.inr (.inl same))
  have list {members : Option (List SchemaNode)} (inside : ∀ child ∈ members.getD [], child ∈ p.toList) :
      optionalOf (readList read) ((members.map fun items => items.map toJson).map .array) =
        some (members.map fun items => items.map withoutNulls) := by
    have back : optionalOf (readList read) (members.map (listOf toJson)) = some (members.map (List.map withoutNulls)) :=
      optionalOf_back fun items same => readsBack_listOf fun child listed =>
        each child (inside child (by rw [same]; exact listed))
    rw [Option.map_map]
    exact back
  have prefixItems : optionalOf (readList read) ((p.map toJson).prefixItems.map .array) =
      some (p.map withoutNulls).prefixItems := list fun _ listed => Parts.mem_toList.mpr (.inr (.inr (.inl listed)))
  have allOf : optionalOf (readList read) ((p.map toJson).allOf.map .array) = some (p.map withoutNulls).allOf :=
    list fun _ listed => Parts.mem_toList.mpr (.inr (.inr (.inr (.inr (.inl listed)))))
  have oneOf : optionalOf (readList read) ((p.map toJson).oneOf.map .array) = some (p.map withoutNulls).oneOf :=
    list fun _ listed => Parts.mem_toList.mpr (.inr (.inr (.inr (.inr (.inr (.inl listed))))))
  have anyOf : optionalOf (readList read) ((p.map toJson).anyOf.map .array) = some (p.map withoutNulls).anyOf :=
    list fun _ listed => Parts.mem_toList.mpr (.inr (.inr (.inr (.inr (.inr (.inr listed))))))
  have additional := readAdditional_back each
  unfold readParts
  simp [get?_parts, properties, items, prefixItems, additional, allOf, oneOf, anyOf]

-- Every level of the tree is one level of the JSON that stands for it, so the depth of the
-- JSON bounds the reading.

theorem depth_part_lt (k : Keywords) (parts : Parts Json) (reference : Option String) (metadata : Metadata)
    {part : Json} (inside : part ∈ parts.toList) :
    part.depth < (object (fieldsWith k parts reference metadata)).depth := by
  have under {key : String} {value : Json}
      (found : Entries.get? (fieldsWith k parts reference metadata) key = some value) :
      value.depth < (object (fieldsWith k parts reference metadata)).depth :=
    depth_lt_of_entry (Entries.mem_of_get? found)
  have list {key : String} {members : Option (List Json)} (listed : part ∈ members.getD [])
      (found : Entries.get? (fieldsWith k parts reference metadata) key = members.map .array) :
      part.depth < (object (fieldsWith k parts reference metadata)).depth := by
    cases members with
    | none => cases listed
    | some items => exact Nat.lt_trans (depth_lt_of_item listed) (under found)
  obtain ⟨properties, items, prefixItems, additional, allOf, oneOf, anyOf⟩ := get?_parts k parts reference metadata
  rcases Parts.mem_toList.mp inside with ⟨entry, listed, rfl⟩ | item | listed | node | listed | listed | listed
  · unfold Parts.propertyEntries at listed
    cases entries : parts.properties with
    | none =>
      rw [entries] at listed
      cases listed
    | some known =>
      rw [entries] at listed properties
      exact Nat.lt_trans (depth_lt_of_entry listed) (under properties)
  · rw [item] at items
    exact under items
  · exact list listed prefixItems
  · rw [node] at additional
    exact under additional
  · exact list listed allOf
  · exact list listed oneOf
  · exact list listed anyOf

theorem depth_child_lt {n child : SchemaNode} (inside : child ∈ n.children) : child.toJson.depth < n.toJson.depth := by
  rw [toJson_eq n]
  refine depth_part_lt _ _ _ _ ?_
  rw [Parts.toList_map]
  exact List.mem_map_of_mem inside

theorem readWithin_back (n : SchemaNode) :
    ∀ levels, n.toJson.depth ≤ levels → readWithin levels n.toJson = some n.withoutNulls := by
  induction n using children_induction with
  | step n ih =>
    intro levels enough
    cases levels with
    | zero =>
      rw [toJson_eq] at enough
      cases enough
    | succ levels =>
      have each : ∀ child ∈ n.parts.toList, ReadsBack toJson (readWithin levels) withoutNulls child :=
        fun child inside => ⟨ih child inside levels (by have := depth_child_lt inside; omega), toJson_ne_null child⟩
      rw [toJson_eq, withoutNulls_eq]
      unfold readWithin
      simp [readKeywords_back, readParts_back each, get?_record, (Metadata.readsBack _).back]

theorem readsBack (n : SchemaNode) : ReadsBack toJson ofJson? withoutNulls n :=
  ⟨readWithin_back n _ (Nat.le_refl _), toJson_ne_null n⟩

def NullFree (n : SchemaNode) : Prop := n.keywords.default ≠ some .null ∧ n.keywords.const ≠ some .null

theorem withoutNulls_eq_self : n.withoutNulls = n ↔ n.Everywhere NullFree := by
  induction n using children_induction with
  | step n ih =>
    have parts : n.parts.map withoutNulls = n.parts ↔ ∀ child ∈ n.children, child.Everywhere NullFree := by
      rw [Parts.map_eq_self_iff]
      exact forall₂_congr ih
    rw [everywhere_iff, ← parts, NullFree, ← Keywords.withoutNulls_eq_iff, withoutNulls_eq]
    cases n
    simp

end SchemaNode
end SchemaAtlas
