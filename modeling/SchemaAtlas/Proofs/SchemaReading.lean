import SchemaAtlas.OpenApi.Schemas
import SchemaAtlas.Proofs.Outcome
import SchemaAtlas.Proofs.SourceReferences

namespace SchemaAtlas
namespace OpenApi

-- What each reader has read when it succeeds.

theorem at?_ok {m : Members} {read : Json → Except Failure α} : m.at? key read = .ok (some result) ↔
    ∃ value, m.get? key = some value ∧ read value = .ok result := by
  unfold Members.at?
  cases m.get? key with
  | none => simp
  | some value => simp [map_ok]

theorem resolve_parts (accepted : resolve p text kind = .ok target) :
    ∃ reference, ComponentRef.ofText? text = some reference ∧ reference.kind = kind := by
  obtain ⟨reference, classified, later⟩ := bind_ok.mp accepted
  unfold classify at classified
  split at classified
  · rename_i reads
    cases classified
    refine ⟨_, reads, ?_⟩
    by_contra other
    simp [other, bind_ok] at later
  · cases classified

variable {descend : Descent} {p : Place} {m : Members}

theorem at?_none {read : Json → Except Failure α} : m.at? key read = .ok none ↔ m.get? key = none := by
  unfold Members.at?
  cases m.get? key with
  | none => simp
  | some value => simp [map_ok]

def ReadBelow (descend : Descent) (p : Place) (value : Json) (child : SchemaNode) : Prop :=
  ∃ place : Place, place.depth = p.depth + 1 ∧ descend place value = .ok child

def ReadProperty (descend : Descent) (p : Place) (m : Members) (source : String × Json) (entry : String × SchemaNode) :
    Prop :=
  entry.1 = source.1 ∧ ∃ place : Place, place.depth = p.depth + 1 ∧
    place.required = (m.texts "required").contains source.1 ∧ descend place source.2 = .ok entry.2

theorem map_snd_numbered (items : List α) : (numbered items).map Prod.snd = items := by
  apply List.ext_getElem <;> simp [numbered]

theorem readMembers_listed (accepted : readMembers descend p m key = .ok members) :
    List.Forall₂ (ReadBelow descend p) ((Json.object m).membersAt key) (members.getD []) := by
  cases members with
  | none =>
    have missing : (Json.object m).get? key = none := at?_none.mp accepted
    simp [Json.membersAt, missing]
  | some members =>
    obtain ⟨value, given, read⟩ := at?_ok.mp accepted
    obtain ⟨items, array, read⟩ := bind_ok.mp read
    have given : (Json.object m).get? key = some value := given
    have listed : (Json.object m).membersAt key = items := by
      unfold Place.arrayOr at array
      split at array
      · cases array
        simp [Json.membersAt, *]
      · cases array
    rw [listed, ← map_snd_numbered items, List.forall₂_map_left_iff]
    exact (mapM_ok.mp read).imp fun _ _ one => ⟨_, rfl, one⟩

theorem readProperties_listed (accepted : readProperties descend p m = .ok properties) :
    List.Forall₂ (ReadProperty descend p m) (Json.object m).declaredProperties (properties.getD []) := by
  cases properties with
  | none =>
    have missing : (Json.object m).get? "properties" = none := at?_none.mp accepted
    simp [Json.declaredProperties, missing]
  | some properties =>
    obtain ⟨value, given, read⟩ := at?_ok.mp accepted
    obtain ⟨declared, object, read⟩ := bind_ok.mp read
    have given : (Json.object m).get? "properties" = some value := given
    have listed : (Json.object m).declaredProperties = declared := by
      unfold Place.objectOr at object
      split at object
      · cases object
        simp [Json.declaredProperties, *]
      · cases object
    rw [listed]
    refine (mapM_ok.mp read).imp ?_
    rintro ⟨name, schema⟩ entry one
    obtain ⟨node, ran, rfl⟩ := map_ok.mp one
    exact ⟨rfl, _, rfl, rfl, ran⟩

theorem readItems_listed (accepted : m.at? "items" (descend (p.child "items")) = .ok items) :
    List.Forall₂ (ReadBelow descend p) ((Json.object m).get? "items").toList items.toList := by
  cases items with
  | none =>
    have missing : (Json.object m).get? "items" = none := at?_none.mp accepted
    simp [missing]
  | some item =>
    obtain ⟨value, given, read⟩ := at?_ok.mp accepted
    have given : (Json.object m).get? "items" = some value := given
    simp only [given, Option.toList_some]
    exact .cons ⟨_, rfl, read⟩ .nil

theorem readAdditional_listed (accepted : m.at? "additionalProperties" (readAdditional descend p) = .ok additional) :
    List.Forall₂ (ReadBelow descend p) (Json.object m).additionalSchema
      ({ additional := additional } : Parts SchemaNode).additionalNode := by
  cases additional with
  | none =>
    have missing : (Json.object m).get? "additionalProperties" = none := at?_none.mp accepted
    simp [Json.additionalSchema, missing, Parts.additionalNode]
  | some additional =>
    obtain ⟨value, given, read⟩ := at?_ok.mp accepted
    have given : (Json.object m).get? "additionalProperties" = some value := given
    unfold readAdditional at read
    split at read
    · cases read
      simp [Json.additionalSchema, given, Parts.additionalNode]
    · rename_i _ plain
      obtain ⟨node, ran, same⟩ := map_ok.mp read
      cases same
      have alone : (Json.object m).additionalSchema = [value] := by
        unfold Json.additionalSchema
        rw [given]
        cases value with
        | bool flag => exact absurd rfl (plain flag)
        | _ => rfl
      rw [alone]
      exact .cons ⟨_, rfl, ran⟩ .nil

theorem readParts_listed (accepted : readParts descend p m = .ok parts) :
    List.Forall₂ (ReadProperty descend p m) (Json.object m).declaredProperties parts.propertyEntries ∧
      List.Forall₂ (ReadBelow descend p) (Json.object m).innerSchemas parts.toList := by
  obtain ⟨properties, inProperties, accepted⟩ := bind_ok.mp accepted
  obtain ⟨items, inItems, accepted⟩ := bind_ok.mp accepted
  obtain ⟨prefixItems, inPrefix, accepted⟩ := bind_ok.mp accepted
  obtain ⟨additional, inAdditional, accepted⟩ := bind_ok.mp accepted
  obtain ⟨allOf, inAll, accepted⟩ := bind_ok.mp accepted
  obtain ⟨oneOf, inOne, accepted⟩ := bind_ok.mp accepted
  obtain ⟨anyOf, inAny, accepted⟩ := bind_ok.mp accepted
  cases accepted
  have declared := readProperties_listed inProperties
  have properties : List.Forall₂ (ReadBelow descend p) ((Json.object m).declaredProperties.map Prod.snd)
      ((properties.getD []).map Prod.snd) := by
    rw [List.forall₂_map_left_iff, List.forall₂_map_right_iff]
    refine declared.imp ?_
    rintro source entry ⟨_, place, below, _, read⟩
    exact ⟨place, below, read⟩
  refine ⟨declared, ?_⟩
  unfold Json.innerSchemas Parts.toList
  have upToItems := List.rel_append properties (readItems_listed inItems)
  have upToPrefix := List.rel_append upToItems (readMembers_listed inPrefix)
  have upToAdditional := List.rel_append upToPrefix (readAdditional_listed inAdditional)
  have upToAll := List.rel_append upToAdditional (readMembers_listed inAll)
  have upToOne := List.rel_append upToAll (readMembers_listed inOne)
  exact List.rel_append upToOne (readMembers_listed inAny)

theorem readParts_mem (accepted : readParts descend p m = .ok parts) (listed : child ∈ parts.toList) :
    ∃ place value, descend place value = .ok child := by
  obtain ⟨value, _, place, _, read⟩ := exists_of_forall₂ (readParts_listed accepted).2 listed
  exact ⟨place, value, read⟩

theorem readBody_parts (accepted : readBody descend p m type nullable = .ok node) :
    ∃ keywords parts discriminator, readKeywords p m type = .ok keywords ∧ readParts descend p m = .ok parts ∧
      node = p.finish { parts := parts, keywords := { keywords with
        required := requiredAmong m parts.properties, discriminator := discriminator } } nullable := by
  obtain ⟨keywords, inKeywords, accepted⟩ := bind_ok.mp accepted
  obtain ⟨parts, inParts, accepted⟩ := bind_ok.mp accepted
  obtain ⟨discriminator, _, accepted⟩ := bind_ok.mp accepted
  cases accepted
  exact ⟨keywords, parts, discriminator, inKeywords, inParts, rfl⟩

theorem readUnion_parts (accepted : readUnion descend p m list nullable = .ok node) :
    ∃ members : List SchemaNode, ∃ keywords : Keywords, keywords.required = none ∧
      members.length = list.types.length ∧
      (∀ member ∈ members, ∃ place : Place, ∃ type, place.depth = p.depth + 1 ∧
        readBody descend place m (some type) false = .ok member) ∧
      node = p.finish { keywords := keywords, parts := { oneOf := some members } } nullable := by
  obtain ⟨members, inMembers, accepted⟩ := bind_ok.mp accepted
  cases accepted
  refine ⟨members, _, ?_, ?_, fun member listed => ?_, rfl⟩
  · rfl
  · simpa [numbered] using (mapM_ok.mp inMembers).length_eq.symm
  · obtain ⟨item, _, read⟩ := mapM_mem inMembers listed
    exact ⟨_, _, rfl, read⟩

-- The ways in which a value is read as a schema.
inductive Level (descend : Descent) (p : Place) : Json → SchemaNode → Prop where
  | anything : Level descend p (.bool true) (p.finish {} false)
  | reference {m : Members} : referenceOf p (.object m) = .ok (some text) → resolve p text .schemas = .ok target →
      Level descend p (.object m) (p.finish (.ofReference text) false)
  | body {m : Members} : referenceOf p (.object m) = .ok none → readBody descend p m type nullable = .ok node →
      Level descend p (.object m) node
  | union {m : Members} {list : TypeList} : referenceOf p (.object m) = .ok none → 1 < list.types.length →
      readUnion descend p m list nullable = .ok node → Level descend p (.object m) node

theorem readLevel_parts (accepted : readLevel descend p value = .ok node) :
    p.checkDepth = .ok () ∧ Level descend p value node := by
  obtain ⟨inside, accepted⟩ := check_ok.mp accepted
  refine ⟨inside, ?_⟩
  split at accepted
  · obtain ⟨reference, found, accepted⟩ := bind_ok.mp accepted
    split at accepted
    · obtain ⟨target, resolved, accepted⟩ := bind_ok.mp accepted
      cases accepted
      exact .reference found resolved
    · obtain ⟨list, _, accepted⟩ := bind_ok.mp accepted
      split at accepted
      · exact .body found accepted
      · rename_i several
        exact .union found (Nat.lt_of_not_le several) accepted
  · cases accepted
    exact .anything
  · cases accepted
  · cases accepted

end OpenApi
end SchemaAtlas
