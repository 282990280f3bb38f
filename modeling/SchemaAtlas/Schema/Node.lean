import SchemaAtlas.Schema.Kind
import SchemaAtlas.Schema.Reference

namespace SchemaAtlas

structure Discriminator where
  propertyName : String
  mapping : Entries String := []
deriving BEq, Repr

structure NodeDependencies where
  references : List String := []
  referencedBy : List String := []
  depth : Nat := 0
deriving BEq, DecidableEq, Repr

structure ValidationChain where
  presence : Presence := .required
  validations : List String := []
  defaults : List String := []
deriving BEq, DecidableEq, Repr

structure Metadata where
  required : Bool := false
  nullable : Bool := false
  dependencies : NodeDependencies := {}
  chain : ValidationChain := {}
  circularReferences : List String := []
deriving BEq, DecidableEq, Repr

structure Keywords where
  type : Option SchemaType := none
  format : Option String := none
  title : Option String := none
  description : Option String := none
  default : Option Json := none
  deprecated : Bool := false
  readOnly : Bool := false
  writeOnly : Bool := false
  minimum : Option Double := none
  maximum : Option Double := none
  exclusiveMinimum : Option Double := none
  exclusiveMaximum : Option Double := none
  multipleOf : Option Double := none
  minLength : Option Nat := none
  maxLength : Option Nat := none
  pattern : Option String := none
  minItems : Option Nat := none
  maxItems : Option Nat := none
  uniqueItems : Option Bool := none
  enum : Option (List Json) := none
  const : Option Json := none
  required : Option (List String) := none
  discriminator : Option Discriminator := none
deriving BEq, Repr

def Keywords.isBare (k : Keywords) : Bool :=
  k.type.isNone && k.format.isNone && k.title.isNone && k.description.isNone && k.default.isNone &&
  !k.deprecated && !k.readOnly && !k.writeOnly && k.minimum.isNone && k.maximum.isNone &&
  k.exclusiveMinimum.isNone && k.exclusiveMaximum.isNone && k.multipleOf.isNone && k.minLength.isNone &&
  k.maxLength.isNone && k.pattern.isNone && k.minItems.isNone && k.maxItems.isNone && k.uniqueItems.isNone &&
  k.enum.isNone && k.const.isNone && k.required.isNone && k.discriminator.isNone

structure Parts (α : Type) where
  properties : Option (List (String × α)) := none
  items : Option α := none
  prefixItems : Option (List α) := none
  additional : Option (Bool ⊕ α) := none
  allOf : Option (List α) := none
  oneOf : Option (List α) := none
  anyOf : Option (List α) := none
deriving BEq, Repr

structure SchemaNode where
  keywords : Keywords := {}
  parts : Parts SchemaNode := {}
  reference : Option String := none
  metadata : Metadata := {}
deriving BEq, Repr

instance : Inhabited SchemaNode := ⟨{}⟩

namespace Parts

def isBare (p : Parts α) : Bool :=
  p.properties.isNone && p.items.isNone && p.prefixItems.isNone && p.additional.isNone &&
    p.allOf.isNone && p.oneOf.isNone && p.anyOf.isNone

def propertyEntries (p : Parts α) : Entries α := p.properties.getD []

def additionalNode (p : Parts α) : List α :=
  match p.additional with
  | some (.inr node) => [node]
  | _ => []

def toList (p : Parts α) : List α :=
  p.propertyEntries.map Prod.snd ++ p.items.toList ++ p.prefixItems.getD [] ++ p.additionalNode ++
    p.allOf.getD [] ++ p.oneOf.getD [] ++ p.anyOf.getD []

def mapAdditional (f : α → β) : Bool ⊕ α → Bool ⊕ β
  | .inl allowed => .inl allowed
  | .inr node => .inr (f node)

def map (f : α → β) (p : Parts α) : Parts β :=
  { properties := p.properties.map fun entries => entries.map fun entry => (entry.1, f entry.2)
    items := p.items.map f
    prefixItems := p.prefixItems.map fun members => members.map f
    additional := p.additional.map (mapAdditional f)
    allOf := p.allOf.map fun members => members.map f
    oneOf := p.oneOf.map fun members => members.map f
    anyOf := p.anyOf.map fun members => members.map f }

def mapM [Monad m] (f : α → m β) (p : Parts α) : m (Parts β) := do
  let properties ← p.properties.mapM fun entries => entries.mapM fun (name, part) => do return (name, ← f part)
  let items ← p.items.mapM f
  let prefixItems ← p.prefixItems.mapM fun members => members.mapM f
  let additional ← p.additional.mapM fun
    | .inl allowed => return .inl allowed
    | .inr part => return .inr (← f part)
  let allOf ← p.allOf.mapM fun members => members.mapM f
  let oneOf ← p.oneOf.mapM fun members => members.mapM f
  let anyOf ← p.anyOf.mapM fun members => members.mapM f
  return { properties := properties, items := items, prefixItems := prefixItems, additional := additional,
           allOf := allOf, oneOf := oneOf, anyOf := anyOf }

theorem mem_toList_of_property {p : Parts α} {entry : String × α}
    (inside : entry ∈ p.propertyEntries) : entry.2 ∈ p.toList := by
  simp only [toList, List.mem_append, List.mem_map]
  exact .inl (.inl (.inl (.inl (.inl (.inl ⟨entry, inside, rfl⟩)))))

def mapMembers {P : α → Prop} (f : (a : α) → P a → β) :
    (members : Option (List α)) → (∀ a ∈ members.getD [], P a) → Option (List β)
  | none, _ => none
  | some members, inside => some (members.pmap f inside)

theorem mapMembers_const {P : α → Prop} (f : α → β) (members : Option (List α))
    (inside : ∀ a ∈ members.getD [], P a) :
    mapMembers (fun a _ => f a) members inside = members.map (List.map f) := by
  cases members <;> simp [mapMembers]

def mapEach (p : Parts α) (f : (a : α) → a ∈ p.toList → β) : Parts β :=
  { properties := mapMembers (fun entry h => (entry.1, f entry.2 (mem_toList_of_property h))) p.properties
      (fun _ h => h)
    items := match h : p.items with
      | none => none
      | some child => some (f child (by simp [toList, h]))
    prefixItems := mapMembers f p.prefixItems (fun child h => by simp [toList, h])
    additional := match h : p.additional with
      | none => none
      | some (.inl allowed) => some (.inl allowed)
      | some (.inr child) => some (.inr (f child (by simp [toList, additionalNode, h])))
    allOf := mapMembers f p.allOf (fun child h => by simp [toList, h])
    oneOf := mapMembers f p.oneOf (fun child h => by simp [toList, h])
    anyOf := mapMembers f p.anyOf (fun child h => by simp [toList, h]) }

theorem mapEach_eq_map (p : Parts α) (f : α → β) : p.mapEach (fun a _ => f a) = p.map f := by
  obtain ⟨properties, items, prefixItems, additional, allOf, oneOf, anyOf⟩ := p
  simp only [mapEach, map, Parts.mk.injEq]
  refine ⟨mapMembers_const _ _ _, ?_, mapMembers_const _ _ _, ?_, mapMembers_const _ _ _, mapMembers_const _ _ _,
    mapMembers_const _ _ _⟩
  · cases items <;> rfl
  · rcases additional with _ | _ | _ <;> rfl

theorem sizeOf_member_lt [SizeOf α] {p : Parts α} {a : α} (inside : a ∈ p.toList) : sizeOf a < sizeOf p := by
  obtain ⟨properties, items, prefixItems, additional, allOf, oneOf, anyOf⟩ := p
  simp only [toList, propertyEntries, additionalNode, List.mem_append] at inside
  rcases inside with (((((inProperties | inItems) | inPrefix) | inAdditional) | inAll) | inOne) | inAny
  · cases properties with
    | none => simp at inProperties
    | some entries =>
      obtain ⟨⟨name, _⟩, entry, rfl⟩ := List.mem_map.mp inProperties
      have inner := List.sizeOf_lt_of_mem (show (name, _) ∈ entries from entry)
      simp only [Prod.mk.sizeOf_spec, Parts.mk.sizeOf_spec, Option.some.sizeOf_spec] at inner ⊢
      omega
  · cases items with
    | none => simp at inItems
    | some item =>
      obtain rfl : a = item := by simpa using inItems
      simp only [Parts.mk.sizeOf_spec, Option.some.sizeOf_spec]; omega
  · cases prefixItems with
    | none => simp at inPrefix
    | some members =>
      have inner := List.sizeOf_lt_of_mem (show a ∈ members from inPrefix)
      simp only [Parts.mk.sizeOf_spec, Option.some.sizeOf_spec]; omega
  · match additional, inAdditional with
    | some (.inr node), inAdditional =>
      obtain rfl : a = node := by simpa using inAdditional
      simp only [Parts.mk.sizeOf_spec, Option.some.sizeOf_spec, Sum.inr.sizeOf_spec]; omega
  · cases allOf with
    | none => simp at inAll
    | some members =>
      have inner := List.sizeOf_lt_of_mem (show a ∈ members from inAll)
      simp only [Parts.mk.sizeOf_spec, Option.some.sizeOf_spec]; omega
  · cases oneOf with
    | none => simp at inOne
    | some members =>
      have inner := List.sizeOf_lt_of_mem (show a ∈ members from inOne)
      simp only [Parts.mk.sizeOf_spec, Option.some.sizeOf_spec]; omega
  · cases anyOf with
    | none => simp at inAny
    | some members =>
      have inner := List.sizeOf_lt_of_mem (show a ∈ members from inAny)
      simp only [Parts.mk.sizeOf_spec, Option.some.sizeOf_spec]; omega

end Parts

namespace SchemaNode

def ofType (type : SchemaType) : SchemaNode := { keywords := { type := some type } }
def ofFormat (type : SchemaType) (format : String) : SchemaNode :=
  { keywords := { type := some type, format := some format } }

-- A node that is nothing but a reference.
def ofReference (target : String) : SchemaNode := { reference := some target }

def isReference (n : SchemaNode) : Bool := n.reference.isSome

def hasStructure (n : SchemaNode) : Bool := !(n.keywords.isBare && n.parts.isBare)

def requiredNames (n : SchemaNode) : List String := n.keywords.required.getD []

def children (n : SchemaNode) : List SchemaNode := n.parts.toList

theorem sizeOf_child_lt {n child : SchemaNode} (inside : child ∈ n.children) : sizeOf child < sizeOf n := by
  have inner := Parts.sizeOf_member_lt inside
  obtain ⟨keywords, parts, reference, metadata⟩ := n
  simp only [SchemaNode.mk.sizeOf_spec] at inner ⊢
  omega

def visitedReferences (n : SchemaNode) : List String :=
  n.reference.toList ++ (n.children.attach.map fun ⟨child, _⟩ => child.visitedReferences).flatten
termination_by sizeOf n
decreasing_by exact sizeOf_child_lt ‹_›

def subtreeReferences (n : SchemaNode) : List String := firstAppearances n.visitedReferences

end SchemaNode
end SchemaAtlas
