import SchemaAtlas.Proofs.DerivedMetadata

namespace SchemaAtlas

namespace Keywords

def described : List String :=
  ["minimum", "maximum", "exclusiveMinimum", "exclusiveMaximum", "multipleOf", "minLength", "maxLength",
    "minItems", "maxItems", "pattern", "format", "uniqueItems"]

def constraintText? (k : Keywords) : String → Option String
  | "minimum" => k.minimum.map Double.plainText
  | "maximum" => k.maximum.map Double.plainText
  | "exclusiveMinimum" => k.exclusiveMinimum.map Double.plainText
  | "exclusiveMaximum" => k.exclusiveMaximum.map Double.plainText
  | "multipleOf" => k.multipleOf.map Double.plainText
  | "minLength" => k.minLength.map toString
  | "maxLength" => k.maxLength.map toString
  | "minItems" => k.minItems.map toString
  | "maxItems" => k.maxItems.map toString
  | "pattern" => k.pattern
  | "format" => k.format
  | "uniqueItems" => if k.uniqueItems = some true then some "true" else none
  | _ => none

def constraintItem? (k : Keywords) (keyword : String) : Option String :=
  (k.constraintText? keyword).map fun text => keyword ++ ":" ++ text

theorem descriptor_eq (keyword : String) (text : α → String) (value : Option α) :
    descriptor keyword text value = ((value.map text).map fun text => keyword ++ ":" ++ text).toList := by
  cases value <;> rfl

theorem descriptors_eq (k : Keywords) : k.descriptors = described.filterMap k.constraintItem? := by
  have unique : (if k.uniqueItems = some true then ["uniqueItems:true"] else []) =
      (k.constraintItem? "uniqueItems").toList := by
    simp only [constraintItem?, constraintText?]
    split <;> rfl
  have cons_ : ∀ keyword rest, (keyword :: rest).filterMap k.constraintItem? =
      (k.constraintItem? keyword).toList ++ rest.filterMap k.constraintItem? := by
    intro keyword rest
    cases entry : k.constraintItem? keyword <;> simp [entry]
  simp only [descriptors, descriptor_eq, unique, described, cons_, List.filterMap_nil, List.append_nil,
    List.append_assoc, Option.map_id_fun, id_eq]
  rfl

end Keywords

namespace SchemaNode

variable {n : SchemaNode}

theorem validations_finalize :
    (n.finalize depth).metadata.chain.validations = n.keywords.descriptors ++
      (n.metadata.chain.validations.filter fun old => !n.keywords.descriptors.contains old).eraseDups :=
  foldl_appendNew _ _

theorem defaults_finalize : (n.finalize depth).metadata.chain.defaults =
    (n.keywords.default.map Json.compact).toList.foldl appendNew n.metadata.chain.defaults := by
  unfold finalize
  cases n.keywords.default <;> rfl

theorem validations_again (n : SchemaNode) (first depth : Nat) :
    ((n.finalize first).finalize depth).metadata.chain.validations =
      (n.finalize depth).metadata.chain.validations := by
  have kept : (n.finalize first).keywords = n.keywords := rfl
  rw [validations_finalize, validations_finalize, validations_finalize, kept, List.filter_append]
  -- The second run meets its own descriptors in front of what it kept, and keeps that.
  have dropped : n.keywords.descriptors.filter (fun old => !n.keywords.descriptors.contains old) = [] := by
    simp [List.filter_eq_nil_iff]
  rw [dropped, List.nil_append, eraseDups_filter, List.filter_filter, eraseDups_eraseDups]
  simp only [Bool.and_self]

theorem defaults_again (n : SchemaNode) (first depth : Nat) :
    ((n.finalize first).finalize depth).metadata.chain.defaults =
      (n.finalize depth).metadata.chain.defaults := by
  have kept : (n.finalize first).keywords = n.keywords := rfl
  rw [defaults_finalize, defaults_finalize, defaults_finalize, kept]
  cases n.keywords.default with
  | none => rfl
  | some value =>
    have listed : value.compact ∈ appendNew n.metadata.chain.defaults value.compact := mem_appendNew.mpr (.inr rfl)
    show appendNew (appendNew n.metadata.chain.defaults value.compact) value.compact = _
    rw [appendNew, if_pos (by simpa using listed)]
    rfl

theorem finalize_finalize : (n.finalize first).finalize depth = n.finalize depth := by
  have references : (n.finalize first).subtreeReferences = n.subtreeReferences := by
    rw [subtreeReferences, visitedReferences_finalize, subtreeReferences]
  have dependencies : ((n.finalize first).finalize depth).metadata.dependencies =
      (n.finalize depth).metadata.dependencies := by
    show { n.metadata.dependencies with references := (n.finalize first).subtreeReferences, depth := depth } = _
    rw [references]
    rfl
  have chain := congr (congrArg (ValidationChain.mk (.ofFlags (!n.metadata.required) n.metadata.nullable))
    (validations_again n first depth)) (defaults_again n first depth)
  have metadata : ((n.finalize first).finalize depth).metadata = (n.finalize depth).metadata :=
    congrFun (congr (congrArg (Metadata.mk n.metadata.required n.metadata.nullable) dependencies) chain)
      n.metadata.circularReferences
  exact congrArg (SchemaNode.mk n.keywords n.parts n.reference) metadata

theorem finalize_settled (n : SchemaNode) (first depth : Nat) :
    (n.finalize first).finalize depth = n.finalize depth ∧
      (n.finalize depth).metadata.chain.validations =
        Keywords.described.filterMap n.keywords.constraintItem? ++
          (n.metadata.chain.validations.filter fun old =>
            old ∉ Keywords.described.filterMap n.keywords.constraintItem?).eraseDups ∧
      (∀ old ∈ n.metadata.chain.validations, old ∈ (n.finalize depth).metadata.chain.validations) ∧
      n.metadata.chain.defaults <+: (n.finalize depth).metadata.chain.defaults ∧
      { n.finalize depth with metadata := n.metadata } = n := by
  refine ⟨finalize_finalize, ?_, fun old listed => mem_foldl_appendNew.mpr (.inr listed), ?_, by cases n; rfl⟩
  · rw [validations_finalize, Keywords.descriptors_eq]
    simp only [List.contains_eq_mem, decide_not]
  · rw [defaults_finalize, foldl_appendNew]
    exact List.prefix_append _ _

end SchemaNode
end SchemaAtlas
