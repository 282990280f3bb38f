import SchemaAtlas.Proofs.Places
import SchemaAtlas.Proofs.SchemaReading
import SchemaAtlas.Proofs.SchemaTree

namespace SchemaAtlas
namespace OpenApi

open SchemaNode

variable {source value : Json} {ceiling depth : Nat} {p : Place} {m : Members} {descend : Descent} {node : SchemaNode}

theorem add_reports (stands : Stands source ceiling p value) (list : TypeList) (name : Json) :
    Reports source (fun new => ∃ text, name = .string text ∧
      new.types = ((SchemaType.ofName? text).filter (· ≠ .null)).toList.foldl appendNew list.types)
      (TypeList.add p list name) := by
  unfold TypeList.add
  cases name with
  | string text =>
    dsimp only [Json.asString?]
    split
    · exact stands.shape
    · rename_i known
      refine .ok ⟨text, rfl, ?_⟩
      rw [known]
      rfl
    · rename_i type other known
      refine .ok ⟨text, rfl, ?_⟩
      rw [known, Option.filter_some, if_pos (by simpa using other)]
      rfl
  | _ => exact stands.shape

theorem adds_reports (stands : Stands source ceiling p value) (names : List Json) (list : TypeList) :
    Reports source (fun new => ∃ texts : List String, names = texts.map .string ∧ new.types =
      (texts.filterMap fun text => (SchemaType.ofName? text).filter (· ≠ .null)).foldl appendNew list.types)
      (names.foldlM (TypeList.add p) list) := by
  induction names generalizing list with
  | nil => exact .ok ⟨[], rfl, rfl⟩
  | cons name rest ih =>
    rw [List.foldlM_cons]
    refine (add_reports stands list name).bind ?_
    rintro next ⟨text, rfl, first⟩
    refine (ih next).mono ?_
    rintro new ⟨texts, rfl, later⟩
    refine ⟨text :: texts, rfl, ?_⟩
    rw [later, first, List.filterMap_cons]
    cases (SchemaType.ofName? text).filter (· ≠ .null) <;> rfl

theorem types_reports (stands : Stands source ceiling p (.object m)) :
    Reports source (fun list => 1 < list.types.length → ∃ names, (Json.object m).get? "type" = some (Json.ofStrings names) ∧
      list.types = Json.listedTypes names) (TypeList.read p (m.get? "type")) := by
  rw [show (Json.object m).get? "type" = m.get? "type" from rfl]
  have single (name : Json) (one : TypeList.read p (some name) = TypeList.add p {} name) :
      Reports source (fun list => ¬1 < list.types.length) (TypeList.read p (some name)) := by
    rw [one]
    refine (add_reports stands {} name).mono ?_
    rintro list ⟨text, _, types⟩ several
    rw [types] at several
    generalize (SchemaType.ofName? text).filter (· ≠ .null) = type at several
    cases type <;> simp [appendNew] at several
  cases m.get? "type" with
  | none =>
    refine .ok ?_
    intro several
    cases several
  | some name =>
    cases name with
    | array names =>
      refine (adds_reports stands names {}).mono ?_
      rintro list ⟨texts, rfl, types⟩ _
      exact ⟨texts, rfl, types⟩
    | _ =>
      refine (single _ rfl).mono ?_
      intro list one several
      exact absurd several one

theorem numberAt_reports (offers : Offers source ceiling p m) (key : String) :
    Reports source (fun _ => True) (numberAt p m key) := by
  refine Reports.mono (Reports.at? (Q := fun _ => True) ?_) fun _ _ => trivial
  intro value held
  split
  · exact .ok trivial
  · exact (offers held).shape

theorem countAt_reports (offers : Offers source ceiling p m) (key : String) :
    Reports source (fun _ => True) (countAt p m key) := by
  refine Reports.mono (Reports.at? (Q := fun _ => True) ?_) fun _ _ => trivial
  intro value held
  split
  · exact .ok trivial
  · exact (offers held).shape

theorem exclusiveAt_reports (offers : Offers source ceiling p m) (key : String) (bound : Option Double) :
    Reports source (fun _ => True) (exclusiveAt p m key bound) := by
  unfold exclusiveAt
  split
  · exact .ok trivial
  · exact .ok trivial
  · exact (numberAt_reports offers key).map fun _ _ => trivial

theorem readKeywords_reports (offers : Offers source ceiling p m) (type : Option SchemaType) :
    Reports source (fun _ => True) (readKeywords p m type) := by
  unfold readKeywords
  refine (numberAt_reports offers "minimum").bind fun minimum _ => ?_
  refine (numberAt_reports offers "maximum").bind fun maximum _ => ?_
  refine (numberAt_reports offers "multipleOf").bind fun multipleOf _ => ?_
  refine (countAt_reports offers "minLength").bind fun minLength _ => ?_
  refine (countAt_reports offers "maxLength").bind fun maxLength _ => ?_
  refine (countAt_reports offers "minItems").bind fun minItems _ => ?_
  refine (countAt_reports offers "maxItems").bind fun maxItems _ => ?_
  refine (exclusiveAt_reports offers "exclusiveMinimum" minimum).bind fun least _ => ?_
  refine (exclusiveAt_reports offers "exclusiveMaximum" maximum).bind fun most _ => ?_
  refine Reports.bind (Reports.at? (Q := fun _ => True) fun value held => ?_) fun values _ => .ok trivial
  exact (offers held).arrayOr.mono fun _ _ => trivial

theorem readDiscriminator_reports (stands : Stands source ceiling p value) :
    Reports source (fun _ => True) (readDiscriminator p value) := by
  unfold readDiscriminator
  split
  · exact stands.shape
  · refine Reports.bind (P := fun _ => True) ?_ fun mapping _ => .ok trivial
    refine Reports.mono (Reports.readEntries (Q := fun _ => True) ?_) fun _ _ => trivial
    intro entry listed
    -- An entry is there only where there is a mapping.
    have mapping : ∃ targets, value.get? "mapping" = some targets := by
      cases held : value.get? "mapping" with
      | none => simp [held] at listed
      | some targets => exact ⟨targets, rfl⟩
    obtain ⟨targets, held⟩ := mapping
    split
    · exact .ok trivial
    · exact (stands.under held).shape

-- What the reading of a schema gives at a depth: every reference has settled, every part is
-- one level deeper, and no node is deeper than the ceiling, with one exception. Nobody
-- looks at the depth of the alternatives for several types; the parts of an alternative
-- are read like all others.
inductive Nests (source : Json) (ceiling : Nat) : Nat → SchemaNode → Prop where
  | plain {depth : Nat} {node : SchemaNode} : depth ≤ ceiling → node.metadata.dependencies.depth = depth →
      (∀ target ∈ node.reference, ∃ r, Settles source .schemas target r) →
      (∀ child ∈ node.children, Nests source ceiling (depth + 1) child) → Nests source ceiling depth node
  | union {depth : Nat} {node : SchemaNode} {members : List SchemaNode} {value : Json} : depth ≤ ceiling →
      node.metadata.dependencies.depth = depth → node.reference = none → node.parts = { oneOf := some members } → 1 < members.length →
      source.Leads tokens value → value.Alternates i →
      (∀ member ∈ members, member.metadata.dependencies.depth = depth + 1) →
      (∀ member ∈ members, member.reference = none) →
      (∀ member ∈ members, ∀ child ∈ member.children, Nests source ceiling (depth + 2) child) →
      Nests source ceiling depth node

structure Opens (source : Json) (ceiling depth : Nat) (node : SchemaNode) : Prop where
  recorded : node.metadata.dependencies.depth = depth
  plain : node.reference = none
  below : ∀ child ∈ node.children, Nests source ceiling (depth + 1) child

def Descends (source : Json) (ceiling : Nat) (descend : Descent) : Prop :=
  ∀ p value, Stands source ceiling p value → Reports source (Nests source ceiling p.depth) (descend p value)

theorem readMembers_reports (descends : Descends source ceiling descend) (offers : Offers source ceiling p m) (key : String) :
    Reports source (fun found => ∀ members, found = some members → ∀ child ∈ members, Nests source ceiling (p.depth + 1) child)
      (readMembers descend p m key) := by
  unfold readMembers
  refine Reports.at? ?_
  intro value held
  refine (offers held).arrayOr.bind ?_
  rintro items rfl
  refine Reports.mapM ?_
  rintro ⟨index, item⟩ listed
  exact descends _ _ ((offers held).item listed).child

theorem readProperties_reports (descends : Descends source ceiling descend) (offers : Offers source ceiling p m) :
    Reports source (fun found => ∀ entries, found = some entries → ∀ entry ∈ entries, Nests source ceiling (p.depth + 1) entry.2)
      (readProperties descend p m) := by
  unfold readProperties
  refine Reports.at? ?_
  intro value held
  refine (offers held).objectOr.bind ?_
  rintro declared rfl
  refine Reports.readEntries ?_
  rintro ⟨name, schema⟩ listed
  exact descends _ _ ((offers held).entry listed).child.withRequired

theorem readAdditional_reports (descends : Descends source ceiling descend) (offers : Offers source ceiling p m)
    (held : m.get? "additionalProperties" = some value) :
    Reports source (fun additional => ∀ child, additional = .inr child → Nests source ceiling (p.depth + 1) child)
      (readAdditional descend p value) := by
  unfold readAdditional
  split
  · refine .ok ?_
    intro child other
    cases other
  · refine (descends _ _ (offers held).child).map ?_
    rintro node nests child ⟨⟩
    exact nests

theorem readParts_reports (descends : Descends source ceiling descend) (offers : Offers source ceiling p m) :
    Reports source (fun parts => ∀ child ∈ parts.toList, Nests source ceiling (p.depth + 1) child) (readParts descend p m) := by
  unfold readParts
  refine (readProperties_reports descends offers).bind fun properties inProperties => ?_
  refine Reports.bind (Reports.at? fun value held => descends _ _ (offers held).child) fun items inItems => ?_
  refine (readMembers_reports descends offers "prefixItems").bind fun prefixItems inPrefix => ?_
  refine Reports.bind (Reports.at? fun value held => readAdditional_reports descends offers held) fun additional inAdditional => ?_
  refine (readMembers_reports descends offers "allOf").bind fun allOf inAll => ?_
  refine (readMembers_reports descends offers "oneOf").bind fun oneOf inOne => ?_
  refine (readMembers_reports descends offers "anyOf").bind fun anyOf inAny => ?_
  refine .ok ?_
  intro child listed
  have listedIn {members : Option (List SchemaNode)} (inside : child ∈ members.getD [])
      (nests : ∀ all, members = some all → ∀ child ∈ all, Nests source ceiling (p.depth + 1) child) : Nests source ceiling (p.depth + 1) child := by
    cases members with
    | none => cases inside
    | some all => exact nests all rfl child inside
  rcases Parts.mem_toList.mp listed with ⟨entry, inside, rfl⟩ | item | inside | given | inside | inside | inside
  · cases properties with
    | none => cases inside
    | some entries => exact inProperties entries rfl entry inside
  · exact inItems child item
  · exact listedIn inside inPrefix
  · exact inAdditional _ given child rfl
  · exact listedIn inside inAll
  · exact listedIn inside inOne
  · exact listedIn inside inAny

theorem readBody_reports (descends : Descends source ceiling descend) (offers : Offers source ceiling p m)
    (type : Option SchemaType) (nullable : Bool) :
    Reports source (Opens source ceiling p.depth) (readBody descend p m type nullable) := by
  unfold readBody
  refine (readKeywords_reports offers type).bind fun keywords _ => ?_
  refine (readParts_reports descends offers).bind fun parts nests => ?_
  refine Reports.bind (Reports.at? fun value held => readDiscriminator_reports (offers held)) fun discriminator _ => ?_
  exact .ok ⟨rfl, rfl, nests⟩

-- Every alternative is read from the object that lists the types.
theorem readUnion_reports (descends : Descends source ceiling descend) (stands : Stands source ceiling p (.object m))
    {list : TypeList} (inside : p.depth ≤ ceiling) (several : 1 < list.types.length)
    (alternates : ∀ i < list.types.length, (Json.object m).Alternates i) (nullable : Bool) :
    Reports source (Nests source ceiling p.depth) (readUnion descend p m list nullable) := by
  unfold readUnion
  refine Reports.bind (P := fun members => (∀ member ∈ members, Opens source ceiling (p.depth + 1) member) ∧
    members.length = list.types.length) ?_ ?_
  · refine Reports.also (Reports.mapM ?_) ?_
    · rintro ⟨index, type⟩ listed
      obtain ⟨i, bound, same⟩ := List.mem_mapIdx.mp listed
      cases same
      exact readBody_reports descends (stands.alternative (alternates i bound)) _ _
    · intro members accepted
      simpa [numbered] using (mapM_ok.mp accepted).length_eq.symm
  · rintro members ⟨opens, length⟩
    exact .ok (.union inside rfl rfl rfl (length ▸ several) stands.leads (alternates 0 (Nat.zero_lt_of_lt several))
      (fun member listed => (opens member listed).recorded) (fun member listed => (opens member listed).plain)
      fun member listed => (opens member listed).below)

theorem readReference_reports (stands : Stands source ceiling p value) (inside : p.depth ≤ ceiling) (text : String) :
    Reports source (Nests source ceiling p.depth) (readReference p text) := by
  have known : ∀ segment, Section.schemas ≠ .other segment := by simp
  unfold readReference
  refine (resolve_reports stands known).bind ?_
  intro resolved settled
  have settles : ∃ r, Settles source .schemas text r := by
    cases resolved with
    | component r target => exact ⟨r, settled.1⟩
    | lifted r => exact ⟨r, settled⟩
  refine .ok (.plain inside rfl ?_ ?_)
  · rintro target ⟨⟩
    exact settles
  · intro child listed
    cases listed

theorem readLevel_reports (descends : Descends source ceiling descend) (stands : Stands source ceiling p value) :
    Reports source (Nests source ceiling p.depth) (readLevel descend p value) := by
  unfold readLevel
  refine stands.checkDepth.bind fun _ inside => ?_
  split
  · unfold readObject
    refine (referenceOf_reports stands).bind fun found _ => ?_
    split
    · exact readReference_reports stands inside _
    · refine (types_reports stands).bind fun list listed => ?_
      dsimp only
      split
      · refine (readBody_reports descends stands.offers _ _).mono ?_
        intro node opens
        refine .plain inside opens.recorded ?_ opens.below
        simp [opens.plain]
      · rename_i several
        have several := Nat.not_le.mp several
        obtain ⟨names, named, same⟩ := listed several
        refine readUnion_reports descends stands inside several (fun i bound => ⟨names, named, ?_, ?_⟩) _
        · rwa [← same]
        · rwa [← same]
  · refine .ok (.plain inside rfl ?_ ?_)
    · intro target none
      cases none
    · intro child listed
      cases listed
  · exact stands.shape
  · exact stands.shape

theorem readWithin_reports (levels : Nat) : Descends source ceiling (readWithin levels) := by
  induction levels with
  | zero => exact fun p value stands => stands.fails rfl
  | succ levels ih => exact fun p value stands => readLevel_reports ih stands

theorem readSchema_reports : Descends source ceiling readSchema :=
  fun p value stands => readWithin_reports _ p value stands

theorem children_union {members : List SchemaNode} (parts : node.parts = { oneOf := some members }) :
    node.children = members := by
  simp [children, parts, Parts.toList, Parts.propertyEntries, Parts.additionalNode]

def Closed (source : Json) (node : SchemaNode) : Prop :=
  node.Everywhere fun inner => ∀ target ∈ inner.reference, ∃ r, Settles source .schemas target r

theorem Nests.closed (nests : Nests source ceiling depth node) : Closed source node := by
  induction nests with
  | plain _ _ settles _ ih => exact everywhere_iff.mpr ⟨settles, ih⟩
  | union _ _ plain parts _ _ _ _ leaf _ ih =>
    refine everywhere_iff.mpr ⟨by simp [plain], ?_⟩
    intro member listed
    rw [children_union parts] at listed
    exact everywhere_iff.mpr ⟨by simp [leaf member listed], ih member listed⟩

theorem readSchema_plain (accepted : readSchema p value = .ok node) (plain : value.get? "$ref" = none) :
    node.reference = none := by
  unfold readSchema at accepted
  cases levels : p.maxDepth + 1 - p.depth with
  | zero =>
    rw [levels] at accepted
    cases accepted
  | succ levels' =>
    rw [levels] at accepted
    obtain ⟨_, level⟩ := readLevel_parts accepted
    cases level with
    | anything => rfl
    | reference found _ =>
      unfold referenceOf at found
      rw [plain] at found
      cases found
    | body _ read =>
      obtain ⟨_, _, _, _, _, rfl⟩ := readBody_parts read
      rfl
    | union _ _ read =>
      obtain ⟨_, _, _, _, _, rfl⟩ := readUnion_parts read
      rfl

end OpenApi
end SchemaAtlas
