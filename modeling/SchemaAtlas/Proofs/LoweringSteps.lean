import SchemaAtlas.Proofs.ChainCalls
import SchemaAtlas.Proofs.Lowering

namespace SchemaAtlas

def Parts.besides (p : Parts α) : List α := { p with allOf := none }.toList

theorem Parts.mem_toList_iff_besides {p : Parts α} : child ∈ p.toList ↔ child ∈ p.besides ∨ child ∈ p.allOf.getD [] := by
  rw [besides, mem_toList, mem_toList]
  simp only [propertyEntries, Option.getD_none, List.not_mem_nil, false_or, or_assoc, or_left_comm, or_comm]

theorem SchemaNode.mem_children_of_besides {n : SchemaNode} (listed : child ∈ n.parts.besides) : child ∈ n.children :=
  Parts.mem_toList_iff_besides.mpr (.inl listed)

namespace Builder

open Script SchemaNode

-- A part that is lowered for a call: an expression inside an argument, one level down, or a
-- name alone that stands for its declaration. No scope stands between the argument and it.
inductive Part (lower : Lower) (cx : Context) (call : Call) : SchemaNode → Prop where
  | lowered {node : SchemaNode} {site : Site} : a ∈ call.arguments → a.site.Exposes site →
      lower cx.child site = .ok node → Part lower cx call node
  | named {site : Site} : a ∈ call.arguments → a.site.Exposes site → site.kind = .shorthandProperty →
      Part lower cx call (setRequired true (referenceTo site.text))

inductive Added (lower : Lower) (cx : Context) (call : Call) : SchemaNode → Prop where
  | lowered {node : SchemaNode} : a ∈ call.arguments → lower cx.child a.site = .ok node → Added lower cx call node
  | written {properties : Entries SchemaNode} : (∀ entry ∈ properties, Part lower cx.child call entry.2) →
      Added lower cx call (objectNode properties)

-- What a factory gives: the schema that a function returns, a node with parts that are
-- lowered for the factory, or a reference to an enumeration that the script does not declare.
inductive Built (lower : Lower) (cx : Context) (call : Call) : SchemaNode → Prop where
  | given {node : SchemaNode} {site : Site} : call.name = "lazy" → a ∈ call.arguments →
      givenBy? a.site.unwrap = some site → lower cx site = .ok node → Built lower cx call node
  | parts {node : SchemaNode} : node.metadata.nullable = false → node.reference = none →
      (∀ child ∈ node.children, Part lower cx call child) → Built lower cx call node
  | unlisted {site : Site} : a ∈ call.arguments → a.site.Exposes site → site.kind = .identifier →
      namedValues? cx.root site.text = none → Built lower cx call (referenceTo site.text)

inductive Origin (lower : Lower) (cx : Context) (n : SchemaNode) (call : Call) : SchemaNode → Prop where
  | kept {child : SchemaNode} : child ∈ n.parts.besides → Origin lower cx n call child
  | marked {child : SchemaNode} : child ∈ n.parts.besides → required = true ∨ call.name = "partial" →
      Origin lower cx n call (setRequired required child)
  | new {child : SchemaNode} : Part lower cx call child → Origin lower cx n call child
  | added {child addition : SchemaNode} : Added lower cx call addition → child ∈ addition.parts.besides →
      Origin lower cx n call child

def annotating : List String := ["describe", "default", "prefault", "readonly"]
def extending : List String := ["extend", "safeExtend", "merge"]

structure SameBody (new old : SchemaNode) : Prop where
  reference : new.reference = old.reference
  parts : new.parts = old.parts

-- The node after a call. Only a node that keeps its place keeps its reference.
inductive Change (lower : Lower) (cx : Context) (s : State) (call : Call) : SchemaNode → Prop where
  | revised {node : SchemaNode} : node.reference = s.node.reference ∨ node.reference = none →
      node.parts.allOf = s.node.parts.allOf ∨ node.parts.allOf = none →
      (∀ child ∈ node.parts.besides, Origin lower cx s.node call child) → Change lower cx s call node
  | annotated {node : SchemaNode} : call.name ∈ annotating → s.node.isReference = true → node.reference = none →
      node.parts = { allOf := some [s.node] } → Change lower cx s call node
  | listed {node : SchemaNode} : call.name = "array" → node.reference = none →
      node.parts = { items := some s.finish } → Change lower cx s call node
  | either {node other : SchemaNode} : call.name = "or" → Part lower cx call other → node.reference = none →
      node.parts = { anyOf := some [s.finish, other] } → Change lower cx s call node
  | both {node other : SchemaNode} : call.name = "and" → Part lower cx call other → node.reference = none →
      node.parts = { allOf := some [s.finish, other] } → Change lower cx s call node
  | extended {node addition : SchemaNode} : call.name ∈ extending → Added lower cx call addition →
      node.reference = none → node.parts = { allOf := some [s.finish, addition] } → Change lower cx s call node
  | softened : call.name = "deepPartial" → Change lower cx s call (deepPartial s.node)

variable {lower : Lower} {cx : Context} {s next : State} {n node extra child : SchemaNode} {base call : Call}
  {site : Site} {properties : Entries SchemaNode}

theorem argument?_mem (given : call.argument? index = some a) : a ∈ call.arguments := List.mem_of_getElem? given

theorem first_mem (given : call.first = .ok a) : a ∈ call.arguments := by
  unfold Call.first at given
  split at given
  · cases given
    exact argument?_mem ‹_›
  · cases given

theorem argumentOr_mem (given : argumentOr call index text = .ok a) : a ∈ call.arguments := by
  unfold argumentOr at given
  split at given
  · cases given
    exact argument?_mem ‹_›
  · cases given

theorem part_of_first (given : call.first = .ok a) (lowered : lower cx.child a.site = .ok node) :
    Part lower cx call node :=
  .lowered (first_mem given) (.refl _) lowered

theorem lowerMembers_parts (given : a ∈ call.arguments) (lowered : lowerMembers lower cx a.site = .ok nodes) :
    ∀ node ∈ nodes, Part lower cx call node := by
  unfold lowerMembers at lowered
  dsimp only at lowered
  split at lowered
  · cases lowered
  · rename_i array
    intro node listed
    obtain ⟨part, inside, lowered⟩ := mapM_mem lowered listed
    have open_ : a.site.unwrap.kind.isScope = false := by
      simp only [bne_iff_ne, ne_eq, not_not] at array
      rw [array]
      rfl
    exact .lowered given ((Site.exposes_unwrap _).trans (Site.exposes_part open_ inside)) lowered

theorem lowerMember_parts (given : a ∈ call.arguments) (inside : a.site.Exposes site)
    (lowered : lowerMember lower cx site = .ok members) : ∀ entry ∈ members, Part lower cx call entry.2 := by
  unfold lowerMember at lowered
  split at lowered
  · rename_i pair
    split at lowered
    · rename_i stands
      split at lowered
      · cases lowered
      · obtain ⟨node, value, rfl⟩ := map_ok.mp lowered
        intro entry listed
        obtain rfl := List.mem_singleton.mp listed
        exact .lowered given (inside.trans (Site.exposes_child? (by rw [pair]; rfl) stands)) value
    · cases lowered
      exact nofun
  · rename_i shorthand
    cases lowered
    intro entry listed
    obtain rfl := List.mem_singleton.mp listed
    exact .named given inside shorthand
  · cases lowered
  · cases lowered

theorem lowerShape_parts (given : a ∈ call.arguments) (lowered : lowerShape lower cx a.site = .ok properties) :
    ∀ entry ∈ properties, Part lower cx call entry.2 := by
  unfold lowerShape at lowered
  dsimp only at lowered
  split at lowered
  · cases lowered
  · rename_i literal
    obtain ⟨groups, all, rfl⟩ := map_ok.mp lowered
    intro entry listed
    obtain ⟨group, inGroups, inside⟩ := List.mem_flatten.mp (Entries.mem_ofList listed)
    obtain ⟨member, part, one⟩ := mapM_mem all inGroups
    have open_ : a.site.unwrap.kind.isScope = false := by
      simp only [bne_iff_ne, ne_eq, not_not] at literal
      rw [literal]
      rfl
    exact lowerMember_parts given ((Site.exposes_unwrap _).trans (Site.exposes_part open_ part)) one entry inside

theorem addition_added (given : call.first = .ok a) (lowered : addition lower cx a.site = .ok node) :
    Added lower cx call node := by
  unfold addition at lowered
  split at lowered
  · obtain ⟨properties, shape, rfl⟩ := map_ok.mp lowered
    exact .written (lowerShape_parts (first_mem given) shape)
  · exact .lowered (first_mem given) lowered

def uncombined (n : SchemaNode) : SchemaNode := { n with parts := { n.parts with allOf := none } }

theorem mem_besides_withProperties (listed : child ∈ (withProperties n properties).parts.besides) :
    (∃ entry ∈ properties, entry.2 = child) ∨ child ∈ n.parts.besides :=
  mem_children_withProperties (n := uncombined n) listed

theorem mem_besides_withAdditional (listed : child ∈ (withAdditional n additional).parts.besides) :
    additional = some (.inr child) ∨ child ∈ n.parts.besides :=
  mem_children_withAdditional (n := uncombined n) listed

theorem mem_besides_of_property (listed : entry ∈ n.parts.propertyEntries) : entry.2 ∈ n.parts.besides :=
  mem_children_of_property (n := uncombined n) listed

theorem mem_besides_of_additional (given : n.parts.additional = some (.inr child)) : child ∈ n.parts.besides :=
  mem_children_of_additional (n := uncombined n) given

theorem change_kept (same : SameBody node s.node) : Change lower cx s call node :=
  .revised (.inl same.reference) (.inl (by rw [same.parts])) fun child listed => .kept (same.parts ▸ listed)

theorem change_properties (each : ∀ entry ∈ properties, Origin lower cx s.node call entry.2) :
    Change lower cx s call (withProperties s.node properties) := by
  refine .revised (.inl rfl) (.inl rfl) fun child listed => ?_
  rcases mem_besides_withProperties listed with ⟨entry, inside, rfl⟩ | old
  · exact each entry inside
  · exact .kept old

theorem change_additional (new : ∀ child, additional = some (.inr child) → Origin lower cx s.node call child) :
    Change lower cx s call (withAdditional s.node additional) := by
  refine .revised (.inl rfl) (.inl rfl) fun child listed => ?_
  rcases mem_besides_withAdditional listed with given | old
  · exact new child given
  · exact .kept old

theorem change_merge (added : Added lower cx call extra) : Change lower cx s call (merge s.node extra) := by
  refine .revised (.inl rfl) (.inl rfl) fun child listed => ?_
  rcases mem_besides_withProperties listed with ⟨entry, inside, rfl⟩ | other
  · rcases Entries.mem_foldl_insert inside with old | new
    · exact .kept (mem_besides_of_property old)
    · exact .added added (mem_besides_of_property new)
  · rcases mem_besides_withAdditional other with given | old
    · rcases Option.or_eq_some_iff.mp given with new | ⟨_, old⟩
      · exact .added added (mem_besides_of_additional new)
      · exact .kept (mem_besides_of_additional old)
    · exact .kept old

theorem extend_change (extended : extend lower cx s call = .ok next) (named : call.name ∈ extending) :
    Change lower cx s call next.node ∧ (next.optional = true → s.optional = true) := by
  unfold extend at extended
  obtain ⟨argument, given, extended⟩ := bind_ok.mp extended
  obtain ⟨extra, lowered, extended⟩ := bind_ok.mp extended
  have added := addition_added given lowered
  split at extended
  · cases extended
    exact ⟨change_merge added, id⟩
  · cases extended
    exact ⟨.extended named added rfl rfl, nofun⟩

theorem setKey_change (set : setKey lower cx s.node call = .ok node) : Change lower cx s call node := by
  unfold setKey at set
  split at set
  · split at set
    · rename_i given
      obtain ⟨value, lowered, set⟩ := bind_ok.mp set
      cases set
      refine change_properties fun entry listed => ?_
      rcases Entries.mem_insert listed with old | rfl
      · exact .kept (mem_besides_of_property old)
      · exact .new (.lowered (argument?_mem given) (.refl _) lowered)
    · cases set
  · cases set

theorem markProperties_change (marked : markProperties s.node call required = .ok node)
    (named : required = true ∨ call.name = "partial") : Change lower cx s call node := by
  unfold markProperties at marked
  obtain ⟨mask, _, marked⟩ := bind_ok.mp marked
  cases marked
  refine change_properties fun entry listed => ?_
  obtain ⟨old, inside, rfl⟩ := List.mem_map.mp listed
  dsimp only
  split
  · exact .marked (mem_besides_of_property inside) named
  · exact .kept (mem_besides_of_property inside)

theorem keepProperties_change (kept : keepProperties s.node call keep = .ok node) : Change lower cx s call node := by
  unfold keepProperties at kept
  obtain ⟨mask, _, kept⟩ := bind_ok.mp kept
  split at kept
  · cases kept
    exact change_properties fun entry listed => .kept (mem_besides_of_property (List.mem_of_mem_filter listed))
  · cases kept

theorem keyNames_change : Change lower cx s call (keyNames s.node) :=
  .revised (.inr rfl) (.inr rfl) nofun

theorem applyObjectMethod_change (applied : applyObjectMethod lower cx s.node call = .ok (some node)) :
    Change lower cx s call node := by
  unfold applyObjectMethod at applied
  split at applied
  · obtain ⟨_, set, same⟩ := bind_ok.mp applied
    cases same
    exact setKey_change set
  · rename_i named
    obtain ⟨_, marked, same⟩ := bind_ok.mp applied
    cases same
    exact markProperties_change marked (.inr named)
  · obtain ⟨_, marked, same⟩ := bind_ok.mp applied
    cases same
    exact markProperties_change marked (.inl rfl)
  · rename_i named
    cases applied
    exact .softened named
  · cases applied
    exact change_additional nofun
  · cases applied
    exact change_additional nofun
  · cases applied
    exact change_additional nofun
  · cases applied
    exact change_additional nofun
  · cases applied
    exact change_additional nofun
  · obtain ⟨argument, given, applied⟩ := bind_ok.mp applied
    obtain ⟨rest, lowered, same⟩ := bind_ok.mp applied
    cases same
    refine change_additional ?_
    rintro child ⟨⟩
    exact .new (part_of_first given lowered)
  · obtain ⟨_, kept, same⟩ := bind_ok.mp applied
    cases same
    exact keepProperties_change kept
  · obtain ⟨_, kept, same⟩ := bind_ok.mp applied
    cases same
    exact keepProperties_change kept
  · cases applied
    exact keyNames_change
  · cases applied

theorem applyToObject_change (applied : applyToObject lower cx s call = .ok (some next)) :
    Change lower cx s call next.node ∧ (next.optional = true → s.optional = true) := by
  unfold applyToObject at applied
  split at applied
  · rename_i named
    obtain ⟨_, extended, same⟩ := bind_ok.mp applied
    cases same
    exact extend_change extended (List.contains_iff_mem.mp named)
  · split at applied
    · obtain ⟨result, method, same⟩ := bind_ok.mp applied
      obtain ⟨node, rfl, rfl⟩ := Option.map_eq_some_iff.mp (Except.ok.inj same)
      exact ⟨applyObjectMethod_change method, id⟩
    · cases applied

theorem addPattern_body (n : SchemaNode) (pattern : String) : SameBody (addPattern n pattern) n := by
  unfold addPattern
  split <;> exact ⟨rfl, rfl⟩

theorem constrainText_body (accepted : constrainText n call = .ok (some node)) : SameBody node n := by
  unfold constrainText at accepted
  dsimp only at accepted
  split at accepted
  · obtain ⟨count, _, accepted⟩ := bind_ok.mp accepted
    cases accepted
    exact ⟨rfl, rfl⟩
  · split at accepted
    · cases accepted
      exact ⟨rfl, rfl⟩
    · split at accepted
      · cases accepted
        exact ⟨rfl, rfl⟩
      · obtain ⟨pattern, _, accepted⟩ := bind_ok.mp accepted
        obtain ⟨text, rfl, rfl⟩ := Option.map_eq_some_iff.mp (Except.ok.inj accepted)
        exact addPattern_body _ _

theorem constrainNumber_body (accepted : constrainNumber n call = .ok (some node)) : SameBody node n := by
  unfold constrainNumber at accepted
  dsimp only at accepted
  split at accepted
  · obtain ⟨value, _, accepted⟩ := bind_ok.mp accepted
    cases accepted
    exact ⟨rfl, rfl⟩
  · cases accepted
    exact ⟨rfl, rfl⟩
  · split at accepted
    · cases accepted
      exact ⟨rfl, rfl⟩
    · cases accepted

theorem constrainArray_body (accepted : constrainArray n call = .ok (some node)) : SameBody node n := by
  unfold constrainArray at accepted
  dsimp only at accepted
  split at accepted
  · obtain ⟨count, _, accepted⟩ := bind_ok.mp accepted
    cases accepted
    exact ⟨rfl, rfl⟩
  · split at accepted
    · cases accepted
      exact ⟨rfl, rfl⟩
    · cases accepted

theorem constrain_body (accepted : constrain n call = .ok (some node)) : SameBody node n := by
  unfold constrain at accepted
  split at accepted
  · exact constrainText_body accepted
  · exact constrainNumber_body accepted
  · exact constrainNumber_body accepted
  · exact constrainArray_body accepted
  · cases accepted

theorem restrictEnum_body (restricted : restrictEnum n values call = .ok node) : SameBody node n := by
  unfold restrictEnum at restricted
  split at restricted
  · cases restricted
    exact ⟨rfl, rfl⟩
  · cases restricted

theorem setRest_change (set : setRest lower cx s.node call = .ok node) : Change lower cx s call node := by
  unfold setRest at set
  obtain ⟨argument, given, set⟩ := bind_ok.mp set
  obtain ⟨rest, lowered, set⟩ := bind_ok.mp set
  cases set
  refine .revised (.inl rfl) (.inl rfl) fun child listed => ?_
  rcases Parts.mem_toList.mp listed with member | item | other
  · exact .kept (Parts.mem_toList.mpr (.inl member))
  · cases item
    exact .new (part_of_first given lowered)
  · exact .kept (Parts.mem_toList.mpr (.inr (.inr other)))

theorem applyToCollection_change (applied : applyToCollection lower cx s.node call = .ok (some node)) :
    Change lower cx s call node := by
  unfold applyToCollection at applied
  split at applied
  · split at applied
    · obtain ⟨_, restricted, same⟩ := bind_ok.mp applied
      cases same
      exact change_kept (restrictEnum_body restricted)
    · split at applied
      · obtain ⟨_, set, same⟩ := bind_ok.mp applied
        cases same
        exact setRest_change set
      · cases applied
  · split at applied
    · obtain ⟨_, set, same⟩ := bind_ok.mp applied
      cases same
      exact setRest_change set
    · cases applied
  · cases applied

def generalMethods : List String :=
  ["optional", "nullable", "nullish", "default", "prefault", "describe", "array", "or", "and", "readonly"] ++ refinements

theorem applyGeneral_none (other : call.name ∉ generalMethods) : applyGeneral lower cx s call = .ok none := by
  simp only [generalMethods, List.mem_append, List.mem_cons, List.not_mem_nil, or_false, not_or] at other
  unfold applyGeneral
  split
  case h_11 => simp [other.2, pure, Except.pure]
  all_goals simp_all

theorem not_general (applied : applyGeneral lower cx s call = .ok none) : call.name ∉ generalMethods := by
  unfold applyGeneral at applied
  split at applied
  case h_6 => split at applied <;> cases applied
  case h_8 | h_9 =>
    obtain ⟨argument, given, applied⟩ := bind_ok.mp applied
    obtain ⟨other, lowered, same⟩ := bind_ok.mp applied
    cases same
  case h_11 =>
    split at applied
    · cases applied
    · simp_all [generalMethods]
  all_goals cases applied

theorem change_annotated (named : call.name ∈ annotating) {f : SchemaNode → SchemaNode}
    (same : ∀ n, SameBody (f n) n) : Change lower cx s call (f (State.annotated s.node)) := by
  unfold State.annotated
  split
  · rename_i reference
    exact .annotated named reference (same _).reference (same _).parts
  · exact change_kept (same _)

theorem applyDefault_change (named : call.name ∈ annotating) : Change lower cx s call (applyDefault s call).node := by
  unfold applyDefault
  dsimp only
  split
  · rename_i value _
    exact change_annotated (f := fun n => { n with keywords := { n.keywords with default := some value } }) named
      fun _ => ⟨rfl, rfl⟩
  · exact change_kept ⟨rfl, rfl⟩

def omitting : List String := ["optional", "nullish", "default", "prefault"]

-- A call that succeeds, and what it leaves: the changed node, which may be left out only
-- if it could before or the call says so.
def Step (lower : Lower) (cx : Context) (s : State) (call : Call) (next : State) : Prop :=
  Change lower cx s call next.node ∧ (next.optional = true → s.optional = true ∨ call.name ∈ omitting)

theorem applyGeneral_step (applied : applyGeneral lower cx s call = .ok (some next)) : Step lower cx s call next := by
  unfold applyGeneral at applied
  split at applied
  · rename_i named
    cases applied
    exact ⟨change_kept ⟨rfl, rfl⟩, fun _ => .inr (by simp [named, omitting])⟩
  · cases applied
    exact ⟨change_kept ⟨rfl, rfl⟩, .inl⟩
  · rename_i named
    cases applied
    exact ⟨change_kept ⟨rfl, rfl⟩, fun _ => .inr (by simp [named, omitting])⟩
  · rename_i named
    cases applied
    exact ⟨applyDefault_change (by simp [named, annotating]), fun _ => .inr (by simp [named, omitting])⟩
  · rename_i named
    cases applied
    exact ⟨applyDefault_change (by simp [named, annotating]), fun _ => .inr (by simp [named, omitting])⟩
  · rename_i named
    split at applied
    · rename_i text _
      cases applied
      exact ⟨change_annotated (f := fun n => { n with keywords := { n.keywords with description := some text } })
        (by simp [named, annotating]) fun _ => ⟨rfl, rfl⟩, .inl⟩
    · cases applied
  · rename_i named
    cases applied
    exact ⟨.listed named rfl rfl, nofun⟩
  · rename_i named
    obtain ⟨argument, given, applied⟩ := bind_ok.mp applied
    obtain ⟨other, lowered, same⟩ := bind_ok.mp applied
    cases same
    exact ⟨.either named (part_of_first given lowered) rfl rfl, nofun⟩
  · rename_i named
    obtain ⟨argument, given, applied⟩ := bind_ok.mp applied
    obtain ⟨other, lowered, same⟩ := bind_ok.mp applied
    cases same
    exact ⟨.both named (part_of_first given lowered) rfl rfl, nofun⟩
  · rename_i named
    cases applied
    exact ⟨change_annotated (f := fun n => pushValidation { n with keywords := { n.keywords with readOnly := true } } _)
      (by simp [named, annotating]) fun _ => ⟨rfl, rfl⟩, .inl⟩
  · split at applied
    · cases applied
      exact ⟨change_kept ⟨rfl, rfl⟩, .inl⟩
    · cases applied

theorem apply_step (applied : apply lower cx s call = .ok next) : Step lower cx s call next := by
  unfold apply at applied
  obtain ⟨general, given, applied⟩ := bind_ok.mp applied
  split at applied
  · cases applied
    exact applyGeneral_step given
  · obtain ⟨constrained, given, applied⟩ := bind_ok.mp applied
    split at applied
    · cases applied
      exact ⟨change_kept (constrain_body given), .inl⟩
    · obtain ⟨object, given, applied⟩ := bind_ok.mp applied
      split at applied
      · cases applied
        obtain ⟨change, mark⟩ := applyToObject_change given
        exact ⟨change, fun marked => .inl (mark marked)⟩
      · obtain ⟨collection, given, applied⟩ := bind_ok.mp applied
        split at applied
        · cases applied
          exact ⟨applyToCollection_change given, .inl⟩
        · cases applied

structure Leaf (n : SchemaNode) : Prop where
  nullable : n.metadata.nullable = false
  reference : n.reference = none
  children : n.children = []

theorem Leaf.built (leaf : Leaf node) : Built lower cx base node :=
  .parts leaf.nullable leaf.reference fun child listed => by simp [leaf.children] at listed

theorem scalar?_leaf (known : scalar? name = some node) : Leaf node := by
  unfold scalar? at known
  split at known
  case h_18 =>
    obtain ⟨format, _, rfl⟩ := Option.map_eq_some_iff.mp known
    exact ⟨rfl, rfl, rfl⟩
  all_goals
    cases known
    exact ⟨rfl, rfl, rfl⟩

theorem buildScalar_leaf (built : buildScalar base = .ok node) : Leaf node := by
  unfold buildScalar at built
  split at built
  · split at built
    · cases built
      exact ⟨rfl, rfl, rfl⟩
    · cases built
  · split at built
    · cases built
      exact scalar?_leaf ‹_›
    · cases built

theorem buildObject_built (built : buildObject lower cx base = .ok node) : Built lower cx base node := by
  have members {properties : Entries SchemaNode} {additional : Option (Bool ⊕ SchemaNode)}
      (schemaless : ∀ child, additional ≠ some (.inr child)) (each : ∀ entry ∈ properties, Part lower cx base entry.2) :
      Built lower cx base (withAdditional (objectNode properties) additional) := by
    refine .parts rfl rfl fun child listed => ?_
    rcases mem_children_withAdditional listed with new | old
    · exact absurd new (schemaless child)
    · rcases mem_children_withProperties old with ⟨entry, inside, rfl⟩ | none
      · exact each entry inside
      · cases none
  unfold buildObject at built
  dsimp only at built
  split at built
  · rename_i given
    obtain ⟨properties, shape, built⟩ := bind_ok.mp built
    cases built
    refine members ?_ (lowerShape_parts (argument?_mem given) shape)
    intro child
    split <;> simp
  · obtain ⟨properties, none, built⟩ := bind_ok.mp built
    cases none
    cases built
    refine members ?_ nofun
    intro child
    split <;> simp

theorem buildUnion_built (built : buildUnion lower cx base = .ok node) : Built lower cx base node := by
  unfold buildUnion at built
  split at built
  · split at built
    · obtain ⟨options, given, built⟩ := bind_ok.mp built
      obtain ⟨members, lowered, built⟩ := bind_ok.mp built
      cases built
      refine .parts rfl rfl ?_
      simpa [children, Parts.mem_toList, Parts.propertyEntries] using lowerMembers_parts (argumentOr_mem given) lowered
    · cases built
  · obtain ⟨options, given, built⟩ := bind_ok.mp built
    obtain ⟨members, lowered, built⟩ := bind_ok.mp built
    cases built
    refine .parts rfl rfl ?_
    simpa [children, Parts.mem_toList, Parts.propertyEntries] using lowerMembers_parts (argumentOr_mem given) lowered

theorem buildIntersection_built (built : buildIntersection lower cx base = .ok node) : Built lower cx base node := by
  unfold buildIntersection at built
  split at built
  · cases built
  · obtain ⟨members, lowered, built⟩ := bind_ok.mp built
    cases built
    refine .parts rfl rfl fun child listed => ?_
    have listed : child ∈ members := by simpa [children, Parts.mem_toList, Parts.propertyEntries] using listed
    obtain ⟨argument, given, lowered⟩ := mapM_mem lowered listed
    exact .lowered given (.refl _) lowered

theorem buildList_built (built : buildList lower cx base = .ok node) : Built lower cx base node := by
  unfold buildList at built
  obtain ⟨argument, given, built⟩ := bind_ok.mp built
  obtain ⟨item, lowered, built⟩ := bind_ok.mp built
  cases built
  refine .parts rfl rfl fun child listed => ?_
  obtain rfl : item = child := by simpa [children, Parts.mem_toList, Parts.propertyEntries] using listed
  exact part_of_first given lowered

theorem buildTuple_built (built : buildTuple lower cx base = .ok node) : Built lower cx base node := by
  unfold buildTuple at built
  obtain ⟨argument, given, built⟩ := bind_ok.mp built
  obtain ⟨members, lowered, built⟩ := bind_ok.mp built
  obtain ⟨rest, more, built⟩ := bind_ok.mp built
  cases built
  have further : ∀ child, rest = some child → Part lower cx base child := by
    rintro child rfl
    cases second : base.argument? 1 with
    | none => simp [second, pure, Except.pure] at more
    | some argument =>
      rw [second, Option.mapM_some] at more
      obtain ⟨_, lowered, same⟩ := bind_ok.mp more
      cases same
      exact .lowered (argument?_mem second) (.refl _) lowered
  refine .parts rfl rfl fun child listed => ?_
  have listed : rest = some child ∨ child ∈ members := by
    simpa [children, Parts.mem_toList, Parts.propertyEntries] using listed
  rcases listed with item | member
  · exact further child item
  · exact lowerMembers_parts (first_mem given) lowered child member

theorem buildRecord_built (built : buildRecord lower cx base = .ok node) : Built lower cx base node := by
  unfold buildRecord at built
  split at built
  · rename_i last given
    obtain ⟨value, lowered, built⟩ := bind_ok.mp built
    have part : Part lower cx base value := .lowered (List.mem_of_getLast? given) (.refl _) lowered
    have fresh {n : SchemaNode} (around : n.children = [value]) (nullable : n.metadata.nullable = false)
        (reference : n.reference = none) : Built lower cx base n := by
      refine .parts nullable reference ?_
      rw [around]
      exact List.forall_mem_singleton.mpr part
    cases built
    split
    · exact fresh rfl rfl rfl
    · exact fresh rfl rfl rfl
  · cases built

theorem namedEnum_built (given : a ∈ base.arguments) (named : (a.site.unwrap.kind == .identifier) = true) :
    Built lower cx base (namedEnum cx a.site.unwrap.text) := by
  unfold namedEnum
  split
  · exact Leaf.built ⟨rfl, rfl, rfl⟩
  · exact .unlisted given (Site.exposes_unwrap _) (beq_iff_eq.mp named) ‹_›

theorem buildEnum_built (built : buildEnum cx base = .ok node) : Built lower cx base node := by
  unfold buildEnum at built
  obtain ⟨argument, given, built⟩ := bind_ok.mp built
  dsimp only at built
  split at built
  · cases built
    exact namedEnum_built (first_mem given) ‹_›
  · unfold buildTextEnum at built
    split at built
    · cases built
      exact Leaf.built ⟨rfl, rfl, rfl⟩
    · cases built

theorem buildComposition_built (built : buildComposition lower cx base = .ok node) : Built lower cx base node := by
  unfold buildComposition at built
  split at built
  · exact buildTuple_built built
  · exact buildRecord_built built
  · exact buildRecord_built built
  · exact buildEnum_built built
  · exact buildList_built built

theorem givenBy?_reaches {P : Tree → Prop} {function : Site} (given : givenBy? function = some site) (own : P function.tree)
    (block : ∀ body, function.tree.child? .body = some body → P body) : Site.Reaches P function site := by
  have returned : ∀ body, function.child? .body = some body → (if body.kind != .statementBlock then some body
      else (body.parts.find? (·.kind == .returnStatement)).bind fun statement => statement.parts.head?) = some site →
      Site.Reaches P function site := by
    intro body stands given
    have inside := Site.Reaches.child? (P := P) (fun _ => own) stands
    split at given
    · cases given
      exact inside
    · obtain ⟨statement, found, first⟩ := Option.bind_eq_some_iff.mp given
      obtain ⟨tree, child, rfl⟩ := Option.map_eq_some_iff.mp stands
      have returns : (statement.kind == .returnStatement) = true :=
        List.find?_some (p := fun s : Site => s.kind == .returnStatement) found
      have open_ : statement.kind.isScope = false := by
        rw [beq_iff_eq.mp returns]
        rfl
      have below := Site.Reaches.part (P := P) (fun _ => block tree child) (List.mem_of_find?_eq_some found)
      exact inside.trans (below.trans (Site.exposes_part open_ (List.mem_of_head? first)).reaches)
  unfold givenBy? at given
  split at given
  · obtain ⟨body, stands, given⟩ := Option.bind_eq_some_iff.mp given
    exact returned body stands given
  · obtain ⟨body, stands, given⟩ := Option.bind_eq_some_iff.mp given
    exact returned body stands given
  · cases given

theorem given_mem_preorder {a : Argument} (given : givenBy? a.site.unwrap = some site) : site ∈ a.site.preorder := by
  have reaches := givenBy?_reaches (P := fun _ => True) given trivial fun _ _ => trivial
  exact Site.mem_preorder_trans reaches.inside (Site.exposes_unwrap _).inside

theorem buildLazy_built (named : base.name = "lazy") (built : buildLazy lower cx base = .ok node) :
    Built lower cx base node := by
  unfold buildLazy at built
  obtain ⟨argument, given, built⟩ := bind_ok.mp built
  dsimp only at built
  split at built
  · exact .given named (first_mem given) ‹_› built
  · cases built

theorem buildNativeEnum_built (built : buildNativeEnum cx base = .ok node) : Built lower cx base node := by
  unfold buildNativeEnum at built
  obtain ⟨argument, given, built⟩ := bind_ok.mp built
  dsimp only at built
  split at built
  · cases built
    exact namedEnum_built (first_mem given) ‹_›
  · cases built

theorem build_built (built : build lower cx base = .ok node) : Built lower cx base node := by
  unfold build at built
  split at built
  · cases built
  · exact (buildScalar_leaf built).built
  · exact buildObject_built built
  · exact buildUnion_built built
  · exact buildIntersection_built built
  · exact buildComposition_built built
  · split at built
    · exact buildLazy_built ‹_› built
    · exact buildNativeEnum_built built

end Builder
end SchemaAtlas
