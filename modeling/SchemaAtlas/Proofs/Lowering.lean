import SchemaAtlas.Builder.Lowering.Expression
import SchemaAtlas.Proofs.ChainCalls
import SchemaAtlas.Proofs.ChainState
import SchemaAtlas.Proofs.Pointer

namespace SchemaAtlas
namespace Builder

open Script SchemaNode

variable {lower : Lower} {cx : Context} {s next : State} {n node : SchemaNode} {base call : Call} {site : Site}

-- A lowering that gives tidy nodes only. What stands around an inner expression is tidy
-- where the inner expressions are.
def Sound (lower : Lower) : Prop := ∀ cx site node, lower cx site = .ok node → node.Tidy

theorem tidy_referenceTo (named : name ≠ "") : (referenceTo name).Tidy := tidy_ofReference named

theorem text_ne_empty (named : site.kind.isName = true) : site.text ≠ "" := site.tree.named named

theorem lowerMembers_tidy (sound : Sound lower) (lowered : lowerMembers lower cx site = .ok nodes) :
    ∀ node ∈ nodes, node.Tidy := by
  unfold lowerMembers at lowered
  dsimp only at lowered
  split at lowered
  · cases lowered
  · intro node listed
    obtain ⟨part, _, lowered⟩ := mapM_mem lowered listed
    exact sound _ _ _ lowered

theorem lowerMember_tidy (sound : Sound lower) (lowered : lowerMember lower cx site = .ok members) :
    ∀ entry ∈ members, entry.2.Tidy := by
  unfold lowerMember at lowered
  split at lowered
  · split at lowered
    · split at lowered
      · cases lowered
      · obtain ⟨node, value, rfl⟩ := map_ok.mp lowered
        intro entry listed
        obtain rfl := List.mem_singleton.mp listed
        exact sound _ _ _ value
    · cases lowered
      exact fun _ listed => absurd listed List.not_mem_nil
  · rename_i shorthand
    cases lowered
    intro entry listed
    obtain rfl := List.mem_singleton.mp listed
    exact (tidy_referenceTo (text_ne_empty (by rw [shorthand]; rfl))).congr rfl rfl rfl
  · cases lowered
  · cases lowered

theorem lowerShape_tidy (sound : Sound lower) (lowered : lowerShape lower cx site = .ok properties) :
    properties.Distinct ∧ ∀ entry ∈ properties, entry.2.Tidy := by
  unfold lowerShape at lowered
  dsimp only at lowered
  split at lowered
  · cases lowered
  · obtain ⟨groups, all, rfl⟩ := map_ok.mp lowered
    refine ⟨Entries.ofList_distinct _, ?_⟩
    intro entry listed
    obtain ⟨group, given, inside⟩ := List.mem_flatten.mp (Entries.mem_ofList listed)
    obtain ⟨member, _, one⟩ := mapM_mem all given
    exact lowerMember_tidy sound one entry inside

theorem tidy_newObject (distinct : properties.Distinct) (members : ∀ entry ∈ properties, entry.2.Tidy)
    (schemaless : ∀ child, additional ≠ some (.inr child)) :
    (withAdditional (objectNode properties) additional).Tidy :=
  tidy_withAdditional (tidy_objectNode distinct members) rfl fun child given => absurd given (schemaless child)

theorem buildObject_tidy (sound : Sound lower) (built : buildObject lower cx base = .ok node) :
    node.Tidy := by
  unfold buildObject at built
  dsimp only at built
  split at built
  · obtain ⟨properties, shape, built⟩ := bind_ok.mp built
    cases built
    obtain ⟨distinct, members⟩ := lowerShape_tidy sound shape
    refine tidy_newObject distinct members ?_
    intro child
    split <;> simp
  · obtain ⟨properties, none, built⟩ := bind_ok.mp built
    cases none
    cases built
    refine tidy_newObject List.nodup_nil (fun _ listed => absurd listed List.not_mem_nil) ?_
    intro child
    split <;> simp

theorem addition_tidy (sound : Sound lower) (lowered : addition lower cx site = .ok node) : node.Tidy := by
  unfold addition at lowered
  split at lowered
  · obtain ⟨properties, shape, rfl⟩ := map_ok.mp lowered
    obtain ⟨distinct, members⟩ := lowerShape_tidy sound shape
    exact tidy_objectNode distinct members
  · exact sound _ _ _ lowered

theorem isObject_plain (object : isObject n = true) : n.reference = none := by
  simp only [isObject, isReference, Bool.and_eq_true, Bool.not_eq_true', Option.isSome_eq_false_iff,
    Option.isNone_iff_eq_none] at object
  exact object.2

theorem extend_tidy (below : Sound lower) (sound : s.node.Tidy)
    (extended : extend lower cx s call = .ok next) : next.node.Tidy := by
  unfold extend at extended
  obtain ⟨argument, _, extended⟩ := bind_ok.mp extended
  obtain ⟨added, lowered, extended⟩ := bind_ok.mp extended
  have added := addition_tidy below lowered
  split at extended
  · rename_i objects
    cases extended
    exact tidy_merge sound (isObject_plain (Bool.and_eq_true_iff.mp objects).1) added
  · cases extended
    exact State.tidy_wrapAll sound added

theorem setKey_tidy (below : Sound lower) (sound : n.Tidy) (plain : n.reference = none)
    (set : setKey lower cx n call = .ok node) : node.Tidy := by
  unfold setKey at set
  split at set
  · split at set
    · obtain ⟨value, lowered, set⟩ := bind_ok.mp set
      cases set
      refine tidy_withProperties sound plain (Entries.insert_distinct sound.own.distinct) ?_
      intro entry listed
      rcases Entries.mem_insert listed with old | rfl
      · exact sound.below _ (mem_children_of_property old)
      · exact below _ _ _ lowered
    · cases set
  · cases set

theorem markProperties_tidy (sound : n.Tidy) (plain : n.reference = none)
    (marked : markProperties n call required = .ok node) : node.Tidy := by
  unfold markProperties at marked
  obtain ⟨mask, _, marked⟩ := bind_ok.mp marked
  cases marked
  have distinct := sound.own.distinct
  refine tidy_withProperties sound plain (by simpa [Entries.Distinct, Entries.keys, Function.comp_def] using distinct) ?_
  intro entry listed
  obtain ⟨old, inside, rfl⟩ := List.mem_map.mp listed
  have old := sound.below _ (mem_children_of_property inside)
  dsimp only
  split
  · exact old.congr rfl rfl rfl
  · exact old

theorem keepProperties_tidy (sound : n.Tidy) (plain : n.reference = none)
    (kept : keepProperties n call keep = .ok node) : node.Tidy := by
  unfold keepProperties at kept
  obtain ⟨mask, _, kept⟩ := bind_ok.mp kept
  split at kept
  · cases kept
    refine tidy_withProperties sound plain ((List.filter_sublist.map Prod.fst).nodup sound.own.distinct) ?_
    intro entry listed
    exact sound.below _ (mem_children_of_property (List.mem_of_mem_filter listed))
  · cases kept

theorem keyNames_tidy : (keyNames n).Tidy :=
  tidy_ofParts rfl rfl (by simp [Parts.mem_toList, Parts.propertyEntries])

theorem applyObjectMethod_tidy (below : Sound lower) (sound : n.Tidy) (plain : n.reference = none)
    (applied : applyObjectMethod lower cx n call = .ok (some node)) : node.Tidy := by
  unfold applyObjectMethod at applied
  split at applied
  · obtain ⟨_, set, same⟩ := bind_ok.mp applied
    cases same
    exact setKey_tidy below sound plain set
  · obtain ⟨_, marked, same⟩ := bind_ok.mp applied
    cases same
    exact markProperties_tidy sound plain marked
  · obtain ⟨_, marked, same⟩ := bind_ok.mp applied
    cases same
    exact markProperties_tidy sound plain marked
  · cases applied
    exact tidy_deepPartial sound
  · cases applied
    exact tidy_withAdditional sound plain (by simp)
  · cases applied
    exact tidy_withAdditional sound plain (by simp)
  · cases applied
    exact tidy_withAdditional sound plain (by simp)
  · cases applied
    exact tidy_withAdditional sound plain (by simp)
  · cases applied
    exact tidy_withAdditional sound plain (by simp)
  · obtain ⟨argument, _, applied⟩ := bind_ok.mp applied
    obtain ⟨rest, lowered, same⟩ := bind_ok.mp applied
    cases same
    refine tidy_withAdditional sound plain ?_
    rintro child ⟨⟩
    exact below _ _ _ lowered
  · obtain ⟨_, kept, same⟩ := bind_ok.mp applied
    cases same
    exact keepProperties_tidy sound plain kept
  · obtain ⟨_, kept, same⟩ := bind_ok.mp applied
    cases same
    exact keepProperties_tidy sound plain kept
  · cases applied
    exact keyNames_tidy
  · cases applied

theorem applyToObject_tidy (below : Sound lower) (sound : s.node.Tidy)
    (applied : applyToObject lower cx s call = .ok (some next)) : next.node.Tidy := by
  unfold applyToObject at applied
  split at applied
  · obtain ⟨_, extended, same⟩ := bind_ok.mp applied
    cases same
    exact extend_tidy below sound extended
  · split at applied
    · rename_i object
      obtain ⟨result, method, same⟩ := bind_ok.mp applied
      obtain ⟨node, rfl, rfl⟩ := Option.map_eq_some_iff.mp (Except.ok.inj same)
      exact applyObjectMethod_tidy below sound (isObject_plain object) method
    · cases applied

theorem scalar?_tidy (known : scalar? name = some node) : node.Tidy := by
  unfold scalar? at known
  have blank : ({} : SchemaNode).Tidy :=
    tidy_ofParts rfl rfl (by simp [Parts.mem_toList, Parts.propertyEntries])
  split at known
  case h_18 =>
    obtain ⟨format, _, rfl⟩ := Option.map_eq_some_iff.mp known
    exact tidy_ofFormat _ _
  all_goals cases known
  all_goals first
    | exact tidy_ofType _
    | exact tidy_ofFormat _ _
    | exact tidy_pushValidation blank
    | exact tidy_pushValidation (tidy_ofType _)
    | exact tidy_ofParts rfl rfl (by simp [Parts.mem_toList, Parts.propertyEntries])

theorem buildScalar_tidy (built : buildScalar base = .ok node) : node.Tidy := by
  unfold buildScalar at built
  split at built
  · split at built
    · cases built
      exact tidy_ofParts rfl rfl (by simp [Parts.mem_toList, Parts.propertyEntries])
    · cases built
  · split at built
    · cases built
      exact scalar?_tidy ‹_›
    · cases built

theorem namedEnum_tidy (named : name ≠ "") : (namedEnum cx name).Tidy := by
  unfold namedEnum
  split
  · exact tidy_ofParts rfl rfl (by simp [Parts.mem_toList, Parts.propertyEntries])
  · exact tidy_referenceTo named

theorem buildLazy_tidy (sound : Sound lower) (built : buildLazy lower cx base = .ok node) : node.Tidy := by
  unfold buildLazy at built
  obtain ⟨argument, _, built⟩ := bind_ok.mp built
  dsimp only at built
  split at built
  · exact sound _ _ _ built
  · cases built

theorem identifier_text_ne_empty (identifier : (site.kind == .identifier) = true) : site.text ≠ "" := by
  refine text_ne_empty ?_
  rw [beq_iff_eq.mp identifier]
  rfl

theorem buildNativeEnum_tidy (built : buildNativeEnum cx base = .ok node) : node.Tidy := by
  unfold buildNativeEnum at built
  obtain ⟨argument, _, built⟩ := bind_ok.mp built
  dsimp only at built
  split at built
  · cases built
    exact namedEnum_tidy (identifier_text_ne_empty ‹_›)
  · cases built

theorem buildUnion_tidy (sound : Sound lower) (built : buildUnion lower cx base = .ok node) :
    node.Tidy := by
  unfold buildUnion at built
  split at built
  · split at built
    · obtain ⟨options, _, built⟩ := bind_ok.mp built
      obtain ⟨members, lowered, built⟩ := bind_ok.mp built
      cases built
      refine tidy_ofParts rfl rfl ?_
      simpa [Parts.mem_toList, Parts.propertyEntries] using lowerMembers_tidy sound lowered
    · cases built
  · obtain ⟨options, _, built⟩ := bind_ok.mp built
    obtain ⟨members, lowered, built⟩ := bind_ok.mp built
    cases built
    refine tidy_ofParts rfl rfl ?_
    simpa [Parts.mem_toList, Parts.propertyEntries] using lowerMembers_tidy sound lowered

theorem buildIntersection_tidy (sound : Sound lower) (built : buildIntersection lower cx base = .ok node) :
    node.Tidy := by
  unfold buildIntersection at built
  split at built
  · cases built
  · obtain ⟨members, lowered, built⟩ := bind_ok.mp built
    cases built
    refine tidy_ofParts rfl rfl ?_
    intro child listed
    have listed : child ∈ members := by simpa [Parts.mem_toList, Parts.propertyEntries] using listed
    obtain ⟨argument, _, lowered⟩ := mapM_mem lowered listed
    exact sound _ _ _ lowered

theorem buildList_tidy (sound : Sound lower) (built : buildList lower cx base = .ok node) : node.Tidy := by
  unfold buildList at built
  obtain ⟨argument, _, built⟩ := bind_ok.mp built
  obtain ⟨item, lowered, built⟩ := bind_ok.mp built
  cases built
  refine tidy_ofParts rfl rfl ?_
  intro child listed
  obtain rfl : item = child := by simpa [Parts.mem_toList, Parts.propertyEntries] using listed
  exact sound _ _ _ lowered

theorem buildTuple_tidy (sound : Sound lower) (built : buildTuple lower cx base = .ok node) :
    node.Tidy := by
  unfold buildTuple at built
  obtain ⟨argument, _, built⟩ := bind_ok.mp built
  obtain ⟨members, lowered, built⟩ := bind_ok.mp built
  obtain ⟨rest, more, built⟩ := bind_ok.mp built
  cases built
  have further : ∀ child, rest = some child → child.Tidy := by
    rintro child rfl
    cases given : base.argument? 1 with
    | none => simp [given, pure, Except.pure] at more
    | some argument =>
      rw [given, Option.mapM_some] at more
      obtain ⟨_, lowered, same⟩ := bind_ok.mp more
      cases same
      exact sound _ _ _ lowered
  refine tidy_ofParts rfl rfl ?_
  intro child listed
  have listed : rest = some child ∨ child ∈ members := by
    simpa [Parts.mem_toList, Parts.propertyEntries] using listed
  rcases listed with item | member
  · exact further child item
  · exact lowerMembers_tidy sound lowered child member

theorem buildRecord_tidy (sound : Sound lower) (built : buildRecord lower cx base = .ok node) :
    node.Tidy := by
  unfold buildRecord at built
  split at built
  · obtain ⟨value, lowered, built⟩ := bind_ok.mp built
    have mapped : SchemaNode.Tidy
        { keywords := { type := some .object }, parts := { additional := some (.inr value) } } := by
      refine tidy_ofParts rfl rfl ?_
      intro child listed
      obtain rfl : value = child := by simpa [Parts.mem_toList, Parts.propertyEntries] using listed
      exact sound _ _ _ lowered
    cases built
    split
    · exact tidy_pushValidation mapped
    · exact mapped
  · cases built

theorem buildEnum_tidy (built : buildEnum cx base = .ok node) : node.Tidy := by
  unfold buildEnum at built
  obtain ⟨argument, _, built⟩ := bind_ok.mp built
  dsimp only at built
  split at built
  · cases built
    exact namedEnum_tidy (identifier_text_ne_empty ‹_›)
  · unfold buildTextEnum at built
    split at built
    · cases built
      exact tidy_ofParts rfl rfl (by simp [Parts.mem_toList, Parts.propertyEntries])
    · cases built

theorem buildComposition_tidy (sound : Sound lower) (built : buildComposition lower cx base = .ok node) :
    node.Tidy := by
  unfold buildComposition at built
  split at built
  · exact buildTuple_tidy sound built
  · exact buildRecord_tidy sound built
  · exact buildRecord_tidy sound built
  · exact buildEnum_tidy built
  · exact buildList_tidy sound built

theorem build_tidy (sound : Sound lower) (built : build lower cx base = .ok node) : node.Tidy := by
  unfold build at built
  split at built
  · cases built
  · exact buildScalar_tidy built
  · exact buildObject_tidy sound built
  · exact buildUnion_tidy sound built
  · exact buildIntersection_tidy sound built
  · exact buildComposition_tidy sound built
  · split at built
    · exact buildLazy_tidy sound built
    · exact buildNativeEnum_tidy built

theorem restrictEnum_tidy (sound : n.Tidy) (plain : n.reference = none)
    (restricted : restrictEnum n values call = .ok node) : node.Tidy := by
  unfold restrictEnum at restricted
  split at restricted
  · cases restricted
    exact tidy_withKeywords sound plain rfl
  · cases restricted

theorem setRest_tidy (below : Sound lower) (sound : n.Tidy) (plain : n.reference = none)
    (set : setRest lower cx n call = .ok node) : node.Tidy := by
  unfold setRest at set
  obtain ⟨argument, _, set⟩ := bind_ok.mp set
  obtain ⟨rest, lowered, set⟩ := bind_ok.mp set
  cases set
  refine tidy_plain plain sound.own.distinct sound.own.required ?_
  intro child listed
  rcases Parts.mem_toList.mp listed with member | item | other
  · exact sound.below child (Parts.mem_toList.mpr (.inl member))
  · cases item
    exact below _ _ _ lowered
  · exact sound.below child (Parts.mem_toList.mpr (.inr (.inr other)))

theorem applyToCollection_tidy (below : Sound lower) (sound : n.Tidy)
    (applied : applyToCollection lower cx n call = .ok (some node)) : node.Tidy := by
  unfold applyToCollection at applied
  split at applied
  · rename_i listed
    have plain := sound.plain (hasStructure_of_enum listed)
    split at applied
    · obtain ⟨_, restricted, same⟩ := bind_ok.mp applied
      cases same
      exact restrictEnum_tidy sound plain restricted
    · split at applied
      · obtain ⟨_, set, same⟩ := bind_ok.mp applied
        cases same
        exact setRest_tidy below sound plain set
      · cases applied
  · rename_i listed
    have plain := sound.plain (hasStructure_of_prefixItems listed)
    split at applied
    · obtain ⟨_, set, same⟩ := bind_ok.mp applied
      cases same
      exact setRest_tidy below sound plain set
    · cases applied
  · cases applied

theorem applyDefault_tidy (sound : s.node.Tidy) : (applyDefault s call).node.Tidy := by
  unfold applyDefault
  dsimp only
  split
  · exact State.tidy_setDefault sound
  · exact tidy_pushValidation sound

theorem applyGeneral_tidy (below : Sound lower) (sound : s.node.Tidy)
    (applied : applyGeneral lower cx s call = .ok (some next)) : next.node.Tidy := by
  unfold applyGeneral at applied
  split at applied
  · cases applied
    exact sound
  · cases applied
    exact sound
  · cases applied
    exact sound
  · cases applied
    exact applyDefault_tidy sound
  · cases applied
    exact applyDefault_tidy sound
  · split at applied
    · cases applied
      exact State.tidy_describe sound
    · cases applied
  · cases applied
    exact State.tidy_wrapArray sound
  · obtain ⟨argument, _, applied⟩ := bind_ok.mp applied
    obtain ⟨other, lowered, same⟩ := bind_ok.mp applied
    cases same
    exact State.tidy_wrapAny sound (below _ _ _ lowered)
  · obtain ⟨argument, _, applied⟩ := bind_ok.mp applied
    obtain ⟨other, lowered, same⟩ := bind_ok.mp applied
    cases same
    exact State.tidy_wrapAll sound (below _ _ _ lowered)
  · cases applied
    exact tidy_pushValidation (State.tidy_setReadOnly sound)
  · split at applied
    · cases applied
      exact tidy_pushValidation sound
    · cases applied

theorem apply_tidy (below : Sound lower) (sound : s.node.Tidy)
    (applied : apply lower cx s call = .ok next) : next.node.Tidy := by
  unfold apply at applied
  obtain ⟨general, given, applied⟩ := bind_ok.mp applied
  split at applied
  · cases applied
    exact applyGeneral_tidy below sound given
  · obtain ⟨constrained, given, applied⟩ := bind_ok.mp applied
    split at applied
    · cases applied
      exact constrain_tidy sound given
    · obtain ⟨object, given, applied⟩ := bind_ok.mp applied
      split at applied
      · cases applied
        exact applyToObject_tidy below sound given
      · obtain ⟨collection, given, applied⟩ := bind_ok.mp applied
        split at applied
        · cases applied
          exact applyToCollection_tidy below sound given
        · cases applied

theorem calls_tidy (below : Sound lower) {calls : List Call} (sound : s.node.Tidy)
    (applied : calls.foldlM (apply lower cx) s = .ok next) : next.node.Tidy :=
  foldlM_keeps (P := fun state => state.node.Tidy) sound (fun _ _ _ _ tidy step => apply_tidy below tidy step) applied

theorem lowerRoot_tidy (sound : Sound lower) {chain : Chain} (found : cx.bindings.chain? site = some chain)
    (lowered : lowerRoot lower cx chain.root = .ok node) : node.Tidy := by
  cases start : chain.root with
  | builder base coerce =>
    rw [start] at lowered
    obtain ⟨built, building, same⟩ := bind_ok.mp lowered
    have built := build_tidy sound building
    cases same
    split
    · exact tidy_pushValidation built
    · exact built
  | identifier other =>
    rw [start] at lowered
    cases lowered
    refine tidy_referenceTo (text_ne_empty ?_)
    rw [(Bindings.chain?_reads found).identifier_root start]
    rfl

theorem lowerOver_ok (lowered : lowerOver lower cx site = .ok node) : cx.depth ≤ cx.maxDepth ∧
    ∃ chain root state, cx.bindings.chain? site = some chain ∧ lowerRoot lower cx chain.root = .ok root ∧
      chain.calls.foldlM (apply lower cx) (State.start root) = .ok state ∧ state.finish = node := by
  unfold lowerOver at lowered
  obtain ⟨checked, lowered⟩ := check_ok.mp lowered
  have within : cx.depth ≤ cx.maxDepth := by
    unfold Context.checkDepth at checked
    split at checked
    · assumption
    · cases checked
  split at lowered
  · cases lowered
  · rename_i chain found
    obtain ⟨root, rooted, lowered⟩ := bind_ok.mp lowered
    obtain ⟨state, applied, same⟩ := bind_ok.mp lowered
    exact ⟨within, chain, root, state, found, rooted, applied, Except.ok.inj same⟩

theorem lowerOver_sound (below : Sound lower) : Sound (lowerOver lower) := by
  intro cx site node lowered
  obtain ⟨_, chain, root, state, found, rooted, applied, rfl⟩ := lowerOver_ok lowered
  have start := State.tidy_start (lowerRoot_tidy below found rooted)
  exact State.tidy_finish (calls_tidy below start applied)

theorem lowerWithin_sound (levels : Nat) : Sound (lowerWithin levels) := by
  induction levels with
  | zero =>
    intro cx site node lowered
    cases lowered
  | succ levels ih => exact lowerOver_sound ih

theorem lowerExpression_tidy (lowered : lowerExpression cx site = .ok node) : node.Tidy :=
  lowerWithin_sound _ _ _ _ lowered

end Builder
end SchemaAtlas
