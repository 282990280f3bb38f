import SchemaAtlas.Proofs.LintFindings
import SchemaAtlas.Proofs.ParsedSpots

namespace SchemaAtlas
namespace Builder

open Script

variable {b : Bindings} {all : List Declaration} {root : Tree} {s t : Site} {calls : List Call} {chain : Chain}
  {kind : ShapeKind} {p : Place}

-- How often something is reported. The places where it may be reported belong to the pieces of
-- the tree: to a member that of its name, to a literal those of its keys and spreads.

def placesAt (s : Site) : List Place :=
  match s.kind with
  | .member => (s.child? .property).toList.map fun name => (.legacySyntax, some name.location)
  | .object => (s.parts.flatMap memberFindings).map Diagnostic.place
  | _ => []

def callPlaces (call : Call) : List Place :=
  (.legacySyntax, some call.location) :: (shapeFindings call).map Diagnostic.place

def chainPlaces (chain : Chain) : List Place :=
  (chain.base?.toList.flatMap fun base => (shapeFindings base).map Diagnostic.place) ++ chain.calls.flatMap callPlaces

theorem legacyFindings_sublist (kind : ShapeKind) (call : Call) :
    ((legacyFindings kind call).map Diagnostic.place).Sublist [(.legacySyntax, some call.location)] := by
  unfold legacyFindings
  split
  · exact List.Sublist.refl _
  · exact List.nil_sublist _

theorem callFindings_sublist (kind : ShapeKind) (calls : List Call) :
    ((callFindings kind calls).map Diagnostic.place).Sublist (calls.flatMap callPlaces) := by
  induction calls generalizing kind with
  | nil => exact List.Sublist.refl _
  | cons first rest ih =>
    rw [callFindings, List.map_append, List.map_append, List.flatMap_cons]
    exact ((legacyFindings_sublist kind first).append_right _).append (ih _)

theorem chainFindings_sublist (chain : Chain) (kind : ShapeKind) :
    ((chainFindings chain kind).map Diagnostic.place).Sublist (chainPlaces chain) := by
  unfold chainFindings chainPlaces
  rw [List.map_append]
  refine List.Sublist.append ?_ (callFindings_sublist kind _)
  cases chain.base? with
  | none => exact List.Sublist.refl _
  | some base =>
    rw [Option.toList_some, List.flatMap_singleton]

def calledPlaces (s : Site) : List Place := (s.child? .function).toList.flatMap fun function => placesAt function.unwrap

def argumentPlaces (list : Site) : List Place := list.parts.head?.toList.flatMap fun first => placesAt first.unwrap

def ownPlaces (s : Site) : List Place := calledPlaces s ++ (s.child? .arguments).toList.flatMap argumentPlaces

theorem placesAt_object (literal : s.kind = .object) : placesAt s = (s.parts.flatMap memberFindings).map Diagnostic.place := by
  rw [placesAt, literal]

theorem placesAt_member (isMember : s.kind = .member) :
    placesAt s = (s.child? .property).toList.map fun name => (.legacySyntax, some name.location) := by
  rw [placesAt, isMember]

theorem shapeFindings_sublist {call : Call} {name : Site} (given : call.arguments = (Call.ofTree name s).arguments) :
    ((shapeFindings call).map Diagnostic.place).Sublist ((s.child? .arguments).toList.flatMap argumentPlaces) := by
  unfold shapeFindings
  rw [Call.argument?, given, Call.ofTree]
  dsimp only
  cases s.child? .arguments with
  | none => exact List.nil_sublist _
  | some list =>
    rw [Option.toList_some, List.flatMap_singleton, argumentPlaces, List.head?_eq_getElem?]
    dsimp only
    rw [List.getElem?_map]
    cases list.parts[0]? with
    | none => exact List.nil_sublist _
    | some first =>
      rw [Option.toList_some, List.flatMap_singleton, Option.map_some]
      dsimp only
      split
      · rename_i shaped
        rw [placesAt_object (eq_of_beq (Bool.and_eq_true_iff.mp shaped).2)]
      · exact List.nil_sublist _

def countOwn (p : Place) (s : Site) : Nat := (ownPlaces s).count p

theorem count_built_le (base : Call) (name : Site) (isCall : s.kind = .call)
    (given : base.arguments = (Call.ofTree name s).arguments) (coerce : Bool) (calls : List Call) :
    (chainPlaces { root := .builder base coerce, calls := calls }).count p ≤
      (calls.flatMap callPlaces).count p + alongChain (countOwn p) s := by
  have shape := (shapeFindings_sublist given).count_le p
  have own : countOwn p s ≤ alongChain (countOwn p) s := alongChain_call isCall ▸ Nat.le_add_right _ _
  have whole : (chainPlaces { root := .builder base coerce, calls := calls }).count p =
      ((shapeFindings base).map Diagnostic.place).count p + (calls.flatMap callPlaces).count p := by
    rw [chainPlaces, List.count_append, Chain.base?, Option.toList_some, List.flatMap_singleton]
  rw [countOwn, ownPlaces, List.count_append] at own
  omega

theorem count_callPlaces_le {function property : Site} (called : s.child? .function = some function)
    (isMember : function.unwrap.kind = .member) (named : function.unwrap.child? .property = some property) :
    (callPlaces (Call.ofTree property s)).count p ≤ countOwn p s := by
  have shape := (@shapeFindings_sublist s (Call.ofTree property s) property rfl).count_le p
  have method : calledPlaces s = [(.legacySyntax, some (Call.ofTree property s).location)] := by
    rw [calledPlaces, called, Option.toList_some, List.flatMap_singleton, placesAt_member isMember, named]
    rfl
  rw [countOwn, ownPlaces, method, callPlaces, List.singleton_append, List.count_cons, List.count_cons]
  omega

theorem count_chainPlaces_le (reads : Bindings.Reads b calls s chain) :
    (chainPlaces chain).count p ≤ (calls.flatMap callPlaces).count p + alongChain (countOwn p) s := by
  induction reads with
  | @builder _ _ _ _ _ property isCall => exact count_built_le _ property isCall rfl _ _
  | @factory _ _ _ function isCall => exact count_built_le _ function.unwrap isCall (by rfl) _ _
  | identifier identifier => exact Nat.le_add_right _ _
  | @method chain calls s function object property isCall called isMember on named _ _ ih =>
    have receiver : receiver? s = some object.unwrap := by
      rw [receiver?, called, Option.bind_some, if_pos isMember, on]
      rfl
    have own := count_callPlaces_le (p := p) called isMember named
    rw [List.flatMap_cons, List.count_append] at ih
    rw [alongChain_call isCall, receiver, Option.map_some, Option.getD_some]
    omega

theorem count_places_le (b : Bindings) (root : Tree) (all : List Declaration) (p : Place) :
    ((findings b root all).map Diagnostic.place).count p ≤ (Site.root root).total (cutOff (countOwn p)) := by
  rw [places_perm.count_eq, List.count_flatMap]
  refine List.sum_le_sum fun s _ => ?_
  rw [Function.comp, sitePlaces, cutOff]
  split
  · rename_i cut
    cases found : b.chain? s with
    | none => exact Nat.zero_le _
    | some chain =>
      dsimp only
      cases startKind? (declarationKinds b all) chain with
      | none => exact Nat.zero_le _
      | some kind =>
        have isCall : s.kind = .call := eq_of_beq (Bool.and_eq_true_iff.mp cut).1
        have reads := Bindings.reads_iff.mp ((chain?_call isCall).symm.trans found)
        have fewer := (chainFindings_sublist chain kind).count_le p
        have bound := count_chainPlaces_le (p := p) reads
        rw [List.flatMap_nil, List.count_nil, Nat.zero_add] at bound
        exact fewer.trans bound
  · exact Nat.zero_le _

theorem placesAt_wrapper (wrapper : s.kind.isWrapper = true) : placesAt s = [] := by
  unfold placesAt
  split
  · rename_i isMember
    rw [isMember] at wrapper
    cases wrapper
  · rename_i literal
    rw [literal] at wrapper
    cases wrapper
  · rfl

def countAt (p : Place) (s : Site) : Nat := (placesAt s).count p

def countUnder (p : Place) (s : Site) : Nat := countAt p s.unwrap

theorem countUnder_wrapper (wrapper : s.kind.isWrapper = true) : countUnder p s ≤ s.below (countUnder p) := by
  have opened : s.unwrap = s ∨ ∃ child ∈ s.tree.children, s.unwrap = (s.down child).unwrap := by
    rw [Site.unwrap, Site.unwrapTree, if_pos (show s.tree.kind.isWrapper = true from wrapper)]
    split
    · rename_i child found
      exact .inr ⟨child, List.mem_of_find?_eq_some found, rfl⟩
    · exact .inl rfl
  rcases opened with same | ⟨child, listed, same⟩
  · rw [countUnder, same, countAt, placesAt_wrapper wrapper]
    exact Nat.zero_le _
  · rw [countUnder, same]
    exact Site.le_below (countUnder p) listed

def inRole (role : Role) (f : Site → Nat) (s : Site) : Nat := if s.tree.role = role then f s else 0

theorem child?_le_below_inRole {inner : Site} (f : Site → Nat) (found : s.child? role = some inner) :
    f inner ≤ s.below (inRole role f) := by
  have le := Site.child?_le_below (inRole role f) found
  obtain ⟨child, _, named, rfl⟩ := child?_kind_role found
  rwa [inRole, if_pos (show (s.down child).tree.role = role from named)] at le

def countArguments (p : Place) (list : Site) : Nat := (argumentPlaces list).count p

theorem countOwn_le : countOwn p s ≤
    s.below fun c => inRole .function (countUnder p) c + inRole .arguments (countArguments p) c := by
  rw [Site.below_add, countOwn, ownPlaces, List.count_append]
  refine Nat.add_le_add ?_ ?_
  · unfold calledPlaces
    cases found : s.child? .function with
    | none => exact Nat.zero_le _
    | some function =>
      rw [Option.toList_some, List.flatMap_singleton]
      exact child?_le_below_inRole (countUnder p) found
  · cases found : s.child? .arguments with
    | none => exact Nat.zero_le _
    | some list =>
      rw [Option.toList_some, List.flatMap_singleton]
      exact child?_le_below_inRole (countArguments p) found

theorem countArguments_le : countArguments p s ≤ s.below (countUnder p) := by
  unfold countArguments argumentPlaces
  cases first : s.parts.head? with
  | none => exact Nat.zero_le _
  | some site =>
    rw [Option.toList_some, List.flatMap_singleton]
    obtain ⟨child, part, rfl⟩ := List.mem_map.mp (List.mem_of_mem_head? first)
    exact Site.le_below (countUnder p) (List.mem_of_mem_filter part)

-- Besides what its calls take, a tree has what stands below it under wrappers to spare, or
-- what its first part has where it is a list of arguments.
theorem total_ofCall_le (formed : ∀ t ∈ s.preorder, t.tree.isFormed = true) :
    s.total (ofCall (countOwn p)) + countUnder p s ≤ s.total (countAt p) ∧
    (s.kind ≠ .call → s.kind.isWrapper = false →
      s.total (ofCall (countOwn p)) + countArguments p s ≤ s.total (countAt p)) := by
  induction s using Site.down_induction with
  | step s ih =>
    have ih (child : Tree) (listed : child ∈ s.tree.children) := ih child listed fun t deeper =>
      formed t ((Site.preorder_down_sublist listed).subset deeper)
    have under : s.below (Site.total (ofCall (countOwn p))) + s.below (countUnder p) ≤ s.below (Site.total (countAt p)) := by
      rw [← Site.below_add]
      exact Site.below_le fun child listed => (ih child listed).1
    rw [Site.total_eq, Site.total_eq]
    constructor
    · by_cases wrapper : s.kind.isWrapper = true
      · have none : ofCall (countOwn p) s = 0 := by
          refine if_neg fun isCall => ?_
          rw [isCall] at wrapper
          cases wrapper
        have opened := countUnder_wrapper (p := p) wrapper
        omega
      · have plain : countUnder p s = countAt p s :=
          congrArg (countAt p) (Site.unwrap_of_not_wrapper (Bool.not_eq_true _ ▸ wrapper))
        by_cases isCall : s.kind = .call
        · have own : ofCall (countOwn p) s = countOwn p s := if_pos isCall
          have taken := countOwn_le (p := p) (s := s)
          have each : s.below (Site.total (ofCall (countOwn p))) +
              (s.below fun c => inRole .function (countUnder p) c + inRole .arguments (countArguments p) c) ≤
              s.below (Site.total (countAt p)) := by
            rw [← Site.below_add]
            refine Site.below_le fun child listed => ?_
            unfold inRole
            by_cases list : (s.down child).tree.role = .arguments
            · have shape := Tree.list_of_isFormed (formed s (Site.mem_preorder_self s)) isCall listed list
              rw [list, if_neg (by nofun), if_pos rfl, Nat.zero_add]
              exact (ih child listed).2 shape.1 shape.2
            · rw [if_neg list, Nat.add_zero]
              have own := (ih child listed).1
              split
              · exact own
              · exact (Nat.le_add_right _ _).trans own
          omega
        · have none : ofCall (countOwn p) s = 0 := if_neg isCall
          omega
    · intro other plain
      have none : ofCall (countOwn p) s = 0 := if_neg other
      have first := countArguments_le (p := p) (s := s)
      omega

-- What may be reported stands in spots of the script: the keys in brackets and the spreads of a
-- literal in those of its members, the name of a member in its own.

def spotPlace : Spot → Place
  | .shape location => (.nonAnalyzableSchema, some location)
  | .name location => (.legacySyntax, some location)

theorem spotPlace_injective : Function.Injective spotPlace := by
  intro s t same
  cases s <;> cases t <;> simp_all [spotPlace]

def countSpots (p : Place) (s : Site) : Nat := (s.tree.ownSpots.map spotPlace).count p

def countKey (p : Place) (s : Site) : Nat := if s.kind = .computedName then countSpots p s else 0

def countMember (p : Place) (s : Site) : Nat := ((memberFindings s).map Diagnostic.place).count p

theorem total_countSpots (p : Place) (s : Site) : s.total (countSpots p) = (s.tree.spots.map spotPlace).count p := by
  rw [Tree.spots, ← Site.map_preorder, List.flatMap_map, List.map_flatMap, List.count_flatMap]
  rfl

theorem countMember_inBrackets {role : Role} (of_ : s.kind = .pair ∧ role = .key ∨ s.kind = .method ∧ role = .name) :
    countMember p s ≤ s.below (countKey p) := by
  rw [countMember, memberFindings_inBrackets of_, inBrackets]
  cases found : s.child? role with
  | none => exact Nat.zero_le _
  | some key =>
    refine le_trans ?_ (Site.child?_le_below (countKey p) found)
    by_cases computed : key.kind = .computedName
    · have own : key.tree.ownSpots = [.shape key.location] := Tree.ownSpots_of_isShape (by rw [show key.tree.kind = _ from computed]; rfl)
      rw [countKey, if_pos computed, countSpots, own]
      simp only [Option.toList_some, computed, beq_self_eq_true, List.filter_cons_of_pos, List.filter_nil]
      exact le_refl _
    · simp [computed]

theorem countMember_other (other : s.kind ∉ [.pair, .method, .spread]) : countMember p s = 0 := by
  simp only [List.mem_cons, List.not_mem_nil, or_false, not_or] at other
  unfold countMember memberFindings
  split <;> simp_all

theorem countAt_object (literal : s.kind = .object) : countAt p s ≤ s.below (countMember p) := by
  rw [countAt, placesAt_object literal, List.map_flatMap, List.count_flatMap, Site.parts, List.map_map]
  exact List.Sublist.sum_le_sum (List.filter_sublist.map _) fun _ _ => Nat.zero_le _

theorem countAt_member (isMember : s.kind = .member) : countAt p s = countSpots p s := by
  have own : s.tree.ownSpots = (s.tree.child? .property).toList.map fun name => .name name.location := by
    rw [Tree.ownSpots, show s.tree.kind = .member from isMember]
  rw [countAt, placesAt_member isMember, countSpots, own, Site.child?]
  cases s.tree.child? .property <;> rfl

theorem countAt_other (other : s.kind ∉ [.object, .member]) : countAt p s = 0 := by
  simp only [List.mem_cons, List.not_mem_nil, or_false, not_or] at other
  unfold countAt placesAt
  split <;> simp_all

theorem countMember_spread (spread : s.kind = .spread) : countMember p s = countSpots p s := by
  have own : s.tree.ownSpots = [.shape s.location] := Tree.ownSpots_of_isShape (by rw [show s.tree.kind = _ from spread]; rfl)
  rw [countMember, memberFindings, spread, countSpots, own]
  rfl

theorem countKey_other (other : s.kind ≠ .computedName) : countKey p s = 0 := if_neg other

theorem countAt_le (p : Place) (s : Site) : countAt p s + (countMember p s + countKey p s) ≤
    countSpots p s + (s.below (countMember p) + s.below (countKey p)) := by
  by_cases listed : s.kind ∈ [.object, .member, .computedName, .spread, .pair, .method]
  · simp only [List.mem_cons, List.not_mem_nil, or_false] at listed
    rcases listed with kind | kind | kind | kind | kind | kind
    · have own := countAt_object (p := p) kind
      rw [countMember_other (by simp [kind]), countKey_other (by simp [kind])]
      omega
    · rw [countAt_member kind, countMember_other (by simp [kind]), countKey_other (by simp [kind])]
      omega
    · rw [countAt_other (by simp [kind]), countMember_other (by simp [kind]), countKey, if_pos kind]
      omega
    · rw [countAt_other (by simp [kind]), countMember_spread kind, countKey_other (by simp [kind])]
      omega
    · have keys := countMember_inBrackets (p := p) (.inl ⟨kind, rfl⟩)
      rw [countAt_other (by simp [kind]), countKey_other (by simp [kind])]
      omega
    · have keys := countMember_inBrackets (p := p) (.inr ⟨kind, rfl⟩)
      rw [countAt_other (by simp [kind]), countKey_other (by simp [kind])]
      omega
  · rw [countAt_other (by simp_all), countMember_other (by simp_all), countKey_other (by simp_all)]
    omega

-- Besides what its literals and members may report, a tree has what it may report itself as a
-- member of a literal or as the key of one to spare.
theorem total_countAt_le (p : Place) (s : Site) :
    s.total (countAt p) + (countMember p s + countKey p s) ≤ s.total (countSpots p) := by
  induction s using Site.down_induction with
  | step s ih =>
    have each : s.below (Site.total (countAt p)) + (s.below (countMember p) + s.below (countKey p)) ≤
        s.below (Site.total (countSpots p)) := by
      rw [← Site.below_add, ← Site.below_add]
      exact Site.below_le ih
    have own := countAt_le p s
    rw [Site.total_eq, Site.total_eq]
    omega

theorem places_nodup (formed : ∀ t ∈ (Site.root root).preorder, t.tree.isFormed = true) (apart : root.spots.Nodup)
    (bare : ∀ t ∈ (Site.root root).preorder, t.kind = .call → isBare t = true) :
    ((findings b root all).map Diagnostic.place).Nodup := by
  refine List.nodup_iff_count_le_one.mpr fun p => ?_
  have reported := count_places_le b root all p
  have cut := total_cutOff_le (countOwn p) bare
  have taken := (total_ofCall_le (p := p) formed).1
  have stands := total_countAt_le p (Site.root root)
  have once := List.nodup_iff_count_le_one.mp (apart.map spotPlace_injective) p
  rw [total_countSpots] at stands
  have whole : (Site.root root).total (countAt p) ≤ 1 := by
    change _ ≤ (root.spots.map spotPlace).count p at stands
    omega
  omega

def Survey.places (r : Survey) : List Place :=
  (Site.root r.root).preorder.flatMap (sitePlaces r.bindings (declarationKinds r.bindings r.declarations))

theorem perm_ofTree (settings : ParseSettings) (root : Tree) :
    List.Perm ((Survey.ofTree settings root).found.map Diagnostic.place) (Survey.ofTree settings root).places := places_perm

-- Whatever there is to report in the chain of any site is reported, under wrappers or not and
-- in the middle of a chain or not, and nothing else. Where receivers stand bare, it is reported
-- once.
structure Survey.ReportsOnce (r : Survey) : Prop where
  places : ∀ p, p ∈ r.found.map Diagnostic.place ↔
    ∃ s ∈ (Site.root r.root).preorder, ∃ chain kind, r.bindings.chain? s = some chain ∧
      startKind? (declarationKinds r.bindings r.declarations) chain = some kind ∧ Offends kind chain p
  once : (∀ t ∈ (Site.root r.root).preorder, t.kind = .call → isBare t = true) → (r.found.map Diagnostic.place).Nodup

theorem found_ofTree (settings : ParseSettings) (formed : root.Formed) (apart : root.spots.Nodup) :
    (Survey.ofTree settings root).ReportsOnce := by
  have formed : ∀ t ∈ (Site.root root).preorder, t.tree.isFormed = true := fun t inside =>
    formed t.tree (Site.map_preorder (Site.root root) ▸ List.mem_map_of_mem inside)
  exact ⟨fun _ => mem_places_iff formed, places_nodup formed apart⟩

-- On every tree whose calls and members have their form and whose spots stand apart, as those
-- of the grammar do.
theorem findings_once (settings : ParseSettings) :
    (∀ root : Tree, root.Formed → root.spots.Nodup → (Survey.ofTree settings root).ReportsOnce) ∧
      ∀ source, (survey settings source).ReportsOnce :=
  ⟨fun _ formed apart => found_ofTree settings formed apart,
    fun source => found_ofTree settings (parse_apart source).1 (parse_apart source).2⟩

def spreadScript : String := "let A=z.object({...b}).optional(),B=z.array((z.email().nonempty()))"

theorem findings_once_spread :
    (Script.parse spreadScript).Formed ∧ (Script.parse spreadScript).spots.Nodup ∧
    (survey {} spreadScript).places = [(.nonAnalyzableSchema, some { line := 1, column := 17 }),
      (.legacySyntax, some { line := 1, column := 56 })] ∧
    ((survey {} spreadScript).found.map Diagnostic.place).Nodup := by
  have formed : ∀ piece ∈ (Script.parse spreadScript).preorder, piece.isFormed = true := by decide +kernel
  have apart : (Script.parse spreadScript).spots.Nodup := by decide +kernel
  have bare : ∀ t ∈ (Site.root (survey {} spreadScript).root).preorder, t.kind = .call → isBare t = true := by decide +kernel
  exact ⟨formed, apart, by decide +kernel, ((findings_once {}).1 (Script.parse spreadScript) formed apart).once bare⟩

-- The object is the receiver of a further call, in parentheses. Its chain is then looked
-- through twice.
def wrappedScript : String := "let A=(z.object({...b})).optional()"

theorem findings_twice : ¬ ((survey {} wrappedScript).found.map Diagnostic.place).Nodup := by
  have twice : (survey {} wrappedScript).places =
      [(.nonAnalyzableSchema, some { line := 1, column := 18 }), (.nonAnalyzableSchema, some { line := 1, column := 18 })] := by
    decide +kernel
  have reported : List.Perm ((survey {} wrappedScript).found.map Diagnostic.place) (survey {} wrappedScript).places :=
    perm_ofTree {} (Script.parse wrappedScript)
  rw [reported.nodup_iff, twice]
  decide

end Builder
end SchemaAtlas
