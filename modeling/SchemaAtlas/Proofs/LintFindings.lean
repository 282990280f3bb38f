import SchemaAtlas.Proofs.ChainCuts
import SchemaAtlas.Proofs.DeclarationKinds
import SchemaAtlas.Proofs.ScriptSpots

namespace SchemaAtlas

-- What findings are told apart by.
abbrev Place := DiagnosticCode × Option Location

def Diagnostic.place (d : Diagnostic) : Place := (d.code, d.location)

namespace Script

variable {t child : Tree}

theorem Tree.child?_of_single {role : Role} (single : (t.children.filter (·.role == role)).length ≤ 1)
    (listed : child ∈ t.children) (named : child.role = role) : t.child? role = some child := by
  have inside : child ∈ t.children.filter (·.role == role) := List.mem_filter.mpr ⟨listed, by simp [named]⟩
  rw [Tree.child?, ← List.head?_filter]
  cases some : t.children.filter (·.role == role) with
  | nil =>
    rw [some] at inside
    cases inside
  | cons first rest =>
    rw [some, List.length_cons] at single
    rw [some, List.length_eq_zero_iff.mp (Nat.le_zero.mp (Nat.le_of_succ_le_succ single))] at inside
    rw [List.mem_singleton.mp inside]
    rfl

theorem Tree.called_of_isFormed (formed : t.isFormed = true) (isCall : t.kind = .call) (listed : child ∈ t.children)
    (named : child.role = .function) : t.child? .function = some child := by
  simp only [isFormed, isCall, Bool.and_eq_true, decide_eq_true_eq] at formed
  exact child?_of_single formed.1 listed named

theorem Tree.list_of_isFormed (formed : t.isFormed = true) (isCall : t.kind = .call) (listed : child ∈ t.children)
    (named : child.role = .arguments) : child.kind ≠ .call ∧ child.kind.isWrapper = false := by
  simp only [isFormed, isCall, Bool.and_eq_true, List.all_eq_true] at formed
  simpa [named] using formed.2 child listed

theorem Tree.object_of_isFormed (formed : t.isFormed = true) (isMember : t.kind = .member) (listed : child ∈ t.children)
    (named : child.role = .object) : t.child? .object = some child := by
  simp only [isFormed, isMember, Bool.and_eq_true, decide_eq_true_eq] at formed
  exact child?_of_single formed.1 listed named

theorem Tree.name_of_isFormed (formed : t.isFormed = true) (isMember : t.kind = .member) :
    ∃ name, t.child? .property = some name := by
  simp only [isFormed, isMember, Bool.and_eq_true] at formed
  exact Option.isSome_iff_exists.mp formed.2

end Script

namespace Builder

open Script

variable {b : Bindings} {all : List Declaration} {root : Tree} {s t member : Site} {calls : List Call} {chain : Chain}
  {kind : ShapeKind} {p : Place}

-- What there is to report in a chain, given the kind of what it starts from: a method of the
-- old dialect, and in the shape that a call takes, a key in brackets or a spread.

inductive Unreadable : Site → Site → Prop where
  | key {member key : Site} : member.kind = .pair → member.child? .key = some key → key.kind = .computedName →
      Unreadable member key
  | name {member name : Site} : member.kind = .method → member.child? .name = some name → name.kind = .computedName →
      Unreadable member name
  | spread {member : Site} : member.kind = .spread → Unreadable member member

inductive Offends (kind : ShapeKind) (chain : Chain) : Place → Prop where
  | legacy {before after : List Call} {call : Call} : chain.calls = before ++ call :: after →
      (kind.afterAll before).legacyMethods.contains call.name = true →
      Offends kind chain (.legacySyntax, some call.location)
  | shape {call : Call} {a : Argument} {member site : Site} : call ∈ chain.base?.toList ++ chain.calls →
      shapeCalls.contains call.name = true → call.argument? 0 = some a → a.site.unwrap.kind = .object →
      member ∈ a.site.unwrap.parts → Unreadable member site → Offends kind chain (.nonAnalyzableSchema, some site.location)

def inBrackets (role : Role) (member : Site) : List Site :=
  (member.child? role).toList.filter fun key => key.kind == .computedName

theorem mem_inBrackets {role : Role} {site : Site} :
    site ∈ inBrackets role member ↔ member.child? role = some site ∧ site.kind = .computedName := by
  simp [inBrackets]

theorem memberFindings_inBrackets (of_ : member.kind = .pair ∧ role = .key ∨ member.kind = .method ∧ role = .name) :
    memberFindings member = (inBrackets role member).map (unreadable "computed property key") := by
  unfold memberFindings inBrackets
  rcases of_ with ⟨kind, rfl⟩ | ⟨kind, rfl⟩
  all_goals
    rw [kind]
    dsimp only
    split
    · rename_i key found
      cases computed : key.kind == .computedName <;> simp [found, computed]
    · rename_i missing
      rw [missing]
      rfl

theorem mem_memberFindings : p ∈ (memberFindings member).map Diagnostic.place ↔
    ∃ site, Unreadable member site ∧ p = (.nonAnalyzableSchema, some site.location) := by
  have keyed (role : Role) (of_ : member.kind = .pair ∧ role = .key ∨ member.kind = .method ∧ role = .name) :
      p ∈ (memberFindings member).map Diagnostic.place ↔
        ∃ site ∈ inBrackets role member, p = (.nonAnalyzableSchema, some site.location) := by
    rw [memberFindings_inBrackets of_, List.map_map, List.mem_map]
    simp [unreadable, Diagnostic.place, Diagnostic.of, Diagnostic.at_, eq_comm]
  constructor
  · intro listed
    by_cases pair : member.kind = .pair
    · obtain ⟨site, is, same⟩ := (keyed .key (.inl ⟨pair, rfl⟩)).mp listed
      exact ⟨site, .key pair (mem_inBrackets.mp is).1 (mem_inBrackets.mp is).2, same⟩
    · by_cases method : member.kind = .method
      · obtain ⟨site, is, same⟩ := (keyed .name (.inr ⟨method, rfl⟩)).mp listed
        exact ⟨site, .name method (mem_inBrackets.mp is).1 (mem_inBrackets.mp is).2, same⟩
      · unfold memberFindings at listed
        split at listed
        · exact absurd (by assumption) pair
        · exact absurd (by assumption) method
        · rename_i spread
          exact ⟨member, .spread spread, List.mem_singleton.mp listed⟩
        · cases listed
  · rintro ⟨site, unread, same⟩
    cases unread with
    | key pair found computed => exact (keyed .key (.inl ⟨pair, rfl⟩)).mpr ⟨site, mem_inBrackets.mpr ⟨found, computed⟩, same⟩
    | name method found computed =>
      exact (keyed .name (.inr ⟨method, rfl⟩)).mpr ⟨site, mem_inBrackets.mpr ⟨found, computed⟩, same⟩
    | spread spread =>
      unfold memberFindings
      rw [spread]
      exact List.mem_singleton.mpr same

theorem mem_shapeFindings {call : Call} : p ∈ (shapeFindings call).map Diagnostic.place ↔
    shapeCalls.contains call.name = true ∧ ∃ a, call.argument? 0 = some a ∧ a.site.unwrap.kind = .object ∧
      ∃ member ∈ a.site.unwrap.parts, ∃ site, Unreadable member site ∧ p = (.nonAnalyzableSchema, some site.location) := by
  unfold shapeFindings
  cases found : call.argument? 0 with
  | none => simp
  | some a =>
    by_cases shaped : shapeCalls.contains call.name = true ∧ a.site.unwrap.kind = .object
    · simp only [shaped.1, shaped.2, beq_self_eq_true, Bool.and_self, if_true, List.map_flatMap, List.mem_flatMap,
        mem_memberFindings, true_and, Option.some.injEq, exists_eq_left']
    · have none : (shapeCalls.contains call.name && a.site.unwrap.kind == .object) = false := by simpa using shaped
      simp only [none, Bool.false_eq_true, if_false, List.map_nil, List.not_mem_nil, false_iff]
      rintro ⟨named, _, same, literal, _⟩
      cases same
      exact shaped ⟨named, literal⟩

theorem mem_legacyFindings {call : Call} : p ∈ (legacyFindings kind call).map Diagnostic.place ↔
    kind.legacyMethods.contains call.name = true ∧ p = (.legacySyntax, some call.location) := by
  unfold legacyFindings
  split
  · rename_i legacy
    exact List.mem_singleton.trans (by simp only [legacy, true_and]; rfl)
  · rename_i other
    exact iff_of_false List.not_mem_nil fun both => other both.1

theorem mem_callFindings_iff : p ∈ (callFindings kind calls).map Diagnostic.place ↔
    (∃ before call after, calls = before ++ call :: after ∧
      p ∈ (legacyFindings (kind.afterAll before) call).map Diagnostic.place) ∨
    ∃ call ∈ calls, p ∈ (shapeFindings call).map Diagnostic.place := by
  induction calls generalizing kind with
  | nil => simp [callFindings]
  | cons first rest ih =>
    rw [callFindings, List.map_append, List.map_append, List.mem_append, List.mem_append, ih]
    constructor
    · rintro ((legacy | shape) | ⟨before, call, after, rfl, legacy⟩ | ⟨call, listed, shape⟩)
      · exact .inl ⟨[], first, rest, rfl, legacy⟩
      · exact .inr ⟨first, List.mem_cons_self, shape⟩
      · exact .inl ⟨first :: before, call, after, rfl, legacy⟩
      · exact .inr ⟨call, List.mem_cons_of_mem _ listed, shape⟩
    · rintro (⟨before, call, after, same, legacy⟩ | ⟨call, listed, shape⟩)
      · cases before with
        | nil =>
          obtain ⟨rfl, rfl⟩ := List.cons.inj same
          exact .inl (.inl legacy)
        | cons head before =>
          obtain ⟨rfl, rfl⟩ := List.cons.inj same
          exact .inr (.inl ⟨before, call, after, rfl, legacy⟩)
      · rcases List.mem_cons.mp listed with rfl | later
        · exact .inl (.inr shape)
        · exact .inr (.inr ⟨call, later, shape⟩)

theorem mem_chainFindings : p ∈ (chainFindings chain kind).map Diagnostic.place ↔ Offends kind chain p := by
  have split : p ∈ (chainFindings chain kind).map Diagnostic.place ↔
      (∃ base ∈ chain.base?.toList, p ∈ (shapeFindings base).map Diagnostic.place) ∨
      p ∈ (callFindings kind chain.calls).map Diagnostic.place := by
    unfold chainFindings
    rw [List.map_append, List.mem_append]
    cases chain.base? <;> simp
  rw [split, mem_callFindings_iff]
  constructor
  · rintro (⟨base, given, shape⟩ | ⟨before, call, after, same, legacy⟩ | ⟨call, listed, shape⟩)
    · obtain ⟨named, a, first, literal, member, part, site, unread, rfl⟩ := mem_shapeFindings.mp shape
      exact .shape (List.mem_append_left _ given) named first literal part unread
    · obtain ⟨old, rfl⟩ := mem_legacyFindings.mp legacy
      exact .legacy same old
    · obtain ⟨named, a, first, literal, member, part, site, unread, rfl⟩ := mem_shapeFindings.mp shape
      exact .shape (List.mem_append_right _ listed) named first literal part unread
  · intro offends
    cases offends with
    | legacy same old => exact .inr (.inl ⟨_, _, _, same, mem_legacyFindings.mpr ⟨old, rfl⟩⟩)
    | shape listed named first literal part unread =>
      have shape := mem_shapeFindings.mpr ⟨named, _, first, literal, _, part, _, unread, rfl⟩
      rcases List.mem_append.mp listed with base | later
      · exact .inl ⟨_, base, shape⟩
      · exact .inr (.inr ⟨_, later, shape⟩)

def sitePlaces (b : Bindings) (kinds : Kinds) (s : Site) : List Place :=
  if s.kind == .call && isOutermost s then
    match b.chain? s with
    | none => []
    | some chain => ((startKind? kinds chain).map fun kind => (chainFindings chain kind).map Diagnostic.place).getD []
  else []

theorem map_siteFindings (kinds : Kinds) :
    (siteFindings b kinds all s).map Diagnostic.place = sitePlaces b kinds s := by
  unfold siteFindings sitePlaces
  split
  · cases b.chain? s with
    | none => rfl
    | some chain =>
      dsimp only
      cases startKind? kinds chain with
      | none => rfl
      | some kind =>
        dsimp only
        cases enclosing? all s with
        | none => rfl
        | some d => exact List.map_map
  · rfl

theorem places_perm : List.Perm ((findings b root all).map Diagnostic.place)
    ((Site.root root).preorder.flatMap (sitePlaces b (declarationKinds b all))) := by
  refine ((List.mergeSort_perm _ _).map _).trans ?_
  rw [List.map_flatMap]
  exact List.Perm.of_eq (congrArg (List.flatMap · _) (funext fun s => map_siteFindings _))

theorem mem_places : p ∈ (findings b root all).map Diagnostic.place ↔
    ∃ s ∈ (Site.root root).preorder, s.kind = .call ∧ isOutermost s = true ∧ ∃ chain kind, b.chain? s = some chain ∧
      startKind? (declarationKinds b all) chain = some kind ∧ Offends kind chain p := by
  rw [places_perm.mem_iff, List.mem_flatMap]
  refine exists_congr fun s => and_congr_right fun _ => ?_
  unfold sitePlaces
  constructor
  · intro listed
    split at listed
    · rename_i cut
      obtain ⟨isCall, outermost⟩ := Bool.and_eq_true_iff.mp cut
      refine ⟨eq_of_beq isCall, outermost, ?_⟩
      cases found : b.chain? s with
      | none =>
        rw [found] at listed
        cases listed
      | some chain =>
        rw [found] at listed
        cases start : startKind? (declarationKinds b all) chain with
        | none =>
          simp [start] at listed
        | some kind =>
          simp only [start, Option.map_some, Option.getD_some] at listed
          exact ⟨chain, kind, rfl, start, mem_chainFindings.mp listed⟩
    · cases listed
  · rintro ⟨isCall, outermost, chain, kind, found, start, offends⟩
    rw [if_pos (by simp [isCall, outermost]), found]
    simp only [start, Option.map_some, Option.getD_some]
    exact mem_chainFindings.mpr offends

theorem Bindings.Reads.extended (reads : Bindings.Reads b calls s chain) (more : List Call) :
    Bindings.Reads b (calls ++ more) s { chain with calls := chain.calls ++ more } := by
  induction reads with
  | builder isCall called isMember on named schema => exact .builder isCall called isMember on named schema
  | method isCall called isMember on named schema _ ih => exact .method isCall called isMember on named schema ih
  | factory isCall called identifier bound => exact .factory isCall called identifier bound
  | identifier identifier free => exact .identifier identifier free

theorem Offends.extended (offends : Offends kind chain p) (more : List Call) :
    Offends kind { chain with calls := chain.calls ++ more } p := by
  cases offends with
  | @legacy before after call same old =>
    refine .legacy (?_ : _ = before ++ call :: (after ++ more)) old
    rw [same, List.append_assoc, List.cons_append]
  | shape listed named first literal part unread =>
    refine .shape ?_ named first literal part unread
    have wider : chain.base?.toList ++ chain.calls ⊆ chain.base?.toList ++ (chain.calls ++ more) := by simp
    exact wider listed

theorem chain?_call (isCall : s.kind = .call) : b.chain? s = b.chainBefore [] s := by
  rw [Bindings.chain?, Site.unwrap_of_not_wrapper (by rw [isCall]; rfl)]

theorem chain?_around {call function object property : Site} (isCall : call.kind = .call)
    (called : call.child? .function = some function) (isMember : function.kind = .member)
    (on : function.child? .object = some object) (named : function.child? .property = some property)
    (inner : object.kind = .call) (found : b.chain? object = some chain) :
    b.chain? call = some { chain with calls := chain.calls ++ [Call.ofTree property call] } := by
  have plain : function.unwrap = function := Site.unwrap_of_not_wrapper (by rw [isMember]; rfl)
  have bare : object.unwrap = object := Site.unwrap_of_not_wrapper (by rw [inner]; rfl)
  have schema : b.namespaceRoot? object = none := by simp [Bindings.namespaceRoot?, Bindings.isNamespace, inner]
  have own := (Bindings.reads_iff.mp ((chain?_call inner).symm.trans found)).extended [Call.ofTree property call]
  rw [chain?_call isCall]
  refine Bindings.reads_iff.mpr (.method isCall called (plain.symm ▸ isMember) (plain.symm ▸ on) (plain.symm ▸ named) ?_ ?_)
  · rwa [bare]
  · rwa [bare]

theorem outermost_around (formed : ∀ t ∈ (Site.root root).preorder, t.tree.isFormed = true)
    (inside : s ∈ (Site.root root).preorder) (isCall : s.kind = .call) (found : b.chain? s = some chain) :
    ∃ t ∈ (Site.root root).preorder, t.kind = .call ∧ isOutermost t = true ∧
      ∃ more, b.chain? t = some { chain with calls := chain.calls ++ more } := by
  induction height : s.above.length using Nat.strongRecOn generalizing s chain with
  | ind _ ih =>
    by_cases outermost : isOutermost s = true
    · exact ⟨s, inside, isCall, outermost, [], by rw [List.append_nil]; exact found⟩
    · rcases Site.parent_of_mem_preorder inside with rfl | ⟨m, within, object, listed, rfl⟩
      · exact absurd rfl outermost
      · rw [isOutermost_down, Bool.not_eq_true, Bool.not_eq_false', Bool.and_eq_true] at outermost
        obtain ⟨called, role⟩ := outermost
        rcases Site.parent_of_mem_preorder within with rfl | ⟨call, around, function, below, rfl⟩
        · cases called
        · simp only [isCalled, Site.down, Bool.and_eq_true, beq_iff_eq] at called
          obtain ⟨⟨member, functionRole⟩, outer⟩ := called
          obtain ⟨name, named⟩ := Tree.name_of_isFormed (formed _ within) member
          have first : call.child? .function = some (call.down function) :=
            congrArg _ (Tree.called_of_isFormed (formed _ around) outer below functionRole)
          have second : (call.down function).child? .object = some ((call.down function).down object) :=
            congrArg _ (Tree.object_of_isFormed (formed _ within) member listed (eq_of_beq role))
          have outside := chain?_around outer first member second (congrArg _ named) isCall found
          have higher : call.above.length < ((call.down function).down object).above.length :=
            Nat.lt_succ_of_lt (Nat.lt_succ_self call.above.length)
          obtain ⟨t, listed, isCall, outermost, more, found⟩ := ih _ (height ▸ higher) around outer outside rfl
          exact ⟨t, listed, isCall, outermost, _, by rw [found, List.append_assoc]⟩

theorem Offends.reads_call (offends : Offends kind chain p) (reads : Bindings.Reads b [] s chain) : s.kind = .call := by
  cases reads with
  | builder isCall => exact isCall
  | method isCall => exact isCall
  | factory isCall => exact isCall
  | identifier =>
    cases offends with
    | legacy same => simp at same
    | shape listed => simp [Chain.base?] at listed

theorem mem_places_iff (formed : ∀ t ∈ (Site.root root).preorder, t.tree.isFormed = true) :
    p ∈ (findings b root all).map Diagnostic.place ↔ ∃ s ∈ (Site.root root).preorder, ∃ chain kind, b.chain? s = some chain ∧
      startKind? (declarationKinds b all) chain = some kind ∧ Offends kind chain p := by
  rw [mem_places]
  constructor
  · rintro ⟨s, inside, _, _, chain, kind, found, start, offends⟩
    exact ⟨s, inside, chain, kind, found, start, offends⟩
  · rintro ⟨s, inside, chain, kind, found, start, offends⟩
    have isCall := offends.reads_call (Bindings.chain?_reads found)
    have within := Site.mem_preorder_trans (Site.exposes_unwrap s).inside inside
    have own : b.chain? s.unwrap = some chain := (chain?_call isCall).trans found
    obtain ⟨t, listed, isCall, outermost, more, found⟩ := outermost_around formed within isCall own
    exact ⟨t, listed, isCall, outermost, _, kind, found, start, offends.extended more⟩

end Builder
end SchemaAtlas
