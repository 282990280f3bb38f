import SchemaAtlas.Proofs.DeclarationFates

namespace SchemaAtlas

namespace Builder

open Script

-- What kind of schema the lint takes a declaration for.

variable {b : Bindings} {all : List Declaration} {kinds : Kinds} {d e : Declaration} {chain : Chain}

def ShapeKind.afterAll (kind : ShapeKind) (calls : List Call) : ShapeKind :=
  calls.foldl (fun kind call => kind.after call.name) kind

theorem ShapeKind.afterAll_append (kind : ShapeKind) (inner outer : List Call) :
    kind.afterAll (inner ++ outer) = (kind.afterAll inner).afterAll outer :=
  List.foldl_append

def Precedes (all : List Declaration) (e d : Declaration) : Prop := ∃ front back, all = front ++ d :: back ∧ e ∈ front

def kindsAfter (b : Bindings) (all : List Declaration) : Nat → Kinds
  | 0 => []
  | rounds + 1 => kindRound b all (kindsAfter b all rounds)

theorem get?_kindRound_other {name : String} (apart : name ∉ all.map Declaration.name) :
    (kindRound b all kinds).get? name = kinds.get? name := by
  unfold kindRound
  induction all generalizing kinds with
  | nil => rfl
  | cons first rest ih =>
    rw [List.map_cons, List.mem_cons, not_or] at apart
    rw [List.foldl_cons, ih apart.2, Entries.get?_insert_other apart.1]

theorem kindRound_append (front back : List Declaration) :
    kindRound b (front ++ back) kinds = kindRound b back (kindRound b front kinds) := List.foldl_append

section
variable {front back : List Declaration}

theorem get?_kindRound (once : ((front ++ d :: back).map Declaration.name).Nodup) :
    (kindRound b (front ++ d :: back) kinds).get? d.name = some (declarationKind b (kindRound b front kinds) d) := by
  have later : d.name ∉ back.map Declaration.name := by
    rw [List.map_append, List.map_cons] at once
    exact (List.nodup_cons.mp (List.nodup_append.mp once).2.1).1
  rw [kindRound_append]
  change (kindRound b back ((kindRound b front kinds).insert d.name _)).get? d.name = _
  rw [get?_kindRound_other later, Entries.get?_insert_self]

-- When the turn of `d` comes, the names before it have the kinds of this round, and those
-- behind it still have those of the round before.
theorem get?_kindRound_front (once : ((front ++ d :: back).map Declaration.name).Nodup) (inside : e ∈ front) :
    (kindRound b front kinds).get? e.name = (kindRound b (front ++ d :: back) kinds).get? e.name := by
  have later : e.name ∉ (d :: back).map Declaration.name := by
    rw [List.map_append] at once
    exact fun listed => (List.nodup_append.mp once).2.2 _ (List.mem_map_of_mem inside) _ listed rfl
  rw [kindRound_append, get?_kindRound_other later]

theorem get?_kindRound_back (once : ((front ++ back).map Declaration.name).Nodup) (inside : e ∈ back) :
    (kindRound b front kinds).get? e.name = kinds.get? e.name := by
  refine get?_kindRound_other fun listed => ?_
  rw [List.map_append] at once
  exact (List.nodup_append.mp once).2.2 _ listed _ (List.mem_map_of_mem inside) rfl

end

theorem declarationKind_built (found : b.chain? d.value = some chain) (root : chain.root = .builder base coerce) :
    declarationKind b kinds d = (ShapeKind.ofFactory base.name).afterAll chain.calls := by
  unfold declarationKind startKind?
  rw [found]
  simp only [root]
  rfl

theorem declarationKind_named (found : b.chain? d.value = some chain) (root : chain.rootName? = some name) :
    declarationKind b kinds d = ((kinds.get? name).getD .other).afterAll chain.calls := by
  unfold Chain.rootName? at root
  unfold declarationKind startKind?
  rw [found]
  split at root
  · rename_i start
    cases root
    simp only [start]
    rfl
  · cases root

theorem kindsAfter_built (once : (all.map Declaration.name).Nodup) (listed : d ∈ all)
    (found : b.chain? d.value = some chain) (root : chain.root = .builder base coerce) (rounds : Nat) :
    (kindsAfter b all (rounds + 1)).get? d.name = some ((ShapeKind.ofFactory base.name).afterAll chain.calls) := by
  obtain ⟨front, back, rfl⟩ := List.append_of_mem listed
  rw [kindsAfter, get?_kindRound once, declarationKind_built found root]

theorem kindsAfter_back (once : (all.map Declaration.name).Nodup) (found : b.chain? d.value = some chain)
    (root : chain.rootName? = some e.name) (before : Precedes all e d) (rounds : Nat) :
    (kindsAfter b all (rounds + 1)).get? d.name =
      some ((((kindsAfter b all (rounds + 1)).get? e.name).getD .other).afterAll chain.calls) := by
  obtain ⟨front, back, rfl, inside⟩ := before
  rw [kindsAfter, get?_kindRound once, declarationKind_named found root, get?_kindRound_front once inside]

theorem kindsAfter_ahead (once : (all.map Declaration.name).Nodup) (found : b.chain? d.value = some chain)
    (root : chain.rootName? = some e.name) (behind : Precedes all d e) (rounds : Nat) :
    (kindsAfter b all (rounds + 1)).get? d.name =
      some ((((kindsAfter b all rounds).get? e.name).getD .other).afterAll chain.calls) := by
  obtain ⟨whole, back, rfl, inside⟩ := behind
  obtain ⟨front, middle, rfl⟩ := List.append_of_mem inside
  rw [List.append_assoc, List.cons_append] at once ⊢
  have later : e ∈ d :: (middle ++ e :: back) := by simp
  rw [kindsAfter, get?_kindRound once, declarationKind_named found root, get?_kindRound_back once later]

-- The way from a declaration to one that it comes from, through the names that chains start from:
-- how many steps lead ahead in the script, and the calls on the way, innermost first.
inductive Way (b : Bindings) (all : List Declaration) : Nat → Declaration → Declaration → List Call → Prop where
  | here {d : Declaration} : d ∈ all → Way b all 0 d d []
  | back {d e source : Declaration} {chain : Chain} : b.chain? d.value = some chain → chain.rootName? = some e.name →
      Precedes all e d → Way b all ahead e source calls → Way b all ahead d source (calls ++ chain.calls)
  | ahead {d e source : Declaration} {chain : Chain} : b.chain? d.value = some chain → chain.rootName? = some e.name →
      Precedes all d e → Way b all ahead e source calls → Way b all (ahead + 1) d source (calls ++ chain.calls)

variable {source : Declaration} {calls : List Call} {ahead : Nat}

theorem Way.settled (way : Way b all ahead d source calls) (once : (all.map Declaration.name).Nodup)
    (found : b.chain? source.value = some chain) (root : chain.root = .builder base coerce) (rounds : Nat) :
    (kindsAfter b all (rounds + ahead + 1)).get? d.name =
      some ((ShapeKind.ofFactory base.name).afterAll (chain.calls ++ calls)) := by
  induction way generalizing rounds with
  | here listed => rw [List.append_nil]; exact kindsAfter_built once listed found root _
  | back own start before _ ih =>
    rw [kindsAfter_back once own start before, ih found, Option.getD_some, ← List.append_assoc,
      ShapeKind.afterAll_append _ _ (_ : Chain).calls]
  | ahead own start behind _ ih =>
    rw [← Nat.add_assoc, kindsAfter_ahead once own start behind, ih found, Option.getD_some, ← List.append_assoc,
      ShapeKind.afterAll_append _ _ (_ : Chain).calls]

theorem Way.unsettled (way : Way b all ahead d source calls) (once : (all.map Declaration.name).Nodup)
    (found : b.chain? source.value = some chain) (root : chain.rootName? = some e.name) (further : Precedes all source e) :
    (kindsAfter b all (ahead + 1)).get? d.name = some (ShapeKind.other.afterAll (chain.calls ++ calls)) := by
  induction way with
  | here => rw [List.append_nil]; exact kindsAfter_ahead once found root further 0
  | back own start before _ ih =>
    rw [kindsAfter_back once own start before, ih found further, Option.getD_some, ← List.append_assoc,
      ShapeKind.afterAll_append _ _ (_ : Chain).calls]
  | ahead own start behind _ ih =>
    rw [kindsAfter_ahead once own start behind, ih found further, Option.getD_some, ← List.append_assoc,
      ShapeKind.afterAll_append _ _ (_ : Chain).calls]

-- A declaration that comes from a builder: the steps ahead on the way there, the factory, and
-- all the calls on the way, innermost first.
def ComesFrom (b : Bindings) (all : List Declaration) (ahead : Nat) (d : Declaration) (factory : String)
    (calls : List Call) : Prop :=
  ∃ source chain base coerce outer, Way b all ahead d source outer ∧ b.chain? source.value = some chain ∧
    chain.root = .builder base coerce ∧ base.name = factory ∧ calls = chain.calls ++ outer

theorem ComesFrom.built (listed : d ∈ all) (found : b.chain? d.value = some chain) (start : chain.base? = some base) :
    ComesFrom b all 0 d base.name chain.calls := by
  unfold Chain.base? at start
  split at start
  · rename_i coerce root
    cases start
    exact ⟨d, chain, base, coerce, [], .here listed, found, root, rfl, (List.append_nil _).symm⟩
  · cases start

theorem ComesFrom.backward (comes : ComesFrom b all ahead e factory calls) (found : b.chain? d.value = some chain)
    (root : chain.rootName? = some e.name) (before : Precedes all e d) :
    ComesFrom b all ahead d factory (calls ++ chain.calls) := by
  obtain ⟨source, own, base, coerce, outer, way, built, start, named, rfl⟩ := comes
  exact ⟨source, own, base, coerce, _, .back found root before way, built, start, named, List.append_assoc _ _ _⟩

theorem ComesFrom.forward (comes : ComesFrom b all ahead e factory calls) (found : b.chain? d.value = some chain)
    (root : chain.rootName? = some e.name) (behind : Precedes all d e) :
    ComesFrom b all (ahead + 1) d factory (calls ++ chain.calls) := by
  obtain ⟨source, own, base, coerce, outer, way, built, start, named, rfl⟩ := comes
  exact ⟨source, own, base, coerce, _, .ahead found root behind way, built, start, named, List.append_assoc _ _ _⟩

theorem ComesFrom.settled (comes : ComesFrom b all ahead d factory calls) (once : (all.map Declaration.name).Nodup)
    (enough : ahead < rounds) :
    (kindsAfter b all rounds).get? d.name = some ((ShapeKind.ofFactory factory).afterAll calls) := by
  obtain ⟨source, chain, base, coerce, outer, way, found, root, rfl, rfl⟩ := comes
  have settled := way.settled once found root (rounds - ahead - 1)
  rwa [show rounds - ahead - 1 + ahead + 1 = rounds by omega] at settled

theorem mem_callFindings (kind : ShapeKind) (before : List Call) (call : Call) (after : List Call)
    (listed : report ∈ legacyFindings (kind.afterAll before) call) : report ∈ callFindings kind (before ++ call :: after) := by
  induction before generalizing kind with
  | nil =>
    rw [List.nil_append, callFindings, List.append_assoc]
    exact List.mem_append_left _ listed
  | cons first rest ih =>
    rw [List.cons_append, callFindings]
    exact List.mem_append_right _ (ih (kind.after first.name) listed)

theorem mem_findings_of_chain {site : Site} (inside : site ∈ (Site.root root).preorder) (isCall : site.kind = .call)
    (outermost : isOutermost site = true) (found : b.chain? site = some chain)
    (start : startKind? (declarationKinds b all) chain = some kind) (listed : report ∈ callFindings kind chain.calls) :
    ∃ shown ∈ findings b root all, shown.code = report.code ∧ shown.message = report.message ∧
      shown.location = report.location := by
  have given : report ∈ chainFindings chain kind := List.mem_append_right _ listed
  have shown : ∃ shown ∈ siteFindings b (declarationKinds b all) all site, shown.code = report.code ∧
      shown.message = report.message ∧ shown.location = report.location := by
    unfold siteFindings
    rw [if_pos (by simp [isCall, outermost]), found]
    simp only [start]
    split
    · exact ⟨_, List.mem_map_of_mem given, rfl, rfl, rfl⟩
    · exact ⟨_, given, rfl, rfl, rfl⟩
  obtain ⟨shown, own, same⟩ := shown
  exact ⟨shown, List.mem_mergeSort.mpr (List.mem_flatMap.mpr ⟨site, inside, own⟩), same⟩

theorem startKind?_named (root : chain.rootName? = some name) : startKind? kinds chain = kinds.get? name := by
  unfold Chain.rootName? at root
  unfold startKind?
  split at root
  · rename_i start
    cases root
    simp only [start]
  · cases root

def CalledOn (b : Bindings) (root : Tree) (d : Declaration) (before : List Call) (call : Call) : Prop :=
  ∃ site ∈ (Site.root root).preorder, site.kind = .call ∧ isOutermost site = true ∧
    ∃ chain after, b.chain? site = some chain ∧ chain.rootName? = some d.name ∧ chain.calls = before ++ call :: after

def Reports (found : List Diagnostic) (kind : ShapeKind) (call : Call) : Prop :=
  ∃ report ∈ found, report.code = .legacySyntax ∧ report.message = legacyMessage kind call.name ∧
    report.location = some call.location

theorem reports_of_calledOn {before : List Call} {call : Call} (called : CalledOn b root d before call)
    (known : (declarationKinds b all).get? d.name = some kind)
    (legacy : (kind.afterAll before).legacyMethods.contains call.name = true) :
    Reports (findings b root all) (kind.afterAll before) call := by
  obtain ⟨site, inside, isCall, outermost, chain, after, found, named, calls⟩ := called
  have start : startKind? (declarationKinds b all) chain = some kind := (startKind?_named named).trans known
  have own : ((Diagnostic.of .legacySyntax (legacyMessage (kind.afterAll before) call.name)).at_ call.location).withReplacement
      (replacement call) ∈ legacyFindings (kind.afterAll before) call := by
    rw [legacyFindings, if_pos legacy]
    exact List.mem_singleton_self _
  have listed := mem_callFindings kind before call after own
  rw [← calls] at listed
  obtain ⟨report, shown, code, message, location⟩ := mem_findings_of_chain inside isCall outermost found start listed
  exact ⟨report, shown, code, message, location⟩

-- The kind of a declaration that comes from a builder is that of the factory, changed by all the
-- calls on the way, and methods of the old dialect on it are reported, as long as no more than one
-- step of the way leads ahead in the script. With more of them it would take as many rounds more;
-- what the two rounds give instead is known from the calls up to the second such step alone.
theorem kinds_settled (settings : ParseSettings) (root : Tree)
    (comes : ComesFrom (Survey.ofTree settings root).bindings (Survey.ofTree settings root).declarations ahead d factory calls) :
    let r := Survey.ofTree settings root
    let kind := (ShapeKind.ofFactory factory).afterAll calls
    (ahead ≤ 1 → (declarationKinds r.bindings r.declarations).get? d.name = some kind ∧
      ∀ before call, CalledOn r.bindings root d before call →
        (kind.afterAll before).legacyMethods.contains call.name = true → Reports r.found (kind.afterAll before) call) ∧
    (∀ rounds, ahead < rounds → (kindsAfter r.bindings r.declarations rounds).get? d.name = some kind) ∧
    ∀ source chain e outer, Way r.bindings r.declarations 1 d source outer → r.bindings.chain? source.value = some chain →
      chain.rootName? = some e.name → Precedes r.declarations source e →
      (declarationKinds r.bindings r.declarations).get? d.name = some (ShapeKind.other.afterAll (chain.calls ++ outer)) := by
  have once := (ofTree_sound settings root).once
  refine ⟨fun few => ?_, fun rounds enough => comes.settled once enough, ?_⟩
  · have known := comes.settled once (Nat.lt_succ_of_le few)
    exact ⟨known, fun before call called legacy => reports_of_calledOn called known legacy⟩
  · intro source chain e outer way found start further
    exact way.unsettled once found start further

def Survey.starts (r : Survey) : List (String × Option (Option String × Option String × List String)) :=
  r.declarations.map fun d => (d.name, (r.bindings.chain? d.value).map fun chain =>
    (chain.rootName?, chain.base?.map Call.name, chain.calls.map Call.name))

theorem ShapeKind.afterAll_eq (kind : ShapeKind) (calls : List Call) :
    kind.afterAll calls = (calls.map Call.name).foldl ShapeKind.after kind := List.foldl_map.symm

def onceAheadScript : String := "const A = z.string();
const C = B.optional();
const B = A.min(1);
"

theorem kinds_settled_onceAhead :
    let r := Survey.ofTree {} (Script.parse onceAheadScript)
    ∃ d calls, ComesFrom r.bindings r.declarations 1 d "string" calls ∧
      (declarationKinds r.bindings r.declarations).get? d.name = some ((ShapeKind.ofFactory "string").afterAll calls) := by
  intro r
  have starts : r.starts = [("A", some (none, some "string", [])), ("C", some (some "B", none, ["optional"])),
    ("B", some (some "A", none, ["min"]))] := by decide +kernel
  simp only [Survey.starts, List.map_eq_cons_iff, List.map_eq_nil_iff, Prod.mk.injEq, Option.map_eq_some_iff] at starts
  obtain ⟨text, _, list, ⟨textName, chain, found, _, ⟨base, start, factory⟩, _⟩, shown, _, rfl,
    ⟨_, shownChain, shownFound, shownRoot, _⟩, named, _, rfl, ⟨namedName, namedChain, namedFound, namedRoot, _⟩, rfl⟩ := starts
  have own : ComesFrom r.bindings r.declarations 0 text "string" chain.calls := by
    rw [← factory]
    exact .built (by simp [list]) found start
  have through : ComesFrom r.bindings r.declarations 0 named "string" _ :=
    own.backward namedFound (textName ▸ namedRoot) ⟨[text, shown], [], list, by simp⟩
  have comes : ComesFrom r.bindings r.declarations 1 shown "string" _ :=
    through.forward shownFound (namedName ▸ shownRoot) ⟨[text, shown], [], list, by simp⟩
  exact ⟨shown, _, comes, ((kinds_settled {} _ comes).1 (Nat.le_refl 1)).1⟩

-- Both names stand in front of what they come from. The text is lost sight of, and the
-- method of the old dialect on it is not reported.
def twiceAheadScript : String := "const C = B.optional();
const B = A.min(1);
const A = z.string();
const D = C.nonempty();
"

theorem kinds_settled_twiceAhead :
    let r := Survey.ofTree {} (Script.parse twiceAheadScript)
    (∃ d calls, ComesFrom r.bindings r.declarations 2 d "string" calls ∧
      (declarationKinds r.bindings r.declarations).get? d.name ≠ some ((ShapeKind.ofFactory "string").afterAll calls)) ∧
      r.found = [] := by
  intro r
  have facts : (declarationKinds r.bindings r.declarations).get? "C" = some .other ∧ r.found = [] ∧
      r.starts = [("C", some (some "B", none, ["optional"])), ("B", some (some "A", none, ["min"])),
    ("A", some (none, some "string", [])), ("D", some (some "C", none, ["nonempty"]))] := by decide +kernel
  obtain ⟨lost, quiet, starts⟩ := facts
  simp only [Survey.starts, List.map_eq_cons_iff, List.map_eq_nil_iff, Prod.mk.injEq, Option.map_eq_some_iff] at starts
  obtain ⟨shown, _, list, ⟨shownName, shownChain, shownFound, shownRoot, _, _, _, shownCalls, optional, rfl⟩, named, _, rfl,
    ⟨namedName, namedChain, namedFound, namedRoot, _, _, _, namedCalls, least, rfl⟩, text, _, rfl,
    ⟨textName, chain, found, _, ⟨base, start, factory⟩, calls⟩, old, _, rfl, _, rfl⟩ := starts
  have own : ComesFrom r.bindings r.declarations 0 text "string" chain.calls := by
    rw [← factory]
    exact .built (by simp [list]) found start
  have through : ComesFrom r.bindings r.declarations 1 named "string" _ :=
    own.forward namedFound (textName ▸ namedRoot) ⟨[shown, named], [old], list, by simp⟩
  have comes : ComesFrom r.bindings r.declarations 2 shown "string" _ :=
    through.forward shownFound (namedName ▸ shownRoot) ⟨[shown], [text, old], list, by simp⟩
  refine ⟨⟨shown, _, comes, ?_⟩, quiet⟩
  rw [shownName, lost, ShapeKind.afterAll_eq]
  simp only [List.map_append, calls, namedCalls, List.map_cons, List.map_nil, least, shownCalls, optional]
  decide

end Builder
end SchemaAtlas
