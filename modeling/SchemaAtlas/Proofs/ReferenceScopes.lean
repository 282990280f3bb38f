import SchemaAtlas.Proofs.ChainReading
import SchemaAtlas.Proofs.DeclarationFates
import SchemaAtlas.Proofs.LoweringSteps
import SchemaAtlas.Proofs.ReferenceClosure

namespace SchemaAtlas
namespace Builder

open Script SchemaNode

-- Which identifiers of an initializer the references of its schema are, and which scopes stand
-- around them.

-- An identifier inside an expression that is made a reference: the start of a chain, a property
-- without a value, or an enumeration that the script does not declare.
inductive Use (b : Bindings) (root : Tree) (s : Site) : Site → Prop where
  | start {expression use : Site} : expression ∈ s.preorder → b.chain? expression = some chain →
      chain.root = .identifier use → Use b root s use
  | property {use : Site} : use ∈ s.preorder → use.kind = .shorthandProperty → Use b root s use
  | enumeration {use : Site} : use ∈ s.preorder → use.kind = .identifier → namedValues? root use.text = none →
      Use b root s use

-- The scopes that the lowering of an expression goes through on its way to an identifier: for a
-- call of `lazy` its function and the body of the function, and where a call has something
-- other than a list of arguments in that place, this.
inductive Opens (b : Bindings) (s : Site) : Tree → Prop where
  | arguments {call : Site} : call ∈ s.preorder → call.kind = .call → call.tree.child? .arguments = some list →
      list.kind ≠ .arguments → Opens b s list
  | function {call : Site} : call ∈ s.preorder → b.chain? call = some { root := .builder base coerce, calls := [] } →
      base.name = "lazy" → a ∈ base.arguments → Opens b s a.site.unwrap.tree
  | body {call : Site} : call ∈ s.preorder → b.chain? call = some { root := .builder base coerce, calls := [] } →
      base.name = "lazy" → a ∈ base.arguments → a.site.unwrap.tree.child? .body = some body → Opens b s body

def Refers (b : Bindings) (root : Tree) (s : Site) (target : String) : Prop :=
  ∃ use, Use b root s use ∧ target = schemaRef use.text ∧ Site.Reaches (Opens b s) s use

def Sourced (P : String → Prop) : SchemaNode → Prop := OfReference fun reference => ∀ target ∈ reference, P target

variable {P Q : String → Prop} {lower : Lower} {cx : Context} {s next : State} {n node child : SchemaNode} {call base : Call}
  {site inner outer : Site} {b : Bindings} {root : Tree}

theorem everywhere_sourced_iff : n.Everywhere (Sourced P) ↔
    (∀ target ∈ n.reference, P target) ∧ ∀ child ∈ n.children, child.Everywhere (Sourced P) :=
  everywhere_iff

theorem sourced_of_children (plain : n.reference = none) (each : ∀ child ∈ n.children, child.Everywhere (Sourced P)) :
    n.Everywhere (Sourced P) := by
  refine everywhere_sourced_iff.mpr ⟨?_, each⟩
  rw [plain]
  exact nofun

theorem sourced_congr (sourced : n.Everywhere (Sourced P)) (same : SameBody node n) : node.Everywhere (Sourced P) := by
  obtain ⟨own, below⟩ := everywhere_sourced_iff.mp sourced
  refine everywhere_sourced_iff.mpr ⟨by rwa [same.reference], ?_⟩
  rwa [children, same.parts]

theorem sourced_mono (sourced : n.Everywhere (Sourced P)) (wider : ∀ target, P target → Q target) :
    n.Everywhere (Sourced Q) :=
  fun inner inside target given => wider target (sourced inner inside target given)

theorem sourced_referenceTo (name : String) (refers : P (schemaRef name)) : (referenceTo name).Everywhere (Sourced P) := by
  refine everywhere_sourced_iff.mpr ⟨?_, nofun⟩
  rintro target ⟨⟩
  exact refers

theorem sourced_deepPartial (sourced : n.Everywhere (Sourced P)) : (deepPartial n).Everywhere (Sourced P) := by
  induction n using children_induction with
  | step n ih =>
    obtain ⟨own, below⟩ := everywhere_sourced_iff.mp sourced
    have each : ∀ child ∈ (partialParts n.parts).toList, child.Everywhere (Sourced P) := by
      intro child listed
      rcases mem_partialParts listed with old | ⟨old, inside, rfl | rfl⟩
      · exact below child old
      · exact ih old inside (below old inside)
      · exact sourced_congr (ih old inside (below old inside)) ⟨rfl, rfl⟩
    rw [deepPartial_eq]
    split
    · exact everywhere_sourced_iff.mpr ⟨own, each⟩
    · exact everywhere_sourced_iff.mpr ⟨own, each⟩

theorem Use.widen (use : Use b root inner site) (inside : inner ∈ outer.preorder) : Use b root outer site := by
  cases use with
  | start within stands start => exact .start (Site.mem_preorder_trans within inside) stands start
  | property within shorthand => exact .property (Site.mem_preorder_trans within inside) shorthand
  | enumeration within identifier free => exact .enumeration (Site.mem_preorder_trans within inside) identifier free

theorem Opens.widen (opens : Opens b inner scope) (inside : inner ∈ outer.preorder) : Opens b outer scope := by
  cases opens with
  | arguments within isCall listed other => exact .arguments (Site.mem_preorder_trans within inside) isCall listed other
  | function within stands named given => exact .function (Site.mem_preorder_trans within inside) stands named given
  | body within stands named given child => exact .body (Site.mem_preorder_trans within inside) stands named given child

theorem Refers.widen (refers : Refers b root inner target) (reaches : Site.Reaches (Opens b outer) outer inner) :
    Refers b root outer target := by
  obtain ⟨use, stands, same, below⟩ := refers
  exact ⟨use, stands.widen reaches.inside, same, reaches.trans (below.mono fun _ opens => opens.widen reaches.inside)⟩

def Named (b : Bindings) (root : Tree) (lower : Lower) : Prop :=
  ∀ cx site node, cx.bindings = b → cx.root = root → lower cx site = .ok node → node.Everywhere (Sourced (Refers b root site))

variable (below : Named b root lower) (bound : cx.bindings = b) (rooted : cx.root = root)
  (reached : ∀ a ∈ call.arguments, Site.Reaches (Opens b outer) outer a.site)

include below bound rooted reached

theorem part_sourced (part : Part lower cx call child) : child.Everywhere (Sourced (Refers b root outer)) := by
  cases part with
  | lowered given exposes lowered =>
    have own := below cx.child _ _ bound rooted lowered
    exact sourced_mono own fun _ refers => refers.widen ((reached _ given).trans exposes.reaches)
  | @named a site given exposes shorthand =>
    have reaches : Site.Reaches (Opens b outer) outer site := (reached _ given).trans exposes.reaches
    refine sourced_congr (sourced_referenceTo site.text ?_) ⟨rfl, rfl⟩
    exact ⟨site, .property reaches.inside shorthand, rfl, reaches⟩

theorem added_sourced (added : Added lower cx call node) : node.Everywhere (Sourced (Refers b root outer)) := by
  cases added with
  | lowered given lowered =>
    exact sourced_mono (below cx.child _ _ bound rooted lowered) fun _ refers => refers.widen (reached _ given)
  | written parts =>
    refine sourced_of_children rfl fun child listed => ?_
    rcases mem_children_withProperties listed with ⟨entry, inside, rfl⟩ | none
    · exact part_sourced below (show cx.child.bindings = b from bound) rooted reached (parts entry inside)
    · cases none

theorem built_sourced (lazy : call.name = "lazy" → ∃ inner ∈ outer.preorder, ∃ coerce,
      b.chain? inner = some { root := .builder call coerce, calls := [] })
    (built : Built lower cx call node) : node.Everywhere (Sourced (Refers b root outer)) := by
  cases built with
  | @given a node site named argument given lowered =>
    obtain ⟨inner, inside, coerce, stands⟩ := lazy named
    have through : Site.Reaches (Opens b outer) a.site.unwrap site :=
      givenBy?_reaches given (.function inside stands named argument) fun _ body => .body inside stands named argument body
    have reaches := (reached _ argument).trans ((Site.exposes_unwrap _).reaches.trans through)
    exact sourced_mono (below cx _ _ bound rooted lowered) fun _ refers => refers.widen reaches
  | parts _ plain each =>
    exact sourced_of_children plain fun child listed => part_sourced below bound rooted reached (each child listed)
  | @unlisted a site argument exposes identifier free =>
    have reaches : Site.Reaches (Opens b outer) outer site := (reached _ argument).trans exposes.reaches
    rw [rooted] at free
    exact sourced_referenceTo site.text ⟨site, .enumeration reaches.inside identifier free, rfl, reaches⟩

theorem change_sourced (sourced : s.node.Everywhere (Sourced (Refers b root outer))) (change : Change lower cx s call node) :
    node.Everywhere (Sourced (Refers b root outer)) := by
  obtain ⟨own, old⟩ := everywhere_sourced_iff.mp sourced
  have finished : s.finish.Everywhere (Sourced (Refers b root outer)) := sourced_congr sourced ⟨rfl, rfl⟩
  have single {first : SchemaNode} (plain : node.reference = none) (around : node.children = [first])
      (inner : first.Everywhere (Sourced (Refers b root outer))) : node.Everywhere (Sourced (Refers b root outer)) := by
    refine sourced_of_children plain ?_
    rw [around]
    exact List.forall_mem_singleton.mpr inner
  have pair {first second : SchemaNode} (plain : node.reference = none) (around : node.children = [first, second])
      (inner : first.Everywhere (Sourced (Refers b root outer))) (other : second.Everywhere (Sourced (Refers b root outer))) :
      node.Everywhere (Sourced (Refers b root outer)) := by
    refine sourced_of_children plain ?_
    rw [around]
    exact List.forall_mem_cons.mpr ⟨inner, List.forall_mem_singleton.mpr other⟩
  have beside {child : SchemaNode} (origin : Origin lower cx s.node call child) :
      child.Everywhere (Sourced (Refers b root outer)) := by
    cases origin with
    | kept kept => exact old _ (mem_children_of_besides kept)
    | marked kept _ => exact sourced_congr (old _ (mem_children_of_besides kept)) ⟨rfl, rfl⟩
    | new part => exact part_sourced below bound rooted reached part
    | added added inside =>
      have all := added_sourced below bound rooted reached added
      exact (everywhere_sourced_iff.mp all).2 _ (mem_children_of_besides inside)
  cases change with
  | revised reference combination origins =>
    refine everywhere_sourced_iff.mpr ⟨?_, fun child listed => ?_⟩
    · rcases reference with same | none
      · rwa [same]
      · rw [none]
        exact nofun
    · rcases Parts.mem_toList_iff_besides.mp listed with other | member
      · exact beside (origins child other)
      · rcases combination with same | none
        · rw [same] at member
          exact old child (Parts.mem_toList_iff_besides.mpr (.inr member))
        · rw [none] at member
          cases member
  | annotated _ _ plain parts => exact single plain (congrArg Parts.toList parts) sourced
  | listed _ plain parts => exact single plain (congrArg Parts.toList parts) finished
  | either _ part plain parts =>
    exact pair plain (congrArg Parts.toList parts) finished (part_sourced below bound rooted reached part)
  | both _ part plain parts =>
    exact pair plain (congrArg Parts.toList parts) finished (part_sourced below bound rooted reached part)
  | extended _ added plain parts =>
    exact pair plain (congrArg Parts.toList parts) finished (added_sourced below bound rooted reached added)
  | softened _ => exact sourced_deepPartial sourced

omit below bound rooted reached

theorem unwrap_call (isCall : site.kind = .call) : site.unwrap = site := by
  have plain : ¬ site.tree.kind.isWrapper = true := by
    have kind : site.tree.kind = .call := isCall
    rw [kind]
    exact Bool.false_ne_true
  rw [Site.unwrap, Site.unwrapTree, if_neg plain]

theorem reaches_passes (passes : Bindings.Passes outer site) : Site.Reaches (Opens b outer) outer site := by
  obtain ⟨call, list, exposes, isCall, listed, part⟩ := passes
  have outer_ : Site.Reaches (Opens b outer) outer call := exposes.reaches
  have inner : Site.Reaches (Opens b outer) call list := (Site.exposes_child? (by rw [isCall]; rfl) listed).reaches
  obtain ⟨tree, child, rfl⟩ := Option.map_eq_some_iff.mp listed
  refine outer_.trans (inner.trans (.part (fun scope => .arguments exposes.inside isCall child ?_) part))
  intro kind
  have kind : (call.down tree).kind = .arguments := kind
  rw [kind] at scope
  cases scope

theorem lowerOver_named (below : Named b root lower) : Named b root (lowerOver lower) := by
  intro cx site node bound rooted lowered
  obtain ⟨_, chain, start, state, stands, given, applied, rfl⟩ := lowerOver_ok lowered
  rw [bound] at stands
  have reads := Bindings.chain?_reads stands
  have around : site.Exposes site.unwrap := Site.exposes_unwrap site
  obtain ⟨new, same, passes⟩ := reads.passes
  rw [List.append_nil] at same
  have reached : ∀ a ∈ chain.root.arguments ++ chain.calls.flatMap Call.arguments,
      Site.Reaches (Opens b site) site a.site := by
    intro a listed
    rw [same] at listed
    obtain ⟨call, list, exposes, passed⟩ := passes a listed
    exact reaches_passes ⟨call, list, around.trans exposes, passed⟩
  have begun : start.Everywhere (Sourced (Refers b root site)) := by
    obtain ⟨root_, calls⟩ := chain
    cases root_ with
    | identifier use =>
      cases given
      have exposes : site.Exposes use := around.trans (reads.exposes_start rfl)
      exact sourced_referenceTo _ ⟨use, .start (Site.mem_preorder_self _) stands rfl, rfl, exposes.reaches⟩
    | builder base coerce =>
      obtain ⟨built, building, marked⟩ := bind_ok.mp given
      obtain ⟨inner, exposes, own⟩ := reads.exposes_base rfl
      have called : b.chain? inner = some { root := .builder base coerce, calls := [] } := by
        rw [Bindings.chain?, unwrap_call own.arguments.1]
        exact Bindings.reads_iff.mpr own
      have sourced : built.Everywhere (Sourced (Refers b root site)) :=
        built_sourced below bound rooted (fun a listed => reached a (List.mem_append_left _ listed))
          (fun _ => ⟨inner, (around.trans exposes).inside, coerce, called⟩) (build_built building)
      cases marked
      split
      · exact sourced_congr sourced ⟨rfl, rfl⟩
      · exact sourced
  refine sourced_congr (n := state.node) ?_ ⟨rfl, rfl⟩
  refine foldlM_keeps (P := fun s : State => s.node.Everywhere (Sourced (Refers b root site))) begun ?_ applied
  intro call listed s next sourced step
  refine change_sourced below bound rooted (fun a given => reached a ?_) sourced (apply_step step).1
  exact List.mem_append_right _ (List.mem_flatMap.mpr ⟨call, listed, given⟩)

theorem lowerWithin_named (levels : Nat) : Named b root (lowerWithin levels) := by
  induction levels with
  | zero =>
    intro cx site node _ _ lowered
    cases lowered
  | succ levels ih => exact lowerOver_named ih

theorem lowerExpression_sourced (lowered : lowerExpression cx site = .ok node) :
    node.Everywhere (Sourced (Refers cx.bindings cx.root site)) :=
  lowerWithin_named _ _ _ _ rfl rfl lowered

variable {settings : ParseSettings} {r : Survey} {d : Declaration}

theorem scopes_around {R : Tree → Prop} (listed : d ∈ Declaration.initialized root)
    (reaches : Site.Reaches R d.value site) :
    ∀ scope ∈ site.above.dropLast, scope.kind.isScope = true → R scope := by
  obtain ⟨statement, part, _, between, above, open_⟩ := initialized_exposes listed
  obtain ⟨tree, _, rfl⟩ := List.mem_map.mp part
  obtain ⟨_, further, beneath, allowed⟩ := reaches
  have path : site.above.dropLast = further ++ between := by
    rw [beneath, above]
    exact (congrArg List.dropLast (List.append_assoc further between [root]).symm).trans List.dropLast_concat
  intro scope within opens
  rw [path] at within
  rcases List.mem_append.mp within with inner | outer
  · exact allowed scope inner opens
  · exact absurd opens (open_ scope outer)

-- What an outcome says of the names that its schemas refer to. Each is the text of an
-- identifier in the initializer, and only what the lowering goes through may bind it anew.
def Outcome.Scoped (o : Outcome) (b : Bindings) (root : Tree) (declared : List Declaration) : Prop :=
  ∀ entry ∈ o.document.schemas, ∃ d ∈ declared, d.name = entry.1 ∧ entry.2.Everywhere fun inner =>
    ∀ target ∈ inner.reference, ∃ use, Use b root d.value use ∧ target = schemaRef use.text ∧
      ∀ scope ∈ use.above.dropLast, scope.rebinds use.text = true → Opens b d.value scope

theorem outcome_scoped (settings : ParseSettings) (root : Tree) :
    ((Survey.ofTree settings root).outcome settings).Scoped (.collect settings root) root
      (Survey.ofTree settings root).declarations := by
  intro entry listed
  obtain ⟨d, declared, named, lowered, value, reworked⟩ := outcome_lowered listed
  refine ⟨d, declared, named, fun inner inside target given => ?_⟩
  have sourced := reworked.everywhere (lowerExpression_sourced value)
  obtain ⟨use, stands, same, reaches⟩ := sourced inner inside target given
  have initialized : d ∈ Declaration.initialized root := List.mem_of_mem_filter (mem_of_mem_unique declared)
  refine ⟨use, stands, same, fun scope within rebinds => ?_⟩
  exact scopes_around initialized reaches scope within (Tree.isScope_of_rebinds rebinds)

-- Where the references come from, whatever tree a script has. Only a function that `lazy` is
-- called with, or its body, comes between an identifier and the declaration of its name.
theorem references_scoped (settings : ParseSettings) :
    (∀ root : Tree, ((Survey.ofTree settings root).outcome settings).Scoped (.collect settings root) root
      (Declaration.firsts (.collect settings root) root)) ∧
    ∀ source, (parse settings source).Scoped (.collect settings (Script.parse source)) (Script.parse source)
      (Declaration.firsts (.collect settings (Script.parse source)) (Script.parse source)) := by
  have whole (root : Tree) : ((Survey.ofTree settings root).outcome settings).Scoped (.collect settings root) root
      (Declaration.firsts (.collect settings root) root) := by
    rw [← declarations_ofTree]
    exact outcome_scoped settings root
  exact ⟨whole, fun source => whole (Script.parse source)⟩

-- The parameter of the function binds the name anew, and the schema refers to the declaration.
def capturingScript : String := "let A=z.int(),B=z.lazy((A)=>A)"

theorem references_scoped_captured : ∃ entry ∈ (parse {} capturingScript).document.schemas,
    entry.2.reference = some (schemaRef "A") ∧ "A" ∈ (parse {} capturingScript).document.schemas.map Prod.fst ∧
    ∃ d ∈ Declaration.initialized (Script.parse capturingScript), d.name = entry.1 ∧
      ∀ use ∈ d.value.identifiers, use.text = "A" → ∃ scope ∈ use.above.dropLast, scope.rebinds "A" = true := by
  decide +kernel

end Builder
end SchemaAtlas
