import SchemaAtlas.Proofs.AlikeLowering
import SchemaAtlas.Proofs.ScriptDocument

namespace SchemaAtlas

namespace Script

-- Functions that do nothing but give an expression.

def Kind.isFunction (kind : Kind) : Bool := kind == .arrowFunction || kind == .functionExpression

def Tree.takesNothing (t : Tree) : Bool :=
  (t.child? .parameter).isNone && (t.child? .parameters).all fun list => list.kind == .formalParameters && list.parts.isEmpty

def only? : List α → Option α
  | [a] => some a
  | _ => none

-- The expression that is the body of a function without parameters, or that the one statement
-- of its block returns.
def Site.result? (function : Site) : Option Site := do
  let body ← function.child? .body
  if !(function.kind.isFunction && function.tree.takesNothing) then none
  else if body.kind != .statementBlock then some body
  else
    let statement ← only? body.parts
    if statement.kind == .returnStatement then only? statement.parts else none

theorem only?_some {items : List α} (one : only? items = some a) : items = [a] := by
  unfold only? at one
  split at one
  · cases one
    rfl
  · cases one

namespace Site

def putFor (e s : Site) : Site := { s with tree := e.tree }

variable {function e : Site} {name : String}

theorem rebinds_takesNothing {t : Tree} (kind : t.kind.isFunction = true) (nothing : t.takesNothing = true) :
    t.rebinds name = false := by
  obtain ⟨single, list⟩ := Bool.and_eq_true_iff.mp nothing
  have parameters : (t.child? .parameters).any (·.binds name) = false := by
    cases stands : t.child? .parameters with
    | none => rfl
    | some parameters =>
      rw [stands] at list
      simp only [Option.all_some, Bool.and_eq_true, beq_iff_eq, List.isEmpty_iff] at list
      rw [Option.any_some, Tree.binds, list.1]
      simp [list.2]
  rw [Option.isNone_iff_eq_none] at single
  simp only [Kind.isFunction, Bool.or_eq_true, beq_iff_eq] at kind
  rcases kind with kind | kind <;> simp [Tree.rebinds, kind, parameters, single]

theorem result?_spec (given : function.result? = some e) :
    function.kind.isFunction = true ∧ function.tree.takesNothing = true ∧
      ∃ body, function.child? .body = some body ∧ (body.kind ≠ .statementBlock ∧ e = body ∨
        body.kind = .statementBlock ∧ ∃ statement, body.parts = [statement] ∧ statement.kind = .returnStatement ∧
          statement.parts = [e]) := by
  obtain ⟨body, stands, given⟩ := Option.bind_eq_some_iff.mp given
  split at given
  · cases given
  · rename_i plain
    simp only [Bool.not_eq_true', Bool.not_eq_false, Bool.and_eq_true] at plain
    refine ⟨plain.1, plain.2, body, stands, ?_⟩
    split at given
    · rename_i plain
      cases given
      exact .inl ⟨by simpa using plain, rfl⟩
    · rename_i block
      obtain ⟨statement, one, given⟩ := Option.bind_eq_some_iff.mp given
      split at given
      · rename_i returns
        exact .inr ⟨by simpa using block, statement, only?_some one, by simpa using returns, only?_some given⟩
      · cases given

theorem result?_reaches (given : function.result? = some e) :
    Reaches (fun t => t.rebinds name = false) function e := by
  obtain ⟨kind, nothing, body, stands, ⟨_, rfl⟩ | ⟨block, statement, one, returns, only⟩⟩ := result?_spec given
  · exact .child? (fun _ => rebinds_takesNothing kind nothing) stands
  · have own : Reaches (fun t => t.rebinds name = false) function body :=
      .child? (fun _ => rebinds_takesNothing kind nothing) stands
    have trees : body.tree.parts = [statement.tree] := by
      have same := congrArg (List.map Site.tree) one
      rw [Site.parts, List.map_map] at same
      simpa [Function.comp_def, down] using same
    have declares : statement.tree.declares name = false := by
      have kind : statement.tree.kind = .returnStatement := returns
      rw [Tree.declares, kind]
    have blocked : body.tree.rebinds name = false := by
      have kind : body.tree.kind = .statementBlock := block
      rw [Tree.rebinds, kind]
      simp [trees, declares]
    have inner : Reaches (fun t => t.rebinds name = false) body statement :=
      .part (fun _ => blocked) (by rw [one]; exact List.mem_singleton_self _)
    have last : statement.Exposes e := exposes_part (by rw [returns]; rfl) (by rw [only]; exact List.mem_singleton_self _)
    exact own.trans (inner.trans last.reaches)

end Site

end Script

namespace Builder

open Script

def Bindings.deferred? (b : Bindings) (s : Site) : Option Site := do
  let chain ← b.chain? s
  let base ← chain.base?
  let list ← s.unwrap.child? .arguments
  let argument ← only? list.parts
  if chain.calls.isEmpty && !chain.coerces && base.name == "lazy" && list.kind == .arguments then argument.unwrap.result?
  else none

variable {b : Bindings} {s e : Site} {lower : Lower} {cx : Context} {node : SchemaNode}

theorem givenBy?_result (given : s.result? = some e) : givenBy? s = some e := by
  obtain ⟨kind, _, body, stands, ⟨plain, rfl⟩ | ⟨block, statement, one, returns, only⟩⟩ := Site.result?_spec given
  all_goals simp only [Kind.isFunction, Bool.or_eq_true, beq_iff_eq] at kind
  · rcases kind with kind | kind <;> simp [givenBy?, kind, stands, plain]
  · rcases kind with kind | kind <;> simp [givenBy?, kind, stands, block, one, returns, only]

theorem deferred?_spec (defers : b.deferred? s = some e) :
    ∃ base a, b.chain? s = some { root := .builder base false, calls := [] } ∧ base.name = "lazy" ∧
      base.first = .ok a ∧ givenBy? a.site.unwrap = some e ∧ e.tree.preorder.length < s.tree.preorder.length ∧
      ∀ name, Site.Reaches (fun t => t.rebinds name = false) s e := by
  obtain ⟨⟨root, calls⟩, stands, defers⟩ := Option.bind_eq_some_iff.mp defers
  obtain ⟨base, factory, defers⟩ := Option.bind_eq_some_iff.mp defers
  obtain ⟨list, listed, defers⟩ := Option.bind_eq_some_iff.mp defers
  obtain ⟨argument, one, given⟩ := Option.bind_eq_some_iff.mp defers
  split at given
  · rename_i shape
    simp only [Bool.and_eq_true, List.isEmpty_iff, Bool.not_eq_true', beq_iff_eq] at shape
    obtain ⟨⟨⟨rfl, plain⟩, named⟩, arguments⟩ := shape
    cases root with
    | identifier site => cases factory
    | builder base coerce =>
      cases factory
      obtain rfl : coerce = false := plain
      obtain ⟨isCall, name, same⟩ := (Bindings.chain?_reads stands).arguments
      have only : list.parts = [argument] := only?_some one
      have first : base.first = .ok { site := argument, value := argument.tree.literal? } := by
        simp [Call.first, Call.argument?, same, Call.ofTree, listed, only]
      have outer : s.unwrap.Exposes list := Site.exposes_child? (by rw [isCall]; rfl) listed
      have inner : list.Exposes argument :=
        Site.exposes_part (by rw [arguments]; rfl) (by rw [only]; exact List.mem_singleton_self _)
      have around : list.Exposes argument.unwrap := inner.trans (Site.exposes_unwrap argument)
      have within (name : String) : Site.Reaches (fun t => t.rebinds name = false) list e :=
        around.reaches.trans (Site.result?_reaches given)
      refine ⟨base, _, stands, named, first, givenBy?_result given, ?_, fun name => ?_⟩
      · exact Nat.lt_of_le_of_lt (Site.length_preorder_le (within "").inside)
          (Nat.lt_of_lt_of_le (Site.length_preorder_lt listed) (Site.length_preorder_le (Site.exposes_unwrap s).inside))
      · exact (Site.exposes_unwrap s).reaches.trans (outer.reaches.trans (within name))
  · cases given

-- The node of a deferred expression is started and finished once more. It keeps whether it may
-- be null, and it has to be present again.
theorem finish_start (n : SchemaNode) : (State.start n).finish = setRequired true n := rfl

theorem lowerOver_deferred (defers : cx.bindings.deferred? s = some e) (within : cx.depth ≤ cx.maxDepth)
    (lowered : lower cx e = .ok node) : lowerOver lower cx s = .ok (setRequired true node) := by
  obtain ⟨base, a, stands, named, first, given, _, _⟩ := deferred?_spec defers
  have family : Family.ofFactory? base.name = some .reference := by
    rw [named]
    decide
  have built : build lower cx base = .ok node := by
    rw [build, family]
    simp [named, buildLazy, first, given, lowered, bind, Except.bind]
  have checked : cx.checkDepth s = .ok () := if_pos within
  rw [lowerOver, stands, checked]
  simp only [lowerRoot, built, bind, Except.bind, pure, Except.pure]
  rw [← finish_start]
  rfl

theorem alike_putFor (defers : b.deferred? s = some e) : (e.putFor s).Alike (raising b).likeness e := by
  obtain ⟨_, _, _, _, _, _, _, reaches⟩ := deferred?_spec defers
  exact ⟨.refl (fun _ => rfl) _, fun name => (reaches name).isShadowed.symm, fun _ _ => ⟨trivial, fun _ _ => trivial⟩⟩

theorem lowerWithin_deeper {t : Site} (deeper : levels ≤ more) (alike : s.Alike (raising cx.bindings).likeness t)
    (lowered : lowerWithin levels cx s = .ok node) : lowerWithin more cx t = .ok node := by
  have keeps := lowerWithin_raised (Nat.le_refl cx.maxDepth) deeper cx alike
  change KeptUnless _ (lowerWithin levels cx s) (lowerWithin more cx t) at keeps
  rw [lowered] at keeps
  exact keeps.eq_of_not_stopped nofun

-- A deferred expression gives what it gives in the place of the call, only that it has to be
-- present: at every level, and as a whole.
theorem lazy_lowered (defers : cx.bindings.deferred? s = some e) :
    (∀ levels more node, levels < more → lowerWithin levels cx (e.putFor s) = .ok node →
      lowerWithin more cx s = .ok (setRequired true node)) ∧
    ∀ node, lowerExpression cx (e.putFor s) = .ok node →
      lowerExpression cx s = .ok (setRequired true node) ∧
        (lowerExpression cx s = .ok node ↔ node.metadata.required = true) := by
  have step (levels more : Nat) (node : SchemaNode) (deeper : levels < more)
      (lowered : lowerWithin levels cx (e.putFor s) = .ok node) :
      lowerWithin more cx s = .ok (setRequired true node) := by
    obtain ⟨more, rfl⟩ := Nat.exists_eq_add_one.mpr (Nat.zero_lt_of_lt deeper)
    have inner : lowerWithin more cx e = .ok node :=
      lowerWithin_deeper (Nat.le_of_lt_succ deeper) (alike_putFor defers) lowered
    have within : cx.depth ≤ cx.maxDepth := by
      cases levels with
      | zero => cases lowered
      | succ levels => exact (lowerOver_ok lowered).1
    exact lowerOver_deferred defers within inner
  refine ⟨step, fun node lowered => ?_⟩
  obtain ⟨_, _, _, _, _, _, fewer, _⟩ := deferred?_spec defers
  have whole : lowerExpression cx s = .ok (setRequired true node) := step _ _ node fewer lowered
  refine ⟨whole, ?_⟩
  rw [whole]
  constructor
  · intro same
    rw [← Except.ok.inj same]
    rfl
  · intro required
    obtain ⟨keywords, parts, reference, ⟨present, nullable, dependencies, chain, circular⟩⟩ := node
    obtain rfl : present = true := required
    rfl

def deferringSurvey : Survey :=
  survey {} "let A=z.lazy(()=>z.int().nullable()),B=z.lazy(()=>\x7breturn z.int().optional();\x7d)"

theorem lazy_lowered_script : ∃ d ∈ deferringSurvey.declarations, ∃ e node,
    (deferringSurvey.context {}).bindings.deferred? d.value = some e ∧ d.name = "B" ∧
    lowerExpression (deferringSurvey.context {}) (e.putFor d.value) = .ok node ∧
    lowerExpression (deferringSurvey.context {}) d.value = .ok (setRequired true node) := by
  have runs : ∃ d ∈ deferringSurvey.declarations, d.name = "B" ∧
      ((deferringSurvey.context {}).bindings.deferred? d.value).any
        (fun e => (lowerExpression (deferringSurvey.context {}) (e.putFor d.value)).isOk) = true := by decide +kernel
  obtain ⟨d, declared, named, read⟩ := runs
  obtain ⟨e, defers, read⟩ := (Option.any_eq_true _ _).mp read
  cases lowered : lowerExpression (deferringSurvey.context {}) (e.putFor d.value) with
  | error refusal => simp [lowered, Except.isOk, Except.toBool] at read
  | ok node => exact ⟨d, declared, e, node, defers, named, lowered, ((lazy_lowered defers).2 node lowered).1⟩

-- A schema that may be left out where it stands alone has to be present where it is deferred.
theorem lazy_lowered_optional : ∃ d ∈ deferringSurvey.declarations,
    ∃ e ∈ (deferringSurvey.context {}).bindings.deferred? d.value,
      (lowerExpression (deferringSurvey.context {}) (e.putFor d.value)).map (·.metadata.required) = .ok false ∧
      (lowerExpression (deferringSurvey.context {}) d.value).map (·.metadata.required) = .ok true := by decide +kernel

end Builder
end SchemaAtlas
