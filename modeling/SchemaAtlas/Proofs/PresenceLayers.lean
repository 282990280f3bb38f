import Mathlib.Data.List.Chain
import SchemaAtlas.Proofs.LoweringSteps
import SchemaAtlas.Proofs.ScriptDocument

namespace SchemaAtlas
namespace Builder

open Script SchemaNode

-- The nodes that a chain builds one around the other, each with the calls that were made on
-- it. Whether a node may be left out or be null is settled by its own calls alone.

def nulling : List String := ["nullable", "nullish"]

-- Whether a call puts a node around the one so far. An extension does, unless it makes one
-- object of two.
def Encloses (lower : Lower) (cx : Context) (s : State) (call : Call) : Prop :=
  call.name ∈ ["array", "or", "and"] ∨ call.name ∈ extending ∧
    ∃ a added, call.first = .ok a ∧ addition lower cx a.site = .ok added ∧ (isObject s.node && isObject added) = false

structure Around (inner n : SchemaNode) : Prop where
  plain : n.reference = none
  unlisted : n.keywords.enum = none
  type : n.keywords.type = none ∨ n.keywords.type = some .array
  parts : n.parts = { items := some inner } ∨
    ∃ other, n.parts = { anyOf := some [inner, other] } ∨ n.parts = { allOf := some [inner, other] }

structure Layer where
  node : SchemaNode
  calls : List Call

structure Layer.Marked (l : Layer) : Prop where
  required : l.node.metadata.required = false ↔ ∃ call ∈ l.calls, call.name ∈ omitting
  nullable : l.node.metadata.nullable = true ↔ ∃ call ∈ l.calls, call.name ∈ nulling

-- The calls of a run cut at those that enclose, from the innermost node out. `own` are the
-- calls so far on the node under construction.
inductive Layered (lower : Lower) (cx : Context) : List Call → State → List Call → List Layer → Prop where
  | done : Layered lower cx own s [] [⟨s.finish, own⟩]
  | within : ¬ Encloses lower cx s call → apply lower cx s call = .ok next →
      Layered lower cx (own ++ [call]) next rest layers → Layered lower cx own s (call :: rest) layers
  | around : Encloses lower cx s call → apply lower cx s call = .ok next →
      Layered lower cx [] next rest layers → Layered lower cx own s (call :: rest) (⟨s.finish, own⟩ :: layers)

variable {lower : Lower} {cx : Context} {s next state : State} {n node inner : SchemaNode} {base call : Call}
  {own calls : List Call}

structure SameShape (new old : SchemaNode) : Prop extends SameBody new old where
  type : new.keywords.type = old.keywords.type
  enum : new.keywords.enum = old.keywords.enum

theorem Around.congr (around : Around inner n) (same : SameShape node n) : Around inner node :=
  ⟨same.reference.trans around.plain, same.enum.trans around.unlisted, by rw [same.type]; exact around.type,
    by rw [same.parts]; exact around.parts⟩

theorem Around.annotated (around : Around inner n) : State.annotated n = n :=
  if_neg (by rw [isReference, around.plain]; exact Bool.false_ne_true)

theorem Around.not_object (around : Around inner n) : isObject n = false := by
  rcases around.type with type | type <;> simp [isObject, type]

theorem Around.prefixItems (around : Around inner n) : n.parts.prefixItems = none := by
  rcases around.parts with parts | ⟨other, parts | parts⟩ <;> rw [parts]

theorem Around.constrain (around : Around inner n) (constrained : constrain n call = .ok (some node)) :
    Around inner node := by
  unfold Builder.constrain at constrained
  rcases around.type with type | type
  · rw [type] at constrained
    cases constrained
  · rw [type] at constrained
    unfold constrainArray at constrained
    dsimp only at constrained
    split at constrained
    · obtain ⟨count, _, constrained⟩ := bind_ok.mp constrained
      cases constrained
      exact around.congr ⟨⟨rfl, rfl⟩, rfl, rfl⟩
    · split at constrained
      · cases constrained
        exact around.congr ⟨⟨rfl, rfl⟩, rfl, rfl⟩
      · cases constrained

structure Enclosed (s next : State) : Prop where
  optional : next.optional = false
  nullable : next.nullable = false
  around : Around s.finish next.node

structure Marks (s : State) (call : Call) (next : State) : Prop where
  optional : next.optional = (s.optional || omitting.contains call.name)
  nullable : next.nullable = (s.nullable || nulling.contains call.name)
  around : ∀ inner, Around inner s.node → Around inner next.node

theorem not_encloses (method : call.name ∉ ["array", "or", "and"]) (extension : call.name ∉ extending) :
    ¬ Encloses lower cx s call :=
  fun encloses => encloses.elim method fun extends_ => extension extends_.1

theorem marks_mapNode {f : SchemaNode → SchemaNode} {optional nullable : Bool}
    (marks : optional = (s.optional || omitting.contains call.name) ∧ nullable = (s.nullable || nulling.contains call.name))
    (same : ∀ n, SameShape (f n) n) : Marks s call { node := f s.node, optional := optional, nullable := nullable } :=
  ⟨marks.1, marks.2, fun _ around => around.congr (same _)⟩

theorem marks_annotate {f : SchemaNode → SchemaNode} {optional nullable : Bool}
    (marks : optional = (s.optional || omitting.contains call.name) ∧ nullable = (s.nullable || nulling.contains call.name))
    (same : ∀ n, SameShape (f n) n) :
    Marks s call { node := f (State.annotated s.node), optional := optional, nullable := nullable } := by
  refine ⟨marks.1, marks.2, fun _ around => ?_⟩
  rw [around.annotated]
  exact around.congr (same _)

theorem applyDefault_marks (named : call.name ∈ ["default", "prefault"]) : Marks s call (applyDefault s call) := by
  have marks : true = (s.optional || omitting.contains call.name) ∧
      s.nullable = (s.nullable || nulling.contains call.name) := by
    simp only [List.mem_cons, List.not_mem_nil, or_false] at named
    rcases named with named | named <;> simp [named, omitting, nulling]
  unfold applyDefault
  dsimp only
  split
  · exact marks_annotate (f := fun n => { n with keywords := { n.keywords with default := some _ } }) marks
      fun _ => ⟨⟨rfl, rfl⟩, rfl, rfl⟩
  · exact marks_mapNode (f := fun n => pushValidation n _) marks fun _ => ⟨⟨rfl, rfl⟩, rfl, rfl⟩

theorem applyGeneral_layer (applied : applyGeneral lower cx s call = .ok (some next)) :
    Encloses lower cx s call ∧ Enclosed s next ∨ ¬ Encloses lower cx s call ∧ Marks s call next := by
  unfold applyGeneral at applied
  split at applied
  · rename_i named
    cases applied
    refine .inr ⟨not_encloses (by simp [named]) (by simp [named, extending]), ?_, ?_, fun _ => id⟩
    · simp [named, omitting]
    · simp [named, nulling]
  · rename_i named
    cases applied
    refine .inr ⟨not_encloses (by simp [named]) (by simp [named, extending]), ?_, ?_, fun _ => id⟩
    · simp [named, omitting]
    · simp [named, nulling]
  · rename_i named
    cases applied
    refine .inr ⟨not_encloses (by simp [named]) (by simp [named, extending]), ?_, ?_, fun _ => id⟩
    · simp [named, omitting]
    · simp [named, nulling]
  · rename_i named
    cases applied
    exact .inr ⟨not_encloses (by simp [named]) (by simp [named, extending]), applyDefault_marks (by simp [named])⟩
  · rename_i named
    cases applied
    exact .inr ⟨not_encloses (by simp [named]) (by simp [named, extending]), applyDefault_marks (by simp [named])⟩
  · rename_i named
    split at applied
    · cases applied
      refine .inr ⟨not_encloses (by simp [named]) (by simp [named, extending]), ?_⟩
      exact marks_annotate (f := fun n => { n with keywords := { n.keywords with description := some _ } })
        (by simp [named, omitting, nulling]) fun _ => ⟨⟨rfl, rfl⟩, rfl, rfl⟩
    · cases applied
  · rename_i named
    cases applied
    exact .inl ⟨.inl (by simp [named]), rfl, rfl, rfl, rfl, .inr rfl, .inl rfl⟩
  · rename_i named
    obtain ⟨argument, _, applied⟩ := bind_ok.mp applied
    obtain ⟨other, _, same⟩ := bind_ok.mp applied
    cases same
    exact .inl ⟨.inl (by simp [named]), rfl, rfl, rfl, rfl, .inl rfl, .inr ⟨other, .inl rfl⟩⟩
  · rename_i named
    obtain ⟨argument, _, applied⟩ := bind_ok.mp applied
    obtain ⟨other, _, same⟩ := bind_ok.mp applied
    cases same
    exact .inl ⟨.inl (by simp [named]), rfl, rfl, rfl, rfl, .inl rfl, .inr ⟨other, .inr rfl⟩⟩
  · rename_i named
    cases applied
    refine .inr ⟨not_encloses (by simp [named]) (by simp [named, extending]), ?_⟩
    exact marks_annotate
      (f := fun n => pushValidation { n with keywords := { n.keywords with readOnly := true } } (refinement call))
      (by simp [named, omitting, nulling, State.setReadOnly, State.annotate, State.mapNode]) fun _ => ⟨⟨rfl, rfl⟩, rfl, rfl⟩
  · split at applied
    · rename_i refines
      have apart : ∀ name ∈ refinements,
          name ∉ ["array", "or", "and"] ∧ name ∉ extending ∧ name ∉ omitting ∧ name ∉ nulling := by decide
      obtain ⟨method, extension, omits, nulls⟩ := apart _ (List.contains_iff_mem.mp refines)
      cases applied
      refine .inr ⟨not_encloses method extension, ?_⟩
      exact marks_mapNode (f := fun n => pushValidation n (refinement call)) (by simp [omits, nulls])
        fun _ => ⟨⟨rfl, rfl⟩, rfl, rfl⟩
    · cases applied

theorem extend_layer (named : call.name ∈ extending) (extended : extend lower cx s call = .ok next) :
    Encloses lower cx s call ∧ Enclosed s next ∨ ¬ Encloses lower cx s call ∧ Marks s call next := by
  unfold extend at extended
  obtain ⟨argument, first, extended⟩ := bind_ok.mp extended
  obtain ⟨added, lowered, extended⟩ := bind_ok.mp extended
  split at extended
  · rename_i objects
    cases extended
    have apart : ∀ name ∈ extending, name ∉ ["array", "or", "and"] ∧ name ∉ omitting ∧ name ∉ nulling := by decide
    obtain ⟨method, omits, nulls⟩ := apart _ named
    refine .inr ⟨?_, ?_, ?_, fun inner around => ?_⟩
    · rintro (other | ⟨_, a, extra, given, again, apart⟩)
      · exact method other
      · cases first.symm.trans given
        cases lowered.symm.trans again
        exact Bool.false_ne_true (apart.symm.trans objects)
    · simp [State.mapNode, omits]
    · simp [State.mapNode, nulls]
    · rw [around.not_object] at objects
      cases objects
  · rename_i apart
    cases extended
    refine .inl ⟨.inr ⟨named, argument, added, first, lowered, Bool.not_eq_true _ ▸ apart⟩, rfl, rfl, rfl, rfl, .inl rfl, ?_⟩
    exact .inr ⟨added, .inr rfl⟩

-- Beside the methods of every node only an extension encloses, and none marks.
theorem marks_other (other : call.name ∉ generalMethods) (around : ∀ inner, Around inner s.node → Around inner node) :
    Marks s call { s with node := node } := by
  have general : ∀ name ∈ omitting ++ nulling, name ∈ generalMethods := by decide
  refine ⟨?_, ?_, around⟩
  · have omits : call.name ∉ omitting := fun listed => other (general _ (List.mem_append_left _ listed))
    simp [omits]
  · have nulls : call.name ∉ nulling := fun listed => other (general _ (List.mem_append_right _ listed))
    simp [nulls]

theorem constrain_extending (named : call.name ∈ extending) : constrain n call = .ok none := by
  -- No table of constraints has an extension.
  have unknown : ∀ name ∈ extending, LengthBound.ofMethod? name = none ∧ Bound.ofMethod? name = none ∧
      Bound.ofSignMethod? name = none ∧ formatFor? name = none ∧ name ≠ "nonempty" ∧ name ≠ "int" ∧
      name ∉ ["startsWith", "endsWith", "includes", "regex"] := by decide
  obtain ⟨length, bound, sign, format, nonempty, int, plain⟩ := unknown _ named
  have pattern : textPattern? call = .ok none := by
    unfold textPattern?
    split
    case h_5 => rfl
    all_goals
      rename_i same
      exact absurd (by simp [same]) plain
  unfold constrain
  split
  · simp [constrainText, length, nonempty, format, pattern, bind, Except.bind, pure, Except.pure]
  · simp [constrainNumber, bound, sign, int, pure, Except.pure]
  · simp [constrainNumber, bound, sign, int, pure, Except.pure]
  · simp [constrainArray, length, nonempty, pure, Except.pure]
  · rfl

theorem applyToObject_layer (other : call.name ∉ generalMethods) (method : call.name ∉ ["array", "or", "and"])
    (applied : applyToObject lower cx s call = .ok (some next)) :
    Encloses lower cx s call ∧ Enclosed s next ∨ ¬ Encloses lower cx s call ∧ Marks s call next := by
  unfold applyToObject at applied
  split at applied
  · rename_i named
    obtain ⟨_, extended, same⟩ := bind_ok.mp applied
    cases same
    exact extend_layer (List.contains_iff_mem.mp named) extended
  · rename_i extension
    split at applied
    · rename_i object
      obtain ⟨result, _, same⟩ := bind_ok.mp applied
      obtain ⟨node, rfl, rfl⟩ := Option.map_eq_some_iff.mp (Except.ok.inj same)
      refine .inr ⟨not_encloses method fun named => extension (List.contains_iff_mem.mpr named), ?_⟩
      refine marks_other other fun inner around => ?_
      rw [around.not_object] at object
      cases object
    · cases applied

theorem applyToCollection_layer (applied : applyToCollection lower cx n call = .ok (some node)) :
    ∀ inner, ¬ Around inner n := by
  intro inner around
  simp [applyToCollection, around.unlisted, around.prefixItems, pure, Except.pure] at applied

theorem apply_layer (applied : apply lower cx s call = .ok next) :
    Encloses lower cx s call ∧ Enclosed s next ∨ ¬ Encloses lower cx s call ∧ Marks s call next := by
  unfold apply at applied
  obtain ⟨general, given, applied⟩ := bind_ok.mp applied
  cases general with
  | some result =>
    cases applied
    exact applyGeneral_layer given
  | none =>
    have other := not_general given
    have method : call.name ∉ ["array", "or", "and"] := by
      have known : ∀ name ∈ ["array", "or", "and"], name ∈ generalMethods := by decide
      exact fun listed => other (known _ listed)
    obtain ⟨constrained, given, applied⟩ := bind_ok.mp applied
    cases constrained with
    | some node =>
      cases applied
      refine .inr ⟨not_encloses method fun named => ?_, marks_other other fun _ around => around.constrain given⟩
      rw [constrain_extending named] at given
      cases given
    | none =>
      obtain ⟨object, given, applied⟩ := bind_ok.mp applied
      cases object with
      | some result =>
        cases applied
        exact applyToObject_layer other method given
      | none =>
        have extension : call.name ∉ extending := by
          intro named
          unfold applyToObject at given
          split at given
          · obtain ⟨_, _, same⟩ := bind_ok.mp given
            cases same
          · rename_i unnamed
            exact unnamed (List.contains_iff_mem.mpr named)
        obtain ⟨collection, given, applied⟩ := bind_ok.mp applied
        cases collection with
        | some node =>
          cases applied
          refine .inr ⟨not_encloses method extension, marks_other other fun inner around => ?_⟩
          exact absurd around (applyToCollection_layer given inner)
        | none => cases applied

structure State.Pending (own : List Call) (s : State) : Prop where
  optional : s.optional = own.any fun call => omitting.contains call.name
  nullable : s.nullable = own.any fun call => nulling.contains call.name

theorem Layer.marked_finish (pending : s.Pending own) : Layer.Marked ⟨s.finish, own⟩ := by
  refine ⟨?_, ?_⟩
  · simp [State.finish, pending.optional]
  · simp [State.finish, pending.nullable]

theorem Enclosed.pending (enclosed : Enclosed s next) : next.Pending [] := ⟨enclosed.optional, enclosed.nullable⟩

theorem Marks.pending (marks : Marks s call next) (pending : s.Pending own) : next.Pending (own ++ [call]) := by
  refine ⟨?_, ?_⟩
  · simp [marks.optional, pending.optional]
  · simp [marks.nullable, pending.nullable]

-- Each node bears the marks of its own calls and stands inside the next one. The last one is
-- what the run leaves.
structure Settled (layers : List Layer) (node : SchemaNode) : Prop where
  marked : ∀ l ∈ layers, l.Marked
  nested : layers.IsChain fun inner outer => Around inner.node outer.node
  last : layers.getLast?.map Layer.node = some node

theorem exists_layered (run : calls.foldlM (apply lower cx) s = .ok state) (pending : s.Pending own) :
    ∃ layers, Layered lower cx own s calls layers ∧ Settled layers state.finish ∧
      ∀ inner, Around inner s.node → ∀ first ∈ layers.head?, Around inner first.node := by
  induction calls generalizing own s with
  | nil =>
    cases run
    refine ⟨_, .done, ⟨?_, .singleton _, rfl⟩, ?_⟩
    · exact List.forall_mem_singleton.mpr (Layer.marked_finish pending)
    · rintro inner around first ⟨⟩
      exact around.congr ⟨⟨rfl, rfl⟩, rfl, rfl⟩
  | cons call calls ih =>
    rw [List.foldlM_cons] at run
    obtain ⟨next, applied, run⟩ := bind_ok.mp run
    rcases apply_layer applied with ⟨encloses, enclosed⟩ | ⟨inside, marks⟩
    · obtain ⟨layers, layered, settled, stays⟩ := ih run enclosed.pending
      refine ⟨_, .around encloses applied layered, ⟨?_, ?_, ?_⟩, ?_⟩
      · exact List.forall_mem_cons.mpr ⟨Layer.marked_finish pending, settled.marked⟩
      · exact List.isChain_cons.mpr ⟨stays _ enclosed.around, settled.nested⟩
      · cases layers with
        | nil => cases settled.last
        | cons outer layers => exact settled.last
      · rintro inner around first ⟨⟩
        exact around.congr ⟨⟨rfl, rfl⟩, rfl, rfl⟩
    · obtain ⟨layers, layered, settled, stays⟩ := ih run (marks.pending pending)
      exact ⟨layers, .within inside applied layered, settled, fun inner around => stays inner (marks.around inner around)⟩

-- What a factory makes of its arguments is not null. A function may give a node that is.

theorem build_plain (direct : base.name ≠ "lazy") (built : build lower cx base = .ok node) :
    node.metadata.nullable = false := by
  cases build_built built with
  | given named _ _ _ => exact absurd named direct
  | parts nullable _ _ => exact nullable
  | unlisted _ _ _ _ => rfl

theorem lowerRoot_pending {coerce : Bool} (direct : base.name ≠ "lazy")
    (lowered : lowerRoot lower cx (.builder base coerce) = .ok node) : (State.start node).Pending [] := by
  obtain ⟨built, building, same⟩ := bind_ok.mp lowered
  have plain := build_plain direct building
  refine ⟨rfl, ?_⟩
  cases same
  cases coerce <;> exact plain

-- Whatever is built from a factory other than `lazy`, at any level of nesting.
theorem presence_layers {levels : Nat} {site : Site} {chain : Chain} (stands : cx.bindings.chain? site = some chain)
    (factory : chain.base? = some base) (direct : base.name ≠ "lazy")
    (lowered : lowerWithin (levels + 1) cx site = .ok node) :
    ∃ start layers, lowerRoot (lowerWithin levels) cx chain.root = .ok start ∧
      Layered (lowerWithin levels) cx [] (.start start) chain.calls layers ∧ Settled layers node := by
  obtain ⟨_, found, start, last, given, rooted, run, rfl⟩ := lowerOver_ok lowered
  cases stands.symm.trans given
  obtain ⟨root, calls⟩ := chain
  cases root with
  | identifier site => cases factory
  | builder base coerce =>
    cases factory
    obtain ⟨layers, layered, settled, _⟩ := exists_layered run (lowerRoot_pending direct rooted)
    exact ⟨start, layers, rooted, layered, settled⟩

def layeredSurvey : Survey := survey {} "let A=z.int().optional().array().nullable().or(z.int()).default(1)"

theorem presence_layers_script : ∃ d ∈ layeredSurvey.declarations, ∃ chain base node,
    (layeredSurvey.context {}).bindings.chain? d.value = some chain ∧ chain.base? = some base ∧ base.name ≠ "lazy" ∧
    lowerWithin 2 (layeredSurvey.context {}) d.value = .ok node ∧
    ∃ start layers, lowerRoot (lowerWithin 1) (layeredSurvey.context {}) chain.root = .ok start ∧
      Layered (lowerWithin 1) (layeredSurvey.context {}) [] (.start start) chain.calls layers ∧ Settled layers node := by
  have runs : ∃ d ∈ layeredSurvey.declarations,
      ((layeredSurvey.context {}).bindings.chain? d.value).any
        (fun chain => chain.base?.any fun base => base.name != "lazy") = true ∧
      (lowerWithin 2 (layeredSurvey.context {}) d.value).isOk = true := by decide +kernel
  obtain ⟨d, listed, based, read⟩ := runs
  obtain ⟨chain, stands, based⟩ := (Option.any_eq_true _ _).mp based
  obtain ⟨base, factory, direct⟩ := (Option.any_eq_true _ _).mp based
  have direct : base.name ≠ "lazy" := by simpa using direct
  cases lowered : lowerWithin 2 (layeredSurvey.context {}) d.value with
  | error refusal => simp [lowered, Except.isOk, Except.toBool] at read
  | ok node =>
    exact ⟨d, listed, chain, base, node, stands, factory, direct, lowered, presence_layers stands factory direct lowered⟩

end Builder
end SchemaAtlas
