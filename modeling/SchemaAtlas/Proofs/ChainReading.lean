import SchemaAtlas.Builder.Chain
import SchemaAtlas.Proofs.ScriptScopes

namespace SchemaAtlas
namespace Builder

open Script

def Root.arguments : Root → List Argument
  | .builder base _ => base.arguments
  | .identifier _ => []

namespace Bindings

-- How a chain is read from the outside in. `calls` are those that stand around the site.
inductive Reads (b : Bindings) : List Call → Site → Chain → Prop where
  | builder {s function object property : Site} : s.kind = .call → s.child? .function = some function →
      function.unwrap.kind = .member → function.unwrap.child? .object = some object →
      function.unwrap.child? .property = some property → b.namespaceRoot? object.unwrap = some coerce →
      Reads b calls s { root := .builder (Call.ofTree property s) coerce, calls := calls }
  | method {s function object property : Site} : s.kind = .call → s.child? .function = some function →
      function.unwrap.kind = .member → function.unwrap.child? .object = some object →
      function.unwrap.child? .property = some property → b.namespaceRoot? object.unwrap = none →
      Reads b (Call.ofTree property s :: calls) object.unwrap chain → Reads b calls s chain
  | factory {s function : Site} : s.kind = .call → s.child? .function = some function →
      function.unwrap.kind = .identifier → b.resolve function.unwrap = some (.factory name) →
      Reads b calls s { root := .builder { Call.ofTree function.unwrap s with name := name } false, calls := calls }
  | identifier {s : Site} : s.kind = .identifier → b.resolve s = none →
      Reads b calls s { root := .identifier s, calls := calls }

variable {b : Bindings} {s : Site} {calls : List Call} {chain : Chain}

theorem reads_iff : b.chainBefore calls s = some chain ↔ Reads b calls s chain := by
  constructor
  · intro found
    fun_induction Bindings.chainBefore b calls s with
    | case2 calls s isCall function called member object property on named call coerce schema =>
      cases found
      exact .builder isCall called member on named schema
    | case3 calls s isCall function called member object property on named call schema ih =>
      exact .method isCall called member on named schema (ih found)
    | case5 calls s isCall function called identifier name bound =>
      cases found
      exact .factory isCall called identifier bound
    | case9 calls s identifier free =>
      cases found
      exact .identifier identifier (by simpa using free)
    | _ => cases found
  · intro reads
    induction reads with
    | builder isCall called member on named schema =>
      unfold Bindings.chainBefore
      grind
    | method isCall called member on named schema _ ih =>
      unfold Bindings.chainBefore
      grind
    | factory isCall called identifier bound =>
      unfold Bindings.chainBefore
      grind
    | identifier identifier free =>
      unfold Bindings.chainBefore
      grind

theorem Reads.identifier_root (reads : Reads b calls s chain) (start : chain.root = .identifier site) :
    site.kind = .identifier := by
  induction reads with
  | builder | factory => cases start
  | identifier identifier =>
    cases start
    exact identifier
  | method _ _ _ _ _ _ _ ih => exact ih start

theorem exposes_object {function object : Site} (isCall : s.kind = .call) (called : s.child? .function = some function)
    (member : function.unwrap.kind = .member) (on : function.unwrap.child? .object = some object) :
    s.Exposes object.unwrap := by
  have outer : s.Exposes function := Site.exposes_child? (by rw [isCall]; rfl) called
  have inner : function.unwrap.Exposes object := Site.exposes_child? (by rw [member]; rfl) on
  exact outer.trans ((Site.exposes_unwrap _).trans (inner.trans (Site.exposes_unwrap _)))

theorem Reads.exposes_start (reads : Reads b calls s chain) (start : chain.root = .identifier site) : s.Exposes site := by
  induction reads with
  | builder | factory => cases start
  | identifier =>
    cases start
    exact .refl _
  | method isCall called member on _ _ _ ih => exact (exposes_object isCall called member on).trans (ih start)

theorem Reads.exposes_base (reads : Reads b calls s chain) (factory : chain.root = .builder base coerce) :
    ∃ inner, s.Exposes inner ∧ Reads b [] inner { root := .builder base coerce, calls := [] } := by
  induction reads with
  | builder isCall called member on named schema =>
    cases factory
    exact ⟨_, .refl _, .builder isCall called member on named schema⟩
  | factory isCall called identifier bound =>
    cases factory
    exact ⟨_, .refl _, .factory isCall called identifier bound⟩
  | identifier => cases factory
  | method isCall called member on _ _ _ ih =>
    obtain ⟨inner, exposes, own⟩ := ih factory
    exact ⟨inner, (exposes_object isCall called member on).trans exposes, own⟩

theorem arguments_ofTree {name : Site} (given : a ∈ (Call.ofTree name s).arguments) :
    ∃ list, s.child? .arguments = some list ∧ a.site ∈ list.parts := by
  unfold Call.ofTree at given
  dsimp only at given
  split at given
  · rename_i list found
    obtain ⟨site, part, rfl⟩ := List.mem_map.mp given
    exact ⟨list, found, part⟩
  · cases given

def Passes (s argument : Site) : Prop :=
  ∃ call list, s.Exposes call ∧ call.kind = .call ∧ call.child? .arguments = some list ∧ argument ∈ list.parts

theorem passes_ofTree (name : Site) (isCall : s.kind = .call) (given : a ∈ (Call.ofTree name s).arguments) :
    Passes s a.site := by
  obtain ⟨list, found, part⟩ := arguments_ofTree given
  exact ⟨s, list, .refl _, isCall, found, part⟩

theorem Reads.passes (reads : Reads b calls s chain) : ∃ new, chain.calls = new ++ calls ∧
    ∀ a ∈ chain.root.arguments ++ new.flatMap Call.arguments, Passes s a.site := by
  induction reads with
  | @builder _ _ _ _ _ property isCall =>
    exact ⟨[], rfl, fun a given => passes_ofTree property isCall (by simpa [Root.arguments] using given)⟩
  | @factory _ _ _ function isCall =>
    exact ⟨[], rfl, fun a given => passes_ofTree function.unwrap isCall (by simpa [Root.arguments] using given)⟩
  | identifier => exact ⟨[], rfl, nofun⟩
  | @method _ _ s _ _ property isCall called member on _ _ _ ih =>
    obtain ⟨new, same, each⟩ := ih
    refine ⟨new ++ [Call.ofTree property s], by rw [same, List.append_assoc, List.singleton_append], fun a given => ?_⟩
    rw [List.flatMap_append, ← List.append_assoc] at given
    rcases List.mem_append.mp given with old | own
    · obtain ⟨call, list, exposes, passed⟩ := each a old
      exact ⟨call, list, (exposes_object isCall called member on).trans exposes, passed⟩
    · exact passes_ofTree property isCall (by simpa using own)

theorem Reads.arguments (reads : Reads b [] s { root := .builder base coerce, calls := [] }) :
    s.kind = .call ∧ ∃ name, base.arguments = (Call.ofTree name s).arguments := by
  cases reads with
  | builder isCall => exact ⟨isCall, _, rfl⟩
  | @factory _ _ _ function isCall => exact ⟨isCall, function.unwrap, rfl⟩
  | method _ _ _ _ _ _ further =>
    obtain ⟨new, same, _⟩ := further.passes
    simp at same

theorem chain?_reads (found : b.chain? s = some chain) : Reads b [] s.unwrap chain := reads_iff.mp found

end Bindings
end Builder
end SchemaAtlas
