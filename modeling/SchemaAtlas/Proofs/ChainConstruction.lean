import SchemaAtlas.Proofs.ChainReading

namespace SchemaAtlas

namespace Script
namespace Site

variable {s core : Site}

-- A site is some other one under any number of wrappers. What a wrapper stands for is
-- the first thing in it.
inductive Wraps (core : Site) : Site → Prop where
  | bare : Wraps core core
  | wrapper {s : Site} {inner : Tree} : s.kind.isWrapper = true →
      s.tree.children.find? (·.kind.isPart) = some inner → Wraps core (s.down inner) → Wraps core s

theorem wraps_unwrap (s : Site) : Wraps s.unwrap s := by
  induction s using down_induction with
  | step s ih =>
    cases wrapper : s.kind.isWrapper with
    | false =>
      rw [unwrap_of_not_wrapper wrapper]
      exact .bare
    | true =>
      cases first : s.tree.children.find? (·.kind.isPart) with
      | none =>
        rw [unwrap_step, if_pos wrapper, first]
        exact .bare
      | some inner =>
        rw [unwrap_wrapper wrapper first]
        exact .wrapper wrapper first (ih inner (List.mem_of_find?_eq_some first))

theorem Wraps.unwrap_eq (wraps : Wraps core s) (plain : core.kind.isWrapper = false) : s.unwrap = core := by
  induction wraps with
  | bare => exact unwrap_of_not_wrapper plain
  | wrapper wrapper first _ ih => rw [unwrap_wrapper wrapper first, ih]

end Site
end Script

namespace Builder

open Script

structure Applies (s name : Site) (call : Call) : Prop where
  named : call.name = name.text
  located : call.location = name.location
  passed : call.arguments = ((s.child? .arguments).elim [] Site.parts).map fun argument =>
    { site := argument, value := argument.tree.literal? }

theorem applies_iff {s name : Site} : Applies s name call ↔ call = Call.ofTree name s := by
  have arguments : (Call.ofTree name s).arguments = ((s.child? .arguments).elim [] Site.parts).map fun argument =>
      { site := argument, value := argument.tree.literal? } := by
    unfold Call.ofTree
    cases s.child? .arguments <;> rfl
  constructor
  · rintro ⟨named, located, passed⟩
    rw [← arguments] at passed
    exact congr (congr (congrArg Call.mk named) passed) located
  · rintro rfl
    exact ⟨rfl, rfl, arguments⟩

def CallsMember (s object property : Site) : Prop :=
  ∃ function member : Site, s.kind = .call ∧ s.child? .function = some function ∧ member.Wraps function ∧
    member.kind = .member ∧ member.child? .object = some object ∧ member.child? .property = some property

namespace Bindings

def StandsForBuilder (b : Bindings) (s : Site) : Prop :=
  ∃ name : Site, name.Wraps s ∧ name.kind = .identifier ∧ b.resolve name = some .namespace

def StandsForCoerce (b : Bindings) (s : Site) : Prop :=
  ∃ member object property : Site, member.Wraps s ∧ member.kind = .member ∧ member.child? .object = some object ∧
    member.child? .property = some property ∧ property.text = "coerce" ∧ b.StandsForBuilder object

-- How an expression is put together from the inside out: from a call of a factory, or from
-- a name that is not the builder's, by calls of methods, with wrappers around any of them.
inductive Composes (b : Bindings) : Site → Root → List Call → Prop where
  | factory {s object property : Site} : CallsMember s object property → b.StandsForBuilder object →
      Applies s property call → Composes b s (.builder call false) []
  | coerced {s object property : Site} : CallsMember s object property → b.StandsForCoerce object →
      Applies s property call → Composes b s (.builder call true) []
  | imported {s function name : Site} : s.kind = .call → s.child? .function = some function → name.Wraps function →
      name.kind = .identifier → b.resolve name = some (.factory factory) → Applies s name call →
      Composes b s (.builder { call with name := factory } false) []
  | identifier {s : Site} : s.kind = .identifier → b.resolve s = none → Composes b s (.identifier s) []
  | method {s object property : Site} : Composes b object root calls → CallsMember s object property →
      Applies s property call → Composes b s root (calls ++ [call])
  | wrapper {s : Site} {inner : Tree} : Composes b (s.down inner) root calls → s.kind.isWrapper = true →
      s.tree.children.find? (·.kind.isPart) = some inner → Composes b s root calls

variable {b : Bindings} {s core object property : Site} {root : Root} {calls after : List Call}

theorem standsForBuilder_iff : b.StandsForBuilder s ↔ b.isNamespace s.unwrap = true := by
  constructor
  · rintro ⟨name, wraps, identifier, bound⟩
    rw [wraps.unwrap_eq (by rw [identifier]; rfl)]
    simp [isNamespace, identifier, bound]
  · intro namespace_
    simp only [isNamespace, Bool.and_eq_true, beq_iff_eq] at namespace_
    exact ⟨s.unwrap, s.wraps_unwrap, namespace_⟩

theorem namespaceRoot?_false : b.namespaceRoot? s.unwrap = some false ↔ b.StandsForBuilder s := by
  rw [standsForBuilder_iff, namespaceRoot?]
  grind

theorem namespaceRoot?_true : b.namespaceRoot? s.unwrap = some true ↔ b.StandsForCoerce s := by
  constructor
  · intro coerced
    unfold namespaceRoot? at coerced
    split at coerced
    · cases coerced
    · split at coerced
      · rename_i member
        split at coerced
        · rename_i property object named on
          rw [Option.ite_none_right_eq_some, Bool.and_eq_true, beq_iff_eq] at coerced
          exact ⟨s.unwrap, object, property, s.wraps_unwrap, by simpa using member, on, named, coerced.1.1,
            standsForBuilder_iff.mpr coerced.1.2⟩
        · cases coerced
      · cases coerced
  · rintro ⟨member, object, property, wraps, isMember, on, named, word, builder⟩
    have other : b.isNamespace member = false := by simp [isNamespace, isMember]
    rw [wraps.unwrap_eq (by rw [isMember]; rfl)]
    simp [namespaceRoot?, other, isMember, on, named, word, standsForBuilder_iff.mp builder]

theorem callsMember_iff : CallsMember s object property ↔ s.kind = .call ∧ ∃ function, s.child? .function = some function ∧
    function.unwrap.kind = .member ∧ function.unwrap.child? .object = some object ∧
    function.unwrap.child? .property = some property := by
  constructor
  · rintro ⟨function, member, isCall, called, wraps, isMember, rest⟩
    have same := wraps.unwrap_eq (by rw [isMember]; rfl)
    rw [← same] at isMember rest
    exact ⟨isCall, function, called, isMember, rest⟩
  · rintro ⟨isCall, function, called, rest⟩
    exact ⟨function, function.unwrap, isCall, called, function.wraps_unwrap, rest⟩

theorem Composes.around (composes : Composes b core root calls) (wraps : core.Wraps s) : Composes b s root calls := by
  induction wraps with
  | bare => exact composes
  | wrapper wrapper first _ ih => exact .wrapper ih wrapper first

theorem Reads.composes (reads : Reads b after s chain) :
    ∃ calls, chain.calls = calls ++ after ∧ Composes b s chain.root calls := by
  induction reads with
  | @builder coerce _ _ _ _ _ isCall called member on named schema =>
    have calls := callsMember_iff.mpr ⟨isCall, _, called, member, on, named⟩
    refine ⟨[], rfl, ?_⟩
    cases coerce with
    | false => exact .factory calls (namespaceRoot?_false.mp schema) (applies_iff.mpr rfl)
    | true => exact .coerced calls (namespaceRoot?_true.mp schema) (applies_iff.mpr rfl)
  | factory isCall called identifier bound =>
    exact ⟨[], rfl, .imported isCall called (Site.wraps_unwrap _) identifier bound (applies_iff.mpr rfl)⟩
  | identifier identifier free => exact ⟨[], rfl, .identifier identifier free⟩
  | method isCall called member on named _ _ ih =>
    obtain ⟨inner, same, composes⟩ := ih
    refine ⟨inner ++ [Call.ofTree _ _], by rw [same, List.append_assoc, List.singleton_append], ?_⟩
    exact .method (composes.around (Site.wraps_unwrap _)) (callsMember_iff.mpr ⟨isCall, _, called, member, on, named⟩)
      (applies_iff.mpr rfl)

theorem Reads.namespaceRoot?_eq (reads : Reads b after s chain) : b.namespaceRoot? s = none := by
  have plain : s.kind = .call ∨ s.kind = .identifier ∧ b.resolve s = none := by
    cases reads with
    | builder isCall | factory isCall | method isCall => exact .inl isCall
    | identifier identifier free => exact .inr ⟨identifier, free⟩
  rcases plain with isCall | ⟨identifier, free⟩
  · simp [namespaceRoot?, isNamespace, isCall]
  · simp [namespaceRoot?, isNamespace, identifier, free]

theorem Composes.reads (composes : Composes b s root calls) (after : List Call) :
    Reads b after s.unwrap { root := root, calls := calls ++ after } := by
  induction composes generalizing after with
  | factory member builder applies =>
    obtain ⟨isCall, function, called, rest⟩ := callsMember_iff.mp member
    rw [applies_iff.mp applies, Site.unwrap_of_not_wrapper (by rw [isCall]; rfl)]
    exact .builder isCall called rest.1 rest.2.1 rest.2.2 (namespaceRoot?_false.mpr builder)
  | coerced member coerced applies =>
    obtain ⟨isCall, function, called, rest⟩ := callsMember_iff.mp member
    rw [applies_iff.mp applies, Site.unwrap_of_not_wrapper (by rw [isCall]; rfl)]
    exact .builder isCall called rest.1 rest.2.1 rest.2.2 (namespaceRoot?_true.mpr coerced)
  | imported isCall called wraps identifier bound applies =>
    have same := wraps.unwrap_eq (by rw [identifier]; rfl)
    rw [← same] at identifier bound applies
    rw [applies_iff.mp applies, Site.unwrap_of_not_wrapper (by rw [isCall]; rfl)]
    exact .factory isCall called identifier bound
  | identifier identifier free =>
    rw [Site.unwrap_of_not_wrapper (by rw [identifier]; rfl)]
    exact .identifier identifier free
  | @method _ _ _ s _ property _ member applies ih =>
    obtain ⟨isCall, function, called, rest⟩ := callsMember_iff.mp member
    have deeper := ih (Call.ofTree property s :: after)
    rw [applies_iff.mp applies, Site.unwrap_of_not_wrapper (by rw [isCall]; rfl), List.append_assoc,
      List.singleton_append]
    exact .method isCall called rest.1 rest.2.1 rest.2.2 deeper.namespaceRoot?_eq deeper
  | wrapper _ wrapper first ih =>
    rw [Site.unwrap_wrapper wrapper first]
    exact ih after

-- A chain is read exactly from what is put together as one, with the same root and the
-- calls in the order of their application. A name of the builder alone gives none.
theorem chain_of_construction (b : Bindings) (s : Site) :
    (∀ root calls, b.chain? s = some { root := root, calls := calls } ↔ Composes b s root calls) ∧
      (b.chain? s = none ↔ ¬ ∃ root calls, Composes b s root calls) ∧
      ¬ ∃ name : Site, name.Wraps s ∧ name.kind = .identifier ∧ (b.resolve name).isSome ∧ (b.chain? s).isSome := by
  have read : ∀ root calls, b.chain? s = some { root := root, calls := calls } ↔ Composes b s root calls := by
    intro root calls
    constructor
    · intro found
      obtain ⟨_, same, composes⟩ := (chain?_reads found).composes
      cases same
      simpa using composes.around s.wraps_unwrap
    · intro composes
      rw [chain?, reads_iff]
      simpa using composes.reads []
  refine ⟨read, ?_, ?_⟩
  · constructor
    · rintro none_ ⟨root, calls, composes⟩
      cases none_.symm.trans ((read root calls).mpr composes)
    · intro none_
      cases found : b.chain? s with
      | none => rfl
      | some chain => exact absurd ⟨chain.root, chain.calls, (read _ _).mp found⟩ none_
  · rintro ⟨name, wraps, identifier, bound, found⟩
    rw [chain?, wraps.unwrap_eq (by rw [identifier]; rfl), chainBefore] at found
    simp [identifier, bound] at found

end Bindings
end Builder
end SchemaAtlas
