import SchemaAtlas.Proofs.ChainReading

namespace SchemaAtlas
namespace Builder

open Script

namespace Bindings

def method? (b : Bindings) (s : Site) : Option String :=
  match s.kind, s.child? .function with
  | .call, some function =>
    match function.unwrap.kind, function.unwrap.child? .object, function.unwrap.child? .property with
    | .member, some object, some property =>
      if (b.namespaceRoot? object.unwrap).isNone then some property.text else none
    | _, _, _ => none
  | _, _ => none

def callsAny (b : Bindings) (names : List String) (s : Site) : Bool := (b.method? s).any names.contains

def callCount (b : Bindings) (names : List String) (s : Site) : Nat := s.count (b.callsAny names)

end Bindings

variable {b : Bindings} {s inner outer : Site} {calls new : List Call} {call : Call} {root : Root} {chain : Chain}

def namedCount (names : List String) (calls : List Call) : Nat := calls.countP fun call => names.contains call.name

theorem namedCount_append (names : List String) (front back : List Call) :
    namedCount names (front ++ back) = namedCount names front + namedCount names back :=
  List.countP_append

-- What the calls of a chain are in the script: each is a call inside the site, and next to
-- what stands in one argument, all methods of the chain are counted.
structure Spans (b : Bindings) (s : Site) (root : Root) (new : List Call) : Prop where
  methods : ∀ call ∈ new, ∃ site ∈ s.preorder, b.method? site = some call.name
  counted : ∀ names, namedCount names new ≤ b.callCount names s
  arguments : ∀ a ∈ root.arguments ++ new.flatMap Call.arguments, a.site ∈ s.preorder ∧
    ∀ names, namedCount names new + b.callCount names a.site ≤ b.callCount names s

theorem arguments_mem_preorder (name : Site) (given : a ∈ (Call.ofTree name s).arguments) : a.site ∈ s.preorder := by
  obtain ⟨list, found, part⟩ := Bindings.arguments_ofTree given
  exact Site.mem_preorder_trans (Site.parts_mem_preorder part) (Site.child?_mem_preorder found)

theorem spans_nil (inside : ∀ a ∈ root.arguments, a.site ∈ s.preorder) : Spans b s root [] := by
  refine ⟨nofun, fun _ => Nat.zero_le _, ?_⟩
  intro a given
  rw [List.flatMap_nil, List.append_nil] at given
  refine ⟨inside a given, fun names => ?_⟩
  rw [namedCount, List.countP_nil, Nat.zero_add]
  exact Site.count_le _ (inside a given)

theorem spans_call {function object property : Site} (calls : s.kind = .call) (found : s.child? .function = some function)
    (member : function.unwrap.kind = .member) (on : function.unwrap.child? .object = some object)
    (named : function.unwrap.child? .property = some property) (schema : b.namespaceRoot? object.unwrap = none)
    (spans : Spans b object.unwrap root new) : Spans b s root (new ++ [Call.ofTree property s]) := by
  have method : b.method? s = some property.text := by
    simp [Bindings.method?, calls, found, member, on, named, schema]
  have below : object.unwrap ∈ function.preorder :=
    Site.mem_preorder_trans (Site.exposes_unwrap _).inside
      (Site.mem_preorder_trans (Site.child?_mem_preorder on) (Site.exposes_unwrap _).inside)
  have inside : object.unwrap ∈ s.preorder := Site.mem_preorder_trans below (Site.child?_mem_preorder found)
  have lower (names : List String) : b.callCount names object.unwrap ≤ b.callCount names function := Site.count_le _ below
  have last (names : List String) : namedCount names (new ++ [Call.ofTree property s]) =
      namedCount names new + if b.callsAny names s then 1 else 0 := by
    rw [namedCount_append, Bindings.callsAny, method]
    exact congrArg (namedCount names new + ·) List.countP_singleton
  have whole (names : List String) : (if b.callsAny names s then 1 else 0) + b.callCount names function ≤
      b.callCount names s := Site.count_child_le (b.callsAny names) found
  refine ⟨?_, fun names => ?_, fun a given => ?_⟩
  · intro call listed
    rcases List.mem_append.mp listed with old | own
    · obtain ⟨site, deeper, calls⟩ := spans.methods call old
      exact ⟨site, Site.mem_preorder_trans deeper inside, calls⟩
    · obtain rfl := List.mem_singleton.mp own
      exact ⟨s, Site.mem_preorder_self s, method⟩
  · have earlier := spans.counted names
    have deeper := lower names
    have all := whole names
    rw [last]
    omega
  · rw [List.flatMap_append, ← List.append_assoc] at given
    rcases List.mem_append.mp given with old | own
    · obtain ⟨deeper, beside⟩ := spans.arguments a old
      refine ⟨Site.mem_preorder_trans deeper inside, fun names => ?_⟩
      have earlier := beside names
      have deeper := lower names
      have all := whole names
      rw [last]
      omega
    · have own : a ∈ (Call.ofTree property s).arguments := by simpa using own
      obtain ⟨list, listed, part⟩ := Bindings.arguments_ofTree own
      refine ⟨arguments_mem_preorder _ own, fun names => ?_⟩
      have earlier := spans.counted names
      have object := lower names
      have argument : b.callCount names a.site ≤ b.callCount names list :=
        Site.count_le _ (Site.parts_mem_preorder part)
      have both : (if b.callsAny names s then 1 else 0) +
          (b.callCount names function + b.callCount names list) ≤ b.callCount names s :=
        Site.count_children_le (b.callsAny names) found listed nofun
      rw [last]
      omega

theorem reads_spans (reads : Bindings.Reads b calls s chain) :
    ∃ new, chain.calls = new ++ calls ∧ Spans b s chain.root new := by
  induction reads with
  | @builder _ _ _ _ _ property =>
    exact ⟨[], rfl, spans_nil fun a given => arguments_mem_preorder property given⟩
  | @factory _ _ _ function => exact ⟨[], rfl, spans_nil fun a given => arguments_mem_preorder function.unwrap given⟩
  | identifier => exact ⟨[], rfl, spans_nil nofun⟩
  | @method _ _ s _ _ property isCall called member on named schema _ ih =>
    obtain ⟨new, same, spans⟩ := ih
    refine ⟨new ++ [Call.ofTree property s], ?_, spans_call isCall called member on named schema spans⟩
    rw [same, List.append_assoc, List.singleton_append]

theorem Spans.widen (spans : Spans b inner root new) (inside : inner ∈ outer.preorder) : Spans b outer root new := by
  refine ⟨?_, fun names => ?_, fun a given => ?_⟩
  · intro call listed
    obtain ⟨site, deeper, calls⟩ := spans.methods call listed
    exact ⟨site, Site.mem_preorder_trans deeper inside, calls⟩
  · exact Nat.le_trans (spans.counted names) (Site.count_le _ inside)
  · obtain ⟨deeper, beside⟩ := spans.arguments a given
    exact ⟨Site.mem_preorder_trans deeper inside, fun names => Nat.le_trans (beside names) (Site.count_le _ inside)⟩

theorem chain?_spans (found : b.chain? s = some chain) : Spans b s chain.root chain.calls := by
  obtain ⟨new, same, spans⟩ := reads_spans (Bindings.chain?_reads found)
  rw [same, List.append_nil]
  exact spans.widen (Site.exposes_unwrap s).inside

end Builder
end SchemaAtlas
