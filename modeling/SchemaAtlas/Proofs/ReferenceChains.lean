import SchemaAtlas.OpenApi.Resolution
import SchemaAtlas.Proofs.Reachability

namespace SchemaAtlas

namespace Json

variable {value inner : Json}

-- The texts under `$ref` anywhere below a value are among the reference texts of the value.

theorem mem_referenceTextsOfItems {item : Json} (inside : item ∈ items) (listed : text ∈ item.referenceTexts) :
    text ∈ referenceTextsOfItems items := by
  induction items with
  | nil => cases inside
  | cons first rest ih =>
    rw [referenceTextsOfItems, List.mem_append]
    rcases List.mem_cons.mp inside with rfl | later
    · exact .inl listed
    · exact .inr (ih later)

theorem mem_referenceTextsOfEntries (inside : (key, value) ∈ entries)
    (listed : text ∈ (if key = "$ref" then value.asString?.toList else []) ++ value.referenceTexts) :
    text ∈ referenceTextsOfEntries entries := by
  induction entries with
  | nil => cases inside
  | cons first rest ih =>
    rw [referenceTextsOfEntries, List.mem_append]
    rcases List.mem_cons.mp inside with rfl | later
    · exact .inl listed
    · exact .inr (ih later)

theorem mem_referenceTexts_of_get? (linked : value.get? "$ref" = some inner) (text_ : inner.asString? = some text) :
    text ∈ value.referenceTexts := by
  cases value with
  | object entries =>
    rw [referenceTexts]
    apply mem_referenceTextsOfEntries (Entries.mem_of_get? linked)
    simp [text_]
  | _ => cases linked

theorem mem_referenceTexts_of_step? (found : Pointer.step? value token = some inner)
    (listed : text ∈ inner.referenceTexts) : text ∈ value.referenceTexts := by
  cases value with
  | object entries =>
    rw [referenceTexts]
    apply mem_referenceTextsOfEntries (Entries.mem_of_get? found)
    exact List.mem_append_right _ listed
  | array items =>
    obtain ⟨i, _, stands⟩ := Option.bind_eq_some_iff.mp found
    rw [referenceTexts]
    exact mem_referenceTextsOfItems (List.mem_of_getElem? stands) listed
  | _ => cases found

theorem mem_referenceTexts_of_find? {tokens : List String} (found : Pointer.find? value tokens = some inner)
    (listed : text ∈ inner.referenceTexts) : text ∈ value.referenceTexts := by
  induction tokens generalizing value with
  | nil =>
    cases found
    exact listed
  | cons token rest ih =>
    obtain ⟨below, stepped, later⟩ := Option.bind_eq_some_iff.mp found
    exact mem_referenceTexts_of_step? stepped (ih later)

end Json

namespace OpenApi

-- The text under `$ref` in the target of a reference of this document. There is none where the
-- reference does not read, leads elsewhere, has no target, or its target has no such text.
def linked? (p : Place) (text : String) : Option String :=
  match ComponentRef.ofText? text with
  | some ⟨.standard, kind, name⟩ =>
    (target? p ⟨.standard, kind, name⟩).bind fun target => (target.get? "$ref").bind Json.asString?
  | _ => none

def chainText (p : Place) (first : String) : Nat → Option String
  | 0 => some first
  | i + 1 => (chainText p first i).bind (linked? p)

def Revisits (p : Place) (first : String) : Prop :=
  ∃ i j, i < j ∧ chainText p first j ≠ none ∧ chainText p first i = chainText p first j

-- The loop that follows references, without a count of its steps: what it ends with, from the
-- chain so far and what stands under `$ref` in the target of its last text.
inductive Ends (p : Place) (first : String) : List String → Json → Failure → Prop where
  | noText : current.asString? = none → Ends p first chain current (.nestedReferenceNotBundled first p.path)
  | back : current.asString? = some text → text ∈ chain →
      Ends p first chain current (.circularComponentReference (chain ++ [text]) p.path)
  | lost : current.asString? = some text → text ∉ chain → next? p text = none →
      Ends p first chain current (.nestedReferenceNotBundled first p.path)
  | onward : current.asString? = some text → text ∉ chain → next? p text = some following →
      Ends p first (chain ++ [text]) following ending → Ends p first chain current ending

variable {p : Place} {first text : String} {chain : List String} {current target : Json}

theorem linked?_eq (p : Place) (text : String) : linked? p text = (next? p text).bind Json.asString? := by
  unfold linked? next?
  cases ComponentRef.ofText? text with
  | none => rfl
  | some reference =>
    obtain ⟨origin, kind, name⟩ := reference
    cases origin with
    | external hash => rfl
    | standard =>
      change _ = ((target? p ⟨.standard, kind, name⟩).bind fun target => target.get? "$ref").bind Json.asString?
      rw [Option.bind_assoc]

theorem mem_referenceTexts_of_target {reference : ComponentRef} (found : target? p reference = some target)
    (linked : target.get? "$ref" = some current) (text_ : current.asString? = some text) :
    text ∈ p.root.referenceTexts := by
  obtain ⟨tokens, _, leads⟩ := Option.bind_eq_some_iff.mp found
  exact Json.mem_referenceTexts_of_find? leads (Json.mem_referenceTexts_of_get? linked text_)

theorem next?_some (linked : next? p text = some current) :
    ∃ reference target, target? p reference = some target ∧ target.get? "$ref" = some current := by
  unfold next? at linked
  obtain ⟨reference, _, later⟩ := Option.bind_eq_some_iff.mp linked
  split at later
  · cases later
  · obtain ⟨target, found, referred⟩ := Option.bind_eq_some_iff.mp later
    exact ⟨reference, target, found, referred⟩

def unseen (p : Place) (chain : List String) : Nat := p.root.referenceTexts.countP fun text => !chain.contains text

theorem unseen_append_lt (declared : text ∈ p.root.referenceTexts) (fresh : text ∉ chain) :
    unseen p (chain ++ [text]) < unseen p chain := by
  refine Nat.lt_of_le_of_lt (countP_unvisited_le ?_) (countP_unvisited_lt declared fresh)
  intro other listed
  simpa [or_comm] using listed

theorem followChain_ends (steps : Nat) (chain : List String) (current : Json)
    (held : ∀ text, current.asString? = some text → text ∈ p.root.referenceTexts) (enough : unseen p chain < steps) :
    Ends p first chain current (followChain p first steps chain current) := by
  -- Each new text of the chain is a reference text of the source, so the steps outlast the loop.
  induction steps generalizing chain current with
  | zero => exact absurd enough (Nat.not_lt_zero _)
  | succ steps ih =>
    unfold followChain
    split
    · exact .noText ‹_›
    · rename_i text text_
      by_cases old : text ∈ chain
      · rw [if_pos (by simpa using old)]
        exact .back text_ old
      · rw [if_neg (by simpa using old)]
        split
        · rename_i following linked
          obtain ⟨_, _, found, referred⟩ := next?_some linked
          have less := unseen_append_lt (held text text_) old
          refine .onward text_ old linked (ih (chain ++ [text]) following ?_ (by omega))
          exact fun _ => mem_referenceTexts_of_target found referred
        · exact .lost text_ old ‹_›

structure Lists (p : Place) (first : String) (chain : List String) : Prop where
  texts : chain.map some = (List.range chain.length).map (chainText p first)
  distinct : chain.Nodup

theorem Lists.append (lists : Lists p first chain) (reached : chainText p first chain.length = some text)
    (fresh : text ∉ chain) : Lists p first (chain ++ [text]) := by
  refine ⟨?_, ?_⟩
  · simp [List.range_succ, lists.texts, reached]
  · rw [← List.concat_eq_append]
    exact List.Nodup.concat fresh lists.distinct

theorem Lists.text_at (lists : Lists p first chain) (i : Nat) (bound : i < chain.length) :
    chainText p first i = some chain[i] := by
  have at_ := congrArg (fun texts => texts[i]?) lists.texts
  simpa [bound] using at_.symm

theorem chainText_ends (stops : chainText p first i = none) (later : i ≤ j) : chainText p first j = none := by
  induction later with
  | refl => exact stops
  | step _ ih => rw [chainText, ih, Option.bind_none]

theorem Lists.not_revisits (lists : Lists p first chain) (stops : chainText p first chain.length = none) :
    ¬ Revisits p first := by
  intro ⟨i, j, less, given, same⟩
  have bound : j < chain.length := by
    by_contra beyond
    exact given (chainText_ends stops (Nat.le_of_not_lt beyond))
  rw [lists.text_at i (Nat.lt_trans less bound), lists.text_at j bound] at same
  have equal := (lists.distinct.getElem_inj_iff).mp (Option.some.inj same)
  omega

structure FirstReturn (p : Place) (first : String) (k : Nat) (chain : List String) : Prop where
  texts : chain.map some = (List.range (k + 1)).map (chainText p first)
  distinct : (chain.take k).Nodup
  returns : ∃ i < k, chainText p first i = chainText p first k

theorem FirstReturn.revisits (returns : FirstReturn p first k chain) : Revisits p first := by
  obtain ⟨i, less, same⟩ := returns.returns
  refine ⟨i, k, less, ?_, same⟩
  have at_ := congrArg (fun texts => texts[k]?) returns.texts
  intro none_
  simp [none_] at at_

theorem Ends.verdict (ends : Ends p first chain current ending) (lists : Lists p first chain)
    (reached : chainText p first chain.length = current.asString?) :
    (ending = .nestedReferenceNotBundled first p.path ∧ ¬ Revisits p first) ∨
      ∃ k all, ending = .circularComponentReference all p.path ∧ FirstReturn p first k all := by
  induction ends with
  | noText none_ => exact .inl ⟨rfl, lists.not_revisits (reached.trans none_)⟩
  | @back text chain _ text_ old =>
    rw [text_] at reached
    obtain ⟨i, bound, same⟩ := List.mem_iff_getElem.mp old
    refine .inr ⟨chain.length, _, rfl, ?_, ?_, i, bound, ?_⟩
    · simp [List.range_succ, lists.texts, reached]
    · simpa using lists.distinct
    · rw [lists.text_at i bound, reached, same]
  | lost text_ fresh none_ =>
    rw [text_] at reached
    refine .inl ⟨rfl, (lists.append reached fresh).not_revisits ?_⟩
    rw [List.length_append, List.length_singleton, chainText, reached, Option.bind_some, linked?_eq, none_]
    rfl
  | onward text_ fresh linked _ ih =>
    rw [text_] at reached
    apply ih (lists.append reached fresh)
    rw [List.length_append, List.length_singleton, chainText, reached, Option.bind_some, linked?_eq, linked]
    rfl

structure Points (p : Place) (kind : Section) (text : String) (reference : ComponentRef) (target : Json) : Prop where
  reads : ComponentRef.ofText? text = some reference
  fits : reference.kind = kind
  standard : reference.origin = .standard
  found : target? p reference = some target

namespace Points

variable {kind : Section} {reference : ComponentRef} {next : Json}

theorem linked?_eq (points : Points p kind text reference target) :
    linked? p text = (target.get? "$ref").bind Json.asString? := by
  obtain ⟨reads, _, standard, found⟩ := points
  obtain ⟨origin, section_, name⟩ := reference
  cases standard
  rw [linked?, reads]
  simp only [found, Option.bind_some]

theorem resolve_eq (points : Points p kind text reference target) : resolve p text kind =
    match target.get? "$ref" with
    | some next => .error (followChain p text (p.root.referenceTexts.length + 2) [text] next)
    | none => .ok (.component reference target) := by
  have here : reference.isExternal = false := by rw [ComponentRef.isExternal, points.standard]
  unfold resolve classify
  rw [points.reads]
  simp only [bind, Except.bind, points.fits, ne_eq, not_true_eq_false, if_false, here, Bool.false_eq_true, points.found]
  cases target.get? "$ref" <;> rfl

theorem resolve_plain (points : Points p kind text reference target) (plain : target.get? "$ref" = none) :
    resolve p text kind = .ok (.component reference target) := by
  rw [points.resolve_eq, plain]

theorem resolve_ends (points : Points p kind text reference target) (linked : target.get? "$ref" = some next) :
    ∃ ending, Ends p text [text] next ending ∧ resolve p text kind = .error ending := by
  have enough : unseen p [text] < p.root.referenceTexts.length + 2 :=
    Nat.lt_of_le_of_lt List.countP_le_length (by omega)
  refine ⟨_, followChain_ends _ [text] next ?_ enough, ?_⟩
  · exact fun _ => mem_referenceTexts_of_target points.found linked
  · rw [points.resolve_eq, linked]

end Points

-- How a reference of this document resolves that reads as one of its kind and has a target. The
-- loop comes to an end by itself. A target without `$ref` is the result; otherwise the sequence
-- of references decides, and the chain that is reported is the sequence up to its first return.
theorem resolve_classifies {kind : Section} {reference : ComponentRef}
    (points : Points p kind text reference target) :
    (∀ next, target.get? "$ref" = some next →
      ∃ ending, Ends p text [text] next ending ∧ resolve p text kind = .error ending) ∧
    (resolve p text kind = .ok (.component reference target) ↔ target.get? "$ref" = none) ∧
    ((∃ chain path, resolve p text kind = .error (.circularComponentReference chain path)) ↔ Revisits p text) ∧
    (resolve p text kind = .error (.nestedReferenceNotBundled text p.path) ↔
      target.get? "$ref" ≠ none ∧ ¬ Revisits p text) ∧
    ∀ chain path, resolve p text kind = .error (.circularComponentReference chain path) →
      path = p.path ∧ ∃ k, FirstReturn p text k chain := by
  have lists : Lists p text [text] := ⟨rfl, List.nodup_singleton _⟩
  have reached : chainText p text 1 = (target.get? "$ref").bind Json.asString? := points.linked?_eq
  refine ⟨fun _ => points.resolve_ends, ?_⟩
  cases linked : target.get? "$ref" with
  | none =>
    rw [linked] at reached
    have resolved := points.resolve_plain linked
    have stays : ¬ Revisits p text := lists.not_revisits reached
    simp [resolved, stays]
  | some next =>
    rw [linked] at reached
    obtain ⟨ending, ends, resolved⟩ := points.resolve_ends linked
    rcases ends.verdict lists reached with ⟨rfl, stays⟩ | ⟨k, all, rfl, returns⟩
    · simp [resolved, stays]
    · have revisits := returns.revisits
      refine ⟨by simp [resolved], ?_, by simp [resolved, revisits], ?_⟩
      · exact ⟨fun _ => revisits, fun _ => ⟨all, p.path, resolved⟩⟩
      · intro chain path reported
        cases resolved.symm.trans reported
        exact ⟨rfl, k, returns⟩

def aliasOfSelf : Json := .object [("components", .object [
  ("schemas", .object [("Tail", .object [("$ref", .string "#/components/parameters/a~b")])]),
  ("parameters", .object [("a~b", .object [("$ref", .string "#/components/parameters/a~0b")])])])]

theorem resolve_classifies_aliasOfSelf : ∃ target,
    Points (.start aliasOfSelf 8) .schemas "#/components/schemas/Tail" ⟨.standard, .schemas, "Tail"⟩ target ∧
    (List.range 4).map (chainText (.start aliasOfSelf 8) "#/components/schemas/Tail") =
      [some "#/components/schemas/Tail", some "#/components/parameters/a~b", some "#/components/parameters/a~0b",
        some "#/components/parameters/a~0b"] ∧
    Revisits (.start aliasOfSelf 8) "#/components/schemas/Tail" ∧
    ∃ chain path k, resolve (.start aliasOfSelf 8) "#/components/schemas/Tail" .schemas =
      .error (.circularComponentReference chain path) ∧
      FirstReturn (.start aliasOfSelf 8) "#/components/schemas/Tail" k chain := by
  have points : Points (.start aliasOfSelf 8) .schemas "#/components/schemas/Tail" ⟨.standard, .schemas, "Tail"⟩
      (.object [("$ref", .string "#/components/parameters/a~b")]) :=
    ⟨by decide +kernel, rfl, rfl, by rfl⟩
  have texts : (List.range 4).map (chainText (.start aliasOfSelf 8) "#/components/schemas/Tail") =
      [some "#/components/schemas/Tail", some "#/components/parameters/a~b", some "#/components/parameters/a~0b",
        some "#/components/parameters/a~0b"] := by
    decide +kernel
  have revisits : Revisits (.start aliasOfSelf 8) "#/components/schemas/Tail" := by
    have third := congrArg (fun texts => texts[2]?) texts
    have fourth := congrArg (fun texts => texts[3]?) texts
    simp only [List.getElem?_map, List.getElem?_range, Nat.reduceLT, List.getElem?_cons_succ,
      List.getElem?_cons_zero, Option.map_some, Option.some.injEq] at third fourth
    exact ⟨2, 3, by decide, by simp [fourth], third.trans fourth.symm⟩
  obtain ⟨_, _, circular, _, reported⟩ := resolve_classifies points
  obtain ⟨chain, path, resolved⟩ := circular.mpr revisits
  obtain ⟨_, k, returns⟩ := reported chain path resolved
  exact ⟨_, points, texts, revisits, chain, path, k, resolved, returns⟩

end OpenApi
end SchemaAtlas
