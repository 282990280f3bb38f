import SchemaAtlas.OpenApi.Schemas
import SchemaAtlas.Proofs.JsonKeys
import SchemaAtlas.Proofs.Outcome
import SchemaAtlas.Proofs.Pointer

namespace SchemaAtlas

namespace Json

def listedTypes (names : List String) : List SchemaType :=
  firstAppearances (names.filterMap fun name => (SchemaType.ofName? name).filter (· ≠ .null))

def Alternates (value : Json) (i : Nat) : Prop :=
  ∃ names, value.get? "type" = some (ofStrings names) ∧ 1 < (listedTypes names).length ∧ i < (listedTypes names).length

-- Where the tokens of a place lead. Each is a step of a pointer, with one exception:
-- the alternative for one of several types is read from the object that lists them,
-- under the position of its type, and not from what stands at that position.
inductive Leads (source : Json) : List String → Json → Prop where
  | source : Leads source [] source
  | step {value inner : Json} : Leads source tokens value → Pointer.step? value token = some inner →
      Leads source (tokens ++ [token]) inner
  | alternative {value inner : Json} : Leads source tokens value → value.Alternates i →
      Pointer.step? value token = some inner → Leads source (tokens ++ ["type", toString i, token]) inner

-- The first way aside: up to it the tokens are those of a pointer.
def Detours (source : Json) (tokens : List String) : Prop :=
  ∃ front i token back value, tokens = front ++ "type" :: toString i :: token :: back ∧
    Pointer.find? source front = some value ∧ value.Alternates i

variable {source value inner : Json}

theorem KeysDistinct.step? (distinct : value.KeysDistinct) (found : Pointer.step? value token = some inner) :
    inner.KeysDistinct := by
  cases distinct with
  | object _ deeper => exact deeper _ (Entries.mem_of_get? found)
  | array deeper =>
    obtain ⟨i, _, held⟩ := Option.bind_eq_some_iff.mp found
    exact deeper inner (List.mem_of_getElem? held)
  | _ => cases found

theorem Leads.keysDistinct (leads : Leads source tokens value) (distinct : source.KeysDistinct) :
    value.KeysDistinct := by
  induction leads with
  | source => exact distinct
  | step _ found ih => exact ih.step? found
  | alternative _ _ found ih => exact ih.step? found

theorem Leads.append (leads : Leads source front value) (found : Pointer.find? value back = some inner) :
    Leads source (front ++ back) inner := by
  induction back generalizing front value with
  | nil =>
    cases found
    simpa using leads
  | cons token rest ih =>
    obtain ⟨next, here, later⟩ := Option.bind_eq_some_iff.mp found
    simpa using ih (leads.step here) later

theorem leads_of_find? (found : Pointer.find? source tokens = some value) : Leads source tokens value := by
  simpa using Leads.append .source found

theorem Detours.append (detours : source.Detours front) (back : List String) : source.Detours (front ++ back) := by
  obtain ⟨before, i, token, after, value, rfl, found, alternates⟩ := detours
  exact ⟨before, i, token, after ++ back, value, by simp, found, alternates⟩

theorem Leads.found_or_detours (leads : Leads source tokens value) :
    Pointer.find? source tokens = some value ∨ source.Detours tokens := by
  induction leads with
  | source => exact .inl rfl
  | step _ here ih =>
    rcases ih with found | detours
    · refine .inl ?_
      rw [Pointer.find?_append, found, Option.bind_some, Pointer.find?, here]
      rfl
    · exact .inr (detours.append _)
  | alternative _ alternates _ ih =>
    rcases ih with found | detours
    · exact .inr ⟨_, _, _, [], _, rfl, found, alternates⟩
    · exact .inr (detours.append _)

theorem length_listedTypes_le (names : List String) : (listedTypes names).length ≤ names.length := by
  unfold listedTypes
  exact Nat.le_trans (length_firstAppearances_le _) (List.length_filterMap_le _ _)

-- At the position of a type stands its name, and nothing stands below a name.
theorem Detours.find? (detours : source.Detours tokens) : Pointer.find? source tokens = none := by
  obtain ⟨front, i, token, back, value, rfl, found, names, typed, _, bound⟩ := detours
  have listed := Nat.lt_of_lt_of_le bound (length_listedTypes_le names)
  have named : Pointer.step? value "type" = some (ofStrings names) := by
    cases value with
    | object entries => exact typed
    | _ => cases typed
  have text : Pointer.step? (ofStrings names) (toString i) = some (.string names[i]) := by
    rw [ofStrings, Pointer.step?, Pointer.index?_toString, Option.bind_some, List.getElem?_map,
      List.getElem?_eq_getElem listed]
    rfl
  rw [Pointer.find?_append, found, Option.bind_some, Pointer.find?, named, Option.bind_some, Pointer.find?, text]
  rfl

theorem Leads.lookup?_none (leads : Leads source tokens value) :
    Pointer.lookup? source (Pointer.render tokens) = none ↔ source.Detours tokens := by
  rw [Pointer.lookup?_render]
  constructor
  · intro missing
    refine leads.found_or_detours.resolve_left ?_
    rw [missing]
    exact nofun
  · exact Detours.find?

end Json

namespace OpenApi

def Placed (source : Json) (path : String) : Prop :=
  ∃ tokens value, path = "#" ++ Pointer.render tokens ∧ source.Leads tokens value

inductive Reports (source : Json) (gives : α → Prop) : Except Failure α → Prop where
  | ok : gives a → Reports source gives (.ok a)
  | error {failure : Failure} : (∀ path, failure.path? = some path → Placed source path) →
      Reports source gives (.error failure)

variable {source value inner : Json} {ceiling : Nat} {p : Place} {m : Members} {failure : Failure}

namespace Reports

theorem bind {x : Except Failure α} {f : α → Except Failure β} {P : α → Prop} {Q : β → Prop}
    (reports : Reports source P x) (next : ∀ a, P a → Reports source Q (f a)) :
    Reports source Q (x >>= f) := by
  cases reports with
  | ok given => exact next _ given
  | error placed => exact .error placed

theorem mono {x : Except Failure α} {P Q : α → Prop} (reports : Reports source P x)
    (implied : ∀ a, P a → Q a) : Reports source Q x := by
  cases reports with
  | ok given => exact .ok (implied _ given)
  | error placed => exact .error placed

theorem map {x : Except Failure α} {f : α → β} {P : α → Prop} {Q : β → Prop} (reports : Reports source P x)
    (implied : ∀ a, P a → Q (f a)) : Reports source Q (x.map f) := by
  cases reports with
  | ok given => exact .ok (implied _ given)
  | error placed => exact .error placed

theorem mapM {items : List α} {f : α → Except Failure β} {Q : β → Prop}
    (each : ∀ item ∈ items, Reports source Q (f item)) :
    Reports source (fun results => ∀ result ∈ results, Q result) (items.mapM f) := by
  induction items with
  | nil =>
    refine .ok ?_
    intro result listed
    cases listed
  | cons item rest ih =>
    obtain ⟨here, later⟩ := List.forall_mem_cons.mp each
    rw [List.mapM_cons]
    refine here.bind fun one given => (ih later).bind fun all others => .ok ?_
    exact List.forall_mem_cons.mpr ⟨given, others⟩

theorem at? {read : Json → Except Failure α} {Q : α → Prop}
    (held : ∀ value, m.get? key = some value → Reports source Q (read value)) :
    Reports source (fun found => ∀ a, found = some a → Q a) (m.at? key read) := by
  unfold Members.at?
  cases found : m.get? key with
  | none =>
    refine .ok ?_
    intro a none
    cases none
  | some value =>
    refine (held value found).map ?_
    intro a given other same
    cases same
    exact given

theorem readEntries {read : String → Json → Except Failure α} {Q : α → Prop} {entries : Entries Json}
    (each : ∀ entry ∈ entries, Reports source Q (read entry.1 entry.2)) :
    Reports source (fun results => ∀ entry ∈ results, Q entry.2) (readEntries read entries) := by
  refine mapM (f := fun entry : String × Json => (read entry.1 entry.2).map (entry.1, ·)) ?_
  intro entry listed
  exact (each entry listed).map fun _ given => given

theorem also {x : Except Failure α} {P Q : α → Prop} (reports : Reports source P x)
    (follows : ∀ a, x = .ok a → Q a) : Reports source (fun a => P a ∧ Q a) x := by
  cases reports with
  | ok given => exact .ok ⟨given, follows _ rfl⟩
  | error placed => exact .error placed

theorem given {x : Except Failure α} {Q : α → Prop} (reports : Reports source Q x) (accepted : x = .ok a) :
    Q a := by
  subst accepted
  cases reports with
  | ok given => exact given

theorem placed {x : Except Failure α} {Q : α → Prop} (reports : Reports source Q x)
    (failed : x = .error failure) (carried : failure.path? = some path) : Placed source path := by
  subst failed
  cases reports with
  | error placed => exact placed path carried

end Reports

-- A place that stands at a value of the source, under the ceiling of the build, and a
-- source that holds no key twice.
structure Stands (source : Json) (ceiling : Nat) (p : Place) (value : Json) : Prop where
  root : p.root = source
  ceiling : p.maxDepth = ceiling
  distinct : source.KeysDistinct
  leads : source.Leads p.tokens value

def Offers (source : Json) (ceiling : Nat) (p : Place) (m : Members) : Prop :=
  ∀ {key inner}, m.get? key = some inner → Stands source ceiling (p.token key) inner

namespace Stands

theorem start (distinct : source.KeysDistinct) : Stands source maxDepth (Place.start source maxDepth) source :=
  ⟨rfl, rfl, distinct, .source⟩

theorem at_ (stands : Stands source ceiling p value) (found : Pointer.find? source tokens = some inner) :
    Stands source ceiling (p.at_ tokens) inner :=
  ⟨stands.root, stands.ceiling, stands.distinct, Json.leads_of_find? found⟩

theorem step (stands : Stands source ceiling p value) (found : Pointer.step? value token = some inner) :
    Stands source ceiling (p.token token) inner :=
  ⟨stands.root, stands.ceiling, stands.distinct, stands.leads.step found⟩

theorem child (stands : Stands source ceiling (p.token token) value) : Stands source ceiling (p.child token) value :=
  ⟨stands.root, stands.ceiling, stands.distinct, stands.leads⟩

theorem withRequired (stands : Stands source ceiling p value) : Stands source ceiling (p.withRequired required) value :=
  ⟨stands.root, stands.ceiling, stands.distinct, stands.leads⟩

theorem member (stands : Stands source ceiling p (.object m)) (held : m.get? key = some inner) :
    Stands source ceiling (p.token key) inner :=
  stands.step held

theorem offers (stands : Stands source ceiling p (.object m)) : Offers source ceiling p m := fun held => stands.member held

theorem alternative (stands : Stands source ceiling p (.object m)) (alternates : (Json.object m).Alternates i) :
    Offers source ceiling ((p.token "type").child (toString i)) m := by
  intro key inner held
  refine ⟨stands.root, stands.ceiling, stands.distinct, ?_⟩
  simpa [Place.child, Place.token] using stands.leads.alternative alternates held

theorem under (stands : Stands source ceiling p value) (held : value.get? key = some inner) :
    Stands source ceiling (p.token key) inner := by
  cases value with
  | object entries => exact stands.member held
  | _ => cases held

theorem entry (stands : Stands source ceiling p (.object m)) (listed : (key, inner) ∈ m) :
    Stands source ceiling (p.token key) inner := by
  have distinct := stands.leads.keysDistinct stands.distinct
  exact stands.member (Entries.get?_of_mem (Json.keysDistinct_object.mp distinct).1 listed)

theorem item {items : List Json} (stands : Stands source ceiling p (.array items)) (listed : (index, inner) ∈ numbered items) :
    Stands source ceiling (p.token index) inner := by
  obtain ⟨i, bound, same⟩ := List.mem_mapIdx.mp listed
  cases same
  refine stands.step ?_
  rw [Pointer.step?, Pointer.index?_toString, Option.bind_some, List.getElem?_eq_getElem bound]

theorem placed (stands : Stands source ceiling p value) : Placed source p.path := ⟨p.tokens, value, rfl, stands.leads⟩

theorem fails (stands : Stands source ceiling p value) {gives : α → Prop} (carried : failure.path? = some p.path) :
    Reports source gives (.error failure) := by
  refine .error ?_
  intro path same
  cases carried.symm.trans same
  exact stands.placed

theorem shape (stands : Stands source ceiling p value) {gives : α → Prop} :
    Reports source gives (.error (p.shapeError reason)) := stands.fails rfl

theorem objectOr (stands : Stands source ceiling p value) :
    Reports source (fun members => value = .object members) (p.objectOr reason value) := by
  unfold Place.objectOr
  split
  · exact .ok (Json.asObject?_some ‹_›)
  · exact stands.shape

theorem arrayOr (stands : Stands source ceiling p value) :
    Reports source (fun items => value = .array items) (p.arrayOr reason value) := by
  unfold Place.arrayOr
  cases value with
  | array items => exact .ok rfl
  | _ => exact stands.shape

theorem checkDepth (stands : Stands source ceiling p value) :
    Reports source (fun _ => p.depth ≤ ceiling) p.checkDepth := by
  unfold Place.checkDepth
  split
  · exact .ok (stands.ceiling ▸ ‹_›)
  · exact stands.fails rfl

end Stands

theorem referenceOf_reports (stands : Stands source ceiling p value) :
    Reports source (fun found => found = none → value.get? "$ref" = none) (referenceOf p value) := by
  unfold referenceOf
  split
  · exact .ok fun _ => ‹_›
  · exact .ok fun none => by cases none
  · exact stands.shape

theorem followChain_path : (followChain p first steps chain current).path? = some p.path := by
  induction steps generalizing chain current with
  | zero => rfl
  | succ steps ih =>
    unfold followChain
    split
    · rfl
    · split
      · rfl
      · split
        · exact ih
        · rfl

theorem pointer_standard (known : ∀ segment, kind ≠ .other segment) :
    (ComponentRef.mk .standard kind name).pointer = Pointer.render ["components", kind.segment, name] := by
  cases kind with
  | other segment => exact absurd rfl (known segment)
  | _ => rfl

-- A reference that resolves: it reads as one of its kind, and in this document its
-- target is there and is no reference.
structure Settles (source : Json) (kind : Section) (text : String) (r : ComponentRef) : Prop where
  reads : ComponentRef.ofText? text = some r
  fits : r.kind = kind
  found : r.origin = .standard → ∃ value,
    Pointer.find? source ["components", kind.segment, r.name] = some value ∧ value.get? "$ref" = none

theorem target?_standard (root : p.root = source) {r : ComponentRef} (here : r.isExternal = false)
    (known : ∀ segment, r.kind ≠ .other segment) :
    target? p r = Pointer.find? source ["components", r.kind.segment, r.name] := by
  obtain ⟨origin, kind, name⟩ := r
  cases origin with
  | external hash => cases here
  | standard => rw [target?, pointer_standard known, Pointer.lookup?_render, root]

theorem resolve_reports (stands : Stands source ceiling p value) (known : ∀ segment, kind ≠ .other segment) :
    Reports source
      (fun
        | .component r target => Settles source kind text r ∧ r.origin = .standard ∧
          Pointer.find? source ["components", kind.segment, r.name] = some target
        | .lifted r => Settles source kind text r)
      (resolve p text kind) := by
  unfold resolve
  refine Reports.bind (P := fun r => ComponentRef.ofText? text = some r) ?_ ?_
  · unfold classify
    split
    · exact .ok ‹_›
    · exact stands.fails rfl
  · intro r reads
    dsimp only
    split
    · exact stands.fails rfl
    · rename_i fits
      have fits : r.kind = kind := not_not.mp fits
      split
      · rename_i external
        refine .ok ⟨reads, fits, fun standard => ?_⟩
        rw [ComponentRef.isExternal, standard] at external
        cases external
      · rename_i here
        have looked := target?_standard stands.root (by simpa using here) (fits ▸ known)
        rw [fits] at looked
        have standard : r.origin = .standard := by
          unfold ComponentRef.isExternal at here
          cases same : r.origin with
          | standard => rfl
          | external hash => simp [same] at here
        split
        · exact stands.fails rfl
        · rename_i target found
          have found := looked.symm.trans found
          split
          · exact stands.fails followChain_path
          · exact .ok ⟨⟨reads, fits, fun _ => ⟨target, found, ‹_›⟩⟩, standard, found⟩

theorem resolveHere_reports (stands : Stands source ceiling p value) (known : ∀ segment, kind ≠ .other segment) :
    Reports source (fun found => Pointer.find? source ["components", kind.segment, found.1] = some found.2)
      (resolveHere p text kind) := by
  unfold resolveHere
  refine (resolve_reports stands known).bind ?_
  intro resolved given
  split
  · exact .ok given.2.2
  · exact stands.fails rfl

end OpenApi
end SchemaAtlas
