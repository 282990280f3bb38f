import SchemaAtlas.Proofs.Build
import SchemaAtlas.Proofs.FirstAppearances
import SchemaAtlas.Proofs.PlacedOperations

namespace SchemaAtlas

def Parameter.key (p : Parameter) : String × ParameterLocation := (p.name, p.location)

theorem Parameter.key_eq_iff {p other : Parameter} :
    p.key = other.key ↔ p.name = other.name ∧ p.location = other.location := by
  simp [key]

def RepeatedIn (parameters : List Parameter) (p : Parameter) : Prop :=
  ∃ front back, parameters = front ++ p :: back ∧ p.key ∈ front.map Parameter.key

def ParameterGroups.at_ (groups : ParameterGroups) : ParameterLocation → List Parameter
  | .path => groups.path
  | .query => groups.query
  | .header => groups.header
  | .cookie => groups.cookie

variable {parameters shared own : List Parameter} {p other new : Parameter}

theorem RepeatedIn.cons (repeated : RepeatedIn parameters p) : RepeatedIn (other :: parameters) p := by
  obtain ⟨front, back, rfl, before⟩ := repeated
  exact ⟨other :: front, back, rfl, List.mem_cons_of_mem _ before⟩

theorem repeatedIn_cons (listed : p ∈ parameters) (same : p.key = other.key) : RepeatedIn (other :: parameters) p := by
  obtain ⟨front, back, rfl⟩ := List.append_of_mem listed
  exact ⟨other :: front, back, rfl, same ▸ List.mem_cons_self⟩

theorem RepeatedIn.of_cons (repeated : RepeatedIn (other :: parameters) p) :
    p ∈ parameters ∧ p.key = other.key ∨ RepeatedIn parameters p := by
  obtain ⟨front, back, split, before⟩ := repeated
  cases front with
  | nil => cases before
  | cons first front =>
    obtain ⟨rfl, rfl⟩ := List.cons.inj split
    rcases List.mem_cons.mp before with same | later
    · exact .inl ⟨List.mem_append_right _ List.mem_cons_self, same⟩
    · exact .inr ⟨front, back, rfl, later⟩

theorem nodup_of_not_repeatedIn (once : ∀ p, ¬ RepeatedIn parameters p) : (parameters.map Parameter.key).Nodup := by
  induction parameters with
  | nil => exact List.nodup_nil
  | cons first rest ih =>
    refine List.nodup_cons.mpr ⟨fun listed => ?_, ih fun p repeated => once p repeated.cons⟩
    obtain ⟨p, inside, same⟩ := List.mem_map.mp listed
    exact once p (repeatedIn_cons inside same)

theorem not_repeatedIn_of_nodup (once : (parameters.map Parameter.key).Nodup) : ¬ RepeatedIn parameters p := by
  rintro ⟨front, back, rfl, before⟩
  rw [List.map_append, List.map_cons] at once
  exact (List.nodup_append.mp once).2.2 _ before _ List.mem_cons_self rfl

theorem first_or_repeatedIn (listed : p ∈ parameters) :
    parameters.find? (·.key == p.key) = some p ∨ RepeatedIn parameters p := by
  induction parameters with
  | nil => cases listed
  | cons first rest ih =>
    rcases List.mem_cons.mp listed with rfl | later
    · exact .inl (by simp)
    · by_cases same : p.key = first.key
      · exact .inr (repeatedIn_cons later same)
      · rw [List.find?_cons_of_neg (by simpa using Ne.symm same)]
        exact (ih later).imp_right RepeatedIn.cons

namespace OpenApi

theorem mergeParameter_same (same : other.key = new.key) :
    mergeParameter (other :: parameters) new = new :: parameters :=
  if_pos (Parameter.key_eq_iff.mp same)

theorem mergeParameter_other (differs : other.key ≠ new.key) :
    mergeParameter (other :: parameters) new = other :: mergeParameter parameters new :=
  if_neg (mt Parameter.key_eq_iff.mpr differs)

theorem map_key_mergeParameter (parameters : List Parameter) (new : Parameter) :
    (mergeParameter parameters new).map Parameter.key = appendNew (parameters.map Parameter.key) new.key := by
  induction parameters with
  | nil => rfl
  | cons first rest ih =>
    by_cases same : first.key = new.key
    · simp [mergeParameter_same same, same, appendNew]
    · rw [mergeParameter_other same, List.map_cons, ih]
      unfold appendNew
      by_cases listed : new.key ∈ rest.map Parameter.key
      · simp [listed]
      · simp [listed, Ne.symm same]

theorem find?_mergeParameter (parameters : List Parameter) (new : Parameter) (key : String × ParameterLocation) :
    (mergeParameter parameters new).find? (·.key == key) =
      if new.key = key then some new else parameters.find? (·.key == key) := by
  induction parameters with
  | nil => by_cases sought : new.key = key <;> simp [mergeParameter, sought]
  | cons first rest ih =>
    by_cases same : first.key = new.key
    · rw [mergeParameter_same same]
      by_cases sought : new.key = key
      · simp [sought]
      · have passed : first.key ≠ key := same ▸ sought
        simp [beq_eq_false_iff_ne.mpr sought, beq_eq_false_iff_ne.mpr passed, sought]
    · rw [mergeParameter_other same, List.find?_cons, List.find?_cons, ih]
      by_cases sought : new.key = key
      · have passed : first.key ≠ key := sought ▸ same
        simp [sought, beq_eq_false_iff_ne.mpr passed]
      · simp [sought]

theorem repeatedIn_of_merge (repeated : RepeatedIn (mergeParameter parameters new) p) : RepeatedIn parameters p := by
  induction parameters with
  | nil => exact absurd repeated (not_repeatedIn_of_nodup (List.nodup_singleton _))
  | cons first rest ih =>
    by_cases same : first.key = new.key
    · rw [mergeParameter_same same] at repeated
      rcases repeated.of_cons with ⟨listed, again⟩ | later
      · exact repeatedIn_cons listed (again.trans same.symm)
      · exact later.cons
    · rw [mergeParameter_other same] at repeated
      rcases repeated.of_cons with ⟨listed, again⟩ | later
      · rcases mem_mergeParameter listed with old | rfl
        · exact repeatedIn_cons old again
        · exact absurd again.symm same
      · exact (ih later).cons

theorem map_key_merged (own shared : List Parameter) : (own.foldl mergeParameter shared).map Parameter.key =
    (own.map Parameter.key).foldl appendNew (shared.map Parameter.key) := by
  induction own generalizing shared with
  | nil => rfl
  | cons first rest ih => rw [List.foldl_cons, ih, map_key_mergeParameter, List.map_cons, List.foldl_cons]

theorem find?_merged (own shared : List Parameter) (key : String × ParameterLocation) :
    (own.foldl mergeParameter shared).find? (·.key == key) =
      (own.reverse.find? (·.key == key)).or (shared.find? (·.key == key)) := by
  induction own generalizing shared with
  | nil => rfl
  | cons first rest ih =>
    rw [List.foldl_cons, ih, find?_mergeParameter, List.reverse_cons, List.find?_append, Option.or_assoc]
    by_cases sought : first.key = key <;> simp [sought]

theorem repeatedIn_of_merged (repeated : RepeatedIn (own.foldl mergeParameter shared) p) : RepeatedIn shared p := by
  induction own generalizing shared with
  | nil => exact repeated
  | cons first rest ih => exact repeatedIn_of_merge (ih repeated)

theorem mem_own_or_repeatedIn (listed : p ∈ own.foldl mergeParameter shared) (stated : p.key ∈ own.map Parameter.key) :
    p ∈ own ∨ RepeatedIn shared p := by
  rcases first_or_repeatedIn listed with first | repeated
  · left
    obtain ⟨last, inside, same⟩ := List.mem_map.mp stated
    rw [find?_merged] at first
    cases found : own.reverse.find? (·.key == p.key) with
    | none => exact absurd same (by simpa using List.find?_eq_none.mp found last (List.mem_reverse.mpr inside))
    | some own_ =>
      rw [found, Option.some_or] at first
      cases first
      exact List.mem_reverse.mp (List.mem_of_find?_eq_some found)
  · exact .inr (repeatedIn_of_merged repeated)

-- The parameters in effect for an operation, from those of its path and its own: the names
-- and locations in the order in which they first come up; for each of them, as the first
-- one, the last that the operation states, or else the first of the path; none of the path
-- beside one of the operation, and none twice, unless the path states it twice; and the same
-- list once more, by location.
structure Effective (shared own : List Parameter) (o : Operation) : Prop where
  keys : o.parameters.map Parameter.key = (own.map Parameter.key).foldl appendNew (shared.map Parameter.key)
  chosen : ∀ key, o.parameters.find? (·.key == key) = (own.reverse.find? (·.key == key)).or (shared.find? (·.key == key))
  replaced : ∀ p ∈ o.parameters, p.key ∈ own.map Parameter.key → p ∈ own ∨ RepeatedIn shared p
  repeated : ∀ p, RepeatedIn o.parameters p → RepeatedIn shared p
  unique : (∀ p, ¬ RepeatedIn shared p) → (o.parameters.map Parameter.key).Nodup
  grouped : ∀ location, o.parameterGroups.at_ location = o.parameters.filter fun p => p.location == location

inductive Declares (start : Place) (o : Operation) : List Parameter → List Parameter → Prop where
  | operation {paths : Entries Json} {item members : Members} {key : String} {shared own : Option (List Parameter)}
      (held : start.root.get? "paths" = some (.object paths)) (path : (o.path, .object item) ∈ paths)
      (listed : (key, .object members) ∈ item) (method : HttpMethod.ofName? key = some o.method)
      (ofPath : item.at? "parameters" (readParameterList ((start.at_ ["paths", o.path]).token "parameters")) = .ok shared)
      (ofOwn : members.at? "parameters"
        (readParameterList (((start.at_ ["paths", o.path]).token key).token "parameters")) = .ok own) :
      Declares start o (shared.getD []) (own.getD [])

theorem objectOr_ok {value : Json} {place : Place} (accepted : place.objectOr reason value = .ok m) : value = .object m := by
  unfold Place.objectOr at accepted
  split at accepted
  · cases accepted
    exact Json.asObject?_some ‹_›
  · cases accepted

variable {place start : Place} {o : Operation} {value : Json} {operations : List Operation}

theorem readOperation_effective {shared : Shared} (accepted : readOperation shared place method value = .ok o) :
    ∃ members own, value = .object members ∧ o.path = shared.path ∧ o.method = method ∧
      Members.at? members "parameters" (readParameterList (place.token "parameters")) = .ok own ∧
      Effective shared.parameters (own.getD []) o := by
  obtain ⟨members, object, accepted⟩ := bind_ok.mp accepted
  obtain ⟨own, inOwn, accepted⟩ := bind_ok.mp accepted
  obtain ⟨body, _, accepted⟩ := bind_ok.mp accepted
  obtain ⟨responses, _, accepted⟩ := bind_ok.mp accepted
  obtain ⟨security, _, accepted⟩ := bind_ok.mp accepted
  cases accepted
  refine ⟨members, own, objectOr_ok object, rfl, rfl, inOwn, map_key_merged _ _, find?_merged _ _,
    fun _ => mem_own_or_repeatedIn, fun _ => repeatedIn_of_merged,
    fun once => nodup_of_not_repeatedIn fun p repeated => once p (repeatedIn_of_merged repeated), ?_⟩
  intro location
  cases location <;> rfl

theorem readPathItem_effective (accepted : readPathItem place security path value = .ok operations) :
    ∃ item ofPath, value = .object item ∧
      Members.at? item "parameters" (readParameterList (place.token "parameters")) = .ok ofPath ∧
      ∀ o ∈ operations, o.path = path ∧ ∃ key members own, (key, .object members) ∈ item ∧
        HttpMethod.ofName? key = some o.method ∧
        Members.at? members "parameters" (readParameterList ((place.token key).token "parameters")) = .ok own ∧
        Effective (ofPath.getD []) (own.getD []) o := by
  obtain ⟨item, object, accepted⟩ := bind_ok.mp accepted
  dsimp only at accepted
  split at accepted
  · cases accepted
  · obtain ⟨ofPath, inPath, accepted⟩ := bind_ok.mp accepted
    refine ⟨item, ofPath, objectOr_ok object, inPath, ?_⟩
    intro o listed
    obtain ⟨_, methodListed, one⟩ := mapM_mem accepted listed
    obtain ⟨⟨key, inner⟩, keyListed, named⟩ := List.mem_filterMap.mp methodListed
    obtain ⟨method, known, same⟩ := Option.map_eq_some_iff.mp named
    cases same
    obtain ⟨members, own, rfl, samePath, rfl, inOwn, effective⟩ := readOperation_effective one
    exact ⟨samePath, key, members, own, keyListed, known, inOwn, effective⟩

theorem readPaths_effective (accepted : readPaths start security = .ok operations) :
    ∀ o ∈ operations, ∃ shared own, Declares start o shared own ∧ Effective shared own o := by
  intro o listed
  unfold readPaths at accepted
  split at accepted
  · cases accepted
    cases listed
  · rename_i whole held
    split at accepted
    · rename_i paths object
      cases Json.asObject?_some object
      obtain ⟨groups, inGroups, accepted⟩ := bind_ok.mp accepted
      cases accepted
      obtain ⟨group, inside, member⟩ := List.mem_flatten.mp listed
      obtain ⟨⟨path, value⟩, pathListed, one⟩ := mapM_mem inGroups inside
      obtain ⟨item, ofPath, rfl, inPath, all⟩ := readPathItem_effective one
      obtain ⟨samePath, key, members, own, keyListed, known, inOwn, effective⟩ := all o member
      subst samePath
      exact ⟨_, _, .operation held pathListed keyListed known inPath inOwn, effective⟩
    · cases accepted

-- What holds of the parameters of every operation of a document, whatever its source says.
theorem build_parameters (built : build maxDepth source = .ok d) :
    ∀ o ∈ d.operations, ∃ shared own, Declares (Place.start source maxDepth) o shared own ∧ Effective shared own o := by
  obtain ⟨document, _, ⟨security, inOperations⟩, rfl⟩ := build_parts built
  exact readPaths_effective inOperations

-- A path that states one parameter twice, once through a component, and an operation that
-- states it as well.
def repeatingDescription : Json := .object [
  ("openapi", .string "3.1.0"),
  ("paths", .object [("/pets", .object [
    ("parameters", .array [
      .object [("name", .string "limit"), ("in", .string "query"), ("description", .string "of the path")],
      .object [("$ref", .string "#/components/parameters/Limit")],
      .object [("name", .string "limit"), ("in", .string "header")]]),
    ("get", .object [("parameters", .array [
      .object [("name", .string "limit"), ("in", .string "query"), ("description", .string "of the operation")]])])])]),
  ("components", .object [("parameters", .object [("Limit", .object [
    ("name", .string "limit"), ("in", .string "query"), ("description", .string "of the component")])])])]

def parameterTexts (d : Document) : List (List ((String × ParameterLocation) × Option String)) :=
  d.operations.map fun o => o.parameters.map fun p => (p.key, p.description)

theorem exists_repeating : ∃ d, build 4 repeatingDescription = .ok d ∧ ∃ o ∈ d.operations, ∃ first second rest,
    o.parameters = first :: second :: rest ∧
    (first.key = ("limit", .query) ∧ first.description = some "of the operation") ∧
    second.key = ("limit", .query) ∧ second.description = some "of the component" := by
  have texts : (build 4 repeatingDescription).toOption.map parameterTexts =
      some [[(("limit", .query), some "of the operation"), (("limit", .query), some "of the component"),
        (("limit", .header), none)]] := by decide +kernel
  cases built : build 4 repeatingDescription with
  | error failure => simp [built, Except.toOption] at texts
  | ok d =>
    rw [built] at texts
    obtain ⟨o, _, operations, same, _⟩ := List.map_eq_cons_iff.mp (Option.some.inj texts)
    obtain ⟨first, later, parameters, one, same⟩ := List.map_eq_cons_iff.mp same
    obtain ⟨second, rest, others, two, _⟩ := List.map_eq_cons_iff.mp same
    subst others
    exact ⟨d, rfl, o, operations ▸ List.mem_cons_self, first, second, rest, parameters, Prod.mk.inj one, Prod.mk.inj two⟩

theorem build_parameters_repeating : ∃ d, build 4 repeatingDescription = .ok d ∧ ∃ o ∈ d.operations,
    ∃ shared own, Declares (Place.start repeatingDescription 4) o shared own ∧ Effective shared own o ∧
      ∃ p, RepeatedIn shared p ∧ p.description = some "of the component" := by
  obtain ⟨d, built, o, listed, first, second, rest, parameters, one, two⟩ := exists_repeating
  obtain ⟨shared, own, declares, effective⟩ := build_parameters built o listed
  refine ⟨d, built, o, listed, shared, own, declares, effective, second, ?_, two.2⟩
  exact effective.repeated second ⟨[first], rest, parameters, by simp [one.1, two.1]⟩

-- One of the two that the path states stays beside the one of the operation.
theorem build_parameters_beside : ∃ d, build 4 repeatingDescription = .ok d ∧ ∃ o ∈ d.operations,
    ¬ (o.parameters.map Parameter.key).Nodup ∧
    (∃ p ∈ o.parameters, p.key = ("limit", .query) ∧ p.description = some "of the operation") ∧
    ∃ p ∈ o.parameters, p.key = ("limit", .query) ∧ p.description = some "of the component" := by
  obtain ⟨d, built, o, listed, first, second, rest, parameters, one, two⟩ := exists_repeating
  refine ⟨d, built, o, listed, ?_, ⟨first, by simp [parameters], one⟩, second, by simp [parameters], two⟩
  simp [parameters, one.1, two.1]

end OpenApi
end SchemaAtlas
