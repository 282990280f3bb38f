import SchemaAtlas.Proofs.Deferral
import SchemaAtlas.Proofs.Reanalysis
import SchemaAtlas.Proofs.RecursiveVisit

namespace SchemaAtlas

theorem pairwise_mergeSort_key (key : α → Nat) (items : List α) :
    (items.mergeSort fun a b => key a ≤ key b).Pairwise fun a b => key a ≤ key b := by
  have passes : ∀ a b c, decide (key a ≤ key b) = true → decide (key b ≤ key c) = true →
      decide (key a ≤ key c) = true := by
    intro a b c first second
    simp only [decide_eq_true_eq] at first second ⊢
    exact Nat.le_trans first second
  have total : ∀ a b, (decide (key a ≤ key b) || decide (key b ≤ key a)) = true := by
    intro a b
    simp only [Bool.or_eq_true, decide_eq_true_eq]
    exact Nat.le_total _ _
  exact (List.pairwise_mergeSort passes total items).imp of_decide_eq_true

instance symm_disjoint : Std.Symm (@List.Disjoint String) := ⟨fun _ _ => List.Disjoint.symm⟩

namespace DependencyGraph

variable {g : DependencyGraph} {groups components : List (List String)} {group c : List String}

def Precedes (g : DependencyGraph) (first second : List String) : Prop :=
  ∃ a ∈ first.head?, ∃ b ∈ second.head?, Before g.names a b

instance : Std.Irrefl g.Precedes where
  irrefl := by
    rintro first ⟨a, isFirst, b, isFirst', before⟩
    cases Option.some.inj (isFirst.symm.trans isFirst')
    exact Nat.lt_irrefl _ before.2

instance : Std.Antisymm g.Precedes where
  antisymm := by
    rintro first second ⟨a, atFirst, b, atSecond, there⟩ ⟨b', atSecond', a', atFirst', back⟩
    cases Option.some.inj (atFirst.symm.trans atFirst')
    cases Option.some.inj (atSecond.symm.trans atSecond')
    exact absurd there.2 (Nat.lt_asymm back.2)

-- The cyclic groups of a graph, in declaration order, with their members in declaration order.
structure Grouping (g : DependencyGraph) (groups : List (List String)) : Prop where
  nonempty : ∀ group ∈ groups, group ≠ []
  declared : ∀ group ∈ groups, group.Sublist g.names
  ordered : groups.Pairwise g.Precedes
  disjoint : groups.Pairwise List.Disjoint
  together : ∀ a b, (∃ group ∈ groups, a ∈ group ∧ b ∈ group) ↔ g.CommonCycle a b

theorem Grouping.mem_group (grouping : g.Grouping groups) (inside : group ∈ groups) (member : a ∈ group) :
    b ∈ group ↔ g.CommonCycle a b := by
  constructor
  · intro other
    exact (grouping.together a b).mp ⟨group, inside, member, other⟩
  · intro common
    obtain ⟨second, listed, first, other⟩ := (grouping.together a b).mpr common
    by_cases same : group = second
    · rwa [same]
    · have apart := grouping.disjoint.forall inside listed same
      exact absurd first (apart member)

theorem Grouping.subset (distinct : g.names.Nodup) (first : g.Grouping groups) (second : g.Grouping groups')
    (inside : group ∈ groups) : group ∈ groups' := by
  obtain ⟨a, member⟩ := List.exists_mem_of_ne_nil _ (first.nonempty group inside)
  have cycle : g.CommonCycle a a := (first.mem_group inside member).mp member
  obtain ⟨other, listed, member', _⟩ := (second.together a a).mpr cycle
  have same : group = other := by
    refine eq_of_mem_iff distinct (first.declared group inside) (second.declared other listed) fun b => ?_
    rw [first.mem_group inside member, second.mem_group listed member']
  rwa [same]

theorem Grouping.unique (distinct : g.names.Nodup) (first : g.Grouping groups) (second : g.Grouping groups') :
    groups = groups' :=
  first.ordered.eq_of_mem_iff second.ordered fun _ => ⟨first.subset distinct second, second.subset distinct first⟩

def bothWays (g : DependencyGraph) (a b : String) : Bool := (g.reachable a).contains b && (g.reachable b).contains a

def cyclic (g : DependencyGraph) : List String := g.names.filter fun name => (g.reachable name).contains name

theorem cyclic_sublist (g : DependencyGraph) : g.cyclic.Sublist g.names := List.filter_sublist

def groupOf (g : DependencyGraph) (name : String) : List String := g.cyclic.filter (g.bothWays name)

theorem bothWays_iff (closed : g.Closed) : g.bothWays a b = true ↔ g.CommonCycle a b := by
  unfold bothWays CommonCycle
  rw [Bool.and_eq_true, List.contains_iff_mem, List.contains_iff_mem, mem_reachable closed, mem_reachable closed]

theorem mem_cyclic (closed : g.Closed) : name ∈ g.cyclic ↔ g.OnCycle name := by
  unfold cyclic OnCycle
  rw [List.mem_filter, List.contains_iff_mem, mem_reachable closed]
  exact and_iff_right_of_imp closed.reaches

theorem mem_groupOf (closed : g.Closed) : other ∈ g.groupOf name ↔ g.CommonCycle name other := by
  unfold groupOf
  rw [List.mem_filter, mem_cyclic closed, bothWays_iff closed]
  exact and_iff_right_of_imp fun common => common.symm.onCycle

theorem groupOf_congr (closed : g.Closed) (common : g.CommonCycle a b) : g.groupOf a = g.groupOf b := by
  refine List.filter_congr fun other _ => ?_
  rw [Bool.eq_iff_iff, bothWays_iff closed, bothWays_iff closed]
  exact ⟨common.symm.trans, common.trans⟩

theorem lookup_reachable (declared : name ∈ g.names) :
    (g.names.map fun name => (name, g.reachable name)).lookup name = some (g.reachable name) := by
  let table : Entries (List String) := g.names.map fun name => (name, g.reachable name)
  have listed : name ∈ table.keys := by simpa [table, Entries.keys] using declared
  obtain ⟨found, held⟩ := Entries.exists_get? listed
  obtain ⟨other, _, same⟩ := List.mem_map.mp (Entries.mem_of_get? held)
  cases same
  exact held

theorem cycleGroups_eq (g : DependencyGraph) : g.cycleGroups = (g.cyclic.map g.groupOf).eraseDups := by
  unfold cycleGroups
  dsimp only
  have cyclic_eq : (g.names.filter fun name =>
      (((g.names.map fun name => (name, g.reachable name)).lookup name).getD []).contains name) = g.cyclic :=
    List.filter_congr fun name declared => by rw [lookup_reachable declared, Option.getD_some]
  rw [firstAppearances_eq_eraseDups, cyclic_eq]
  have declared : ∀ name ∈ g.cyclic, name ∈ g.names := fun name listed => (List.mem_filter.mp listed).1
  congr 1
  refine List.map_congr_left fun name listed => List.filter_congr fun other listed' => ?_
  rw [lookup_reachable (declared name listed), lookup_reachable (declared other listed')]
  rfl

theorem precedes_of_new (closed : g.Closed) (distinct : g.names.Nodup) (same : g.cyclic = front ++ name :: back)
    (fresh : g.groupOf name ∉ front.map g.groupOf) (earlier : other ∈ front) :
    g.Precedes (g.groupOf other) (g.groupOf name) := by
  have split (item : String) : g.groupOf item = front.filter (g.bothWays item) ++ (name :: back).filter (g.bothWays item) := by
    rw [groupOf, same, List.filter_append]
  have onCycle : ∀ item ∈ front ++ name :: back, g.bothWays item item = true := fun item listed =>
    (bothWays_iff closed).mpr ⟨(mem_cyclic closed).mp (same ▸ listed), (mem_cyclic closed).mp (same ▸ listed)⟩
  have own : (g.groupOf name).head? = some name := by
    have none_ : front.filter (g.bothWays name) = [] := by
      refine List.filter_eq_nil_iff.mpr fun item before both => fresh ?_
      rw [groupOf_congr closed ((bothWays_iff closed).mp both)]
      exact List.mem_map_of_mem before
    rw [split name, none_, List.nil_append, List.filter_cons_of_pos (onCycle name (by simp))]
    rfl
  have member : other ∈ front.filter (g.bothWays other) :=
    List.mem_filter.mpr ⟨earlier, onCycle other (List.mem_append_left _ earlier)⟩
  obtain ⟨head, rest, opens⟩ := List.exists_cons_of_ne_nil (List.ne_nil_of_mem member)
  have inside : head ∈ front := (List.mem_filter.mp (opens ▸ List.mem_cons_self : head ∈ front.filter (g.bothWays other))).1
  refine ⟨head, ?_, name, own, ?_⟩
  · rw [split other, opens]
    rfl
  · have ordered := (pairwise_before distinct).sublist (cyclic_sublist g)
    rw [same] at ordered
    exact (List.pairwise_append.mp ordered).2.2 head inside name List.mem_cons_self

theorem cycleGroups_grouping (closed : g.Closed) (distinct : g.names.Nodup) : g.Grouping g.cycleGroups := by
  have listed : ∀ group, group ∈ g.cycleGroups ↔ ∃ name, g.OnCycle name ∧ g.groupOf name = group := by
    intro group
    rw [cycleGroups_eq, List.mem_eraseDups, List.mem_map]
    simp only [mem_cyclic closed]
  refine ⟨?_, ?_, ?_, ?_, ?_⟩
  · intro group inside
    obtain ⟨name, cycle, rfl⟩ := (listed group).mp inside
    exact List.ne_nil_of_mem ((mem_groupOf closed).mpr ⟨cycle, cycle⟩)
  · intro group inside
    obtain ⟨name, _, rfl⟩ := (listed group).mp inside
    exact List.filter_sublist.trans (cyclic_sublist g)
  · rw [cycleGroups_eq]
    exact eraseDups_map_pairwise fun front name back same fresh other earlier =>
      precedes_of_new closed distinct same fresh earlier
  · have once : g.cycleGroups.Nodup := cycleGroups_eq g ▸ eraseDups_nodup _
    refine once.pairwise_of_forall_ne fun first inside second inside' differ => ?_
    obtain ⟨a, _, rfl⟩ := (listed first).mp inside
    obtain ⟨b, _, rfl⟩ := (listed second).mp inside'
    intro item shared shared'
    have common := ((mem_groupOf closed).mp shared).trans ((mem_groupOf closed).mp shared').symm
    exact differ (groupOf_congr closed common)
  · intro a b
    constructor
    · rintro ⟨group, inside, first, second⟩
      obtain ⟨name, _, rfl⟩ := (listed group).mp inside
      exact ((mem_groupOf closed).mp first).symm.trans ((mem_groupOf closed).mp second)
    · intro common
      refine ⟨g.groupOf a, (listed _).mpr ⟨a, common.onCycle, rfl⟩, ?_, (mem_groupOf closed).mpr common⟩
      exact (mem_groupOf closed).mpr ⟨common.onCycle, common.onCycle⟩

-- What a search for strongly connected components gives: every name once, in whatever
-- order, with the names it is reachable from and reaches.
structure Components (g : DependencyGraph) (components : List (List String)) : Prop where
  partition : components.flatten.Perm g.names
  together : ∀ c ∈ components, ∀ a ∈ c, ∀ b, b ∈ c ↔ g.Together a b

-- A component that is a cycle: several names, or one that depends on itself.
def closesUpon (g : DependencyGraph) (c : List String) : Bool :=
  1 < c.length || c.any fun name => (g.dependencies name).contains name

def inOrder (g : DependencyGraph) (c : List String) : List String :=
  c.mergeSort fun a b => g.names.idxOf a ≤ g.names.idxOf b

def firstPlace (g : DependencyGraph) (group : List String) : Nat :=
  (group.head?.map fun name => g.names.idxOf name + 1).getD 0

def groupsOf (g : DependencyGraph) (components : List (List String)) : List (List String) :=
  ((components.filter g.closesUpon).map g.inOrder).mergeSort fun first second => g.firstPlace first ≤ g.firstPlace second

theorem mem_groupsOf : group ∈ g.groupsOf components ↔ ∃ c ∈ components, g.closesUpon c = true ∧ g.inOrder c = group := by
  unfold groupsOf
  simp only [List.mem_mergeSort, List.mem_map, List.mem_filter, and_assoc]

theorem inOrder_perm (g : DependencyGraph) (c : List String) : (g.inOrder c).Perm c := List.mergeSort_perm _ _

theorem mem_inOrder : name ∈ g.inOrder c ↔ name ∈ c := (inOrder_perm g c).mem_iff

theorem firstPlace_eq (opens : group.head? = some name) : g.firstPlace group = g.names.idxOf name + 1 := by
  rw [firstPlace, opens]
  rfl

theorem ordered_of_firstPlace (nonempty : ∀ group ∈ groups, group ≠ [])
    (declared : ∀ group ∈ groups, ∀ name ∈ group, name ∈ g.names) (disjoint : groups.Pairwise List.Disjoint)
    (sorted : groups.Pairwise fun first second => g.firstPlace first ≤ g.firstPlace second) :
    groups.Pairwise g.Precedes := by
  refine (sorted.and disjoint).imp_of_mem fun {first second} inside inside' both => ?_
  obtain ⟨a, rest, rfl⟩ := List.exists_cons_of_ne_nil (nonempty first inside)
  obtain ⟨b, rest', rfl⟩ := List.exists_cons_of_ne_nil (nonempty second inside')
  have a_in := declared _ inside a List.mem_cons_self
  have b_in := declared _ inside' b List.mem_cons_self
  have differ : a ≠ b := fun same => both.2 List.mem_cons_self (same ▸ List.mem_cons_self)
  have apart := mt (List.idxOf_inj a_in).mp differ
  have le := both.1
  rw [firstPlace_eq rfl, firstPlace_eq rfl] at le
  exact ⟨a, rfl, b, rfl, b_in, by omega⟩

namespace Components

theorem mem_names (found : g.Components components) (listed : c ∈ components) (member : name ∈ c) : name ∈ g.names :=
  found.partition.mem_iff.mp (List.mem_flatten_of_mem listed member)

theorem nodup (found : g.Components components) (distinct : g.names.Nodup) :
    (∀ c ∈ components, c.Nodup) ∧ components.Pairwise List.Disjoint :=
  List.nodup_flatten.mp (found.partition.nodup_iff.mpr distinct)

theorem inOrder_sublist (found : g.Components components) (distinct : g.names.Nodup) (listed : c ∈ components) :
    (g.inOrder c).Sublist g.names := by
  have once : (g.inOrder c).Nodup := (inOrder_perm g c).nodup_iff.mpr ((found.nodup distinct).1 c listed)
  have sorted : (g.inOrder c).Pairwise (Before g.names) := by
    refine ((pairwise_mergeSort_key g.names.idxOf c).and once).imp_of_mem fun first second both => ?_
    have declared := found.mem_names listed (mem_inOrder.mp first)
    have differ := mt (List.idxOf_inj declared).mp both.2
    exact ⟨found.mem_names listed (mem_inOrder.mp second), Nat.lt_of_le_of_ne both.1 differ⟩
  have declared : g.inOrder c ⊆ g.names := fun name member => found.mem_names listed (mem_inOrder.mp member)
  exact List.sublist_of_subperm_of_pairwise (once.subperm declared) sorted (pairwise_before distinct)

theorem closesUpon_iff (found : g.Components components) (distinct : g.names.Nodup) (listed : c ∈ components)
    (member : name ∈ c) : g.closesUpon c = true ↔ g.OnCycle name := by
  have together := found.together c listed name member
  unfold closesUpon
  simp only [Bool.or_eq_true, decide_eq_true_eq, List.any_eq_true, List.contains_iff_mem]
  constructor
  · intro closes
    rcases closes with several | loops
    · have more : c ≠ [name] := by
        intro single
        simp [single] at several
      rcases (((found.nodup distinct).1 c listed).ne_singleton_iff name).mp more with none_ | ⟨other, inside, differs⟩
      · simp [none_] at member
      · exact (((together other).mp inside).resolve_left (Ne.symm differs)).onCycle
    · obtain ⟨other, inside, loop⟩ := loops
      rcases (together other).mp inside with same | common
      · subst same
        exact .edge loop
      · exact common.onCycle
  · intro cycle
    have through : ∀ other, g.Reaches name other → g.Reaches other name → other ≠ name → 1 < c.length := by
      intro other there back differs
      have inside := (together other).mpr (.inr ⟨there, back⟩)
      by_contra few
      obtain ⟨only, rfl⟩ := List.length_eq_one_iff.mp (Nat.le_antisymm (Nat.le_of_not_lt few) (List.length_pos_of_mem member))
      exact differs ((List.mem_singleton.mp inside).trans (List.mem_singleton.mp member).symm)
    cases cycle with
    | edge loop => exact .inr ⟨name, member, loop⟩
    | @step _ next _ edge back =>
      by_cases same : next = name
      · subst same
        exact .inr ⟨next, member, edge⟩
      · exact .inl (through next (.edge edge) back same)

theorem grouping (found : g.Components components) (closed : g.Closed) (distinct : g.names.Nodup) :
    g.Grouping (g.groupsOf components) := by
  have declared : ∀ group ∈ g.groupsOf components, group.Sublist g.names := by
    intro group inside
    obtain ⟨c, listed, _, rfl⟩ := mem_groupsOf.mp inside
    exact found.inOrder_sublist distinct listed
  have nonempty : ∀ group ∈ g.groupsOf components, group ≠ [] := by
    intro group inside none_
    obtain ⟨c, _, closes, rfl⟩ := mem_groupsOf.mp inside
    have empty : c = [] := List.perm_nil.mp (none_ ▸ (inOrder_perm g c).symm)
    simp [closesUpon, empty] at closes
  have disjoint : (g.groupsOf components).Pairwise List.Disjoint := by
    refine ((List.mergeSort_perm _ _).pairwise_iff List.Disjoint.symm).mpr (List.pairwise_map.mpr ?_)
    refine (((found.nodup distinct).2).filter _).imp fun apart name first second => ?_
    exact apart (mem_inOrder.mp first) (mem_inOrder.mp second)
  have ordered : (g.groupsOf components).Pairwise g.Precedes :=
    ordered_of_firstPlace nonempty (fun group inside name member => (declared group inside).subset member) disjoint
      (pairwise_mergeSort_key g.firstPlace _)
  refine ⟨nonempty, declared, ordered, disjoint, fun a b => ?_⟩
  constructor
  · rintro ⟨group, inside, first, second⟩
    obtain ⟨c, listed, closes, rfl⟩ := mem_groupsOf.mp inside
    have first := mem_inOrder.mp first
    rcases (found.together c listed a first b).mp (mem_inOrder.mp second) with rfl | common
    · have cycle := (found.closesUpon_iff distinct listed first).mp closes
      exact ⟨cycle, cycle⟩
    · exact common
  · intro common
    have known : a ∈ components.flatten := found.partition.mem_iff.mpr (closed.reaches common.2)
    obtain ⟨c, listed, member⟩ := List.mem_flatten.mp known
    refine ⟨g.inOrder c, mem_groupsOf.mpr ⟨c, listed, ?_, rfl⟩, mem_inOrder.mpr member, mem_inOrder.mpr ?_⟩
    · exact (found.closesUpon_iff distinct listed member).mpr common.onCycle
    · exact (found.together c listed a member b).mpr (.inr common)

end Components

theorem components_of_bothWays (closed : g.Closed) (partition : components.flatten.Perm g.names)
    (checked : ∀ c ∈ components, ∀ a ∈ c, ∀ b ∈ g.names, b ∈ c ↔ a = b ∨ g.bothWays a b = true) :
    g.Components components := by
  refine ⟨partition, fun c listed a member b => ?_⟩
  have declared : ∀ name ∈ c, name ∈ g.names := fun name inside =>
    partition.mem_iff.mp (List.mem_flatten_of_mem listed inside)
  have both : b ∈ g.names → (b ∈ c ↔ g.Together a b) := by
    intro known
    rw [checked c listed a member b known, bothWays_iff closed]
    rfl
  constructor
  · intro inside
    exact (both (declared b inside)).mp inside
  · intro together
    have known : b ∈ g.names := by
      rcases together with rfl | common
      · exact declared a member
      · exact closed.reaches common.1
    exact (both known).mpr together

end DependencyGraph

namespace Document

variable {d : Document} {g : DependencyGraph}

theorem analyze_circular (distinct : Entries.Distinct d.schemas) (graph : d.analyze.dependencyGraphOf = g) :
    d.analyze.schemaNames.Nodup ∧ g.names = d.analyze.schemaNames ∧
    (∀ source node target, (source, node) ∈ d.analyze.schemas →
      (g.Edge source target ↔ node.RefersTo target ∧ target ∈ d.analyze.schemaNames)) ∧
    d.analyze.dependencyGraph.circularReferences.Sublist d.analyze.schemaNames ∧
    (∀ name, name ∈ d.analyze.dependencyGraph.circularReferences ↔ g.OnCycle name) ∧
    (∀ name, name ∈ d.analyze.dependencyGraph.circularReferences ↔ ∃ group ∈ g.cycleGroups, name ∈ group) ∧
    g.Grouping g.cycleGroups ∧ ∀ components, g.Components components → g.groupsOf components = g.cycleGroups := by
  subst graph
  have closed := d.analyze.closed_dependencyGraphOf
  have names : d.analyze.schemaNames = d.analyze.schemas.map Prod.fst :=
    (keys_dependencyMap distinct).trans (keys_schemas_analyze d).symm
  have distinct' : Entries.Distinct d.analyze.schemas := by
    unfold Entries.Distinct Entries.keys at distinct ⊢
    rwa [keys_schemas_analyze]
  have listed : d.analyze.dependencyGraphOf.names = d.analyze.schemaNames :=
    (names_dependencyGraphOf distinct').trans names.symm
  have once : d.analyze.dependencyGraphOf.names.Nodup := by
    rw [names_dependencyGraphOf distinct']
    exact distinct'
  have grouping := DependencyGraph.cycleGroups_grouping closed once
  have circular : ∀ name, name ∈ d.analyze.dependencyGraph.circularReferences ↔
      d.analyze.dependencyGraphOf.OnCycle name := by
    intro name
    have declared := d.closed_dependencyGraphOf
    rw [dependencyGraphOf_analyze, ← DependencyGraph.cycleMembers_ne_nil declared]
    change name ∈ (d.schemas.map Prod.fst).filter _ ↔ _
    rw [List.mem_filter, decide_eq_true_eq, ← names_dependencyGraphOf distinct]
    exact and_iff_right_of_imp fun members =>
      declared.reaches ((DependencyGraph.cycleMembers_ne_nil declared).mp members)
  refine ⟨listed ▸ once, listed, ?_, ?_, circular, ?_, grouping, ?_⟩
  · intro source node target inside
    rw [names]
    exact edge_dependencyGraphOf distinct' inside
  · rw [names, keys_schemas_analyze]
    exact List.filter_sublist
  · intro name
    rw [circular]
    constructor
    · intro cycle
      obtain ⟨group, inside, member, _⟩ := (grouping.together name name).mpr ⟨cycle, cycle⟩
      exact ⟨group, inside, member⟩
    · rintro ⟨group, inside, member⟩
      exact ((grouping.mem_group inside member).mp member).1
  · intro components found
    exact (found.grouping closed once).unique once grouping

def ringLinks : Entries (Entries String) :=
  [("A", [("a", "B")]), ("B", [("a", "A")]), ("C", [("a", "C")]), ("D", [("a", "A"), ("b", "C")])]

def rings : Document := {
  sourceFormatVersion := "3.0.0"
  components := ringLinks.map fun entry => .schema entry.1 (linked entry.2) }

def ringGraph : DependencyGraph := ⟨[("A", ["B"]), ("B", ["A"]), ("C", ["C"]), ("D", ["A", "C"])]⟩

theorem dependencyGraphOf_rings : rings.analyze.dependencyGraphOf = ringGraph := by
  have schemas : rings.schemas = ringLinks.mapValues linked := rfl
  rw [dependencyGraphOf_analyze, dependencyGraphOf_linked schemas]
  rfl

theorem analyze_circular_rings : Entries.Distinct rings.schemas ∧ rings.analyze.dependencyGraphOf = ringGraph ∧
    ringGraph.Components [["D"], ["C"], ["B", "A"]] ∧ ringGraph.cycleGroups = [["A", "B"], ["C"]] ∧
    ringGraph.groupsOf [["D"], ["C"], ["B", "A"]] = [["A", "B"], ["C"]] ∧
    "C" ∈ rings.analyze.dependencyGraph.circularReferences ∧ "D" ∉ rings.analyze.dependencyGraph.circularReferences := by
  have distinct : Entries.Distinct rings.schemas := by unfold Entries.Distinct; decide
  have groups : ringGraph.cycleGroups = [["A", "B"], ["C"]] := by decide +kernel
  obtain ⟨_, _, _, _, _, circular, _, same⟩ := analyze_circular distinct dependencyGraphOf_rings
  have found : ringGraph.Components [["D"], ["C"], ["B", "A"]] :=
    DependencyGraph.components_of_bothWays (dependencyGraphOf_rings ▸ rings.analyze.closed_dependencyGraphOf)
      (by decide) (by decide +kernel)
  refine ⟨distinct, dependencyGraphOf_rings, found, groups, (same _ found).trans groups, ?_, ?_⟩
  · rw [circular, groups]
    decide
  · rw [circular, groups]
    decide

end Document
end SchemaAtlas
