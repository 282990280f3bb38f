import Mathlib.Data.List.Nodup
import Mathlib.Data.Prod.Lex
import SchemaAtlas.Proofs.ScriptSites

namespace SchemaAtlas

namespace Location

instance : Preorder Location := Preorder.lift fun l => toLex (l.line, l.column)

theorem lt_after (l : Location) (c : Char) : l < l.after c := by
  change toLex (l.line, l.column) < toLex ((l.after c).line, (l.after c).column)
  rw [Prod.Lex.toLex_lt_toLex, after]
  split
  · exact .inl (Nat.lt_succ_self _)
  · exact .inr ⟨rfl, Nat.lt_succ_self _⟩

end Location

namespace Script

-- What is told apart in a script by its place: a key in brackets or a spread, and the name of
-- a member.
inductive Spot where
  | shape (location : Location)
  | name (location : Location)
deriving DecidableEq

def Spot.location : Spot → Location
  | shape location | name location => location

def Spot.isName : Spot → Bool
  | shape _ => false
  | name _ => true

def Kind.isShape (kind : Kind) : Bool := kind ∈ [computedName, spread]

def Kind.isPlain (kind : Kind) : Bool := kind ∉ [computedName, spread, member, call]

namespace Tree

-- The form of calls and members: what is called and what a member is of stand in roles of
-- their own, a list of arguments is nothing that is called itself, and a member has a name.
def isFormed (t : Tree) : Bool :=
  match t.kind with
  | .call => (t.children.filter (·.role == .function)).length ≤ 1 &&
    t.children.all fun child => child.role != .arguments || (child.kind != .call && !child.kind.isWrapper)
  | .member => (t.children.filter (·.role == .object)).length ≤ 1 && (t.child? .property).isSome
  | _ => true

def Formed (t : Tree) : Prop := ∀ piece ∈ t.preorder, piece.isFormed = true

def ownSpots (t : Tree) : List Spot :=
  match t.kind with
  | .computedName | .spread => [.shape t.location]
  | .member => (t.child? .property).toList.map fun name => .name name.location
  | _ => []

def spots (t : Tree) : List Spot := t.preorder.flatMap ownSpots

variable {t : Tree} {role : Role}

theorem preorder_eq (t : Tree) : t.preorder = t :: t.children.flatMap preorder := by
  rw [preorder]
  simp [List.flatMap]

theorem spots_eq (t : Tree) : t.spots = t.ownSpots ++ t.children.flatMap spots := by
  rw [spots, preorder_eq, List.flatMap_cons, List.flatMap_assoc]
  rfl

theorem formed_iff : t.Formed ↔ t.isFormed = true ∧ ∀ child ∈ t.children, child.Formed := by
  unfold Formed
  rw [preorder_eq]
  simp only [List.forall_mem_cons, List.mem_flatMap]
  exact and_congr_right fun _ => ⟨fun all child listed piece inside => all piece ⟨child, listed, inside⟩,
    fun all piece ⟨child, listed, inside⟩ => all child listed piece inside⟩

theorem isFormed_of_isPlain (plain : t.kind.isPlain = true) : t.isFormed = true := by
  unfold isFormed
  split
  · rename_i isCall
    simp [isCall, Kind.isPlain] at plain
  · rename_i member
    simp [member, Kind.isPlain] at plain
  · rfl

theorem ownSpots_of_isPlain (plain : t.kind.isPlain = true) : t.ownSpots = [] := by
  unfold ownSpots
  split
  · rename_i kind
    simp [kind, Kind.isPlain] at plain
  · rename_i kind
    simp [kind, Kind.isPlain] at plain
  · rename_i kind
    simp [kind, Kind.isPlain] at plain
  · rfl

theorem shape_cases (shape : t.kind.isShape = true) : t.kind = .computedName ∨ t.kind = .spread := by
  simpa [Kind.isShape] using shape

theorem isFormed_of_isShape (shape : t.kind.isShape = true) : t.isFormed = true := by
  rcases shape_cases shape with kind | kind <;> simp [isFormed, kind]

theorem ownSpots_of_isShape (shape : t.kind.isShape = true) : t.ownSpots = [.shape t.location] := by
  rcases shape_cases shape with kind | kind <;> simp [ownSpots, kind]

structure IsBlank (t : Tree) : Prop where
  formed : t.Formed
  spots : t.spots = []

theorem isBlank_of_leaf (plain : t.kind.isPlain = true) (leaf : t.children = []) : t.IsBlank := by
  refine ⟨formed_iff.mpr ⟨isFormed_of_isPlain plain, by simp [leaf]⟩, ?_⟩
  rw [spots_eq, ownSpots_of_isPlain plain, leaf]
  rfl

@[simp] theorem withRole_role (t : Tree) (role : Role) : (t.withRole role).role = role := rfl
@[simp] theorem withRole_kind (t : Tree) (role : Role) : (t.withRole role).kind = t.kind := rfl
@[simp] theorem withRole_location (t : Tree) (role : Role) : (t.withRole role).location = t.location := rfl

def bare (t : Tree) : Tree := t.withRole .plain

@[simp] theorem bare_withRole (t : Tree) (role : Role) : (t.withRole role).bare = t.bare := rfl

theorem spots_bare (t : Tree) : t.bare.spots = t.spots := by
  rw [spots_eq, spots_eq t]
  rfl

theorem formed_bare : t.bare.Formed ↔ t.Formed := by
  rw [formed_iff, formed_iff]
  rfl

-- Trees in a stretch of the text: their spots stand in it, each in a place of its own.
structure Apart (lo hi : Location) (ts : List Tree) : Prop where
  ordered : lo ≤ hi
  formed : ∀ t ∈ ts, t.Formed
  inside : ∀ s ∈ ts.flatMap spots, lo ≤ s.location ∧ s.location < hi
  once : (ts.flatMap spots).Nodup

-- Some of the trees, in the same order, in whatever roles.
def Drawn (some all : List Tree) : Prop := (some.map bare).Sublist (all.map bare)

theorem Drawn.of_eq {some all : List Tree} (same : some.map bare = all.map bare) : Drawn some all := by
  rw [Drawn, same]

theorem Drawn.right (front ts : List Tree) : Drawn ts (front ++ ts) := by
  rw [Drawn, List.map_append]
  exact List.sublist_append_right _ _

theorem flatMap_bare (ts : List Tree) : (ts.map bare).flatMap spots = ts.flatMap spots := by
  rw [List.flatMap_map]
  simp only [spots_bare]

namespace Apart

variable {lo mid hi : Location} {ts us : List Tree}

theorem nil (ordered : lo ≤ hi) : Apart lo hi [] := ⟨ordered, nofun, nofun, List.nodup_nil⟩

theorem later (apart : Apart lo mid ts) (ordered : mid ≤ hi) : Apart lo hi ts :=
  ⟨le_trans apart.ordered ordered, apart.formed,
    fun s listed => ⟨(apart.inside s listed).1, lt_of_lt_of_le (apart.inside s listed).2 ordered⟩, apart.once⟩

theorem earlier (apart : Apart mid hi ts) (ordered : lo ≤ mid) : Apart lo hi ts :=
  ⟨le_trans ordered apart.ordered, apart.formed,
    fun s listed => ⟨le_trans ordered (apart.inside s listed).1, (apart.inside s listed).2⟩, apart.once⟩

theorem append (first : Apart lo mid ts) (second : Apart mid hi us) : Apart lo hi (ts ++ us) := by
  refine ⟨le_trans first.ordered second.ordered, ?_, ?_, ?_⟩
  · exact List.forall_mem_append.mpr ⟨first.formed, second.formed⟩
  · rw [List.flatMap_append, List.forall_mem_append]
    exact ⟨(first.later second.ordered).inside, fun s listed =>
      ⟨le_trans first.ordered (second.inside s listed).1, (second.inside s listed).2⟩⟩
  · rw [List.flatMap_append, List.nodup_append]
    refine ⟨first.once, second.once, fun s inFirst t inSecond same => ?_⟩
    have low := (first.inside s inFirst).2
    exact lt_irrefl _ (lt_of_lt_of_le low (same ▸ (second.inside t inSecond).1))

theorem drawn (apart : Apart lo hi ts) (drawn : Drawn us ts) : Apart lo hi us := by
  have spots : (us.flatMap spots).Sublist (ts.flatMap spots) := by
    rw [← flatMap_bare us, ← flatMap_bare ts]
    exact drawn.flatMap _
  refine ⟨apart.ordered, fun t listed => ?_, fun s listed => apart.inside s (spots.subset listed), apart.once.sublist spots⟩
  obtain ⟨u, inside, same⟩ := List.mem_map.mp (drawn.subset (List.mem_map_of_mem listed))
  exact formed_bare.mp (same ▸ formed_bare.mpr (apart.formed u inside))

theorem formedTree (apart : Apart lo hi t.children) (formed : t.isFormed = true) (none : t.ownSpots = []) :
    Apart lo hi [t] := by
  have spots : [t].flatMap spots = t.children.flatMap spots := by
    rw [List.flatMap_singleton, spots_eq, none, List.nil_append]
  refine ⟨apart.ordered, List.forall_mem_singleton.mpr ?_, spots ▸ apart.inside, spots ▸ apart.once⟩
  exact formed_iff.mpr ⟨formed, apart.formed⟩

theorem tree (apart : Apart lo hi t.children) (plain : t.kind.isPlain = true) : Apart lo hi [t] :=
  apart.formedTree (isFormed_of_isPlain plain) (ownSpots_of_isPlain plain)

theorem spot (apart : Apart mid hi t.children) (formed : t.isFormed = true) (own : t.ownSpots = [s])
    (from_ : lo ≤ s.location) (front : s.location < mid) : Apart lo hi [t] := by
  have spots : [t].flatMap spots = s :: t.children.flatMap spots := by
    rw [List.flatMap_singleton, spots_eq, own]
    rfl
  refine ⟨le_trans from_ (le_trans (le_of_lt front) apart.ordered), ?_, ?_, ?_⟩
  · exact List.forall_mem_singleton.mpr (formed_iff.mpr ⟨formed, apart.formed⟩)
  · rw [spots, List.forall_mem_cons]
    refine ⟨⟨from_, lt_of_lt_of_le front apart.ordered⟩, fun other listed => ?_⟩
    exact ⟨le_trans from_ (le_trans (le_of_lt front) (apart.inside other listed).1), (apart.inside other listed).2⟩
  · rw [spots, List.nodup_cons]
    exact ⟨fun listed => lt_irrefl _ (lt_of_lt_of_le front (apart.inside s listed).1), apart.once⟩

theorem blank (blank : t.IsBlank) (ordered : lo ≤ hi) : Apart lo hi [t] := by
  have none : [t].flatMap spots = [] := by rw [List.flatMap_singleton, blank.spots]
  exact ⟨ordered, List.forall_mem_singleton.mpr blank.formed, none ▸ nofun, none ▸ List.nodup_nil⟩

end Apart

-- A name in a stretch of the text: any name inside it stands behind where it starts.
structure Named (lo hi : Location) (t : Tree) : Prop where
  apart : Apart lo hi [t]
  starts : lo ≤ t.location
  ends : t.location < hi
  inner : ∀ s ∈ t.spots, s.isName = true → t.location < s.location

theorem Apart.member {lo mid hi : Location} {ts : List Tree} {named : Tree} (apart : Apart lo mid ts) (name : named.Named mid hi)
    (formed : t.isFormed = true) (own : t.ownSpots = [.name named.location]) (drawn : Drawn t.children (ts ++ [named])) :
    Apart lo hi [t] := by
  have held := (apart.append name.apart).drawn drawn
  have spots : [t].flatMap spots = .name named.location :: t.children.flatMap spots := by
    rw [List.flatMap_singleton, spots_eq, own]
    rfl
  have within : ∀ s ∈ t.children.flatMap Tree.spots, s ∈ ts.flatMap Tree.spots ∨ s ∈ named.spots := by
    intro s listed
    have inside := (drawn.flatMap Tree.spots).subset (by rwa [flatMap_bare])
    rw [flatMap_bare, List.flatMap_append, List.flatMap_singleton] at inside
    exact List.mem_append.mp inside
  refine ⟨held.ordered, List.forall_mem_singleton.mpr (formed_iff.mpr ⟨formed, held.formed⟩), ?_, ?_⟩
  · rw [spots, List.forall_mem_cons]
    exact ⟨⟨le_trans apart.ordered name.starts, name.ends⟩, held.inside⟩
  · rw [spots, List.nodup_cons]
    refine ⟨fun listed => ?_, held.once⟩
    rcases within _ listed with front | inner
    · exact lt_irrefl _ (lt_of_lt_of_le (apart.inside _ front).2 name.starts)
    · exact lt_irrefl _ (name.inner _ inner rfl)

end Tree
end Script
end SchemaAtlas
