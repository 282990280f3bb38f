import Mathlib.Algebra.GroupWithZero.Nat
import Mathlib.Algebra.Order.BigOperators.Group.List
import Mathlib.Algebra.Order.Group.Nat
import SchemaAtlas.Builder.Lint
import SchemaAtlas.Proofs.ChainReading

namespace SchemaAtlas

-- How the calls of a script are cut into chains, one for each outermost call, and what each
-- piece of the script adds to what is counted over all of them.

namespace Script
namespace Site

variable {s inner outer parent : Site} {f g : Site → Nat}

def total (f : Site → Nat) (s : Site) : Nat := (s.preorder.map f).sum

def below (f : Site → Nat) (s : Site) : Nat := (s.tree.children.map fun child => f (s.down child)).sum

theorem total_eq (f : Site → Nat) (s : Site) : s.total f = f s + s.below (total f) := by
  rw [total, preorder_eq, List.map_cons, List.sum_cons, List.flatMap, List.map_flatten, List.map_map, List.sum_flatten,
    List.map_map]
  rfl

theorem below_add (f g : Site → Nat) (s : Site) : s.below (fun c => f c + g c) = s.below f + s.below g := List.sum_map_add

theorem below_le (le : ∀ child ∈ s.tree.children, f (s.down child) ≤ g (s.down child)) : s.below f ≤ s.below g :=
  List.sum_le_sum le

theorem le_below (f : Site → Nat) (listed : child ∈ s.tree.children) : f (s.down child) ≤ s.below f :=
  List.le_sum_of_mem (List.mem_map_of_mem listed)

theorem child?_le_below (f : Site → Nat) (found : s.child? role = some inner) : f inner ≤ s.below f := by
  obtain ⟨child, named, rfl⟩ := Option.map_eq_some_iff.mp found
  exact le_below f (mem_children_of_child? named).1

theorem parent_of_mem_preorder (inside : inner ∈ outer.preorder) :
    inner = outer ∨ ∃ parent ∈ outer.preorder, ∃ child ∈ parent.tree.children, inner = parent.down child := by
  induction outer using down_induction with
  | step outer ih =>
    rw [preorder_eq] at inside
    rcases List.mem_cons.mp inside with same | deeper
    · exact .inl same
    · obtain ⟨child, listed, within⟩ := List.mem_flatMap.mp deeper
      rcases ih child listed within with rfl | ⟨parent, between, last, below, rfl⟩
      · exact .inr ⟨outer, mem_preorder_self outer, child, listed, rfl⟩
      · exact .inr ⟨parent, (preorder_down_sublist listed).subset between, last, below, rfl⟩

end Site
end Script

namespace Builder

open Script

variable {s t function object : Site} {own : Site → Nat}

def receiver? (s : Site) : Option Site :=
  (s.child? .function).bind fun function =>
    if function.unwrap.kind = .member then (function.unwrap.child? .object).map Site.unwrap else none

theorem receiver?_eq_some (received : receiver? s = some t) : ∃ function object, s.child? .function = some function ∧
    function.unwrap.kind = .member ∧ function.unwrap.child? .object = some object ∧ object.unwrap = t := by
  obtain ⟨function, called, inner⟩ := Option.bind_eq_some_iff.mp received
  split at inner
  · rename_i member
    obtain ⟨object, on, same⟩ := Option.map_eq_some_iff.mp inner
    exact ⟨function, object, called, member, on, same⟩
  · cases inner

theorem sizeOf_receiver?_lt (received : receiver? s = some t) : sizeOf t.tree < sizeOf s.tree := by
  obtain ⟨function, object, called, _, on, rfl⟩ := receiver?_eq_some received
  have first := Site.sizeOf_child?_lt called
  have second := Site.sizeOf_child?_lt on
  have third := Site.sizeOf_unwrap_le function
  have fourth := Site.sizeOf_unwrap_le object
  omega

def alongChain (own : Site → Nat) (s : Site) : Nat :=
  if s.kind = .call then
    own s + match _received : receiver? s with
      | some inner => alongChain own inner
      | none => 0
  else 0
termination_by sizeOf s.tree
decreasing_by exact sizeOf_receiver?_lt ‹_›

theorem alongChain_other (other : s.kind ≠ .call) : alongChain own s = 0 := by
  rw [alongChain, if_neg other]

theorem alongChain_call (isCall : s.kind = .call) :
    alongChain own s = own s + ((receiver? s).map (alongChain own)).getD 0 := by
  rw [alongChain, if_pos isCall]
  split <;> simp [*]

def isBare (s : Site) : Bool :=
  (s.child? .function).all fun function => function.unwrap.kind != .member ||
    (function.unwrap.child? .object).all fun object => object.unwrap.kind != .call ||
      (function.kind == .member && object.kind == .call)

theorem bare_of_isBare (bare : isBare s = true) (called : s.child? .function = some function)
    (isMember : function.unwrap.kind = .member) (on : function.unwrap.child? .object = some object)
    (further : object.unwrap.kind = .call) : function.kind = .member ∧ object.kind = .call := by
  simpa [isBare, called, isMember, on, further] using bare

def isCalled (s : Site) : Bool :=
  match s.above with
  | parent :: _ => s.kind == .member && s.tree.role == .function && parent.kind == .call
  | [] => false

theorem isOutermost_down (s : Site) (child : Tree) :
    isOutermost (s.down child) = !(isCalled s && child.role == .object) := by
  unfold isOutermost isCalled Site.down
  obtain ⟨tree, above⟩ := s
  cases above with
  | nil => rfl
  | cons parent rest =>
    simp only [Site.kind]
    grind

-- What the tree above a site takes over from it: the chain of a call that stands in the
-- middle of a longer one.
def passedUp (own : Site → Nat) (s : Site) : Nat :=
  if s.kind = .call then if isOutermost s then 0 else alongChain own s
  else if isCalled s then ((s.child? .object).map (alongChain own)).getD 0
  else 0

def cutOff (own : Site → Nat) (s : Site) : Nat := if s.kind == .call && isOutermost s then alongChain own s else 0

def ofCall (own : Site → Nat) (s : Site) : Nat := if s.kind = .call then own s else 0

theorem cutOff_add_passedUp (own : Site → Nat) (isCall : s.kind = .call) : cutOff own s + passedUp own s = alongChain own s := by
  unfold cutOff passedUp
  cases outermost : isOutermost s <;> simp [isCall]

theorem child?_kind_role {inner : Site} (found : s.child? role = some inner) :
    ∃ child ∈ s.tree.children, child.role = role ∧ inner = s.down child := by
  obtain ⟨child, named, rfl⟩ := Option.map_eq_some_iff.mp found
  exact ⟨child, (Site.mem_children_of_child? named).1, (Site.mem_children_of_child? named).2, rfl⟩

theorem passedUp_object (called : isCalled s = true) (found : s.child? .object = some object) :
    alongChain own object ≤ s.below (passedUp own) := by
  by_cases isCall : object.kind = .call
  · have inner := isCall
    obtain ⟨child, listed, role, rfl⟩ := child?_kind_role found
    have handed : passedUp own (s.down child) = alongChain own (s.down child) := by
      have middle : isOutermost (s.down child) = false := by
        rw [isOutermost_down, called, role]
        rfl
      unfold passedUp
      rw [if_pos inner, middle]
      rfl
    rw [← handed]
    exact Site.le_below _ listed
  · rw [alongChain_other isCall]
    exact Nat.zero_le _

theorem isCalled_function (isCall : s.kind = .call) (found : s.child? .function = some function)
    (member : function.kind = .member) : isCalled function = true := by
  obtain ⟨child, _, role, rfl⟩ := child?_kind_role found
  have tree : s.tree.kind = .call := isCall
  unfold isCalled
  simp [Site.down, Site.kind, role, tree, show child.kind = .member from member]

theorem alongChain_le (own : Site → Nat) (isCall : s.kind = .call) (bare : isBare s = true) :
    alongChain own s ≤ own s + s.below (passedUp own) := by
  rw [alongChain_call isCall]
  cases received : receiver? s with
  | none => simp
  | some inner =>
    obtain ⟨function, object, called, member, on, rfl⟩ := receiver?_eq_some received
    by_cases further : object.unwrap.kind = .call
    · obtain ⟨isMember, objectCall⟩ := bare_of_isBare bare called member on further
      have plain : function.unwrap = function := Site.unwrap_of_not_wrapper (by rw [isMember]; rfl)
      have same : object.unwrap = object := Site.unwrap_of_not_wrapper (by rw [objectCall]; rfl)
      rw [plain] at on
      have handed : passedUp own function = alongChain own object := by
        unfold passedUp
        rw [if_neg (by rw [isMember]; nofun), if_pos (isCalled_function isCall called isMember), on]
        rfl
      have below := Site.child?_le_below (passedUp own) called
      rw [same, Option.map_some, Option.getD_some]
      omega
    · rw [Option.map_some, Option.getD_some, alongChain_other further]
      omega

theorem passedUp_le (own : Site → Nat) (other : s.kind ≠ .call) : passedUp own s ≤ s.below (passedUp own) := by
  unfold passedUp
  rw [if_neg other]
  split
  · rename_i called
    cases found : s.child? .object with
    | none => exact Nat.zero_le _
    | some object => exact passedUp_object called found
  · exact Nat.zero_le _

-- Cutting the calls into chains counts none of them twice, where the receivers stand bare.
theorem total_cutOff_le (own : Site → Nat) (bare : ∀ t ∈ s.preorder, t.kind = .call → isBare t = true) :
    s.total (cutOff own) + passedUp own s ≤ s.total (ofCall own) := by
  induction s using Site.down_induction with
  | step s ih =>
    have each : s.below (Site.total (cutOff own)) + s.below (passedUp own) ≤ s.below (Site.total (ofCall own)) := by
      rw [← Site.below_add]
      refine Site.below_le fun child listed => ih child listed fun t inside => ?_
      exact bare t ((Site.preorder_down_sublist listed).subset inside)
    rw [Site.total_eq, Site.total_eq]
    by_cases isCall : s.kind = .call
    · have own_ : ofCall own s = own s := if_pos isCall
      have whole := cutOff_add_passedUp own isCall
      have chain := alongChain_le own isCall (bare s (Site.mem_preorder_self s) isCall)
      omega
    · have none : cutOff own s = 0 := by simp [cutOff, isCall]
      have handed := passedUp_le own isCall
      omega

end Builder
end SchemaAtlas
