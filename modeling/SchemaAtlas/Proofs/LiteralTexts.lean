import SchemaAtlas.Proofs.QuotedTexts
import SchemaAtlas.Proofs.WrittenNumbers

namespace SchemaAtlas
namespace Script

-- Literal expressions as they are written, the values they denote, and the values that are
-- kept of them.

inductive Literal where
  | null
  | bool (value : Bool)
  | number (negative : Bool) (written : WrittenNumber)
  | string (written : Quoted)
  | array (items : List Literal)
  | object (members : List (Quoted × Literal))

namespace Literal

open Reading (commas)

mutual

def text : Literal → List Char
  | null => ['n', 'u', 'l', 'l']
  | bool true => ['t', 'r', 'u', 'e']
  | bool false => ['f', 'a', 'l', 's', 'e']
  | number true n => '-' :: n.text
  | number false n => n.text
  | string q => q.text
  | array items => '[' :: (commas (texts items) ++ [']'])
  | object members => '\x7b' :: (commas (memberTexts members) ++ ['\x7d'])

def texts : List Literal → List (List Char)
  | [] => []
  | item :: rest => item.text :: texts rest

def memberTexts : List (Quoted × Literal) → List (List Char)
  | [] => []
  | (key, item) :: rest => (key.text ++ ':' :: item.text) :: memberTexts rest

end

def memberText (m : Quoted × Literal) : List Char := m.1.text ++ ':' :: m.2.text

theorem texts_eq (items : List Literal) : texts items = items.map text := by
  induction items with
  | nil => rfl
  | cons item rest ih => rw [texts, ih, List.map_cons]

theorem memberTexts_eq (members : List (Quoted × Literal)) : memberTexts members = members.map memberText := by
  induction members with
  | nil => rfl
  | cons m rest ih =>
    obtain ⟨key, item⟩ := m
    rw [memberTexts, ih, List.map_cons, memberText]

theorem text_array (items : List Literal) : (array items).text = '[' :: (commas (items.map text) ++ [']']) := by
  rw [text, texts_eq]

theorem text_object (members : List (Quoted × Literal)) :
    (object members).text = '\x7b' :: (commas (members.map memberText) ++ ['\x7d']) := by
  rw [text, memberTexts_eq]

-- How deep a literal is nested. An empty container counts as `empty`, a sign as `sign`.

mutual

def depth (empty sign : Nat) : Literal → Nat
  | null => 0
  | bool _ => 0
  | number true _ => sign
  | number false _ => 0
  | string _ => 0
  | array items => depthOf empty sign items
  | object members => memberDepth empty sign members

def depthOf (empty sign : Nat) : List Literal → Nat
  | [] => empty
  | item :: rest => max (item.depth empty sign + 1) (depthOf empty sign rest)

def memberDepth (empty sign : Nat) : List (Quoted × Literal) → Nat
  | [] => empty
  | (_, item) :: rest => max (item.depth empty sign + 1) (memberDepth empty sign rest)

end

theorem memberDepth_eq (empty sign : Nat) (members : List (Quoted × Literal)) :
    memberDepth empty sign members = depthOf empty sign (members.map Prod.snd) := by
  induction members with
  | nil => rfl
  | cons m rest ih =>
    obtain ⟨key, item⟩ := m
    rw [memberDepth, ih, List.map_cons, depthOf]

theorem depthOf_le {items : List Literal} :
    depthOf empty sign items ≤ k ↔ empty ≤ k ∧ ∀ item ∈ items, item.depth empty sign < k := by
  induction items with
  | nil => simp [depthOf]
  | cons item rest ih =>
    rw [depthOf, Nat.max_le, ih, List.forall_mem_cons, Nat.succ_le_iff]
    exact and_left_comm

def containers (l : Literal) : Nat := l.depth 1 0

-- How deep the evaluator goes below the expression: a level for each container around
-- something, and one for a sign.
def levels (l : Literal) : Nat := l.depth 0 1

theorem levels_array {items : List Literal} : (array items).levels ≤ k ↔ ∀ item ∈ items, item.levels < k :=
  depthOf_le.trans (and_iff_right (Nat.zero_le k))

theorem levels_object {members : List (Quoted × Literal)} : (object members).levels ≤ k ↔ ∀ m ∈ members, m.2.levels < k := by
  rw [levels, depth, memberDepth_eq, depthOf_le, List.forall_mem_map]
  exact and_iff_right (Nat.zero_le k)

theorem containers_array {items : List Literal} (deep : (array items).containers ≤ k) :
    ∀ item ∈ items, item.containers < k := (depthOf_le.mp deep).2

theorem containers_object {members : List (Quoted × Literal)} (deep : (object members).containers ≤ k) :
    ∀ m ∈ members, m.2.containers < k := by
  rw [containers, depth, memberDepth_eq, depthOf_le, List.forall_mem_map] at deep
  exact deep.2

-- Numbers are in the range of doubles, and keys are no templates.
inductive WellFormed : Literal → Prop where
  | null : WellFormed null
  | bool : WellFormed (bool b)
  | number : n.WellFormed → n.value < Double.overflow → WellFormed (number negative n)
  | string : q.WellFormed → WellFormed (string q)
  | array : (∀ item ∈ items, WellFormed item) → WellFormed (array items)
  | object : (∀ m ∈ members, m.1.WellFormed ∧ m.1.quote ≠ .backquote) → (∀ m ∈ members, WellFormed m.2) →
      WellFormed (object members)

inductive Counts (fits : Int → Prop) (negative : Bool) (n : WrittenNumber) : Number → Prop where
  | whole : n.Plain → fits (n.signed negative) → Counts fits negative n (.whole (n.signed negative))
  | double : (n.Plain → ¬ fits (n.signed negative)) → x.negative = negative → x.Rounds n.value →
      Counts fits negative n (.double x)

-- Values of literals, up to what is made of texts and which whole numbers stay whole. A
-- key that comes again keeps its first place and takes the new value.
inductive Means (content : Quoted → String → Prop) (fits : Int → Prop) : Literal → Json → Prop where
  | null : Means content fits null .null
  | bool : Means content fits (bool b) (.bool b)
  | number : Counts fits negative n x → Means content fits (number negative n) (.number x)
  | string : content q s → Means content fits (string q) (.string s)
  | array : List.Forall₂ (Means content fits) items values → Means content fits (array items) (.array values)
  | object {entries : List (String × Json)} : List.Forall₂ content (members.map Prod.fst) (entries.map Prod.fst) →
      List.Forall₂ (Means content fits) (members.map Prod.snd) (entries.map Prod.snd) →
      Means content fits (object members) (.object (Entries.ofList entries))

def Denotes : Literal → Json → Prop :=
  Means (fun q s => unitsOf s.toList = q.units) (fun n => Number.leastWhole ≤ n ∧ n ≤ Number.greatestWhole)

def Keeps : Literal → Json → Prop := Means (fun q s => s.toList = q.kept) (fun n => n.natAbs < 2 ^ 63)

theorem levels_le {l : Literal} (formed : l.WellFormed) : l.levels ≤ l.containers + 1 := by
  induction formed with
  | null => exact Nat.zero_le _
  | bool => exact Nat.zero_le _
  | @number negative n _ _ =>
    cases negative
    · exact Nat.zero_le _
    · exact Nat.le_refl 1
  | string => exact Nat.zero_le _
  | @array items _ ih =>
    have inside := containers_array (Nat.le_refl (array items).containers)
    exact levels_array.mpr fun item listed => Nat.lt_succ_of_le ((ih item listed).trans (inside item listed))
  | @object members _ _ ih =>
    have inside := containers_object (Nat.le_refl (object members).containers)
    exact levels_object.mpr fun m listed => Nat.lt_succ_of_le ((ih m listed).trans (inside m listed))

theorem length_le_commas {text : List Char} {texts : List (List Char)} (listed : text ∈ texts) :
    text.length ≤ (commas texts).length := by
  induction texts with
  | nil => cases listed
  | cons first rest ih =>
    cases rest with
    | nil =>
      obtain rfl := List.mem_singleton.mp listed
      exact Nat.le_refl _
    | cons next rest =>
      rw [Reading.commas_cons_cons, List.length_append, List.length_cons]
      rcases List.mem_cons.mp listed with rfl | later
      · omega
      · have := ih later
        omega

theorem levels_le_length {l : Literal} (formed : l.WellFormed) : l.levels ≤ l.text.length := by
  induction formed with
  | null => exact Nat.zero_le _
  | bool => exact Nat.zero_le _
  | @number negative n _ _ =>
    cases negative
    · exact Nat.zero_le _
    · exact Nat.succ_le_succ (Nat.zero_le _)
  | string => exact Nat.zero_le _
  | @array items _ ih =>
    refine levels_array.mpr fun item listed => ?_
    have inside := length_le_commas (List.mem_map_of_mem (f := text) listed)
    have := ih item listed
    rw [text_array]
    simp only [List.length_cons, List.length_append]
    omega
  | @object members _ _ ih =>
    refine levels_object.mpr fun m listed => ?_
    have inside := length_le_commas (List.mem_map_of_mem (f := memberText) listed)
    have := ih m listed
    rw [memberText, List.length_append, List.length_cons] at inside
    rw [text_object]
    simp only [List.length_cons, List.length_append]
    omega

-- A literal that is kept as it is: its texts are, and its whole numbers are below `2 ^ 63`, or
-- no whole numbers of 64 bits.
inductive Simple : Literal → Prop where
  | null : Simple null
  | bool : Simple (bool b)
  | number : (n.Plain → Number.leastWhole ≤ n.signed negative → n.signed negative ≤ Number.greatestWhole →
      n.digits < 2 ^ 63) → Simple (number negative n)
  | string : q.Simple → Simple (string q)
  | array : (∀ item ∈ items, Simple item) → Simple (array items)
  | object : (∀ m ∈ members, m.1.Simple) → (∀ m ∈ members, Simple m.2) → Simple (object members)

theorem counts_denoted {n : WrittenNumber} (simple : (number negative n).Simple)
    (kept : Counts (fun n => n.natAbs < 2 ^ 63) negative n x) :
    Counts (fun n => Number.leastWhole ≤ n ∧ n ≤ Number.greatestWhole) negative n x := by
  cases simple with
  | number small =>
    cases kept with
    | whole plain fits =>
      refine .whole plain ?_
      have least : Number.leastWhole = -(2 ^ 63 : Nat) := rfl
      have greatest : Number.greatestWhole = (2 ^ 64 : Nat) - 1 := rfl
      rw [least, greatest]
      omega
    | double other sign rounds =>
      refine .double (fun plain inRange => ?_) sign rounds
      exact other plain (by rw [WrittenNumber.natAbs_signed]; exact small plain inRange.1 inRange.2)

theorem forall₂_imp_of_mem {R S : α → β → Prop} {as : List α} {bs : List β} (pairs : List.Forall₂ R as bs)
    (each : ∀ a ∈ as, ∀ b, R a b → S a b) : List.Forall₂ S as bs := by
  induction pairs with
  | nil => exact .nil
  | cons own _ ih =>
    obtain ⟨first, others⟩ := List.forall_mem_cons.mp each
    exact .cons (first _ own) (ih others)

theorem content_denoted {q : Quoted} {s : String} (formed : q.WellFormed) (simple : q.Simple) (kept : s.toList = q.kept) :
    unitsOf s.toList = q.units := by
  rw [kept, Quoted.units_kept formed simple]

theorem keeps_denotes {l : Literal} (formed : l.WellFormed) (simple : l.Simple) (keeps : l.Keeps w) : l.Denotes w := by
  induction formed generalizing w with
  | null => cases keeps; exact .null
  | bool => cases keeps; exact .bool
  | number => cases keeps with | number counts => exact .number (counts_denoted simple counts)
  | string formed =>
    cases simple with
    | string simple => cases keeps with | string kept => exact .string (content_denoted formed simple kept)
  | array _ ih =>
    cases simple with
    | array simple =>
      cases keeps with
      | array items => exact .array (forall₂_imp_of_mem items fun item listed w => ih item listed (simple item listed))
  | object keyed _ ih =>
    cases simple with
    | object simpleKeys simple =>
      cases keeps with
      | object keys values =>
        refine .object (forall₂_imp_of_mem keys fun key listed s => ?_) (forall₂_imp_of_mem values fun item listed w => ?_)
        · obtain ⟨m, inside, rfl⟩ := List.mem_map.mp listed
          exact content_denoted (keyed m inside).1 (simpleKeys m inside)
        · obtain ⟨m, inside, rfl⟩ := List.mem_map.mp listed
          exact ih m inside (simple m inside)

theorem counts_unique {fits : Int → Prop} {n : WrittenNumber} (first : Counts fits negative n x)
    (second : Counts fits negative n y) : x = y := by
  cases first with
  | whole plain inside =>
    cases second with
    | whole _ _ => rfl
    | double other _ _ => exact absurd inside (other plain)
  | double other sign rounds =>
    cases second with
    | whole plain inside => exact absurd inside (other plain)
    | double _ sign' rounds' => rw [rounds.unique rounds' (sign.trans sign'.symm)]

theorem forall₂_unique {R : α → β → Prop} {as : List α} {bs cs : List β} (first : List.Forall₂ R as bs)
    (second : List.Forall₂ R as cs) (each : ∀ a ∈ as, ∀ b c, R a b → R a c → b = c) : bs = cs := by
  induction first generalizing cs with
  | nil => cases second; rfl
  | cons own _ ih =>
    obtain ⟨here, others⟩ := List.forall_mem_cons.mp each
    cases second with
    | cons own' rest => rw [here _ _ own own', ih rest others]

theorem denotes_unique {l : Literal} (formed : l.WellFormed) (first : l.Denotes v) (second : l.Denotes w) : v = w := by
  have content {q : Quoted} {s s' : String} (one : unitsOf s.toList = q.units) (other : unitsOf s'.toList = q.units) :
      s = s' := String.toList_injective (unitsOf_injective (one.trans other.symm))
  induction formed generalizing v w with
  | null => cases first; cases second; rfl
  | bool => cases first; cases second; rfl
  | number =>
    cases first with
    | number one => cases second with | number other => rw [counts_unique one other]
  | string =>
    cases first with
    | string one => cases second with | string other => rw [content one other]
  | array _ ih =>
    cases first with
    | array one =>
      cases second with
      | array other => rw [forall₂_unique one other fun item listed _ _ => ih item listed]
  | object _ _ ih =>
    cases first with
    | @object _ entries keys values =>
      cases second with
      | @object _ entries' keys' values' =>
        have sameKeys := forall₂_unique keys keys' fun _ _ _ _ => content
        have sameValues := forall₂_unique values values' fun item listed _ _ => by
          obtain ⟨m, inside, rfl⟩ := List.mem_map.mp listed
          exact ih m inside
        have same : entries = entries' := (List.zip_of_prod sameKeys sameValues).trans (List.zip_of_prod rfl rfl).symm
        rw [same]

end Literal

end Script
end SchemaAtlas
