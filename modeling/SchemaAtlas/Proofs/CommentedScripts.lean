import SchemaAtlas.Proofs.DeclarationIndependence
import SchemaAtlas.Proofs.LikeScripts

namespace SchemaAtlas

-- A script, and the same script with comments put in. The comments change none of the schemas,
-- but for a comment that comes first inside a wrapper: the wrapper gives way to it.

namespace Script

namespace Tree

variable {places : Tree → Tree → Prop} {R S : Tree → Tree → Prop} {t u c : Tree} {ts us : List Tree}

-- Pieces with comments put in among them, each of the pieces with its own other side.
inductive Among (R : Tree → Tree → Prop) : List Tree → List Tree → Prop where
  | nil : Among R [] []
  | piece {t u : Tree} {ts us : List Tree} : R t u → Among R ts us → Among R (t :: ts) (u :: us)
  | comment {c : Tree} {ts us : List Tree} : c.isSpare = true → Among R ts us → Among R ts (c :: us)

-- A tree with comments put in at any depth, with the same words in it. None is put in another
-- comment, and none comes first in a wrapper where none did.
inductive Commented (places : Tree → Tree → Prop) : Tree → Tree → Prop where
  | node {t u : Tree} : u.kind = t.kind → u.role = t.role → u.isSpare = t.isSpare → u.spelling = t.spelling →
      places t u → Option.Rel places (t.wrapped?.filter isSpare) (u.wrapped?.filter isSpare) →
      Among (Commented places) t.children u.children → Commented places t u

theorem Among.pieces (among : Among R ts us) (same : ∀ t ∈ ts, ∀ u, R t u → u.isSpare = t.isSpare ∧ S t u) :
    List.Forall₂ S (ts.filter fun c => !c.isSpare) (us.filter fun c => !c.isSpare) := by
  induction among with
  | nil => exact .nil
  | @piece t u _ _ here _ ih =>
    obtain ⟨spare, own⟩ := same t List.mem_cons_self u here
    have rest := ih fun t listed => same t (List.mem_cons_of_mem _ listed)
    rw [List.filter_cons, List.filter_cons, spare]
    split
    · exact .cons own rest
    · exact rest
  | comment spare _ ih =>
    rw [List.filter_cons_of_neg (by simp [spare])]
    exact ih same

theorem like_of_isSpare (one : t.isSpare = true) (two : u.isSpare = true) (placed : places t u) : t.Like places u := by
  simp only [isSpare, Bool.and_eq_true, beq_iff_eq, List.isEmpty_iff] at one two
  obtain ⟨⟨kind, role⟩, bare⟩ := one
  obtain ⟨⟨kind', role'⟩, bare'⟩ := two
  refine .node (kind'.trans kind.symm) (role'.trans role.symm) ?_ placed ?_
  · simp only [spelling, kind, kind']
  · simp [kept, wrapped?, kind, kind', bare, bare', Kind.isWrapper]

theorem Commented.isSpare (commented : t.Commented places u) : u.isSpare = t.isSpare := by
  cases commented
  assumption

theorem Commented.like (commented : t.Commented places u) : t.Like places u := by
  induction t using children_induction generalizing u with
  | step t ih =>
    cases commented with
    | node kind role _ words placed leads among =>
      refine .node kind role words placed (List.rel_append ?_ ?_)
      · generalize first : t.wrapped?.filter Tree.isSpare = lead at leads
        generalize second : u.wrapped?.filter Tree.isSpare = lead' at leads
        cases leads with
        | none => exact .nil
        | some beside =>
          have one := (Option.filter_eq_some_iff.mp first).2
          have two := (Option.filter_eq_some_iff.mp second).2
          exact .cons (like_of_isSpare one two beside) .nil
      · exact among.pieces fun c listed d here => ⟨here.isSpare, ih c listed here⟩

section Checks

variable [DecidableRel places] {levels : Nat} {same : Tree → Tree → Bool}

def among (same : Tree → Tree → Bool) : List Tree → List Tree → Bool
  | [], [] => true
  | _ :: _, [] => false
  | [], c :: us => c.isSpare && among same [] us
  | t :: ts, u :: us => (same t u && among same ts us) || (u.isSpare && among same (t :: ts) us)

theorem among_sound (sound : ∀ t u, same t u = true → R t u) (given : among same ts us = true) : Among R ts us := by
  induction us generalizing ts with
  | nil =>
    cases ts with
    | nil => exact .nil
    | cons t ts => cases given
  | cons u us ih =>
    cases ts with
    | nil =>
      obtain ⟨spare, rest⟩ := Bool.and_eq_true_iff.mp given
      exact .comment spare (ih rest)
    | cons t ts =>
      rcases Bool.or_eq_true_iff.mp given with piece | comment
      · obtain ⟨here, rest⟩ := Bool.and_eq_true_iff.mp piece
        exact .piece (sound t u here) (ih rest)
      · obtain ⟨spare, rest⟩ := Bool.and_eq_true_iff.mp comment
        exact .comment spare (ih rest)

def leadsAlike (places : Tree → Tree → Prop) [DecidableRel places] : Option Tree → Option Tree → Bool
  | none, none => true
  | some c, some d => decide (places c d)
  | _, _ => false

theorem leadsAlike_iff {one two : Option Tree} : leadsAlike places one two = true ↔ Option.Rel places one two := by
  cases one <;> cases two <;> simp [leadsAlike]

def commentedWithin (places : Tree → Tree → Prop) [DecidableRel places] : Nat → Tree → Tree → Bool
  | 0, _, _ => false
  | levels + 1, t, u =>
    decide (u.kind = t.kind ∧ u.role = t.role ∧ u.isSpare = t.isSpare ∧ u.spelling = t.spelling ∧ places t u) &&
      leadsAlike places (t.wrapped?.filter isSpare) (u.wrapped?.filter isSpare) &&
      among (commentedWithin places levels) t.children u.children

theorem commentedWithin_sound (levels : Nat) (given : commentedWithin places levels t u = true) : t.Commented places u := by
  induction levels generalizing t u with
  | zero => cases given
  | succ levels ih =>
    rw [commentedWithin, Bool.and_eq_true, Bool.and_eq_true, decide_eq_true_eq, leadsAlike_iff] at given
    obtain ⟨⟨⟨kind, role, spare, words, placed⟩, leads⟩, inner⟩ := given
    exact .node kind role spare words placed leads (among_sound (fun _ _ => ih) inner)

end Checks

def Moved (place length : Nat) (t u : Tree) : Prop :=
  u.offset = (if t.offset < place then t.offset else t.offset + length) ∧
    u.finish = if t.finish ≤ place then t.finish else t.finish + length

instance (place length : Nat) : DecidableRel (Moved place length) := fun _ _ => inferInstanceAs (Decidable (_ ∧ _))

theorem moved_ordered (place length : Nat) : Ordered (Moved place length) := by
  rintro t u t' u' ⟨starts, ends⟩ ⟨starts', ends'⟩
  rw [starts, starts', ends, ends']
  constructor
  · split <;> split <;> omega
  · split <;> split <;> omega

theorem literal?_comment (comment : t.unwrap.kind = .comment) : t.literal? = none := by
  rw [literal?, valueWithin, valueOver, comment]

end Tree
end Script

namespace Builder

open Script

variable {settings : ParseSettings} {b : Bindings} {cx : Context} {s : Site} {node : SchemaNode}

theorem Bindings.chain?_comment (comment : s.tree.unwrap.kind = .comment) : b.chain? s = none := by
  have kind : s.unwrap.kind = .comment := by rw [Site.kind, Site.unwrap_tree, comment]
  rw [Bindings.chain?, Bindings.chainBefore, kind]

theorem lowerExpression_comment (comment : s.tree.unwrap.kind = .comment) : lowerExpression cx s ≠ .ok node := by
  intro lowered
  unfold lowerExpression at lowered
  cases levels : s.tree.preorder.length with
  | zero => rw [levels] at lowered; cases lowered
  | succ levels =>
    rw [levels] at lowered
    obtain ⟨_, chain, _, _, found, _⟩ := lowerOver_ok lowered
    rw [Bindings.chain?_comment comment] at found
    cases found

-- Comments change nothing in the document, whether they are put into the tree or into the text. What
-- gives way to a comment has neither a value nor a schema.
theorem schemas_commented {places : Tree → Tree → Prop} (ordered : Ordered places) (settings : ParseSettings) :
    (∀ one two : Tree, one.kind = .program → one.Commented places two →
      ((Survey.ofTree settings two).outcome settings).document = ((Survey.ofTree settings one).outcome settings).document) ∧
    (∀ one two : String, (Script.parse one).Commented places (Script.parse two) →
      (parse settings two).document = (parse settings one).document) ∧
    ∀ s : Site, s.tree.unwrap.kind = .comment →
      s.tree.literal? = none ∧ ∀ (cx : Context) (node : SchemaNode), lowerExpression cx s ≠ .ok node := by
  have whole (one two : Tree) (program : one.kind = .program) (commented : one.Commented places two) :
      ((Survey.ofTree settings two).outcome settings).document = ((Survey.ofTree settings one).outcome settings).document :=
    document_like ordered program commented.like
  refine ⟨whole, fun one two commented => whole _ _ (parse_kind one) commented, fun s comment => ?_⟩
  exact ⟨Tree.literal?_comment comment, fun cx node => lowerExpression_comment comment⟩

def bareScript : String := "let A=z.object({a:z.int()}).array()"
def notedScript : String := "let A=z.object({a:/*c*/z.int()}).array()"

def noted : Nat → Tree → Tree
  | 0, t => t
  | levels + 1, t =>
    let note : Tree := { kind := .comment, location := t.location, offset := t.offset, text := "/*c*/" }
    { t with children := (t.children.map (noted levels)).flatMap fun c => [c, note] }

theorem schemas_commented_noted :
    (parse {} notedScript).document = (parse {} bareScript).document ∧
    ((Survey.ofTree {} (noted 20 (Script.parse bareScript))).outcome {}).document = (parse {} bareScript).document ∧
    (parse {} bareScript).document.schemas.map Prod.fst = ["A"] := by
  have inText : (Script.parse bareScript).Commented (Tree.Moved 18 5) (Script.parse notedScript) :=
    Tree.commentedWithin_sound 20 (by decide +kernel)
  have inTree : (Script.parse bareScript).Commented (Tree.Moved 0 0) (noted 20 (Script.parse bareScript)) :=
    Tree.commentedWithin_sound 20 (by decide +kernel)
  exact ⟨(schemas_commented (Tree.moved_ordered 18 5) {}).2.1 _ _ inText,
    (schemas_commented (Tree.moved_ordered 0 0) {}).1 _ _ (parse_kind bareScript) inTree, by decide +kernel⟩

-- A comment in front of the builder, in parentheses, takes the schema away.
def parenthesizedScript : String := "let A=(z.int())"
def coveredScript : String := "let A=(/*c*/z.int())"

theorem schemas_covered :
    (Script.parse parenthesizedScript).broken? = none ∧ (Script.parse coveredScript).broken? = none ∧
    (parse {} parenthesizedScript).document.schemas.map Prod.fst = ["A"] ∧
    (parse {} coveredScript).document.schemas.map Prod.fst = [] := by
  decide +kernel

end Builder
end SchemaAtlas
