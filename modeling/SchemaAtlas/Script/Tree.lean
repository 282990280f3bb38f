import SchemaAtlas.Script.Kind
import SchemaAtlas.Script.Location

namespace SchemaAtlas
namespace Script

-- Trees hold the text they were read from. Punctuation and keywords have no trees of
-- their own. A comment has one where it stands first inside parentheses; elsewhere
-- it is blank space.

-- A piece of a script: kind, role, place, text, and the pieces inside it.
-- `offset` counts the characters before it. No name is without characters.
structure Tree where
  kind : Kind
  role : Role := .plain
  location : Location
  offset : Nat
  text : String
  children : List Tree := []
  named : kind.isName = true → text ≠ "" := by decide
deriving Repr

instance : Inhabited Tree := ⟨{ kind := .error, location := .start, offset := 0, text := "" }⟩

namespace Tree

theorem sizeOf_child_lt {t child : Tree} (inside : child ∈ t.children) : sizeOf child < sizeOf t := by
  have inner := List.sizeOf_lt_of_mem inside
  obtain ⟨kind, role, location, offset, text, children, named⟩ := t
  simp only [Tree.mk.sizeOf_spec] at inner ⊢
  omega

def withRole (t : Tree) (role : Role) : Tree := { t with role := role }

def finish (t : Tree) : Nat := t.offset + t.text.length

def child? (t : Tree) (role : Role) : Option Tree := t.children.find? (·.role == role)

def parts (t : Tree) : List Tree := t.children.filter fun c => c.kind != .comment && c.kind.isPart

def preorder (t : Tree) : List Tree := t :: (t.children.attach.map fun ⟨c, _⟩ => c.preorder).flatten
termination_by sizeOf t
decreasing_by exact sizeOf_child_lt ‹_›

def find? (t : Tree) (p : Tree → Bool) : Option Tree := t.preorder.find? p

def broken? (t : Tree) : Option Tree := t.find? (·.kind.isBroken)

-- The expression inside wrappers that keep its value. A wrapper gives way to
-- the very first thing in it, even a comment.
def unwrap (t : Tree) : Tree :=
  if t.kind.isWrapper then
    match _found : t.children.find? (·.kind.isPart) with
    | some inner => inner.unwrap
    | none => t
  else t
termination_by sizeOf t
decreasing_by exact sizeOf_child_lt (List.mem_of_find?_eq_some ‹_›)

end Tree

structure Site where
  tree : Tree
  above : List Tree := []
deriving Repr

instance : Inhabited Site := ⟨{ tree := default }⟩

namespace Site

def root (t : Tree) : Site := { tree := t }

def kind (s : Site) : Kind := s.tree.kind
def text (s : Site) : String := s.tree.text
def location (s : Site) : Location := s.tree.location

def down (s : Site) (child : Tree) : Site := { tree := child, above := s.tree :: s.above }

def child? (s : Site) (role : Role) : Option Site := (s.tree.child? role).map s.down
def parts (s : Site) : List Site := s.tree.parts.map s.down

def unwrapTree (above : List Tree) (t : Tree) : Site :=
  if t.kind.isWrapper then
    match _found : t.children.find? (·.kind.isPart) with
    | some inner => unwrapTree (t :: above) inner
    | none => { tree := t, above := above }
  else { tree := t, above := above }
termination_by sizeOf t
decreasing_by exact Tree.sizeOf_child_lt (List.mem_of_find?_eq_some ‹_›)

def unwrap (s : Site) : Site := unwrapTree s.above s.tree

def preorderTree (above : List Tree) (t : Tree) : List Site :=
  { tree := t, above := above } :: (t.children.attach.map fun ⟨c, _⟩ => preorderTree (t :: above) c).flatten
termination_by sizeOf t
decreasing_by exact Tree.sizeOf_child_lt ‹_›

def preorder (s : Site) : List Site := preorderTree s.above s.tree

end Site
end Script
end SchemaAtlas
