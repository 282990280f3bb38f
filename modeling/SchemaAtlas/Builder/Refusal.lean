import SchemaAtlas.Builder.Chain
import SchemaAtlas.Builder.Diagnostic

namespace SchemaAtlas
namespace Builder

open Script

structure Refusal where
  message : String
  location : Option Location := none
deriving DecidableEq, Repr

namespace Refusal

def at_ (message : String) (location : Location) : Refusal := { message := message, location := some location }

def toDiagnostic (r : Refusal) (declaration : String) : Diagnostic :=
  { Diagnostic.of .parseFailure r.message with location := r.location, declaration := some declaration }

end Refusal

abbrev Lowered (α : Type) := Except Refusal α

def refuse (message : String) (location : Location) : Lowered α := .error (.at_ message location)

namespace Call

def quotedName (c : Call) : String := "`" ++ c.name ++ "`"

def refuse (c : Call) (text : String) : Lowered α := Builder.refuse (c.quotedName ++ " " ++ text) c.location

def first (c : Call) : Lowered Argument :=
  match c.argument? 0 with
  | some a => .ok a
  | none => c.refuse "expects an argument"

def firstDouble (c : Call) : Lowered Double := do
  match (← c.first).double? with
  | some x => return x
  | none => c.refuse "expects a numeric literal"

def firstCount (c : Call) : Lowered Nat := do
  match (← c.first).count? with
  | some n => return n
  | none => c.refuse "expects a non-negative integer literal"

def firstText (c : Call) : Lowered String := do
  match (← c.first).text? with
  | some text => return text
  | none => c.refuse "expects a string literal"

end Call
end Builder
end SchemaAtlas
