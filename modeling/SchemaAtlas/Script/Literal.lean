import SchemaAtlas.Json.Basic
import SchemaAtlas.Number.Numeral
import SchemaAtlas.Script.Tree
import SchemaAtlas.Settings.Basic

namespace SchemaAtlas
namespace Script

-- Values that are known without running the script.

-- What an escape sequence stands for. Four of them are decoded; any other loses
-- its leading backslashes.
def unescape (text : String) : String :=
  match text.toList with
  | ['\\', 'n'] => "\n"
  | ['\\', 't'] => "\t"
  | ['\\', 'r'] => "\r"
  | ['\\', '0'] => String.ofList [Char.ofNat 0]
  | cs => String.ofList (cs.dropWhile (· == '\\'))

def Tree.stringValue (t : Tree) : String :=
  String.join (t.parts.map fun piece =>
    match piece.kind with
    | .stringFragment => piece.text
    | .escapeSequence => unescape piece.text
    | _ => "")

-- The content of a template: its text without the quotes at either end.
def templateContent (text : String) : String :=
  let open_ := text.toList.dropWhile (· == '`')
  String.ofList (open_.reverse.dropWhile (· == '`')).reverse

-- A whole number below `2 ^ 63`.
def wholeIn? (base : Nat) (cs : List Char) : Option Number :=
  (Numeral.natural? base cs).bind fun n => if n < Nat.pow 2 63 then some (.whole n) else none

def decimalOf? (cs : List Char) : Option Number := do
  let (digits, exponent) ← Numeral.decimal? cs
  (Double.ofDecimal false digits exponent).map .double

-- The value of a number literal. Underscores do not count; a base that is not
-- ten, and a number without point and exponent, give a whole number.
def numberOf? (text : String) : Option Number :=
  let cs := (text.toList.filter (· != '_')).map Char.toLower
  match cs with
  | '0' :: 'x' :: digits => wholeIn? 16 digits
  | '0' :: 'b' :: digits => wholeIn? 2 digits
  | '0' :: 'o' :: digits => wholeIn? 8 digits
  | _ => (wholeIn? 10 cs).or (decimalOf? cs)

def Tree.key? (t : Tree) : Option String :=
  match t.kind with
  | .propertyIdentifier | .identifier | .number => some t.text
  | .string => some t.stringValue
  | _ => none

def signed? (operator : String) (value : Json) : Option Json :=
  match operator, value with
  | "-", .number n => n.negate?.map .number
  | "+", .number n => some (.number n)
  | _, _ => none

def pairValue? (value? : Tree → Option Json) (member : Tree) : Option (String × Json) := do
  if member.kind != .pair then none
  else
    let name ← (← member.child? .key).key?
    let value ← value? (← member.child? .value)
    return (name, value)

def valueOver (value? : Tree → Option Json) (t : Tree) : Option Json :=
  match t.kind with
  | .string => some (.string t.stringValue)
  | .templateString =>
    if t.parts.any (·.kind == .templateSubstitution) then none else some (.string (templateContent t.text))
  | .number => (numberOf? t.text).map .number
  | .true => some (.bool true)
  | .false => some (.bool false)
  | .null => some .null
  | .unary operator => (t.child? .argument).bind fun inner => (value? inner).bind (signed? operator)
  | .array => (t.parts.mapM value?).map .array
  | .object => (t.parts.mapM (pairValue? value?)).map fun entries => .object (Entries.ofList entries)
  | _ => none

def valueWithin : Nat → Tree → Option Json
  | 0, _ => none
  | levels + 1, t => valueOver (valueWithin levels) t.unwrap

-- The value of a literal expression, `none` where it is not known or nests too
-- deep.
def Tree.literal? (t : Tree) : Option Json := valueWithin (defaultMaxDepth + 1) t

end Script
end SchemaAtlas
