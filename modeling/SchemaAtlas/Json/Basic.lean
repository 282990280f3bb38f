import SchemaAtlas.Number.Double
import SchemaAtlas.Entries

namespace SchemaAtlas

-- A number is a whole number of 64 bits or a double; `1` and `1.0` differ.
inductive Number where
  | whole (value : Int)
  | double (value : Double)
deriving DecidableEq, Repr, Inhabited

inductive Json where
  | null
  | bool (value : Bool)
  | number (value : Number)
  | string (text : String)
  | array (items : List Json)
  | object (entries : List (String × Json))
deriving Repr, Inhabited

namespace Number

def leastWhole : Int := -(Nat.pow 2 63)
def greatestWhole : Int := Nat.pow 2 64 - 1

-- A whole number of 64 bits, signed or unsigned, stays whole; a wider one
-- becomes the nearest double.
def ofInt (n : Int) : Option Number :=
  if leastWhole ≤ n ∧ n ≤ greatestWhole then some (.whole n)
  else (Double.ofQuotient (n < 0) n.natAbs 1).map .double

def toDouble : Number → Double
  | .whole n => Double.ofInt n
  | .double x => x

def negate? : Number → Option Number
  | .whole n => if n ≤ Nat.pow 2 63 - 1 then ofInt (-n) else some (.double (Double.ofInt n).negate)
  | .double x => some (.double x.negate)

def agrees : Number → Number → Bool
  | .whole m, .whole n => m == n
  | .double x, .double y => x.agrees y
  | _, _ => false

end Number

namespace Json

def ofNat (n : Nat) : Json := .number (.whole n)
def ofStrings (items : List String) : Json := .array (items.map .string)

def get? : Json → String → Option Json
  | .object entries, key => Entries.get? entries key
  | _, _ => none

def asString? : Json → Option String
  | .string s => some s
  | _ => none

def asBool? : Json → Option Bool
  | .bool b => some b
  | _ => none

def asArray? : Json → Option (List Json)
  | .array items => some items
  | _ => none

def asObject? : Json → Option (Entries Json)
  | .object entries => some entries
  | _ => none

def asDouble? : Json → Option Double
  | .number n => some n.toDouble
  | _ => none

-- A count is a whole number from zero up.
def asCount? : Json → Option Nat
  | .number (.whole n) => if 0 ≤ n then some n.toNat else none
  | _ => none

def asWhole? : Json → Option Int
  | .number (.whole n) => if n < Nat.pow 2 63 then some n else none
  | _ => none

mutual

def agrees : Json → Json → Bool
  | .null, .null => true
  | .bool a, .bool b => a == b
  | .number a, .number b => a.agrees b
  | .string a, .string b => a == b
  | .array xs, .array ys => itemsAgree xs ys
  | .object xs, .object ys => xs.length == ys.length && entriesAgree xs ys
  | _, _ => false

def itemsAgree : List Json → List Json → Bool
  | [], [] => true
  | x :: xs, y :: ys => agrees x y && itemsAgree xs ys
  | _, _ => false

def entriesAgree : List (String × Json) → Entries Json → Bool
  | [], _ => true
  | (key, x) :: xs, ys =>
    (match Entries.get? ys key with
      | some y => agrees x y
      | none => false) && entriesAgree xs ys

end

instance : BEq Json := ⟨agrees⟩

end Json
end SchemaAtlas
