import SchemaAtlas.Number.Shortest
import SchemaAtlas.Json.Basic

namespace SchemaAtlas
namespace Json

def hexDigit (n : Nat) : Char := (Nat.digitChar n)

-- Quotes, backslashes and control characters are escaped; all else is raw.
def escaped (c : Char) : List Char :=
  if c = '"' then ['\\', '"']
  else if c = '\\' then ['\\', '\\']
  else if c = '\n' then ['\\', 'n']
  else if c = '\r' then ['\\', 'r']
  else if c = '\t' then ['\\', 't']
  else if c.toNat = 8 then ['\\', 'b']
  else if c.toNat = 12 then ['\\', 'f']
  else if c.toNat < 32 then ['\\', 'u', '0', '0', hexDigit (c.toNat / 16), hexDigit (c.toNat % 16)]
  else [c]

def quoted (s : String) : String := String.ofList ('"' :: s.toList.flatMap escaped ++ ['"'])

def numberText : Number → String
  | .whole n => toString n
  | .double x => x.jsonText

-- Both printers write onto what is already there, so a text is built once from
-- left to right.

mutual

-- The text without spaces, written onto `out`.
def compactOnto (out : String) : Json → String
  | .null => out ++ "null"
  | .bool b => out ++ (if b then "true" else "false")
  | .number n => out ++ numberText n
  | .string s => out ++ quoted s
  | .array items => compactItems (out ++ "[") items ++ "]"
  | .object entries => compactEntries (out ++ "\x7b") entries ++ "\x7d"

def compactItems (out : String) : List Json → String
  | [] => out
  | [item] => compactOnto out item
  | item :: rest => compactItems (compactOnto out item ++ ",") rest

def compactEntries (out : String) : List (String × Json) → String
  | [] => out
  | [(key, value)] => compactOnto (out ++ quoted key ++ ":") value
  | (key, value) :: rest => compactEntries (compactOnto (out ++ quoted key ++ ":") value ++ ",") rest

end

def compact (value : Json) : String := compactOnto "" value

def indentation (level : Nat) : String := String.ofList (List.replicate (2 * level) ' ')

mutual

def prettyOnto (out : String) (level : Nat) : Json → String
  | .null => out ++ "null"
  | .bool b => out ++ (if b then "true" else "false")
  | .number n => out ++ numberText n
  | .string s => out ++ quoted s
  | .array [] => out ++ "[]"
  | .object [] => out ++ "\x7b\x7d"
  | .array (item :: rest) =>
    prettyItems (out ++ "[\n") (level + 1) (item :: rest) ++ "\n" ++ indentation level ++ "]"
  | .object (entry :: rest) =>
    prettyEntries (out ++ "\x7b\n") (level + 1) (entry :: rest) ++ "\n" ++ indentation level ++ "\x7d"

def prettyItems (out : String) (level : Nat) : List Json → String
  | [] => out
  | [item] => prettyOnto (out ++ indentation level) level item
  | item :: rest => prettyItems (prettyOnto (out ++ indentation level) level item ++ ",\n") level rest

def prettyEntries (out : String) (level : Nat) : List (String × Json) → String
  | [] => out
  | [(key, value)] => prettyOnto (out ++ indentation level ++ quoted key ++ ": ") level value
  | (key, value) :: rest =>
    prettyEntries (prettyOnto (out ++ indentation level ++ quoted key ++ ": ") level value ++ ",\n") level rest

end

def pretty (value : Json) : String := prettyOnto "" 0 value

end Json
end SchemaAtlas
