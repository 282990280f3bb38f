import SchemaAtlas.Json.Basic

namespace SchemaAtlas
namespace Pointer

def escapeChars : List Char → List Char
  | [] => []
  | '~' :: rest => '~' :: '0' :: escapeChars rest
  | '/' :: rest => '~' :: '1' :: escapeChars rest
  | c :: rest => c :: escapeChars rest

-- A tilde that stands before neither `0` nor `1` stays as it is.
def unescapeChars : List Char → List Char
  | [] => []
  | '~' :: '1' :: rest => '/' :: unescapeChars rest
  | '~' :: '0' :: rest => '~' :: unescapeChars rest
  | c :: rest => c :: unescapeChars rest

def escape (token : String) : String := String.ofList (escapeChars token.toList)
def unescape (token : String) : String := String.ofList (unescapeChars token.toList)

-- The text between slashes; there is always at least one piece.
def splitChars (separator : Char) : List Char → List (List Char)
  | [] => [[]]
  | c :: rest =>
    match splitChars separator rest with
    | [] => [[]]
    | piece :: pieces => if c = separator then [] :: piece :: pieces else (c :: piece) :: pieces

def split (separator : Char) (text : String) : List String :=
  (splitChars separator text.toList).map String.ofList

def render (tokens : List String) : String := String.join (tokens.map fun token => "/" ++ escape token)

def read? (text : String) : Option (List String) :=
  match text.toList with
  | [] => some []
  | '/' :: rest => some ((splitChars '/' rest).map fun piece => unescape (String.ofList piece))
  | _ => none

-- An array position is written without sign and without leading zeros.
def index? (token : String) : Option Nat :=
  let digits := token.toList
  if digits = [] || !(digits.all fun c => '0' ≤ c && c ≤ '9') then none
  else if digits.head? = some '0' ∧ digits.length > 1 then none
  else some (digits.foldl (fun n c => n * 10 + (c.toNat - 48)) 0)

def step? (value : Json) (token : String) : Option Json :=
  match value with
  | .object entries => Entries.get? entries token
  | .array items => (index? token).bind fun i => items[i]?
  | _ => none

def find? : Json → List String → Option Json
  | value, [] => some value
  | value, token :: tokens => (step? value token).bind fun inner => find? inner tokens

def lookup? (root : Json) (pointer : String) : Option Json := (read? pointer).bind (find? root)

end Pointer
end SchemaAtlas
