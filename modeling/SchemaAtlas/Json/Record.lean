import SchemaAtlas.Json.Basic

namespace SchemaAtlas
namespace Json

-- Records as JSON. Written: a list of fields, absent ones left out. Read: fields
-- by key, or by position when the record stands as an array.

mutual

def depth : Json → Nat
  | .array items => depthOfItems items + 1
  | .object entries => depthOfEntries entries + 1
  | _ => 0

def depthOfItems : List Json → Nat
  | [] => 0
  | item :: rest => max (depth item) (depthOfItems rest)

def depthOfEntries : List (String × Json) → Nat
  | [] => 0
  | (_, value) :: rest => max (depth value) (depthOfEntries rest)

end

def field (key : String) (value : Json) : Entries Json := [(key, value)]

def fieldOf (key : String) (write : α → Json) : Option α → Entries Json
  | some value => [(key, write value)]
  | none => []

-- A flag is written only when it is set.
def flagField (key : String) (flag : Bool) : Entries Json := if flag then [(key, .bool true)] else []

def listOf (write : α → Json) (items : List α) : Json := .array (items.map write)
def mapOf (write : α → Json) (entries : Entries α) : Json := .object (entries.mapValues write)

abbrev Fields := String → Option Json

def fields? (keys : List String) : Json → Option Fields
  | .object entries => some (Entries.get? entries)
  | .array items => if items.length ≤ keys.length then some fun key => (keys.zip items).lookup key else none
  | _ => none

-- The field has to be there.
def Fields.required? (fields : Fields) (key : String) (read : Json → Option α) : Option α := (fields key).bind read

def Fields.optional? (fields : Fields) (key : String) (read : Json → Option α) : Option (Option α) :=
  match fields key with
  | none => some none
  | some .null => some none
  | some value => (read value).map some

-- The field may be absent; null is a value like any other.
def Fields.default? (fields : Fields) (key : String) (read : Json → Option α) (standing : α) : Option α :=
  match fields key with
  | none => some standing
  | some value => read value

def readAny (value : Json) : Option Json := some value

def readList (read : Json → Option α) : Json → Option (List α)
  | .array items => items.mapM read
  | _ => none

def readMap (read : Json → Option α) : Json → Option (Entries α)
  | .object entries => entries.mapM fun (key, value) => (read value).map fun v => (key, v)
  | _ => none

def readName (ofName? : String → Option α) : Json → Option α
  | .string s => ofName? s
  | .object [(s, .null)] => ofName? s
  | _ => none

end Json
end SchemaAtlas
