namespace SchemaAtlas

-- Insertion-ordered maps are entry lists. A key that is inserted again keeps its
-- first position and takes the new value; everything else appends.

abbrev Entries (α : Type) := List (String × α)

namespace Entries

def get? (entries : Entries α) (key : String) : Option α := List.lookup key entries

def keys (entries : Entries α) : List String := entries.map Prod.fst
def values (entries : Entries α) : List α := entries.map Prod.snd

def contains (entries : Entries α) (key : String) : Bool := entries.any (·.1 == key)

def insert : Entries α → String → α → Entries α
  | [], key, value => [(key, value)]
  | (k, v) :: rest, key, value => if k = key then (k, value) :: rest else (k, v) :: insert rest key value

def modify (entries : Entries α) (key : String) (f : α → α) : Entries α :=
  entries.map fun (k, v) => if k = key then (k, f v) else (k, v)

def ofList (entries : List (String × α)) : Entries α := entries.foldl (fun all (k, v) => all.insert k v) []

def mapValues (f : α → β) (entries : Entries α) : Entries β := entries.map fun (k, v) => (k, f v)

def Distinct (entries : Entries α) : Prop := entries.keys.Nodup

end Entries

def firstAppearances [BEq α] (items : List α) : List α :=
  items.foldl (fun seen item => if seen.contains item then seen else seen ++ [item]) []

end SchemaAtlas
