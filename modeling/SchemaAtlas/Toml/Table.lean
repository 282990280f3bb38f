import SchemaAtlas.Settings.Setting

namespace SchemaAtlas
namespace Toml

-- A table while a text is read. What a key may still be given depends on how it
-- came to be there.

inductive Origin where
  | header
  | implied
  | dotted
deriving DecidableEq, Repr

inductive Item where
  | value (setting : Setting)
  | table (origin : Origin) (entries : List (String × Item))
  -- The tables of one repeated header, in order.
  | tables (rows : List (List (String × Item)))

abbrev Table := List (String × Item)

-- Gives a dotted key its value. A key has one value; a table with a header of its
-- own takes no keys through a dot.
def assign (value : Setting) : List String → Table → Option Table
  | [], _ => none
  | [key], t => if Entries.contains t key then none else some (t ++ [(key, .value value)])
  | key :: next :: rest, t =>
    match Entries.get? t key with
    | none => (assign value (next :: rest) []).map fun inner => t ++ [(key, .table .dotted inner)]
    | some (.table origin inner) =>
      if origin = .dotted ∨ (origin = .implied ∧ rest ≠ []) then
        (assign value (next :: rest) inner).map fun inner => Entries.insert t key (.table origin inner)
      else none
    | some _ => none

-- Changes the table that a header leads to. Tables on the way are made where they
-- are missing; of a repeated header the last table counts.
def within (change : Table → Option Table) : List String → Table → Option Table
  | [], t => change t
  | key :: rest, t =>
    match Entries.get? t key with
    | none => (within change rest []).map fun inner => t ++ [(key, .table .implied inner)]
    | some (.table origin inner) =>
      (within change rest inner).map fun inner => Entries.insert t key (.table origin inner)
    | some (.tables rows) =>
      (within change rest (rows.getLast?.getD [])).map fun row => Entries.insert t key (.tables (rows.dropLast ++ [row]))
    | some (.value _) => none

def openTable (key : String) (t : Table) : Option Table :=
  match Entries.get? t key with
  | none => some (t ++ [(key, .table .header [])])
  | some (.table .implied inner) => some (Entries.insert t key (.table .header inner))
  | some _ => none

def openRow (key : String) (t : Table) : Option Table :=
  match Entries.get? t key with
  | none => some (t ++ [(key, .tables [[]])])
  | some (.tables rows) => some (Entries.insert t key (.tables (rows ++ [[]])))
  | some _ => none

mutual

def Item.close : Item → Setting
  | .value setting => setting
  | .table _ entries => .table (closeTable entries)
  | .tables rows => .list (closeRows rows)

def closeTable : List (String × Item) → List (String × Setting)
  | [] => []
  | (key, item) :: rest => (key, item.close) :: closeTable rest

def closeRows : List (List (String × Item)) → List Setting
  | [] => []
  | row :: rest => .table (closeTable row) :: closeRows rest

end

end Toml
end SchemaAtlas
