import SchemaAtlas.Text.Lowercase

namespace SchemaAtlas
namespace Builder

-- The declared name that comes closest to a name. A name matches when it holds the
-- wanted letters in order; letters side by side and letters that begin a word score.

-- A cell of the score table: the best score with a match here, the best score
-- with a gap here, and the bonus of the run that ends here.
structure Cell where
  matched : Int := -32768
  gap : Int := -32768
  bonus : Int := 0
deriving DecidableEq, Repr

def Cell.fresh : Cell := {}

abbrev Table := Array Cell

namespace Table

def cell (t : Table) (index : Nat) : Cell := (t[index]?).getD .fresh

-- Cut or filled up with fresh cells; what is there stays.
def resize (t : Table) (size : Nat) : Table :=
  if t.size < size then t ++ Array.replicate (size - t.size) .fresh else t.take size

def put (t : Table) (index : Nat) (c : Cell) : Table := t.setIfInBounds index c

end Table

def isHardBreak (c : Char) : Bool := " /\\|()[]\x7b\x7d".toList.contains c

def isSoftBreak (c : Char) : Bool :=
  ('!' ≤ c && c ≤ '\'') || ('*' ≤ c && c ≤ '.') || (':' ≤ c && c ≤ '@') || ('^' ≤ c && c ≤ '`') || c == '~'

def breakBonus : Option Char → Int
  | none => 8
  | some c => if isHardBreak c then 8 else if isSoftBreak c then 7 else 0

-- The bonus of every letter by its place; the first one counts twice.
def bonuses (name : List Char) : List Int :=
  (none :: name.map some).take name.length |>.mapIdx fun i before =>
    if i = 0 then 2 * breakBonus before else breakBonus before

def firstPlaces (place : Nat) : List Char → List Char → Option (List Nat)
  | [], _ => some []
  | _ :: _, [] => none
  | w :: wanted, c :: rest =>
    if w = c then (firstPlaces (place + 1) wanted rest).map (place :: ·) else firstPlaces (place + 1) (w :: wanted) rest

def fillCell (wanted : Char) (row above : Nat) (t : Table) (column : Nat × Char × Int) : Table :=
  let (index, letter, bonus) := column
  let last := t.cell (row + index - 1)
  let before := t.cell (above + index - 1)
  let here := t.cell (row + index)
  let gap := max (last.matched - 4) (last.gap - 1)
  if letter = wanted then
    let run := max (max last.bonus bonus) 4
    let score := max (before.matched + run) (before.gap + bonus) + 16
    (t.put (row + index - 1) { last with bonus := run }).put (row + index) { here with matched := score, gap := gap }
  else t.put (row + index) { matched := -32768, gap := gap, bonus := 0 }

def fillRow (width : Nat) (columns : List (Nat × Char × Int)) (t : Table) (entry : Nat × Char × Nat) : Table :=
  let (index, wanted, first) := entry
  (columns.drop first).foldl (fillCell wanted ((index + 1) % 2 * width) (index % 2 * width)) t

def freshTable (t : Table) (width first : Nat) : Table :=
  let t := (t.resize (2 * width)).put (width + first) .fresh
  (List.range width).foldl (fun t j => t.put j { gap := -1 }) t

-- The score of a name, `none` where it does not match. The table goes from one
-- name to the next, with what the last one left in it.
def score (t : Table) (wanted name : List Char) : Option Int × Table :=
  match firstPlaces 0 wanted name with
  | none => (none, t)
  | some places =>
    let width := name.length + 1
    let columns := (name.zip (bonuses name)).mapIdx fun i (letter, bonus) => (i + 1, letter, bonus)
    let rows := (wanted.zip places).mapIdx fun i (letter, first) => (i, letter, first)
    let t := rows.foldl (fillRow width columns) (freshTable t width (places.headD 0))
    let row := wanted.length % 2 * width
    let last := places.getLastD 0
    let scores := (List.range (width - last)).map fun i => (t.cell (row + last + i)).matched
    (some (scores.foldl max (-32768)), t)

structure Best where
  table : Table := #[]
  name : Option (Int × String) := none

-- Of equal scores the later one stays.
def Best.offer (wanted : List Char) (best : Best) (name : String) : Best :=
  match score best.table wanted (Text.lower name) with
  | (none, t) => { best with table := t }
  | (some points, t) =>
    let better := best.name.all fun (other, _) => other ≤ points
    { table := t, name := if better then some (points, name) else best.name }

def closestName? (wanted : String) (names : List String) : Option String :=
  (names.foldl (Best.offer (Text.lower wanted)) {}).name.map Prod.snd

end Builder
end SchemaAtlas
