import SchemaAtlas.Yaml.Scalar
import SchemaAtlas.Yaml.Text

namespace SchemaAtlas
namespace Yaml

-- Nodes. A reader stops right behind the last token of its node. `fuel` bounds the
-- nodes read one after another, `levels` how many more lists and mappings may open
-- inside one another.

-- A key stands before a colon; in a block a blank has to follow the colon.
def isColon (inFlow : Bool) : List Char → Bool
  | ':' :: rest => inFlow || isBreakOrBlank rest
  | _ => false

def readQuoted (c : Cursor) : Option (String × Cursor) :=
  match c.rest with
  | '\'' :: rest => readSingle (rest.length + 1) [] c.step
  | '"' :: rest => readDouble (rest.length + 1) [] c.step
  | _ => none

def readInline (inFlow : Bool) (c : Cursor) : Option (Bool × String × Cursor) :=
  match c.rest with
  | '\'' :: _ => (readQuoted c).map (true, ·)
  | '"' :: _ => (readQuoted c).map (true, ·)
  | rest =>
    if startsPlain inFlow rest then
      let (line, after) := readLine inFlow c
      some (false, String.ofList line, after)
    else none

def readBlockKey (c : Cursor) : Option (String × Cursor) := do
  let (_, key, after) ← readInline false c
  let gap := after.gap
  if gap.breaks = 0 ∧ isColon false gap.next.rest then some (key, gap.next.step) else none

def isDash : List Char → Bool
  | '-' :: rest => isBreakOrBlank rest
  | _ => false

mutual

def readFlow : Nat → Nat → Cursor → Option (Json × Cursor)
  | 0, _, _ => none
  | fuel + 1, levels, c =>
    match c.rest with
    | '[' :: _ =>
      if levels = 0 then none
      else (readFlowItems fuel (levels - 1) [] c.step).map fun (items, c) => (.array items, c)
    | '\x7b' :: _ =>
      if levels = 0 then none
      else (readFlowEntries fuel (levels - 1) [] c.step).map fun (entries, c) => (.object (Entries.ofList entries), c)
    | '\'' :: _ => (readQuoted c).map fun (s, c) => (.string s, c)
    | '"' :: _ => (readQuoted c).map fun (s, c) => (.string s, c)
    | rest =>
      if startsPlain true rest then
        let (text, after) := readPlain true 0 c
        (plainValue? text).map (·, after)
      else none

def readFlowItems : Nat → Nat → List Json → Cursor → Option (List Json × Cursor)
  | 0, _, _, _ => none
  | fuel + 1, levels, out, c => do
    let c := c.gap.next
    if c.isDone then none
    else match c.rest with
    | ']' :: _ => some (out.reverse, c.step)
    | _ =>
      let (item, after) ← readFlowItem fuel levels c
      let next := after.gap.next
      match next.rest with
      | ',' :: _ => readFlowItems fuel levels (item :: out) next.step
      | ']' :: _ => some ((item :: out).reverse, next.step)
      | _ => none

-- An item of a list between brackets; a single pair is a mapping of its own.
def readFlowItem : Nat → Nat → Cursor → Option (Json × Cursor)
  | 0, _, _ => none
  | fuel + 1, levels, c => do
    match readFlowKey c with
    | some (key, after) =>
      if levels = 0 then none
      else
        let (value, after) ← readFlowValue fuel (levels - 1) after
        some (.object [(key, value)], after)
    | none => readFlow fuel levels c

def readFlowEntries : Nat → Nat → Entries Json → Cursor → Option (Entries Json × Cursor)
  | 0, _, _, _ => none
  | fuel + 1, levels, out, c => do
    let c := c.gap.next
    if c.isDone then none
    else match c.rest with
    | '\x7d' :: _ => some (out.reverse, c.step)
    | _ =>
      let (entry, after) ← match readFlowKey c with
        | some (key, after) => (readFlowValue fuel levels after).map fun (value, after) => ((key, value), after)
        | none => (readScalarKey c).map fun (key, after) => ((key, Json.null), after)
      let next := after.gap.next
      match next.rest with
      | ',' :: _ => readFlowEntries fuel levels (entry :: out) next.step
      | '\x7d' :: _ => some ((entry :: out).reverse, next.step)
      | _ => none

-- What follows a colon between brackets; nothing there is null.
def readFlowValue : Nat → Nat → Cursor → Option (Json × Cursor)
  | 0, _, _ => none
  | fuel + 1, levels, c =>
    let next := c.gap.next
    match next.rest with
    | ',' :: _ => some (.null, c)
    | ']' :: _ => some (.null, c)
    | '\x7d' :: _ => some (.null, c)
    | _ => if next.isDone then none else readFlow fuel levels next

def readScalarKey (c : Cursor) : Option (String × Cursor) :=
  match c.rest with
  | '\'' :: _ => readQuoted c
  | '"' :: _ => readQuoted c
  | rest => if startsPlain true rest then some (readPlain true 0 c) else none

def readFlowKey (c : Cursor) : Option (String × Cursor) := do
  let (key, after) ← readScalarKey c
  let next := after.gap.next
  if isColon true next.rest then some (key, next.step) else none

end

mutual

-- A node of a block, after what stands before it. It has to stand at `least` or
-- further in, a list at `listLeast`. Lists and mappings need a line of their own
-- unless they are `compact`. No tab may indent a line.
def readNode : Nat → Nat → Nat → Nat → Bool → Cursor → Option (Json × Cursor)
  | 0, _, _, _, _, _ => none
  | fuel + 1, levels, least, listLeast, compact, c =>
    let gap := c.gap
    let start := gap.next
    let opens := compact || gap.breaks > 0
    let nested := isDash start.rest && opens && listLeast ≤ start.column
    if gap.tabbed && opens then none
    else if start.isDone ∨ (gap.breaks > 0 ∧ start.column < least ∧ ¬ nested) then some (.null, c)
    else if isDash start.rest then
      if ¬ nested ∨ levels = 0 then none
      else (readItems fuel (levels - 1) start.column [] start).map fun (items, c) => (.array items, c)
    else match readBlockKey start with
    | some _ =>
      if ¬ opens ∨ levels = 0 then none
      else (readEntries fuel (levels - 1) start.column [] start).map fun (entries, c) =>
        (.object (Entries.ofList entries), c)
    | none =>
      match start.rest with
      | '|' :: _ => (readBlock false least start.step).map fun (s, c) => (.string s, c)
      | '>' :: _ => (readBlock true least start.step).map fun (s, c) => (.string s, c)
      | '\'' :: _ => (readQuoted start).map fun (s, c) => (.string s, c)
      | '"' :: _ => (readQuoted start).map fun (s, c) => (.string s, c)
      | '[' :: rest => readFlow (2 * rest.length + 4) levels start
      | '\x7b' :: rest => readFlow (2 * rest.length + 4) levels start
      | rest =>
        if startsPlain false rest then
          let (text, after) := readPlain false least start
          if isColon false after.gap.next.rest then none else (plainValue? text).map (·, after)
        else none

def readItems : Nat → Nat → Nat → List Json → Cursor → Option (List Json × Cursor)
  | 0, _, _, _, _ => none
  | fuel + 1, levels, column, out, c => do
    let (item, after) ← readNode fuel levels (column + 1) (column + 1) true c.step
    let gap := after.gap
    let out := item :: out
    if gap.next.isDone ∨ gap.next.column < column then some (out.reverse, after)
    else if gap.breaks = 0 ∨ gap.tabbed ∨ gap.next.column ≠ column then none
    else if isDash gap.next.rest then readItems fuel levels column out gap.next
    else some (out.reverse, after)

def readEntries : Nat → Nat → Nat → Entries Json → Cursor → Option (Entries Json × Cursor)
  | 0, _, _, _, _ => none
  | fuel + 1, levels, column, out, c => do
    let (key, behind) ← readBlockKey c
    let (value, after) ← readNode fuel levels (column + 1) column false behind
    let gap := after.gap
    let out := (key, value) :: out
    if gap.next.isDone ∨ (gap.breaks > 0 ∧ gap.next.column < column) then some (out.reverse, after)
    else if gap.breaks = 0 ∨ gap.tabbed ∨ gap.next.column ≠ column then none
    else readEntries fuel levels column out gap.next

end

def normalized : List Char → List Char
  | [] => []
  | '\r' :: '\n' :: rest => '\n' :: normalized rest
  | '\r' :: rest => '\n' :: normalized rest
  | c :: rest => c :: normalized rest

def documentStart (c : Cursor) : Cursor :=
  let next := c.gap.next
  if next.isMarker ∧ next.rest.head? = some '-' then next.skip 3 else c

-- Only the marker that ends a document may follow it.
def endsDocument (c : Cursor) : Bool :=
  let next := c.gap.next
  next.isAtEnd || (next.isMarker && next.rest.head? = some '.' && (next.skip 3).gap.next.isAtEnd)

def read? (levels : Nat) (text : String) : Option Json := do
  let cs := normalized (if text.toList.head? = some (Char.ofNat 0xFEFF) then text.toList.drop 1 else text.toList)
  let start := documentStart ⟨cs, 0⟩
  let (value, after) ← readNode (4 * cs.length + 4) levels 0 0 true start
  if endsDocument after then some value else none

end Yaml
end SchemaAtlas
