import SchemaAtlas.OpenApi.Place

namespace SchemaAtlas
namespace OpenApi

abbrev Members := Entries Json

namespace Members

def text? (m : Members) (key : String) : Option String := (m.get? key).bind Json.asString?
def flag? (m : Members) (key : String) : Option Bool := (m.get? key).bind Json.asBool?

def flag (m : Members) (key : String) : Bool := (m.flag? key).getD false

-- The texts of a list; all else in it is skipped.
def texts (m : Members) (key : String) : List String :=
  match m.get? key with
  | some (.array items) => items.filterMap Json.asString?
  | _ => []

-- What stands under a key goes through `read`; nothing stays nothing.
def at? (m : Members) (key : String) (read : Json → Except Failure α) : Except Failure (Option α) :=
  match m.get? key with
  | none => .ok none
  | some value => (read value).map some

end Members

namespace Place

def objectOr (p : Place) (reason : String) (value : Json) : Except Failure Members :=
  match value.asObject? with
  | some members => .ok members
  | none => .error (p.shapeError reason)

def arrayOr (p : Place) (reason : String) (value : Json) : Except Failure (List Json) :=
  match value.asArray? with
  | some items => .ok items
  | none => .error (p.shapeError reason)

end Place

def numbered (items : List α) : List (String × α) := items.mapIdx fun index item => (toString index, item)

def readEntries (read : String → Json → Except Failure α) (entries : Entries Json) : Except Failure (Entries α) :=
  entries.mapM fun (key, value) => (read key value).map (key, ·)

end OpenApi
end SchemaAtlas
