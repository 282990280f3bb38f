import SchemaAtlas.Json.Basic

namespace SchemaAtlas

inductive SchemaType where
  | string | number | integer | boolean | object | array | null
deriving DecidableEq, Repr

namespace SchemaType

def all : List SchemaType := [.string, .number, .integer, .boolean, .object, .array, .null]

def name : SchemaType → String
  | .string => "string"
  | .number => "number"
  | .integer => "integer"
  | .boolean => "boolean"
  | .object => "object"
  | .array => "array"
  | .null => "null"

def ofName? (text : String) : Option SchemaType := all.find? (·.name == text)

-- The type of a literal; a whole number is an integer.
def ofValue : Json → SchemaType
  | .null => .null
  | .bool _ => .boolean
  | .number (.whole _) => .integer
  | .number (.double _) => .number
  | .string _ => .string
  | .array _ => .array
  | .object _ => .object

def isNumeric : SchemaType → Bool
  | .number | .integer => true
  | _ => false

end SchemaType

inductive Presence where
  | required | optional | nullable | nullish
deriving DecidableEq, Repr, Inhabited

namespace Presence

def all : List Presence := [.required, .optional, .nullable, .nullish]

def name : Presence → String
  | .required => "required"
  | .optional => "optional"
  | .nullable => "nullable"
  | .nullish => "nullish"

def ofName? (text : String) : Option Presence := all.find? (·.name == text)

def ofFlags : Bool → Bool → Presence
  | false, false => .required
  | true, false => .optional
  | false, true => .nullable
  | true, true => .nullish

def isOptional : Presence → Bool
  | .optional | .nullish => true
  | _ => false

def isNullable : Presence → Bool
  | .nullable | .nullish => true
  | _ => false

end Presence
end SchemaAtlas
