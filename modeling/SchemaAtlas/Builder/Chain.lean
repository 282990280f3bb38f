import SchemaAtlas.Builder.Bindings

namespace SchemaAtlas
namespace Builder

open Script

-- A chain of calls stands inside out in the tree: the last call is the outermost
-- one. Read from the outside in, it gives its root and the calls in order.

structure Argument where
  site : Site
  value : Option Json
deriving Repr, Inhabited

namespace Argument

def text? (a : Argument) : Option String := a.value.bind Json.asString?
def double? (a : Argument) : Option Double := a.value.bind Json.asDouble?
def count? (a : Argument) : Option Nat := a.value.bind Json.asCount?

end Argument

structure Call where
  name : String
  arguments : List Argument
  location : Location
deriving Repr

namespace Call

def argument? (c : Call) (index : Nat) : Option Argument := c.arguments[index]?

def ofTree (name : Site) (call : Site) : Call :=
  let arguments := match call.child? .arguments with
    | some list => list.parts.map fun site => { site := site, value := site.tree.literal? }
    | none => []
  { name := name.text, arguments := arguments, location := name.location }

end Call

inductive Root where
  | builder (base : Call) (coerce : Bool)
  | identifier (site : Site)
deriving Repr

structure Chain where
  root : Root
  calls : List Call
deriving Repr

namespace Chain

def isBuilder (c : Chain) : Bool :=
  match c.root with
  | .builder .. => true
  | .identifier _ => false

def rootName? (c : Chain) : Option String :=
  match c.root with
  | .identifier site => some site.text
  | .builder .. => none

def base? (c : Chain) : Option Call :=
  match c.root with
  | .builder base _ => some base
  | .identifier _ => none

def coerces (c : Chain) : Bool :=
  match c.root with
  | .builder _ coerce => coerce
  | .identifier _ => false

def hasCall (c : Chain) (name : String) : Bool := c.calls.any (·.name == name)

end Chain

namespace Bindings

def isNamespace (b : Bindings) (s : Site) : Bool := s.kind == .identifier && b.resolve s == some .namespace

-- The builder itself, or its member for coercion; says which of the two.
def namespaceRoot? (b : Bindings) (s : Site) : Option Bool :=
  if b.isNamespace s then some false
  else if s.kind == .member then
    match s.child? .property, s.child? .object with
    | some property, some object =>
      if property.text == "coerce" && b.isNamespace object.unwrap then some true else none
    | _, _ => none
  else none

def chainBefore (b : Bindings) (calls : List Call) (s : Site) : Option Chain :=
  match s.kind with
  | .call =>
    match _found : s.child? .function with
    | none => none
    | some function =>
      match function.unwrap.kind with
      | .member =>
        match _inner : function.unwrap.child? .object, function.unwrap.child? .property with
        | some object, some property =>
          let call := Call.ofTree property s
          match b.namespaceRoot? object.unwrap with
          | some coerce => some { root := .builder call coerce, calls := calls }
          | none => b.chainBefore (call :: calls) object.unwrap
        | _, _ => none
      | .identifier =>
        match b.resolve function.unwrap with
        | some (.factory name) =>
          let call := { Call.ofTree function.unwrap s with name := name }
          some { root := .builder call false, calls := calls }
        | _ => none
      | _ => none
  | .identifier => if (b.resolve s).isSome then none else some { root := .identifier s, calls := calls }
  | _ => none
termination_by sizeOf s.tree
decreasing_by
  have first := Site.sizeOf_child?_lt ‹s.child? .function = some function›
  have second := Site.sizeOf_child?_lt ‹function.unwrap.child? .object = some object›
  have third := Site.sizeOf_unwrap_le function
  have fourth := Site.sizeOf_unwrap_le object
  omega

def chain? (b : Bindings) (s : Site) : Option Chain := b.chainBefore [] s.unwrap

end Bindings
end Builder
end SchemaAtlas
