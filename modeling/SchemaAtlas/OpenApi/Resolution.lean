import SchemaAtlas.OpenApi.Place
import SchemaAtlas.Schema.Reference

namespace SchemaAtlas

namespace Json

mutual

def referenceTexts : Json → List String
  | .array items => referenceTextsOfItems items
  | .object entries => referenceTextsOfEntries entries
  | _ => []

def referenceTextsOfItems : List Json → List String
  | [] => []
  | item :: rest => referenceTexts item ++ referenceTextsOfItems rest

def referenceTextsOfEntries : List (String × Json) → List String
  | [] => []
  | (key, value) :: rest =>
    (if key = "$ref" then value.asString?.toList else []) ++ referenceTexts value ++ referenceTextsOfEntries rest

end
end Json

namespace OpenApi

-- What a reference stands for: a component with its definition, or one that
-- was lifted in from elsewhere and is kept as a leaf.
inductive Resolved where
  | component (reference : ComponentRef) (target : Json)
  | lifted (reference : ComponentRef)
deriving Repr

def referenceOf (p : Place) (value : Json) : Except Failure (Option String) :=
  match value.get? "$ref" with
  | none => .ok none
  | some (.string text) => .ok (some text)
  | some _ => .error (p.shapeError "$ref must be a string")

def classify (p : Place) (text : String) : Except Failure ComponentRef :=
  match ComponentRef.ofText? text with
  | some reference => .ok reference
  | none => .error (.invalidReferenceFormat text p.path)

def target? (p : Place) (reference : ComponentRef) : Option Json := Pointer.lookup? p.root reference.pointer

-- The value that stands under `$ref` in the target of a reference of this
-- document.
def next? (p : Place) (text : String) : Option Json := do
  let reference ← ComponentRef.ofText? text
  if reference.isExternal then none else (← target? p reference).get? "$ref"

-- Follows references from a target that is one itself. Coming back to a text
-- that is already on the chain is a circle; any other end is mere nesting. Each
-- step takes a new `$ref` of the root, so `steps` is at most their number.
def followChain (p : Place) (first : String) : Nat → List String → Json → Failure
  | 0, _, _ => .nestedReferenceNotBundled first p.path
  | steps + 1, chain, current =>
    match current.asString? with
    | none => .nestedReferenceNotBundled first p.path
    | some text =>
      if chain.contains text then .circularComponentReference (chain ++ [text]) p.path
      else match next? p text with
        | some following => followChain p first steps (chain ++ [text]) following
        | none => .nestedReferenceNotBundled first p.path

-- Resolves a reference that has to point at a component of one kind. The target
-- has to exist and must not be a reference itself.
def resolve (p : Place) (text : String) (kind : Section) : Except Failure Resolved := do
  let reference ← classify p text
  if reference.kind ≠ kind then
    throw (.unsupportedReferenceTarget text kind.memberName reference.kind.memberName p.path)
  if reference.isExternal then return .lifted reference
  match target? p reference with
  | none => throw (.unresolvedReference text p.path)
  | some target =>
    match target.get? "$ref" with
    | some next => throw (followChain p text (p.root.referenceTexts.length + 2) [text] next)
    | none => return .component reference target

-- Resolves a reference to a definition of this document: all but schemas have
-- to be found there.
def resolveHere (p : Place) (text : String) (kind : Section) : Except Failure (String × Json) := do
  match ← resolve p text kind with
  | .component reference target => return (reference.name, target)
  | .lifted _ => throw (.unresolvedReference text p.path)

end OpenApi
end SchemaAtlas
