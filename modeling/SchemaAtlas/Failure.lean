namespace SchemaAtlas

-- What can go wrong while a document is built or handed on. The wording is in
-- `message` and nowhere else.

inductive Failure where
  | invalidReferenceFormat (reference path : String)
  | unsupportedReferenceTarget (reference expected found path : String)
  | circularComponentReference (chain : List String) (path : String)
  | nestedReferenceNotBundled (reference path : String)
  | unresolvedReference (reference path : String)
  | unknownSchemaShape (path reason : String)
  | recursionLimit (limit : Nat) (path : String)
  | invalidDocument (reason : String)
  | boundaryViolation (reason : String)
deriving DecidableEq, Repr

namespace Failure

def message : Failure → String
  | invalidReferenceFormat reference path => "Invalid reference format '" ++ reference ++ "' at " ++ path
  | unsupportedReferenceTarget reference expected found path =>
    "Reference '" ++ reference ++ "' at " ++ path ++ " points at a " ++ found ++ " component, expected " ++ expected
  | circularComponentReference chain path =>
    "Circular component reference at " ++ path ++ ": " ++ String.intercalate " -> " chain
  | nestedReferenceNotBundled reference path =>
    "Reference '" ++ reference ++ "' at " ++ path ++
      " targets another reference; bundle and dereference the document first"
  | unresolvedReference reference path =>
    "Reference '" ++ reference ++ "' at " ++ path ++ " does not resolve to a component"
  | unknownSchemaShape path reason => "Unknown schema shape at " ++ path ++ ": " ++ reason
  | recursionLimit limit path => "Schema nesting exceeds " ++ toString limit ++ " levels at " ++ path
  | invalidDocument reason => "Invalid document: " ++ reason
  | boundaryViolation reason => "IR boundary violation: " ++ reason

def path? : Failure → Option String
  | invalidReferenceFormat _ path => some path
  | unsupportedReferenceTarget _ _ _ path => some path
  | circularComponentReference _ path => some path
  | nestedReferenceNotBundled _ path => some path
  | unresolvedReference _ path => some path
  | unknownSchemaShape path _ => some path
  | recursionLimit _ path => some path
  | invalidDocument _ => none
  | boundaryViolation _ => none

end Failure
end SchemaAtlas
