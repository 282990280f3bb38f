import SchemaAtlas.Script.Tree

namespace SchemaAtlas
namespace Script

namespace Tree

theorem mem_of_child? {t child : Tree} {role : Role} (found : t.child? role = some child) : child ∈ t.children :=
  List.mem_of_find?_eq_some found

theorem sizeOf_role_lt {t child : Tree} {role : Role} (found : t.child? role = some child) :
    sizeOf child < sizeOf t := sizeOf_child_lt (mem_of_child? found)

theorem mem_children_of_parts {t child : Tree} (inside : child ∈ t.parts) : child ∈ t.children :=
  (List.mem_filter.mp inside).1

def binds (name : String) (t : Tree) : Bool :=
  let inRole (role : Role) : Bool :=
    match _found : t.child? role with
    | some inner => inner.binds name
    | none => false
  match t.kind with
  | .identifier | .shorthandPattern => t.text == name
  | .requiredParameter | .optionalParameter => inRole .pattern
  | .pairPattern => inRole .value
  | .assignmentPattern | .objectAssignmentPattern => inRole .left
  | .declarator => inRole .name
  | .formalParameters | .objectPattern | .arrayPattern | .restPattern | .lexicalDeclaration | .variableDeclaration =>
    t.parts.attach.any fun ⟨part, _⟩ => part.binds name
  | _ => false
termination_by sizeOf t
decreasing_by
  · exact sizeOf_role_lt ‹_›
  · exact sizeOf_child_lt (mem_children_of_parts ‹_›)

def declares (name : String) (t : Tree) : Bool :=
  match t.kind with
  | .lexicalDeclaration | .variableDeclaration =>
    t.parts.any fun part => part.kind == .declarator && (part.child? .name).any (·.binds name)
  | .functionDeclaration | .generatorDeclaration | .classDeclaration | .abstractClassDeclaration | .enumDeclaration =>
    (t.child? .name).any (·.text == name)
  | .exportStatement =>
    match _found : t.child? .declaration with
    | some inner => inner.declares name
    | none => false
  | _ => false
termination_by sizeOf t
decreasing_by exact sizeOf_role_lt ‹_›

def rebinds (name : String) (t : Tree) : Bool :=
  match t.kind with
  | .arrowFunction | .functionDeclaration | .functionExpression | .generatorFunction | .generatorDeclaration | .method =>
    (t.child? .parameters).any (·.binds name) || (t.child? .parameter).any (·.binds name)
  | .catchClause => (t.child? .parameter).any (·.binds name)
  | .forStatement => (t.child? .initializer).any (·.declares name)
  | .forInStatement => (t.child? .left).any (·.binds name)
  | .statementBlock | .program | .classBody | .switchBody => t.parts.any (·.declares name)
  | _ => false

end Tree

namespace Site

def isShadowed (s : Site) (name : String) : Bool := s.above.any (·.rebinds name)

def identifiers (s : Site) : List Site := s.preorder.filter (·.kind == .identifier)

theorem sizeOf_child?_lt {s child : Site} {role : Role} (found : s.child? role = some child) :
    sizeOf child.tree < sizeOf s.tree := by
  obtain ⟨tree, got, rfl⟩ := Option.map_eq_some_iff.mp found
  exact Tree.sizeOf_role_lt got

theorem sizeOf_unwrapTree_le (above : List Tree) (t : Tree) : sizeOf (unwrapTree above t).tree ≤ sizeOf t := by
  induction above, t using unwrapTree.induct with
  | case1 above t wrapper inner found ih =>
    have below := Tree.sizeOf_child_lt (List.mem_of_find?_eq_some found)
    unfold unwrapTree
    simp only [wrapper, if_true]
    split
    · rename_i other got
      cases Option.some.inj (found.symm.trans got)
      omega
    · simp
  | case2 above t wrapper none =>
    unfold unwrapTree
    simp only [wrapper, if_true]
    split
    · rename_i got
      cases none.symm.trans got
    · simp
  | case3 above t plain =>
    unfold unwrapTree
    simp [plain]

theorem sizeOf_unwrap_le (s : Site) : sizeOf s.unwrap.tree ≤ sizeOf s.tree := sizeOf_unwrapTree_le _ _

end Site
end Script
end SchemaAtlas
