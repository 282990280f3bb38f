namespace SchemaAtlas
namespace Script

-- What a tree of a script stands for. Shapes that no analysis tells apart are
-- `other` under their label.
inductive Kind where
  | program | comment | error
  | missing (label : String)
  | identifier | propertyIdentifier | shorthandProperty | shorthandPattern
  | string | stringFragment | escapeSequence | templateString | templateSubstitution
  | number | true | false | null | regex | regexPattern
  | unary (operator : String)
  | array | object | pair | spread | method | computedName
  | parenthesized | asType | satisfiesType | nonNull
  | call | member | arguments
  | arrowFunction | functionExpression | generatorFunction | functionDeclaration | generatorDeclaration
  | formalParameters | requiredParameter | optionalParameter
  | objectPattern | arrayPattern | restPattern | pairPattern | assignmentPattern | objectAssignmentPattern
  | lexicalDeclaration | variableDeclaration | declarator
  | classDeclaration | abstractClassDeclaration | enumDeclaration | enumAssignment
  | exportStatement | importStatement | importClause | namespaceImport | namedImports | importSpecifier
  | catchClause | forStatement | forInStatement | statementBlock | classBody | switchBody | returnStatement
  | other (label : String)
deriving DecidableEq, Repr, Inhabited

namespace Kind

def label : Kind → String
  | program => "program"
  | comment => "comment"
  | error => "ERROR"
  | missing label => label
  | identifier => "identifier"
  | propertyIdentifier => "property_identifier"
  | shorthandProperty => "shorthand_property_identifier"
  | shorthandPattern => "shorthand_property_identifier_pattern"
  | string => "string"
  | stringFragment => "string_fragment"
  | escapeSequence => "escape_sequence"
  | templateString => "template_string"
  | templateSubstitution => "template_substitution"
  | number => "number"
  | true => "true"
  | false => "false"
  | null => "null"
  | regex => "regex"
  | regexPattern => "regex_pattern"
  | unary _ => "unary_expression"
  | array => "array"
  | object => "object"
  | pair => "pair"
  | spread => "spread_element"
  | method => "method_definition"
  | computedName => "computed_property_name"
  | parenthesized => "parenthesized_expression"
  | asType => "as_expression"
  | satisfiesType => "satisfies_expression"
  | nonNull => "non_null_expression"
  | call => "call_expression"
  | member => "member_expression"
  | arguments => "arguments"
  | arrowFunction => "arrow_function"
  | functionExpression => "function_expression"
  | generatorFunction => "generator_function"
  | functionDeclaration => "function_declaration"
  | generatorDeclaration => "generator_function_declaration"
  | formalParameters => "formal_parameters"
  | requiredParameter => "required_parameter"
  | optionalParameter => "optional_parameter"
  | objectPattern => "object_pattern"
  | arrayPattern => "array_pattern"
  | restPattern => "rest_pattern"
  | pairPattern => "pair_pattern"
  | assignmentPattern => "assignment_pattern"
  | objectAssignmentPattern => "object_assignment_pattern"
  | lexicalDeclaration => "lexical_declaration"
  | variableDeclaration => "variable_declaration"
  | declarator => "variable_declarator"
  | classDeclaration => "class_declaration"
  | abstractClassDeclaration => "abstract_class_declaration"
  | enumDeclaration => "enum_declaration"
  | enumAssignment => "enum_assignment"
  | exportStatement => "export_statement"
  | importStatement => "import_statement"
  | importClause => "import_clause"
  | namespaceImport => "namespace_import"
  | namedImports => "named_imports"
  | importSpecifier => "import_specifier"
  | catchClause => "catch_clause"
  | forStatement => "for_statement"
  | forInStatement => "for_in_statement"
  | statementBlock => "statement_block"
  | classBody => "class_body"
  | switchBody => "switch_body"
  | returnStatement => "return_statement"
  | other label => label

-- A sign that is missing is no part of its own; everything else is.
def isPart : Kind → Bool
  | missing label => label == "identifier"
  | _ => Bool.true

def isBroken : Kind → Bool
  | error | missing _ => Bool.true
  | _ => Bool.false

def isWrapper : Kind → Bool
  | parenthesized | asType | satisfiesType | nonNull => Bool.true
  | _ => Bool.false

def isName : Kind → Bool
  | identifier | propertyIdentifier | shorthandProperty | shorthandPattern => Bool.true
  | _ => Bool.false

end Kind

inductive Role where
  | plain | name | alias | value | function | arguments | object | property | key | body | source
  | parameter | parameters | left | initializer | pattern | declaration | argument
deriving DecidableEq, Repr, Inhabited

end Script
end SchemaAtlas
