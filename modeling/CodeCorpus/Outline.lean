/-!
# Outlines

The outline of a source file holds what snippets are made of: its using directives, its namespace,
and its type declarations, each with a header and its members in order.
-/

namespace CodeCorpus

inductive DeclarationKind where
  | classType
  | interfaceType
  | structType
  | enumType
  deriving DecidableEq, Repr

def DeclarationKind.keyword : DeclarationKind → String
  | .classType => "class"
  | .interfaceType => "interface"
  | .structType => "struct"
  | .enumType => "enum"

def DeclarationKind.all : List DeclarationKind := [.classType, .interfaceType, .structType, .enumType]

structure Member where
  /-- The kind of syntax node it comes from. -/
  kind : String
  name : Option String
  /-- Its text in the source, with the comments above it. -/
  text : String
  /-- The column of the text's first byte. -/
  startColumn : Nat
  deriving DecidableEq, Repr

structure Declaration where
  kind : DeclarationKind
  name : String
  /-- Its modifiers in source order. -/
  modifiers : List String
  /-- Its type parameters with their angle brackets. -/
  typeParameters : Option String
  /-- Its base types in source order. -/
  baseTypes : List String
  members : List Member
  deriving DecidableEq, Repr

structure Outline where
  /-- The using directives as written. -/
  usings : List String
  /-- The first namespace, if there is one. -/
  namespaceName : Option String
  /-- All type declarations, the enclosing ones before those inside them. -/
  declarations : List Declaration
  /-- Some of the source did not fit the grammar. -/
  hasSyntaxErrors : Bool
  deriving DecidableEq, Repr

def Declaration.heading (d : Declaration) : String :=
  String.join (d.modifiers.map (· ++ " ")) ++ d.kind.keyword ++ " " ++ d.name ++
    d.typeParameters.getD ""

def Declaration.signature (d : Declaration) : String :=
  if d.baseTypes.isEmpty then d.heading else d.heading ++ " : " ++ ", ".intercalate d.baseTypes

end CodeCorpus
