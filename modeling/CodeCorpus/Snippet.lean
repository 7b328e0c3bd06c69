import CodeCorpus.Outline
import CodeCorpus.Text.Blank
import CodeCorpus.Text.Lines

/-!
# Snippets

A snippet shows one member of a declaration as valid code of its own: the file's using directives,
the namespace and the signature stand around the member. A declaration without members gives one
snippet with an empty body. Members are indented anew with tabs, so that the text does not depend on
how deep the source was indented.
-/

namespace CodeCorpus

/-- A snippet before it is cut to the token budget. -/
structure Snippet where
  /-- The namespace of the file, empty for none. -/
  namespaceName : String
  typeName : String
  /-- The member shown, if it has a name. -/
  memberName : Option String
  text : String
  deriving DecidableEq, Repr

namespace Snippet

/-- The characters without up to `width` of the spaces and tabs they start with. -/
def stripIndent : Nat → List Char → List Char
  | width + 1, c :: cs => if c == ' ' || c == '\t' then stripIndent width cs else c :: cs
  | _, cs => cs

/-- A line indented with `depth` tabs and without blanks at its end; a blank line is empty. -/
def indentLine (depth : Nat) (line : List Char) : String :=
  if line.all Text.isBlank then ""
  else String.ofList (List.replicate depth '\t' ++ Text.trimEndChars line)

/-- The lines of a text that starts at `column` of its first line, indented with `depth` tabs. -/
def reindent (text : String) (column depth : Nat) : List String :=
  match Text.linesFrom [] text.toList with
  | [] => []
  | first :: others => indentLine depth first :: others.map fun l => indentLine depth (stripIndent column l)

def signatureDepth (outline : Outline) : Nat := if outline.namespaceName.isSome then 1 else 0

def header (outline : Outline) (d : Declaration) : List String :=
  let usings := if outline.usings.isEmpty then [] else outline.usings ++ [""]
  let opening := match outline.namespaceName with
    | some name => ["namespace " ++ name, "\x7b"]
    | none => []
  let indent := String.ofList (List.replicate (signatureDepth outline) '\t')
  usings ++ opening ++ [indent ++ d.signature, indent ++ "\x7b"]

def footer (outline : Outline) : List String :=
  let indent := String.ofList (List.replicate (signatureDepth outline) '\t')
  (indent ++ "\x7d") :: if outline.namespaceName.isSome then ["\x7d"] else []

def memberLines (outline : Outline) (m : Member) : List String :=
  reindent m.text m.startColumn (signatureDepth outline + 1)

/-- The snippet of a declaration around one of its members, or around nothing. -/
def around (outline : Outline) (d : Declaration) (member : Option Member) : Snippet :=
  { namespaceName := outline.namespaceName.getD ""
    typeName := d.name
    memberName := member.bind Member.name
    text := Text.unlines (header outline d ++
      (member.map (memberLines outline)).getD [] ++ footer outline) }

def ofDeclaration (outline : Outline) (d : Declaration) : List Snippet :=
  if d.members.isEmpty then [around outline d none]
  else d.members.map fun m => around outline d (some m)

end Snippet

/-- The snippets of a file, in the order of its declarations and their members. -/
def Outline.snippets (outline : Outline) : List Snippet :=
  outline.declarations.flatMap (Snippet.ofDeclaration outline)

end CodeCorpus
