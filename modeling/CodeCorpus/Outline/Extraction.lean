import CodeCorpus.Outline
import CodeCorpus.Syntax.Tree
import CodeCorpus.Text.Blank
import CodeCorpus.Text.Decoding

/-!
# Outlines from syntax trees

Declarations are collected in preorder, so that an enclosing type comes before the types inside it.
The members of a type are the declarations directly in its body. The text of a member starts at the
first of the comments that stand directly above it: a gap of a line ends their run, and so does a
comment on the line where something else ends.
-/

namespace CodeCorpus.Outline

open CodeCorpus.Syntax

/-- The text of a stretch of the source, empty if it is not valid. -/
def textOf (source : ByteArray) (n : Node) : String :=
  (Text.decode? (source.extract n.span.start.byte n.span.stop.byte)).getD ""

/-! ## Members -/

/-- Whether a comment stands on the line where the sibling before it ends. The siblings before it
are given nearest first. -/
def trails (comment : Node) : List Node → Bool
  | [] => false
  | before :: _ => !before.isComment && before.span.stop.row == comment.span.start.row

/-- The node that the text of a member starts with: the earliest of the comments above `first`. The
siblings before it are given nearest first. -/
def leadingNode (first : Node) : List Node → Node
  | [] => first
  | sibling :: before =>
    if !sibling.isComment then first
    else if sibling.span.stop.row + 1 < first.span.start.row then first
    else if trails sibling before then first
    else leadingNode sibling before

/-- The name of a member: its own, or that of the first variable it declares. -/
def memberName? (source : ByteArray) (n : Node) : Option String :=
  match n.childOf? "name" with
  | some name => some (textOf source name)
  | none => do
    let declared ← n.namedChildren.find? (·.kind == "variable_declaration")
    let first ← declared.namedChildren.find? (·.kind == "variable_declarator")
    match first.childOf? "name" with
    | some name => some (textOf source name)
    | none => (first.namedChildren.find? (·.kind == "identifier")).map (textOf source)

/-- The member at a node, given the siblings before it nearest first. -/
def memberAt (source : ByteArray) (before : List Node) (n : Node) : Member :=
  let first := leadingNode n before
  { kind := n.kind
    name := memberName? source n
    text := Text.decodeLossy (source.extract first.span.start.byte n.span.stop.byte)
    startColumn := first.span.start.column }

/-- The members among siblings; `before` holds the siblings before them, nearest first. -/
def membersFrom (source : ByteArray) (isMember : Node → Bool) (before : List Node) :
    List Node → List Member
  | [] => []
  | n :: ns =>
    if n.named && isMember n then
      memberAt source before n :: membersFrom source isMember (n :: before) ns
    else membersFrom source isMember (n :: before) ns

def bodyOf? (n : Node) : Option Node :=
  (n.childOf? "body").or (n.namedChildren.find? fun c =>
    c.kind == "declaration_list" || c.kind == "enum_member_declaration_list")

def isTypeMember (n : Node) : Bool := n.kind.endsWith "_declaration"

def isEnumMember (n : Node) : Bool := n.kind == "enum_member_declaration"

def typeMembers (source : ByteArray) (n : Node) : List Member :=
  ((bodyOf? n).map fun body => membersFrom source isTypeMember [] body.children).getD []

/-- The members in the body of an enumeration, which all have a name. -/
def enumMembers (source : ByteArray) (n : Node) : List Member :=
  (((bodyOf? n).map fun body => membersFrom source isEnumMember [] body.children).getD []).map
    fun m => { m with name := some (m.name.getD "") }

/-! ## Declarations -/

/-- The text up to the first opening parenthesis. -/
def beforeArguments (s : String) : String := String.ofList (s.toList.takeWhile (· != '('))

/-- The base types in a base list, without the arguments of a constructor call. -/
def baseTypes (source : ByteArray) (list : Node) : List String :=
  ((list.namedChildren.filter fun c => c.kind != "argument_list" && !c.isComment).map fun c =>
    Text.trim (beforeArguments (textOf source c))).filter fun s => !s.isEmpty

/-- The last child of a kind. -/
def lastOfKind? (kind : String) (n : Node) : Option Node :=
  n.children.reverse.find? (·.kind == kind)

def declarationAt (source : ByteArray) (kind : DeclarationKind) (n : Node) : Declaration :=
  { kind
    name := ((n.childOf? "name").map (textOf source)).getD ""
    modifiers := (n.children.filter (·.kind == "modifier")).map (textOf source)
    typeParameters := (lastOfKind? "type_parameter_list" n).map (textOf source)
    baseTypes := ((lastOfKind? "base_list" n).map (baseTypes source)).getD []
    members := match kind with
      | .enumType => enumMembers source n
      | _ => typeMembers source n }

def declarationKind? (nodeKind : String) : Option DeclarationKind :=
  DeclarationKind.all.find? fun k => nodeKind == k.keyword ++ "_declaration"

mutual

/-- The declarations in a tree, in preorder over its named nodes. -/
def declarationsIn (source : ByteArray) : Node → List Declaration
  | ⟨kind, named, role, span, children⟩ =>
    let inside := declarationsAmong source children
    match declarationKind? kind with
    | some k => declarationAt source k ⟨kind, named, role, span, children⟩ :: inside
    | none => inside

def declarationsAmong (source : ByteArray) : List Node → List Declaration
  | [] => []
  | n :: ns =>
    if n.named then declarationsIn source n ++ declarationsAmong source ns
    else declarationsAmong source ns

end

/-! ## Files -/

def isNamespace (kind : String) : Bool :=
  kind == "namespace_declaration" || kind == "file_scoped_namespace_declaration"

mutual

/-- The first namespace in a tree, in preorder over its named nodes. -/
def firstNamespace? : Node → Option Node
  | ⟨kind, named, role, span, children⟩ =>
    if isNamespace kind then some ⟨kind, named, role, span, children⟩
    else firstNamespaceAmong? children

def firstNamespaceAmong? : List Node → Option Node
  | [] => none
  | n :: ns =>
    if n.named then (firstNamespace? n).or (firstNamespaceAmong? ns) else firstNamespaceAmong? ns

end

def usingsIn (source : ByteArray) (n : Node) : List String :=
  (n.namedChildren.filter (·.kind == "using_directive")).map fun c => Text.trim (textOf source c)

def ofTree (source : ByteArray) (root : Node) : Outline :=
  let first := firstNamespace? root
  { usings := usingsIn source root ++
      (first.map fun n => usingsIn source ((n.childOf? "body").getD n)).getD []
    namespaceName := (first.bind (·.childOf? "name")).map (textOf source)
    declarations := declarationsIn source root
    hasSyntaxErrors := root.hasError }

def ofSource (source : String) : Outline := ofTree source.toUTF8 (parse source)

end CodeCorpus.Outline
