import CodeCorpus.Syntax.Skip

/-!
# Syntax trees of C# sources

The tree of a source goes as deep as its declarations do: namespaces and types with their bodies,
members as a whole, usings, comments and directives. The inside of a member is passed over. A token
that starts nothing becomes an error node of its own, and the items after it are read as usual.
-/

namespace CodeCorpus.Syntax

/-! ## Leaves -/

/-- A named node without children. -/
def leaf (kind : String) (span : Span) : Node := ⟨kind, true, none, span, []⟩

/-- A named node without children that has a role in its parent. -/
def leafAs (role kind : String) (span : Span) : Node := ⟨kind, true, some role, span, []⟩

def fixedNode (t : Token) : Node := ⟨t.text, false, none, t.span, []⟩

/-- The node of something the grammar requires and the source lacks. -/
def missingAt (p : Position) : Node := ⟨Node.missingKind, true, none, ⟨p, p⟩, []⟩

/-- The node of a comment or of a directive that encloses nothing. -/
def triviaNode (t : Token) : Node :=
  if t.kind == .comment then leaf Node.commentKind t.span
  else leaf s!"preproc_{t.directive}" t.span

/-- A list of children, marked if what they were read from was not balanced. -/
def marked (ok : Bool) (stop : Position) (children : List Node) : List Node :=
  if ok then children else children ++ [missingAt stop]

/-! ## Attributes and modifiers -/

def reservedModifiers : List String := [
  "abstract", "const", "extern", "fixed", "internal", "new", "override", "private", "protected",
  "public", "readonly", "sealed", "static", "unsafe", "virtual", "volatile"]

/-- The words that are modifiers only before another word. -/
def contextualModifiers : List String := ["async", "file", "partial", "required"]

def attributeLists : Nat → Tokens → List Node × Tokens
  | 0, ts => ([], ts)
  | fuel + 1, ts =>
    match after? "[" ts with
    | some inside =>
      let (rest, ok) := skipGroup "]" inside
      let span := spanOf ts rest
      let (nodes, rest) := attributeLists fuel rest
      (⟨"attribute_list", true, none, span, marked ok span.stop []⟩ :: nodes, rest)
    | none => ([], ts)

def modifiers : Nat → Tokens → List Node × Tokens
  | 0, ts => ([], ts)
  | fuel + 1, ts =>
    match peel ts with
    | t :: rest =>
      let contextual := contextualModifiers.contains t.text &&
        ((next? rest).map fun u => u.kind == .word).getD false
      if t.kind == .word && (reservedModifiers.contains t.text || contextual) then
        let (nodes, rest) := modifiers fuel rest
        (leaf "modifier" t.span :: nodes, rest)
      else ([], ts)
    | [] => ([], ts)

/-! ## Parts of declarations -/

/-- A declaration that has been read: its kind, its children, the tokens after it, and whether all
of it fitted. -/
structure Parsed where
  kind : String
  children : List Node
  rest : Tokens
  ok : Bool := true

/-- The type parameters at the start of the tokens, if there are any. -/
def typeParameters (ts : Tokens) : List Node × Tokens :=
  match after? "<" ts >>= skipAngles? [">"] with
  | some rest => ([leaf "type_parameter_list" (spanOf ts rest)], rest)
  | none => ([], ts)

/-- The bracketed list at the start of the tokens, if there is one. -/
def bracketed (kind opening closing : String) (ts : Tokens) : List Node × Tokens × Bool :=
  match after? opening ts with
  | some inside =>
    let (rest, ok) := skipGroup closing inside
    ([leaf kind (spanOf ts rest)], rest, ok)
  | none => ([], ts, true)

/-- The entries of a base list: types, each perhaps with the arguments of a constructor call. -/
def baseEntries : Nat → Tokens → List Node × Tokens
  | 0, ts => ([], ts)
  | fuel + 1, ts =>
    match skipType? ts with
    | some rest =>
      let entry := leaf "type" (spanOf ts rest)
      let (arguments, rest, ok) := bracketed "argument_list" "(" ")" rest
      let entry := entry :: marked ok entry.span.stop arguments
      match after? "," rest with
      | some more =>
        let (entries, rest) := baseEntries fuel more
        (entry ++ entries, rest)
      | none => (entry, rest)
    | none => ([], ts)

/-- The base list at the start of the tokens, if there is one. -/
def baseList (ts : Tokens) : List Node × Tokens :=
  match after? ":" ts with
  | some inside =>
    let (entries, rest) := baseEntries inside.length inside
    ([⟨"base_list", true, none, spanOf ts rest, entries⟩], rest)
  | none => ([], ts)

/-- The name of a member, after the interface it belongs to if it names one: the last word, the
tokens before and after it. -/
def memberName? : Nat → Tokens → Option (Token × Tokens)
  | 0, _ => none
  | fuel + 1, ts =>
    match peel ts with
    | t :: rest =>
      if !t.isName then none
      else
        match (after? "." (orAngles rest)).or (after? "::" (orAngles rest)) with
        | some further => (memberName? fuel further).or (some (t, rest))
        | none => some (t, rest)
    | [] => none

/-- The tokens from an indexer's `this` on, after the interface it belongs to if it names one. -/
def indexerStart? : Nat → Tokens → Option Tokens
  | 0, _ => none
  | fuel + 1, ts =>
    match peel ts with
    | t :: rest =>
      if t.isFixed "this" then some rest
      else if !t.isName then none
      else (after? "." (orAngles rest)).or (after? "::" (orAngles rest)) >>= indexerStart? fuel
    | [] => none

/-- The tokens after `operator`, after the interface it belongs to if it names one. -/
def operatorStart? : Nat → Tokens → Option Tokens
  | 0, _ => none
  | fuel + 1, ts =>
    match peel ts with
    | t :: rest =>
      if t.isFixed "operator" then some (orAfter "checked" rest)
      else if !t.isName then none
      else (after? "." (orAngles rest)).or (after? "::" (orAngles rest)) >>= operatorStart? fuel
    | [] => none

def nameNode (t : Token) : Node := leafAs "name" "identifier" t.span

/-- The first declarator of a field, as the tree holds it. -/
def declaration (typeAndName : Span) (name : Token) : Node :=
  ⟨"variable_declaration", true, none, typeAndName,
    [⟨"variable_declarator", true, none, name.span, [nameNode name]⟩]⟩

/-- A parameter list, clauses and a body, as methods and constructors have them. -/
def callable (kind : String) (children : List Node) (ts : Tokens) : Option Parsed :=
  match after? "(" ts with
  | some inside =>
    let (rest, ok) := skipGroup ")" inside
    let parameters := leaf "parameter_list" (spanOf ts rest)
    let (rest, bodyOk) := skipBody (skipClauses [] rest)
    some ⟨kind, children ++ [parameters], rest, ok && bodyOk⟩
  | none => none

/-- Accessors or an arrow, and perhaps an initial value, as properties and indexers have them. -/
def accessible (kind : String) (children : List Node) (ts : Tokens) : Option Parsed :=
  match after? "\x7b" ts with
  | some inside =>
    let (rest, ok) := skipGroup "\x7d" inside
    match after? "=" rest with
    | some init =>
      let (rest, initOk) := skipStatement init
      some ⟨kind, children, rest, ok && initOk⟩
    | none => some ⟨kind, children, rest, ok⟩
  | none =>
    match after? "=>" ts with
    | some inside =>
      let (rest, ok) := skipStatement inside
      some ⟨kind, children, rest, ok⟩
    | none => none

/-- An operator: the tokens up to its parameter list are its sign. -/
def operatorMember (ts : Tokens) : Option Parsed :=
  callable "operator_declaration" [] (ts.dropWhile fun t => !t.isFixed "(")

/-- A conversion: a type and a parameter list. -/
def conversionMember (ts : Tokens) : Option Parsed :=
  match operatorStart? ts.length ts >>= skipType? with
  | some rest => callable "conversion_operator_declaration" [] rest
  | none => none

/-- An event: its accessors or its declarators. -/
def eventMember (ts : Tokens) : Option Parsed := do
  let afterType ← skipType? ts
  let (name, rest) ← memberName? afterType.length afterType
  match after? "\x7b" rest with
  | some inside =>
    let (rest, ok) := skipGroup "\x7d" inside
    some ⟨"event_declaration", [nameNode name], rest, ok⟩
  | none =>
    let (after, ok) := skipStatement rest
    some ⟨"event_field_declaration", [declaration (spanOf ts rest) name], after, ok⟩

/-- A delegate: a type, a name, parameters and constraints. -/
def delegateMember (ts : Tokens) : Option Parsed := do
  let afterType ← skipType? ts
  let (name, rest) ← memberName? afterType.length afterType
  let (parameters, rest) := typeParameters rest
  callable "delegate_declaration" (nameNode name :: parameters) rest

def typedMember (ts : Tokens) : Option Parsed := do
  let afterType ← skipType? ts
  match operatorStart? afterType.length afterType, indexerStart? afterType.length afterType with
  | some rest, _ => operatorMember rest
  | none, some rest =>
    let (parameters, rest, _) := bracketed "bracketed_parameter_list" "[" "]" rest
    accessible "indexer_declaration" parameters rest
  | none, none =>
    let (name, rest) ← memberName? afterType.length afterType
    let (parameters, afterAngles) := typeParameters rest
    if nextIs "(" afterAngles then
      callable "method_declaration" (nameNode name :: parameters) afterAngles
    else if nextIs "\x7b" rest || nextIs "=>" rest then
      accessible "property_declaration" [nameNode name] rest
    else if nextIs ";" rest || nextIs "=" rest || nextIs "," rest || nextIs "[" rest
        || nextIs "\x7d" rest then
      let (after, ok) := skipStatement rest
      let valued := !(nextIs "=" rest && nextIs ";" (orAfter "=" rest))
      some ⟨"field_declaration", [declaration (spanOf ts rest) name], after, ok && valued⟩
    else none

/-- A member of a type that holds no declarations of its own; its attributes and modifiers have been
read. -/
def plainMember (ts : Tokens) : Option Parsed :=
  match peel ts with
  | [] => none
  | t :: rest =>
    if t.isFixed "delegate" && !nextIs "*" rest then delegateMember rest
    else if t.isFixed "event" then eventMember rest
    else if t.isFixed "implicit" || t.isFixed "explicit" then conversionMember rest
    else if t.isFixed "~" then
      match peel rest with
      | name :: rest =>
        if name.isName then callable "destructor_declaration" [nameNode name] rest else none
      | [] => none
    else if t.isName && nextIs "(" rest then callable "constructor_declaration" [nameNode t] rest
    else typedMember (t :: rest)

/-- The value of an enumeration member: everything up to the next `,` or `}` outside brackets. -/
def skipValue (stack : List String) : Tokens → Tokens
  | [] => []
  | t :: ts =>
    if t.kind != .sign then skipValue stack ts
    else
      match closer? t.text, stack with
      | some c, _ => skipValue (c :: stack) ts
      | none, [] => if t.text == "," || t.text == "\x7d" then t :: ts else skipValue [] ts
      | none, top :: outer => if t.text == top then skipValue outer ts else skipValue stack ts

/-- A member of an enumeration; its attributes have been read. -/
def enumMember (ts : Tokens) : Option Parsed :=
  match peel ts with
  | t :: rest =>
    if t.isName then
      let rest := match after? "=" rest with
        | some value => skipValue [] value
        | none => rest
      if nextIs "," rest || nextIs "\x7d" rest || rest.any (·.kind == .directive) then
        some ⟨"enum_member_declaration", [nameNode t], rest, true⟩
      else none
    else none
  | [] => none

/-! ## Items of a file -/

/-- Whether the tokens have come to the end of their scope, or to a word that no item goes on with. -/
def atNewItem (ts : Tokens) : Bool :=
  match next? ts with
  | some t => t.kind == .word && reservedWords.contains t.text || t.isFixed "\x7d"
  | none => true

/-- A using directive, if the tokens start with one: a name, or a name given to a type. Where another
item starts, its `;` is missing. -/
def usingDirective? (ts : Tokens) : Option (Tokens × Bool) := do
  let rest ← after? "using" (orAfter "global" ts)
  let rest := orAfter "unsafe" (orAfter "static" rest)
  let name := (peel rest).head?.map Token.isName
  let afterType ← skipType? rest
  let afterTarget := if name == some true
    then ((after? "=" afterType).bind skipType?).getD afterType else afterType
  match after? ";" afterTarget with
  | some rest => some (rest, true)
  | none => if atNewItem afterTarget then some (afterTarget, false) else none

def declaringWords : List String := ["class", "struct", "interface", "enum", "namespace"]

/-- Passes over one statement: up to a `;` outside brackets, or over a block, unless it belongs to an
expression. The declaration of a type ends it too. -/
def skipTopStatement (inExpression : Bool) (stack : List String) (ok : Bool) :
    Tokens → Tokens × Bool
  | [] => ([], false)
  | t :: ts =>
    if t.isTrivia then skipTopStatement inExpression stack ok ts
    else if t.kind == .stray then skipTopStatement inExpression stack false ts
    else if t.kind == .word then
      let begins := stack.isEmpty && ["return", "new", "switch", "throw"].contains t.text
      let declares := stack.isEmpty && declaringWords.contains t.text &&
        ((next? ts).map Token.isName).getD false
      if declares then (t :: ts, false) else skipTopStatement (inExpression || begins) stack ok ts
    else if t.kind != .sign then skipTopStatement inExpression stack ok ts
    else
      match closer? t.text, stack with
      | some c, _ => skipTopStatement inExpression (c :: stack) ok ts
      | none, [] =>
        if t.text == ";" then (ts, ok)
        else if isCloser t.text then (t :: ts, false)
        else skipTopStatement (inExpression || t.text == "=" || t.text == "=>") [] ok ts
      | none, top :: outer =>
        if t.text == top then
          if outer.isEmpty && t.text == "\x7d" && !inExpression then (ts, ok)
          else skipTopStatement inExpression outer ok ts
        else if isCloser t.text then skipTopStatement inExpression stack false ts
        else skipTopStatement inExpression stack ok ts

/-- What a list of items may hold. -/
inductive Scope where
  /-- The items of a file: declarations and statements. -/
  | file
  /-- The declarations in a namespace or a type. -/
  | declarations
  /-- The members of an enumeration. -/
  | enumeration
  deriving DecidableEq, Repr

/-- The kind of a type declaration, by its keyword. -/
def typeKind? (keyword : String) : Option String :=
  if ["class", "struct", "interface", "enum"].contains keyword then some s!"{keyword}_declaration"
  else none

/-- The keyword of a type declaration, the kind it gives, and the tokens from the name on; attributes
and modifiers have been read. -/
def typeKeyword? (ts : Tokens) : Option (Token × String × Tokens) :=
  let start := match after? "ref" ts with
    | some rest => if nextIs "struct" (orAfter "partial" rest) then orAfter "partial" rest else ts
    | none => ts
  match peel start with
  | t :: rest =>
    if t.kind != .word then none
    else if t.text == "record" then
      let named := orAfter "struct" (orAfter "class" rest)
      if ((next? named).map Token.isName).getD false then some (t, "record_declaration", named)
      else none
    else
      (typeKind? t.text).bind fun kind =>
        if ((next? rest).map Token.isName).getD false then some (t, kind, rest) else none
  | [] => none

/-- The name, type parameters, primary parameters, base list and constraints of a type. -/
def typeHeader (ts : Tokens) : List Node × Tokens :=
  match peel ts with
  | [] => ([], ts)
  | name :: rest =>
    let (typeParameters, rest) := typeParameters rest
    let (parameters, rest, ok) := bracketed "parameter_list" "(" ")" rest
    let (bases, rest) := baseList rest
    let rest := if nextIs "where" rest then skipClauses [] rest else rest
    (nameNode name :: typeParameters ++ marked ok name.span.stop parameters ++ bases, rest)

def namespaceName? (ts : Tokens) : Option (Node × Tokens) :=
  match peel ts with
  | t :: rest =>
    if t.isName then
      let after := skipQualified rest rest.length
      let kind := if after.length = rest.length then "identifier" else "qualified_name"
      some (leafAs "name" kind (spanOf ts after), after)
    else none
  | [] => none

/-- The end of a declaration with a body: a `;` without a blank before it belongs to it. -/
def closing (stop : Position) (ts : Tokens) : Tokens :=
  match ts with
  | t :: rest => if t.isFixed ";" && t.span.start.byte == stop.byte then rest else ts
  | [] => ts

/-- Where the part of the tokens before `rest` stops. -/
def stopOf (t : Token) (ts rest : Tokens) : Position :=
  (((ts.take (ts.length - rest.length)).getLast?).getD t).span.stop

/-- Whether the tokens start with an attribute of the file as a whole. -/
def globalAttribute (ts : Tokens) : Bool :=
  match after? "[" ts with
  | some rest => (nextIs "assembly" rest && nextIs ":" (orAfter "assembly" rest)) ||
      (nextIs "module" rest && nextIs ":" (orAfter "module" rest))
  | none => false

/-- Whether neither a declaration nor a statement starts with the next token. -/
def startsNothing (ts : Tokens) : Bool :=
  match next? ts with
  | some t => t.kind == .stray || isCloser t.text || declaringWords.contains t.text
  | none => true

mutual

/-- The items up to the end of their scope: an unmet `}`, or, inside a conditional, the directive that
ends a branch. -/
def items (scope : Scope) (conditional : Bool) : Nat → Tokens → List Node × Tokens
  | 0, ts => ([], ts)
  | _, [] => ([], [])
  | fuel + 1, t :: ts =>
    if t.kind == .directive && t.directive == "if" then
      let (children, rest) := branches scope fuel ts
      let node := ⟨"preproc_if", true, none, ⟨t.span.start, stopOf t (t :: ts) rest⟩, children⟩
      let (nodes, rest) := items scope conditional fuel rest
      (node :: nodes, rest)
    else if t.kind == .directive && conditionalWords.contains t.directive then
      if conditional then ([], t :: ts)
      else
        let (nodes, rest) := items scope conditional fuel ts
        (leaf Node.errorKind t.span :: nodes, rest)
    else if t.isTrivia then
      let (nodes, rest) := items scope conditional fuel ts
      (triviaNode t :: nodes, rest)
    else if t.isFixed "\x7d" && scope != .file then ([], t :: ts)
    else if t.isFixed "," && scope == .enumeration then
      let (nodes, rest) := items scope conditional fuel ts
      (fixedNode t :: nodes, rest)
    else
      match item? scope fuel (t :: ts) with
      | some (node, rest) =>
        let (nodes, rest) := items scope conditional fuel rest
        (node :: nodes, rest)
      | none =>
        let (nodes, rest) := items scope conditional fuel ts
        (leaf Node.errorKind t.span :: nodes, rest)

/-- The items of all branches of a conditional, up to and with the directive that ends it. -/
def branches (scope : Scope) : Nat → Tokens → List Node × Tokens
  | 0, ts => ([], ts)
  | fuel + 1, ts =>
    let (nodes, rest) := items scope true fuel ts
    match rest with
    | t :: rest =>
      if t.directive == "endif" then (nodes, rest)
      else if t.kind == .directive then
        let (more, rest) := branches scope fuel rest
        (nodes ++ more, rest)
      else (nodes ++ [missingAt t.span.start], t :: rest)
    | [] => (nodes ++ [missingAt default], [])

def item? (scope : Scope) : Nat → Tokens → Option (Node × Tokens)
  | 0, _ => none
  | fuel + 1, ts =>
    let finish (lead : List Node) (p : Parsed) : Node × Tokens :=
      let span := spanOf ts p.rest
      (⟨p.kind, true, none, span, marked p.ok span.stop (lead ++ p.children)⟩, p.rest)
    match scope with
    | .enumeration =>
      let (attributes, rest) := attributeLists ts.length ts
      (enumMember rest).map (finish attributes)
    | .file | .declarations =>
      match usingDirective? ts with
      | some (rest, ok) => some (finish [] ⟨"using_directive", [], rest, ok⟩)
      | none =>
        match after? "alias" ((after? "extern" ts).getD []) with
        | some rest =>
          let (rest, ok) := skipStatement rest
          some (finish [] ⟨"extern_alias_directive", [], rest, ok⟩)
        | none =>
          let attributes := attributeLists ts.length ts
          let (modifiers, rest) := modifiers attributes.2.length attributes.2
          let lead := attributes.1 ++ modifiers
          match after? "namespace" ts, typeKeyword? rest with
          | some name, _ => (namespace? fuel name).map (finish [])
          | none, some (keyword, kind, named) =>
            (typeDeclaration? kind fuel named).map (finish (lead ++ [fixedNode keyword]))
          | none, none =>
            match scope with
            | .file =>
              if globalAttribute ts then
                let (rest, ok) := skipGroup "]" ((after? "[" ts).getD [])
                some (finish [] ⟨"global_attribute", [], rest, ok⟩)
              else if nextIs "delegate" rest && (delegateMember (orAfter "delegate" rest)).isSome then
                (plainMember rest).map (finish lead)
              else if startsNothing ts then none
              else
                let (rest, ok) := skipTopStatement false [] true (orAfter "switch" ts)
                some (finish [] ⟨"global_statement", [], rest, ok⟩)
            | _ => (plainMember rest).map (finish lead)

/-- A namespace, from its name on. -/
def namespace? : Nat → Tokens → Option Parsed
  | 0, _ => none
  | fuel + 1, ts => do
    let (name, rest) ← namespaceName? ts
    match after? ";" rest with
    | some rest => some ⟨"file_scoped_namespace_declaration", [name], rest, true⟩
    | none =>
      let (body, rest, ok) ← body? .declarations "declaration_list" fuel rest
      some ⟨if ok then "namespace_declaration" else Node.errorKind, name :: body, rest, true⟩

/-- A type, from its name on. -/
def typeDeclaration? (kind : String) : Nat → Tokens → Option Parsed
  | 0, _ => none
  | fuel + 1, ts =>
    let (header, rest) := typeHeader ts
    match after? ";" rest, next? rest with
    | some rest, _ => some ⟨kind, header, rest, true⟩
    | none, none => some ⟨kind, header, rest, false⟩
    | none, some _ => do
      let (scope, bodyKind) := if kind == "enum_declaration"
        then (Scope.enumeration, "enum_member_declaration_list")
        else (Scope.declarations, "declaration_list")
      let (body, rest, ok) ← body? scope bodyKind fuel rest
      some ⟨if ok then kind else Node.errorKind, header ++ body, rest, true⟩

/-- A body in braces. Without its closing brace there is no body, only what it would have held. -/
def body? (scope : Scope) (kind : String) : Nat → Tokens → Option (List Node × Tokens × Bool)
  | 0, _ => none
  | fuel + 1, ts =>
    match peel ts with
    | opening :: inside =>
      if opening.isFixed "\x7b" then
        let (nodes, rest) := items scope false fuel inside
        match rest with
        | close :: rest =>
          let span : Span := ⟨opening.span.start, close.span.stop⟩
          let children := fixedNode opening :: nodes ++ [fixedNode close]
          some ([⟨kind, true, some "body", span, children⟩], closing close.span.stop rest, true)
        | [] => some (fixedNode opening :: nodes, [], false)
      else none
    | [] => none

end

def parse (source : String) : Node :=
  let ts := scan source
  let stop := source.toList.foldl Position.after ⟨0, 0, 0⟩
  let (nodes, _) := items .file false (2 * ts.length + 4) ts
  ⟨"compilation_unit", true, none, ⟨⟨0, 0, 0⟩, stop⟩, nodes⟩

end CodeCorpus.Syntax
