import CodeCorpus.Counter
import CodeCorpus.Json.Reader
import CodeCorpus.Text.LowerCase
import CodeCorpus.Text.WordCharacter

/-!
# Tokenizers

A tokenizer cuts a text into pieces and looks each up in its vocabulary of words. The tokens it adds to
the vocabulary are found verbatim in the text before the rest is cut, and a processor may put two
special tokens around the whole. Limits on the length in a tokenizer's description do not count.
-/

namespace CodeCorpus

/-- How the text between added tokens is cut into pieces. -/
inductive PieceRule where
  /-- Runs of word characters, and runs of other characters that are not blank. -/
  | runs
  /-- The words between blanks. -/
  | betweenBlanks
  /-- The pieces between a character. -/
  | between (delimiter : Char)
  /-- The text as one piece. -/
  | entire
  deriving DecidableEq, Repr

namespace PieceRule

/-- Blanks, word characters, and others. -/
def runClass (c : Char) : Nat := if Text.isBlank c then 0 else if Text.isWordCharacter c then 1 else 2

/-- The runs of one class of characters that is not blank; `run` is the current one, last character
first. -/
def runsFrom (run : List Char) : List Char → List String
  | [] => if run.isEmpty then [] else [String.ofList run.reverse]
  | c :: cs =>
    match run with
    | [] => if runClass c = 0 then runsFrom [] cs else runsFrom [c] cs
    | d :: _ =>
      if runClass c = runClass d then runsFrom (c :: run) cs
      else String.ofList run.reverse :: runsFrom (if runClass c = 0 then [] else [c]) cs

def pieces : PieceRule → String → List String
  | .runs, s => runsFrom [] s.toList
  | .betweenBlanks, s => Text.words s
  | .between delimiter, s => Text.pieces (· == delimiter) s
  | .entire, s => if s.isEmpty then [] else [s]

end PieceRule

structure Tokenizer where
  vocabulary : List String
  /-- The word that stands for those not in the vocabulary. -/
  unknown : String
  /-- Tokens found in the text as it is. -/
  addedVerbatim : List String
  /-- Tokens found in the text after it has been normalized. -/
  addedNormalized : List String
  /-- Whether the text is put in lower case. -/
  lowers : Bool
  rule : PieceRule
  /-- Whether special tokens are put around a text. -/
  encloses : Bool

namespace Tokenizer

/-- The length of the longest of the tokens at the start of the characters, 0 for none. -/
def longestAt (tokens : List (List Char)) (cs : List Char) : Nat :=
  tokens.foldl (fun n t => if t.isPrefixOf cs then max n t.length else n) 0

/-- The stretches between tokens in the characters, and the number of tokens; `skip` characters belong
to a token already counted, and `current` is the current stretch, last character first. -/
def cutTokens (tokens : List (List Char)) (skip : Nat) (current : List Char) :
    List Char → List String × Nat
  | [] => ([String.ofList current.reverse], 0)
  | c :: cs =>
    match skip with
    | n + 1 => cutTokens tokens n current cs
    | 0 =>
      match longestAt tokens (c :: cs) with
      | 0 => cutTokens tokens 0 (c :: current) cs
      | n + 1 =>
        let (stretches, count) := cutTokens tokens n [] cs
        (String.ofList current.reverse :: stretches, count + 1)

/-- The stretches of a text between tokens, and the number of tokens in it. -/
def cut (tokens : List String) (s : String) : List String × Nat :=
  cutTokens ((tokens.filter (!·.isEmpty)).map String.toList) 0 [] s.toList

/-- One token for each word; it fails on an unknown one if nothing stands for those. -/
def countWords (t : Tokenizer) : List String → Except Fault Nat
  | [] => .ok 0
  | w :: ws =>
    if t.vocabulary.contains w || t.vocabulary.contains t.unknown then
      (countWords t ws).map (· + 1)
    else .error (.embedding (.tokenizationFailed
      s!"WordLevel error: Missing {t.unknown} token from the vocabulary"))

/-- The tokens of a stretch without tokens found verbatim. -/
def countStretch (t : Tokenizer) (s : String) : Except Fault Nat := do
  let normal := if t.lowers then Text.lowerCase s else s
  let added := if t.lowers then t.addedNormalized.map Text.lowerCase else t.addedNormalized
  let (stretches, found) := cut added normal
  let counted ← t.countWords (stretches.flatMap t.rule.pieces)
  return counted + found

def countStretches (t : Tokenizer) : List String → Except Fault Nat
  | [] => .ok 0
  | s :: ss => do
    let here ← t.countStretch s
    let others ← t.countStretches ss
    return here + others

/-- Counts the tokens of a text, with the special tokens around it if wanted. -/
def counter (t : Tokenizer) (special : Bool) : Counter := fun s => do
  let (stretches, found) := cut t.addedVerbatim s
  let counted ← t.countStretches stretches
  return counted + found + if special && t.encloses then 2 else 0

theorem countWords_ok {t : Tokenizer} (h : t.vocabulary.contains t.unknown = true) :
    ∀ ws, t.countWords ws = .ok ws.length
  | [] => rfl
  | w :: ws => by
    rw [countWords, h, Bool.or_true, countWords_ok h ws]
    rfl

theorem countStretch_ok {t : Tokenizer} (h : t.vocabulary.contains t.unknown = true) (s : String) :
    ∃ n, t.countStretch s = .ok n := by
  unfold countStretch
  simp only [countWords_ok h]
  exact ⟨_, rfl⟩

theorem countStretches_ok {t : Tokenizer} (h : t.vocabulary.contains t.unknown = true) :
    ∀ ss, ∃ n, t.countStretches ss = .ok n
  | [] => ⟨0, rfl⟩
  | s :: ss => by
    obtain ⟨m, hm⟩ := countStretch_ok h s
    obtain ⟨n, hn⟩ := countStretches_ok h ss
    refine ⟨m + n, ?_⟩
    simp only [countStretches, hm, hn]
    rfl

/-- A tokenizer never fails if a word stands for those that it does not know. -/
theorem counter_ok {t : Tokenizer} (h : t.vocabulary.contains t.unknown = true) (special : Bool)
    (text : String) : ∃ n, t.counter special text = .ok n := by
  obtain ⟨n, hn⟩ := countStretches_ok h (cut t.addedVerbatim text).1
  refine ⟨n + (cut t.addedVerbatim text).2 + if special && t.encloses then 2 else 0, ?_⟩
  simp only [counter, hn]
  rfl

/-! ## Descriptions -/

/-- The `type` of a component, none if there is no component. -/
def componentType? : Option Json → Option (Option String)
  | none | some .null => some none
  | some j => (j.field? "type" >>= Json.asText?).map some

def ruleOfJson? (j : Option Json) : Option PieceRule := do
  match ← componentType? j with
  | none => some .entire
  | some "Whitespace" => some .runs
  | some "WhitespaceSplit" => some .betweenBlanks
  | some "CharDelimiterSplit" =>
    match ((← j).field? "delimiter" >>= Json.asText?).map String.toList with
    | some [c] => some (.between c)
    | _ => none
  | some _ => none

def lowersOfJson? (j : Option Json) : Option Bool := do
  match ← componentType? j with
  | none => some false
  | some "Lowercase" => some true
  | some _ => none

def enclosesOfJson? (j : Option Json) : Option Bool := do
  match ← componentType? j with
  | none => some false
  | some "BertProcessing" => some true
  | some _ => none

/-- An added token, and whether it is found in normalized text. -/
def addedOfJson? (j : Json) : Option (String × Bool) := do
  let content ← j.field? "content" >>= Json.asText?
  let _ ← j.field? "id" >>= Json.asNat?
  let normalized ← j.field? "normalized" >>= Json.asBool?
  return (content, normalized)

def allAdded? : List Json → Option (List (String × Bool))
  | [] => some []
  | j :: js =>
    match addedOfJson? j, allAdded? js with
    | some a, some as => some (a :: as)
    | _, _ => none

def ofJson? (j : Json) : Option Tokenizer := do
  let version := j.field? "version"
  guard (version.isNone || (version >>= Json.asText?) == some "1.0")
  let model ← j.field? "model"
  guard ((model.field? "type" >>= Json.asText?).getD "WordLevel" == "WordLevel")
  let words ← match model.field? "vocab" with
    | some (.object fields) => some fields
    | _ => none
  guard (words.all fun w => w.2.asNat?.isSome)
  let unknown ← model.field? "unk_token" >>= Json.asText?
  let added ← match j.field? "added_tokens" with
    | none => some []
    | some v => v.asArray? >>= allAdded?
  let rule ← ruleOfJson? (j.field? "pre_tokenizer")
  let lowers ← lowersOfJson? (j.field? "normalizer")
  let encloses ← enclosesOfJson? (j.field? "post_processor")
  return {
    vocabulary := words.map Prod.fst, unknown, lowers, rule, encloses
    addedVerbatim := (added.filter fun a => !a.2).map Prod.fst
    addedNormalized := (added.filter fun a => a.2).map Prod.fst }

def read? (s : String) : Option Tokenizer := Json.read? s >>= ofJson?

end Tokenizer

namespace Counter

/-- Counts a text together with what is put before it for the model. -/
def after (prompt : String) (count : Counter) : Counter := fun s => count (prompt ++ s)

/-- The counter that the file at a path gives; `contents` is none if there is no such file. -/
def ofFile (path : String) (contents : Option ByteArray) (prompt : String) (special : Bool) :
    Except Fault Counter :=
  match contents with
  | none => .error (.config (.vocabularyNotFound path))
  | some bytes =>
    match String.fromUTF8? bytes >>= Tokenizer.read? with
    | some t => .ok (after prompt (t.counter special))
    | none => .error (.config (.loadFailed s!"Failed to load tokenizer {path}: no tokenizer is described"))

end Counter

end CodeCorpus
