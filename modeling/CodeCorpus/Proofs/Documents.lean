import CodeCorpus.Proofs.Scalars
import CodeCorpus.Proofs.Styles
import CodeCorpus.Toml.Library
import Mathlib.Data.List.Forall2

/-!
# TOML documents read back

A document that is written as sections is read as the table of its sections, if the values of its keys are read back
one by one.
-/

namespace CodeCorpus.Toml

/-! ## Values -/

/-- The character is none that is skipped between values. -/
def IsSolid (c : Char) : Prop := c ∉ [' ', '\t', '\n', '\r', '#']

instance (c : Char) : Decidable (IsSolid c) := inferInstanceAs (Decidable (c ∉ _))

/-- What follows a value: the end of its line, a comma or the end of an array. -/
def EndsValue (rest : List Char) : Prop := ∀ c ∈ rest.head?, c ∈ ['\n', ',', ']']

theorem skipTrivia_of_isSolid {c : Char} (h : IsSolid c) (cs : List Char) : skipTrivia false (c :: cs) = c :: cs := by
  simp only [IsSolid, List.mem_cons, List.not_mem_nil, or_false, not_or] at h
  simp [skipTrivia, isSpace, h]

theorem IsSolid.not_isSpace {c : Char} (h : IsSolid c) : isSpace c = false := by
  simp only [IsSolid, List.mem_cons, List.not_mem_nil, or_false, not_or] at h
  simp [isSpace, h]

/-- Characters write a value: they are read as it, whatever follows, where the value may have so many levels. -/
structure Shown (levels : Nat) (written : List Char) (value : Toml) : Prop where
  start : ∃ c cs, written = c :: cs ∧ IsSolid c ∧ c ≠ ']'
  read : ∀ {depth fuel : Nat} {rest : List Char}, levels ≤ depth → written.length ≤ fuel → EndsValue rest →
    readValue depth (written ++ rest) fuel = some (value, rest)

theorem Shown.mono {levels levels' : Nat} {written : List Char} {value : Toml} (h : Shown levels written value)
    (hle : levels ≤ levels') : Shown levels' written value :=
  ⟨h.start, fun hdepth => h.read (hle.trans hdepth)⟩

theorem IsWord.shown {word : List Char} {value : Toml} (h : IsWord word value) : Shown 0 word value := by
  obtain ⟨c, cs, rfl⟩ := List.exists_cons_of_ne_nil h.some_character
  have hc : isWordCharacter c = true := h.characters c (by simp)
  have hne : ∀ d tail rest, isWordCharacter d = false → c :: tail ≠ d :: rest := by
    intro d tail rest hd heq
    rw [(List.cons.inj heq).1, hd] at hc
    cases hc
  refine ⟨⟨c, cs, rfl, ?_, ?_⟩, ?_⟩
  · intro hmem
    revert hc
    simp only [List.mem_cons, List.not_mem_nil, or_false] at hmem
    rcases hmem with rfl | rfl | rfl | rfl | rfl <;> decide
  · rintro rfl
    exact absurd hc (by decide)
  · intro depth fuel rest _ hfuel hrest
    obtain ⟨fuel, rfl⟩ : ∃ k, fuel = k + 1 := ⟨fuel - 1, by simp at hfuel; omega⟩
    have hend : EndsWord rest := by
      intro d hd
      have hmem := hrest d hd
      simp only [List.mem_cons, List.not_mem_nil, or_false] at hmem
      rcases hmem with rfl | rfl | rfl <;> decide
    have hscalar := h.readScalar_eq hend
    rw [List.cons_append] at hscalar ⊢
    rw [readValue, hscalar]
    · exact fun tail => hne '\x22' _ tail (by decide)
    · exact fun tail => hne '\x27' _ tail (by decide)
    · exact fun tail => hne '[' _ tail (by decide)
    · exact fun tail => hne '\x7b' _ tail (by decide)

theorem skipTrivia_newline (cs : List Char) : skipTrivia false ('\n' :: cs) = skipTrivia false cs := by
  rw [skipTrivia]

section
variable {levels depth fuel : Nat} {rest : List Char} (hdepth : levels ≤ depth)
include hdepth

end

/-- The text stands for itself as a key. -/
def IsKey (key : String) : Prop := key.toList ≠ [] ∧ key.toList.all isKeyCharacter = true

instance (key : String) : Decidable (IsKey key) := inferInstanceAs (Decidable (_ ∧ _))

theorem IsKey.characters {key : String} (h : IsKey key) : ∀ c ∈ key.toList, isKeyCharacter c = true :=
  List.all_eq_true.mp h.2

theorem not_isKeyCharacter_head {key : String} (h : IsKey key) {d : Char} (hd : isKeyCharacter d = false)
    (rest tail : List Char) : key.toList ++ rest ≠ d :: tail := by
  obtain ⟨c, cs, hcs⟩ := List.exists_cons_of_ne_nil h.1
  intro heq
  have hc := h.characters c (by simp [hcs])
  rw [hcs, List.cons_append] at heq
  rw [(List.cons.inj heq).1, hd] at hc
  cases hc

theorem IsKey.head {key : String} (h : IsKey key) : ∃ c cs, key.toList = c :: cs ∧ IsSolid c := by
  obtain ⟨c, cs, hcs⟩ := List.exists_cons_of_ne_nil h.1
  refine ⟨c, cs, hcs, fun hmem => ?_⟩
  have hc := h.characters c (by simp [hcs])
  revert hc
  simp only [List.mem_cons, List.not_mem_nil, or_false] at hmem
  rcases hmem with rfl | rfl | rfl | rfl | rfl <;> decide

theorem readKey_append {key : String} (h : IsKey key) {rest : List Char}
    (hrest : ∀ c ∈ rest.head?, isKeyCharacter c = false) : readKey (key.toList ++ rest) = some (key, rest) := by
  obtain ⟨htake, hdrop⟩ := span_append h.characters hrest
  unfold readKey
  split
  · rename_i heq
    exact absurd heq (not_isKeyCharacter_head h (by decide) _ _)
  · rename_i heq
    exact absurd heq (not_isKeyCharacter_head h (by decide) _ _)
  · simp [htake, hdrop, h.1]

theorem readKeys_append {key : String} (h : IsKey key) {rest : List Char}
    (hrest : ∀ c ∈ rest.head?, isKeyCharacter c = false) (hdot : ∀ tail, skipSpace rest ≠ '.' :: tail) :
    readKeys (key.toList ++ rest) = some ([], key, skipSpace rest) := by
  have hskip : skipSpace (key.toList ++ rest) = key.toList ++ rest := by
    obtain ⟨c, cs, hcs, hc⟩ := h.head
    simp [skipSpace, hcs, hc.not_isSpace]
  have hpath : readPath (key.toList ++ rest) depthLimit = some (key, [], skipSpace rest) := by
    rw [depthLimit, readPath, hskip, readKey_append h hrest]
    simp only
  rw [readKeys, hpath]
  rfl

theorem readLine_header {name : String} (h : IsKey name) (rest : List Char) :
    readLine ('[' :: (name.toList ++ ']' :: rest)) = some (.header [] name, rest) := by
  have hkeys : readKeys (name.toList ++ ']' :: rest) = some ([], name, ']' :: rest) :=
    readKeys_append h (by simp; decide) (by simp [skipSpace, isSpace])
  unfold readLine readHeader
  simp only
  split
  · rename_i heq
    exact absurd heq (not_isKeyCharacter_head h (by decide) _ _)
  · simp [hkeys]

theorem readLine_entry {key : String} (h : IsKey key) {written : List Char} {value : Toml}
    (hvalue : Shown depthLimit written value) (rest : List Char) :
    readLine (key.toList ++ ' ' :: '=' :: ' ' :: (written ++ '\n' :: rest)) =
      some (.entry [] key value, '\n' :: rest) := by
  have hkeys : readKeys (key.toList ++ ' ' :: '=' :: ' ' :: (written ++ '\n' :: rest)) =
      some ([], key, '=' :: ' ' :: (written ++ '\n' :: rest)) :=
    readKeys_append h (by simp; decide) (by simp [skipSpace, isSpace])
  have hskip : skipSpace (' ' :: (written ++ '\n' :: rest)) = written ++ '\n' :: rest := by
    obtain ⟨c, cs, rfl, hc, -⟩ := hvalue.start
    have hspace := hc.not_isSpace
    simp only [skipSpace, List.cons_append, List.dropWhile_cons, hspace]
    rfl
  have hread : readValue depthLimit (written ++ '\n' :: rest) (2 * (written ++ '\n' :: rest).length + 2) =
      some (value, '\n' :: rest) := hvalue.read (Nat.le_refl _) (by simp; omega) (by simp [EndsValue])
  unfold readLine
  split
  · rename_i heq
    exact absurd heq (not_isKeyCharacter_head h (by decide) _ _)
  · simp only [readAssignment, hkeys, hskip]
    rw [hread]
    rfl

/-- The text writes the lines, whatever follows it. -/
structure ShowsLines (text : String) (lines : List Line) : Prop where
  length_le : lines.length ≤ text.toList.length
  read : ∀ rest fuel, readLines (text.toList ++ rest) (fuel + lines.length) = (readLines rest fuel).map (lines ++ ·)

namespace ShowsLines

theorem empty : ShowsLines "" [] := ⟨Nat.le_refl _, fun rest fuel => by simp⟩

theorem append {s t : String} {ls ms : List Line} (hs : ShowsLines s ls) (ht : ShowsLines t ms) :
    ShowsLines (s ++ t) (ls ++ ms) := by
  refine ⟨?_, fun rest fuel => ?_⟩
  · have hls := hs.length_le
    have hms := ht.length_le
    simp only [String.toList_append, List.length_append]
    omega
  · have hread := hs.read (t.toList ++ rest) (fuel + ms.length)
    rw [ht.read, Nat.add_assoc, Nat.add_comm ms.length] at hread
    rw [String.toList_append, List.append_assoc, List.length_append, hread, Option.map_map]
    congr 1
    funext lines
    simp

theorem blank : ShowsLines "\n" [] := by
  refine ⟨by decide, fun rest fuel => ?_⟩
  cases fuel with
  | zero => rfl
  | succ fuel => simp [readLines, skipTrivia_newline]

/-- A line that is read by itself, up to its end. -/
theorem single {text : String} {line : Line} (hstart : ∃ c cs, text.toList = c :: cs ∧ IsSolid c)
    (hread : ∀ rest, readLine (text.toList ++ '\n' :: rest) = some (line, '\n' :: rest)) :
    ShowsLines (text ++ "\n") [line] := by
  obtain ⟨c, cs, hcs, hc⟩ := hstart
  refine ⟨by simp [hcs], fun rest fuel => ?_⟩
  have htext : (text ++ "\n").toList ++ rest = c :: (cs ++ '\n' :: rest) := by simp [hcs]
  have hline := hread rest
  rw [hcs, List.cons_append] at hline
  have hend : endLine ('\n' :: rest) = some rest := by simp [endLine, skipSpace, isSpace, newline?]
  rw [htext]
  simp [readLines, skipTrivia_of_isSolid hc, hline, hend]

theorem header {name : String} (h : IsKey name) : ShowsLines ("[" ++ name ++ "]\n") [.header [] name] := by
  have hread : ∀ rest, readLine (("[" ++ name ++ "]").toList ++ '\n' :: rest) =
      some (.header [] name, '\n' :: rest) := by
    intro rest
    rw [← readLine_header h]
    simp
  have hline := single ⟨'[', name.toList ++ [']'], by simp, by decide⟩ hread
  rwa [String.append_assoc] at hline

theorem entry {key written : String} {value : Toml} (h : IsKey key) (hvalue : Shown depthLimit written.toList value) :
    ShowsLines (key ++ " = " ++ written ++ "\n") [.entry [] key value] := by
  obtain ⟨c, cs, hcs, hc⟩ := h.head
  apply single
  · exact ⟨c, cs ++ ' ' :: '=' :: ' ' :: written.toList, by simp [hcs], hc⟩
  · intro rest
    rw [← readLine_entry h hvalue]
    simp

end ShowsLines

/-! ## Sections -/

section
variable {key : String}

end

section
variable {name : String} {entries : List (String × Toml)}

theorem find?_eq_none (h : name ∉ entries.map Prod.fst) : (entries.find? fun e => e.1 == name) = none := by
  rw [List.find?_eq_none]
  intro e he heq
  exact h (List.mem_map.mpr ⟨e, he, by simpa using heq⟩)

end

end CodeCorpus.Toml
