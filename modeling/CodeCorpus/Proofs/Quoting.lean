import CodeCorpus.Store.Condition
import CodeCorpus.Uuid
import Mathlib.Algebra.Order.Ring.Nat
import Mathlib.Data.List.Basic

/-!
# What is written into conditions is read back

Identifiers and conditions reach a table as text. An identifier's text is read as the identifier, so no two have
the same text. A quoted text is read back up to its closing quote, whatever it contains, and so a written
condition asks for the column and the values that it was written with.
-/

namespace CodeCorpus

namespace Uuid

/-! ## Identifiers -/

theorem hexDigit?_digitChar {d : Nat} (h : d < 16) : Json.hexDigit? (Nat.digitChar d) = some d := by
  decide +revert

theorem hexFrom?_append (n : Nat) (xs ys : List Char) :
    hexFrom? n (xs ++ ys) = (hexFrom? n xs).bind fun m => hexFrom? m ys := by
  induction xs generalizing n with
  | nil => rfl
  | cons c xs ih =>
    simp only [List.cons_append, hexFrom?]
    cases Json.hexDigit? c with
    | none => rfl
    | some d => exact ih _

/-- The lowest `k` digits of a number, read behind `n`. -/
theorem hexFrom?_hexDigits (v k n : Nat) : hexFrom? n (hexDigits v k) = some (n * 16 ^ k + v % 16 ^ k) := by
  induction k generalizing n with
  | zero => simp [hexDigits, hexFrom?, Nat.mod_one]
  | succ k ih =>
    have hlt : v >>> (4 * k) % 16 < 16 := Nat.mod_lt _ (by decide)
    have hshift : v >>> (4 * k) = v / 16 ^ k := by
      rw [Nat.shiftRight_eq_div_pow, Nat.pow_mul]
    simp only [hexDigits, hexFrom?, hexDigit?_digitChar hlt, ih, Option.some.injEq]
    rw [hshift, Nat.pow_succ, Nat.mod_mul, Nat.add_mul, Nat.mul_assoc, Nat.mul_comm 16, Nat.mul_comm (_ % 16)]
    omega

theorem readGroups?_hexDigits (a b c d e : Nat) :
    readGroups? (hexDigits a 8 ++ '-' :: hexDigits b 4 ++ '-' :: hexDigits c 4 ++ '-' :: hexDigits d 4 ++
      '-' :: hexDigits e 12) =
    (hexFrom? 0 (hexDigits a 8 ++ hexDigits b 4 ++ hexDigits c 4 ++ hexDigits d 4 ++ hexDigits e 12)).map ofNat :=
  rfl

theorem digitChar_ne_u {d : Nat} (h : d < 16) : Nat.digitChar d ≠ 'u' := by
  decide +revert

theorem not_prefix_hexDigits (v k : Nat) (cs : List Char) :
    "urn:uuid:".toList.isPrefixOf (hexDigits v (k + 1) ++ cs) = false := by
  have hne : ('u' == Nat.digitChar (v >>> (4 * k) % 16)) = false :=
    beq_false_of_ne (digitChar_ne_u (Nat.mod_lt _ (by decide))).symm
  simp only [hexDigits, List.cons_append]
  exact (congrArg (· && _) hne).trans (Bool.false_and _)

theorem toList_toText (u : Uuid) :
    u.toText.toList = hexDigits (u.toNat >>> 96) 8 ++ '-' :: hexDigits (u.toNat >>> 80) 4 ++
      '-' :: hexDigits (u.toNat >>> 64) 4 ++ '-' :: hexDigits (u.toNat >>> 48) 4 ++ '-' :: hexDigits u.toNat 12 :=
  String.toList_ofList

theorem groups_value {n : Nat} (h : n < 2 ^ 128) :
    ((((0 * 16 ^ 8 + (n >>> 96) % 16 ^ 8) * 16 ^ 4 + (n >>> 80) % 16 ^ 4) * 16 ^ 4 + (n >>> 64) % 16 ^ 4) * 16 ^ 4 +
      (n >>> 48) % 16 ^ 4) * 16 ^ 12 + n % 16 ^ 12 = n := by
  simp only [Nat.shiftRight_eq_div_pow]
  omega

theorem read?_toText (u : Uuid) : read? u.toText = some u := by
  have hlength : u.toText.toList.length = 36 := by
    rw [toList_toText]
    rfl
  have hprefix : "urn:uuid:".toList.isPrefixOf u.toText.toList = false := by
    rw [toList_toText, List.append_assoc, List.append_assoc, List.append_assoc]
    exact not_prefix_hexDigits _ 7 _
  have hread : read? u.toText = readGroups? u.toText.toList := by
    unfold read?
    simp only [hlength, hprefix]
    rfl
  have hvalue := groups_value (n := u.toNat) u.bits.isLt
  rw [hread, toList_toText, readGroups?_hexDigits]
  simp only [hexFrom?_append, hexFrom?_hexDigits, Option.bind_some, Option.map_some, hvalue]
  simp [ofNat, toNat]

theorem toText_injective {u v : Uuid} (h : u.toText = v.toText) : u = v :=
  Option.some.inj (by rw [← read?_toText, h, read?_toText])

end Uuid

namespace Condition

/-! ## Literals -/

theorem readEscaped_escape (cs : List Char) {rest : List Char} (h : rest.head? ≠ some '\x27') :
    readEscaped (escape cs ++ '\x27' :: rest) = some (cs, rest) := by
  induction cs with
  | nil =>
    cases rest with
    | nil => rfl
    | cons c rest =>
      have hc : c ≠ '\x27' := fun e => h (by rw [e]; rfl)
      simp [escape, readEscaped, hc]
  | cons c cs ih =>
    by_cases hc : c = '\x27'
    · simp [escape, readEscaped, hc, ih]
    · simp [escape, readEscaped, hc, ih]

/-- A quoted text is read up to its closing quote, and no further. -/
theorem readLiteral_quoteChars (cs rest : List Char) (h : rest.head? ≠ some '\x27') :
    readLiteral (quoteChars cs ++ rest) = some (cs, rest) := by
  have hquoted : quoteChars cs ++ rest = '\x27' :: (escape cs ++ '\x27' :: rest) := by
    simp [quoteChars]
  rw [hquoted]
  exact readEscaped_escape cs h

theorem eq_escape_of_readEscaped {cs text rest : List Char} (h : readEscaped cs = some (text, rest)) :
    cs = escape text ++ '\x27' :: rest ∧ rest.head? ≠ some '\x27' := by
  fun_induction readEscaped cs generalizing text with
  | case1 => cases h
  | case2 cs ih =>
    obtain ⟨⟨inner, behind⟩, hread, hpair⟩ := Option.map_eq_some_iff.mp h
    cases hpair
    obtain ⟨rfl, hrest⟩ := ih hread
    exact ⟨by simp [escape], hrest⟩
  | case3 cs hsingle =>
    -- the quote closes the literal, as no second one follows it
    cases h
    refine ⟨rfl, fun hhead => ?_⟩
    obtain ⟨cs', rfl⟩ := List.head?_eq_some_iff.mp hhead
    exact hsingle cs' rfl rfl
  | case4 c cs _ hc ih =>
    obtain ⟨⟨inner, behind⟩, hread, hpair⟩ := Option.map_eq_some_iff.mp h
    cases hpair
    obtain ⟨rfl, hrest⟩ := ih hread
    exact ⟨by simp [escape, hc], hrest⟩

/-- A text is read with a rest behind it just where it stands quoted, and the rest does not go on with a quote. -/
theorem readLiteral_eq_some_iff {cs text rest : List Char} :
    readLiteral cs = some (text, rest) ↔ cs = quoteChars text ++ rest ∧ rest.head? ≠ some '\x27' := by
  constructor
  · intro h
    unfold readLiteral at h
    split at h
    · cases h
    · rename_i c cs
      by_cases hc : c = '\x27'
      · rw [if_pos hc] at h
        obtain ⟨rfl, hrest⟩ := eq_escape_of_readEscaped h
        exact ⟨by simp [quoteChars, hc], hrest⟩
      · rw [if_neg hc] at h
        cases h
  · intro h
    rw [h.1]
    exact readLiteral_quoteChars text rest h.2

@[simp] theorem toList_quote (s : String) : (quote s).toList = quoteChars s.toList := String.toList_ofList

/-! ## Conditions -/

theorem length_le_intercalate (values : List String) :
    values.length ≤ ([',', ' '].intercalate (values.map fun v => quoteChars v.toList)).length := by
  induction values with
  | nil => exact Nat.zero_le _
  | cons v vs ih =>
    have hpos : 1 ≤ (quoteChars v.toList).length := by simp [quoteChars]
    cases vs with
    | nil => simpa using hpos
    | cons v' vs =>
      rw [List.map_cons, List.map_cons, List.intercalate_cons_cons, List.length_append, List.length_append]
      rw [List.map_cons] at ih
      simp only [List.length_cons] at ih ⊢
      omega

theorem readList_quoted {values : List String} (hne : values ≠ []) {fuel : Nat} (h : values.length ≤ fuel) :
    readList fuel ([',', ' '].intercalate (values.map fun v => quoteChars v.toList) ++ [')']) = some values := by
  induction values generalizing fuel with
  | nil => exact absurd rfl hne
  | cons v vs ih =>
    obtain ⟨fuel, rfl⟩ : ∃ n, fuel = n + 1 := ⟨fuel - 1, by simp at h; omega⟩
    cases vs with
    | nil =>
      have hread := readLiteral_quoteChars v.toList [')'] (by decide)
      simp [readList, hread]
    | cons v' vs =>
      have hle : (v' :: vs).length ≤ fuel := by simpa using h
      have htail := ih (by simp) hle
      -- The list behind the first comma keeps a name, so that simplifying does not write out its first literal too.
      generalize hitems : [',', ' '].intercalate ((v' :: vs).map fun v => quoteChars v.toList) ++ [')'] = items at htail
      have hread := readLiteral_quoteChars v.toList (',' :: ' ' :: items) (by simp)
      have hwritten : [',', ' '].intercalate ((v :: v' :: vs).map fun v => quoteChars v.toList) ++ [')'] =
          quoteChars v.toList ++ ',' :: ' ' :: items := by
        rw [← hitems, List.map_cons, List.map_cons, List.intercalate_cons_cons]
        simp
      rw [hwritten]
      simp [readList, hread, htail]

/-- A column's name is read up to the blank behind it. -/
theorem span_column {column : List Char} (h : column.all isColumnCharacter) (rest : List Char) :
    (column ++ ' ' :: rest).takeWhile isColumnCharacter = column ∧
      (column ++ ' ' :: rest).dropWhile isColumnCharacter = ' ' :: rest := by
  rw [List.all_eq_true] at h
  rw [List.takeWhile_append_of_pos h, List.dropWhile_append_of_pos h]
  have hblank : isColumnCharacter ' ' = false := by decide
  simp [hblank]

theorem read?_equals {column : String} (h : column.toList.all isColumnCharacter) (value : String) :
    read? (equals column value) = some ⟨column, [value]⟩ := by
  have hwritten : (equals column value).toList =
      column.toList ++ ' ' :: '=' :: ' ' :: (quoteChars value.toList ++ []) := by
    simp [equals, quote]
  have hspan := span_column h ('=' :: ' ' :: (quoteChars value.toList ++ []))
  have hread := readLiteral_quoteChars value.toList [] (by simp)
  unfold read?
  simp only [hwritten, hspan.1, hspan.2, hread, String.ofList_toList]

theorem read?_isOneOf {column : String} (h : column.toList.all isColumnCharacter) {values : List String}
    (hne : values ≠ []) : read? (isOneOf column values) = some ⟨column, values⟩ := by
  generalize hitems : [',', ' '].intercalate (values.map fun v => quoteChars v.toList) ++ [')'] = items
  have hwritten : (isOneOf column values).toList = column.toList ++ ' ' :: 'I' :: 'N' :: ' ' :: '(' :: items := by
    have hquote : (String.toList ∘ quote) = fun v => quoteChars v.toList := by
      funext v
      simp [quote]
    rw [← hitems]
    simp [isOneOf, String.toList_intercalate, hquote]
  have hspan := span_column h ('I' :: 'N' :: ' ' :: '(' :: items)
  have hfuel : values.length ≤ items.length := by
    have := length_le_intercalate values
    rw [← hitems, List.length_append]
    omega
  have hread : readList items.length items = some values :=
    hitems ▸ readList_quoted hne (by rw [hitems]; exact hfuel)
  unfold read?
  simp only [hwritten, hspan.1, hspan.2, hread, String.ofList_toList, Option.map_some]

end Condition

end CodeCorpus
