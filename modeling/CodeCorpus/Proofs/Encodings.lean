import CodeCorpus.Text.Decoding
import Mathlib.Data.List.Basic
import Mathlib.Tactic.IntervalCases

/-!
# Which bytes are text

Bytes are well formed if they are characters one after another, each with as many bytes as its leading byte asks for,
and with the second one in the bounds that this byte sets. These bounds leave out the longer forms of a character, the
surrogates, and the numbers above the last character. So well-formed bytes are just those that encode a text.
-/

namespace CodeCorpus.Text

/-- The bytes of one character: a byte below 0x80, or a leading byte with the bytes that it asks for. -/
inductive IsCharacter : List UInt8 → Prop
  | single {b : UInt8} (h : b < 0x80) : IsCharacter [b]
  | several {lead low high second : UInt8} {others : List UInt8}
    (hlead : followers lead = some (low, high, others.length)) (hlow : low ≤ second) (hhigh : second ≤ high)
    (hothers : ∀ b ∈ others, 0x80 ≤ b ∧ b ≤ 0xBF) : IsCharacter (lead :: second :: others)

inductive WellFormed : List UInt8 → Prop
  | nil : WellFormed []
  | cons {bs rest : List UInt8} (h : IsCharacter bs) (hrest : WellFormed rest) : WellFormed (bs ++ rest)

/-! ## Leading bytes -/

section
variable {n : Nat}

theorem followers_two (h : 0xC2 ≤ n ∧ n ≤ 0xDF) : followers (UInt8.ofNat n) = some (0x80, 0xBF, 0) := by
  obtain ⟨hlow, hhigh⟩ := h
  interval_cases n <;> rfl

theorem followers_three (h : 0xE0 ≤ n ∧ n ≤ 0xEF) :
    followers (UInt8.ofNat n) = some (if n = 0xE0 then 0xA0 else 0x80, if n = 0xED then 0x9F else 0xBF, 1) := by
  obtain ⟨hlow, hhigh⟩ := h
  interval_cases n <;> rfl

theorem followers_four (h : 0xF0 ≤ n ∧ n ≤ 0xF4) :
    followers (UInt8.ofNat n) = some (if n = 0xF0 then 0x90 else 0x80, if n = 0xF4 then 0x8F else 0xBF, 2) := by
  obtain ⟨hlow, hhigh⟩ := h
  interval_cases n <;> rfl

end

theorem followers_cases {lead : UInt8} {found : UInt8 × UInt8 × Nat} (h : followers lead = some found) :
    (0xC2 ≤ lead.toNat ∧ lead.toNat ≤ 0xDF) ∨ (0xE0 ≤ lead.toNat ∧ lead.toNat ≤ 0xEF) ∨
      (0xF0 ≤ lead.toNat ∧ lead.toNat ≤ 0xF4) := by
  unfold followers at h
  simp only [Bool.and_eq_true, Bool.or_eq_true, decide_eq_true_eq, beq_iff_eq, UInt8.le_iff_toNat_le,
    ← UInt8.toNat_inj, UInt8.reduceToNat] at h
  grind

/-! ## Characters -/

theorem isCharacter_encode (c : Char) : IsCharacter (String.utf8EncodeChar c) := by
  have hvalid : c.val.toNat < 0xD800 ∨ 0xDFFF < c.val.toNat ∧ c.val.toNat < 0x110000 := c.valid
  unfold String.utf8EncodeChar
  generalize c.val.toNat = v at hvalid
  dsimp only
  split_ifs with h1 h2 h3
  · refine .single ?_
    simp only [UInt8.lt_iff_toNat_lt, UInt8.toNat_ofNat', UInt8.reduceToNat]
    omega
  · refine .several (followers_two (by omega)) ?_ ?_ (List.forall_mem_nil _)
    all_goals simp only [UInt8.le_iff_toNat_le, UInt8.toNat_ofNat', UInt8.reduceToNat]
    all_goals omega
  · -- 0xE0 takes no number below 0x800, which has a shorter form, and 0xED no surrogate
    refine .several (followers_three (by omega)) ?_ ?_ (List.forall_mem_singleton.mpr ?_)
    all_goals simp only [UInt8.le_iff_toNat_le, apply_ite UInt8.toNat, UInt8.toNat_ofNat', UInt8.reduceToNat]
    · split_ifs <;> omega
    · split_ifs <;> omega
    · omega
  · refine .several (followers_four (by omega)) ?_ ?_ (List.forall_mem_cons.mpr ⟨?_, List.forall_mem_singleton.mpr ?_⟩)
    all_goals simp only [UInt8.le_iff_toNat_le, apply_ite UInt8.toNat, UInt8.toNat_ofNat', UInt8.reduceToNat]
    · split_ifs <;> omega
    · split_ifs <;> omega
    · omega
    · omega

theorem exists_character {v : Nat} (h : v < 0xD800 ∨ 0xDFFF < v ∧ v < 0x110000) : ∃ c : Char, c.val.toNat = v :=
  ⟨Char.ofNatAux v h, rfl⟩

theorem ofNat_eq {n : Nat} {b : UInt8} (h : n = b.toNat) : UInt8.ofNat n = b := by
  rw [h, UInt8.ofNat_toNat]

section
variable {lead second : UInt8}

theorem exists_encode_one (h : lead.toNat < 0x80) : ∃ c : Char, String.utf8EncodeChar c = [lead] := by
  obtain ⟨c, hc⟩ := exists_character (v := lead.toNat) (by omega)
  refine ⟨c, ?_⟩
  unfold String.utf8EncodeChar
  rw [hc, if_pos (by omega), UInt8.ofNat_toNat]

theorem exists_encode_two (hlead : 0xC2 ≤ lead.toNat ∧ lead.toNat ≤ 0xDF)
    (hsecond : 0x80 ≤ second.toNat ∧ second.toNat ≤ 0xBF) : ∃ c : Char, String.utf8EncodeChar c = [lead, second] := by
  obtain ⟨c, hc⟩ := exists_character (v := (lead.toNat - 0xC0) * 64 + (second.toNat - 0x80)) (by omega)
  refine ⟨c, ?_⟩
  unfold String.utf8EncodeChar
  dsimp only
  rw [if_neg (by omega), if_pos (by omega), ofNat_eq (b := lead) (by omega), ofNat_eq (b := second) (by omega)]

theorem exists_encode_three {third : UInt8} (hlead : 0xE0 ≤ lead.toNat ∧ lead.toNat ≤ 0xEF)
    (hlow : (if lead.toNat = 0xE0 then 0xA0 else 0x80) ≤ second.toNat)
    (hhigh : second.toNat ≤ if lead.toNat = 0xED then 0x9F else 0xBF)
    (hthird : 0x80 ≤ third.toNat ∧ third.toNat ≤ 0xBF) :
    ∃ c : Char, String.utf8EncodeChar c = [lead, second, third] := by
  have hsecond : 0x80 ≤ second.toNat ∧ second.toNat ≤ 0xBF := by split_ifs at hlow hhigh <;> omega
  obtain ⟨v, hv⟩ : ∃ v, v = (lead.toNat - 0xE0) * 4096 + (second.toNat - 0x80) * 64 + (third.toNat - 0x80) := ⟨_, rfl⟩
  have hlong : 0x7FF < v := by split_ifs at hlow <;> omega
  have hvalid : v < 0xD800 ∨ 0xDFFF < v := by split_ifs at hhigh <;> omega
  obtain ⟨c, rfl⟩ := exists_character (v := v) (by omega)
  refine ⟨c, ?_⟩
  unfold String.utf8EncodeChar
  dsimp only
  rw [if_neg (by omega), if_neg (by omega), if_pos (by omega), ofNat_eq (b := lead) (by omega),
    ofNat_eq (b := second) (by omega), ofNat_eq (b := third) (by omega)]

theorem exists_encode_four {third fourth : UInt8} (hlead : 0xF0 ≤ lead.toNat ∧ lead.toNat ≤ 0xF4)
    (hlow : (if lead.toNat = 0xF0 then 0x90 else 0x80) ≤ second.toNat)
    (hhigh : second.toNat ≤ if lead.toNat = 0xF4 then 0x8F else 0xBF)
    (hthird : 0x80 ≤ third.toNat ∧ third.toNat ≤ 0xBF) (hfourth : 0x80 ≤ fourth.toNat ∧ fourth.toNat ≤ 0xBF) :
    ∃ c : Char, String.utf8EncodeChar c = [lead, second, third, fourth] := by
  have hsecond : 0x80 ≤ second.toNat ∧ second.toNat ≤ 0xBF := by split_ifs at hlow hhigh <;> omega
  obtain ⟨v, hv⟩ : ∃ v, v = (lead.toNat - 0xF0) * 262144 + (second.toNat - 0x80) * 4096 + (third.toNat - 0x80) * 64 +
    (fourth.toNat - 0x80) := ⟨_, rfl⟩
  have hlong : 0xFFFF < v := by split_ifs at hlow <;> omega
  have hvalid : v < 0x110000 := by split_ifs at hhigh <;> omega
  obtain ⟨c, rfl⟩ := exists_character (v := v) (by omega)
  refine ⟨c, ?_⟩
  unfold String.utf8EncodeChar
  dsimp only
  rw [if_neg (by omega), if_neg (by omega), if_neg (by omega), ofNat_eq (b := lead) (by omega),
    ofNat_eq (b := second) (by omega), ofNat_eq (b := third) (by omega), ofNat_eq (b := fourth) (by omega)]

end

theorem exists_encode {bs : List UInt8} (h : IsCharacter bs) : ∃ c : Char, String.utf8EncodeChar c = bs := by
  cases h with
  | single h => exact exists_encode_one (UInt8.lt_iff_toNat_lt.mp h)
  | @several lead low high second others hlead hlow hhigh hothers =>
    simp only [UInt8.le_iff_toNat_le, UInt8.reduceToNat] at hlow hhigh hothers
    rcases followers_cases hlead with h | h | h
    · rw [← UInt8.ofNat_toNat (x := lead), followers_two h, Option.some.injEq, Prod.mk.injEq, Prod.mk.injEq] at hlead
      obtain ⟨rfl, rfl, hlength⟩ := hlead
      obtain rfl := List.length_eq_zero_iff.mp hlength.symm
      exact exists_encode_two h ⟨hlow, hhigh⟩
    · rw [← UInt8.ofNat_toNat (x := lead), followers_three h, Option.some.injEq, Prod.mk.injEq, Prod.mk.injEq] at hlead
      obtain ⟨rfl, rfl, hlength⟩ := hlead
      obtain ⟨third, rfl⟩ := List.length_eq_one_iff.mp hlength.symm
      rw [apply_ite UInt8.toNat] at hlow hhigh
      exact exists_encode_three h hlow hhigh (hothers third List.mem_cons_self)
    · rw [← UInt8.ofNat_toNat (x := lead), followers_four h, Option.some.injEq, Prod.mk.injEq, Prod.mk.injEq] at hlead
      obtain ⟨rfl, rfl, hlength⟩ := hlead
      obtain ⟨third, fourth, rfl⟩ := List.length_eq_two.mp hlength.symm
      rw [apply_ite UInt8.toNat] at hlow hhigh
      exact exists_encode_four h hlow hhigh (hothers third List.mem_cons_self) (hothers fourth (by simp))

/-! ## Texts -/

theorem wellFormed_encode (cs : List Char) : WellFormed (cs.flatMap String.utf8EncodeChar) := by
  induction cs with
  | nil => exact .nil
  | cons c cs ih =>
    rw [List.flatMap_cons]
    exact .cons (isCharacter_encode c) ih

theorem exists_encode_of_wellFormed {bs : List UInt8} (h : WellFormed bs) :
    ∃ cs : List Char, cs.flatMap String.utf8EncodeChar = bs := by
  induction h with
  | nil => exact ⟨[], rfl⟩
  | cons h _ ih =>
    obtain ⟨c, rfl⟩ := exists_encode h
    obtain ⟨cs, rfl⟩ := ih
    exact ⟨c :: cs, List.flatMap_cons⟩

theorem bytes_toUTF8 (s : String) : s.toUTF8.data.toList = s.toList.flatMap String.utf8EncodeChar := by
  have hs : s.toUTF8 = s.toList.utf8Encode := String.utf8Encode_toList.symm
  rw [hs]
  exact List.toList_data_toByteArray

theorem decode?_eq_some_iff {bytes : ByteArray} {s : String} : decode? bytes = some s ↔ s.toUTF8 = bytes := by
  constructor
  · intro h
    unfold decode? String.fromUTF8? at h
    split at h
    · cases h
      rfl
    · cases h
  · intro h
    rw [← h]
    exact decode?_toUTF8 s

/-- Well-formed bytes encode a text, and no others do. -/
theorem exists_decode?_iff {bytes : ByteArray} : (∃ s, decode? bytes = some s) ↔ WellFormed bytes.data.toList := by
  simp only [decode?_eq_some_iff]
  constructor
  · intro ⟨s, hs⟩
    rw [← hs, bytes_toUTF8]
    exact wellFormed_encode s.toList
  · intro h
    obtain ⟨cs, hcs⟩ := exists_encode_of_wellFormed h
    refine ⟨String.ofList cs, ?_⟩
    rw [ByteArray.ext_iff, ← Array.toList_inj, bytes_toUTF8, String.toList_ofList, hcs]

end CodeCorpus.Text
