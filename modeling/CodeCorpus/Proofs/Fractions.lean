import CodeCorpus.Numeral.Binary
import Mathlib.Algebra.Order.Ring.Int
import Mathlib.Tactic.SplitIfs

/-!
# Fractions of counts

A fraction of two counts is computed in doubles, each of the counts being rounded first. Rounding keeps the order of
naturals (`nearestDouble_mono`), so that a part of a whole is never shown as more than the whole
(`ratioBits64_le_one`).
-/

namespace CodeCorpus.Numeral

/-! ## To the nearest natural -/

theorem roundHalfEven_le {a m d : Nat} (h : a ≤ m * d) (hd : 0 < d) : roundHalfEven a d ≤ m := by
  have hdiv : a / d ≤ m := Nat.div_le_of_le_mul (by rwa [Nat.mul_comm])
  unfold roundHalfEven
  rcases Nat.lt_or_ge (a / d) m with hlt | hge
  · simp only
    split_ifs <;> omega
  · have heq : a / d = m := by omega
    have hsum := Nat.div_add_mod a d
    rw [heq, Nat.mul_comm] at hsum
    have hrest : a % d = 0 := by omega
    simp [heq, hrest, hd]

theorem le_roundHalfEven {a m d : Nat} (h : m * d ≤ a) (hd : 0 < d) : m ≤ roundHalfEven a d := by
  have hdiv : m ≤ a / d := (Nat.le_div_iff_mul_le hd).mpr h
  unfold roundHalfEven
  simp only
  split_ifs <;> omega

theorem roundHalfEven_mono {a b d : Nat} (h : a ≤ b) : roundHalfEven a d ≤ roundHalfEven b d := by
  have hdiv : a / d ≤ b / d := Nat.div_le_div_right h
  have ha := Nat.div_add_mod a d
  have hb := Nat.div_add_mod b d
  unfold roundHalfEven
  simp only
  rcases Nat.lt_or_ge (a / d) (b / d) with hlt | hge
  · split_ifs <;> omega
  · have heq : a / d = b / d := by omega
    rw [heq] at ha ⊢
    split_ifs <;> omega

theorem roundHalfEven_one (a : Nat) : roundHalfEven a 1 = a :=
  Nat.le_antisymm (roundHalfEven_le (Nat.le_of_eq (Nat.mul_one a).symm) Nat.one_pos)
    (le_roundHalfEven (Nat.le_of_eq (Nat.mul_one a)) Nat.one_pos)

theorem floorLog2_one {n : Nat} (h : n ≠ 0) : floorLog2 n 1 = n.log2 := by
  have hle : ¬ n < Nat.pow 2 n.log2 := Nat.not_lt.mpr (Nat.log2_self_le h)
  have hlog : Nat.log2 1 = 0 := by decide
  simp only [floorLog2, hlog, Nat.cast_zero, Int.sub_zero, Nat.one_mul, Int.toNat_natCast, hle]
  simp

/-! ## To the nearest double -/

/-- A natural rounded to 53 binary digits. -/
def snap (n : Nat) : Nat := roundHalfEven n (2 ^ (n.log2 - 52)) * 2 ^ (n.log2 - 52)

theorem snap_of_small {n : Nat} (h : n.log2 < 52) : snap n = n := by
  have hzero : n.log2 - 52 = 0 := by omega
  rw [snap, hzero, Nat.pow_zero, roundHalfEven_one, Nat.mul_one]

theorem le_roundHalfEven_log2 {n : Nat} (h : 52 ≤ n.log2) : 2 ^ 52 ≤ roundHalfEven n (2 ^ (n.log2 - 52)) := by
  have hn : n ≠ 0 := by
    rintro rfl
    simp at h
  apply le_roundHalfEven _ (Nat.two_pow_pos _)
  rw [← Nat.pow_add, Nat.add_sub_cancel' h]
  exact Nat.log2_self_le hn

theorem roundHalfEven_log2_le {n : Nat} (h : 52 ≤ n.log2) : roundHalfEven n (2 ^ (n.log2 - 52)) ≤ 2 ^ 53 := by
  apply roundHalfEven_le _ (Nat.two_pow_pos _)
  rw [← Nat.pow_add, show 53 + (n.log2 - 52) = n.log2 + 1 by omega]
  exact Nat.lt_log2_self.le

theorem le_snap {n : Nat} (h : n ≠ 0) : 2 ^ n.log2 ≤ snap n := by
  rcases Nat.lt_or_ge n.log2 52 with hlt | hge
  · rw [snap_of_small hlt]
    exact Nat.log2_self_le h
  · calc 2 ^ n.log2 = 2 ^ 52 * 2 ^ (n.log2 - 52) := by rw [← Nat.pow_add, Nat.add_sub_cancel' hge]
      _ ≤ snap n := Nat.mul_le_mul_right _ (le_roundHalfEven_log2 hge)

theorem snap_le (n : Nat) : snap n ≤ 2 ^ (n.log2 + 1) := by
  rcases Nat.lt_or_ge n.log2 52 with hlt | hge
  · rw [snap_of_small hlt]
    exact Nat.lt_log2_self.le
  · calc snap n ≤ 2 ^ 53 * 2 ^ (n.log2 - 52) := Nat.mul_le_mul_right _ (roundHalfEven_log2_le hge)
      _ = 2 ^ (n.log2 + 1) := by rw [← Nat.pow_add, show 53 + (n.log2 - 52) = n.log2 + 1 by omega]

theorem log2_mono {n m : Nat} (hn : n ≠ 0) (h : n ≤ m) : n.log2 ≤ m.log2 := by
  apply (Nat.le_log2 (by omega)).mpr
  exact (Nat.log2_self_le hn).trans h

theorem snap_mono {n m : Nat} (hn : n ≠ 0) (h : n ≤ m) : snap n ≤ snap m := by
  rcases (log2_mono hn h).eq_or_lt with heq | hlt
  · unfold snap
    rw [heq]
    exact Nat.mul_le_mul_right _ (roundHalfEven_mono h)
  · calc snap n ≤ 2 ^ (n.log2 + 1) := snap_le n
      _ ≤ 2 ^ m.log2 := Nat.pow_le_pow_right (by decide) hlt
      _ ≤ snap m := le_snap (by omega)

/-- A natural that is no finite double, and is left as it is. -/
def Huge (n : Nat) : Prop := 1023 < n.log2 ∨ n.log2 = 1023 ∧ roundHalfEven n (2 ^ (n.log2 - 52)) = 2 ^ 53

theorem round_small {n : Nat} (hn : n ≠ 0) (h : n.log2 < 52) :
    double.round n 1 = .finite (n * 2 ^ (52 - n.log2)) (n.log2 - 52) := by
  have hq : max ((n.log2 : Int) - ((double.bits : Int) - 1)) double.least = (n.log2 : Int) - 52 := by
    have hbits : (double.bits : Int) - 1 = 52 := rfl
    have hleast : double.least = -1074 := rfl
    omega
  have hneg : ¬ (n.log2 : Int) - 52 ≥ 0 := by omega
  have hexp : (-((n.log2 : Int) - 52)).toNat = 52 - n.log2 := by omega
  have hfit : n * 2 ^ (52 - n.log2) < 2 ^ 53 := by
    calc n * 2 ^ (52 - n.log2) < 2 ^ (n.log2 + 1) * 2 ^ (52 - n.log2) :=
          Nat.mul_lt_mul_of_pos_right Nat.lt_log2_self (Nat.two_pow_pos _)
      _ = 2 ^ 53 := by rw [← Nat.pow_add, show n.log2 + 1 + (52 - n.log2) = 53 by omega]
  have hgreatest : ¬ (n.log2 : Int) - 52 > 971 := by omega
  unfold Format.round
  rw [if_neg hn, floorLog2_one hn, hq]
  simp only [hneg, if_false, hexp, Nat.pow_eq, roundHalfEven_one, double, hfit.ne, hgreatest]

theorem round_large {n : Nat} (h : 52 ≤ n.log2) :
    double.round n 1 = if roundHalfEven n (2 ^ (n.log2 - 52)) = 2 ^ 53 then
        if n.log2 < 1023 then .finite (2 ^ 52) (n.log2 - 51 : Nat) else .infinite
      else if n.log2 ≤ 1023 then .finite (roundHalfEven n (2 ^ (n.log2 - 52))) (n.log2 - 52 : Nat) else .infinite := by
  have hn : n ≠ 0 := by
    rintro rfl
    simp at h
  have hq : max ((n.log2 : Int) - ((double.bits : Int) - 1)) double.least = (n.log2 - 52 : Nat) := by
    have hbits : (double.bits : Int) - 1 = 52 := rfl
    have hleast : double.least = -1074 := rfl
    omega
  unfold Format.round
  rw [if_neg hn, floorLog2_one hn, hq]
  simp only [ge_iff_le, Int.natCast_nonneg, if_true, Int.toNat_natCast, Nat.one_mul, Nat.pow_eq, double]
  split
  · split
    · rw [if_neg (by omega)]
    · rw [if_pos (by omega)]
      congr 1
      omega
  · split
    · rw [if_neg (by omega)]
    · rw [if_pos (by omega)]

theorem nearestDouble_of_huge {n : Nat} (h : Huge n) : nearestDouble n = n := by
  have hlarge : 52 ≤ n.log2 := by
    rcases h with h | h <;> omega
  unfold nearestDouble
  rw [round_large hlarge]
  rcases h with h | ⟨h, hm⟩
  · rw [if_neg (by omega : ¬ n.log2 < 1023), if_neg (by omega : ¬ n.log2 ≤ 1023)]
    simp
  · rw [if_pos hm, if_neg (by omega)]

theorem nearestDouble_of_not_huge {n : Nat} (hn : n ≠ 0) (h : ¬ Huge n) : nearestDouble n = snap n := by
  unfold nearestDouble
  rcases Nat.lt_or_ge n.log2 52 with hlt | hge
  · have hneg : ¬ (n.log2 : Int) - 52 ≥ 0 := by omega
    have hexp : (-((n.log2 : Int) - 52)).toNat = 52 - n.log2 := by omega
    rw [round_small hn hlt]
    simp only [hneg, if_false, hexp, Nat.pow_eq]
    rw [Nat.mul_div_cancel _ (Nat.two_pow_pos _), snap_of_small hlt]
  · have hle : n.log2 ≤ 1023 := by
      by_contra hnot
      exact h (.inl (by omega))
    rw [round_large hge, snap]
    by_cases hm : roundHalfEven n (2 ^ (n.log2 - 52)) = 2 ^ 53
    · have hlt : n.log2 < 1023 := by
        by_contra hnot
        exact h (.inr ⟨by omega, hm⟩)
      rw [if_pos hm, if_pos hlt, hm]
      simp only [ge_iff_le, Int.natCast_nonneg, if_true, Int.toNat_natCast, Nat.pow_eq]
      rw [← Nat.pow_add, ← Nat.pow_add, show 52 + (n.log2 - 51) = 53 + (n.log2 - 52) by omega]
    · rw [if_neg hm, if_pos hle]
      simp only [ge_iff_le, Int.natCast_nonneg, if_true, Int.toNat_natCast, Nat.pow_eq]

theorem nearestDouble_mono {n m : Nat} (hn : n ≠ 0) (h : n ≤ m) : nearestDouble n ≤ nearestDouble m := by
  have hm : m ≠ 0 := by omega
  have hlog := log2_mono hn h
  by_cases hbig : Huge m
  · rw [nearestDouble_of_huge hbig]
    by_cases hbig' : Huge n
    · rw [nearestDouble_of_huge hbig']
      exact h
    · rw [nearestDouble_of_not_huge hn hbig']
      rcases hlog.eq_or_lt with heq | hlt
      · -- both have 1024 digits, and only the greater is rounded to one more
        obtain ⟨hlog', hround⟩ : m.log2 = 1023 ∧ roundHalfEven m (2 ^ (m.log2 - 52)) = 2 ^ 53 := by
          rcases hbig with hbig | hbig
          · exact absurd (.inl (heq ▸ hbig)) hbig'
          · exact hbig
        have hlt : roundHalfEven n (2 ^ (n.log2 - 52)) < 2 ^ 53 := by
          apply lt_of_le_of_ne (roundHalfEven_log2_le (by omega))
          intro hround'
          exact hbig' (.inr ⟨by omega, hround'⟩)
        have hge : (2 ^ 53 - 1) * 2 ^ (m.log2 - 52) ≤ m := by
          by_contra hnot
          have hround' := roundHalfEven_le (Nat.le_of_lt (Nat.not_le.mp hnot)) (Nat.two_pow_pos _)
          omega
        calc snap n ≤ (2 ^ 53 - 1) * 2 ^ (n.log2 - 52) := Nat.mul_le_mul_right _ (by omega)
          _ ≤ m := by rwa [heq]
      · calc snap n ≤ 2 ^ (n.log2 + 1) := snap_le n
          _ ≤ 2 ^ m.log2 := Nat.pow_le_pow_right (by decide) hlt
          _ ≤ m := Nat.log2_self_le hm
  · have hbig' : ¬ Huge n := by
      rintro (hbig' | ⟨hlog', hround⟩)
      · exact hbig (.inl (by omega))
      · rcases hlog.eq_or_lt with heq | hlt
        · have hround' := roundHalfEven_mono (d := 2 ^ (n.log2 - 52)) h
          rw [hround, heq] at hround'
          have hle := roundHalfEven_log2_le (n := m) (by omega)
          exact hbig (.inr ⟨by omega, by omega⟩)
        · exact hbig (.inl (by omega))
    rw [nearestDouble_of_not_huge hn hbig', nearestDouble_of_not_huge hm hbig]
    exact snap_mono hn h

theorem nearestDouble_pos {n : Nat} (hn : n ≠ 0) : 0 < nearestDouble n := by
  by_cases hbig : Huge n
  · rw [nearestDouble_of_huge hbig]
    omega
  · rw [nearestDouble_of_not_huge hn hbig]
    exact (Nat.two_pow_pos _).trans_le (le_snap hn)

/-! ## Ratios -/

/-- The exponent of a ratio below one is negative, and bounds it. -/
theorem floorLog2_of_lt {a b : Nat} (ha : a ≠ 0) (h : a < b) :
    ∃ k : Nat, floorLog2 a b = -(k + 1 : Nat) ∧ a * 2 ^ (k + 1) ≤ 2 * b := by
  have hb : b ≠ 0 := by omega
  unfold floorLog2
  rcases (log2_mono ha h.le).eq_or_lt with heq | hlt
  · refine ⟨0, ?_, by omega⟩
    have hzero : (a.log2 : Int) - b.log2 = 0 := by omega
    simp [hzero, h]
  · have hneg : ¬ (a.log2 : Int) - b.log2 ≥ 0 := by omega
    have hexp : (-((a.log2 : Int) - b.log2)).toNat = b.log2 - a.log2 := by omega
    simp only [hneg, if_false, hexp, Nat.pow_eq, decide_eq_true_eq]
    by_cases hbelow : a * 2 ^ (b.log2 - a.log2) < b
    · refine ⟨b.log2 - a.log2, ?_, ?_⟩
      · rw [if_pos hbelow]
        omega
      · rw [Nat.pow_succ, ← Nat.mul_assoc]
        omega
    · refine ⟨b.log2 - a.log2 - 1, ?_, ?_⟩
      · rw [if_neg hbelow]
        omega
      · rw [show b.log2 - a.log2 - 1 + 1 = b.log2 - a.log2 by omega]
        calc a * 2 ^ (b.log2 - a.log2) ≤ 2 ^ (a.log2 + 1) * 2 ^ (b.log2 - a.log2) :=
              Nat.mul_le_mul_right _ Nat.lt_log2_self.le
          _ = 2 * 2 ^ b.log2 := by
              rw [← Nat.pow_add, show a.log2 + 1 + (b.log2 - a.log2) = b.log2 + 1 by omega, Nat.pow_succ, Nat.mul_comm]
          _ ≤ 2 * b := Nat.mul_le_mul_left 2 (Nat.log2_self_le hb)

theorem floorLog2_self {a : Nat} : floorLog2 a a = 0 := by
  simp [floorLog2]

/-- A value of the format that is one at most, with as many digits as the format has where it has room for them. -/
def Format.AtMostOne (f : Format) (v : Magnitude) : Prop :=
  ∃ m j : Nat, v = .finite m (-(j : Int)) ∧ (j : Int) ≤ -f.least ∧
    (f.bits ≤ j ∧ m < 2 ^ f.bits ∨ f.bits ≤ j + 1 ∧ m ≤ 2 ^ (f.bits - 1))

/-- The format has more than one binary digit, and room for all of them below one. -/
structure Format.Fine (f : Format) : Prop where
  bits : 1 < f.bits
  least : (f.bits : Int) ≤ -f.least
  greatest : 0 ≤ f.greatest

theorem Format.Fine.pow_bits {f : Format} (hf : f.Fine) : 2 ^ f.bits = 2 ^ (f.bits - 1) * 2 :=
  (Nat.two_pow_pred_mul_two (Nat.zero_lt_of_lt hf.bits)).symm

theorem fine_double : double.Fine := ⟨by decide, by decide, by decide⟩

variable {f : Format}

theorem Format.Fine.atMostOne_zero (hf : f.Fine) : f.AtMostOne (.finite 0 f.least) := by
  have hleast := hf.least
  refine ⟨0, (-f.least).toNat, ?_, by omega, .inl ⟨by omega, Nat.two_pow_pos _⟩⟩
  rw [Int.toNat_of_nonneg (by omega), neg_neg]

/-- A ratio of naturals of which the first is not greater is rounded to one at most. -/
theorem Format.Fine.round_atMostOne (hf : f.Fine) {a b : Nat} (hb : 0 < b) (h : a ≤ b) : f.AtMostOne (f.round a b) := by
  have hbits := hf.bits
  have hleast := hf.least
  have hgreatest := hf.greatest
  unfold Format.round
  by_cases ha : a = 0
  · rw [if_pos ha]
    exact hf.atMostOne_zero
  obtain ⟨j, hq, hj, hm⟩ : ∃ j : Nat, max (floorLog2 a b - ((f.bits : Int) - 1)) f.least = -(j : Int) ∧
      (j : Int) ≤ -f.least ∧ (f.bits ≤ j ∧ roundHalfEven (a * 2 ^ j) b ≤ 2 ^ f.bits ∨
        f.bits ≤ j + 1 ∧ roundHalfEven (a * 2 ^ j) b ≤ 2 ^ (f.bits - 1)) := by
    rcases h.eq_or_lt with rfl | hlt
    · refine ⟨f.bits - 1, ?_, by omega, .inr ⟨by omega, roundHalfEven_le (Nat.le_of_eq (Nat.mul_comm _ _)) hb⟩⟩
      rw [floorLog2_self]
      omega
    · obtain ⟨k, hk, hle⟩ := floorLog2_of_lt ha hlt
      refine ⟨min (k + f.bits) (-f.least).toNat, by omega, by omega, .inl ⟨by omega, roundHalfEven_le ?_ hb⟩⟩
      calc a * 2 ^ min (k + f.bits) (-f.least).toNat ≤ a * 2 ^ (k + 1 + (f.bits - 1)) :=
            Nat.mul_le_mul_left a (Nat.pow_le_pow_right (by decide) (by omega))
        _ = a * 2 ^ (k + 1) * 2 ^ (f.bits - 1) := by rw [Nat.pow_add, Nat.mul_assoc]
        _ ≤ 2 * b * 2 ^ (f.bits - 1) := Nat.mul_le_mul_right _ hle
        _ = 2 ^ f.bits * b := by rw [hf.pow_bits, Nat.mul_comm 2 b, Nat.mul_assoc, Nat.mul_comm b, Nat.mul_comm 2]
  have hneg : ¬ -(j : Int) ≥ 0 := by omega
  rw [if_neg ha, hq]
  simp only [hneg, if_false, neg_neg, Int.toNat_natCast, Nat.pow_eq]
  by_cases hcarry : roundHalfEven (a * 2 ^ j) b = 2 ^ f.bits
  · have hpow := hf.pow_bits
    have hpos := Nat.two_pow_pos (f.bits - 1)
    have hroom : f.bits ≤ j := by omega
    have hfinite : ¬ -(j : Int) + 1 > f.greatest := by omega
    simp only [hcarry, if_true, hfinite, if_false]
    exact ⟨2 ^ (f.bits - 1), j - 1, by congr 1; omega, by omega, .inr ⟨by omega, Nat.le_refl _⟩⟩
  · have hfinite : ¬ -(j : Int) > f.greatest := by omega
    simp only [hcarry, if_false, hfinite]
    exact ⟨_, j, rfl, hj, hm.imp (fun hm => ⟨hm.1, by omega⟩) id⟩

theorem Format.Fine.encode_le (hf : f.Fine) {v : Magnitude} (h : f.AtMostOne v) :
    f.encode v ≤ (-f.least - f.bits + 2).toNat * 2 ^ (f.bits - 1) := by
  obtain ⟨m, j, rfl, hj, hm⟩ := h
  have hleast := hf.least
  have hbits := hf.pow_bits
  obtain ⟨k, hk⟩ : ∃ k, (-f.least - f.bits + 2).toNat = k + 1 := ⟨(-f.least - f.bits + 1).toNat, by omega⟩
  have hsum : (k + 1) * 2 ^ (f.bits - 1) = k * 2 ^ (f.bits - 1) + 2 ^ (f.bits - 1) := Nat.succ_mul _ _
  unfold Format.encode
  simp only [Nat.pow_eq, hk]
  split
  · omega
  · rcases hm with ⟨hroom, hm⟩ | ⟨hroom, hm⟩
    · have hexp : (-(j : Int) - f.least + 1).toNat * 2 ^ (f.bits - 1) ≤ k * 2 ^ (f.bits - 1) :=
        Nat.mul_le_mul_right _ (by omega)
      omega
    · have hexp : (-(j : Int) - f.least + 1).toNat * 2 ^ (f.bits - 1) ≤ (k + 1) * 2 ^ (f.bits - 1) :=
        Nat.mul_le_mul_right _ (by omega)
      omega

/-- A ratio of naturals of which the first is not greater is encoded as one at most. -/
theorem encode_round_le {a b : Nat} (hb : 0 < b) (h : a ≤ b) : double.encode (double.round a b) ≤ 1023 * 2 ^ 52 :=
  fine_double.encode_le (fine_double.round_atMostOne hb h)

theorem ratioBits64_le_one {num den : Nat} (h : num ≤ den) (hden : den ≠ 0) :
    ratioBits64 num den ≤ ratioBits64 1 1 := by
  have hone : ratioBits64 1 1 = 1023 * 2 ^ 52 := by decide +kernel
  rw [hone, ratioBits64, if_neg hden]
  apply encode_round_le (nearestDouble_pos hden)
  by_cases hnum : num = 0
  · have hzero : nearestDouble 0 = 0 := by decide +kernel
    rw [hnum, hzero]
    exact Nat.zero_le _
  · exact nearestDouble_mono hnum h

end CodeCorpus.Numeral
