import CodeIndex.Decimal.Binary64
import Mathlib.Tactic.Linarith
import Mathlib.Tactic.Ring

/-!
# Rounded quotients and natural numbers in binary64

* `divNearest_lower`, `divNearest_upper`, `even_of_tie` : the rounded quotient is no further than a
  half from the exact one, and at a half it is even;
* `divNearest_mono`, `divNearest_le`, `le_divNearest` : rounding keeps the order, also towards
  integers;
* `Binary64.grain` : the weight of the last bit that binary64 keeps of a natural number;
* `Binary64.ofNat_eq` : the number nearest to a natural number is the one nearest on this grid.
-/

namespace CodeIndex

namespace Decimal

/-! ## Rounded quotients -/

variable {d : Nat}

/-- The quotient is rounded down or up, at a half to the even side. -/
theorem divNearest_cases (n d : Nat) :
    (divNearest n d = n / d ∧ 2 * (n % d) ≤ d ∧ (2 * (n % d) = d → Even (n / d))) ∨
    (divNearest n d = n / d + 1 ∧ d ≤ 2 * (n % d) ∧ (2 * (n % d) = d → Even (n / d + 1))) := by
  simp only [divNearest, Nat.even_iff]
  split_ifs <;> omega

theorem divNearest_lower (n : Nat) (hd : 0 < d) : 2 * (d * divNearest n d) ≤ 2 * n + d := by
  have hn := Nat.div_add_mod n d
  have hr := Nat.mod_lt n hd
  obtain ⟨hq, hle, -⟩ | ⟨hq, hle, -⟩ := divNearest_cases n d
  · rw [hq]
    omega
  · rw [hq, Nat.mul_add]
    omega

theorem divNearest_upper (n : Nat) (hd : 0 < d) : 2 * n ≤ 2 * (d * divNearest n d) + d := by
  have hn := Nat.div_add_mod n d
  have hr := Nat.mod_lt n hd
  obtain ⟨hq, hle, -⟩ | ⟨hq, hle, -⟩ := divNearest_cases n d
  · rw [hq]
    omega
  · rw [hq, Nat.mul_add]
    omega

/-- Of two integers that are equally near, the even one is taken. -/
theorem even_of_tie {n : Nat} (hd : 0 < d)
    (h : 2 * (d * divNearest n d) = 2 * n + d ∨ 2 * n = 2 * (d * divNearest n d) + d) :
    Even (divNearest n d) := by
  have hn := Nat.div_add_mod n d
  have hr := Nat.mod_lt n hd
  obtain ⟨hq, hle, heven⟩ | ⟨hq, hle, heven⟩ := divNearest_cases n d
  · rw [hq] at h ⊢
    apply heven
    omega
  · rw [hq, Nat.mul_add] at h
    rw [hq]
    apply heven
    omega

theorem divNearest_mono {a b : Nat} (hd : 0 < d) (h : a ≤ b) :
    divNearest a d ≤ divNearest b d := by
  by_contra hlt
  have hstep : d * (divNearest b d + 1) ≤ d * divNearest a d :=
    Nat.mul_le_mul_left d (by omega)
  have hlower := divNearest_lower a hd
  have hupper := divNearest_upper b hd
  rw [Nat.mul_add, Nat.mul_one] at hstep
  -- nothing is between the two, so they are the same
  obtain rfl : a = b := by omega
  exact hlt le_rfl

theorem divNearest_mul (k : Nat) (hd : 0 < d) : divNearest (d * k) d = k := by
  simp [divNearest, Nat.mul_div_cancel_left k hd, hd]

theorem divNearest_le {n k : Nat} (hd : 0 < d) (h : n ≤ d * k) : divNearest n d ≤ k := by
  have hmono := divNearest_mono hd h
  rwa [divNearest_mul k hd] at hmono

theorem le_divNearest {n k : Nat} (hd : 0 < d) (h : d * k ≤ n) : k ≤ divNearest n d := by
  have hmono := divNearest_mono hd h
  rwa [divNearest_mul k hd] at hmono

end Decimal

namespace Binary64
open Decimal

/-! ## Natural numbers -/

/-- The weight of the last of the 53 bits that are kept of a natural number. -/
def grain (n : Nat) : Nat := 2 ^ (n.log2 - 52)

theorem grain_pos (n : Nat) : 0 < grain n := Nat.two_pow_pos _

/-- A number has 53 bits of its grain at most. -/
theorem le_grain_mul (n : Nat) : n ≤ grain n * 2 ^ 53 := by
  have hlt := Nat.lt_log2_self (n := n)
  have hle : 2 ^ (n.log2 + 1) ≤ grain n * 2 ^ 53 := by
    rw [grain, ← Nat.pow_add]
    exact Nat.pow_le_pow_right (by decide) (by omega)
  omega

theorem log2_lt_of_lt {n k : Nat} (hk : 0 < k) (h : n < 2 ^ k) : n.log2 < k := by
  by_cases hn : n = 0
  · subst hn
    exact hk
  · exact (Nat.log2_lt hn).mpr h

theorem grain_of_lt {n : Nat} (h : n < 2 ^ 53) : grain n = 1 := by
  have hlog := log2_lt_of_lt (by decide) h
  rw [grain, show n.log2 - 52 = 0 by omega, pow_zero]

/-- The exponent at which a number has its 53 bits. -/
theorem ofNat_eq_ofRounded {n : Nat} (hn : n ≠ 0) :
    ofNat n = ofRounded false (divNearest (scaled n 1 (Int.ofNat n.log2 - 52)).1
      (scaled n 1 (Int.ofNat n.log2 - 52)).2) (Int.ofNat n.log2 - 52) := by
  have hguess : max (Int.ofNat n.log2 - Int.ofNat (1 : Nat).log2 - 53) minExponent =
      Int.ofNat n.log2 - 53 := by
    have hone : (1 : Nat).log2 = 0 := by decide
    rw [hone, minExponent]
    simp only [Int.ofNat_eq_natCast]
    omega
  have hle := Nat.log2_self_le hn
  have hquotient : ¬ (scaled n 1 (Int.ofNat n.log2 - 53)).1 /
      (scaled n 1 (Int.ofNat n.log2 - 53)).2 < twoTo 53 := by
    rw [Nat.not_lt]
    by_cases hlog : 53 ≤ n.log2
    · obtain ⟨k, hk⟩ := Nat.exists_eq_add_of_le hlog
      have hexp : Int.ofNat n.log2 - 53 = Int.ofNat k := by
        simp only [Int.ofNat_eq_natCast]
        omega
      rw [hexp]
      show 2 ^ 53 ≤ n / (1 * 2 ^ k)
      rw [Nat.one_mul, Nat.le_div_iff_mul_le (Nat.two_pow_pos k), ← Nat.pow_add, ← hk]
      exact hle
    · have hexp : Int.ofNat n.log2 - 53 = Int.negSucc (52 - n.log2) := by
        simp only [Int.ofNat_eq_natCast, Int.negSucc_eq]
        omega
      rw [hexp]
      show 2 ^ 53 ≤ n * 2 ^ (52 - n.log2 + 1) / 1
      rw [Nat.div_one]
      calc 2 ^ 53 = 2 ^ n.log2 * 2 ^ (52 - n.log2 + 1) := by
            rw [← Nat.pow_add, show n.log2 + (52 - n.log2 + 1) = 53 by omega]
        _ ≤ n * 2 ^ (52 - n.log2 + 1) := Nat.mul_le_mul_right _ hle
  have hexp : Int.ofNat n.log2 - 53 + 1 = Int.ofNat n.log2 - 52 := by omega
  simp only [ofNat, ofRatio, if_neg hn, hguess, if_neg hquotient, hexp]

/-- A natural number of 64 bits is rounded to a multiple of its grain. -/
theorem ofNat_eq {n : Nat} (h : n < 2 ^ 64) : ∃ m e, ofNat n = .finite false m e ∧
    (ratio m e).1 / (ratio m e).2 = grain n * divNearest n (grain n) := by
  by_cases hn : n = 0
  · subst hn
    exact ⟨0, minExponent, rfl, by decide +kernel⟩
  have hlog : n.log2 < 64 := log2_lt_of_lt (by decide) h
  rw [ofNat_eq_ofRounded hn]
  by_cases hwide : 52 ≤ n.log2
  · obtain ⟨k, hk⟩ := Nat.exists_eq_add_of_le hwide
    have hexp : Int.ofNat n.log2 - 52 = Int.ofNat k := by
      simp only [Int.ofNat_eq_natCast]
      omega
    have hgrain : grain n = 2 ^ k := by rw [grain, hk, Nat.add_sub_cancel_left]
    have hscaled : divNearest (scaled n 1 (Int.ofNat k)).1 (scaled n 1 (Int.ofNat k)).2 =
        divNearest n (grain n) := by
      show divNearest n (1 * 2 ^ k) = _
      rw [Nat.one_mul, hgrain]
    rw [hexp, hscaled, ofRounded]
    have hle : divNearest n (grain n) ≤ 2 ^ 53 := divNearest_le (grain_pos n) (le_grain_mul n)
    by_cases hcarry : divNearest n (grain n) = twoTo 53
    · refine ⟨twoTo 52, Int.ofNat (k + 1), ?_, ?_⟩
      · rw [if_pos hcarry]
        refine if_neg ?_
        show ¬ ((971 : Int) < (k : Int) + 1)
        omega
      · rw [hcarry]
        show 2 ^ 52 * 2 ^ (k + 1) / 1 = grain n * 2 ^ 53
        rw [hgrain, Nat.div_one]
        ring
    · refine ⟨divNearest n (grain n), Int.ofNat k, ?_, ?_⟩
      · rw [if_neg hcarry]
        refine if_neg ?_
        show ¬ ((971 : Int) < (k : Int))
        omega
      · show divNearest n (grain n) * 2 ^ k / 1 = _
        rw [Nat.div_one, hgrain, Nat.mul_comm]
  · -- all bits fit, with zeros after them
    have hexp : Int.ofNat n.log2 - 52 = Int.negSucc (51 - n.log2) := by
      simp only [Int.ofNat_eq_natCast, Int.negSucc_eq]
      omega
    have hgrain : grain n = 1 := by
      rw [grain, show n.log2 - 52 = 0 by omega, pow_zero]
    have hexact : ∀ m, divNearest m 1 = m := fun m => by
      have hone := divNearest_mul m Nat.one_pos
      rwa [Nat.one_mul] at hone
    have hscaled : divNearest (scaled n 1 (Int.negSucc (51 - n.log2))).1
        (scaled n 1 (Int.negSucc (51 - n.log2))).2 = n * 2 ^ (51 - n.log2 + 1) := hexact _
    have hlt : n * 2 ^ (51 - n.log2 + 1) < 2 ^ 53 := by
      calc n * 2 ^ (51 - n.log2 + 1) < 2 ^ (n.log2 + 1) * 2 ^ (51 - n.log2 + 1) :=
            Nat.mul_lt_mul_of_pos_right Nat.lt_log2_self (Nat.two_pow_pos _)
        _ = 2 ^ 53 := by rw [← Nat.pow_add, show n.log2 + 1 + (51 - n.log2 + 1) = 53 by omega]
    have hfits : ¬ n * 2 ^ (51 - n.log2 + 1) = twoTo 53 := hlt.ne
    rw [hexp, hscaled, hgrain, hexact, Nat.one_mul, ofRounded, if_neg hfits]
    refine ⟨n * 2 ^ (51 - n.log2 + 1), Int.negSucc (51 - n.log2), if_neg ?_, ?_⟩
    · show ¬ ((971 : Int) < Int.negSucc (51 - n.log2))
      simp only [Int.negSucc_eq]
      omega
    · show n * 2 ^ (51 - n.log2 + 1) / 2 ^ (51 - n.log2 + 1) = n
      exact Nat.mul_div_cancel n (Nat.two_pow_pos _)

end Binary64

end CodeIndex
