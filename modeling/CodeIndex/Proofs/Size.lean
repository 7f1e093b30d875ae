import CodeIndex.Proofs.Decimal.Round
import CodeIndex.Size
import Mathlib.Algebra.Order.Field.Rat
import Mathlib.Tactic.FieldSimp
import Mathlib.Tactic.NormNum
import Mathlib.Tactic.Positivity

/-!
# What sizes say

A size for people is read as an exact number of bytes. It grows with the count, also where the unit
changes and where the count is rounded to binary64; below `2 ^ 53` bytes it is as near as two
decimals of its unit allow.

* `Size.Amount`, `Size.read?` : what a text says;
* `Size.said`, `Size.read?_text` : what the text of a count says;
* `Size.Near` : an amount that is nearest to a count;
* `Size.text_faithful` : texts of sizes are in order and near to their counts.
-/

namespace CodeIndex.Size
open Decimal Binary64

/-! ## Reading sizes -/

/-- A number of units, each of so many bytes. -/
structure Amount where
  number : ℚ
  unit : ℕ

/-- The bytes of an amount. -/
def Amount.bytes (a : Amount) : ℚ := a.number * a.unit

/-- The number that digits with a point between them stand for; without a point it is whole. -/
def readNumber? (cs : List Char) : Option ℚ :=
  let whole := cs.takeWhile Char.isDigit
  if whole = [] then none
  else
    match cs.dropWhile Char.isDigit with
    | [] => some (Nat.ofDigitChars 10 whole 0 : ℚ)
    | '.' :: part =>
      if part ≠ [] ∧ part.all Char.isDigit then
        some (Nat.ofDigitChars 10 whole 0 + Nat.ofDigitChars 10 part 0 / 10 ^ part.length)
      else none
    | _ => none

/-- The bytes of a unit. -/
def unit? (word : List Char) : Option ℕ :=
  if word = "bytes".toList then some 1
  else if word = "KB".toList then some 1024
  else if word = "MB".toList then some (1024 ^ 2)
  else none

/-- A number, a blank and a unit. -/
def read? (s : String) : Option Amount :=
  match s.toList.dropWhile (· ≠ ' ') with
  | [] => none
  | _ :: word =>
    (readNumber? (s.toList.takeWhile (· ≠ ' '))).bind fun number =>
      (unit? word).map fun unit => ⟨number, unit⟩

theorem natText_digits (n : Nat) : ∀ c ∈ (Text.natText n).toList, c.isDigit = true := by
  rw [Text.natText, String.toList_ofList]
  exact fun c hc => Nat.isDigit_of_mem_toDigits (by decide) (by decide) hc

theorem ofDigitChars_natText (n : Nat) : Nat.ofDigitChars 10 (Text.natText n).toList 0 = n := by
  rw [Text.natText, String.toList_ofList]
  exact Nat.ofDigitChars_toDigits (by decide) (by decide)

theorem natText_ne_nil (n : Nat) : (Text.natText n).toList ≠ [] := by
  rw [Text.natText, String.toList_ofList]
  exact Nat.toDigits_ne_nil

/-- The digits of a number are found before what follows them. -/
theorem span_natText (n : Nat) (rest : List Char) :
    ((Text.natText n).toList ++ rest).takeWhile Char.isDigit =
        (Text.natText n).toList ++ rest.takeWhile Char.isDigit ∧
      ((Text.natText n).toList ++ rest).dropWhile Char.isDigit = rest.dropWhile Char.isDigit :=
  ⟨List.takeWhile_append_of_pos (natText_digits n),
    List.dropWhile_append_of_pos (natText_digits n)⟩

theorem readNumber?_natText (n : Nat) : readNumber? (Text.natText n).toList = some (n : ℚ) := by
  obtain ⟨htake, hdrop⟩ := span_natText n []
  simp only [List.append_nil, List.takeWhile_nil, List.dropWhile_nil] at htake hdrop
  simp only [readNumber?, htake, hdrop, if_neg (natText_ne_nil n), ofDigitChars_natText]

theorem toList_fixedText (h : Nat) : (fixedText h).toList = (Text.natText (h / 100)).toList ++
    '.' :: [(h / 10 % 10).digitChar, (h % 10).digitChar] := by
  have hdigit : ∀ n, n < 10 → (Text.natText n).toList = [n.digitChar] := fun n hn => by
    rw [Text.natText, String.toList_ofList, Nat.toDigits_of_lt_base hn]
  rw [fixedText, String.toList_append, String.toList_append, String.toList_append,
    hdigit _ (Nat.mod_lt _ (by decide)), hdigit _ (Nat.mod_lt _ (by decide))]
  simp

theorem readNumber?_fixedText (h : Nat) :
    readNumber? (fixedText h).toList = some ((h : ℚ) / 100) := by
  obtain ⟨htake, hdrop⟩ := span_natText (h / 100)
    ('.' :: [(h / 10 % 10).digitChar, (h % 10).digitChar])
  have hdigit : ∀ n : Nat, n < 10 → n.digitChar.isDigit = true ∧ n.digitChar.toNat - '0'.toNat = n :=
    by decide
  obtain ⟨htens, htensValue⟩ := hdigit (h / 10 % 10) (Nat.mod_lt _ (by decide))
  obtain ⟨hones, honesValue⟩ := hdigit (h % 10) (Nat.mod_lt _ (by decide))
  have hpart : Nat.ofDigitChars 10 [(h / 10 % 10).digitChar, (h % 10).digitChar] 0 = h % 100 := by
    rw [Nat.ofDigitChars_cons, Nat.ofDigitChars_cons, htensValue, honesValue]
    show 10 * (10 * 0 + h / 10 % 10) + h % 10 = h % 100
    omega
  have hsum : ((h / 100 : ℕ) : ℚ) + ((h % 100 : ℕ) : ℚ) / 10 ^ 2 = (h : ℚ) / 100 := by
    have hcast : ((100 * (h / 100) + h % 100 : ℕ) : ℚ) = h := by rw [Nat.div_add_mod]
    push_cast at hcast
    linarith
  have hstart : ∀ part, ('.' :: part).takeWhile Char.isDigit = [] ∧
      ('.' :: part).dropWhile Char.isDigit = '.' :: part := fun part => ⟨rfl, rfl⟩
  rw [(hstart _).1, List.append_nil] at htake
  rw [(hstart _).2] at hdrop
  rw [toList_fixedText, readNumber?, htake, hdrop]
  simp only [if_neg (natText_ne_nil _), ofDigitChars_natText, hpart, ← hsum]
  exact if_pos ⟨List.cons_ne_nil _ _, by simp [htens, hones]⟩

/-- A number without blanks, with a unit behind it, is read as such. -/
theorem read?_append {s word : String} {number : ℚ} {unit : ℕ}
    (blank : ∀ c ∈ s.toList, c ≠ ' ') (hnumber : readNumber? s.toList = some number)
    (hunit : unit? word.toList = some unit) : read? (s ++ " " ++ word) = some ⟨number, unit⟩ := by
  have hall : ∀ c ∈ s.toList, decide (c ≠ ' ') = true := fun c hc => decide_eq_true (blank c hc)
  have htext : (s ++ " " ++ word).toList = s.toList ++ ' ' :: word.toList := by simp
  have hdrop : (' ' :: word.toList).dropWhile (fun c => decide (c ≠ ' ')) = ' ' :: word.toList := rfl
  have htake : (' ' :: word.toList).takeWhile (fun c => decide (c ≠ ' ')) = [] := rfl
  rw [read?, htext, List.dropWhile_append_of_pos hall, List.takeWhile_append_of_pos hall, hdrop,
    htake, List.append_nil, hnumber]
  simp only [hunit, Option.bind_some, Option.map_some]

/-! ## What the texts say -/

/-- The largest unit of which a count holds at least one. -/
def fitting (count : ℕ) : ℕ :=
  if 1024 ^ 2 ≤ count then 1024 ^ 2 else if 1024 ≤ count then 1024 else 1

/-- What the text of a count says. -/
def said (bytes : ℕ) : Amount :=
  if kept bytes < 1024 then ⟨bytes, 1⟩
  else ⟨(hundredths (kept bytes) (fitting (kept bytes)) : ℚ) / 100, fitting (kept bytes)⟩

theorem natText_blank (n : Nat) : ∀ c ∈ (Text.natText n).toList, c ≠ ' ' := by
  rintro c hc rfl
  exact absurd (natText_digits n ' ' hc) (by decide)

theorem fixedText_blank (h : Nat) : ∀ c ∈ (fixedText h).toList, c ≠ ' ' := by
  have hdigit : ∀ n : Nat, n < 10 → n.digitChar ≠ ' ' := by decide
  rw [toList_fixedText]
  intro c hc
  simp only [List.mem_append, List.mem_cons, List.not_mem_nil, or_false] at hc
  obtain hc | rfl | rfl | rfl := hc
  · exact natText_blank _ c hc
  · decide
  · exact hdigit _ (Nat.mod_lt _ (by decide))
  · exact hdigit _ (Nat.mod_lt _ (by decide))

theorem read?_text (bytes : ℕ) : read? (text bytes) = some (said bytes) := by
  have hword : ∀ s : String, s ++ " MB" = s ++ " " ++ "MB" ∧ s ++ " KB" = s ++ " " ++ "KB" ∧
      s ++ " bytes" = s ++ " " ++ "bytes" := fun s => by
    refine ⟨?_, ?_, ?_⟩ <;> rw [String.append_assoc] <;> rfl
  have hfixed : ∀ h, readNumber? (fixedText h).toList = some ((h : ℚ) / 100) :=
    readNumber?_fixedText
  unfold text said fitting
  generalize kept bytes = count
  by_cases hmega : 1024 ^ 2 ≤ count
  · rw [if_pos (show megabyte ≤ count from hmega), if_neg (by omega), if_pos hmega, (hword _).1]
    exact read?_append (fixedText_blank _) (hfixed _) (by decide)
  by_cases hkilo : 1024 ≤ count
  · rw [if_neg (show ¬ megabyte ≤ count from hmega), if_pos (show kilobyte ≤ count from hkilo),
      if_neg (by omega), if_neg hmega, if_pos hkilo, (hword _).2.1]
    exact read?_append (fixedText_blank _) (hfixed _) (by decide)
  · rw [if_neg (show ¬ megabyte ≤ count from hmega), if_neg (show ¬ kilobyte ≤ count from hkilo),
      if_pos (by omega), (hword _).2.2]
    exact read?_append (natText_blank _) (readNumber?_natText _) (by decide)

/-! ## Counts as they are kept -/

theorem kept_eq {n : ℕ} (h : n < 2 ^ 64) : kept n = grain n * divNearest n (grain n) := by
  obtain ⟨m, e, hofNat, hratio⟩ := ofNat_eq h
  rw [kept, hofNat]
  exact hratio

/-- Below `2 ^ 53` nothing is lost. -/
theorem kept_of_lt {n : ℕ} (h : n < 2 ^ 53) : kept n = n := by
  have hone := divNearest_mul n Nat.one_pos
  rw [Nat.one_mul] at hone
  rw [kept_eq (by omega), grain_of_lt h, hone, Nat.one_mul]

/-- A power of two that is a multiple of the grain stays on its side of what is kept. -/
theorem kept_two_pow {n k : ℕ} (h : n < 2 ^ 64) (hk : n.log2 - 52 ≤ k) :
    (n ≤ 2 ^ k → kept n ≤ 2 ^ k) ∧ (2 ^ k ≤ n → 2 ^ k ≤ kept n) := by
  have hmul : 2 ^ k = grain n * 2 ^ (k - (n.log2 - 52)) := by
    rw [grain, ← Nat.pow_add, Nat.add_sub_cancel' hk]
  rw [kept_eq h, hmul]
  constructor
  · intro hle
    exact Nat.mul_le_mul_left _ (divNearest_le (grain_pos n) hle)
  · intro hle
    exact Nat.mul_le_mul_left _ (le_divNearest (grain_pos n) hle)

/-- A larger count is kept as a larger or the same one, also where it takes a bit more. -/
theorem kept_mono {a b : ℕ} (h : a ≤ b) (hb : b < 2 ^ 64) : kept a ≤ kept b := by
  by_cases hgrain : grain a = grain b
  · rw [kept_eq hb, kept_eq (by omega), hgrain]
    exact Nat.mul_le_mul_left _ (divNearest_mono (grain_pos b) h)
  -- the power of two at which the larger one begins stands between the two
  have hb0 : b ≠ 0 := by
    rintro rfl
    exact hgrain (by rw [Nat.le_zero.mp h])
  have hlog : a.log2 < b.log2 := by
    have hle : a.log2 ≤ b.log2 := by
      by_cases ha : a = 0
      · subst ha
        exact Nat.zero_le _
      · exact (Nat.le_log2 hb0).mpr ((Nat.log2_self_le ha).trans h)
    refine lt_of_le_of_ne hle fun heq => hgrain ?_
    rw [grain, grain, heq]
  have hbelow : a ≤ 2 ^ b.log2 :=
    (Nat.lt_log2_self.trans_le (Nat.pow_le_pow_right (by decide) hlog)).le
  calc kept a ≤ 2 ^ b.log2 := (kept_two_pow (by omega) (by omega)).1 hbelow
    _ ≤ kept b := (kept_two_pow hb (by omega)).2 (Nat.log2_self_le hb0)

/-! ## Order and nearness -/

theorem fitting_pos (count : ℕ) : 0 < fitting count := by
  unfold fitting
  split_ifs <;> norm_num

/-- A count below a number of units is not said to be above it. -/
theorem bytes_le_of_le {count unit k : ℕ} (hunit : 0 < unit) (h : count ≤ unit * k) :
    ((hundredths count unit : ℚ) / 100) * unit ≤ unit * k := by
  have hle : hundredths count unit ≤ 100 * k := divNearest_le hunit (by linarith)
  have hcast : (hundredths count unit : ℚ) ≤ 100 * k := by exact_mod_cast hle
  have hpos : (0 : ℚ) ≤ unit := Nat.cast_nonneg unit
  nlinarith

/-- A count above a number of units is not said to be below it. -/
theorem le_bytes_of_le {count unit k : ℕ} (hunit : 0 < unit) (h : unit * k ≤ count) :
    (unit * k : ℚ) ≤ ((hundredths count unit : ℚ) / 100) * unit := by
  have hle : 100 * k ≤ hundredths count unit := le_divNearest hunit (by linarith)
  have hcast : (100 * k : ℚ) ≤ hundredths count unit := by exact_mod_cast hle
  have hpos : (0 : ℚ) ≤ unit := Nat.cast_nonneg unit
  nlinarith

theorem hundredths_mono {a b unit : ℕ} (hunit : 0 < unit) (h : a ≤ b) :
    hundredths a unit ≤ hundredths b unit := divNearest_mono hunit (by omega)

theorem eq_of_kept_lt {n : ℕ} (hn : n < 2 ^ 64) (h : kept n < 1024) : kept n = n := by
  by_cases hlt : n < 2 ^ 53
  · exact kept_of_lt hlt
  have hmono := kept_mono (Nat.not_lt.mp hlt |>.trans' (by decide : 2 ^ 52 ≤ 2 ^ 53)) hn
  rw [kept_of_lt (by decide)] at hmono
  omega

/-- What is said of counts grows with them, also from unit to unit. -/
theorem said_mono {a b : ℕ} (h : a ≤ b) (hb : b < 2 ^ 64) : (said a).bytes ≤ (said b).bytes := by
  have hkept := kept_mono h hb
  unfold said Amount.bytes
  by_cases hsmall : kept b < 1024
  · rw [if_pos hsmall, if_pos (by omega)]
    simpa using h
  have hfit : fitting (kept b) * 1 ≤ kept b := by
    unfold fitting
    split_ifs <;> omega
  have hleast := le_bytes_of_le (fitting_pos _) hfit
  rw [if_neg hsmall]
  by_cases hsmall' : kept a < 1024
  · have hunit : 1024 ≤ fitting (kept b) := by
      unfold fitting
      split_ifs <;> omega
    have ha : a ≤ fitting (kept b) * 1 := by
      have heq := eq_of_kept_lt (by omega) hsmall'
      omega
    have hcast : (a : ℚ) ≤ fitting (kept b) * (1 : ℕ) := by exact_mod_cast ha
    rw [if_pos hsmall']
    push_cast at hcast hleast ⊢
    linarith
  rw [if_neg hsmall']
  by_cases hunits : fitting (kept a) = fitting (kept b)
  · have hmono : (hundredths (kept a) (fitting (kept b)) : ℚ) ≤
        hundredths (kept b) (fitting (kept b)) := by
      exact_mod_cast hundredths_mono (fitting_pos _) hkept
    rw [hunits]
    have hpos : (0 : ℚ) ≤ fitting (kept b) := Nat.cast_nonneg _
    exact mul_le_mul_of_nonneg_right (by linarith) hpos
  · -- what is left of the smaller unit is rounded to one of the larger at most
    have hmost : kept a ≤ fitting (kept a) * 1024 ∧ fitting (kept a) * 1024 = fitting (kept b) := by
      revert hunits
      unfold fitting
      split_ifs <;> omega
    have hle := bytes_le_of_le (fitting_pos _) hmost.1
    have hcast : (fitting (kept a) : ℚ) * (1024 : ℕ) = fitting (kept b) := by
      exact_mod_cast hmost.2
    push_cast at hcast hle hleast ⊢
    linarith

/-- An amount that is as near to a count as two decimals allow; of two that are equally near it has
the even last digit. -/
structure Near (a : Amount) (bytes : ℕ) : Prop where
  unit : a.unit = fitting bytes
  exact : bytes < 1024 → a.bytes = bytes
  near : |a.bytes - bytes| ≤ (a.unit : ℚ) / 100 / 2
  even : |a.bytes - bytes| = (a.unit : ℚ) / 100 / 2 → ∃ h : ℕ, a.number = h / 100 ∧ Even h

theorem near_said {n : ℕ} (h : n < 2 ^ 53) : Near (said n) n := by
  have hkept := kept_of_lt h
  unfold said
  rw [hkept]
  by_cases hsmall : n < 1024
  · have hunit : fitting n = 1 := by
      unfold fitting
      split_ifs <;> omega
    rw [if_pos hsmall]
    have hexact : (Amount.mk n 1).bytes = n := by simp [Amount.bytes]
    refine ⟨hunit.symm, fun _ => hexact, ?_, ?_⟩
    · rw [hexact]
      norm_num
    · intro htie
      rw [hexact] at htie
      norm_num at htie
  rw [if_neg hsmall]
  have hpos := fitting_pos n
  have hlower : (2 * (fitting n * hundredths n (fitting n)) : ℚ) ≤ 2 * (100 * n) + fitting n := by
    exact_mod_cast divNearest_lower (100 * n) hpos
  have hupper : (2 * (100 * n) : ℚ) ≤ 2 * (fitting n * hundredths n (fitting n)) + fitting n := by
    exact_mod_cast divNearest_upper (100 * n) hpos
  refine ⟨rfl, fun hlt => absurd hlt hsmall, ?_, ?_⟩
  · rw [Amount.bytes, abs_le]
    constructor <;> dsimp only <;> linarith
  · intro htie
    refine ⟨hundredths n (fitting n), rfl, even_of_tie hpos ?_⟩
    rw [Amount.bytes, abs_eq (by positivity)] at htie
    dsimp only at htie
    obtain hover | hunder := htie
    · left
      have hcast : (2 * (fitting n * hundredths n (fitting n)) : ℚ) = 2 * (100 * n) + fitting n := by
        linarith
      exact_mod_cast hcast
    · right
      have hcast : (2 * (100 * n) : ℚ) = 2 * (fitting n * hundredths n (fitting n)) + fitting n := by
        linarith
      exact_mod_cast hcast

/-- The texts of sizes are read as amounts that grow with the counts, up to the largest count of 64
bits. A count that binary64 keeps exactly is said in the largest unit that it fills, to the nearest
hundredth of it, and exactly below a kilobyte. -/
theorem text_faithful :
    (∀ a b : ℕ, a ≤ b → b < 2 ^ 64 → ∃ s t, read? (text a) = some s ∧ read? (text b) = some t ∧
      s.bytes ≤ t.bytes) ∧
    (∀ n : ℕ, n < 2 ^ 53 → ∃ s, read? (text n) = some s ∧ Near s n) := by
  refine ⟨fun a b h hb => ?_, fun n h => ?_⟩
  · exact ⟨said a, said b, read?_text a, read?_text b, said_mono h hb⟩
  · exact ⟨said n, read?_text n, near_said h⟩

/-- One byte less than a megabyte is said to be as much as one, and a tie goes to the even digit. -/
theorem edge_sizes_said :
    text 1048575 = "1024.00 KB" ∧ text 1048576 = "1.00 MB" ∧ text 1152 = "1.12 KB" ∧
    (∃ s t, read? (text 1048575) = some s ∧ read? (text 1048576) = some t ∧ s.bytes ≤ t.bytes) ∧
    ∃ s, read? (text 1152) = some s ∧ Near s 1152 :=
  ⟨by decide +kernel, by decide +kernel, by decide +kernel,
    text_faithful.1 1048575 1048576 (by decide) (by decide), text_faithful.2 1152 (by decide)⟩

end CodeIndex.Size
