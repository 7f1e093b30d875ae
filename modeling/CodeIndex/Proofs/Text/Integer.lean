import CodeIndex.Text.Integer

/-!
# Integers in decimal digits

* `Text.readDigits_eq_ok_iff` : digits are read to their value, as far as the bound allows;
* `Text.readUnsigned_digits`, `Text.readSigned_cases` : integers with a sign or without one;
* `Text.toDigits_eq_iff` : digits that are those of their value;
* `Text.intText_eq_iff` : integers that are written as they were read.
-/

namespace CodeIndex.Text

variable {cs : List Char}

theorem digitValue?_eq_some_iff {c : Char} {d : Nat} :
    digitValue? c = some d ↔ c.isDigit = true ∧ c.toNat - '0'.toNat = d := by
  have hdigit : ('0' ≤ c ∧ c ≤ '9') ↔ c.isDigit = true := by
    simp only [Char.isDigit, Bool.and_eq_true, decide_eq_true_eq]
    rfl
  rw [digitValue?, ← hdigit, Option.ite_none_right_eq_some, Option.some.injEq]

theorem digitChar_of_isDigit {c : Char} (h : c.isDigit = true) :
    c.toNat - '0'.toNat < 10 ∧ Nat.digitChar (c.toNat - '0'.toNat) = c := by
  simp only [Char.isDigit, Bool.and_eq_true, decide_eq_true_eq] at h
  have hlow : 48 ≤ c.toNat := h.1
  have hhigh : c.toNat ≤ 57 := h.2
  have hlt : c.toNat - '0'.toNat < 10 := by
    show c.toNat - 48 < 10
    omega
  refine ⟨hlt, Char.toNat_inj.mp ?_⟩
  rw [Nat.toNat_digitChar_of_lt_ten hlt]
  show 48 + (c.toNat - 48) = c.toNat
  omega

theorem le_ofDigitChars (cs : List Char) (acc : Nat) : acc ≤ Nat.ofDigitChars 10 cs acc := by
  induction cs generalizing acc with
  | nil => exact Nat.le_refl acc
  | cons c cs ih =>
    rw [Nat.ofDigitChars_cons]
    have := ih (10 * acc + (c.toNat - '0'.toNat))
    omega

/-- Digits are read to their value, exactly if it is within the bound. -/
theorem readDigits_eq_ok_iff {bound acc n : Nat} {beyond : IntegerError} (hacc : acc ≤ bound) :
    readDigits bound beyond acc cs = .ok n ↔
      (∀ c ∈ cs, c.isDigit = true) ∧ Nat.ofDigitChars 10 cs acc = n ∧ n ≤ bound := by
  induction cs generalizing acc with
  | nil =>
    simp only [readDigits, Except.ok.injEq, Nat.ofDigitChars_nil]
    constructor
    · rintro rfl
      exact ⟨by simp, rfl, hacc⟩
    · exact fun h => h.2.1
  | cons c cs ih =>
    rw [readDigits, Nat.ofDigitChars_cons]
    cases hvalue : digitValue? c with
    | none =>
      constructor
      · intro h
        cases h
      intro h
      have hsome := digitValue?_eq_some_iff.mpr ⟨h.1 c List.mem_cons_self, rfl⟩
      rw [hvalue] at hsome
      cases hsome
    | some d =>
      obtain ⟨hdigit, rfl⟩ := digitValue?_eq_some_iff.mp hvalue
      rw [Nat.mul_comm acc 10]
      dsimp only
      by_cases hle : 10 * acc + (c.toNat - '0'.toNat) ≤ bound
      · rw [if_pos hle, ih hle, List.forall_mem_cons]
        exact ⟨fun h => ⟨⟨hdigit, h.1⟩, h.2⟩, fun h => ⟨h.1.2, h.2⟩⟩
      · rw [if_neg hle]
        constructor
        · intro h
          cases h
        rintro ⟨-, hn, hbound⟩
        have hgrows := le_ofDigitChars cs (10 * acc + (c.toNat - '0'.toNat))
        omega

/-- Digits in the range of unsigned integers are read, with a plus sign before them or not. -/
theorem readUnsigned_digits (plus : Bool) (digits : ∀ c ∈ cs, c.isDigit = true) (hne : cs ≠ [])
    (hbound : Nat.ofDigitChars 10 cs 0 ≤ maxUnsigned) :
    readUnsigned (String.ofList ((if plus then ['+'] else []) ++ cs)) =
      .ok (Nat.ofDigitChars 10 cs 0) := by
  have hread : readDigits maxUnsigned .tooLarge 0 cs = .ok (Nat.ofDigitChars 10 cs 0) :=
    (readDigits_eq_ok_iff (Nat.zero_le _)).mpr ⟨digits, rfl, hbound⟩
  obtain ⟨c, rest, rfl⟩ := List.exists_cons_of_ne_nil hne
  have hc : c ≠ '+' := by
    rintro rfl
    exact absurd (digits '+' List.mem_cons_self) (by decide)
  rw [readUnsigned, String.toList_ofList]
  cases plus with
  | true => exact hread
  | false =>
    rw [if_neg Bool.false_ne_true, List.nil_append]
    split
    · next heq => cases heq
    · next heq => exact absurd (List.cons.inj heq).1 hc
    · next heq => exact absurd (List.cons.inj heq).1 hc
    · exact hread

/-- A signed integer is digits, with a plus sign before them or not, or with a minus sign. -/
theorem readSigned_cases {s : String} {n : Int} (h : readSigned s = .ok n) :
    ∃ ds : List Char, ds ≠ [] ∧ (∀ c ∈ ds, c.isDigit = true) ∧
      ((n = Int.ofNat (Nat.ofDigitChars 10 ds 0) ∧ (s.toList = ds ∨ s.toList = '+' :: ds)) ∨
        (n = -Int.ofNat (Nat.ofDigitChars 10 ds 0) ∧ s.toList = '-' :: ds)) := by
  have hdigits : ∀ {bound beyond} {f : Nat → Int} {ds : List Char},
      (readDigits bound beyond 0 ds).map f = .ok n →
        (∀ c ∈ ds, c.isDigit = true) ∧ n = f (Nat.ofDigitChars 10 ds 0) := by
    intro bound beyond f ds hread
    cases hvalue : readDigits bound beyond 0 ds with
    | error e =>
      rw [hvalue] at hread
      cases hread
    | ok m =>
      rw [hvalue] at hread
      obtain ⟨hall, rfl, -⟩ := (readDigits_eq_ok_iff (Nat.zero_le _)).mp hvalue
      exact ⟨hall, (Except.ok.inj hread).symm⟩
  unfold readSigned at h
  split at h
  · cases h
  · cases h
  · cases h
  · next ds hne hlist =>
    obtain ⟨hall, hn⟩ := hdigits h
    refine ⟨ds, ?_, hall, .inl ⟨hn, .inr hlist⟩⟩
    rintro rfl
    exact hne rfl
  · next ds hne hlist =>
    obtain ⟨hall, hn⟩ := hdigits h
    refine ⟨ds, ?_, hall, .inr ⟨hn, hlist⟩⟩
    rintro rfl
    exact hne rfl
  · next hne _ _ _ _ =>
    obtain ⟨hall, hn⟩ := hdigits h
    exact ⟨s.toList, hne, hall, .inl ⟨hn, .inl rfl⟩⟩

/-! ## Writing what was read -/

/-- Digits are added to those of a number that is not zero. -/
theorem toDigits_append {acc : Nat} (hacc : 0 < acc) (digits : ∀ c ∈ cs, c.isDigit = true) :
    Nat.toDigits 10 acc ++ cs = Nat.toDigits 10 (Nat.ofDigitChars 10 cs acc) := by
  induction cs generalizing acc with
  | nil => rw [List.append_nil, Nat.ofDigitChars_nil]
  | cons c cs ih =>
    obtain ⟨hlt, hchar⟩ := digitChar_of_isDigit (digits c List.mem_cons_self)
    have hstep := Nat.toDigits_append_toDigits (b := 10) (by decide) hacc hlt
    rw [Nat.toDigits_of_lt_base hlt, hchar] at hstep
    rw [Nat.ofDigitChars_cons, ← ih (by omega) fun d hd => digits d (List.mem_cons_of_mem _ hd),
      ← hstep, List.append_assoc]
    rfl

theorem head?_toDigits {n : Nat} (hn : n ≠ 0) : (Nat.toDigits 10 n).head? ≠ some '0' := by
  induction n using Nat.strongRecOn with
  | ind n ih =>
    by_cases hlt : n < 10
    · rw [Nat.toDigits_of_lt_base hlt]
      simpa using hn
    · have hfront := ih (n / 10) (by omega) (by omega)
      rw [Nat.toDigits_of_base_le (by decide) (by omega)]
      cases hdigits : Nat.toDigits 10 (n / 10) with
      | nil => exact absurd hdigits Nat.toDigits_ne_nil
      | cons c rest =>
        rw [hdigits] at hfront
        exact hfront

/-- Digits are those of their value, unless there is a zero too many before them. -/
theorem toDigits_eq_iff (hne : cs ≠ []) (digits : ∀ c ∈ cs, c.isDigit = true) :
    Nat.toDigits 10 (Nat.ofDigitChars 10 cs 0) = cs ↔ cs = ['0'] ∨ cs.head? ≠ some '0' := by
  constructor
  · intro heq
    by_cases hzero : Nat.ofDigitChars 10 cs 0 = 0
    · rw [hzero, Nat.toDigits_zero] at heq
      exact .inl heq.symm
    · have hhead := head?_toDigits hzero
      rw [heq] at hhead
      exact .inr hhead
  · rintro (rfl | hhead)
    · rfl
    · obtain ⟨c, rest, rfl⟩ := List.exists_cons_of_ne_nil hne
      obtain ⟨hlt, hchar⟩ := digitChar_of_isDigit (digits c List.mem_cons_self)
      have hpos : 0 < c.toNat - '0'.toNat := by
        refine Nat.pos_of_ne_zero fun hzero => hhead ?_
        rw [hzero] at hchar
        rw [← hchar]
        rfl
      rw [Nat.ofDigitChars_cons, Nat.mul_zero, Nat.zero_add,
        ← toDigits_append hpos fun d hd => digits d (List.mem_cons_of_mem _ hd),
        Nat.toDigits_of_lt_base hlt, hchar]
      rfl

/-- An integer without a plus sign, without zeros before other digits, and without a sign before
zero. -/
def isPlainInteger : List Char → Bool
  | ['0'] => true
  | '-' :: ds => ds.head? ≠ some '0'
  | ds => ds.head? ≠ some '0' && ds.head? ≠ some '+'

theorem isPlainInteger_digits (hne : cs ≠ []) (digits : ∀ c ∈ cs, c.isDigit = true) :
    isPlainInteger cs = true ↔ cs = ['0'] ∨ cs.head? ≠ some '0' := by
  obtain ⟨c, rest, rfl⟩ := List.exists_cons_of_ne_nil hne
  have hdigit := digits c List.mem_cons_self
  have hminus : c ≠ '-' := by
    rintro rfl
    cases hdigit
  have hplus : c ≠ '+' := by
    rintro rfl
    cases hdigit
  unfold isPlainInteger
  split
  · next heq => exact ⟨fun _ => .inl heq, fun _ => rfl⟩
  · next heq => exact absurd (List.cons.inj heq).1 hminus
  · next hzero _ =>
    have hone : c :: rest ≠ ['0'] := fun heq => hzero heq
    simp [hone, hplus]

theorem intText_ofNat (m : Nat) : (intText (Int.ofNat m)).toList = Nat.toDigits 10 m := by
  have hsign : ¬ Int.ofNat m < 0 := Int.not_lt.mpr (Int.natCast_nonneg m)
  rw [intText, if_neg hsign]
  exact String.toList_ofList

theorem intText_neg {m : Nat} (hm : m ≠ 0) :
    (intText (-Int.ofNat m)).toList = '-' :: Nat.toDigits 10 m := by
  have hsign : -Int.ofNat m < 0 := by
    show -(m : Int) < 0
    omega
  have hdigits : (natText (Int.ofNat m).natAbs).toList = Nat.toDigits 10 m := String.toList_ofList
  rw [intText, if_pos hsign, String.toList_append, Int.natAbs_neg, hdigits]
  rfl

/-- What is read as an integer is written in the same way exactly if it is plain. -/
theorem intText_eq_iff {s : String} {n : Int} (h : readSigned s = .ok n) :
    intText n = s ↔ isPlainInteger s.toList = true := by
  obtain ⟨ds, hne, digits, ⟨rfl, hlist | hlist⟩ | ⟨rfl, hlist⟩⟩ := readSigned_cases h
  · rw [← String.toList_inj, intText_ofNat, hlist, toDigits_eq_iff hne digits,
      isPlainInteger_digits hne digits]
  · rw [← String.toList_inj, intText_ofNat, hlist]
    constructor
    · intro heq
      have hdigit : ('+' : Char).isDigit = true :=
        Nat.isDigit_of_mem_toDigits (by decide) (by decide) (heq ▸ List.mem_cons_self)
      cases hdigit
    · intro hplain
      simp [isPlainInteger] at hplain
  · have hplain : isPlainInteger s.toList = true ↔ ds.head? ≠ some '0' := by
      rw [hlist]
      simp [isPlainInteger]
    rw [hplain, ← String.toList_inj, hlist]
    by_cases hzero : Nat.ofDigitChars 10 ds 0 = 0
    · rw [hzero]
      constructor
      · intro heq
        have hzeros : (intText (-Int.ofNat 0)).toList = ['0'] := rfl
        rw [hzeros] at heq
        cases heq
      · intro hhead
        have hdigits := (toDigits_eq_iff hne digits).mpr (.inr hhead)
        rw [hzero] at hdigits
        rw [← hdigits] at hhead
        exact absurd rfl hhead
    · rw [intText_neg hzero, List.cons_inj_right, toDigits_eq_iff hne digits]
      refine ⟨fun hcases => hcases.resolve_left ?_, .inr⟩
      rintro rfl
      exact hzero rfl

end CodeIndex.Text
