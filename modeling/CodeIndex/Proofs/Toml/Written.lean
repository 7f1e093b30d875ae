import CodeIndex.Proofs.Toml.Quoted
import CodeIndex.Toml.Reader

/-!
# Reading back written values

A value that the printer writes is read back if a line end, a comma or a bracket follows: texts
always, natural numbers in the range of signed 64-bit integers, and arrays of such values. A number
beyond the range is written all the same, and then no value is read.

* `ReadsBack` : a value is read back, wherever it may stand;
* `readsBack_text`, `readsBack_integer`, `readsBack_array` : values that are;
* `value?_beyond` : a number that is not.
-/

namespace CodeIndex.Toml

/-- Whether a value may end in front of a text. -/
def endsValue : List Char → Bool
  | '\n' :: _ => true
  | ',' :: _ => true
  | ']' :: _ => true
  | _ => false

/-- The characters that white space and comments do not begin with. -/
def isSolid (c : Char) : Bool := !isSpace c && c ≠ '#' && c ≠ '\n' && c ≠ '\r'

/-- A value is read back from what is written for it, by a reader of values of some depth. -/
structure ReadsBack (depth : Nat) (v : Toml) : Prop where
  start : ∃ c cs, (written v).toList = c :: cs ∧ isSolid c = true ∧ c ≠ ']'
  read : ∀ rest, endsValue rest = true →
    value? depth ((written v).toList ++ rest) = some (v, rest)

theorem skipSpaces_of_not_space {c : Char} (h : isSpace c = false) (cs : List Char) :
    skipSpaces (c :: cs) = c :: cs := by
  rw [skipSpaces, List.dropWhile_cons, h]
  rfl

/-- What is solid is not skipped. -/
theorem skipLines_solid {c : Char} (h : isSolid c = true) (cs : List Char) (lines : Nat) :
    skipLines (c :: cs) lines = c :: cs := by
  simp only [isSolid, Bool.and_eq_true, Bool.not_eq_true', decide_eq_true_eq] at h
  obtain ⟨⟨⟨hspace, hcomment⟩, hn⟩, hr⟩ := h
  cases lines with
  | zero => rfl
  | succ lines =>
    have hskip : skipComment (c :: cs) = c :: cs := by
      unfold skipComment
      split
      · next heq => exact absurd (List.cons.inj heq).1 hcomment
      · rfl
    rw [skipLines, skipSpaces_of_not_space hspace, hskip]
    split
    · next heq => exact absurd (List.cons.inj heq).1 hn
    · next heq => exact absurd (List.cons.inj heq).1 hr
    · rfl

theorem skipGap_solid {c : Char} (h : isSolid c = true) (cs : List Char) :
    skipGap (c :: cs) = c :: cs := skipLines_solid h cs _

/-- A line end and the blanks that an item is moved in by are skipped. -/
theorem skipGap_line {c : Char} (h : isSolid c = true) (cs : List Char) :
    skipGap ('\n' :: c :: cs) = c :: cs ∧
      skipGap ('\n' :: ' ' :: ' ' :: ' ' :: ' ' :: c :: cs) = c :: cs := by
  have hspace : isSpace c = false := by
    simp only [isSolid, Bool.and_eq_true, Bool.not_eq_true'] at h
    exact h.1.1.1
  have hlines := skipLines_solid h cs
  refine ⟨hlines _, ?_⟩
  show skipLines (' ' :: ' ' :: ' ' :: ' ' :: c :: cs) (cs.length + 5) = _
  have hskip : skipSpaces (' ' :: ' ' :: ' ' :: ' ' :: c :: cs) = skipSpaces (c :: cs) := rfl
  rw [skipLines, hskip]
  have hsame := hlines (cs.length + 5)
  rw [skipLines] at hsame
  exact hsame

/-! ## Texts -/

theorem quotedChars_start (cs : List Char) :
    ∃ c body, quotedChars cs = c :: body ∧ (c = '"' ∨ c = '\'') := by
  unfold quotedChars
  cases QuoteStyle.choose cs with
  | basic => exact ⟨_, _, rfl, .inl rfl⟩
  | literal => exact ⟨_, _, rfl, .inr rfl⟩
  | basicLines => exact ⟨_, _, rfl, .inl rfl⟩
  | literalLines => exact ⟨_, _, rfl, .inr rfl⟩

theorem readsBack_text (depth : Nat) (s : String) : ReadsBack depth (.text s) := by
  have hwritten : (written (.text s)).toList = quotedChars s.toList := by
    rw [written, quoted, String.toList_ofList]
  obtain ⟨c, body, hstart, hc⟩ := quotedChars_start s.toList
  rw [hstart] at hwritten
  refine ⟨⟨c, body, hwritten, ?_, ?_⟩, ?_⟩
  · obtain rfl | rfl := hc <;> rfl
  · obtain rfl | rfl := hc <;> decide
  · intro rest hrest
    have hquote : ∀ q, q = '"' ∨ q = '\'' → rest.head? ≠ some q := by
      rintro q hq heq
      obtain ⟨more, rfl⟩ := List.head?_eq_some_iff.mp heq
      obtain rfl | rfl := hq <;> cases hrest
    have hread := string?_quotedChars s.toList (hquote _ (.inl rfl)) (hquote _ (.inr rfl))
    have hvalue : value? depth (c :: (body ++ rest)) =
        (string? (c :: (body ++ rest))).map fun r => (.text (String.ofList r.1), r.2) := by
      obtain rfl | rfl := hc
      · rw [value?]
      · rw [value?]
    rw [hstart, List.cons_append] at hread
    rw [hwritten, List.cons_append, hvalue, hread]
    show some (text (String.ofList s.toList), rest) = _
    rw [String.ofList_toList]

/-! ## Natural numbers -/

/-- The digits of a number but zero do not begin with a zero. -/
theorem toDigits_head {n : Nat} (h : 0 < n) : ∃ c cs, Nat.toDigits 10 n = c :: cs ∧ c ≠ '0' := by
  induction n using Nat.strongRecOn with
  | ind n ih =>
    by_cases hn : n < 10
    · refine ⟨n.digitChar, [], Nat.toDigits_of_lt_base hn, ?_⟩
      rw [ne_eq, Nat.digitChar_eq_zero]
      omega
    · obtain ⟨c, cs, hcs, hc⟩ := ih (n / 10) (by omega) (by omega)
      exact ⟨c, cs ++ [(n % 10).digitChar], by
        rw [Nat.toDigits_of_base_le (by decide) (by omega), hcs, List.cons_append], hc⟩

theorem ne_of_isDigit {c d : Char} (hc : c.isDigit = true) (hd : d.isDigit = false) : c ≠ d := by
  rintro rfl
  rw [hc] at hd
  cases hd

variable {ds : List Char}

theorem ungroup?_digits (digits : ∀ c ∈ ds, c.isDigit = true) (hne : ds ≠ []) :
    ungroup? Char.isDigit ds = some ds := by
  induction ds with
  | nil => exact absurd rfl hne
  | cons c ds ih =>
    have hc : c.isDigit = true := digits c List.mem_cons_self
    have hds : ∀ d ∈ ds, d.isDigit = true := fun d hd => digits d (List.mem_cons_of_mem _ hd)
    cases ds with
    | nil => rw [ungroup?, if_pos hc]
    | cons d ds =>
      have hd : d ≠ '_' := by
        rintro rfl
        exact absurd (hds '_' List.mem_cons_self) (by decide)
      rw [ungroup?, hc, if_neg hd, ih hds (List.cons_ne_nil _ _)]
      rfl

theorem valueIn_digits (digits : ∀ c ∈ ds, c.isDigit = true) :
    valueIn 10 ds = Nat.ofDigitChars 10 ds 0 := by
  have hfold : ∀ (cs : List Char) (acc : Nat), (∀ c ∈ cs, c.isDigit = true) →
      cs.foldl (fun n c => n * 10 + digitValue c) acc = Nat.ofDigitChars 10 cs acc := by
    intro cs
    induction cs with
    | nil => intro acc _; rfl
    | cons c cs ih =>
      intro acc h
      have hc : digitValue c = c.toNat - '0'.toNat := if_pos (h c List.mem_cons_self)
      rw [List.foldl_cons, Nat.ofDigitChars_cons, hc, Nat.mul_comm acc 10]
      exact ih _ fun d hd => h d (List.mem_cons_of_mem _ hd)
  exact hfold ds 0 digits

/-- Digits alone are neither a date nor a time, for want of what stands between these. -/
theorem moment?_digits (digits : ∀ c ∈ ds, c.isDigit = true) :
    Moment.date? ds = none ∧ Moment.time? ds = none := by
  have hexpect : ∀ c n, c.isDigit = false → Moment.expect? c (ds.drop n) = none := by
    intro c n hc
    cases hdrop : ds.drop n with
    | nil => rfl
    | cons d rest =>
      have hd : d.isDigit = true := digits d (List.mem_of_mem_drop (hdrop ▸ List.mem_cons_self))
      rw [Moment.expect?, if_neg (ne_of_isDigit hd hc).symm]
  have hdigits : ∀ count n rest, Moment.digits? count ds = some (n, rest) →
      rest = ds.drop count := by
    intro count n rest h
    simp only [Moment.digits?, Option.ite_none_right_eq_some, Option.some.injEq,
      Prod.mk.injEq] at h
    exact h.2.2.symm
  refine ⟨?_, ?_⟩
  · unfold Moment.date?
    cases h : Moment.digits? 4 ds with
    | none => rfl
    | some r =>
      obtain ⟨n, rest⟩ := r
      obtain rfl := hdigits _ _ _ h
      simp [hexpect '-' 4 (by decide)]
  · unfold Moment.time?
    cases h : Moment.digits? 2 ds with
    | none => rfl
    | some r =>
      obtain ⟨n, rest⟩ := r
      obtain rfl := hdigits _ _ _ h
      simp [hexpect ':' 2 (by decide)]

theorem takeWhile_digits (digits : ∀ c ∈ ds, c.isDigit = true) {p : Char → Bool}
    (hp : ∀ c, c.isDigit = true → p c = true) (rest : List Char) :
    (ds ++ rest).takeWhile p = ds ++ rest.takeWhile p ∧
      (ds ++ rest).dropWhile p = rest.dropWhile p := by
  have hall : ∀ c ∈ ds, p c = true := fun c hc => hp c (digits c hc)
  exact ⟨List.takeWhile_append_of_pos hall, List.dropWhile_append_of_pos hall⟩

/-- Digits are no word that has another character in it. -/
theorem ne_word_of_digits (digits : ∀ c ∈ ds, c.isDigit = true) {word : List Char}
    (hword : word.all Char.isDigit = false) : ds ≠ word := by
  rintro rfl
  rw [List.all_eq_true.mpr digits] at hword
  cases hword

theorem signed_digits (digits : ∀ c ∈ ds, c.isDigit = true) : signed ds = (false, ds) := by
  unfold signed
  split
  · exact absurd (digits '+' List.mem_cons_self) (by decide)
  · exact absurd (digits '-' List.mem_cons_self) (by decide)
  · rfl

/-- Digits alone are no number in another base, and none of the special ones. -/
theorem special?_digits (digits : ∀ c ∈ ds, c.isDigit = true) : special? ds = none := by
  unfold special?
  split
  · exact absurd (digits 'x' (List.mem_cons_of_mem _ List.mem_cons_self)) (by decide)
  · exact absurd (digits 'o' (List.mem_cons_of_mem _ List.mem_cons_self)) (by decide)
  · exact absurd (digits 'b' (List.mem_cons_of_mem _ List.mem_cons_self)) (by decide)
  · rw [signed_digits digits]
    dsimp only
    rw [if_neg (ne_word_of_digits digits (by decide)),
      if_neg (ne_word_of_digits digits (by decide))]

/-- Digits alone are no float, as there is neither a point nor an exponent. -/
theorem decimalFloat?_digits (digits : ∀ c ∈ ds, c.isDigit = true)
    (hplain : decimalDigits? ds = some ds) : decimalFloat? ds = none := by
  have hmark := takeWhile_digits digits (p := fun c => !(c == 'e' || c == 'E')) (by
    intro c hc
    simp [ne_of_isDigit hc (d := 'e') rfl, ne_of_isDigit hc (d := 'E') rfl]) []
  have hpoint := takeWhile_digits digits (p := (· != '.')) (by
    intro c hc
    simp [ne_of_isDigit hc (d := '.') rfl]) []
  simp only [List.append_nil, List.takeWhile_nil, List.dropWhile_nil] at hmark hpoint
  simp only [decimalFloat?, signed_digits digits, hmark, hpoint, hplain, Option.bind_eq_bind,
    Option.bind_some]
  rfl

theorem digits_toDigits (n : Nat) : ∀ c ∈ Nat.toDigits 10 n, c.isDigit = true :=
  fun _ hc => Nat.isDigit_of_mem_toDigits (by decide) (by decide) hc

theorem toDigits_start (n : Nat) : ∃ c cs, Nat.toDigits 10 n = c :: cs ∧ c.isDigit = true := by
  obtain ⟨c, cs, hcs⟩ := List.exists_cons_of_ne_nil (Nat.toDigits_ne_nil (n := n) (b := 10))
  exact ⟨c, cs, hcs, digits_toDigits n c (hcs ▸ List.mem_cons_self)⟩

/-- No zero stands in front of the digits of a number. -/
theorem decimalDigits?_toDigits (n : Nat) :
    decimalDigits? (Nat.toDigits 10 n) = some (Nat.toDigits 10 n) := by
  rw [decimalDigits?, ungroup?_digits (digits_toDigits n) Nat.toDigits_ne_nil]
  split
  · next heq =>
    obtain rfl | hn := Nat.eq_zero_or_pos n
    · rw [Nat.toDigits_zero] at heq
      cases heq
    · obtain ⟨c, cs, hcs, hc⟩ := toDigits_head hn
      rw [hcs] at heq
      exact absurd (List.cons.inj (Option.some.inj heq)).1 hc
  · rfl

/-- The digits of a number are read as the number if this is in range, and as nothing else. -/
theorem scalar?_toDigits (n : Nat) : scalar? (Nat.toDigits 10 n) = inRange? (Int.ofNat n) := by
  have digits := digits_toDigits n
  have hplain := decimalDigits?_toDigits n
  have hvalue : valueIn 10 (Nat.toDigits 10 n) = n := by
    rw [valueIn_digits digits, Nat.ofDigitChars_ten_toDigits]
  have hinteger : decimalInteger? (Nat.toDigits 10 n) = inRange? (Int.ofNat n) := by
    simp only [decimalInteger?, signed_digits digits, hplain, Option.bind_eq_bind,
      Option.bind_some, hvalue]
    rfl
  have hmoment : Moment.read? (Nat.toDigits 10 n) = none := by
    obtain ⟨hdate, htime⟩ := moment?_digits digits
    rw [Moment.read?, hdate, htime]
  rw [scalar?, if_neg (ne_word_of_digits digits (by decide)),
    if_neg (ne_word_of_digits digits (by decide)), special?_digits digits, hinteger,
    decimalFloat?_digits digits hplain, hmoment]
  cases inRange? (Int.ofNat n) <;> rfl

/-- The number is read up to what ends it. -/
theorem bare?_toDigits (n : Nat) {rest : List Char} (hrest : endsValue rest = true) :
    bare? (Nat.toDigits 10 n ++ rest) = (inRange? (Int.ofNat n)).map (·, rest) := by
  have digits := digits_toDigits n
  have hdelimiter : ∀ c : Char, c.isDigit = true → (!isDelimiter c) = true := by
    intro c hc
    have hall : " \t\n\r#,[]\x7b\x7d=\"'".toList.all (fun d => !d.isDigit) = true := by decide
    rw [isDelimiter, Bool.not_eq_true']
    refine Bool.eq_false_iff.mpr fun hmem => ?_
    have hnot := List.all_eq_true.mp hall c (List.contains_iff_mem.mp hmem)
    rw [hc] at hnot
    cases hnot
  obtain ⟨htake, hdrop⟩ := takeWhile_digits digits (p := (!isDelimiter ·)) hdelimiter rest
  have hstop : rest.takeWhile (!isDelimiter ·) = [] ∧ rest.dropWhile (!isDelimiter ·) = rest := by
    unfold endsValue at hrest
    split at hrest
    · exact ⟨rfl, rfl⟩
    · exact ⟨rfl, rfl⟩
    · exact ⟨rfl, rfl⟩
    · cases hrest
  have hdate : isDateLike (Nat.toDigits 10 n) = false := by
    rw [isDateLike, (moment?_digits digits).1]
    rfl
  rw [bare?, htake, hdrop, hstop.1, hstop.2, List.append_nil, hdate]
  dsimp only
  rw [scalar?_toDigits]

theorem written_integer (n : Nat) :
    (written (.integer (Int.ofNat n))).toList = Nat.toDigits 10 n := by
  have hsign : ¬ Int.ofNat n < 0 := Int.not_lt.mpr (Int.natCast_nonneg n)
  rw [written, Text.intText, if_neg hsign, Text.natText, String.toList_ofList]
  rfl

/-- A number where a value may stand is read if it is in range. -/
theorem value?_toDigits (depth n : Nat) {rest : List Char} (hrest : endsValue rest = true) :
    value? depth ((written (.integer (Int.ofNat n))).toList ++ rest) =
      (inRange? (Int.ofNat n)).map (·, rest) := by
  rw [written_integer, ← bare?_toDigits n hrest]
  obtain ⟨c, cs, hcs, hc⟩ := toDigits_start n
  have hnot : ∀ d more, d.isDigit = false → Nat.toDigits 10 n ++ rest = d :: more → False := by
    intro d more hd heq
    rw [hcs] at heq
    exact ne_of_isDigit hc hd (List.cons.inj heq).1
  rw [value?]
  · exact fun more => hnot '[' more (by decide)
  · exact fun more => hnot '\x7b' more (by decide)
  · exact fun more => hnot '"' more (by decide)
  · exact fun more => hnot '\'' more (by decide)

/-- A number begins with a digit. -/
theorem written_integer_start (n : Nat) : ∃ c cs,
    (written (.integer (Int.ofNat n))).toList = c :: cs ∧ isSolid c = true ∧ c ≠ ']' := by
  obtain ⟨c, cs, hcs, hc⟩ := toDigits_start n
  have hne : ∀ d, d.isDigit = false → c ≠ d := fun d => ne_of_isDigit hc
  refine ⟨c, cs, (written_integer n).trans hcs, ?_, hne ']' (by decide)⟩
  simp [isSolid, isSpace, hne ' ' (by decide), hne '\t' (by decide), hne '#' (by decide),
    hne '\n' (by decide), hne '\r' (by decide)]

theorem readsBack_integer (depth : Nat) {n : Nat} (h : n ≤ Text.maxSigned) :
    ReadsBack depth (.integer (Int.ofNat n)) := by
  have hrange : inRange? (Int.ofNat n) = some (.integer (Int.ofNat n)) := by
    refine if_pos ⟨?_, ?_⟩
    · have hmax : (0 : Int) ≤ Int.ofNat Text.maxSigned := Int.natCast_nonneg _
      have hn : (0 : Int) ≤ Int.ofNat n := Int.natCast_nonneg _
      omega
    · exact Int.ofNat_le.mpr h
  refine ⟨written_integer_start n, fun rest hrest => ?_⟩
  rw [value?_toDigits depth n hrest, hrange]
  rfl

/-- A number that is out of range is no value. -/
theorem value?_beyond (depth : Nat) {n : Nat} (h : Text.maxSigned < n) {rest : List Char}
    (hrest : endsValue rest = true) :
    value? depth ((written (.integer (Int.ofNat n))).toList ++ rest) = none := by
  have hrange : inRange? (Int.ofNat n) = none := by
    refine if_neg fun hle => ?_
    have := Int.ofNat_le.mp hle.2
    omega
  rw [value?_toDigits depth n hrest, hrange]
  rfl

/-! ## Arrays -/

theorem length_le_writtenItems (vs : List Toml) : vs.length ≤ (writtenItems vs).toList.length := by
  induction vs with
  | nil => exact Nat.zero_le _
  | cons v vs ih =>
    simp only [writtenItems, String.toList_append, List.length_append, List.length_cons]
    have hcomma : ",\n".toList.length = 2 := rfl
    omega

section

variable {depth count : Nat} {v : Toml} {cs rest : List Char}

/-- The item before the bracket that ends the array. -/
theorem items?_last (h : ReadsBack depth v)
    (hgap : skipGap cs = (written v).toList ++ ']' :: rest) :
    items? (value? depth) cs (count + 1) = some ([v], rest) := by
  obtain ⟨c, body, hstart, -, hc⟩ := h.start
  rw [items?, hgap]
  split
  · next heq =>
    rw [hstart] at heq
    exact absurd (List.cons.inj heq).1 hc
  · rw [h.read _ rfl]
    rfl

/-- An item with a comma behind it. -/
theorem items?_more (h : ReadsBack depth v)
    (hgap : skipGap cs = (written v).toList ++ ',' :: rest) {vs : List Toml} {more : List Char}
    (hrest : items? (value? depth) rest count = some (vs, more)) :
    items? (value? depth) cs (count + 1) = some (v :: vs, more) := by
  obtain ⟨c, body, hstart, -, hc⟩ := h.start
  rw [items?, hgap]
  split
  · next heq =>
    rw [hstart] at heq
    exact absurd (List.cons.inj heq).1 hc
  · rw [h.read _ rfl]
    show ((items? (value? depth) rest count).bind fun r => some (v :: r.1, r.2)) = _
    rw [hrest]
    rfl

/-- Items on lines of their own are read up to the bracket behind them. -/
theorem items?_writtenItems {vs : List Toml} (h : ∀ v ∈ vs, ReadsBack depth v)
    (hcount : vs.length < count) (rest : List Char) :
    items? (value? depth) ('\n' :: ((writtenItems vs).toList ++ ']' :: rest)) count =
      some (vs, rest) := by
  induction vs generalizing count with
  | nil =>
    obtain ⟨count, rfl⟩ := Nat.exists_eq_succ_of_ne_zero (Nat.ne_of_gt hcount)
    rw [items?]
    have hgap : skipGap ('\n' :: ((writtenItems []).toList ++ ']' :: rest)) = ']' :: rest :=
      (skipGap_line (by decide) rest).1
    rw [hgap]
    rfl
  | cons v vs ih =>
    obtain ⟨count, rfl⟩ := Nat.exists_eq_succ_of_ne_zero (Nat.ne_of_gt (Nat.zero_lt_of_lt hcount))
    have hv := h v List.mem_cons_self
    obtain ⟨c, body, hstart, hsolid, -⟩ := hv.start
    refine items?_more hv ?_
      (ih (fun w hw => h w (List.mem_cons_of_mem _ hw)) (Nat.lt_of_succ_lt_succ hcount))
    have htext : '\n' :: ((writtenItems (v :: vs)).toList ++ ']' :: rest) =
        '\n' :: ' ' :: ' ' :: ' ' :: ' ' :: c :: (body ++ ',' :: '\n' ::
          ((writtenItems vs).toList ++ ']' :: rest)) := by
      simp [writtenItems, String.toList_append, hstart]
    rw [htext, (skipGap_line hsolid _).2, hstart]
    rfl

end

theorem readsBack_array {depth : Nat} {vs : List Toml} (h : ∀ v ∈ vs, ReadsBack depth v) :
    ReadsBack (depth + 1) (.array vs) := by
  have hread : ∀ body rest, items? (value? depth) body (body.length + 1) = some (vs, rest) →
      value? (depth + 1) ('[' :: body) = some (.array vs, rest) := by
    intro body rest hitems
    rw [value?, hitems]
    rfl
  match vs, h with
  | [], _ =>
    have hwritten : (written (.array [])).toList = ['[', ']'] := by rw [written]; rfl
    refine ⟨⟨_, _, hwritten, by decide, by decide⟩, fun rest _ => ?_⟩
    rw [hwritten]
    exact hread (']' :: rest) rest rfl
  | [v], h =>
    have hv := h v List.mem_cons_self
    obtain ⟨c, body, hstart, hsolid, -⟩ := hv.start
    have hwritten : (written (.array [v])).toList = '[' :: ((written v).toList ++ [']']) := by
      rw [written, String.toList_append, String.toList_append]
      rfl
    refine ⟨⟨_, _, hwritten, by decide, by decide⟩, fun rest _ => ?_⟩
    rw [hwritten, List.cons_append, List.append_assoc]
    refine hread _ rest (items?_last hv ?_)
    rw [hstart]
    exact skipGap_solid hsolid _
  | v :: w :: vs, h =>
    have hwritten : (written (.array (v :: w :: vs))).toList =
        '[' :: '\n' :: ((writtenItems (v :: w :: vs)).toList ++ [']']) := by
      rw [written, String.toList_append, String.toList_append]
      rfl
    refine ⟨⟨_, _, hwritten, by decide, by decide⟩, fun rest _ => ?_⟩
    rw [hwritten, List.cons_append, List.cons_append, List.append_assoc]
    refine hread _ rest (items?_writtenItems h ?_ rest)
    have := length_le_writtenItems (v :: w :: vs)
    simp only [List.length_cons, List.length_append] at this ⊢
    omega

end CodeIndex.Toml
