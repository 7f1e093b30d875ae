import CodeIndex.Toml.Printer

/-!
# Reading back quoted strings

A text between the quotes that the printer chooses for it is read back, whatever follows, as long
as this is no further quote. The printer writes each character as a `Piece`, of which there are four
sorts, and each reader of strings with escapes takes one piece at a time. Quotes are what couples
the pieces: three in a row end a string of several lines, so quotes are held back until a piece
that is none shows that their row is short enough.

* `Piece`, `escaped_cons` : what is written for one character;
* `basic?_escaped`, `basicLines?_escaped` : strings with escapes;
* `literal?_append`, `literalLines?_append` : strings without;
* `le_longestRun` : rows of a character are no longer than the longest;
* `string?_quotedChars` : the string between the quotes that are chosen.
-/

namespace CodeIndex.Toml

/-! ## Characters -/

theorem fourHex_length {c : Char} (h : c.toNat < 128) : (fourHex c).length = 4 := by
  have hall : ∀ n < 128, (fourHex (Char.ofNat n)).length = 4 := by decide +kernel
  rw [← Char.ofNat_toNat c]
  exact hall c.toNat h

/-- The digits of a code point are read back. -/
theorem codePoint?_fourHex {c : Char} (h : c.toNat < 128) (rest : List Char) :
    codePoint? (fourHex c ++ rest) 4 = some c := by
  have hall : ∀ n < 128, codePoint? (fourHex (Char.ofNat n)) 4 = some (Char.ofNat n) := by
    decide +kernel
  have htake : (fourHex c ++ rest).take 4 = (fourHex c).take 4 := by
    rw [List.take_append_of_le_length (Nat.le_of_eq (fourHex_length h).symm)]
  have hc := hall c.toNat h
  rw [Char.ofNat_toNat] at hc
  rw [← hc, codePoint?, codePoint?, htake]

/-- What is written for a character: an escape, a quote that need not be one, a line end, or the
character itself. The last argument counts the quotes in a row that have been written by then. -/
inductive Piece (lines : Bool) (most quotes : Nat) : Char → List Char → Nat → Prop
  | escape {c : Char} {e : List Char} (reads : ∀ rest, escape? (e ++ rest) = some (c, e.length))
      (stays : ∀ rest, continuation? (e ++ rest) = none) : Piece lines most quotes c ('\\' :: e) 0
  | quote (h : quotes < most) : Piece lines most quotes '"' ['"'] (quotes + 1)
  | newline (h : lines = true) : Piece lines most quotes '\n' ['\n'] 0
  | plain {c : Char} (plain : isPlain c = true) (noQuote : c ≠ '"') (noSlash : c ≠ '\\') :
      Piece lines most quotes c [c] 0

theorem escaped_cons (lines : Bool) (most quotes : Nat) (c : Char) (cs : List Char) :
    ∃ piece quotes', Piece lines most quotes c piece quotes' ∧
      escaped lines most quotes (c :: cs) = piece ++ escaped lines most quotes' cs := by
  rw [escaped.eq_def lines most quotes (c :: cs)]
  dsimp only
  split
  · split
    · next h => exact ⟨_, _, .quote h, rfl⟩
    · exact ⟨['\\', '"'], 0, .escape (fun rest => rfl) (fun rest => rfl), rfl⟩
  · exact ⟨['\\', '\\'], 0, .escape (fun rest => rfl) (fun rest => rfl), rfl⟩
  · exact ⟨['\\', 't'], 0, .escape (fun rest => rfl) (fun rest => rfl), rfl⟩
  · split
    · next h => exact ⟨_, _, .newline h, rfl⟩
    · exact ⟨['\\', 'n'], 0, .escape (fun rest => rfl) (fun rest => rfl), rfl⟩
  · exact ⟨['\\', 'r'], 0, .escape (fun rest => rfl) (fun rest => rfl), rfl⟩
  · exact ⟨['\\', 'b'], 0, .escape (fun rest => rfl) (fun rest => rfl), rfl⟩
  · exact ⟨['\\', 'f'], 0, .escape (fun rest => rfl) (fun rest => rfl), rfl⟩
  · next hquote hslash _ _ _ _ _ =>
    split
    · next h => exact ⟨_, _, .plain h hquote hslash, rfl⟩
    · next h =>
      have hc : c.toNat < 128 := by
        simp only [isPlain, Bool.or_eq_true, Bool.and_eq_true, decide_eq_true_eq] at h
        omega
      refine ⟨'\\' :: 'u' :: fourHex c, 0, .escape (fun rest => ?_) (fun rest => rfl), rfl⟩
      show (codePoint? (fourHex c ++ rest) 4).map _ = _
      rw [codePoint?_fourHex hc, List.length_cons, fourHex_length hc]
      rfl

/-! ## Strings on one line -/

theorem basic?_escape {c : Char} {e rest : List Char}
    (h : escape? (e ++ rest) = some (c, e.length)) :
    basic? ('\\' :: (e ++ rest)) = andThen c (basic? rest) := by
  rw [basic?]
  simp only [h, List.drop_left]

theorem basic?_plain {c : Char} (plain : isPlain c = true) (noQuote : c ≠ '"')
    (noSlash : c ≠ '\\') (rest : List Char) : basic? (c :: rest) = andThen c (basic? rest) := by
  rw [basic?]
  · rw [if_pos plain]
  · exact noQuote
  · exact noSlash

/-- A text with escapes is read up to the quote behind it. -/
theorem basic?_escaped (cs rest : List Char) :
    basic? (escaped false 0 0 cs ++ '"' :: rest) = some (cs, rest) := by
  induction cs with
  | nil =>
    show basic? ('"' :: rest) = _
    rw [basic?]
  | cons c cs ih =>
    obtain ⟨piece, quotes, hpiece, hcons⟩ := escaped_cons false 0 0 c cs
    rw [hcons]
    cases hpiece with
    | escape reads stays =>
      rw [List.cons_append, List.cons_append, List.append_assoc, basic?_escape (reads _), ih]
      rfl
    | quote h => cases h
    | newline h => cases h
    | plain plain noQuote noSlash =>
      show basic? (c :: (escaped false 0 0 cs ++ '"' :: rest)) = _
      rw [basic?_plain plain noQuote noSlash, ih]
      rfl

/-- A text without the quote and control characters is read up to the quote behind it. -/
theorem literal?_append {cs : List Char} (plain : ∀ c ∈ cs, isPlain c = true)
    (noQuote : '\'' ∉ cs) (rest : List Char) :
    literal? (cs ++ '\'' :: rest) = some (cs, rest) := by
  induction cs with
  | nil => rfl
  | cons c cs ih =>
    have hc : c ≠ '\'' := fun h => noQuote (h ▸ List.mem_cons_self)
    rw [List.cons_append, literal?, if_pos (plain c List.mem_cons_self),
      ih (fun d hd => plain d (List.mem_cons_of_mem _ hd))
        (fun h => noQuote (List.mem_cons_of_mem _ h))]
    · rfl
    · exact hc

/-! ## Strings of several lines -/

/-- What the two readers of strings of several lines do with quotes: three end the string, and one
that does not begin such a row is taken. -/
structure RowReader (quote : Char) (read : List Char → Option (List Char × List Char)) : Prop where
  closes : ∀ rest, read (quote :: quote :: quote :: rest) = some (closing quote rest)
  takes : ∀ cs, (∀ rest, cs ≠ quote :: quote :: rest) →
    read (quote :: cs) = andThen quote (read cs)

namespace RowReader

variable {quote : Char} {read : List Char → Option (List Char × List Char)} {row : Nat}

/-- A short row right before the quotes that end the string belongs to the text. -/
theorem read_close (h : RowReader quote read) (hrow : row ≤ 2) {rest : List Char}
    (hrest : rest.head? ≠ some quote) :
    read (List.replicate row quote ++ quote :: quote :: quote :: rest) =
      some (List.replicate row quote, rest) := by
  have hclosing : closing quote (List.replicate row quote ++ rest) =
      (List.replicate row quote, rest) := by
    cases rest with
    | nil =>
      obtain rfl | rfl | rfl : row = 0 ∨ row = 1 ∨ row = 2 := by omega
      · rfl
      · simp [closing]
      · simp [List.replicate, closing]
    | cons c rest =>
      have hc : c ≠ quote := fun heq => hrest (congrArg some heq)
      obtain rfl | rfl | rfl : row = 0 ∨ row = 1 ∨ row = 2 := by omega
      · cases rest with
        | nil => simp [closing, hc]
        | cons d rest => simp [closing, hc]
      · simp [List.replicate, closing, hc]
      · simp [List.replicate, closing]
  have hmove : ∀ row : Nat, List.replicate row quote ++ quote :: quote :: quote :: rest =
      quote :: quote :: quote :: (List.replicate row quote ++ rest) := by
    intro row
    induction row with
    | zero => rfl
    | succ row ih => simp [List.replicate_succ, ih]
  rw [hmove, h.closes, hclosing]

/-- A short row that something else ends belongs to the text. -/
theorem read_row (h : RowReader quote read) (hrow : row ≤ 2) {c : Char} (hc : c ≠ quote)
    {cs word rest : List Char} (hread : read (c :: cs) = some (word, rest)) :
    read (List.replicate row quote ++ c :: cs) = some (List.replicate row quote ++ word, rest) := by
  have hone : read (quote :: c :: cs) = some (quote :: word, rest) := by
    rw [h.takes _ fun rest heq => hc (List.cons.inj heq).1, hread]
    rfl
  obtain rfl | rfl | rfl : row = 0 ∨ row = 1 ∨ row = 2 := by omega
  · exact hread
  · exact hone
  · show read (quote :: quote :: c :: cs) = _
    rw [h.takes, hone]
    · rfl
    · intro rest heq
      exact hc (List.cons.inj (List.cons.inj heq).2).1

end RowReader

theorem rowReader_basicLines? : RowReader '"' basicLines? := by
  refine ⟨fun rest => by rw [basicLines?], fun cs hcs => ?_⟩
  rw [basicLines?]
  · rfl
  · exact fun rest _ => hcs rest
  · intro heq
    cases heq
  · intro rest heq
    cases heq

theorem rowReader_literalLines? : RowReader '\'' literalLines? := by
  refine ⟨fun rest => by rw [literalLines?], fun cs hcs => ?_⟩
  rw [literalLines?]
  · rfl
  · exact fun rest _ => hcs rest
  · intro rest heq
    cases heq

theorem basicLines?_escape {c : Char} {e rest : List Char}
    (reads : escape? (e ++ rest) = some (c, e.length)) (stays : continuation? (e ++ rest) = none) :
    basicLines? ('\\' :: (e ++ rest)) = andThen c (basicLines? rest) := by
  rw [basicLines?]
  simp only [stays, reads, List.drop_left]

/-- A character of a text of several lines that is taken as it is, by either reader. -/
theorem lineChar {c : Char} (h : isPlain c = true ∨ c = '\n') :
    (isPlain c || decide (c = '\n')) = true ∧ c ≠ '\r' := by
  refine ⟨by simpa using h, ?_⟩
  rintro rfl
  cases h with
  | inl h => cases h
  | inr h => cases h

theorem basicLines?_plain {c : Char} (plain : isPlain c = true ∨ c = '\n') (noQuote : c ≠ '"')
    (noSlash : c ≠ '\\') (rest : List Char) :
    basicLines? (c :: rest) = andThen c (basicLines? rest) := by
  obtain ⟨htaken, hr⟩ := lineChar plain
  rw [basicLines?]
  · rw [if_pos htaken]
  · exact fun _ heq => absurd heq noQuote
  · exact noSlash
  · exact fun _ heq => absurd heq hr

theorem literalLines?_plain {c : Char} (plain : isPlain c = true ∨ c = '\n') (noQuote : c ≠ '\'')
    (rest : List Char) : literalLines? (c :: rest) = andThen c (literalLines? rest) := by
  obtain ⟨htaken, hr⟩ := lineChar plain
  rw [literalLines?]
  · rw [if_pos htaken]
  · exact fun _ heq => absurd heq noQuote
  · exact fun _ heq => absurd heq hr

/-- A text with escapes is read up to the three quotes behind it. The induction holds back the
quotes that have been written in a row: only what follows shows that they belong to the text. -/
theorem basicLines?_escaped {rest : List Char} (hrest : rest.head? ≠ some '"') (cs : List Char)
    {row : Nat} (hrow : row ≤ 2) :
    basicLines? (List.replicate row '"' ++ (escaped true 2 row cs ++ '"' :: '"' :: '"' :: rest)) =
      some (List.replicate row '"' ++ cs, rest) := by
  induction cs generalizing row with
  | nil =>
    rw [List.append_nil]
    exact rowReader_basicLines?.read_close hrow hrest
  | cons c cs ih =>
    obtain ⟨piece, row', hpiece, hcons⟩ := escaped_cons true 2 row c cs
    have hread : basicLines? (escaped true 2 0 cs ++ '"' :: '"' :: '"' :: rest) = some (cs, rest) :=
      ih (Nat.zero_le 2)
    rw [hcons, List.append_assoc]
    cases hpiece with
    | @escape _ e reads stays =>
      refine rowReader_basicLines?.read_row hrow (by decide) ?_
      show basicLines? ('\\' :: (e ++ _)) = _
      rw [basicLines?_escape (reads _) (stays _), hread]
      rfl
    | quote h =>
      have hmove : ∀ ds, List.replicate row '"' ++ '"' :: ds = List.replicate (row + 1) '"' ++ ds := by
        intro ds
        rw [List.replicate_succ', List.append_assoc]
        rfl
      rw [List.cons_append, List.nil_append, hmove, hmove, ih h]
    | newline h =>
      refine rowReader_basicLines?.read_row hrow (by decide) ?_
      show basicLines? ('\n' :: (escaped true 2 0 cs ++ _)) = _
      rw [basicLines?_plain (.inr rfl) (by decide) (by decide), hread]
      rfl
    | plain plain noQuote noSlash =>
      refine rowReader_basicLines?.read_row hrow noQuote ?_
      show basicLines? (c :: (escaped true 2 0 cs ++ _)) = _
      rw [basicLines?_plain (.inl plain) noQuote noSlash, hread]
      rfl

/-! ## The longest row -/

/-- The row of a character that goes on and the longest one so far, one character on. -/
def rowStep (c : Char) (rows : Nat × Nat) (d : Char) : Nat × Nat :=
  if d = c then (rows.1 + 1, max rows.2 (rows.1 + 1)) else (0, rows.2)

theorem longestRun_eq (c : Char) (cs : List Char) :
    longestRun c cs = (cs.foldl (rowStep c) (0, 0)).2 := rfl

theorem le_rowStep (c : Char) (cs : List Char) (rows : Nat × Nat) :
    rows.2 ≤ (cs.foldl (rowStep c) rows).2 := by
  induction cs generalizing rows with
  | nil => exact Nat.le_refl _
  | cons d cs ih =>
    have hstep : rows.2 ≤ (rowStep c rows d).2 := by
      unfold rowStep
      split
      · exact Nat.le_max_left _ _
      · exact Nat.le_refl _
    exact Nat.le_trans hstep (ih _)

/-- The row that goes on is not longer than the longest one. -/
theorem rowStep_le (c : Char) (cs : List Char) {rows : Nat × Nat} (h : rows.1 ≤ rows.2) :
    (cs.foldl (rowStep c) rows).1 ≤ (cs.foldl (rowStep c) rows).2 := by
  induction cs generalizing rows with
  | nil => exact h
  | cons d cs ih =>
    refine ih ?_
    unfold rowStep
    split
    · exact Nat.le_max_right _ _
    · exact Nat.zero_le _

theorem add_le_rowStep (c : Char) (row : Nat) {rows : Nat × Nat} (h : rows.1 ≤ rows.2) :
    rows.1 + row ≤ ((List.replicate row c).foldl (rowStep c) rows).2 := by
  induction row generalizing rows with
  | zero => exact h
  | succ row ih =>
    rw [List.replicate_succ, List.foldl_cons]
    have hstep : rowStep c rows c = (rows.1 + 1, max rows.2 (rows.1 + 1)) := if_pos rfl
    have hle : (rowStep c rows c).1 ≤ (rowStep c rows c).2 := by
      rw [hstep]
      exact Nat.le_max_right _ _
    have hrow := ih hle
    rw [hstep] at hrow ⊢
    omega

/-- A row in a text is no longer than the longest one. -/
theorem le_longestRun (c : Char) (row : Nat) (before after : List Char) :
    row ≤ longestRun c (before ++ (List.replicate row c ++ after)) := by
  rw [longestRun_eq, List.foldl_append, List.foldl_append]
  have hle : (before.foldl (rowStep c) (0, 0)).1 ≤ (before.foldl (rowStep c) (0, 0)).2 :=
    rowStep_le c before (Nat.le_refl 0)
  exact Nat.le_trans (Nat.le_trans (Nat.le_add_left _ _) (add_le_rowStep c row hle))
    (le_rowStep c after _)

/-- A text in which no row of quotes is long is read up to the three quotes behind it. As with
escapes, the induction holds back a row until its end is seen. -/
theorem literalLines?_append {rest : List Char} (hrest : rest.head? ≠ some '\'') {cs : List Char}
    (plain : ∀ c ∈ cs, isPlain c = true ∨ c = '\n') {row : Nat}
    (rows : ∀ n before after,
      List.replicate row '\'' ++ cs = before ++ (List.replicate n '\'' ++ after) → n ≤ 2) :
    literalLines? (List.replicate row '\'' ++ (cs ++ '\'' :: '\'' :: '\'' :: rest)) =
      some (List.replicate row '\'' ++ cs, rest) := by
  have hrow : row ≤ 2 := rows row [] cs rfl
  induction cs generalizing row with
  | nil =>
    rw [List.append_nil]
    exact rowReader_literalLines?.read_close hrow hrest
  | cons c cs ih =>
    have hplain : ∀ d ∈ cs, isPlain d = true ∨ d = '\n' :=
      fun d hd => plain d (List.mem_cons_of_mem _ hd)
    by_cases hc : c = '\''
    · subst hc
      have hmove : ∀ ds,
          List.replicate row '\'' ++ '\'' :: ds = List.replicate (row + 1) '\'' ++ ds := by
        intro ds
        rw [List.replicate_succ', List.append_assoc]
        rfl
      rw [List.cons_append, hmove, hmove]
      rw [hmove] at rows
      exact ih hplain rows (rows (row + 1) [] cs rfl)
    · have hrows : ∀ n before after,
          List.replicate 0 '\'' ++ cs = before ++ (List.replicate n '\'' ++ after) → n ≤ 2 := by
        intro n before after heq
        refine rows n (List.replicate row '\'' ++ c :: before) after ?_
        rw [List.append_assoc, List.cons_append, ← heq]
        rfl
      have hread : literalLines? (cs ++ '\'' :: '\'' :: '\'' :: rest) = some (cs, rest) :=
        ih hplain hrows (Nat.zero_le 2)
      refine rowReader_literalLines?.read_row hrow hc ?_
      show literalLines? (c :: (cs ++ _)) = _
      rw [literalLines?_plain (plain c List.mem_cons_self) hc, hread]
      rfl

/-! ## The quotes that are chosen -/

theorem dropNewline_of_ne {c : Char} {cs : List Char} (hn : c ≠ '\n') (hr : c ≠ '\r') :
    dropNewline (c :: cs) = c :: cs := by
  unfold dropNewline
  split
  · next heq => exact absurd (List.cons.inj heq).1 hn
  · next heq => exact absurd (List.cons.inj heq).1 hr
  · rfl

/-- A text of several lines begins with a line end of its own, which is dropped, and one of a
single line begins with none. -/
theorem dropNewline_start {cs body : List Char}
    (h : '\n' ∉ cs → ∃ c body', body = c :: body' ∧ c ≠ '\n' ∧ c ≠ '\r') :
    dropNewline ((if cs.contains '\n' then ['\n'] else []) ++ body) = body := by
  by_cases hlines : '\n' ∈ cs
  · rw [if_pos (List.contains_iff_mem.mpr hlines)]
    rfl
  · obtain ⟨c, body', rfl, hn, hr⟩ := h hlines
    rw [if_neg fun heq => hlines (List.contains_iff_mem.mp heq)]
    exact dropNewline_of_ne hn hr

/-- What is written for a text of several lines does not begin with a line end if the text has
none. -/
theorem escaped_start {cs : List Char} (h : '\n' ∉ cs) (rest : List Char) :
    ∃ c body, escaped true 2 0 cs ++ '"' :: rest = c :: body ∧ c ≠ '\n' ∧ c ≠ '\r' := by
  cases cs with
  | nil => exact ⟨'"', rest, rfl, by decide, by decide⟩
  | cons c cs =>
    obtain ⟨piece, row, hpiece, hcons⟩ := escaped_cons true 2 0 c cs
    rw [hcons]
    cases hpiece with
    | escape reads stays => exact ⟨_, _, rfl, by decide, by decide⟩
    | quote hq => exact ⟨_, _, rfl, by decide, by decide⟩
    | newline hl => exact absurd List.mem_cons_self h
    | plain plain noQuote noSlash =>
      exact ⟨_, _, rfl, fun hn => h (hn ▸ List.mem_cons_self), (lineChar (.inl plain)).2⟩

/-- Two quotes are not written in a row for a text on one line. -/
theorem escaped_ne_quotes {rest : List Char} (hrest : rest.head? ≠ some '"') (cs r : List Char) :
    escaped false 0 0 cs ++ '"' :: rest ≠ '"' :: '"' :: r := by
  intro heq
  cases cs with
  | nil =>
    have htail : rest = '"' :: r := (List.cons.inj heq).2
    exact hrest (by rw [htail]; rfl)
  | cons c cs =>
    obtain ⟨piece, row, hpiece, hcons⟩ := escaped_cons false 0 0 c cs
    rw [hcons] at heq
    cases hpiece with
    | escape reads stays => exact absurd (List.cons.inj heq).1 (by decide)
    | quote h => cases h
    | newline h => cases h
    | plain plain noQuote noSlash => exact noQuote (List.cons.inj heq).1

/-- A text within plain quotes does not begin with two of them. -/
theorem literal_ne_quotes {cs rest : List Char} (hquote : '\'' ∉ cs)
    (hrest : rest.head? ≠ some '\'') (r : List Char) :
    cs ++ '\'' :: rest ≠ '\'' :: '\'' :: r := by
  intro heq
  cases cs with
  | nil =>
    have htail : rest = '\'' :: r := (List.cons.inj heq).2
    exact hrest (by rw [htail]; rfl)
  | cons c cs => exact hquote ((List.cons.inj heq).1 ▸ List.mem_cons_self)

/-- A text within tripled plain quotes does not begin with a line end if it has none. -/
theorem literalLines_start {cs : List Char} (plain : ∀ c ∈ cs, isPlain c = true ∨ c = '\n')
    (h : '\n' ∉ cs) (rest : List Char) :
    ∃ c body, cs ++ '\'' :: rest = c :: body ∧ c ≠ '\n' ∧ c ≠ '\r' := by
  cases cs with
  | nil => exact ⟨_, _, rfl, by decide, by decide⟩
  | cons c cs =>
    exact ⟨c, _, rfl, fun heq => h (heq ▸ List.mem_cons_self),
      (lineChar (plain c List.mem_cons_self)).2⟩

/-- Without characters that need escapes, a text is plain but for its line ends. -/
theorem plain_of_needsEscape {cs : List Char} (h : ∀ c ∈ cs, ¬ needsEscape c = true) :
    ∀ c ∈ cs, isPlain c = true ∨ c = '\n' := by
  intro c hc
  have hneeds := h c hc
  simp only [needsEscape, Bool.and_eq_true, Bool.not_eq_true', decide_eq_true_eq] at hneeds
  by_cases hp : isPlain c = true
  · exact .inl hp
  · exact .inr (Decidable.byContradiction fun hn => hneeds ⟨Bool.eq_false_iff.mpr hp, hn⟩)

/-- The plain quotes are chosen for texts on one line that have none of them. -/
theorem choose_literal {cs : List Char} (h : QuoteStyle.choose cs = .literal) :
    (∀ c ∈ cs, isPlain c = true) ∧ '\'' ∉ cs := by
  unfold QuoteStyle.choose at h
  dsimp only at h
  split at h
  · cases h
  split at h
  · next hcond =>
    simp only [Bool.and_eq_true, Bool.not_eq_true', decide_eq_true_eq, List.any_eq_false] at hcond
    obtain ⟨⟨hcontrols, hsingles⟩, hlines⟩ := hcond
    refine ⟨fun c hc => (plain_of_needsEscape hcontrols c hc).resolve_right ?_, fun hmem => ?_⟩
    · rintro rfl
      rw [List.contains_iff_mem.mpr hc] at hlines
      cases hlines
    · obtain ⟨before, after, rfl⟩ := List.append_of_mem hmem
      have := le_longestRun '\'' 1 before after
      simp only [List.replicate_one, List.singleton_append] at this
      omega
  split at h
  · cases h
  split at h
  · cases h
  split at h <;> cases h

/-- The tripled plain quotes are chosen for texts in which no row of them is that long. -/
theorem choose_literalLines {cs : List Char} (h : QuoteStyle.choose cs = .literalLines) :
    (∀ c ∈ cs, isPlain c = true ∨ c = '\n') ∧ longestRun '\'' cs ≤ 2 := by
  unfold QuoteStyle.choose at h
  dsimp only at h
  split at h
  · cases h
  split at h
  · cases h
  split at h
  · cases h
  split at h
  · next hcond =>
    simp only [Bool.and_eq_true, Bool.not_eq_true', decide_eq_true_eq, List.any_eq_false] at hcond
    exact ⟨plain_of_needsEscape hcond.1, hcond.2⟩
  split at h <;> cases h

/-- The text between the quotes that are chosen for it is read back, unless a quote follows. -/
theorem string?_quotedChars (cs : List Char) {rest : List Char} (hdouble : rest.head? ≠ some '"')
    (hsingle : rest.head? ≠ some '\'') : string? (quotedChars cs ++ rest) = some (cs, rest) := by
  unfold quotedChars
  cases hstyle : QuoteStyle.choose cs with
  | basic =>
    have hbody : ('"' :: escaped false 0 0 cs ++ ['"']) ++ rest =
        '"' :: (escaped false 0 0 cs ++ '"' :: rest) := by simp
    dsimp only
    rw [hbody, string?]
    · exact basic?_escaped cs rest
    · intro r heq
      exact escaped_ne_quotes hdouble cs r (List.cons.inj heq).2
    · intro r heq
      cases heq
  | literal =>
    obtain ⟨hplain, hquote⟩ := choose_literal hstyle
    have hbody : ('\'' :: cs ++ ['\'']) ++ rest = '\'' :: (cs ++ '\'' :: rest) := by simp
    dsimp only
    rw [hbody, string?]
    · exact literal?_append hplain hquote rest
    · intro r heq
      cases heq
    · intro r heq
      exact literal_ne_quotes hquote hsingle r (List.cons.inj heq).2
  | basicLines =>
    have hbody : ("\"\"\"".toList ++ (if cs.contains '\n' then ['\n'] else []) ++
        escaped true 2 0 cs ++ "\"\"\"".toList) ++ rest =
        '"' :: '"' :: '"' :: ((if cs.contains '\n' then ['\n'] else []) ++
          (escaped true 2 0 cs ++ '"' :: '"' :: '"' :: rest)) := by simp
    dsimp only
    rw [hbody, string?, dropNewline_start fun hn => escaped_start hn _]
    exact basicLines?_escaped hdouble cs (Nat.zero_le 2)
  | literalLines =>
    obtain ⟨hplain, hrows⟩ := choose_literalLines hstyle
    have hbody : ("'''".toList ++ (if cs.contains '\n' then ['\n'] else []) ++ cs ++
        "'''".toList) ++ rest =
        '\'' :: '\'' :: '\'' :: ((if cs.contains '\n' then ['\n'] else []) ++
          (cs ++ '\'' :: '\'' :: '\'' :: rest)) := by simp
    have hshort : ∀ n before after,
        List.replicate 0 '\'' ++ cs = before ++ (List.replicate n '\'' ++ after) → n ≤ 2 := by
      intro n before after heq
      have hcs : cs = before ++ (List.replicate n '\'' ++ after) := heq
      rw [hcs] at hrows
      exact Nat.le_trans (le_longestRun '\'' n before after) hrows
    dsimp only
    rw [hbody, string?, dropNewline_start fun hn => literalLines_start hplain hn _]
    exact literalLines?_append hsingle hplain hshort

end CodeIndex.Toml
