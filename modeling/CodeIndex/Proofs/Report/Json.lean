import CodeIndex.Proofs.Toml.Written
import CodeIndex.Report.Json

/-!
# Reading what is rendered

A value that is rendered is valid JSON. It fills one line, and there is only one value that can be
read from it.

* `Json.Spells` : the grammar, as far as values of reports need it: without blanks, surrogates,
  fractions and signs;
* `Json.spells_render` : what is rendered spells the value;
* `Json.spells_unique` : a text spells one value at most;
* `Json.printable_of_spells` : it has no control characters, and so no line ends.
-/

namespace CodeIndex.Json

/-! ## The grammar -/

/-- The letters that stand for characters after a backslash. -/
def shortEscapes : List (Char × Char) :=
  [('"', '"'), ('\\', '\\'), ('/', '/'), ('b', '\x08'), ('f', '\x0c'), ('n', '\n'), ('r', '\r'),
    ('t', '\t')]

/-- The value of a hexadecimal digit. -/
def hexValue? (c : Char) : Option Nat :=
  if '0' ≤ c ∧ c ≤ '9' then some (c.toNat - 48)
  else if 'a' ≤ c ∧ c ≤ 'f' then some (c.toNat - 87)
  else if 'A' ≤ c ∧ c ≤ 'F' then some (c.toNat - 55)
  else none

/-- A text begins with characters and a closing quote, and goes on with the rest. -/
inductive SpellsChars : List Char → List Char → List Char → Prop
  | close (rest : List Char) : SpellsChars [] ('"' :: rest) rest
  | plain {c : Char} {s cs rest : List Char} (printable : 32 ≤ c.toNat) (quote : c ≠ '"')
      (backslash : c ≠ '\\') (more : SpellsChars s cs rest) : SpellsChars (c :: s) (c :: cs) rest
  | short {c d : Char} {s cs rest : List Char} (escape : (d, c) ∈ shortEscapes)
      (more : SpellsChars s cs rest) : SpellsChars (c :: s) ('\\' :: d :: cs) rest
  | code {c d₁ d₂ d₃ d₄ : Char} {n₁ n₂ n₃ n₄ : Nat} {s cs rest : List Char}
      (h₁ : hexValue? d₁ = some n₁) (h₂ : hexValue? d₂ = some n₂) (h₃ : hexValue? d₃ = some n₃)
      (h₄ : hexValue? d₄ = some n₄)
      (value : c.toNat = ((n₁ * 16 + n₂) * 16 + n₃) * 16 + n₄) (more : SpellsChars s cs rest) :
      SpellsChars (c :: s) ('\\' :: 'u' :: d₁ :: d₂ :: d₃ :: d₄ :: cs) rest

/-- Digits that are a number, without needless zeros. -/
structure Numeral (n : Nat) (ds : List Char) : Prop where
  digits : ∀ d ∈ ds, d.isDigit = true
  zero : ds.head? = some '0' → ds = ['0']
  value : Nat.ofDigitChars 10 ds 0 = n

/-- A number may end before a text. -/
def EndsNumber (rest : List Char) : Prop := ∀ c, rest.head? = some c → c.isDigit = false

mutual

/-- A text begins with a value, and goes on with the rest. -/
inductive Spells : Json → List Char → List Char → Prop
  | yes (rest : List Char) : Spells (.boolean true) ('t' :: 'r' :: 'u' :: 'e' :: rest) rest
  | no (rest : List Char) : Spells (.boolean false) ('f' :: 'a' :: 'l' :: 's' :: 'e' :: rest) rest
  | number {n : Nat} {d : Char} {ds cs rest : List Char} (numeral : Numeral n (d :: ds))
      (ends : EndsNumber rest) (split : cs = ds ++ rest) : Spells (.number n) (d :: cs) rest
  | text {t : String} {cs rest : List Char} (chars : SpellsChars t.toList cs rest) :
      Spells (.text t) ('"' :: cs) rest
  | array {vs : List Json} {cs rest : List Char} (items : SpellsItems vs cs (']' :: rest)) :
      Spells (.array vs) ('[' :: cs) rest
  | object {fs : List (String × Json)} {cs rest : List Char}
      (fields : SpellsFields fs cs ('\x7d' :: rest)) : Spells (.object fs) ('\x7b' :: cs) rest

/-- A text begins with values and commas between them. -/
inductive SpellsItems : List Json → List Char → List Char → Prop
  | none (rest : List Char) : SpellsItems [] rest rest
  | one {v : Json} {cs rest : List Char} (item : Spells v cs rest) : SpellsItems [v] cs rest
  | more {v w : Json} {vs : List Json} {cs ds rest : List Char} (item : Spells v cs (',' :: ds))
      (items : SpellsItems (w :: vs) ds rest) : SpellsItems (v :: w :: vs) cs rest

/-- A text begins with named values and commas between them. -/
inductive SpellsFields : List (String × Json) → List Char → List Char → Prop
  | none (rest : List Char) : SpellsFields [] rest rest
  | one {k : String} {v : Json} {cs ds rest : List Char}
      (key : SpellsChars k.toList cs (':' :: ds)) (field : Spells v ds rest) :
      SpellsFields [(k, v)] ('"' :: cs) rest
  | more {k : String} {v : Json} {f : String × Json} {fs : List (String × Json)}
      {cs ds es rest : List Char} (key : SpellsChars k.toList cs (':' :: ds))
      (field : Spells v ds (',' :: es)) (fields : SpellsFields (f :: fs) es rest) :
      SpellsFields ((k, v) :: f :: fs) ('"' :: cs) rest

end

variable {c d : Char} {s : List Char} {v w : Json} {cs ds rest rest' : List Char}

/-! ## Rendered values -/

theorem hexValue?_hexDigit : ∀ n < 16, hexValue? (hexDigit n) = some n := by decide

/-- A character is spelled as it is escaped. -/
theorem spellsChars_cons (c : Char) (more : SpellsChars s cs rest) :
    SpellsChars (c :: s) (escapedChar c ++ cs) rest := by
  unfold escapedChar
  have hchar : ∀ n, c.toNat = n → c = Char.ofNat n := fun n h => by rw [← h, Char.ofNat_toNat]
  split
  · next h =>
    subst h
    exact .short (by decide) more
  split
  · next h =>
    subst h
    exact .short (by decide) more
  split
  · next h =>
    subst h
    exact .short (by decide) more
  split
  · next h =>
    subst h
    exact .short (by decide) more
  split
  · next h =>
    subst h
    exact .short (by decide) more
  split
  · next h =>
    obtain rfl := hchar 8 h
    exact .short (by decide) more
  split
  · next h =>
    obtain rfl := hchar 12 h
    exact .short (by decide) more
  split
  · next h =>
    exact .code (hexValue?_hexDigit 0 (by decide)) (hexValue?_hexDigit 0 (by decide))
      (hexValue?_hexDigit _ (by omega)) (hexValue?_hexDigit _ (by omega)) (by omega) more
  · next hquote hslash _ _ _ _ _ h => exact .plain (by omega) hquote hslash more

theorem spellsChars_escaped (s rest : List Char) :
    SpellsChars s (s.flatMap escapedChar ++ '"' :: rest) rest := by
  induction s with
  | nil => exact .close rest
  | cons c s ih =>
    rw [List.flatMap_cons, List.append_assoc]
    exact spellsChars_cons c ih

theorem numeral_natText (n : Nat) : Numeral n (Text.natText n).toList := by
  rw [Text.natText, String.toList_ofList]
  refine ⟨fun d hd => Nat.isDigit_of_mem_toDigits (by decide) (by decide) hd, fun hhead => ?_,
    Nat.ofDigitChars_ten_toDigits⟩
  rcases Nat.eq_zero_or_pos n with rfl | hn
  · rfl
  · obtain ⟨c, cs, hcs, hc⟩ := Toml.toDigits_head hn
    rw [hcs] at hhead
    exact absurd (Option.some.inj hhead) hc

theorem endsNumber_cons (h : c.isDigit = false) : EndsNumber (c :: cs) :=
  fun _ hd => Option.some.inj hd ▸ h

theorem toList_quoted (k : String) :
    (quoted k).toList = '"' :: (k.toList.flatMap escapedChar ++ ['"']) := by
  simp [quoted, String.toList_append]

mutual

/-- What is rendered spells the value, before anything that is not a digit. -/
theorem spells_render : ∀ (v : Json) {rest : List Char}, EndsNumber rest →
    Spells v (v.render.toList ++ rest) rest
  | .boolean true, rest, _ => .yes rest
  | .boolean false, rest, _ => .no rest
  | .number n, rest, ends => by
    have numeral := numeral_natText n
    rw [render]
    cases hds : (Text.natText n).toList with
    | nil =>
      rw [Text.natText, String.toList_ofList] at hds
      exact absurd hds Nat.toDigits_ne_nil
    | cons d ds => exact .number (hds ▸ numeral) ends rfl
  | .text t, rest, _ => by
    rw [render, toList_quoted, List.cons_append, List.append_assoc]
    exact .text (spellsChars_escaped t.toList rest)
  | .array vs, rest, _ => by
    rw [render, String.toList_append, String.toList_append, List.append_assoc, List.append_assoc]
    exact .array (spellsItems_render vs (endsNumber_cons (by decide)))
  | .object fs, rest, _ => by
    rw [render, String.toList_append, String.toList_append, List.append_assoc, List.append_assoc]
    exact .object (spellsFields_render fs (endsNumber_cons (by decide)))

theorem spellsItems_render : ∀ (vs : List Json) {rest : List Char}, EndsNumber rest →
    SpellsItems vs ((renderItems vs).toList ++ rest) rest
  | [], rest, _ => .none rest
  | [v], rest, ends => .one (spells_render v ends)
  | v :: w :: vs, rest, ends => by
    rw [renderItems, String.toList_append, String.toList_append, List.append_assoc,
      List.append_assoc]
    · exact .more (spells_render v (endsNumber_cons (by decide)))
        (spellsItems_render (w :: vs) ends)
    · exact List.cons_ne_nil w vs

theorem spellsFields_render : ∀ (fs : List (String × Json)) {rest : List Char}, EndsNumber rest →
    SpellsFields fs ((renderFields fs).toList ++ rest) rest
  | [], rest, _ => .none rest
  | [(k, v)], rest, ends => by
    rw [renderFields, String.toList_append, String.toList_append, toList_quoted]
    simp only [List.cons_append, List.append_assoc]
    exact .one (spellsChars_escaped _ _) (spells_render v ends)
  | (k, v) :: f :: fs, rest, ends => by
    rw [renderFields, String.toList_append, String.toList_append, String.toList_append,
      String.toList_append, toList_quoted]
    · simp only [List.cons_append, List.append_assoc]
      exact .more (spellsChars_escaped _ _) (spells_render v (endsNumber_cons (by decide)))
        (spellsFields_render (f :: fs) ends)
    · exact List.cons_ne_nil f fs

end

/-! ## Reading in one way only -/

theorem shortEscapes_unique : ∀ e ∈ shortEscapes, ∀ f ∈ shortEscapes, e.1 = f.1 → e.2 = f.2 := by
  decide

theorem not_escape_u : ∀ e ∈ shortEscapes, e.1 ≠ 'u' := by decide

theorem spellsChars_unique {s' : List Char} (h : SpellsChars s cs rest)
    (h' : SpellsChars s' cs rest') : s' = s ∧ rest' = rest := by
  induction h generalizing s' with
  | close rest =>
    cases h' with
    | close => exact ⟨rfl, rfl⟩
    | plain _ quote => exact absurd rfl quote
  | plain _ quote backslash _ ih =>
    cases h' with
    | close => exact absurd rfl quote
    | plain _ _ _ more =>
      obtain ⟨rfl, rfl⟩ := ih more
      exact ⟨rfl, rfl⟩
    | short => exact absurd rfl backslash
    | code => exact absurd rfl backslash
  | short escape _ ih =>
    cases h' with
    | plain _ _ backslash => exact absurd rfl backslash
    | short escape' more =>
      obtain ⟨rfl, rfl⟩ := ih more
      have hsame := shortEscapes_unique _ escape' _ escape rfl
      exact ⟨congrArg (· :: _) hsame, rfl⟩
    | code => exact absurd rfl (not_escape_u _ escape)
  | code h₁ h₂ h₃ h₄ value _ ih =>
    cases h' with
    | plain _ _ backslash => exact absurd rfl backslash
    | short escape => exact absurd rfl (not_escape_u _ escape)
    | code h₁' h₂' h₃' h₄' value' more =>
      obtain ⟨rfl, rfl⟩ := ih more
      rw [h₁] at h₁'
      rw [h₂] at h₂'
      rw [h₃] at h₃'
      rw [h₄] at h₄'
      obtain rfl := Option.some.inj h₁'
      obtain rfl := Option.some.inj h₂'
      obtain rfl := Option.some.inj h₃'
      obtain rfl := Option.some.inj h₄'
      exact ⟨by rw [Char.toNat_inj.mp (value'.trans value.symm)], rfl⟩

/-- A number is all digits up to its end. -/
theorem numeral_unique {m n : Nat} {es : List Char} (h : Numeral n ds) (ends : EndsNumber rest)
    (h' : Numeral m es) (ends' : EndsNumber rest') (hsame : es ++ rest' = ds ++ rest) :
    m = n ∧ rest' = rest := by
  have htaken : ∀ {cs rest : List Char}, (∀ c ∈ cs, c.isDigit = true) → EndsNumber rest →
      (cs ++ rest).takeWhile Char.isDigit = cs ∧ (cs ++ rest).dropWhile Char.isDigit = rest := by
    intro cs rest digits ends
    obtain ⟨htake, hdrop⟩ := Toml.takeWhile_digits digits (p := Char.isDigit) (fun c hc => hc) rest
    rw [htake, hdrop]
    cases rest with
    | nil => simp
    | cons c rest =>
      have hc : c.isDigit = false := ends c rfl
      simp [hc]
  obtain ⟨htake, hdrop⟩ := htaken h.digits ends
  obtain ⟨htake', hdrop'⟩ := htaken h'.digits ends'
  rw [hsame, htake] at htake'
  rw [hsame, hdrop] at hdrop'
  subst htake'
  exact ⟨h'.value.symm.trans h.value, hdrop'.symm⟩

/-- What does not begin with a digit is no number. -/
theorem not_numeral {n : Nat} (h : c.isDigit = false) : ¬ Numeral n (c :: ds) := by
  intro numeral
  have hc := numeral.digits c List.mem_cons_self
  rw [h] at hc
  cases hc

theorem not_spells_close (h : c = ']' ∨ c = '\x7d') : ¬ Spells v (c :: cs) rest := by
  intro hv
  rcases h with rfl | rfl
  · cases hv with
    | number numeral => exact not_numeral (by decide) numeral
  · cases hv with
    | number numeral => exact not_numeral (by decide) numeral

mutual

/-- A text does not begin with two values. -/
theorem spells_unique : ∀ (v : Json) {w : Json} {cs rest rest' : List Char}, Spells v cs rest →
    Spells w cs rest' → w = v ∧ rest' = rest
  | .boolean true, _, _, _, _, .yes _, h' => by
    cases h' with
    | yes => exact ⟨rfl, rfl⟩
    | number numeral => exact absurd numeral (not_numeral (by decide))
  | .boolean false, _, _, _, _, .no _, h' => by
    cases h' with
    | no => exact ⟨rfl, rfl⟩
    | number numeral => exact absurd numeral (not_numeral (by decide))
  | .number n, w, d :: cs, _, _, .number numeral ends split, h' => by
    have hdigit := numeral.digits d List.mem_cons_self
    cases h' with
    | number numeral' ends' split' =>
      rw [split] at split'
      obtain ⟨rfl, hrest⟩ := numeral_unique numeral ends numeral' ends'
        (congrArg (d :: ·) split'.symm)
      exact ⟨rfl, hrest⟩
    | yes | no | text | array | object => exact absurd hdigit (by decide)
  | .text t, _, _, _, _, .text chars, h' => by
    cases h' with
    | text chars' =>
      obtain ⟨hchars, hrest⟩ := spellsChars_unique chars chars'
      exact ⟨by rw [String.toList_inj.mp hchars], hrest⟩
    | number numeral => exact absurd numeral (not_numeral (by decide))
  | .array vs, _, _, _, _, .array items, h' => by
    cases h' with
    | array items' =>
      obtain ⟨rfl, hrest⟩ := spellsItems_unique vs items items'
      exact ⟨rfl, hrest⟩
    | number numeral => exact absurd numeral (not_numeral (by decide))
  | .object fs, _, _, _, _, .object fields, h' => by
    cases h' with
    | object fields' =>
      obtain ⟨rfl, hrest⟩ := spellsFields_unique fs fields fields'
      exact ⟨rfl, hrest⟩
    | number numeral => exact absurd numeral (not_numeral (by decide))

theorem spellsItems_unique : ∀ (vs : List Json) {ws : List Json} {cs rest rest' : List Char},
    SpellsItems vs cs (']' :: rest) → SpellsItems ws cs (']' :: rest') → ws = vs ∧ rest' = rest
  | [], _, _, _, _, .none _, h' => by
    cases h' with
    | none => exact ⟨rfl, rfl⟩
    | one item => exact absurd item (not_spells_close (Or.inl rfl))
    | more item => exact absurd item (not_spells_close (Or.inl rfl))
  | [v], _, _, _, _, .one item, h' => by
    cases h' with
    | none => exact absurd item (not_spells_close (Or.inl rfl))
    | one item' =>
      obtain ⟨rfl, hrest⟩ := spells_unique v item item'
      exact ⟨rfl, (List.cons.inj hrest).2⟩
    | more item' =>
      obtain ⟨-, hrest⟩ := spells_unique v item item'
      cases hrest
  | v :: w :: vs, _, _, _, _, .more item items, h' => by
    cases h' with
    | none => exact absurd item (not_spells_close (Or.inl rfl))
    | one item' =>
      obtain ⟨-, hrest⟩ := spells_unique v item item'
      cases hrest
    | more item' items' =>
      obtain ⟨rfl, hrest⟩ := spells_unique v item item'
      obtain rfl := (List.cons.inj hrest).2
      obtain ⟨hws, hrest⟩ := spellsItems_unique (w :: vs) items items'
      exact ⟨congrArg (_ :: ·) hws, hrest⟩

theorem spellsFields_unique : ∀ (fs : List (String × Json)) {gs : List (String × Json)}
    {cs rest rest' : List Char}, SpellsFields fs cs ('\x7d' :: rest) →
    SpellsFields gs cs ('\x7d' :: rest') → gs = fs ∧ rest' = rest
  | [], _, _, _, _, .none _, h' => by
    cases h' with
    | none => exact ⟨rfl, rfl⟩
  | [(k, v)], _, _, _, _, .one key field, h' => by
    cases h' with
    | one key' field' =>
      obtain ⟨hkey, hcolon⟩ := spellsChars_unique key key'
      obtain rfl := (List.cons.inj hcolon).2
      obtain ⟨rfl, hrest⟩ := spells_unique v field field'
      exact ⟨by rw [String.toList_inj.mp hkey], (List.cons.inj hrest).2⟩
    | more key' field' =>
      obtain ⟨-, hcolon⟩ := spellsChars_unique key key'
      obtain rfl := (List.cons.inj hcolon).2
      obtain ⟨-, hrest⟩ := spells_unique v field field'
      cases hrest
  | (k, v) :: f :: fs, _, _, _, _, .more key field fields, h' => by
    cases h' with
    | one key' field' =>
      obtain ⟨-, hcolon⟩ := spellsChars_unique key key'
      obtain rfl := (List.cons.inj hcolon).2
      obtain ⟨-, hrest⟩ := spells_unique v field field'
      cases hrest
    | more key' field' fields' =>
      obtain ⟨hkey, hcolon⟩ := spellsChars_unique key key'
      obtain rfl := (List.cons.inj hcolon).2
      obtain ⟨rfl, hrest⟩ := spells_unique v field field'
      obtain rfl := (List.cons.inj hrest).2
      obtain ⟨hgs, hrest⟩ := spellsFields_unique (f :: fs) fields fields'
      exact ⟨by rw [String.toList_inj.mp hkey, hgs], hrest⟩

end

/-! ## No control characters -/

/-- A text has no control characters. -/
def Printable (cs : List Char) : Prop := ∀ c ∈ cs, 32 ≤ c.toNat

theorem printable_cons : Printable (c :: cs) ↔ 32 ≤ c.toNat ∧ Printable cs := List.forall_mem_cons

theorem printable_of_hexValue? {n : Nat} (h : hexValue? c = some n) : 32 ≤ c.toNat := by
  have hle : ∀ {a b : Char}, a ≤ b → a.toNat ≤ b.toNat := fun h => h
  unfold hexValue? at h
  split at h
  · next hc => exact Nat.le_trans (by decide) (hle hc.1)
  split at h
  · next hc => exact Nat.le_trans (by decide) (hle hc.1)
  split at h
  · next hc => exact Nat.le_trans (by decide) (hle hc.1)
  · cases h

theorem printable_of_spellsChars (h : SpellsChars s cs rest) (hrest : Printable rest) :
    Printable cs := by
  induction h with
  | close => exact printable_cons.mpr ⟨by decide, hrest⟩
  | plain printable _ _ _ ih => exact printable_cons.mpr ⟨printable, ih hrest⟩
  | short escape _ ih =>
    have hletters : ∀ e ∈ shortEscapes, 32 ≤ e.1.toNat := by decide
    exact printable_cons.mpr ⟨by decide, printable_cons.mpr ⟨hletters _ escape, ih hrest⟩⟩
  | code h₁ h₂ h₃ h₄ _ _ ih =>
    simp only [printable_cons]
    exact ⟨by decide, by decide, printable_of_hexValue? h₁, printable_of_hexValue? h₂,
      printable_of_hexValue? h₃, printable_of_hexValue? h₄, ih hrest⟩

theorem printable_of_numeral {n : Nat} (h : Numeral n ds) (hrest : Printable rest) :
    Printable (ds ++ rest) := by
  intro c hc
  rcases List.mem_append.mp hc with hmem | hmem
  · have hdigit := h.digits c hmem
    rw [Char.isDigit, Bool.and_eq_true, decide_eq_true_eq] at hdigit
    exact Nat.le_trans (by decide) (show 48 ≤ c.toNat from hdigit.1)
  · exact hrest c hmem

mutual

/-- A value is spelled without control characters, and so on one line. -/
theorem printable_of_spells : ∀ (v : Json) {cs rest : List Char}, Spells v cs rest →
    Printable rest → Printable cs
  | .boolean true, _, _, .yes _, hrest => by
    simp only [printable_cons]
    exact ⟨by decide, by decide, by decide, by decide, hrest⟩
  | .boolean false, _, _, .no _, hrest => by
    simp only [printable_cons]
    exact ⟨by decide, by decide, by decide, by decide, by decide, hrest⟩
  | .number n, _, _, .number numeral _ split, hrest => by
    rw [split]
    exact printable_of_numeral numeral hrest
  | .text t, _, _, .text chars, hrest =>
    printable_cons.mpr ⟨by decide, printable_of_spellsChars chars hrest⟩
  | .array vs, _, _, .array items, hrest =>
    printable_cons.mpr ⟨by decide, printable_of_spellsItems vs items
      (printable_cons.mpr ⟨by decide, hrest⟩)⟩
  | .object fs, _, _, .object fields, hrest =>
    printable_cons.mpr ⟨by decide, printable_of_spellsFields fs fields
      (printable_cons.mpr ⟨by decide, hrest⟩)⟩

theorem printable_of_spellsItems : ∀ (vs : List Json) {cs rest : List Char},
    SpellsItems vs cs rest → Printable rest → Printable cs
  | [], _, _, .none _, hrest => hrest
  | [v], _, _, .one item, hrest => printable_of_spells v item hrest
  | v :: w :: vs, _, _, .more item items, hrest =>
    printable_of_spells v item
      (printable_cons.mpr ⟨by decide, printable_of_spellsItems (w :: vs) items hrest⟩)

theorem printable_of_spellsFields : ∀ (fs : List (String × Json)) {cs rest : List Char},
    SpellsFields fs cs rest → Printable rest → Printable cs
  | [], _, _, .none _, hrest => hrest
  | [(_, v)], _, _, .one key field, hrest =>
    printable_cons.mpr ⟨by decide, printable_of_spellsChars key
      (printable_cons.mpr ⟨by decide, printable_of_spells v field hrest⟩)⟩
  | (_, v) :: f :: fs, _, _, .more key field fields, hrest => by
    have hfields := printable_of_spellsFields (f :: fs) fields hrest
    have hfield := printable_of_spells v field (printable_cons.mpr ⟨by decide, hfields⟩)
    exact printable_cons.mpr ⟨by decide, printable_of_spellsChars key
      (printable_cons.mpr ⟨by decide, hfield⟩)⟩

end

end CodeIndex.Json
