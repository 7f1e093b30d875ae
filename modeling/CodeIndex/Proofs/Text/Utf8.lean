import CodeIndex.Text.Utf8

/-!
# Reading back encoded texts

The bytes of a text decode to the text. The decoder keeps the range of the byte it waits for, and
the encoder stays within it: where a lead byte narrows the range, characters that have a shorter
encoding, or that are surrogates, would be outside.

* `decodeFrom_lead`, `decodeFrom_next` : one byte of a sequence;
* `decodeFrom_utf8EncodeChar` : the bytes of one character;
* `decode_encode` : those of a text.
-/

namespace CodeIndex.Text.Utf8

/-- A byte that begins a sequence. -/
theorem decodeFrom_lead {b : UInt8} {p : Pending} (hb : 0x80 ≤ b.toNat)
    (hp : Pending.ofLead? b = some p) (bytes : List UInt8) :
    decodeFrom none (b :: bytes) = decodeFrom (some p) bytes := by
  have hnot : ¬ b < 0x80 := by
    rw [UInt8.lt_iff_toNat_lt]
    exact Nat.not_lt.mpr hb
  simp only [decodeFrom, step, start, if_neg hnot, hp, List.nil_append]

/-- A byte within the range that a sequence waits for. -/
theorem decodeFrom_next {code missing : Nat} {low high b : UInt8} (hlow : low.toNat ≤ b.toNat)
    (hhigh : b.toNat ≤ high.toNat) (bytes : List UInt8) :
    decodeFrom (some ⟨code, missing, low, high⟩) (b :: bytes) =
      if missing ≤ 1 then Char.ofNat (code * 64 + (b.toNat - 0x80)) :: decodeFrom none bytes
      else decodeFrom (some ⟨code * 64 + (b.toNat - 0x80), missing - 1, 0x80, 0xBF⟩) bytes := by
  have hrange : (low ≤ b && b ≤ high) = true := by
    simp [UInt8.le_iff_toNat_le, hlow, hhigh]
  simp only [decodeFrom, step, hrange, if_true]
  by_cases hm : missing ≤ 1
  · simp only [if_pos hm, List.cons_append, List.nil_append]
  · simp only [if_neg hm, List.nil_append]

/-- A byte that continues a sequence, with six bits. -/
theorem decodeFrom_tail {code missing n : Nat} (bytes : List UInt8) :
    decodeFrom (some ⟨code, missing, 0x80, 0xBF⟩) (UInt8.ofNat (n % 64 + 128) :: bytes) =
      if missing ≤ 1 then Char.ofNat (code * 64 + n % 64) :: decodeFrom none bytes
      else decodeFrom (some ⟨code * 64 + n % 64, missing - 1, 0x80, 0xBF⟩) bytes := by
  have hn : (UInt8.ofNat (n % 64 + 128)).toNat = n % 64 + 128 := by
    rw [UInt8.toNat_ofNat']
    omega
  have h80 : (0x80 : UInt8).toNat = 128 := rfl
  have hBF : (0xBF : UInt8).toNat = 191 := rfl
  rw [decodeFrom_next (by omega) (by omega), hn, Nat.add_sub_cancel]

/-- What the first of three bytes announces, and that the second one is within the range. -/
theorem ofLead?_three {v : Nat} (hlow : 0x7FF < v) (hhigh : v ≤ 0xFFFF)
    (hvalid : v < 0xD800 ∨ 0xDFFF < v) {b : UInt8} (hb : b.toNat = v / 4096 + 224) :
    ∃ low high : UInt8, Pending.ofLead? b = some ⟨v / 4096, 2, low, high⟩ ∧
      low.toNat ≤ v / 64 % 64 + 128 ∧ v / 64 % 64 + 128 ≤ high.toNat := by
  unfold Pending.ofLead?
  rw [hb]
  dsimp only
  have hA0 : (0xA0 : UInt8).toNat = 160 := rfl
  have h80 : (0x80 : UInt8).toNat = 128 := rfl
  have h9F : (0x9F : UInt8).toNat = 159 := rfl
  have hBF : (0xBF : UInt8).toNat = 191 := rfl
  rw [if_neg (by omega)]
  by_cases hE0 : v / 4096 + 224 = 0xE0
  · refine ⟨0xA0, 0xBF, ?_, by omega, by omega⟩
    rw [if_pos hE0, show v / 4096 = 0 by omega]
  rw [if_neg hE0]
  by_cases hED : v / 4096 + 224 = 0xED
  · refine ⟨0x80, 0x9F, ?_, by omega, by omega⟩
    rw [if_pos hED, show v / 4096 = 0xD by omega]
  refine ⟨0x80, 0xBF, ?_, by omega, by omega⟩
  rw [if_neg hED, if_pos (by omega), Nat.add_sub_cancel]

/-- What the first of four bytes announces, and that the second one is within the range. -/
theorem ofLead?_four {v : Nat} (hlow : 0xFFFF < v) (hhigh : v < 0x110000) {b : UInt8}
    (hb : b.toNat = v / 262144 + 240) :
    ∃ low high : UInt8, Pending.ofLead? b = some ⟨v / 262144, 3, low, high⟩ ∧
      low.toNat ≤ v / 4096 % 64 + 128 ∧ v / 4096 % 64 + 128 ≤ high.toNat := by
  unfold Pending.ofLead?
  rw [hb]
  dsimp only
  have h90 : (0x90 : UInt8).toNat = 144 := rfl
  have h80 : (0x80 : UInt8).toNat = 128 := rfl
  have h8F : (0x8F : UInt8).toNat = 143 := rfl
  have hBF : (0xBF : UInt8).toNat = 191 := rfl
  rw [if_neg (by omega), if_neg (by omega), if_neg (by omega), if_neg (by omega)]
  by_cases hF0 : v / 262144 + 240 = 0xF0
  · refine ⟨0x90, 0xBF, ?_, by omega, by omega⟩
    rw [if_pos hF0, show v / 262144 = 0 by omega]
  rw [if_neg hF0]
  by_cases hF4 : v / 262144 + 240 = 0xF4
  · refine ⟨0x80, 0x8F, ?_, by omega, by omega⟩
    rw [if_neg (by omega), if_pos hF4, show v / 262144 = 4 by omega]
  refine ⟨0x80, 0xBF, ?_, by omega, by omega⟩
  rw [if_pos (by omega), Nat.add_sub_cancel]

/-- The bytes of one character, whatever follows them. -/
theorem decodeFrom_utf8EncodeChar (c : Char) (bytes : List UInt8) :
    decodeFrom none (String.utf8EncodeChar c ++ bytes) = c :: decodeFrom none bytes := by
  have hback : Char.ofNat c.val.toNat = c := Char.ofNat_toNat c
  have hvalid : c.val.toNat < 0xD800 ∨ 0xDFFF < c.val.toNat ∧ c.val.toNat < 0x110000 := c.valid
  unfold String.utf8EncodeChar
  generalize c.val.toNat = v at hback hvalid
  dsimp only
  have hbyte : ∀ n, n < 256 → (UInt8.ofNat n).toNat = n := fun n hn => by
    rw [UInt8.toNat_ofNat']
    omega
  split
  · next h1 =>
    have hlt : UInt8.ofNat v < 0x80 := by
      rw [UInt8.lt_iff_toNat_lt, hbyte v (by omega)]
      exact Nat.lt_succ_of_le h1
    show decodeFrom none (UInt8.ofNat v :: bytes) = _
    simp only [decodeFrom, step, start, if_pos hlt, hbyte v (by omega), hback,
      List.cons_append, List.nil_append]
  split
  · next h1 h2 =>
    have hb := hbyte (v / 64 % 32 + 192) (by omega)
    have hlead : Pending.ofLead? (UInt8.ofNat (v / 64 % 32 + 192)) =
        some ⟨v / 64, 1, 0x80, 0xBF⟩ := by
      unfold Pending.ofLead?
      rw [hb]
      dsimp only
      rw [if_pos (by omega), show v / 64 % 32 + 192 - 0xC0 = v / 64 by omega]
    show decodeFrom none (UInt8.ofNat (v / 64 % 32 + 192) ::
      UInt8.ofNat (v % 64 + 128) :: bytes) = _
    rw [decodeFrom_lead (by omega) hlead, decodeFrom_tail, if_pos (Nat.le_refl 1),
      show v / 64 * 64 + v % 64 = v by omega, hback]
  split
  · next h2 h3 =>
    have hb := hbyte (v / 4096 % 16 + 224) (by omega)
    have hs := hbyte (v / 64 % 64 + 128) (by omega)
    obtain ⟨low, high, hlead, hlow, hhigh⟩ := ofLead?_three (v := v) (by omega) h3 (by omega)
      (b := UInt8.ofNat (v / 4096 % 16 + 224)) (by omega)
    show decodeFrom none (UInt8.ofNat (v / 4096 % 16 + 224) :: UInt8.ofNat (v / 64 % 64 + 128) ::
      UInt8.ofNat (v % 64 + 128) :: bytes) = _
    rw [decodeFrom_lead (by omega) hlead, decodeFrom_next (by omega) (by omega),
      if_neg (by omega), decodeFrom_tail, if_pos (by omega), hs,
      show (v / 4096 * 64 + (v / 64 % 64 + 128 - 128)) * 64 + v % 64 = v by omega, hback]
  · next h2 h3 =>
    have hb := hbyte (v / 262144 % 8 + 240) (by omega)
    have hs := hbyte (v / 4096 % 64 + 128) (by omega)
    obtain ⟨low, high, hlead, hlow, hhigh⟩ := ofLead?_four (v := v) (by omega) (by omega)
      (b := UInt8.ofNat (v / 262144 % 8 + 240)) (by omega)
    show decodeFrom none (UInt8.ofNat (v / 262144 % 8 + 240) ::
      UInt8.ofNat (v / 4096 % 64 + 128) :: UInt8.ofNat (v / 64 % 64 + 128) ::
      UInt8.ofNat (v % 64 + 128) :: bytes) = _
    rw [decodeFrom_lead (by omega) hlead, decodeFrom_next (by omega) (by omega),
      if_neg (by omega), decodeFrom_tail, if_neg (by omega), decodeFrom_tail, if_pos (by omega), hs,
      show ((v / 262144 * 64 + (v / 4096 % 64 + 128 - 128)) * 64 + v / 64 % 64) * 64 + v % 64 = v by
        omega, hback]

/-- The bytes of a text decode to the text. -/
theorem decode_encode (s : String) : decode (encode s) = s := by
  have hchars : ∀ cs : List Char, decodeFrom none (cs.flatMap String.utf8EncodeChar) = cs := by
    intro cs
    induction cs with
    | nil => rfl
    | cons c cs ih =>
      rw [List.flatMap_cons, decodeFrom_utf8EncodeChar, ih]
  rw [decode, encode, hchars, String.ofList_toList]

end CodeIndex.Text.Utf8
