import CodeIndex.Proofs.FileSystem.Descent
import CodeIndex.Proofs.FileSystem.Passing

/-!
# How far a path reaches

A lookup answers with an error where nothing is, and also where it does not go on: after too many
links, on a text that is too long, and at a slash after what is no directory. Both look alike to one
who asks only whether a path exists.

* `Finds.after`, `Finds.extend` : what a walk does behind a place that it comes by;
* `GivesUp` : a lookup that fails although the names lead to something;
* `Deepest` : the longest part of a way that leads to something;
* `LinkLeft`, `EndsLinkFree` : whether there are links in it.
-/

namespace CodeIndex.FileSystem

variable {fs gs : FileSystem} {k k' : Nat} {cwd d p q R : Place} {ns ms : List String}
  {path : Path} {e : Entry} {r : Found}

/-! ## Walks behind a place -/

/-- A walk that comes by a place goes on from there. -/
theorem Finds.after (h : fs.Finds true k d (ns ++ ms) r) (h' : fs.Finds true k' d ns (.entry p e)) :
    ∃ k₂, k = k' + k₂ ∧ fs.Finds true k₂ p ms r := by
  by_cases hms : ms = []
  · subst hms
    rw [List.append_nil] at h
    obtain ⟨rfl, rfl⟩ := h.unique h'
    exact ⟨0, rfl, .here h'.get?_eq⟩
  · obtain ⟨k₁, k₂, q, m, rfl, h₁, h₂⟩ := h.split hms
    obtain ⟨rfl, hend⟩ := h₁.unique h'
    obtain ⟨rfl, -⟩ := Found.entry.inj hend
    exact ⟨k₂, rfl, h₂⟩

/-- A walk goes on from where another ended. -/
theorem Finds.extend (h : fs.Finds true k d ns (.entry p e)) (h' : fs.Finds true k' p ms r) :
    fs.Finds true (k + k') d (ns ++ ms) r := by
  by_cases hms : ms = []
  · subst hms
    cases h' with
    | here he =>
      obtain rfl := Option.some.inj (h.get?_eq.symm.trans he)
      rwa [List.append_nil]
  · exact h.append h' hms

/-- A walk that follows links ends at none, unless it starts at one and goes nowhere. -/
theorem Finds.isLink_eq_false (hw : fs.WellFormed) (h : fs.Finds true k d ns (.entry p e))
    (hstart : ∀ x, fs.get? d = some x → x.isLink = false) : e.isLink = false := by
  generalize hr : Found.entry p e = r at h
  induction h with
  | here he =>
    obtain ⟨rfl, rfl⟩ := Found.entry.inj hr
    exact hstart _ he
  | current _ _ _ ih => exact ih hstart hr
  | parent hd _ _ ih => exact ih (fun x => isLink_of_isDirAt (hw.isDirAt_dropLast hd)) hr
  | vacant => cases hr
  | unfollowed hff => cases hff
  | enter _ _ _ _ he hnl _ ih =>
    apply ih _ hr
    intro x hx
    obtain rfl := Option.some.inj (he.symm.trans hx)
    exact hnl
  | link _ hd _ _ _ _ _ ih =>
    apply ih _ hr
    intro x hx
    unfold origin at hx
    split at hx
    · exact isLink_of_isDirAt isDirAt_root hx
    · exact isLink_of_isDirAt hd hx

/-! ## Lookups that give up -/

/-- The names of a path lead to an entry, but a lookup fails: there are too many links on the way,
the text is too long, or it ends with a slash after what is no directory. -/
def GivesUp (fs : FileSystem) (cwd : Place) (path : Path) : Prop :=
  ∃ k p e, fs.Finds true k (origin cwd path) (namesOf path) (.entry p e) ∧
    (maxLinks < k ∨ maxPath < path.text.utf8ByteSize ∨
      path.text.toList.getLast? = some '/' ∧ e.isDir = false)

/-- Where the names of a path lead, its lookup leads unless it gives up. -/
theorem lookup_of_finds (hne : path.text ≠ "") (hlen : path.text.utf8ByteSize ≤ maxPath)
    (hk : k ≤ maxLinks) (hf : fs.Finds true k (origin cwd path) (namesOf path) (.entry p e))
    (hslash : path.text.toList.getLast? = some '/' → e.isDir = true) :
    fs.lookup cwd path true = .ok (.entry p e) := by
  refine lookup_eq_ok_iff.mpr ⟨hne, hlen, k, hk, ?_⟩
  unfold steps
  split
  · next hlast =>
    have hget := hf.get?_eq
    have hdir : fs.isDirAt p = true := by
      rw [isDirAt, hget]
      exact hslash hlast
    exact hf.append (.current hdir rfl (.here hget)) (List.cons_ne_nil "." [])
  · exact hf

theorem givesUp_of_finds (hne : path.text ≠ "") (hmiss : fs.pathExists cwd path = false)
    (hf : fs.Finds true k (origin cwd path) (namesOf path) (.entry p e)) : fs.GivesUp cwd path := by
  refine ⟨k, p, e, hf, ?_⟩
  by_contra hnot
  rw [not_or, not_or, not_and, Nat.not_lt, Nat.not_lt, Bool.not_eq_false] at hnot
  obtain ⟨hk, hlen, hslash⟩ := hnot
  rw [pathExists_of_lookup (lookup_of_finds hne hlen hk hf hslash)] at hmiss
  cases hmiss

/-! ## The part of a way that leads to something -/

/-- Where the path of a place leads to something, so does that of a place above. -/
theorem pathExists_above (hp : PlainPlace p) (h : fs.pathExists cwd (Path.ofNames p) = true)
    (hq : q <+: p) : fs.pathExists cwd (Path.ofNames q) = true := by
  obtain ⟨D, e, hl⟩ := exists_lookup h
  obtain ⟨k, hk, hf⟩ := finds_of_lookup_ofNames hp hl
  have hlen : (Path.ofNames q).text.utf8ByteSize ≤ maxPath :=
    Nat.le_trans (utf8ByteSize_ofNames_le hq) (lookup_ofNames_length hl)
  obtain ⟨rest, rfl⟩ := hq
  by_cases hrest : rest = []
  · rwa [hrest, List.append_nil] at h
  · obtain ⟨k₁, k₂, D', m, rfl, h₁, -⟩ := hf.split hrest
    rw [plainPlace_append] at hp
    exact pathExists_of_lookup (lookup_ofNames hp.1 hlen (by omega) h₁)

/-- The longest part of the way to a place that leads to something, links followed. -/
structure Deepest (fs : FileSystem) (cwd R p : Place) : Prop where
  above : p <+: R
  reached : fs.pathExists cwd (Path.ofNames p) = true
  longest : ∀ q, q <+: R → fs.pathExists cwd (Path.ofNames q) = true → q <+: p

theorem exists_deepest (fs : FileSystem) (cwd R : Place) : ∃ p, fs.Deepest cwd R p := by
  induction R using List.reverseRecOn with
  | nil =>
    refine ⟨[], List.prefix_refl [], pathExists_of_lookup (lookup_root fs cwd true), ?_⟩
    exact fun q hq _ => hq
  | append_singleton R n ih =>
    by_cases hall : fs.pathExists cwd (Path.ofNames (R ++ [n])) = true
    · exact ⟨R ++ [n], List.prefix_refl _, hall, fun q hq _ => hq⟩
    · obtain ⟨p, habove, hreached, hlongest⟩ := ih
      refine ⟨p, habove.trans (List.prefix_append R [n]), hreached, fun q hq hqe => ?_⟩
      rcases List.prefix_concat_iff.mp hq with rfl | hq
      · exact absurd hqe hall
      · exact hlongest q hq hqe

/-- Among the entries on the way to a place, or at it, is a link that leads to something. -/
def LinkLeft (fs : FileSystem) (cwd R : Place) : Prop :=
  ∃ q t, q <+: R ∧ fs.get? q = some (.link t) ∧ fs.pathExists cwd (Path.ofNames q) = true

/-- The longest part of the way to a place that leads to something is free of links. -/
def EndsLinkFree (fs : FileSystem) (cwd R : Place) : Prop :=
  ∃ p, fs.Deepest cwd R p ∧ fs.LinkFree p

theorem endsLinkFree_iff (hR : PlainPlace R) : fs.EndsLinkFree cwd R ↔ ¬ fs.LinkLeft cwd R := by
  constructor
  · rintro ⟨p, hdeepest, hfree⟩ ⟨q, t, hq, ht, hqe⟩
    exact hfree q t (hdeepest.longest q hq hqe) ht
  · intro hnone
    obtain ⟨p, hdeepest⟩ := exists_deepest fs cwd R
    obtain ⟨rest, hrest⟩ := hdeepest.above
    have hp : PlainPlace p := by
      rw [← hrest, plainPlace_append] at hR
      exact hR.1
    refine ⟨p, hdeepest, fun q t hq ht => hnone ⟨q, t, hq.trans hdeepest.above, ht, ?_⟩⟩
    exact pathExists_above hp hdeepest.reached hq

/-- Where no link is left that leads to something, none leads to a directory. -/
theorem clear_of_not_linkLeft (hR : PlainPlace R) (h : ¬ fs.LinkLeft cwd R) : fs.Clear R := by
  intro q t hq ht
  by_contra hdir
  rw [Bool.not_eq_false] at hdir
  apply h
  obtain ⟨D, m, hD⟩ := isDir_iff.mp hdir
  have hplain : PlainPlace q := fun n hn => hR n (hq.subset hn)
  obtain ⟨k, hk, hf⟩ := finds_of_lookup_ofNames hplain hD
  exact ⟨q, t, hq, ht, pathExists_of_lookup (lookup_ofNames hplain (lookup_ofNames_length hD) hk hf)⟩

end CodeIndex.FileSystem
