import CodeIndex.Proofs.FileSystem.WellFormed
import Mathlib.Tactic.SplitIfs

/-!
# What a lookup finds

`FileSystem.lookup` counts the links it may still follow. The relation `Finds` counts those it has
followed, which makes a walk something that can be taken apart and put together.

* `Finds` : the walk of names from a directory, with the number of links followed;
* `finds_of_advance`, `advance_of_finds` : a pass through names is a walk, by recursion on the names;
* `lookup_eq_ok_iff` : a lookup succeeds exactly if there is a walk with few enough links;
* `Finds.unique` : there is at most one walk;
* `Finds.append`, `Finds.split` : the walk of a list of names is that of its beginning and that of
  its end;
* `Finds.isDir_of_dots` : a walk that ends with dots comes to a directory;
* `Finds.mono` : a walk that ends at an entry remains when entries are added.
-/

namespace CodeIndex.FileSystem

/-- The walk of names from the directory `d` follows `k` links and ends at what is found. -/
inductive Finds (fs : FileSystem) (follow : Bool) : Nat → Place → List String → Found → Prop
  | here {d e} : fs.get? d = some e → Finds fs follow 0 d [] (.entry d e)
  | current {k d n ns r} : fs.isDirAt d = true → n = "." → Finds fs follow k d ns r →
      Finds fs follow k d (n :: ns) r
  | parent {k d n ns r} : fs.isDirAt d = true → n = ".." → Finds fs follow k d.dropLast ns r →
      Finds fs follow k d (n :: ns) r
  | vacant {d n} : fs.isDirAt d = true → n ≠ "." → n ≠ ".." → n.utf8ByteSize ≤ maxName →
      fs.get? (d ++ [n]) = none → Finds fs follow 0 d [n] (.vacant (d ++ [n]))
  | unfollowed {d n t} : follow = false → fs.isDirAt d = true → n ≠ "." → n ≠ ".." →
      n.utf8ByteSize ≤ maxName → fs.get? (d ++ [n]) = some (.link t) →
      Finds fs follow 0 d [n] (.entry (d ++ [n]) (.link t))
  | enter {k d n ns e r} : fs.isDirAt d = true → n ≠ "." → n ≠ ".." → n.utf8ByteSize ≤ maxName →
      fs.get? (d ++ [n]) = some e → e.isLink = false → Finds fs follow k (d ++ [n]) ns r →
      Finds fs follow k d (n :: ns) r
  | link {k d n ns t r} : (follow = true ∨ ns ≠ []) → fs.isDirAt d = true → n ≠ "." → n ≠ ".." →
      n.utf8ByteSize ≤ maxName → fs.get? (d ++ [n]) = some (.link t) →
      Finds fs follow k (origin d t) (steps t ++ ns) r → Finds fs follow (k + 1) d (n :: ns) r

/-- A walk that has still a name to go is in a directory. -/
theorem Finds.isDirAt {fs : FileSystem} {follow : Bool} {k : Nat} {d : Place} {ns : List String}
    {r : Found} (h : fs.Finds follow k d ns r) (hns : ns ≠ []) : fs.isDirAt d = true := by
  cases h with
  | here => exact absurd rfl hns
  | current hd => exact hd
  | parent hd => exact hd
  | vacant hd => exact hd
  | unfollowed _ hd => exact hd
  | enter hd => exact hd
  | link _ hd => exact hd

/-! ## Lookups and walks -/

section Advance

variable {fs : FileSystem} {follow : Bool} {b : Nat} {d : Place} {n : String} {ns : List String}
  {found : Found} {onLink : Place → List String → Except Errno Found}

/-- A name is looked for in a directory. -/
theorem isDirAt_of_advance (h : fs.advance follow onLink d (n :: ns) = .ok found) :
    fs.isDirAt d = true := by
  rw [advance] at h
  split at h
  · cases h
  · next m hm => exact isDirAt_iff.mpr ⟨m, hm⟩
  · cases h

theorem advance_cons (hd : fs.isDirAt d = true) : fs.advance follow onLink d (n :: ns) =
    if n = "." then fs.advance follow onLink d ns
    else if n = ".." then fs.advance follow onLink d.dropLast ns
    else if maxName < n.utf8ByteSize then .error .nameTooLong
    else
      match fs.get? (d ++ [n]) with
      | none => if ns.isEmpty then .ok (.vacant (d ++ [n])) else .error .noEntry
      | some (.link target) =>
        if ns.isEmpty && !follow then .ok (.entry (d ++ [n]) (.link target))
        else onLink (origin d target) (steps target ++ ns)
      | some _ => fs.advance follow onLink (d ++ [n]) ns := by
  obtain ⟨m, hm⟩ := isDirAt_iff.mp hd
  rw [advance]
  generalize fs.get? d = entry at hm
  subst hm
  rfl

theorem finds_of_advance
    (hlink : ∀ d ns, onLink d ns = .ok found → ∃ k < b, fs.Finds follow k d ns found)
    (h : fs.advance follow onLink d ns = .ok found) : ∃ k ≤ b, fs.Finds follow k d ns found := by
  induction ns generalizing d with
  | nil =>
    rw [advance] at h
    split at h
    · next e he =>
      obtain rfl := Except.ok.inj h
      exact ⟨0, Nat.zero_le b, .here he⟩
    · cases h
  | cons n ns ih =>
    have hd := isDirAt_of_advance h
    rw [advance_cons hd] at h
    by_cases hdot : n = "."
    · rw [if_pos hdot] at h
      obtain ⟨k, hk, hf⟩ := ih h
      exact ⟨k, hk, .current hd hdot hf⟩
    by_cases hdots : n = ".."
    · rw [if_neg hdot, if_pos hdots] at h
      obtain ⟨k, hk, hf⟩ := ih h
      exact ⟨k, hk, .parent hd hdots hf⟩
    by_cases hlong : maxName < n.utf8ByteSize
    · rw [if_neg hdot, if_neg hdots, if_pos hlong] at h
      cases h
    rw [if_neg hdot, if_neg hdots, if_neg hlong] at h
    have hshort : n.utf8ByteSize ≤ maxName := Nat.not_lt.mp hlong
    split at h
    · next hv =>
      split at h
      · next hns =>
        obtain rfl := Except.ok.inj h
        obtain rfl := List.isEmpty_iff.mp hns
        exact ⟨0, Nat.zero_le b, .vacant hd hdot hdots hshort hv⟩
      · cases h
    · next t ht =>
      split at h
      · next hnf =>
        obtain rfl := Except.ok.inj h
        simp only [Bool.and_eq_true, List.isEmpty_iff, Bool.not_eq_true'] at hnf
        obtain ⟨rfl, hff⟩ := hnf
        exact ⟨0, Nat.zero_le b, .unfollowed hff hd hdot hdots hshort ht⟩
      · next hnf =>
        obtain ⟨k, hk, hf⟩ := hlink _ _ h
        refine ⟨k + 1, hk, .link ?_ hd hdot hdots hshort ht hf⟩
        cases follow
        · exact Or.inr fun hnil => hnf (by simp [hnil])
        · exact Or.inl rfl
    · next e hne he =>
      obtain ⟨k, hk, hf⟩ := ih h
      have hnl : e.isLink = false := by
        cases e with
        | link t => exact absurd rfl (hne t)
        | _ => rfl
      exact ⟨k, hk, .enter hd hdot hdots hshort he hnl hf⟩

theorem advance_of_finds {k : Nat}
    (hlink : ∀ k d ns, k < b → fs.Finds follow k d ns found → onLink d ns = .ok found) (hk : k ≤ b)
    (hf : fs.Finds follow k d ns found) : fs.advance follow onLink d ns = .ok found := by
  induction ns generalizing d with
  | nil =>
    cases hf with
    | here he => rw [advance, he]
  | cons n ns ih =>
    rw [advance_cons (hf.isDirAt (List.cons_ne_nil n ns))]
    cases hf with
    | current hd hdot hf =>
      rw [if_pos hdot]
      exact ih hf
    | parent hd hdots hf =>
      rw [if_neg (by simp [hdots]), if_pos hdots]
      exact ih hf
    | vacant hd hdot hdots hshort hv =>
      rw [if_neg hdot, if_neg hdots, if_neg (by omega), hv]
      rfl
    | unfollowed hff hd hdot hdots hshort ht =>
      rw [if_neg hdot, if_neg hdots, if_neg (by omega), ht]
      simp [hff]
    | @enter _ _ _ _ e _ hd hdot hdots hshort he hnl hf =>
      rw [if_neg hdot, if_neg hdots, if_neg (by omega), he]
      cases e with
      | link t => cases hnl
      | _ => exact ih hf
    | link hns hd hdot hdots hshort ht hf =>
      rw [if_neg hdot, if_neg hdots, if_neg (by omega), ht]
      have hnot : (ns.isEmpty && !follow) = false := by
        rcases hns with hff | hne
        · simp [hff]
        · simp [hne]
      simp only [hnot]
      exact hlink _ _ _ hk hf

end Advance

theorem walkSteps_eq_ok_iff {fs : FileSystem} {follow : Bool} {found : Found} (links : Nat)
    (d : Place) (ns : List String) :
    fs.walkSteps follow links d ns = .ok found ↔ ∃ k ≤ links, fs.Finds follow k d ns found := by
  induction links generalizing d ns with
  | zero =>
    rw [walkSteps]
    constructor
    · exact finds_of_advance fun d ns h => by cases h
    · rintro ⟨k, hk, hf⟩
      exact advance_of_finds (fun k d ns hk => absurd hk (Nat.not_lt_zero k)) hk hf
  | succ links ih =>
    rw [walkSteps]
    constructor
    · refine finds_of_advance fun d ns h => ?_
      obtain ⟨k, hk, hf⟩ := (ih d ns).mp h
      exact ⟨k, Nat.lt_succ_of_le hk, hf⟩
    · rintro ⟨k, hk, hf⟩
      exact advance_of_finds
        (fun k d ns hk hf => (ih d ns).mpr ⟨k, Nat.le_of_lt_succ hk, hf⟩) hk hf

/-- A lookup succeeds exactly if the text is not too long and there is a walk with few enough
links. -/
theorem lookup_eq_ok_iff {fs : FileSystem} {cwd : Place} {path : Path} {follow : Bool}
    {found : Found} : fs.lookup cwd path follow = .ok found ↔
      path.text ≠ "" ∧ path.text.utf8ByteSize ≤ maxPath ∧
        ∃ k ≤ maxLinks, fs.Finds follow k (origin cwd path) (steps path) found := by
  rw [lookup]
  split_ifs with hempty hlong
  · simp_all
  · simp [Nat.not_le.mpr hlong]
  · rw [walkSteps_eq_ok_iff]
    have hne : path.text ≠ "" := by simpa using hempty
    simp [hne, Nat.not_lt.mp hlong]

/-! ## Walks taken apart and put together -/

namespace Finds

variable {fs gs : FileSystem} {follow : Bool} {k : Nat} {d p : Place} {ns : List String}
  {e : Entry} {r : Found}

theorem get?_eq (h : fs.Finds follow k d ns (.entry p e)) : fs.get? p = some e := by
  generalize hr : Found.entry p e = r at h
  induction h with
  | here he => cases hr; exact he
  | current _ _ _ ih => exact ih hr
  | parent _ _ _ ih => exact ih hr
  | vacant => cases hr
  | unfollowed _ _ _ _ _ ht => cases hr; exact ht
  | enter _ _ _ _ _ _ _ ih => exact ih hr
  | link _ _ _ _ _ _ _ ih => exact ih hr

/-- There is at most one walk. -/
theorem unique {k' : Nat} {r' : Found} (h : fs.Finds follow k d ns r)
    (h' : fs.Finds follow k' d ns r') : k = k' ∧ r = r' := by
  induction h generalizing k' with
  | here he =>
    cases h' with
    | here he' => simp_all
  | current hd hdot _ ih =>
    cases h' with
    | current _ _ h' => exact ih h'
    | parent _ hdots => exact absurd (hdot.symm.trans hdots) (by decide)
    | _ => contradiction
  | parent hd hdots _ ih =>
    cases h' with
    | current _ hdot => exact absurd (hdot.symm.trans hdots) (by decide)
    | parent _ _ h' => exact ih h'
    | _ => contradiction
  | vacant hd _ _ _ hv =>
    cases h' with
    | vacant => exact ⟨rfl, rfl⟩
    | unfollowed _ _ _ _ _ ht => rw [hv] at ht; cases ht
    | enter _ _ _ _ he => rw [hv] at he; cases he
    | link _ _ _ _ _ ht => rw [hv] at ht; cases ht
    | _ => contradiction
  | unfollowed hff hd _ _ _ ht =>
    cases h' with
    | vacant _ _ _ _ hv => rw [hv] at ht; cases ht
    | unfollowed _ _ _ _ _ ht' => rw [ht] at ht'; cases ht'; exact ⟨rfl, rfl⟩
    | enter _ _ _ _ he hnl => rw [ht] at he; cases he; cases hnl
    | link hns => simp [hff] at hns
    | _ => contradiction
  | enter hd _ _ _ he hnl _ ih =>
    cases h' with
    | vacant _ _ _ _ hv => rw [hv] at he; cases he
    | unfollowed _ _ _ _ _ ht => rw [he] at ht; cases ht; cases hnl
    | enter _ _ _ _ _ _ h' => exact ih h'
    | link _ _ _ _ _ ht => rw [he] at ht; cases ht; cases hnl
    | _ => contradiction
  | link hns hd _ _ _ ht _ ih =>
    cases h' with
    | vacant _ _ _ _ hv => rw [hv] at ht; cases ht
    | unfollowed hff => simp [hff] at hns
    | enter _ _ _ _ he hnl => rw [ht] at he; cases he; cases hnl
    | link _ _ _ _ _ ht' h' =>
      rw [ht] at ht'
      cases ht'
      obtain ⟨rfl, rfl⟩ := ih h'
      exact ⟨rfl, rfl⟩
    | _ => contradiction

theorem append {k' : Nat} {ms : List String} (h : fs.Finds true k d ns (.entry p e))
    (h' : fs.Finds follow k' p ms r) (hms : ms ≠ []) :
    fs.Finds follow (k + k') d (ns ++ ms) r := by
  generalize hf : true = f at h
  generalize hr : Found.entry p e = found at h
  induction h with
  | here _ => cases hr; simpa using h'
  | current hd hdot _ ih => exact .current hd hdot (ih hr)
  | parent hd hdots _ ih => exact .parent hd hdots (ih hr)
  | vacant => cases hr
  | unfollowed hff => rw [hff] at hf; cases hf
  | enter hd h1 h2 h3 he hnl _ ih => exact .enter hd h1 h2 h3 he hnl (ih hr)
  | link _ hd h1 h2 h3 ht _ ih =>
    have hrest := ih hr
    rw [List.append_assoc] at hrest
    rw [Nat.add_right_comm]
    exact .link (Or.inr (by simp [hms])) hd h1 h2 h3 ht hrest

theorem split_nil {ms : List String} (h : fs.Finds follow k d ms r) (hms : ms ≠ []) :
    ∃ k₁ k₂ p m, k = k₁ + k₂ ∧ fs.Finds true k₁ d [] (.entry p (.dir m)) ∧
      fs.Finds follow k₂ p ms r := by
  obtain ⟨m, hm⟩ := isDirAt_iff.mp (h.isDirAt hms)
  exact ⟨0, k, d, m, (Nat.zero_add k).symm, .here hm, h⟩

/-- A walk comes by a directory wherever names are still to go. -/
theorem split {ms : List String} (h : fs.Finds follow k d (ns ++ ms) r) (hms : ms ≠ []) :
    ∃ k₁ k₂ p m, k = k₁ + k₂ ∧ fs.Finds true k₁ d ns (.entry p (.dir m)) ∧
      fs.Finds follow k₂ p ms r := by
  generalize hn : ns ++ ms = names at h
  induction h generalizing ns with
  | here => simp [hms] at hn
  | current hd hdot hf ih =>
    cases ns with
    | nil => subst hn; exact split_nil (.current hd hdot hf) hms
    | cons n ns =>
      obtain ⟨rfl, hns⟩ := List.cons.inj hn
      obtain ⟨k₁, k₂, p, m, hk, h₁, h₂⟩ := ih hns
      exact ⟨k₁, k₂, p, m, hk, .current hd hdot h₁, h₂⟩
  | parent hd hdots hf ih =>
    cases ns with
    | nil => subst hn; exact split_nil (.parent hd hdots hf) hms
    | cons n ns =>
      obtain ⟨rfl, hns⟩ := List.cons.inj hn
      obtain ⟨k₁, k₂, p, m, hk, h₁, h₂⟩ := ih hns
      exact ⟨k₁, k₂, p, m, hk, .parent hd hdots h₁, h₂⟩
  | vacant hd h1 h2 h3 hv =>
    cases ns with
    | nil =>
      rw [List.nil_append] at hn
      subst hn
      exact split_nil (.vacant hd h1 h2 h3 hv) hms
    | cons => simp [hms] at hn
  | unfollowed hff hd h1 h2 h3 ht =>
    cases ns with
    | nil =>
      rw [List.nil_append] at hn
      subst hn
      exact split_nil (.unfollowed hff hd h1 h2 h3 ht) hms
    | cons => simp [hms] at hn
  | enter hd h1 h2 h3 he hnl hf ih =>
    cases ns with
    | nil => subst hn; exact split_nil (.enter hd h1 h2 h3 he hnl hf) hms
    | cons n ns =>
      obtain ⟨rfl, hns⟩ := List.cons.inj hn
      obtain ⟨k₁, k₂, p, m, hk, h₁, h₂⟩ := ih hns
      exact ⟨k₁, k₂, p, m, hk, .enter hd h1 h2 h3 he hnl h₁, h₂⟩
  | @link k d n names t r hnames hd h1 h2 h3 ht hf ih =>
    cases ns with
    | nil => subst hn; exact split_nil (.link hnames hd h1 h2 h3 ht hf) hms
    | cons n ns =>
      obtain ⟨rfl, hns⟩ := List.cons.inj hn
      have hcat : steps t ++ ns ++ ms = steps t ++ names := by rw [← hns, List.append_assoc]; rfl
      obtain ⟨k₁, k₂, p, m, hk, h₁, h₂⟩ := ih hcat
      exact ⟨k₁ + 1, k₂, p, m, by omega, .link (Or.inl rfl) hd h1 h2 h3 ht h₁, h₂⟩

/-- A walk that ends with a dot, or with two, comes to a directory. -/
theorem isDir_of_dots (hw : fs.WellFormed) {n : String} (hn : n = "." ∨ n = "..")
    (h : fs.Finds follow k d (ns ++ [n]) (.entry p e)) : e.isDir = true := by
  obtain ⟨k₁, k₂, q, m, -, -, hlast⟩ := h.split (List.cons_ne_nil n [])
  cases hlast with
  | current hq _ hend =>
    cases hend with
    | here he => rwa [FileSystem.isDirAt, he] at hq
  | parent hq _ hend =>
    cases hend with
    | here he =>
      have hup := hw.isDirAt_dropLast hq
      rwa [FileSystem.isDirAt, he] at hup
  | unfollowed _ _ hdot hdots => exact absurd hn (by simp [hdot, hdots])
  | enter _ hdot hdots => exact absurd hn (by simp [hdot, hdots])
  | link _ _ hdot hdots => exact absurd hn (by simp [hdot, hdots])

/-- A walk that ends at an entry remains when entries are added. -/
theorem mono (hg : ∀ q x, fs.get? q = some x → gs.get? q = some x)
    (h : fs.Finds follow k d ns (.entry p e)) : gs.Finds follow k d ns (.entry p e) := by
  have hdir : ∀ q, fs.isDirAt q = true → gs.isDirAt q = true := fun q hq => by
    obtain ⟨m, hm⟩ := isDirAt_iff.mp hq
    exact isDirAt_iff.mpr ⟨m, hg q _ hm⟩
  generalize hr : Found.entry p e = r at h
  induction h with
  | here he => exact .here (hg _ _ he)
  | current hd hdot _ ih => exact .current (hdir _ hd) hdot (ih hr)
  | parent hd hdots _ ih => exact .parent (hdir _ hd) hdots (ih hr)
  | vacant => cases hr
  | unfollowed hff hd h1 h2 h3 ht => exact .unfollowed hff (hdir _ hd) h1 h2 h3 (hg _ _ ht)
  | enter hd h1 h2 h3 he hnl _ ih => exact .enter (hdir _ hd) h1 h2 h3 (hg _ _ he) hnl (ih hr)
  | link hns hd h1 h2 h3 ht _ ih => exact .link hns (hdir _ hd) h1 h2 h3 (hg _ _ ht) (ih hr)

/-- A vacant place is directly in a directory, and its name can be written. -/
theorem vacant_place (h : fs.Finds follow k d ns (.vacant p))
    (hns : ∀ n ∈ ns, n ≠ "" ∧ '/' ∉ n.toList) :
    ∃ q n, p = q ++ [n] ∧ fs.isDirAt q = true ∧ IsName n ∧ fs.get? p = none := by
  generalize hr : Found.vacant p = r at h
  induction h with
  | here => cases hr
  | current _ _ _ ih => exact ih (fun n hn => hns n (List.mem_cons_of_mem _ hn)) hr
  | parent _ _ _ ih => exact ih (fun n hn => hns n (List.mem_cons_of_mem _ hn)) hr
  | @vacant d n hd h1 h2 h3 hv =>
    cases hr
    obtain ⟨hne, hslash⟩ := hns n (by simp)
    exact ⟨d, n, rfl, hd, ⟨⟨hne, h1, h2, hslash⟩, h3⟩, hv⟩
  | unfollowed => cases hr
  | enter _ _ _ _ _ _ _ ih => exact ih (fun n hn => hns n (List.mem_cons_of_mem _ hn)) hr
  | link _ _ _ _ _ _ _ ih =>
    refine ih (fun n hn => ?_) hr
    rcases List.mem_append.mp hn with hn | hn
    · exact mem_steps hn
    · exact hns n (List.mem_cons_of_mem _ hn)

end Finds

/-! ## What lookups find -/

variable {fs gs : FileSystem} {cwd : Place} {path : Path} {follow : Bool} {p : Place} {e : Entry}

theorem get?_of_lookup (h : fs.lookup cwd path follow = .ok (.entry p e)) : fs.get? p = some e := by
  obtain ⟨-, -, k, -, hf⟩ := lookup_eq_ok_iff.mp h
  exact hf.get?_eq

theorem vacant_of_lookup (h : fs.lookup cwd path follow = .ok (.vacant p)) :
    ∃ q n, p = q ++ [n] ∧ fs.isDirAt q = true ∧ IsName n ∧ fs.get? p = none := by
  obtain ⟨-, -, k, -, hf⟩ := lookup_eq_ok_iff.mp h
  exact hf.vacant_place fun n hn => mem_steps hn

/-- Below what is vacant there is nothing. -/
theorem WellFormed.get?_eq_none_of_vacant (hw : fs.WellFormed) {q : Place}
    (h : fs.lookup cwd path follow = .ok (.vacant p)) (hpq : p <+: q) : fs.get? q = none := by
  obtain ⟨d, n, -, -, -, hnone⟩ := vacant_of_lookup h
  obtain ⟨rest, rfl⟩ := hpq
  by_cases hrest : rest = []
  · rwa [hrest, List.append_nil]
  · refine hw.get?_append_eq_none hrest ?_
    rw [FileSystem.isDirAt, hnone]
    rfl

/-- A path that leads to an entry still leads there when entries are added. -/
theorem lookup_mono (hg : ∀ q x, fs.get? q = some x → gs.get? q = some x)
    (h : fs.lookup cwd path follow = .ok (.entry p e)) :
    gs.lookup cwd path follow = .ok (.entry p e) := by
  obtain ⟨hne, hlen, k, hk, hf⟩ := lookup_eq_ok_iff.mp h
  exact lookup_eq_ok_iff.mpr ⟨hne, hlen, k, hk, hf.mono hg⟩

theorem stat_eq_ok_iff : fs.stat cwd path follow = .ok (p, e) ↔
    fs.lookup cwd path follow = .ok (.entry p e) := by
  unfold stat
  split <;> simp_all

theorem pathExists_iff : fs.pathExists cwd path = true ↔
    ∃ p e, fs.stat cwd path true = .ok (p, e) := by
  unfold pathExists entry?
  cases h : fs.stat cwd path true with
  | error e => simp
  | ok r => exact iff_of_true rfl ⟨r.1, r.2, rfl⟩

theorem pathExists_of_lookup (h : fs.lookup cwd path true = .ok (.entry p e)) :
    fs.pathExists cwd path = true := pathExists_iff.mpr ⟨p, e, stat_eq_ok_iff.mpr h⟩

theorem exists_lookup (h : fs.pathExists cwd path = true) :
    ∃ p e, fs.lookup cwd path true = .ok (.entry p e) := by
  obtain ⟨p, e, hstat⟩ := pathExists_iff.mp h
  exact ⟨p, e, stat_eq_ok_iff.mp hstat⟩

theorem canonical_eq_ok_iff : fs.canonical cwd path = .ok p ↔
    ∃ e, fs.lookup cwd path true = .ok (.entry p e) := by
  simp only [← stat_eq_ok_iff]
  unfold canonical
  cases h : fs.stat cwd path true with
  | error e => simp [Except.map]
  | ok x => simp [Except.map, Prod.ext_iff]

theorem isFile_iff : fs.isFile cwd path = true ↔
    ∃ q id mode bytes, fs.stat cwd path true = .ok (q, .file id mode bytes) := by
  unfold isFile entry?
  cases h : fs.stat cwd path true with
  | error e => simp
  | ok r =>
    obtain ⟨q, x⟩ := r
    cases x <;> simp [Entry.isFile]

/-! ## Lookups in file systems that hold the same -/

theorem advance_of_same {follow : Bool} {onLink : Place → List String → Except Errno Found}
    (h : fs.Same gs) (d : Place) (ns : List String) :
    gs.advance follow onLink d ns = fs.advance follow onLink d ns := by
  induction ns generalizing d with
  | nil => rw [advance, advance, h d]
  | cons n ns ih =>
    simp only [advance, h d, h (d ++ [n]), ih]

theorem walkSteps_of_same {follow : Bool} (h : fs.Same gs) (links : Nat) :
    gs.walkSteps follow links = fs.walkSteps follow links := by
  induction links with
  | zero =>
    funext d ns
    exact advance_of_same h d ns
  | succ links ih =>
    funext d ns
    rw [walkSteps, walkSteps, ih]
    exact advance_of_same h d ns

/-- A path leads to the same in file systems that hold the same. -/
theorem stat_of_same {follow : Bool} (h : fs.Same gs) (cwd : Place) (path : Path) :
    gs.stat cwd path follow = fs.stat cwd path follow := by
  rw [stat, stat, lookup, lookup, walkSteps_of_same h]

end CodeIndex.FileSystem
