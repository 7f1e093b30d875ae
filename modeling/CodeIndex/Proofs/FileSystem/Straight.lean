import CodeIndex.Listing
import CodeIndex.Proofs.FileSystem.Directories
import CodeIndex.Proofs.Path.Ancestors

/-!
# Walks without links

A walk of plain names that comes by no link ends where the names say.

* `Finds.place_eq` : the end of such a walk;
* `WellFormed.finds_dir`, `WellFormed.finds_name` : such walks exist below directories;
* `Finds.fill` : a walk to a free place leads to what is put there;
* `lookup_join` : what a path leads to that goes on below another;
* `createDirs_of_vacant` : making a directory at a free place.
-/

namespace CodeIndex.FileSystem

variable {fs gs : FileSystem} {follow : Bool} {k : Nat} {d p q : Place} {n : String}
  {ns : List String} {e : Entry} {r : Found} {cwd : Place} {path : Path}

/-! ## The end of a walk -/

/-- A walk of plain names that comes by no link ends where the names say. -/
theorem Finds.place_eq (h : fs.Finds follow k d ns r) (hns : PlainPlace ns)
    (hlinks : ∀ q t, q <+: ns → q ≠ [] → fs.get? (d ++ q) ≠ some (.link t)) :
    r.place = d ++ ns ∧ k = 0 := by
  induction h with
  | here => simp [Found.place]
  | current _ hdot _ _ =>
    rw [plainPlace_cons] at hns
    exact absurd hdot hns.1.ne_dot
  | parent _ hdots _ _ =>
    rw [plainPlace_cons] at hns
    exact absurd hdots hns.1.ne_dotDot
  | vacant => simp [Found.place]
  | unfollowed => simp [Found.place]
  | @enter k d n ns e r _ _ _ _ _ _ _ ih =>
    rw [plainPlace_cons] at hns
    have hrest := ih hns.2 fun q t hq hne => by
      have hlink := hlinks (n :: q) t (List.cons_prefix_cons.mpr ⟨rfl, hq⟩) (by simp)
      rwa [List.append_assoc, List.singleton_append]
    simpa [List.append_assoc] using hrest
  | @link k d n ns t r _ _ _ _ _ ht _ _ =>
    exact absurd ht (hlinks [n] t (List.cons_prefix_cons.mpr ⟨rfl, List.nil_prefix⟩) (by simp))

/-- A walk of one name that is not followed ends at the place with that name. -/
theorem Finds.place_eq_of_name (h : fs.Finds false k d [n] r) (hn : PlainName n) :
    r.place = d ++ [n] ∧ k = 0 := by
  cases h with
  | current _ hdot => exact absurd hdot hn.ne_dot
  | parent _ hdots => exact absurd hdots hn.ne_dotDot
  | vacant => exact ⟨rfl, rfl⟩
  | unfollowed => exact ⟨rfl, rfl⟩
  | enter _ _ _ _ _ _ h =>
    cases h
    exact ⟨rfl, rfl⟩
  | link hns => simp at hns

/-! ## Walks below directories -/

theorem finds_vacant (hd : fs.isDirAt d = true) (hn : IsName n) (hv : fs.get? (d ++ [n]) = none) :
    fs.Finds follow 0 d [n] (.vacant (d ++ [n])) :=
  .vacant hd hn.ne_dot hn.ne_dotDot hn.short hv

theorem finds_entry (hd : fs.isDirAt d = true) (hn : IsName n) (he : fs.get? (d ++ [n]) = some e)
    (h : follow = false ∨ e.isLink = false) : fs.Finds follow 0 d [n] (.entry (d ++ [n]) e) := by
  cases e with
  | link t =>
    have hf : follow = false := h.resolve_right (by simp [Entry.isLink])
    exact .unfollowed hf hd hn.ne_dot hn.ne_dotDot hn.short he
  | _ => exact .enter hd hn.ne_dot hn.ne_dotDot hn.short he rfl (.here he)

/-- Down to a directory there is a walk that follows no link. -/
theorem WellFormed.finds_dir (hw : fs.WellFormed) (p ms : Place)
    (he : fs.get? (p ++ ms) = some e) (hl : e.isLink = false) :
    fs.Finds true 0 p ms (.entry (p ++ ms) e) := by
  induction ms using List.reverseRecOn generalizing e with
  | nil =>
    rw [List.append_nil] at he ⊢
    exact .here he
  | append_singleton ms n ih =>
    rw [← List.append_assoc] at he ⊢
    have hdir : fs.isDirAt (p ++ ms) = true := hw.isDirAt_of_append (List.cons_ne_nil n []) he
    obtain ⟨m, hm⟩ := isDirAt_iff.mp hdir
    have hn : IsName n := hw.isName he n (by simp)
    exact (ih hm rfl).append (FileSystem.finds_entry hdir hn he (Or.inr hl)) (by simp)

/-- Down to any entry there is one that does not follow the entry itself. -/
theorem WellFormed.finds_entry (hw : fs.WellFormed) (hne : ns ≠ []) (he : fs.get? (p ++ ns) = some e)
    (h : follow = false ∨ e.isLink = false) : fs.Finds follow 0 p ns (.entry (p ++ ns) e) := by
  rcases List.eq_nil_or_concat ns with rfl | ⟨ms, n, rfl⟩
  · exact absurd rfl hne
  · rw [List.concat_eq_append, ← List.append_assoc] at he ⊢
    have hdir : fs.isDirAt (p ++ ms) = true := hw.isDirAt_of_append (List.cons_ne_nil n []) he
    obtain ⟨m, hm⟩ := isDirAt_iff.mp hdir
    have hn : IsName n := hw.isName he n (by simp)
    exact (hw.finds_dir p ms hm rfl).append (FileSystem.finds_entry hdir hn he h) (by simp)

/-- Where a walk ends at a free place there is nothing. -/
theorem Finds.get?_eq_none (h : fs.Finds follow k d ns (.vacant p)) : fs.get? p = none ∧ p ≠ [] := by
  generalize hr : Found.vacant p = r at h
  induction h with
  | here => cases hr
  | current _ _ _ ih => exact ih hr
  | parent _ _ _ ih => exact ih hr
  | vacant _ _ _ _ hv =>
    cases hr
    exact ⟨hv, by simp⟩
  | unfollowed => cases hr
  | enter _ _ _ _ _ _ _ ih => exact ih hr
  | link _ _ _ _ _ _ _ ih => exact ih hr

/-- A walk to a free place leads to what is put there, as long as everything else stays. -/
theorem Finds.fill (h : fs.Finds follow k d ns (.vacant p))
    (hkeep : ∀ q x, fs.get? q = some x → gs.get? q = some x) (hput : gs.get? p = some e)
    (hl : e.isLink = false) : gs.Finds true k d ns (.entry p e) := by
  have hdir : ∀ q, fs.isDirAt q = true → gs.isDirAt q = true := fun q hq => by
    obtain ⟨m', hm'⟩ := isDirAt_iff.mp hq
    exact isDirAt_iff.mpr ⟨m', hkeep q _ hm'⟩
  generalize hr : Found.vacant p = r at h
  induction h with
  | here => cases hr
  | current hd hdot _ ih => exact .current (hdir _ hd) hdot (ih hr)
  | parent hd hdots _ ih => exact .parent (hdir _ hd) hdots (ih hr)
  | vacant hd h1 h2 h3 _ =>
    cases hr
    exact .enter (hdir _ hd) h1 h2 h3 hput hl (.here hput)
  | unfollowed => cases hr
  | enter hd h1 h2 h3 he hnl _ ih => exact .enter (hdir _ hd) h1 h2 h3 (hkeep _ _ he) hnl (ih hr)
  | link _ hd h1 h2 h3 ht _ ih =>
    exact .link (Or.inl rfl) (hdir _ hd) h1 h2 h3 (hkeep _ _ ht) (ih hr)

theorem lookup_fill (h : fs.lookup cwd path follow = .ok (.vacant p))
    (hkeep : ∀ q x, fs.get? q = some x → gs.get? q = some x) (hput : gs.get? p = some e)
    (hl : e.isLink = false) : gs.lookup cwd path true = .ok (.entry p e) := by
  obtain ⟨hne, hlen, k, hk, hf⟩ := lookup_eq_ok_iff.mp h
  exact lookup_eq_ok_iff.mpr ⟨hne, hlen, k, hk, hf.fill hkeep hput hl⟩

/-- What is put at a free place leaves everything else. -/
theorem get?_put_of_some {x : Entry} (hp : p ≠ []) (hv : fs.get? p = none)
    (hx : fs.get? q = some x) : (fs.put p e).get? q = some x := by
  have hne : q ≠ p := fun heq => by
    rw [heq, hv] at hx
    cases hx
  rw [get?_put hp, if_neg hne, hx]

theorem lookup_put (h : fs.lookup cwd path follow = .ok (.vacant p)) (hl : e.isLink = false) :
    (fs.put p e).lookup cwd path true = .ok (.entry p e) := by
  obtain ⟨hv, hp⟩ : fs.get? p = none ∧ p ≠ [] := by
    obtain ⟨-, -, k, -, hf⟩ := lookup_eq_ok_iff.mp h
    exact hf.get?_eq_none
  exact lookup_fill h (fun q x => get?_put_of_some hp hv) (by rw [get?_put hp, if_pos rfl]) hl

/-! ## Paths that go on below others -/

/-- The names of a path that leads to a directory lead there without a slash at the end, too. -/
theorem finds_namesOf {m : Nat} (h : fs.lookup cwd path true = .ok (.entry p (.dir m))) :
    ∃ k ≤ maxLinks, fs.Finds true k (origin cwd path) (namesOf path) (.entry p (.dir m)) := by
  obtain ⟨-, -, k, hk, hf⟩ := lookup_eq_ok_iff.mp h
  unfold steps at hf
  split at hf
  · obtain ⟨k₁, k₂, q, m', rfl, h₁, h₂⟩ := hf.split (List.cons_ne_nil _ _)
    cases h₂ with
    | current _ _ h₂ =>
      cases h₂ with
      | here he =>
        have hm : Entry.dir m' = .dir m := Option.some.inj (h₁.get?_eq.symm.trans he)
        rw [hm] at h₁
        exact ⟨_, hk, h₁⟩
    | parent _ hdots => exact absurd hdots (by decide)
    | enter _ hdot => exact absurd rfl hdot
    | link _ _ hdot => exact absurd rfl hdot
  · exact ⟨k, hk, hf⟩

theorem text_ne_empty_of_long (h : maxPath < path.text.utf8ByteSize) : path.text ≠ "" := by
  intro hempty
  rw [hempty] at h
  simp at h

/-- A walk comes by an entry where its first name leads, if it is to end at one. -/
theorem Finds.get?_ne_none (h : fs.Finds follow k d (n :: ns) (.entry p e)) (hn : PlainName n) :
    fs.get? (d ++ [n]) ≠ none := by
  generalize hns : n :: ns = names at h
  generalize hr : Found.entry p e = r at h
  cases h with
  | here => cases hns
  | current _ hdot => cases hns; exact absurd hdot hn.ne_dot
  | parent _ hdots => cases hns; exact absurd hdots hn.ne_dotDot
  | vacant => cases hr
  | unfollowed _ _ _ _ _ ht => cases hns; simp [ht]
  | enter _ _ _ _ he => cases hns; simp [he]
  | link _ _ _ _ _ ht => cases hns; simp [ht]

theorem lookup_of_long (h : maxPath < path.text.utf8ByteSize) :
    fs.lookup cwd path follow = .error .nameTooLong := by
  rw [lookup, if_neg (by simpa using text_ne_empty_of_long h), if_pos h]

/-- What a path leads to that goes on below a directory. Only its length can be in the way. -/
theorem lookup_join {m : Nat} (h : fs.lookup cwd path true = .ok (.entry p (.dir m)))
    (hne : ns ≠ []) (hns : PlainPlace ns) (hf : fs.Finds follow 0 p ns r)
    (hlen : (path.join (relativePath ns)).text.utf8ByteSize ≤ maxPath) :
    fs.lookup cwd (path.join (relativePath ns)) follow = .ok r := by
  obtain ⟨htext, -, -⟩ := lookup_eq_ok_iff.mp h
  obtain ⟨k, hk, hpath⟩ := finds_namesOf h
  have hrel : (relativePath ns).isAbsolute = false := Path.isAbsolute_relative hne hns
  refine lookup_eq_ok_iff.mpr ⟨join_text_ne_empty htext hrel, hlen, k + 0, hk, ?_⟩
  rw [origin_join cwd htext hrel, steps_join htext hrel (Path.joinWith_ne_empty hne hns),
    relativePath, steps_relative hns]
  exact hpath.append hf hne

theorem withoutEndSlashes_eq (h : path.text.toList.getLast? ≠ some '/') :
    withoutEndSlashes path = path := by
  have hdrop : path.text.toList.reverse.dropWhile (· == '/') = path.text.toList.reverse := by
    rw [← List.head?_reverse] at h
    cases hrev : path.text.toList.reverse with
    | nil => rfl
    | cons c cs =>
      rw [hrev] at h
      rw [List.dropWhile_cons_of_neg (by simpa using h)]
  unfold withoutEndSlashes
  simp [hdrop]

/-- Slashes at the end of a text add no names. -/
theorem filter_splitOn_slashes (cs : List Char) {ss : List Char} (h : ∀ c ∈ ss, c = '/') :
    ((Text.splitOn '/' (cs ++ ss)).map String.ofList).filter (· ≠ "") =
      ((Text.splitOn '/' cs).map String.ofList).filter (· ≠ "") := by
  have hblank : ∀ ss : List Char, (∀ c ∈ ss, c = '/') →
      ((Text.splitOn '/' ss).map String.ofList).filter (· ≠ "") = [] := by
    intro ss h
    induction ss with
    | nil => simp [Text.splitOn]
    | cons c ss ih =>
      rw [List.forall_mem_cons] at h
      obtain ⟨rfl, hss⟩ := h
      simpa [Text.splitOn] using ih hss
  cases ss with
  | nil => rw [List.append_nil]
  | cons c ss =>
    rw [List.forall_mem_cons] at h
    obtain ⟨rfl, hss⟩ := h
    rw [Text.splitOn_append, List.map_append, List.filter_append, hblank ss hss, List.append_nil]

/-- A text that is not all slashes, taken apart before the slashes at its end. -/
theorem withoutEndSlashes_cases (path : Path) : withoutEndSlashes path = path ∨
    ∃ cs ss, cs ≠ [] ∧ (∀ c ∈ ss, c = '/') ∧ path.text.toList = cs ++ ss ∧
      (withoutEndSlashes path).text.toList = cs := by
  have hsplit : path.text.toList =
      (path.text.toList.reverse.dropWhile (· == '/')).reverse ++
        (path.text.toList.reverse.takeWhile (· == '/')).reverse := by
    rw [← List.reverse_append, List.takeWhile_append_dropWhile, List.reverse_reverse]
  unfold withoutEndSlashes
  dsimp only
  split
  · exact Or.inl rfl
  · next hne =>
    refine Or.inr ⟨_, _, by simpa using hne, fun c hc => ?_, hsplit, by simp⟩
    simpa using List.all_eq_true.mp List.all_takeWhile c (List.mem_reverse.mp hc)

theorem namesOf_withoutEndSlashes (path : Path) :
    namesOf (withoutEndSlashes path) = namesOf path := by
  rcases withoutEndSlashes_cases path with h | ⟨cs, ss, -, hss, hsplit, hcs⟩
  · rw [h]
  · rw [namesOf, namesOf, Path.pieces, Path.pieces, hsplit, hcs, filter_splitOn_slashes cs hss]

theorem origin_withoutEndSlashes (cwd : Place) (path : Path) :
    origin cwd (withoutEndSlashes path) = origin cwd path := by
  rcases withoutEndSlashes_cases path with h | ⟨cs, ss, hne, -, hsplit, hcs⟩
  · rw [h]
  · have hhead : (withoutEndSlashes path).text.toList.head? = path.text.toList.head? := by
      obtain ⟨c, cs', rfl⟩ := List.exists_cons_of_ne_nil hne
      rw [hcs, hsplit, List.cons_append, List.head?_cons, List.head?_cons]
    rw [origin, origin, Path.isAbsolute, Path.isAbsolute, hhead]

/-- Slashes at the end of a path do not matter to where a directory is found. -/
theorem lookup_of_withoutEndSlashes {m : Nat}
    (h : fs.lookup cwd (withoutEndSlashes path) true = .ok (.entry p (.dir m)))
    (hne : path.text ≠ "") (hlen : path.text.utf8ByteSize ≤ maxPath) :
    fs.lookup cwd path true = .ok (.entry p (.dir m)) := by
  obtain ⟨k, hk, hf⟩ := finds_namesOf h
  rw [origin_withoutEndSlashes, namesOf_withoutEndSlashes] at hf
  refine lookup_eq_ok_iff.mpr ⟨hne, hlen, k, hk, ?_⟩
  unfold steps
  split
  · have hd : fs.isDirAt p = true := isDirAt_iff.mpr ⟨m, hf.get?_eq⟩
    have hdot : fs.Finds true 0 p ["."] (.entry p (.dir m)) := .current hd rfl (.here hf.get?_eq)
    exact hf.append hdot (List.cons_ne_nil "." [])
  · exact hf

theorem withoutEndSlashes_join (ht : path.text ≠ "") (hne : ns ≠ []) (hns : PlainPlace ns) :
    withoutEndSlashes (path.join (relativePath ns)) = path.join (relativePath ns) := by
  have hrel : (relativePath ns).isAbsolute = false := Path.isAbsolute_relative hne hns
  have htext : (relativePath ns).text ≠ "" := Path.joinWith_ne_empty hne hns
  refine withoutEndSlashes_eq ?_
  rw [getLast?_join ht hrel htext]
  exact Path.getLast?_joinWith hns

theorem utf8ByteSize_le_join {t q : Path} (ht : t.text ≠ "") (hq : q.isAbsolute = false) :
    t.text.utf8ByteSize ≤ (t.join q).text.utf8ByteSize := by
  rw [Path.join, hq, if_neg (by simp), if_neg (by simpa using ht)]
  split
  · simp only [String.utf8ByteSize_append]
    omega
  · simp only [String.utf8ByteSize_append]
    omega

theorem isAbsolute_name {n : String} (hn : PlainName n) : Path.isAbsolute ⟨n⟩ = false :=
  Path.isAbsolute_relative (List.cons_ne_nil n []) (by simpa using hn)

theorem child_eq_join (path : Path) (n : String) :
    path.child n = path.join (relativePath [n]) := rfl

/-- A name below a directory is free if nothing has it. -/
theorem lookup_child {m : Nat} (h : fs.lookup cwd path true = .ok (.entry p (.dir m)))
    (hn : IsName n) (hv : fs.get? (p ++ [n]) = none)
    (hlen : (path.child n).text.utf8ByteSize ≤ maxPath) :
    fs.lookup cwd (path.child n) follow = .ok (.vacant (p ++ [n])) := by
  have hd : fs.isDirAt p = true := isDirAt_iff.mpr ⟨m, get?_of_lookup h⟩
  have hplain : PlainPlace [n] := by simpa using hn.toPlainName
  rw [child_eq_join] at hlen ⊢
  exact lookup_join h (List.cons_ne_nil n []) hplain (finds_vacant hd hn hv) hlen

/-- A path that goes on below a directory leads where the further names do. -/
theorem finds_of_lookup_join {m : Nat} (h : fs.lookup cwd path true = .ok (.entry p (.dir m)))
    (hne : ns ≠ []) (hns : PlainPlace ns)
    (hr : fs.lookup cwd (path.join (relativePath ns)) follow = .ok r) :
    ∃ k ≤ maxLinks, fs.Finds follow k p ns r := by
  obtain ⟨htext, -, -⟩ := lookup_eq_ok_iff.mp h
  obtain ⟨k, -, hpath⟩ := finds_namesOf h
  have hrel : (relativePath ns).isAbsolute = false := Path.isAbsolute_relative hne hns
  obtain ⟨-, -, k', hk', hf⟩ := lookup_eq_ok_iff.mp hr
  rw [origin_join cwd htext hrel, steps_join htext hrel (Path.joinWith_ne_empty hne hns),
    relativePath, steps_relative hns] at hf
  obtain ⟨k₁, k₂, q, m', rfl, h₁, h₂⟩ := hf.split hne
  obtain ⟨-, hq⟩ := h₁.unique hpath
  rw [Found.entry.injEq] at hq
  obtain ⟨rfl, -⟩ := hq
  exact ⟨k₂, by omega, h₂⟩

theorem withoutEndSlashes_child (ht : path.text ≠ "") (hn : PlainName n) :
    withoutEndSlashes (path.child n) = path.child n := by
  have hplain : PlainPlace [n] := by simpa using hn
  rw [child_eq_join]
  exact withoutEndSlashes_join ht (List.cons_ne_nil n []) hplain

/-! ## Making directories at free places -/

/-- Nothing stands where a path leads, or the path is too long to lead anywhere. -/
def Free (fs : FileSystem) (cwd : Place) (path : Path) (W : Place) : Prop :=
  fs.lookup cwd path false = .ok (.vacant W) ∨ maxPath < path.text.utf8ByteSize

theorem createDirs_of_vacant (hend : withoutEndSlashes path = path)
    (h : fs.lookup cwd path false = .ok (.vacant p)) :
    fs.createDirs cwd path = (fs.put p (.dir dirMode), none) := by
  obtain ⟨rest, hrest⟩ := Path.ancestors_eq_cons path
  have hne : path.text ≠ "" := (lookup_eq_ok_iff.mp h).1
  have hens : fs.ensureDir cwd path = .ok (fs.put p (.dir dirMode)) := by
    rw [ensureDir, createDir, hend, h]
  rw [createDirs, hrest, createDirsOf, if_neg (by simpa using hne), hens]

theorem createDirs_of_long (hend : withoutEndSlashes path = path)
    (h : maxPath < path.text.utf8ByteSize) :
    fs.createDirs cwd path = (fs, some .nameTooLong) := by
  obtain ⟨rest, hrest⟩ := Path.ancestors_eq_cons path
  have hdir : fs.isDir cwd path = false := by
    unfold isDir entry? stat
    rw [lookup_of_long h]
    rfl
  have hens : fs.ensureDir cwd path = .error .nameTooLong := by
    rw [ensureDir, createDir, hend, lookup_of_long h]
    simp [hdir]
  rw [createDirs, hrest, createDirsOf, if_neg (by simpa using text_ne_empty_of_long h), hens]
  dsimp only
  rw [if_neg (by decide)]

end CodeIndex.FileSystem
