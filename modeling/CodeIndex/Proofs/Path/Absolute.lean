import CodeIndex.Proofs.FileSystem.Passing

/-!
# Absolute paths

A path that is made absolute has no dots left, and its ancestors are taken by dropping names from
its end. The text may still hold slashes that stand for nothing, so that all is said about names.

* `Rooted` : an absolute path without dots;
* `Rooted.of_parent?`, `Rooted.ancestors_eq` : going up from there takes the last name away;
* `absolute_ofNames`, `rooted_absolute` : a path seen from a directory;
* `utf8ByteSize_ofNames_namesOf_le` : the names of a path take no more than its text.
-/

namespace CodeIndex

open FileSystem

namespace Path

variable {p q : Path} {n : String} {ps : List String} {cwd : Place}

/-! ## Pieces at the end -/

theorem trimEnd_eq (ps : List String) : trimEnd true ps = dropTrivialEnd ps := by
  unfold trimEnd
  split <;> simp

/-- What is dropped at the end stands for nothing. -/
theorem exists_trivialEnd (ps : List String) :
    ∃ ts, ps = dropTrivialEnd ps ++ ts ∧ ∀ t ∈ ts, isTrivial t = true := by
  refine ⟨(ps.reverse.takeWhile isTrivial).reverse, ?_, fun t ht => ?_⟩
  · rw [dropTrivialEnd, ← List.reverse_append, List.takeWhile_append_dropWhile, List.reverse_reverse]
  · exact List.all_eq_true.mp List.all_takeWhile t (List.mem_reverse.mp ht)

theorem dropTrivialEnd_subset (ps : List String) : dropTrivialEnd ps ⊆ ps := by
  obtain ⟨ts, hts, -⟩ := exists_trivialEnd ps
  intro s hs
  rw [hts]
  exact List.mem_append_left ts hs

/-- Dropping at the end leaves the names, if no dot is among them. -/
theorem filter_dropTrivialEnd (hdot : "." ∉ ps) :
    (dropTrivialEnd ps).filter (· ≠ "") = ps.filter (· ≠ "") := by
  obtain ⟨ts, hts, htrivial⟩ := exists_trivialEnd ps
  have hblank : ts.filter (· ≠ "") = [] := by
    rw [List.filter_eq_nil_iff]
    intro t ht
    have ht' : t ∈ ps := by
      rw [hts]
      exact List.mem_append_right _ ht
    have htne : t ≠ "." := fun he => hdot (he ▸ ht')
    simpa [isTrivial, htne] using htrivial t ht
  conv_rhs => rw [hts, List.filter_append, hblank, List.append_nil]

/-- What is left ends with a piece that stands for something. -/
theorem dropTrivialEnd_cases (ps : List String) :
    dropTrivialEnd ps = [] ∨ ∃ front l, dropTrivialEnd ps = front ++ [l] ∧ isTrivial l = false := by
  rcases List.eq_nil_or_concat (dropTrivialEnd ps) with hnil | ⟨front, l, hl⟩
  · exact Or.inl hnil
  · rw [List.concat_eq_append] at hl
    refine Or.inr ⟨front, l, hl, ?_⟩
    have hrev : ps.reverse.dropWhile isTrivial = l :: front.reverse := by
      rw [dropTrivialEnd, List.reverse_eq_iff] at hl
      simpa using hl
    have hhead := List.head?_dropWhile_not isTrivial ps.reverse
    rw [hrev] at hhead
    simpa using hhead

/-! ## Rooted paths -/

/-- An absolute path without dots. -/
structure Rooted (p : Path) : Prop where
  isAbsolute : p.isAbsolute = true
  noDot : "." ∉ namesOf p

/-- Before the slash of the root there is an empty piece, and others come after it. -/
theorem pieces_of_isAbsolute (h : p.isAbsolute = true) :
    pieces p.text = "" :: p.body ∧ p.body ≠ [] := by
  rw [body, if_pos h]
  rw [isAbsolute, decide_eq_true_eq] at h
  obtain ⟨cs, hcs⟩ := List.head?_eq_some_iff.mp h
  simp [pieces, hcs, Text.splitOn, Text.splitOn_ne_nil]

theorem namesOf_eq_filter_body (h : p.isAbsolute = true) :
    namesOf p = p.body.filter (· ≠ "") := by
  rw [namesOf, (pieces_of_isAbsolute h).1]
  rfl

theorem slash_notMem_of_mem_body (h : p.isAbsolute = true) : ∀ s ∈ p.body, '/' ∉ s.toList := by
  intro s hs
  have hpiece : s ∈ pieces p.text := by
    rw [(pieces_of_isAbsolute h).1]
    exact List.mem_cons_of_mem _ hs
  obtain ⟨cs, hcs, rfl⟩ := List.mem_map.mp hpiece
  simpa using Text.notMem_of_mem_splitOn hcs

/-- The last name is the last step, if that is a name. -/
theorem eq_of_fileName? {l : String} {front : List String} (habs : p.isAbsolute = true)
    (hl : namesOf p = front ++ [l]) (hdot : l ≠ ".") (h : p.fileName? = some n) : l = n := by
  have hmem : l ∈ namesOf p := by simp [hl]
  have hblank : l ≠ "" := (mem_namesOf hmem).1
  have hlast : p.components.getLast? = step? l := by
    have hstep : ∃ c, step? l = some c := by
      unfold step?
      rw [if_neg (by simp [hblank, hdot])]
      split <;> exact ⟨_, rfl⟩
    obtain ⟨c, hc⟩ := hstep
    rw [components_of_isAbsolute habs, hl, List.filterMap_append, List.filterMap_cons_some hc]
    simp [List.getLast?_cons, hc]
  unfold fileName? at h
  rw [hlast] at h
  split at h
  · next s hs =>
    rw [(step?_eq_name hs).1]
    exact Option.some.inj h
  · cases h

namespace Rooted

theorem dot_notMem_body (h : Rooted p) : "." ∉ p.body := by
  intro hmem
  apply h.noDot
  rw [namesOf_eq_filter_body h.isAbsolute]
  exact List.mem_filter.mpr ⟨hmem, by decide⟩

theorem filter_names (h : Rooted p) : (namesOf p).filter (· ≠ ".") = namesOf p := by
  refine List.filter_eq_self.mpr fun n hn => ?_
  have hne : n ≠ "." := fun he => h.noDot (he ▸ hn)
  simpa using hne

/-- The steps of the path are the root and one for each name. -/
theorem length_components (h : Rooted p) : p.components.length = (namesOf p).length + 1 := by
  have hlength := congrArg List.length (map_text_components h.isAbsolute)
  rwa [List.length_map, List.length_cons, h.filter_names] at hlength

theorem parent?_eq (h : Rooted p) (hq : p.parent? = some q) :
    q = ofNames (dropTrivialEnd (dropTrivialEnd p.body).dropLast) := by
  unfold parent? at hq
  split at hq
  · cases hq
  · cases hq
  · simp only [h.isAbsolute, trimEnd_eq, if_true] at hq
    exact (Option.some.inj hq).symm

/-- The parent of a path with a name at its end has the other names. -/
theorem of_parent? (h : Rooted p) (hn : p.fileName? = some n) (hq : p.parent? = some q) :
    Rooted q ∧ namesOf p = namesOf q ++ [n] := by
  have hnames := namesOf_eq_filter_body h.isAbsolute
  rw [← filter_dropTrivialEnd h.dot_notMem_body] at hnames
  rcases dropTrivialEnd_cases p.body with hnil | ⟨front, l, hl, hlast⟩
  · -- Without names there is no last one.
    rw [hnil] at hnames
    have hmem := (mem_namesOf_of_fileName? hn).1
    rw [hnames] at hmem
    cases hmem
  · have hfront : ∀ s ∈ front, s ∈ p.body := fun s hs =>
      dropTrivialEnd_subset p.body (hl ▸ List.mem_append_left _ hs)
    have hq := h.parent?_eq hq
    rw [hl, List.dropLast_concat] at hq
    have hqnames : namesOf q = front.filter (· ≠ "") := by
      rw [hq, namesOf_ofNames_eq_filter fun s hs => slash_notMem_of_mem_body h.isAbsolute s
        (hfront s (dropTrivialEnd_subset front hs))]
      exact filter_dropTrivialEnd fun hmem => h.dot_notMem_body (hfront _ hmem)
    simp only [isTrivial, decide_eq_false_iff_not, not_or] at hlast
    have hsplit : namesOf p = namesOf q ++ [l] := by
      rw [hnames, hl, hqnames, List.filter_append]
      simp [hlast.1]
    obtain rfl := eq_of_fileName? h.isAbsolute hsplit hlast.2 hn
    refine ⟨⟨hq ▸ isAbsolute_ofNames _, fun hmem => h.noDot ?_⟩, hsplit⟩
    rw [hsplit]
    exact List.mem_append_left _ hmem

theorem ancestors_eq (h : Rooted p) (hn : p.fileName? = some n) (hq : p.parent? = some q) :
    p.ancestors = p :: q.ancestors := by
  obtain ⟨hrooted, hnames⟩ := h.of_parent? hn hq
  rw [ancestors, ancestors, h.length_components, hrooted.length_components, ancestors.go, hq, hnames,
    List.length_append, List.length_singleton]

end Rooted

/-! ## Seen from a directory -/

/-- Going down by names adds them, ways up among them. -/
theorem foldl_child (h : p.isAbsolute = true) (hps : ∀ s ∈ ps, s ≠ "" ∧ '/' ∉ s.toList) :
    (ps.foldl child p).isAbsolute = true ∧ namesOf (ps.foldl child p) = namesOf p ++ ps := by
  induction ps generalizing p with
  | nil => exact ⟨h, (List.append_nil _).symm⟩
  | cons s ps ih =>
    rw [List.forall_mem_cons] at hps
    obtain ⟨⟨hblank, hslash⟩, hps⟩ := hps
    have hrel : isAbsolute ⟨s⟩ = false := by
      rw [isAbsolute, decide_eq_false_iff_not]
      exact fun hhead => hslash (List.mem_of_mem_head? hhead)
    have hname : namesOf ⟨s⟩ = [s] := by
      simp [namesOf, pieces, Text.splitOn_of_notMem hslash, hblank]
    obtain ⟨habs, hnames⟩ := ih (isAbsolute_join h ⟨s⟩) hps
    refine ⟨habs, ?_⟩
    rw [List.foldl_cons, child, hnames, namesOf_join (text_ne_empty_of_isAbsolute h) hrel, hname,
      List.append_assoc, List.singleton_append]

/-- The steps of a path but for the root and a dot in front, as they are written. -/
theorem map_text_filter_components (p : Path) :
    ((p.components.filter (· != .current)).filter (· != .root)).map Component.text =
      (namesOf p).filter (· ≠ ".") := by
  have hsteps : ∀ ns : List String,
      ((ns.filterMap step?).filter (· != .current)).filter (· != .root) = ns.filterMap step? := by
    intro ns
    rw [List.filter_filter, List.filter_eq_self]
    intro c hc
    obtain ⟨n, -, hn⟩ := List.mem_filterMap.mp hc
    unfold step? at hn
    split_ifs at hn <;> obtain rfl := Option.some.inj hn <;> rfl
  have hblank : "" ∉ namesOf p := fun hmem => (mem_namesOf hmem).1 rfl
  rw [← map_text_filterMap_step? hblank]
  cases habs : p.isAbsolute with
  | true =>
    rw [components_of_isAbsolute habs]
    exact congrArg _ (hsteps _)
  | false =>
    obtain ⟨front, hfront, hcomp⟩ := components_of_relative habs
    rw [hcomp]
    rcases hfront with rfl | rfl
    · exact congrArg _ (hsteps _)
    · exact congrArg _ (hsteps _)

/-- A slash at the end adds no name. -/
theorem join_empty_or {c : Prop} [Decidable c] (h : p.isAbsolute = true) :
    (if c then p.join ⟨""⟩ else p).isAbsolute = true ∧
      namesOf (if c then p.join ⟨""⟩ else p) = namesOf p := by
  split
  · refine ⟨isAbsolute_join h ⟨""⟩, ?_⟩
    rw [namesOf_join (text_ne_empty_of_isAbsolute h) (by decide), namesOf_empty, List.append_nil]
  · exact ⟨h, rfl⟩

/-- Seen from a directory a path is absolute. Its names, dots aside, come after those of the
directory, or after the root. -/
theorem absolute_ofNames (hcwd : PlainPlace cwd) (p : Path) :
    (absolute (ofNames cwd) p).isAbsolute = true ∧
      namesOf (absolute (ofNames cwd) p) = origin cwd p ++ (namesOf p).filter (· ≠ ".") := by
  have hfold : ∀ base : Path,
      ((p.components.filter (· != .current)).filter (· != .root)).foldl
        (fun q c => q.join ⟨c.text⟩) base = ((namesOf p).filter (· ≠ ".")).foldl child base := by
    intro base
    rw [← map_text_filter_components, List.foldl_map]
    rfl
  unfold absolute
  dsimp only
  rw [hfold]
  generalize hb : (if p.isAbsolute = true then _ else _) = base
  have hbase : base.isAbsolute = true ∧ namesOf base = origin cwd p := by
    rw [← hb, origin]
    by_cases hp : p.isAbsolute = true
    · rw [if_pos hp, if_pos hp]
      split <;> decide
    · rw [if_neg hp, if_neg hp]
      exact ⟨isAbsolute_ofNames cwd, namesOf_ofNames hcwd⟩
  obtain ⟨habs, hnames⟩ := foldl_child hbase.1 fun s hs => mem_namesOf (List.mem_filter.mp hs).1
  rw [← hbase.2, ← hnames]
  exact join_empty_or habs

theorem rooted_absolute (hcwd : PlainPlace cwd) (p : Path) : Rooted (absolute (ofNames cwd) p) := by
  obtain ⟨habs, hnames⟩ := absolute_ofNames hcwd p
  refine ⟨habs, fun hdot => ?_⟩
  rw [hnames, List.mem_append] at hdot
  rcases hdot with hmem | hmem
  · unfold origin at hmem
    split at hmem
    · cases hmem
    · exact (hcwd _ hmem).ne_dot rfl
  · simp at hmem

/-! ## The length of a text -/

/-- An absolute path is written as its pieces. -/
theorem eq_ofNames_body (h : p.isAbsolute = true) : p = ofNames p.body := by
  obtain ⟨hpieces, hne⟩ := pieces_of_isAbsolute h
  have hjoin := Text.joinWith_splitOn p.text.toList
  rw [String.ofList_toList, ← pieces, hpieces, Text.joinWith_cons hne, String.empty_append] at hjoin
  rw [ofNames, hjoin]

/-- The names of an absolute path take no more than its text. -/
theorem utf8ByteSize_ofNames_namesOf_le (h : p.isAbsolute = true) :
    (ofNames (namesOf p)).text.utf8ByteSize ≤ p.text.utf8ByteSize := by
  conv_rhs => rw [eq_ofNames_body h]
  rw [namesOf_eq_filter_body h, ofNames, ofNames, String.utf8ByteSize_append,
    String.utf8ByteSize_append]
  exact Nat.add_le_add_left (Text.utf8ByteSize_joinWith_le List.filter_sublist) _

end Path

end CodeIndex
