import CodeIndex.Proofs.Path.Names
import Mathlib.Tactic.SplitIfs

/-!
# Steps of paths made of names

* `components_ofNames` : the steps of the path of a place are the root and the names;
* `startsWith_ofNames` : comparing such paths by steps is comparing the places;
* `ancestors_ofNames` : the ancestors of the path of a place are the paths of the places above it;
* `components_of_isAbsolute` : the steps of an absolute path are the root and those of its names;
* `mem_namesOf_of_fileName?` : the last step of a path, if it is a name, is one of its names;
* `steps_of_fileName?_eq_none` : a path without a name at its end is walked to dots.
-/

namespace CodeIndex.Path

theorem step?_plain {n : String} (h : PlainName n) : step? n = some (.name n) := by
  simp [step?, h.ne_empty, h.ne_dot, h.ne_dotDot]

theorem filterMap_step?_plain {p : Place} (hp : PlainPlace p) :
    p.filterMap step? = p.map Component.name := by
  induction p with
  | nil => rfl
  | cons n p ih =>
    rw [plainPlace_cons] at hp
    rw [List.filterMap_cons_some (step?_plain hp.1), ih hp.2, List.map_cons]

theorem body_ofNames {p : Place} (hne : p ≠ []) (hp : PlainPlace p) : (ofNames p).body = p := by
  have hsplit : pieces (ofNames p).text = "" :: pieces (Text.joinWith "/" p) := by
    simp [pieces, ofNames_toList, Text.splitOn]
  rw [body, if_pos (isAbsolute_ofNames p), hsplit, List.drop_one, List.tail_cons,
    pieces_joinWith hne hp]

theorem components_ofNames {p : Place} (hp : PlainPlace p) :
    (ofNames p).components = .root :: p.map Component.name := by
  rw [components, if_pos (isAbsolute_ofNames p)]
  by_cases hne : p = []
  · subst hne
    decide
  · rw [body_ofNames hne hp, filterMap_step?_plain hp]

theorem startsWith_self (p : Path) : p.startsWith p = true :=
  List.isPrefixOf_iff_prefix.mpr (List.prefix_refl p.components)

theorem isPrefixOf_map_name : ∀ (p q : Place),
    (p.map Component.name).isPrefixOf (q.map Component.name) = p.isPrefixOf q
  | [], _ => by simp
  | _ :: _, [] => by simp
  | a :: p, b :: q => by
    have hab : (Component.name a == Component.name b) = (a == b) := by
      rw [Bool.eq_iff_iff, beq_iff_eq, beq_iff_eq, Component.name.injEq]
    rw [List.map_cons, List.map_cons, List.isPrefixOf_cons_cons, List.isPrefixOf_cons_cons,
      isPrefixOf_map_name p q, hab]

/-- Comparing the paths of places by their steps compares the places. -/
theorem startsWith_ofNames {p q : Place} (hp : PlainPlace p) (hq : PlainPlace q) :
    (ofNames p).startsWith (ofNames q) = q.isPrefixOf p := by
  rw [startsWith, components_ofNames hp, components_ofNames hq, List.isPrefixOf_cons_cons,
    isPrefixOf_map_name]
  simp

theorem fileName?_ofNames {p : Place} {n : String} (hp : PlainPlace p) (hn : PlainName n) :
    (ofNames (p ++ [n])).fileName? = some n := by
  rw [fileName?, components_ofNames (by simpa using ⟨hp, hn⟩)]
  simp [List.getLast?_cons]

/-- Empty pieces stand for no step. -/
theorem filterMap_step?_namesOf (p : Path) :
    (FileSystem.namesOf p).filterMap step? = (pieces p.text).filterMap step? := by
  rw [FileSystem.namesOf, List.filterMap_filter]
  refine congrArg (List.filterMap · (pieces p.text)) (funext fun piece => ?_)
  by_cases hblank : piece = ""
  · simp [hblank, step?]
  · simp [hblank]

/-- The steps of an absolute path are the root and those of its names. -/
theorem components_of_isAbsolute {p : Path} (h : p.isAbsolute = true) :
    p.components = .root :: (FileSystem.namesOf p).filterMap step? := by
  rw [filterMap_step?_namesOf, components, if_pos h, body, if_pos h]
  rw [isAbsolute, decide_eq_true_eq] at h
  obtain ⟨cs, hcs⟩ := List.head?_eq_some_iff.mp h
  simp [pieces, hcs, Text.splitOn, step?]

/-- The steps of a relative path are those of its names, perhaps after one for a dot. -/
theorem components_of_relative {p : Path} (h : p.isAbsolute = false) :
    ∃ front, (front = [] ∨ front = [.current]) ∧
      p.components = front ++ (FileSystem.namesOf p).filterMap step? := by
  have hrel : ¬ p.isAbsolute = true := ne_true_of_eq_false h
  rw [filterMap_step?_namesOf, components, if_neg hrel, body, if_neg hrel]
  split
  · next rest hrest => exact ⟨[.current], Or.inr rfl, by simp [hrest, step?]⟩
  · exact ⟨[], Or.inl rfl, rfl⟩

/-- The steps of a path end with those of its names, before which there is no name. -/
theorem components_eq_append (p : Path) : ∃ front, (∀ n, .name n ∉ front) ∧
    p.components = front ++ (FileSystem.namesOf p).filterMap step? := by
  by_cases habs : p.isAbsolute = true
  · exact ⟨[.root], by simp, components_of_isAbsolute habs⟩
  · obtain ⟨front, rfl | rfl, hcomp⟩ := components_of_relative (eq_false_of_ne_true habs)
    · exact ⟨[], by simp, hcomp⟩
    · exact ⟨[.current], by simp, hcomp⟩

theorem step?_eq_name {piece n : String} (h : step? piece = some (.name n)) :
    piece = n ∧ n ≠ "." ∧ n ≠ ".." := by
  unfold step? at h
  split_ifs at h with hblank hdots
  · cases h
  · obtain rfl := Component.name.inj (Option.some.inj h)
    rw [not_or] at hblank
    exact ⟨rfl, hblank.2, hdots⟩

/-- The last step of a path, if it is a name, is one of its names. -/
theorem mem_namesOf_of_fileName? {p : Path} {n : String} (h : p.fileName? = some n) :
    n ∈ FileSystem.namesOf p ∧ PlainName n := by
  have hmem : Component.name n ∈ p.components := by
    unfold fileName? at h
    split at h
    · next s hs =>
      rw [← Option.some.inj h]
      exact List.mem_of_mem_getLast? hs
    · cases h
  obtain ⟨front, hfront, hcomponents⟩ := p.components_eq_append
  rw [hcomponents, List.mem_append, List.mem_filterMap] at hmem
  obtain ⟨piece, hpiece, hstep⟩ := hmem.resolve_left (hfront n)
  obtain ⟨rfl, hdot, hdots⟩ := step?_eq_name hstep
  obtain ⟨hblank, hslash⟩ := FileSystem.mem_namesOf hpiece
  exact ⟨hpiece, hblank, hdot, hdots, hslash⟩

theorem plainName_of_fileName? {p : Path} {n : String} (h : p.fileName? = some n) : PlainName n :=
  (mem_namesOf_of_fileName? h).2

/-- Only the steps of an absolute path begin at the root. -/
theorem isAbsolute_of_components {p : Path} {cs : List Component}
    (h : p.components = .root :: cs) : p.isAbsolute = true := by
  have hstep : ∀ pieces : List String, .root ∉ pieces.filterMap step? := by
    intro pieces hmem
    obtain ⟨piece, -, hpiece⟩ := List.mem_filterMap.mp hmem
    unfold step? at hpiece
    split_ifs at hpiece <;> cases hpiece
  by_contra habs
  rw [components, if_neg habs] at h
  split at h
  · cases h
  · exact hstep _ (by rw [h]; exact List.mem_cons_self)

/-- A path without a name at its end is walked to a dot or to two. -/
theorem steps_of_fileName?_eq_none {p : Path} (hne : p.text ≠ "") (h : p.fileName? = none) :
    ∃ ns n, FileSystem.steps p = ns ++ [n] ∧ (n = "." ∨ n = "..") := by
  obtain ⟨ns, n, hn⟩ := (List.eq_nil_or_concat _).resolve_left (FileSystem.steps_ne_nil hne)
  rw [List.concat_eq_append] at hn
  refine ⟨ns, n, hn, ?_⟩
  by_contra hdots
  rw [not_or] at hdots
  have hnames : FileSystem.namesOf p = ns ++ [n] := by
    unfold FileSystem.steps at hn
    split at hn
    · exact absurd (List.append_inj' hn rfl).2 (by simpa [eq_comm] using hdots.1)
    · exact hn
  have hmem : n ∈ FileSystem.namesOf p := by simp [hnames]
  obtain ⟨hblank, hslash⟩ := FileSystem.mem_namesOf hmem
  obtain ⟨front, -, hfront⟩ := p.components_eq_append
  have hlast : p.components.getLast? = some (.name n) := by
    rw [hfront, hnames, List.filterMap_append, List.filterMap_cons_some
      (step?_plain ⟨hblank, hdots.1, hdots.2, hslash⟩)]
    simp [← List.append_assoc]
  rw [fileName?, hlast] at h
  cases h

/-- A path with a name at its end has a parent. -/
theorem exists_parent?_of_fileName? {p : Path} {n : String} (h : p.fileName? = some n) :
    ∃ q, p.parent? = some q := by
  unfold fileName? at h
  split at h
  · next s hs =>
    unfold parent?
    rw [hs]
    exact ⟨_, rfl⟩
  · cases h

/-! ## Ancestors -/

theorem isTrivial_plain {n : String} (h : PlainName n) : isTrivial n = false := by
  simp [isTrivial, h.ne_empty, h.ne_dot]

theorem dropTrivialEnd_plain {p : Place} (hp : PlainPlace p) : dropTrivialEnd p = p := by
  unfold dropTrivialEnd
  rcases List.eq_nil_or_concat p with rfl | ⟨q, n, rfl⟩
  · rfl
  · simp only [List.concat_eq_append, plainPlace_append, plainPlace_cons] at hp
    simp [isTrivial_plain hp.2.1]

theorem trimEnd_plain {p : Place} (hp : PlainPlace p) : trimEnd true p = p := by
  unfold trimEnd
  split
  · simpa using dropTrivialEnd_plain hp
  · exact dropTrivialEnd_plain hp

theorem parent?_ofNames {p : Place} {n : String} (hp : PlainPlace p) (hn : PlainName n) :
    (ofNames (p ++ [n])).parent? = some (ofNames p) := by
  have hpn : PlainPlace (p ++ [n]) := by simpa using ⟨hp, hn⟩
  have hlast : (ofNames (p ++ [n])).components.getLast? = some (.name n) := by
    rw [components_ofNames hpn]
    simp [List.getLast?_cons]
  unfold parent?
  rw [hlast]
  simp only [isAbsolute_ofNames, body_ofNames (by simp) hpn, trimEnd_plain hpn,
    List.dropLast_concat, trimEnd_plain hp, if_true]
  rfl

theorem length_components_ofNames {p : Place} (hp : PlainPlace p) :
    (ofNames p).components.length = p.length + 1 := by
  simp [components_ofNames hp]

@[simp] theorem ancestors_root : (ofNames []).ancestors = [ofNames []] := by decide

theorem ancestors_ofNames {p : Place} {n : String} (hp : PlainPlace p) (hn : PlainName n) :
    (ofNames (p ++ [n])).ancestors = ofNames (p ++ [n]) :: (ofNames p).ancestors := by
  have hpn : PlainPlace (p ++ [n]) := by simpa using ⟨hp, hn⟩
  rw [ancestors, ancestors, length_components_ofNames hpn, length_components_ofNames hp,
    ancestors.go, parent?_ofNames hp hn, List.length_append, List.length_singleton]

/-- Every path is the first of its ancestors. -/
theorem ancestors_eq_cons (p : Path) : ∃ rest, p.ancestors = p :: rest := by
  rw [ancestors, ancestors.go]
  split <;> exact ⟨_, rfl⟩

end CodeIndex.Path
