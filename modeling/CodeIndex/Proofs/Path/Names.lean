import CodeIndex.FileSystem.Lookup
import Mathlib.Tactic.ByContra

/-!
# The texts of paths made of names

A place is a list of names and has a path, `Path.ofNames`. Here is what the operations on texts make
of such paths.

* `PlainName` : what stands for one name in a path;
* `namesOf_join` : the names of a text that goes on after a slash;
* `steps_ofNames` : the names to walk for the path of a place are those of the place;
* `child_ofNames`, `join_ofNames` : going down from a place;
* `steps_join` : the names to walk for a path below another.
-/

namespace CodeIndex

/-- What stands for one name in a path, neither for none nor for a way up. -/
structure PlainName (s : String) : Prop where
  ne_empty : s ≠ ""
  ne_dot : s ≠ "."
  ne_dotDot : s ≠ ".."
  no_slash : '/' ∉ s.toList

theorem plainName_iff (s : String) :
    PlainName s ↔ s ≠ "" ∧ s ≠ "." ∧ s ≠ ".." ∧ '/' ∉ s.toList :=
  ⟨fun h => ⟨h.ne_empty, h.ne_dot, h.ne_dotDot, h.no_slash⟩, fun ⟨h1, h2, h3, h4⟩ => ⟨h1, h2, h3, h4⟩⟩

instance (s : String) : Decidable (PlainName s) := decidable_of_iff _ (plainName_iff s).symm

/-- A place all of whose names are plain. -/
def PlainPlace (p : Place) : Prop := ∀ n ∈ p, PlainName n

@[simp] theorem plainPlace_nil : PlainPlace [] := fun _ h => absurd h List.not_mem_nil

@[simp] theorem plainPlace_cons {n : String} {p : Place} :
    PlainPlace (n :: p) ↔ PlainName n ∧ PlainPlace p := List.forall_mem_cons

@[simp] theorem plainPlace_append {p q : Place} :
    PlainPlace (p ++ q) ↔ PlainPlace p ∧ PlainPlace q := List.forall_mem_append

theorem PlainPlace.filter_ne_empty {p : Place} (hp : PlainPlace p) : p.filter (· ≠ "") = p :=
  List.filter_eq_self.mpr fun n hn => by simpa using (hp n hn).ne_empty

/-! ## Splitting and joining -/

namespace Text

theorem splitOn_append (sep : Char) (as bs : List Char) :
    splitOn sep (as ++ sep :: bs) = splitOn sep as ++ splitOn sep bs := by
  induction as with
  | nil => simp [splitOn]
  | cons a as ih =>
    by_cases ha : a = sep
    · simp [splitOn, ha, ih]
    · cases h : splitOn sep as with
      | nil => exact absurd h (splitOn_ne_nil sep as)
      | cons p ps => simp [splitOn, ha, ih, h]

theorem splitOn_of_notMem {sep : Char} {cs : List Char} (h : sep ∉ cs) : splitOn sep cs = [cs] := by
  induction cs with
  | nil => rfl
  | cons c cs ih =>
    have hc : c ≠ sep := fun e => h (by simp [e])
    simp [splitOn, hc, ih fun hm => h (List.mem_cons_of_mem _ hm)]

theorem notMem_of_mem_splitOn {sep : Char} {cs piece : List Char} (h : piece ∈ splitOn sep cs) :
    sep ∉ piece := by
  induction cs generalizing piece with
  | nil => simp_all [splitOn]
  | cons c cs ih =>
    simp only [splitOn] at h
    split at h
    · rcases List.mem_cons.mp h with rfl | h
      · simp
      · exact ih h
    · next hc =>
      split at h
      · next hs => exact absurd hs (splitOn_ne_nil sep cs)
      · next p ps hs =>
        rcases List.mem_cons.mp h with rfl | h
        · have hp : sep ∉ p := ih (by simp [hs])
          simp [hp, Ne.symm hc]
        · exact ih (by simp [hs, h])

theorem eq_of_mem_of_splitOn {sep : Char} {cs : List Char} (h : ∀ piece ∈ splitOn sep cs, piece = []) :
    ∀ c ∈ cs, c = sep := by
  induction cs with
  | nil => simp
  | cons c cs ih =>
    rw [splitOn] at h
    split at h
    · next hc =>
      rw [List.forall_mem_cons] at h ⊢
      exact ⟨hc, ih h.2⟩
    · split at h
      · next hs => exact absurd hs (splitOn_ne_nil sep cs)
      · next p ps hs => exact absurd (h _ List.mem_cons_self) (List.cons_ne_nil c p)

theorem joinWith_cons {sep s : String} {rest : List String} (h : rest ≠ []) :
    joinWith sep (s :: rest) = s ++ sep ++ joinWith sep rest := by
  cases rest with
  | nil => exact absurd rfl h
  | cons t rest => rfl

theorem joinWith_append (sep : String) :
    ∀ {as bs : List String}, as ≠ [] → bs ≠ [] →
      joinWith sep (as ++ bs) = joinWith sep as ++ sep ++ joinWith sep bs
  | [a], b :: bs, _, _ => by simp [joinWith]
  | a :: a' :: as, bs, _, hb => by
    have ih : joinWith sep (a' :: as ++ bs) = joinWith sep (a' :: as) ++ sep ++ joinWith sep bs :=
      joinWith_append sep (List.cons_ne_nil a' as) hb
    have hl : a' :: as ++ bs ≠ [] := by simp
    have hr : a' :: as ≠ [] := by simp
    rw [List.cons_append, joinWith_cons hl, ih, joinWith_cons hr]
    simp [String.append_assoc]

/-- Fewer texts are joined to less. -/
theorem utf8ByteSize_joinWith_le {sep : String} {as bs : List String} (h : as.Sublist bs) :
    (joinWith sep as).utf8ByteSize ≤ (joinWith sep bs).utf8ByteSize := by
  induction h with
  | slnil => exact Nat.le_refl _
  | @cons as bs b h ih =>
    by_cases hbs : bs = []
    · obtain rfl : as = [] := by simpa [hbs] using h
      exact Nat.zero_le _
    · rw [joinWith_cons hbs, String.utf8ByteSize_append]
      omega
  | @cons_cons as bs a h ih =>
    by_cases hbs : bs = []
    · subst hbs
      obtain rfl : as = [] := by simpa using h
      exact Nat.le_refl _
    by_cases has : as = []
    · simp only [has, joinWith_cons hbs, String.utf8ByteSize_append, joinWith]
      omega
    · simp only [joinWith_cons has, joinWith_cons hbs, String.utf8ByteSize_append]
      omega

theorem joinWith_append_cons (sep a b : String) (rest : List String) :
    joinWith sep ((a ++ b) :: rest) = a ++ joinWith sep (b :: rest) := by
  cases rest with
  | nil => rfl
  | cons c rest => simp only [joinWith_cons (List.cons_ne_nil c rest), String.append_assoc]

/-- The pieces of a text, joined again. -/
theorem joinWith_splitOn (cs : List Char) :
    joinWith "/" ((splitOn '/' cs).map String.ofList) = String.ofList cs := by
  induction cs with
  | nil => rfl
  | cons c cs ih =>
    have hcons : String.ofList (c :: cs) = String.ofList [c] ++ String.ofList cs := by
      rw [← String.ofList_append, List.singleton_append]
    rw [splitOn, hcons, ← ih]
    split
    · next hc =>
      have hne : (splitOn '/' cs).map String.ofList ≠ [] := by simpa using splitOn_ne_nil '/' cs
      rw [List.map_cons, joinWith_cons hne, hc]
      rfl
    · split
      · next hnil => exact absurd hnil (splitOn_ne_nil '/' cs)
      · next piece pieces hpieces =>
        rw [hpieces, List.map_cons, List.map_cons, ← joinWith_append_cons, ← String.ofList_append,
          List.singleton_append]

end Text

/-! ## Names of texts -/

namespace FileSystem

theorem mem_namesOf {path : Path} {n : String} (h : n ∈ namesOf path) :
    n ≠ "" ∧ '/' ∉ n.toList := by
  simp only [namesOf, Path.pieces, List.mem_filter, List.mem_map, decide_eq_true_eq] at h
  obtain ⟨⟨cs, hcs, rfl⟩, hn⟩ := h
  exact ⟨hn, by simpa using Text.notMem_of_mem_splitOn hcs⟩

theorem mem_steps {path : Path} {n : String} (h : n ∈ steps path) : n ≠ "" ∧ '/' ∉ n.toList := by
  unfold steps at h
  split at h
  · rcases List.mem_append.mp h with h | h
    · exact mem_namesOf h
    · simp_all
  · exact mem_namesOf h

theorem namesOf_append_slash (a b : String) :
    namesOf ⟨a ++ "/" ++ b⟩ = namesOf ⟨a⟩ ++ namesOf ⟨b⟩ := by
  simp only [namesOf, Path.pieces, String.toList_append, List.append_assoc]
  rw [show "/".toList ++ b.toList = '/' :: b.toList from rfl, Text.splitOn_append]
  simp

@[simp] theorem namesOf_empty : namesOf ⟨""⟩ = [] := by
  simp [namesOf, Path.pieces, Text.splitOn]

/-- A path that is not empty has names to walk. -/
theorem steps_ne_nil {path : Path} (hne : path.text ≠ "") : steps path ≠ [] := by
  intro hnil
  unfold steps at hnil
  split at hnil
  · simp at hnil
  · next hlast =>
    have hall : ∀ c ∈ path.text.toList, c = '/' := by
      refine Text.eq_of_mem_of_splitOn fun cs hcs => ?_
      by_contra hcs'
      have hmem : String.ofList cs ∈ namesOf path := by
        simp only [namesOf, Path.pieces, List.mem_filter, List.mem_map, decide_eq_true_eq]
        exact ⟨⟨cs, hcs, rfl⟩, by simpa using hcs'⟩
      rw [hnil] at hmem
      cases hmem
    have hchars : path.text.toList ≠ [] := by simpa using hne
    rw [List.getLast?_eq_some_getLast hchars] at hlast
    exact hlast (congrArg some (hall _ (List.getLast_mem hchars)))

end FileSystem

namespace Path

/-- Texts without slashes are the pieces of what they are joined to. -/
theorem pieces_joinWith_of_notMem : ∀ {ps : List String}, ps ≠ [] → (∀ s ∈ ps, '/' ∉ s.toList) →
    pieces (Text.joinWith "/" ps) = ps
  | [s], _, hs => by
    rw [List.forall_mem_singleton] at hs
    simp [pieces, Text.joinWith, Text.splitOn_of_notMem hs]
  | s :: t :: ps, _, hs => by
    rw [List.forall_mem_cons] at hs
    have ih : pieces (Text.joinWith "/" (t :: ps)) = t :: ps :=
      pieces_joinWith_of_notMem (by simp) hs.2
    rw [pieces] at ih ⊢
    rw [Text.joinWith_cons (by simp), String.toList_append, String.toList_append, List.append_assoc,
      show "/".toList = ['/'] from rfl, List.singleton_append, Text.splitOn_append,
      Text.splitOn_of_notMem hs.1]
    simp [ih]

theorem pieces_joinWith {p : Place} (hne : p ≠ []) (hp : PlainPlace p) :
    pieces (Text.joinWith "/" p) = p :=
  pieces_joinWith_of_notMem hne fun n hn => (hp n hn).no_slash

theorem joinWith_ne_empty {p : Place} (hne : p ≠ []) (hp : PlainPlace p) :
    Text.joinWith "/" p ≠ "" := by
  intro h
  have hpieces := pieces_joinWith hne hp
  rw [h] at hpieces
  have hmem : "" ∈ p := by rw [← hpieces]; simp [pieces, Text.splitOn]
  exact (hp "" hmem).ne_empty rfl

/-- The first character of a text of plain names is no slash. -/
theorem head?_joinWith {p : Place} (hne : p ≠ []) (hp : PlainPlace p) :
    (Text.joinWith "/" p).toList.head? ≠ some '/' := by
  cases p with
  | nil => exact absurd rfl hne
  | cons n p =>
    rw [plainPlace_cons] at hp
    have hn : n.toList.head? ≠ some '/' := fun h => hp.1.no_slash (List.mem_of_mem_head? h)
    have hnil : n.toList ≠ [] := by simpa using hp.1.ne_empty
    cases p with
    | nil => exact hn
    | cons n' p =>
      obtain ⟨c, cs, hcs⟩ := List.exists_cons_of_ne_nil hnil
      rw [hcs] at hn
      simpa [Text.joinWith_cons, hcs] using hn

/-- The last character of a text of plain names is no slash. -/
theorem getLast?_joinWith : ∀ {p : Place}, PlainPlace p →
    (Text.joinWith "/" p).toList.getLast? ≠ some '/'
  | [], _ => by simp [Text.joinWith]
  | [n], hp => by
    rw [plainPlace_cons] at hp
    exact fun h => hp.1.no_slash (List.mem_of_mem_getLast? h)
  | n :: n' :: p, hp => by
    rw [plainPlace_cons] at hp
    have ih := getLast?_joinWith hp.2
    have hnil : (Text.joinWith "/" (n' :: p)).toList ≠ [] := by
      simpa using joinWith_ne_empty (by simp) hp.2
    have hne : n' :: p ≠ [] := by simp
    rw [List.getLast?_eq_some_getLast hnil] at ih
    rw [Text.joinWith_cons hne, String.toList_append, List.getLast?_append,
      List.getLast?_eq_some_getLast hnil]
    exact ih

end Path

namespace FileSystem

theorem namesOf_joinWith {ps : List String} (hps : ∀ s ∈ ps, '/' ∉ s.toList) :
    namesOf ⟨Text.joinWith "/" ps⟩ = ps.filter (· ≠ "") := by
  cases ps with
  | nil => simp [Text.joinWith]
  | cons s ps => rw [namesOf, Path.pieces_joinWith_of_notMem (by simp) hps]

theorem namesOf_ofNames_eq_filter {ps : List String} (hps : ∀ s ∈ ps, '/' ∉ s.toList) :
    namesOf (Path.ofNames ps) = ps.filter (· ≠ "") := by
  have h := namesOf_append_slash "" (Text.joinWith "/" ps)
  rw [namesOf_empty, List.nil_append, namesOf_joinWith hps] at h
  simpa [Path.ofNames] using h

theorem namesOf_relativePath {p : Place} (hp : PlainPlace p) :
    namesOf ⟨Text.joinWith "/" p⟩ = p := by
  rw [namesOf_joinWith fun n hn => (hp n hn).no_slash, hp.filter_ne_empty]

theorem namesOf_ofNames {p : Place} (hp : PlainPlace p) : namesOf (Path.ofNames p) = p := by
  rw [namesOf_ofNames_eq_filter fun n hn => (hp n hn).no_slash, hp.filter_ne_empty]

end FileSystem

/-! ## The path of a place -/

namespace Path

theorem ofNames_toList (p : Place) :
    (ofNames p).text.toList = '/' :: (Text.joinWith "/" p).toList := by
  simp [ofNames]

@[simp] theorem isAbsolute_ofNames (p : Place) : (ofNames p).isAbsolute = true := by
  simp [isAbsolute, ofNames_toList]

theorem ofNames_text_ne_empty (p : Place) : (ofNames p).text ≠ "" := by
  intro h
  have hl := ofNames_toList p
  simp [h] at hl

theorem getLast?_ofNames {p : Place} (hne : p ≠ []) (hp : PlainPlace p) :
    (ofNames p).text.toList.getLast? ≠ some '/' := by
  have hnil : (Text.joinWith "/" p).toList ≠ [] := by simpa using joinWith_ne_empty hne hp
  have hlast := getLast?_joinWith hp
  rw [ofNames_toList, ← List.singleton_append, List.getLast?_append]
  rw [List.getLast?_eq_some_getLast hnil] at hlast ⊢
  exact hlast

theorem isAbsolute_relative {p : Place} (hne : p ≠ []) (hp : PlainPlace p) :
    isAbsolute ⟨Text.joinWith "/" p⟩ = false := by
  simpa [isAbsolute] using head?_joinWith hne hp

/-- Going down from a place ends at the place with the further names. -/
theorem join_ofNames {p q : Place} (hp : PlainPlace p) (hne : q ≠ []) (hq : PlainPlace q) :
    (ofNames p).join ⟨Text.joinWith "/" q⟩ = ofNames (p ++ q) := by
  rw [join, isAbsolute_relative hne hq]
  cases p with
  | nil => simp [ofNames, Text.joinWith]
  | cons n p =>
    have hlast := getLast?_ofNames (by simp) hp
    have hempty := ofNames_text_ne_empty (n :: p)
    rw [if_neg (by simp), if_neg (by simpa using hempty), if_neg hlast]
    simp only [ofNames]
    rw [Text.joinWith_append "/" (by simp) hne, String.append_assoc, String.append_assoc,
      String.append_assoc]

theorem child_ofNames {p : Place} {n : String} (hp : PlainPlace p) (hn : PlainName n) :
    (ofNames p).child n = ofNames (p ++ [n]) :=
  join_ofNames hp (List.cons_ne_nil n []) (by simpa using hn)

theorem foldl_child_ofNames {p : Place} (hp : PlainPlace p) :
    ∀ {q : Place}, PlainPlace q → q.foldl child (ofNames p) = ofNames (p ++ q) := by
  intro q hq
  induction q generalizing p with
  | nil => simp
  | cons n q ih =>
    rw [plainPlace_cons] at hq
    rw [List.foldl_cons, child_ofNames hp hq.1, ih (by simpa using ⟨hp, hq.1⟩) hq.2,
      List.append_assoc, List.singleton_append]

end Path

namespace FileSystem

@[simp] theorem origin_ofNames (cwd p : Place) : origin cwd (Path.ofNames p) = [] := by
  simp [origin]

theorem steps_ofNames {p : Place} (hne : p ≠ []) (hp : PlainPlace p) :
    steps (Path.ofNames p) = p := by
  rw [steps, if_neg (Path.getLast?_ofNames hne hp), namesOf_ofNames hp]

@[simp] theorem steps_root : steps (Path.ofNames []) = ["."] := by decide

theorem steps_relative {p : Place} (hp : PlainPlace p) :
    steps ⟨Text.joinWith "/" p⟩ = p := by
  rw [steps, if_neg (Path.getLast?_joinWith hp), namesOf_relativePath hp]

/-- A text that ends in a slash is a text before a slash. -/
theorem eq_append_slash {s : String} (h : s.toList.getLast? = some '/') :
    s = String.ofList s.toList.dropLast ++ "/" := by
  have hnil : s.toList ≠ [] := fun e => by simp [e] at h
  rw [List.getLast?_eq_some_getLast hnil, Option.some_inj] at h
  rw [← String.toList_inj, String.toList_append, String.toList_ofList, show "/".toList = ['/'] from rfl,
    ← h, List.dropLast_concat_getLast hnil]

/-- The names of a path that goes on below another. -/
theorem namesOf_join {t q : Path} (ht : t.text ≠ "") (hq : q.isAbsolute = false) :
    namesOf (t.join q) = namesOf t ++ namesOf q := by
  rw [Path.join, hq, if_neg (by simp), if_neg (by simpa using ht)]
  split
  · next hlast =>
    obtain ⟨s⟩ := t
    have hs := eq_append_slash hlast
    have hpre := namesOf_append_slash (String.ofList s.toList.dropLast) ""
    rw [String.append_empty, ← hs, namesOf_empty, List.append_nil] at hpre
    rw [hpre, hs, namesOf_append_slash]
  · exact namesOf_append_slash _ _

theorem join_text_ne_empty {t q : Path} (ht : t.text ≠ "") (hq : q.isAbsolute = false) :
    (t.join q).text ≠ "" := by
  rw [Path.join, hq, if_neg (by simp), if_neg (by simpa using ht)]
  split <;> simp [ht]

theorem origin_join {t q : Path} (cwd : Place) (ht : t.text ≠ "") (hq : q.isAbsolute = false) :
    origin cwd (t.join q) = origin cwd t := by
  have hhead : (t.join q).text.toList.head? = t.text.toList.head? := by
    obtain ⟨c, cs, hcs⟩ := List.exists_cons_of_ne_nil (show t.text.toList ≠ [] by simpa using ht)
    rw [Path.join, hq, if_neg (by simp), if_neg (by simpa using ht)]
    split <;> simp [hcs]
  simp [origin, Path.isAbsolute, hhead]

theorem getLast?_join {t q : Path} (ht : t.text ≠ "") (hq : q.isAbsolute = false)
    (hne : q.text ≠ "") : (t.join q).text.toList.getLast? = q.text.toList.getLast? := by
  have hnil : q.text.toList ≠ [] := by simpa using hne
  rw [Path.join, hq, if_neg (by simp), if_neg (by simpa using ht)]
  split <;> simp [List.getLast?_append, List.getLast?_cons, List.getLast?_eq_some_getLast hnil]

theorem steps_join {t q : Path} (ht : t.text ≠ "") (hq : q.isAbsolute = false) (hne : q.text ≠ "") :
    steps (t.join q) = namesOf t ++ steps q := by
  rw [steps, steps, getLast?_join ht hq hne, namesOf_join ht hq]
  split <;> simp

end FileSystem

end CodeIndex
