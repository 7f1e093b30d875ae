import CodeIndex.Listing
import CodeIndex.Proofs.Path.Ancestors
import Mathlib.Data.List.Sort
import Mathlib.Data.String.Basic

/-!
# The order of relative paths

Listings are ordered by names. That is the order of the relative paths by their steps: a directory
comes before what is in it, whatever its bytes are.

* `sortBy_perm`, `pairwise_sortBy` : sorting changes the order only, and makes one;
* `namesLe_trans`, `namesLe_total`, `namesLe_antisymm` : names are in a total order;
* `namesLe_append_eq_false` : what goes on from names does not come before them;
* `shallowerLe_iff` : fewer names come first, and that is a total order, too;
* `Path.components_relative` : the steps of a relative path are its names;
* `Path.compare_relative`, `Path.shallower_relative` : relative paths compare as their names do.
-/

namespace CodeIndex

/-! ## Sorting -/

theorem insertBy_eq_orderedInsert {α : Type} (le : α → α → Bool) (a : α) (l : List α) :
    insertBy le a l = l.orderedInsert (fun a b => le a b = true) a := by
  induction l with
  | nil => rfl
  | cons b l ih => rw [insertBy, List.orderedInsert_cons, ih]

theorem sortBy_eq_insertionSort {α : Type} (le : α → α → Bool) (l : List α) :
    sortBy le l = l.insertionSort fun a b => le a b = true := by
  induction l with
  | nil => rfl
  | cons a l ih => rw [List.insertionSort_cons, ← ih, ← insertBy_eq_orderedInsert]; rfl

theorem sortBy_perm {α : Type} (le : α → α → Bool) (l : List α) : (sortBy le l).Perm l := by
  rw [sortBy_eq_insertionSort]
  exact List.perm_insertionSort _ l

theorem pairwise_sortBy {α : Type} {le : α → α → Bool}
    (htotal : ∀ a b, (le a b || le b a) = true)
    (htrans : ∀ a b c, le a b = true → le b c = true → le a c = true) (l : List α) :
    (sortBy le l).Pairwise fun a b => le a b = true := by
  have : Std.Total fun a b : α => le a b = true := ⟨fun a b => by simpa using htotal a b⟩
  have : IsTrans α fun a b => le a b = true := ⟨htrans⟩
  rw [sortBy_eq_insertionSort]
  exact List.pairwise_insertionSort _ l

/-! ## The order of names -/

theorem namesLe_cons_self (a : String) (as bs : List String) :
    namesLe (a :: as) (a :: bs) = namesLe as bs := by rw [namesLe, if_pos rfl]

theorem namesLe_cons_of_ne {a b : String} (h : a ≠ b) (as bs : List String) :
    namesLe (a :: as) (b :: bs) = decide (a < b) := by rw [namesLe, if_neg h]

theorem namesLe_trans : ∀ a b c : List String,
    namesLe a b = true → namesLe b c = true → namesLe a c = true
  | [], _, _, _, _ => by simp [namesLe]
  | _ :: _, [], _, h, _ => by simp [namesLe] at h
  | _ :: _, _ :: _, [], _, h => by simp [namesLe] at h
  | a :: as, b :: bs, c :: cs, h, h' => by
    by_cases hab : a = b
    · subst hab
      by_cases hac : a = c
      · subst hac
        rw [namesLe_cons_self] at h h' ⊢
        exact namesLe_trans as bs cs h h'
      · rwa [namesLe_cons_of_ne hac] at h' ⊢
    · rw [namesLe_cons_of_ne hab, decide_eq_true_eq] at h
      by_cases hbc : b = c
      · subst hbc
        rwa [namesLe_cons_of_ne hab, decide_eq_true_eq]
      · rw [namesLe_cons_of_ne hbc, decide_eq_true_eq] at h'
        have hac : a < c := lt_trans h h'
        rwa [namesLe_cons_of_ne hac.ne, decide_eq_true_eq]

theorem namesLe_total : ∀ a b : List String, (namesLe a b || namesLe b a) = true
  | [], _ => by simp [namesLe]
  | _ :: _, [] => by simp [namesLe]
  | a :: as, b :: bs => by
    by_cases hab : a = b
    · subst hab
      rw [namesLe_cons_self, namesLe_cons_self]
      exact namesLe_total as bs
    · rw [namesLe_cons_of_ne hab, namesLe_cons_of_ne (Ne.symm hab)]
      rcases lt_or_gt_of_ne hab with h | h <;> simp [h]

theorem namesLe_antisymm : ∀ {a b : List String},
    namesLe a b = true → namesLe b a = true → a = b
  | [], [], _, _ => rfl
  | [], _ :: _, _, h => by simp [namesLe] at h
  | _ :: _, [], h, _ => by simp [namesLe] at h
  | a :: as, b :: bs, h, h' => by
    by_cases hab : a = b
    · subst hab
      rw [namesLe_cons_self] at h h'
      rw [namesLe_antisymm h h']
    · rw [namesLe_cons_of_ne hab, decide_eq_true_eq] at h
      rw [namesLe_cons_of_ne (Ne.symm hab), decide_eq_true_eq] at h'
      exact absurd h' (lt_asymm h)

/-- A list of names does not come before what it goes on from. -/
theorem namesLe_append_eq_false {a : List String} :
    ∀ {b : List String}, b ≠ [] → namesLe (a ++ b) a = false := by
  intro b hb
  induction a with
  | nil =>
    cases b with
    | nil => exact absurd rfl hb
    | cons n b => rfl
  | cons n a ih => rw [List.cons_append, namesLe_cons_self, ih]

namespace FileSystem

variable {a b c : List String}

theorem shallowerLe_of_lt (h : a.length < b.length) : shallowerLe a b = true := by
  rw [shallowerLe, if_neg (Nat.ne_of_lt h), decide_eq_true h]

theorem shallowerLe_iff : shallowerLe a b = true ↔
    a.length < b.length ∨ a.length = b.length ∧ namesLe a b = true := by
  rw [shallowerLe]
  split
  · next h => simp [h]
  · next h => simp [h]

theorem shallowerLe_total (a b : List String) : (shallowerLe a b || shallowerLe b a) = true := by
  rw [Bool.or_eq_true]
  rcases Nat.lt_trichotomy a.length b.length with h | h | h
  · exact Or.inl (shallowerLe_of_lt h)
  · rw [shallowerLe, shallowerLe, if_pos h, if_pos h.symm]
    simpa using namesLe_total a b
  · exact Or.inr (shallowerLe_of_lt h)

theorem shallowerLe_trans (h : shallowerLe a b = true) (h' : shallowerLe b c = true) :
    shallowerLe a c = true := by
  rw [shallowerLe_iff] at *
  rcases h with h | ⟨h, hab⟩ <;> rcases h' with h' | ⟨h', hbc⟩
  · exact Or.inl (h.trans h')
  · exact Or.inl (h' ▸ h)
  · exact Or.inl (h ▸ h')
  · exact Or.inr ⟨h.trans h', namesLe_trans a b c hab hbc⟩

theorem shallowerLe_antisymm (h : shallowerLe a b = true) (h' : shallowerLe b a = true) :
    a = b := by
  rw [shallowerLe_iff] at *
  rcases h with h | ⟨h, hab⟩ <;> rcases h' with h' | ⟨h', hba⟩
  · omega
  · omega
  · omega
  · exact namesLe_antisymm hab hba

end FileSystem

/-! ## Relative paths -/

namespace Path

variable {ns ms : List String}

theorem components_relative (hne : ns ≠ []) (hns : PlainPlace ns) :
    (relativePath ns).components = ns.map Component.name := by
  have habs : (relativePath ns).isAbsolute = false := isAbsolute_relative hne hns
  have hbody : (relativePath ns).body = ns := by
    rw [body, habs, if_neg Bool.false_ne_true, relativePath, pieces_joinWith hne hns]
  rw [components, habs, if_neg Bool.false_ne_true, hbody]
  split
  · exact absurd rfl (hns "." List.mem_cons_self).ne_dot
  · exact filterMap_step?_plain hns

theorem length_components_relative (hne : ns ≠ []) (hns : PlainPlace ns) :
    (relativePath ns).components.length = ns.length := by
  rw [components_relative hne hns, List.length_map]

theorem compareSteps_names : ∀ ns ms : List String,
    compareSteps (ns.map Component.name) (ms.map Component.name) = .lt ↔
      namesLe ns ms = true ∧ ns ≠ ms
  | [], [] => by simp [compareSteps]
  | [], _ :: _ => by simp [compareSteps, namesLe]
  | _ :: _, [] => by simp [compareSteps, namesLe]
  | n :: ns, m :: ms => by
    rw [List.map_cons, List.map_cons, compareSteps, Component.compare, compareOfLessAndEq]
    by_cases hnm : n = m
    · subst hnm
      rw [if_neg (lt_irrefl n), if_pos rfl, namesLe_cons_self, Ordering.eq_then,
        compareSteps_names ns ms]
      simp
    · rw [namesLe_cons_of_ne hnm, if_neg hnm]
      by_cases hlt : n < m
      · simp [hlt, hnm]
      · simp [hlt]

/-- Relative paths compare as the names do that lead to them. -/
theorem compare_relative (hns : PlainPlace ns) (hms : PlainPlace ms) (hn : ns ≠ [])
    (hm : ms ≠ []) : (relativePath ns).compare (relativePath ms) = .lt ↔
      namesLe ns ms = true ∧ ns ≠ ms := by
  rw [compare, components_relative hn hns, components_relative hm hms, compareSteps_names]

/-- The bytes of the texts are in the other order. -/
example : namesLe ["src", "lib"] ["src-gen"] = true ∧ "src-gen" < "src/lib" := by decide

/-- One path has fewer steps than the other, or as many and comes first. -/
def Shallower (p q : Path) : Prop :=
  p.components.length < q.components.length ∨
    p.components.length = q.components.length ∧ p.compare q = .lt

theorem shallower_relative (hns : PlainPlace ns) (hms : PlainPlace ms) (hn : ns ≠ [])
    (hm : ms ≠ []) : (relativePath ns).Shallower (relativePath ms) ↔
      FileSystem.shallowerLe ns ms = true ∧ ns ≠ ms := by
  rw [Shallower, length_components_relative hn hns, length_components_relative hm hms,
    compare_relative hns hms hn hm, FileSystem.shallowerLe_iff]
  constructor
  · rintro (hlt | ⟨hlen, hle, hne⟩)
    · exact ⟨Or.inl hlt, fun heq => by simp [heq] at hlt⟩
    · exact ⟨Or.inr ⟨hlen, hle⟩, hne⟩
  · rintro ⟨hlt | ⟨hlen, hle⟩, hne⟩
    · exact Or.inl hlt
    · exact Or.inr ⟨hlen, hle, hne⟩

end Path

end CodeIndex
