import CodeIndex.Proofs.Path.Names
import CodeIndex.Walk

/-!
# Trees

Names lead down a tree, from a directory to what it lists. What they lead to does not depend on the
order in which directories list their entries.

* `Folder.Lists`, `FileTree.LeadsTo` : where things are in a tree;
* `FileTree.failure?` : why a walk that enters a directory fails there;
* `FileTree.WellFormed` : names that can be written, and each once in its directory;
* `FileTree.LeadsTo.exists_dir` : above everything there is a directory;
* `FileTree.Reordered` : other orders, in which everything is where it was.
-/

namespace CodeIndex

variable {ns ms : List String} {n m : String} {t t' s : FileTree} {f f' : Folder}

/-! ## Where things are -/

/-- The directory lists the tree under the name. -/
inductive Folder.Lists : Folder → String → FileTree → Prop
  | first {n : String} {t : FileTree} {rest : Folder} : Lists (.entry n t rest) n t
  | later {n m : String} {t s : FileTree} {rest : Folder} (h : Lists rest n t) :
      Lists (.entry m s rest) n t

/-- The names lead from one tree down to the other. -/
inductive FileTree.LeadsTo : FileTree → List String → FileTree → Prop
  | here {t : FileTree} : LeadsTo t [] t
  | down {f : Folder} {n : String} {ns : List String} {t s : FileTree} (hl : f.Lists n t)
      (h : LeadsTo t ns s) : LeadsTo (.dir f) (n :: ns) s

/-- Why a directory cannot be read to its end. -/
def Folder.cause? : Folder → Option IoError
  | .done => none
  | .broken cause => some cause
  | .entry _ _ rest => rest.cause?

/-- How a walk that enters a tree at the given path fails there. -/
def FileTree.failure? (place : Path) : FileTree → Option ListingError
  | .shut cause => some ⟨some place, cause⟩
  | .dir folder => folder.cause?.map (⟨none, ·⟩)
  | _ => none

def Folder.names : Folder → List String
  | .entry name _ rest => name :: rest.names
  | _ => []

mutual

/-- Names that can be written, and each once in its directory. -/
def FileTree.WellFormed : FileTree → Prop
  | .dir folder => folder.WellFormed
  | _ => True

def Folder.WellFormed : Folder → Prop
  | .entry name tree rest =>
    PlainName name ∧ name ∉ rest.names ∧ tree.WellFormed ∧ rest.WellFormed
  | _ => True

end

@[simp] theorem Folder.lists_entry : (Folder.entry m s f).Lists n t ↔
    (n = m ∧ t = s) ∨ f.Lists n t := by
  constructor
  · rintro (_ | h)
    · exact Or.inl ⟨rfl, rfl⟩
    · exact Or.inr h
  · rintro (⟨rfl, rfl⟩ | h)
    · exact .first
    · exact .later h

@[simp] theorem Folder.not_lists_done : ¬ Folder.done.Lists n t := nofun

@[simp] theorem Folder.not_lists_broken {cause : IoError} : ¬ (Folder.broken cause).Lists n t :=
  nofun

theorem Folder.Lists.mem_names (h : f.Lists n t) : n ∈ f.names := by
  induction h with
  | first => exact List.mem_cons_self
  | later h ih => exact List.mem_cons_of_mem _ ih

@[simp] theorem FileTree.leadsTo_nil : t.LeadsTo [] s ↔ s = t :=
  ⟨fun h => by cases h; rfl, fun h => h ▸ .here⟩

theorem FileTree.leadsTo_cons : t.LeadsTo (n :: ns) s ↔
    ∃ f u, t = .dir f ∧ f.Lists n u ∧ u.LeadsTo ns s := by
  constructor
  · rintro (_ | ⟨hl, h⟩)
    exact ⟨_, _, rfl, hl, h⟩
  · rintro ⟨f, u, rfl, hl, h⟩
    exact .down hl h

theorem FileTree.leadsTo_append : t.LeadsTo (ns ++ ms) s ↔
    ∃ u, t.LeadsTo ns u ∧ u.LeadsTo ms s := by
  induction ns generalizing t with
  | nil => simp
  | cons n ns ih =>
    simp only [List.cons_append, leadsTo_cons, ih]
    constructor
    · rintro ⟨f, u, rfl, hl, v, hv, h⟩
      exact ⟨v, ⟨f, u, rfl, hl, hv⟩, h⟩
    · rintro ⟨v, ⟨f, u, rfl, hl, hv⟩, h⟩
      exact ⟨f, u, rfl, hl, v, hv, h⟩

/-- Above everything there is a directory. -/
theorem FileTree.LeadsTo.exists_dir (h : t.LeadsTo ns s) (hms : ms <+: ns) (hne : ms ≠ ns) :
    ∃ f, t.LeadsTo ms (.dir f) := by
  obtain ⟨rest, rfl⟩ := hms
  obtain ⟨u, hu, hrest⟩ := leadsTo_append.mp h
  cases rest with
  | nil => exact absurd (List.append_nil ms).symm hne
  | cons n rest =>
    obtain ⟨f, -, rfl, -⟩ := leadsTo_cons.mp hrest
    exact ⟨f, hu⟩

theorem Folder.WellFormed.of_lists (hf : f.WellFormed) (h : f.Lists n t) :
    PlainName n ∧ t.WellFormed := by
  induction h with
  | first => exact ⟨hf.1, hf.2.2.1⟩
  | later h ih => exact ih hf.2.2.2

theorem FileTree.WellFormed.plainPlace (ht : t.WellFormed) (h : t.LeadsTo ns s) :
    PlainPlace ns := by
  induction h with
  | here => exact plainPlace_nil
  | down hl h ih =>
    obtain ⟨hn, hu⟩ := Folder.WellFormed.of_lists ht hl
    exact plainPlace_cons.mpr ⟨hn, ih hu⟩

/-! ## Other orders -/

mutual

/-- The same tree, with directories that list their entries in another order. -/
inductive FileTree.Reordered : FileTree → FileTree → Prop
  | same {t : FileTree} : FileTree.Reordered t t
  | dir {f f' : Folder} (h : Folder.Reordered f f') : FileTree.Reordered (.dir f) (.dir f')

inductive Folder.Reordered : Folder → Folder → Prop
  | same {f : Folder} : Folder.Reordered f f
  | entry {n : String} {t t' : FileTree} {f f' : Folder} (ht : FileTree.Reordered t t')
      (hf : Folder.Reordered f f') : Folder.Reordered (.entry n t f) (.entry n t' f')
  | swap {n m : String} {t s : FileTree} {f : Folder} :
      Folder.Reordered (.entry n t (.entry m s f)) (.entry m s (.entry n t f))
  | trans {f g h : Folder} (hfg : Folder.Reordered f g) (hgh : Folder.Reordered g h) :
      Folder.Reordered f h

end

mutual

theorem FileTree.Reordered.symm : ∀ {t t' : FileTree}, t.Reordered t' → t'.Reordered t
  | _, _, .same => .same
  | _, _, .dir h => .dir h.symm

theorem Folder.Reordered.symm : ∀ {f f' : Folder}, f.Reordered f' → f'.Reordered f
  | _, _, .same => .same
  | _, _, .entry ht hf => .entry ht.symm hf.symm
  | _, _, .swap => .swap
  | _, _, .trans hfg hgh => .trans hgh.symm hfg.symm

end

theorem FileTree.Reordered.trans {u : FileTree} : t.Reordered t' → t'.Reordered u → t.Reordered u
  | .same, h => h
  | .dir h, .same => .dir h
  | .dir h, .dir h' => .dir (h.trans h')

theorem Folder.Reordered.cause?_eq : ∀ {f f' : Folder}, f.Reordered f' → f'.cause? = f.cause?
  | _, _, .same => rfl
  | _, _, .entry _ hf => hf.cause?_eq
  | _, _, .swap => rfl
  | _, _, .trans hfg hgh => hgh.cause?_eq.trans hfg.cause?_eq

theorem Folder.Reordered.names_perm : ∀ {f f' : Folder}, f.Reordered f' → f'.names.Perm f.names
  | _, _, .same => .refl _
  | _, _, .entry _ hf => hf.names_perm.cons _
  | _, _, .swap => .swap _ _ _
  | _, _, .trans hfg hgh => hgh.names_perm.trans hfg.names_perm

theorem Folder.Reordered.exists_lists : ∀ {f f' : Folder} {t : FileTree}, f.Reordered f' →
    f.Lists n t → ∃ t', f'.Lists n t' ∧ t.Reordered t'
  | _, _, t, .same, hl => ⟨t, hl, .same⟩
  | _, _, _, .entry ht _, .first => ⟨_, .first, ht⟩
  | _, _, _, .entry _ hf, .later hl => by
    obtain ⟨t', hl', ht'⟩ := hf.exists_lists hl
    exact ⟨t', .later hl', ht'⟩
  | _, _, t, .swap, hl => by
    refine ⟨t, ?_, .same⟩
    simp only [lists_entry] at hl ⊢
    exact or_left_comm.mp hl
  | _, _, _, .trans hfg hgh, hl => by
    obtain ⟨u, hu, htu⟩ := hfg.exists_lists hl
    obtain ⟨v, hv, huv⟩ := hgh.exists_lists hu
    exact ⟨v, hv, htu.trans huv⟩

namespace FileTree.Reordered

theorem kind_eq (h : t.Reordered t') : t'.kind = t.kind := by
  cases h <;> rfl

theorem failure?_eq (h : t.Reordered t') (place : Path) : t'.failure? place = t.failure? place := by
  cases h with
  | same => rfl
  | dir h => rw [failure?, failure?, h.cause?_eq]

/-- The same is found by the same names. -/
theorem exists_leadsTo (ht : t.Reordered t') (h : t.LeadsTo ns s) :
    ∃ s', t'.LeadsTo ns s' ∧ s.Reordered s' := by
  induction h generalizing t' with
  | here => exact ⟨t', .here, ht⟩
  | down hl h ih =>
    cases ht with
    | same => exact ⟨_, .down hl h, .same⟩
    | dir hf =>
      obtain ⟨u, hu, hreordered⟩ := hf.exists_lists hl
      obtain ⟨s', hs', hs⟩ := ih hreordered
      exact ⟨s', .down hu hs', hs⟩

end FileTree.Reordered

mutual

theorem FileTree.Reordered.wellFormed : ∀ {t t' : FileTree}, t.Reordered t' → t.WellFormed →
    t'.WellFormed
  | _, _, .same, h => h
  | _, _, .dir hf, h => Folder.Reordered.wellFormed hf h

theorem Folder.Reordered.wellFormed : ∀ {f f' : Folder}, f.Reordered f' → f.WellFormed →
    f'.WellFormed
  | _, _, .same, h => h
  | _, _, .entry ht hf, ⟨hn, hnot, htw, hfw⟩ =>
    ⟨hn, fun hmem => hnot (hf.names_perm.mem_iff.mp hmem), ht.wellFormed htw, hf.wellFormed hfw⟩
  | _, _, .swap, ⟨hn, hnot, htw, hm, hmot, hsw, hfw⟩ => by
    simp only [Folder.names, List.mem_cons, not_or] at hnot
    refine ⟨hm, ?_, hsw, hn, hnot.2, htw, hfw⟩
    simp only [Folder.names, List.mem_cons, not_or]
    exact ⟨Ne.symm hnot.1, hmot⟩
  | _, _, .trans hfg hgh, h => hgh.wellFormed (hfg.wellFormed h)

end

end CodeIndex
