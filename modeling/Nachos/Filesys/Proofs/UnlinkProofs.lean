import Nachos.Filesys.Proofs.EntryProofs

/-!
# Proofs: removing an entry

`Remove` in the current directory of a file that nobody has open: its sectors are freed, its entry is
taken out of the directory, and nothing else changes. If the file is open, `Remove` does not return.
-/

namespace Nachos.Filesys

open Foundations Resumption

section Unlink

variable {w w' : World} {own : Nat → Option Nat} {m : Bitmap} {K : Nat → Prop} {objs : List FileId}
  {s t i : Nat} {c : List Nat} {me : Tid} {name : Name} {dir : Directory}

/-- `Remove` returns only if nobody has the file open. -/
theorem removeSector_count {u : Unit} (h : Tidy w)
    (hrun : (removeSector me t name dir).run w = some (u, w')) : (w.table t).count = 0 := by
  obtain ⟨_, w1, hread, hrun⟩ := run_bind_eq_some.mp hrun
  obtain ⟨-, hw1⟩ := readSector_eq hread
  rw [hw1] at hrun
  obtain ⟨_, w2, hmap, hrun⟩ := run_bind_eq_some.mp hrun
  obtain ⟨_, w3, hmodify, hrun⟩ := run_bind_eq_some.mp hrun
  obtain ⟨_, w4, hwait, -⟩ := run_bind_eq_some.mp hrun
  have htidy := (tidy_modifyEntry _ _ _ _ hmodify).tidy ((tidy_fetchFreeMap _ _ _ hmap).tidy h)
  have hbooks : SameBooks w w3 := IsTrans.trans _ _ _ (sameBooks_fetchFreeMap _ _ _ hmap)
    (sameBooks_modifyEntry t (by intro _; rfl) _ _ _ hmodify)
  rw [← hbooks.count_eq]
  exact (waitForClose_count htidy hwait).1

/-- Somebody has the files of the objects open. -/
theorem InOrder.count_pos {f : FileId} (h : InOrder w own m K objs) (hf : f ∈ w.directoryFile :: objs)
    (hs : (books w).sectors f = some s) : 0 < (w.table s).count := by
  have hcount := h.exact.counts_eq s
  change (w.table s).count = _ at hcount
  rw [hcount]
  exact List.countP_pos_iff.mpr ⟨f, List.mem_cons_of_mem _ hf, decide_eq_true hs⟩

/-- What is known after the entry of the file `t` was removed from the current directory. -/
structure EntryRemoved (w : World) (own : Nat → Option Nat) (m : Bitmap) (K : Nat → Prop)
    (objs : List FileId) (s : Nat) (c : List Nat) (name : Name) (t : Nat) (w' : World)
    (own' : Nat → Option Nat) (m' : Bitmap) (c' : List Nat) : Prop where
  inOrder : InOrder w' own' m' K objs
  current : CurrentIs w' s c'
  only : OnlyFiles [s, t] w.disk own w'.disk own'
  gone : ∀ x, own' x ≠ some t
  removes : ∃ i, RemovesEntry (content w.disk c) (content w'.disk c') i name ∧
    entrySector (content w.disk c) i = t
  isPrefix : c <+: c'
  marks : MarksOwned m own → MarksOwned m' own'
  directories : ∀ x, IsDirectory w'.disk (Roots w K) x → IsDirectory w.disk (Roots w K) x ∧ x ≠ t
  files_eq : ∀ f ∈ objs, w'.files f = w.files f
  closed : (w.table t).count = 0

/-- A file that nobody has open is not one of those from which the directories are reached. -/
theorem InOrder.not_root (h : InOrder w own m K objs) (hcur : CurrentIs w s c)
    (hi : Used (content w.disk c) i) (hclosed : (w.table (entrySector (content w.disk c) i)).count = 0) :
    ¬ Roots w K (entrySector (content w.disk c) i) := by
  rintro (hroot | hcurrent | hkept)
  · exact ((h.directoryOk hcur).table.entries i hi).2.2 hroot
  · have hpos := h.count_pos List.mem_cons_self hcurrent
    omega
  · obtain ⟨f, hf, hfs⟩ := h.kept _ hkept
    have hpos := h.count_pos (List.mem_cons_of_mem _ hf) hfs
    omega

theorem InOrder.removeSector {u : Unit} (h : InOrder w own m K objs) (hcur : CurrentIs w s c)
    (hpos : 0 < w.directorySize) (hshows : Shows dir w c) (hi : Used (content w.disk c) i)
    (hname : entryHasName (content w.disk c) i name = true) (hindex : dir.findIndex name = some i)
    (hrun : (removeSector me (entrySector (content w.disk c) i) name dir).run w = some (u, w')) :
    ∃ own' m' c', EntryRemoved w own m K objs s c name (entrySector (content w.disk c) i) w' own' m' c' := by
  have hclosed := removeSector_count h.tidy hrun
  have hnot := h.not_root hcur hi hclosed
  obtain ⟨hown, hne0, -⟩ := (h.directoryOk hcur).table.entries i hi
  have hbalanced : Balanced w' objs := Balanced.same h.exact (sameBooks_removeSector _ _ _ _ _ hrun)
  have hstep := dirStep_removeSector _ _ _ _ _ hrun
  have htidy := tidy_removeSector _ _ _ _ _ hrun
  generalize ht : entrySector (content w.disk c) i = t at hrun hclosed hnot hown hne0 ⊢
  have hst : s ≠ t := by
    rintro rfl
    exact hnot (Or.inr (Or.inl hcur.object))
  obtain ⟨c2, hfile⟩ := h.layout.fileOk hown
  obtain ⟨own', m', c', hremoved⟩ := removeSector_removed (h.dirFile hcur hpos) hfile hst hne0
    (hshows.size_eq.trans hcur.size_eq.symm) hrun
  have htable : (dir.remove name).table = clearEntry (content w.disk c) i := by
    rw [Directory.remove, hindex]
    show clearEntry dir.table i = _
    rw [hshows.table_eq]
  have hcontent : content w'.disk c' = clearEntry (content w.disk c) i := by
    rw [hremoved.content_eq, htable, List.drop_eq_nil_of_le (by rw [length_clearEntry]), List.append_nil]
  have hremoves : RemovesEntry (content w.disk c) (content w'.disk c') i name := ⟨hi, hname, hcontent⟩
  obtain ⟨htree, hdirs⟩ := h.tree.remove h.layout hremoved.only (h.currentDirectory hcur) hcur.chain hst
    hnot hremoved.dirFile.inv.file hremoved.dirFile.full hremoves ht
  have hsize : w'.directorySize = numEntries (content w'.disk c') := by
    rw [hremoved.size_eq, hcur.size_eq, hcontent, numEntries_clearEntry]
  have hkept : ∀ f x, f ∈ objs → (books w).sectors f = some x → own x = some x → own' x = some x := by
    intro f x hf hfx hx
    by_cases hxs : x = s
    · rw [hxs]
      exact hremoved.dirFile.inv.file.own_start
    · refine (hremoved.only.own_iff x x ?_).mpr hx
      have hxt : x ≠ t := by
        rintro rfl
        have hpos := h.count_pos (List.mem_cons_of_mem _ hf) hfx
        omega
      simp [hxs, hxt]
  obtain ⟨h', hcur'⟩ := h.rebuild hcur hremoved.dirFile.toDirHandle hstep hbalanced htidy hsize htree hkept
  exact ⟨own', m', c', h', hcur', hremoved.only, hremoved.gone, ⟨i, hremoves, ht⟩, hremoved.isPrefix,
    hremoved.marks, hdirs, fun f hf => h.sectors_eq hstep hf, hclosed⟩

end Unlink

end Nachos.Filesys
