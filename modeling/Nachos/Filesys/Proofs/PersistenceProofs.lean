import Nachos.Filesys.Proofs.CreateProofs

/-!
# Proofs: what a directory file keeps

The table that `WriteBack` has written is the one that `FetchFrom` reads, through every object of the
directory.
-/

namespace Nachos.Filesys

open Foundations Resumption

/-- The first `n` entries of a directory, or all if there are fewer. -/
def Directory.truncate (d : Directory) (n : Nat) : Directory where
  tableSize := min n d.tableSize
  table := d.table.take (min n d.tableSize * dirEntrySize)
  length_table := by
    rw [List.length_take, d.length_table]
    exact Nat.min_eq_left (Nat.mul_le_mul_right _ (Nat.min_le_right _ _))

/-- `FetchFrom` with `cantDirEntries`: the number of entries in the file, which is the size of the
directory afterwards. -/
def Directory.fetchEntries (d : Directory) (f : FileId) : Fs (Nat × Directory) := do
  let bs ← read f (d.tableSize * dirEntrySize) true
  let tableSize := bs.length / dirEntrySize
  return (tableSize, (d.overlay bs).truncate tableSize)

/-- The object `f` is open for the directory at `s` with the headers `c`, and its write lock is free. -/
structure OpenDirectory (w : World) (own : Nat → Option Nat) (m : Bitmap) (f : FileId) (s : Nat)
    (c : List Nat) : Prop where
  inv : WriteInv w own m f s c
  full : Full w.disk c
  handle : (w.files f).map OpenFile.sector = some s
  lock : ∃ l, (w.table s).writeLock = some l ∧ w.locks l = some { lockOwner := none }

/-- `FetchFrom` reads the table of `dir` through the objects of the file at `s`, into every directory
that is large enough, as long as the disk stays as it is. -/
def Keeps (s : Nat) (dir : Directory) (w : World) : Prop :=
  ∀ (w' : World) (g : FileId) (d : Directory), w'.disk = w.disk →
    (w'.files g).map OpenFile.sector = some s → dir.tableSize ≤ d.tableSize →
    d.tableSize * dirEntrySize < 2 ^ 32 → (d.fetchEntries g).Returns w' fun r _ =>
      r.1 = dir.tableSize ∧ r.2.tableSize = dir.tableSize ∧ r.2.table = dir.table

section Persistence

variable {w : World} {own : Nat → Option Nat} {m : Bitmap} {s : Nat} {c : List Nat} {f : FileId}
  {me : Tid} {dir : Directory}

/-- A table at the beginning of the file, with less than an entry behind it, is read back. -/
theorem keeps_of_content {u : List UInt8} (hlayout : Layout w.disk own) (hfile : FileOk w.disk own s c)
    (hcontent : content w.disk c = dir.table ++ u) (hu : u.length < dirEntrySize)
    (hpos : 0 < dir.tableSize) : Keeps s dir w := by
  intro w' g d hdisk hg hsize hlt
  obtain ⟨file, hfileg, hsector⟩ := Option.map_eq_some_iff.mp hg
  have hdpos : 0 < d.tableSize * dirEntrySize := Nat.mul_pos (Nat.lt_of_lt_of_le hpos hsize) (by decide)
  obtain ⟨file', hread, -⟩ := run_readTable (w := w') (by rw [hdisk]; exact hlayout)
    (by rw [hdisk]; exact hfile) hfileg hsector hdpos hlt
  rw [hdisk, hcontent] at hread
  have hlen := dir.length_table
  have hle : dir.tableSize * dirEntrySize ≤ d.tableSize * dirEntrySize := Nat.mul_le_mul_right _ hsize
  -- the bytes that are read are the table and a part of an entry
  generalize hbs : (dir.table ++ u).take (d.tableSize * dirEntrySize) = bs at hread
  have hbs' : bs = dir.table ++ u.take (d.tableSize * dirEntrySize - dir.table.length) := by
    rw [← hbs, List.take_append, List.take_of_length_le (by omega)]
  have hbslen : bs.length ≤ d.table.length := by
    rw [← hbs, d.length_table]
    exact List.length_take_le _ _
  have hnum : bs.length / dirEntrySize = dir.tableSize := by
    have hpart : (u.take (d.tableSize * dirEntrySize - dir.table.length)).length < dirEntrySize :=
      Nat.lt_of_le_of_lt (List.length_take_le' _ _) hu
    rw [hbs', List.length_append, hlen, Nat.add_comm, Nat.add_mul_div_right _ _ (by decide),
      Nat.div_eq_of_lt (by rw [hlen] at hpart; exact hpart), Nat.zero_add]
  have hmin : min dir.tableSize d.tableSize = dir.tableSize := Nat.min_eq_left hsize
  refine ⟨(bs.length / dirEntrySize, (d.overlay bs).truncate (bs.length / dirEntrySize)),
    { w' with files := Function.update w'.files g (some file') }, ?_, hnum, ?_, ?_⟩
  · rw [Directory.fetchEntries, run_bind, hread, Option.bind_some]
    rw [hdisk]
    rfl
  · show min (bs.length / dirEntrySize) d.tableSize = _
    rw [hnum, hmin]
  · show (poke d.table 0 bs).take (min (bs.length / dirEntrySize) d.tableSize * dirEntrySize) = _
    rw [hnum, hmin, poke_eq_splice (by omega), ← hlen, splice, List.take_zero, List.nil_append, hbs',
      List.append_assoc, List.take_left]

/-- The table that `WriteBack` writes is kept. -/
theorem writeBack_keeps (h : OpenDirectory w own m f s c) (hpos : 0 < dir.tableSize)
    (hstored : (content w.disk c).length / dirEntrySize ≤ dir.tableSize)
    (hroom : needChain w.disk c dir.table.length ≤ m.countClear) :
    (dir.writeBack me f).Returns w fun _ w' => Keeps s dir w' ∧
      (w'.files f).map OpenFile.sector = some s ∧ ∀ g, g ≠ f → w'.files g = w.files g := by
  obtain ⟨file, hfile, hsector⟩ := Option.map_eq_some_iff.mp h.handle
  obtain ⟨l, hl, hfree⟩ := h.lock
  have hs : file.sector < numSectors := by
    rw [hsector]
    exact h.inv.header_lt h.inv.file.chain.start_mem
  have hdata : dir.table ≠ [] := by
    apply List.ne_nil_of_length_pos
    rw [dir.length_table]
    exact Nat.mul_pos hpos (by decide)
  obtain ⟨post, hc, -⟩ := h.inv.file.chain
  have hinv : WriteInv w own m f s ([] ++ s :: post) := by
    rw [List.nil_append, ← hc]
    exact h.inv
  obtain ⟨w', own', m', c', file', r, hrun, hw⟩ := run_write me true hinv hfile
    (show (rewound file true).currentSector = s from hsector) (show _ = 0 from rfl) (Nat.zero_le _) hs
    (by rw [hsector]; exact hl) hfree hdata
  rw [hc, ← needWrite_eq_needChain] at hroom
  have hr := hw.room hroom
  obtain ⟨-, pre', post', hc', hcur⟩ := hw.move (by rw [List.nil_append, ← hc]; exact h.full) _ _
    (Cursor.start w.disk s post)
  have hcontent : content w'.disk c' = dir.table ++ (content w.disk c).drop dir.table.length := by
    have := hcur.content_eq
    rw [← hc'] at this
    rw [this, hr, List.nil_append, List.take_length, hc]
  have hrest : ((content w.disk c).drop dir.table.length).length < dirEntrySize := by
    have hlt := Nat.lt_mul_div_succ (content w.disk c).length (show 0 < dirEntrySize by decide)
    have hle : dirEntrySize * ((content w.disk c).length / dirEntrySize + 1) ≤
        dirEntrySize * dir.tableSize + dirEntrySize := Nat.mul_le_mul_left _ (Nat.succ_le_succ hstored)
    have hpos : 0 < dirEntrySize := by decide
    rw [List.length_drop, dir.length_table, Nat.mul_comm dir.tableSize]
    omega
  refine ⟨(), w', ?_, keeps_of_content hw.inv.layout hw.inv.file hcontent hrest hpos, ?_,
    fun g hg => hw.step.world.files_eq g hg⟩
  · rw [Directory.writeBack, run_bind, hrun]
    rfl
  · rw [hw.file_eq, Option.map_some, hw.sector_eq, hsector]

end Persistence

/-- A table of 14 entries, one sector more than a new directory has. -/
def longTable : Directory where
  tableSize := 14
  table := List.replicate 392 1
  length_table := List.length_replicate

theorem freshWorld_openDirectory : OpenDirectory freshWorld freshOwner freshMap 1 1 [1] where
  inv := freshWorld_dirFile.inv
  full := freshWorld_dirFile.full
  handle := rfl
  lock := ⟨1, rfl, rfl⟩

theorem writeBack_keeps_longTable : (Directory.writeBack 7 longTable 1).Returns freshWorld fun _ w' =>
    Keeps 1 longTable w' ∧ (w'.files 1).map OpenFile.sector = some 1 ∧
      ∀ g, g ≠ 1 → w'.files g = freshWorld.files g :=
  writeBack_keeps freshWorld_openDirectory (by decide)
    (by
      rw [show freshWorld.disk = freshDisk from rfl, freshDisk_content, List.length_replicate]
      decide)
    (by
      rw [show freshWorld.disk = freshDisk from rfl, needChain, List.map_singleton, freshDisk_hdrAt_dir,
        longTable.length_table]
      decide +kernel)

end Nachos.Filesys
