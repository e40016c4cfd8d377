import Nachos.Filesys.Proofs.CreateProofs
import Nachos.Filesys.Proofs.FrameProofs
import Nachos.Userprog.FilesysSwap
import Nachos.Userprog.Proofs.FrameOwnershipProofs

/-!
# Proofs: pages through the real file system

The swap file that the constructor makes is empty and stays so: `WriteAt` and `ReadAt` do not go past the
end of the header in memory. Whatever was sent to swap, `LoadPage` gives a page of zeros.
-/

namespace Nachos

open Foundations Filesys Resumption

/-! ## The swap file -/

/-- The object `fd` has a header without data in memory, and it is not the current directory. -/
structure EmptyObject (w : World) (fd : FileId) : Prop where
  empty : ∃ file, w.files fd = some file ∧ file.hdr.numBytes = 0
  ne_directory : fd ≠ w.directoryFile
  lt : fd < w.nextFile

section SwapFile

variable {w w' : World} {fd : FileId} {me : Filesys.Tid} {pid : UInt32}

theorem EmptyObject.dirStep (h : EmptyObject w fd) (hstep : DirStep w w') : EmptyObject w' fd where
  empty := by
    rw [hstep.files_eq fd h.ne_directory h.lt]
    exact h.empty
  ne_directory := by
    rw [hstep.directoryFile_eq]
    exact h.ne_directory
  lt := Nat.lt_of_lt_of_le h.lt hstep.nextFile_le

/-- `WriteAt` writes nothing to it. -/
theorem EmptyObject.writeAt (h : EmptyObject w fd) {data : List UInt8} (hdata : data ≠ []) (pos : Nat) :
    (writeAt fd data pos).run w = some (0, w) := by
  obtain ⟨file, hfile, hempty⟩ := h.empty
  have hlen : 0 < data.length := List.length_pos_iff.mpr hdata
  simp only [Filesys.writeAt, run_bind, run_assert, decide_eq_true hlen, if_true, Option.bind_some,
    run_getFile hfile, hempty]
  rw [if_pos (Nat.zero_le pos)]
  rfl

/-- `ReadAt` reads nothing from it. -/
theorem EmptyObject.readAt (h : EmptyObject w fd) {n : Nat} (hn : 0 < n) (pos : Nat) :
    (readAt fd n pos).run w = some ([], w) := by
  obtain ⟨file, hfile, hempty⟩ := h.empty
  simp only [Filesys.readAt, run_bind, run_assert, decide_eq_true hn, if_true, Option.bind_some,
    run_getFile hfile, hempty]
  rw [if_pos (Nat.zero_le pos)]
  rfl

/-- The name of a swap file is not an absolute path. -/
theorem nameSwapPid_relative (pid : UInt32) : (FsVm.nameSwapPid pid).head? ≠ some slash := by
  show some (83 : UInt8) ≠ some slash
  decide

theorem dirStep_newSwapFile (me : Filesys.Tid) (pid : UInt32) : (FsVm.newSwapFile me pid).Moves DirStep :=
  (dirStep_remove (nameSwapPid_relative pid)).bind fun _ =>
    (dirStep_create (nameSwapPid_relative pid)).bind fun _ => (Moves.assert _).bind fun _ =>
      dirStep_openFile.bind fun _ => Moves.ofOption _

/-- The constructor opens an empty file. -/
theorem newSwapFile_empty (h : FsReady w)
    (hrun : (FsVm.newSwapFile me pid).run w = some (fd, w')) : EmptyObject w' fd := by
  obtain ⟨own, m, s, c, hdir, hentries, hroom, hlt⟩ := h
  have hname := nameSwapPid_relative pid
  rw [FsVm.newSwapFile] at hrun
  obtain ⟨removed, w1, hremove, hrun1⟩ := run_bind_eq_some.mp hrun
  obtain ⟨created, w2, hcreate, hrun2⟩ := run_bind_eq_some.mp hrun1
  obtain ⟨_, w3, hassert, hrun3⟩ := run_bind_eq_some.mp hrun2
  obtain ⟨o, w4, hopen, hret⟩ := run_bind_eq_some.mp hrun3
  have hstep := IsTrans.trans _ _ _ (dirStep_remove hname _ _ _ hremove)
    (dirStep_create hname _ _ _ hcreate)
  cases created with
  | false => cases hassert
  | true =>
  cases hassert
  -- the old file of this name is gone
  rw [remove, resolvePath_relative hname] at hremove
  obtain ⟨own1, m1, c1, hdir1, hfree⟩ := removeFile_dirFile hdir hentries hremove
  have hroom1 : 3 ≤ m1.countClear ∨
      ∃ i, i < w1.directorySize ∧ entryInUse (dirTable w1 c1) i = false := by
    rcases hfree with rfl | hfree
    · exact Or.inl hroom
    · exact Or.inr hfree
  -- a new one is made, and found when it is opened
  obtain ⟨w5, w6, hq5, hmake, hrelease⟩ := create_relative hname hcreate
  have hroom5 : 3 ≤ m1.countClear ∨
      ∃ i, i < w5.directorySize ∧ entryInUse (dirTable w5 c1) i = false := by
    rw [hq5.directorySize_eq, hq5.dirTable_eq]
    exact hroom1
  obtain ⟨own2, m2, c2, t, hmade⟩ := createFile_created (hdir1.quiet hq5) hroom5 hmake
  have hmade2 := hmade.release hrelease
  obtain ⟨file, rfl, hfile, hempty, hnext, hdirectory⟩ := openFile_created hmade2 hopen
  cases hret
  have hlt2 : w2.directoryFile < w2.nextFile := by
    rw [hstep.directoryFile_eq]
    exact Nat.lt_of_lt_of_le hlt hstep.nextFile_le
  refine ⟨⟨file, hfile, hempty⟩, ?_, ?_⟩
  · rw [hdirectory]
    exact Nat.ne_of_gt hlt2
  · rw [hnext]
    exact Nat.lt_succ_self _

end SwapFile

/-! ## Swap maps -/

namespace Vm

/-- The swap maps of the address spaces are the same. -/
def SameSwapMaps (vm vm' : Vm) : Prop :=
  ∀ id, (vm'.spaces id).map AddressSpace.swapMap = (vm.spaces id).map AddressSpace.swapMap

section SameSwapMaps

variable {vm vm' vm'' : Vm} {this : SpaceId} {vpn frame : Nat}

theorem SameSwapMaps.refl (vm : Vm) : SameSwapMaps vm vm := fun _ => rfl

theorem SameSwapMaps.trans (h : SameSwapMaps vm vm') (h' : SameSwapMaps vm' vm'') :
    SameSwapMaps vm vm'' := fun id => (h' id).trans (h id)

/-- Another page table. -/
theorem sameSwapMaps_setPageTable {pageTable : List TranslationEntry}
    (h : vm.setPageTable this pageTable = some vm') : SameSwapMaps vm vm' := by
  simp only [setPageTable, Option.bind_eq_bind, Option.bind_eq_some_iff, Option.pure_def,
    Option.some.injEq] at h
  obtain ⟨sp, hsp, rfl⟩ := h
  intro id
  rw [spaces_setSpace]
  split
  · rename_i hid
    rw [hid, hsp]
    rfl
  · rfl

theorem sameSwapMaps_setEntry {entry : TranslationEntry} (h : vm.setEntry this vpn entry = some vm') :
    SameSwapMaps vm vm' := by
  simp only [setEntry, Option.bind_eq_bind, Option.bind_eq_some_iff] at h
  obtain ⟨sp, -, _, -, h⟩ := h
  exact sameSwapMaps_setPageTable h

theorem sameSwapMaps_moveTlbEntry (h : vm.moveTlbEntry this vpn frame = some vm') :
    SameSwapMaps vm vm' := by
  unfold moveTlbEntry at h
  split at h
  · simp only [Option.bind_eq_bind, Option.bind_eq_some_iff, Option.pure_def, Option.some.injEq] at h
    obtain ⟨e, -, vm1, hset, rfl⟩ := h
    exact (sameSwapMaps_setEntry hset).trans fun _ => rfl
  · cases h
    exact SameSwapMaps.refl vm

theorem UseEq.sameSwapMaps (h : UseEq vm vm') : SameSwapMaps vm vm' := by
  intro id
  have hid := congrArg (Option.map AddressSpace.swapMap) (h.spaces id)
  rw [Option.map_map, Option.map_map] at hid
  exact hid

theorem sameSwapMaps_saveState (h : vm.saveState this = some vm') : SameSwapMaps vm vm' := by
  simp only [saveState, Option.bind_eq_bind, Option.bind_eq_some_iff] at h
  obtain ⟨sp, -, ⟨tlb, pageTable⟩, -, h⟩ := h
  have hset : SameSwapMaps (vm.setTlb tlb) vm' := sameSwapMaps_setPageTable h
  exact hset

theorem sameSwapMaps_switchTo {next : Option SpaceId} (h : vm.switchTo next = some vm') :
    SameSwapMaps vm vm' := by
  simp only [switchTo, Option.bind_eq_bind, Option.bind_eq_some_iff] at h
  obtain ⟨vm1, hsave, h⟩ := h
  have h1 : SameSwapMaps vm vm1 := by
    unfold saveCurrent at hsave
    split at hsave
    · exact sameSwapMaps_saveState hsave
    · cases hsave
      exact SameSwapMaps.refl vm
  refine h1.trans ?_
  cases next with
  | none =>
    cases h
    exact SameSwapMaps.refl vm1
  | some id =>
    simp only [Option.bind_eq_some_iff, Option.pure_def, Option.some.injEq] at h
    obtain ⟨_, -, rfl⟩ := h
    exact SameSwapMaps.refl vm1

theorem sameSwapMaps_installEntry (h : vm.installEntry this vpn = some vm') : SameSwapMaps vm vm' := by
  simp only [installEntry, Option.bind_eq_bind, Option.bind_eq_some_iff, Option.pure_def,
    Option.some.injEq] at h
  obtain ⟨old, -, vm1, hback, entry, -, rfl⟩ := h
  have h1 : SameSwapMaps vm vm1 := by
    unfold writeBack at hback
    split at hback
    · exact sameSwapMaps_setEntry hback
    · cases hback
      exact SameSwapMaps.refl vm
  exact h1

end SameSwapMaps

end Vm

/-! ## The invariant -/

/-- The address space `id` exists, its swap file is empty, and the pages that were sent there are marked
in its swap map, as well as those of a set `pages`. -/
structure SwapInv (id : SpaceId) (pages : Nat → Prop) (sys : FsVm) : Prop where
  object : ∃ fd, sys.swapFD id = some fd ∧ EmptyObject sys.world fd
  marked : ∃ swapMap, (sys.vm.spaces id).map AddressSpace.swapMap = some swapMap ∧
    ∀ v, pages v ∨ sys.evicted id v ≠ none → swapMap.test v = true

namespace SwapInv

variable {id : SpaceId} {pages : Nat → Prop} {sys sys' : FsVm} {policy : PrPolicy} {this : SpaceId}
  {vpn frame choice : Nat}

theorem setVm (h : SwapInv id pages sys) {vm : Vm} (hvm : Vm.SameSwapMaps sys.vm vm) :
    SwapInv id pages { sys with vm := vm } where
  object := h.object
  marked := by
    obtain ⟨swapMap, hmap, htest⟩ := h.marked
    exact ⟨swapMap, (hvm id).trans hmap, htest⟩

theorem setWorld (h : SwapInv id pages sys) {w : World} (hw : DirStep sys.world w) :
    SwapInv id pages { sys with world := w } where
  object := by
    obtain ⟨fd, hfd, hobject⟩ := h.object
    exact ⟨fd, hfd, hobject.dirStep hw⟩
  marked := h.marked

/-- A page goes to a swap file, of `id` or of another address space. -/
theorem writeToSwap (h : SwapInv id pages sys) {space : Option SpaceId}
    (hs : sys.writeToSwap space vpn frame = some sys') : SwapInv id pages sys' := by
  simp only [FsVm.writeToSwap, Option.bind_eq_bind, Option.bind_eq_some_iff, Option.pure_def,
    Option.some.injEq] at hs
  obtain ⟨owner, -, osp, hosp, fd, -, ⟨n, w⟩, hwrite, _, hguard, rfl⟩ := hs
  have hbits : vpn < osp.swapMap.numBits := by simpa using hguard
  have hw : DirStep sys.world w := dirStep_of_onlyFile
    (fun f => (along_writeAt (allows_onlyFile f) fd _ _).moves) _ _ _ hwrite
  refine ⟨(h.setWorld hw).object, ?_⟩
  obtain ⟨swapMap, hmap, htest⟩ := h.marked
  dsimp only
  rw [Vm.spaces_setSpace]
  by_cases hid : id = owner
  · subst hid
    rw [hosp] at hmap
    cases hmap
    rw [if_pos rfl]
    refine ⟨_, rfl, ?_⟩
    intro v hv
    rw [Bitmap.test_mark hbits]
    by_cases hvv : v = vpn
    · simp [hvv]
    · rw [Function.update_self, Function.update_of_ne hvv] at hv
      rw [htest v hv, Bool.or_true]
  · rw [if_neg hid]
    refine ⟨swapMap, hmap, ?_⟩
    intro v hv
    rw [Function.update_of_ne hid] at hv
    exact htest v hv

theorem escribirFrameenSwap (h : SwapInv id pages sys) (hs : sys.escribirFrameenSwap this frame = some sys') :
    SwapInv id pages sys' := by
  simp only [FsVm.escribirFrameenSwap, Option.bind_eq_bind, Option.bind_eq_some_iff, Option.pure_def,
    Option.some.injEq] at hs
  obtain ⟨vpn, -, space, -, vm1, hmove, entry, -, hs⟩ := hs
  have h1 := h.setVm (Vm.sameSwapMaps_moveTlbEntry hmove)
  split at hs
  · simp only [Option.bind_eq_some_iff, Option.some.injEq] at hs
    obtain ⟨sys2, hwrite, vm3, hset, rfl⟩ := hs
    exact (h1.writeToSwap hwrite).setVm (Vm.sameSwapMaps_setEntry hset)
  · simp only [Option.bind_some, Option.bind_eq_some_iff, Option.some.injEq] at hs
    obtain ⟨vm3, hset, rfl⟩ := hs
    exact h1.setVm (Vm.sameSwapMaps_setEntry hset)

theorem obtainFrame (h : SwapInv id pages sys)
    (hs : sys.obtainFrame policy this vpn choice = some (frame, sys')) : SwapInv id pages sys' := by
  unfold FsVm.obtainFrame at hs
  split at hs
  · cases hs
    exact h.setVm (Vm.SameSwapMaps.refl sys.vm)
  · simp only [FsVm.sustitucionEnSwapDeMarcoVictima, Option.bind_eq_bind, Option.bind_eq_some_iff,
      Option.pure_def, Option.some.injEq] at hs
    obtain ⟨⟨victim, vm1⟩, hpick, sys2, hwrite, paginaMapa, -, hs⟩ := hs
    cases hs
    have h1 := h.setVm (Vm.useEq_pickVictim hpick).sameSwapMaps
    exact (h1.escribirFrameenSwap hwrite).setVm (Vm.SameSwapMaps.refl sys2.vm)

theorem fillFrame (h : SwapInv id pages sys) {dirPhy : Nat}
    (hs : sys.fillFrame this vpn dirPhy = some sys') : SwapInv id pages sys' := by
  simp only [FsVm.fillFrame, Option.bind_eq_bind, Option.bind_eq_some_iff, Option.pure_def,
    Option.some.injEq] at hs
  obtain ⟨space, -, _, -, ⟨mem, w⟩, hfill, rfl⟩ := hs
  have hw : DirStep sys.world w := by
    unfold FsVm.pageContents at hfill
    split at hfill
    · simp only [Option.bind_eq_bind, Option.bind_eq_some_iff, Option.pure_def, Option.some.injEq] at hfill
      obtain ⟨fd, -, ⟨bs, w1⟩, hread, hret⟩ := hfill
      cases hret
      exact dirStep_of_onlyFile (fun f => (along_readAt (allows_onlyFile f) fd _ _).moves) _ _ _ hread
    · simp only [Option.bind_eq_bind, Option.bind_eq_some_iff, Option.pure_def, Option.some.injEq] at hfill
      obtain ⟨mem1, -, hret⟩ := hfill
      cases hret
      exact refl (r := DirStep) sys.world
  exact (h.setWorld hw).setVm fun _ => rfl

theorem loadPage (h : SwapInv id pages sys) (hs : sys.loadPage policy this vpn choice = some sys') :
    SwapInv id pages sys' := by
  simp only [FsVm.loadPage, Option.bind_eq_bind, Option.bind_eq_some_iff] at hs
  obtain ⟨entry, -, _, -, ⟨frame, sys1⟩, hframe, entry1, -, vm2, hset, hfill⟩ := hs
  exact ((h.obtainFrame hframe).setVm (Vm.sameSwapMaps_setEntry hset)).fillFrame hfill

theorem pageFaultExeption (h : SwapInv id pages sys)
    (hs : sys.pageFaultExeption policy vpn choice = some sys') : SwapInv id pages sys' := by
  simp only [FsVm.pageFaultExeption, Option.bind_eq_bind, Option.bind_eq_some_iff, Option.pure_def,
    Option.some.injEq] at hs
  obtain ⟨this, -, entry, -, sys1, hload, vm2, hinstall, rfl⟩ := hs
  have h1 : SwapInv id pages sys1 := by
    unfold FsVm.ensureLoaded at hload
    split at hload
    · cases hload
      exact h
    · exact h.loadPage hload
  exact h1.setVm (Vm.sameSwapMaps_installEntry hinstall)

theorem access (h : SwapInv id pages sys) {addr : Nat} {size : AccessSize} {value : Option Word}
    (hs : sys.access policy addr size value choice = some sys') : SwapInv id pages sys' := by
  unfold FsVm.access at hs
  split at hs
  · split at hs
    · cases hs
      exact h.setVm (Vm.SameSwapMaps.refl sys.vm)
    · exact h.pageFaultExeption hs
    · cases hs
  · split at hs
    · cases hs
      exact h.setVm (Vm.SameSwapMaps.refl sys.vm)
    · exact h.pageFaultExeption hs
    · cases hs

/-- Another address space is made, with a swap file of its own. -/
theorem create (h : SwapInv id pages sys) {me : Filesys.Tid} {id' : SpaceId} {pid : UInt32} {exe : Executable}
    {heap : Nat → Word} (hs : sys.create me id' pid exe heap = some sys') : SwapInv id pages sys' := by
  simp only [FsVm.create, Vm.create, Option.bind_eq_bind, Option.bind_eq_some_iff, Option.pure_def,
    Option.some.injEq] at hs
  obtain ⟨vm, ⟨_, hguard, rfl⟩, ⟨fd, w⟩, hnew, rfl⟩ := hs
  obtain ⟨swapMap, hmap, htest⟩ := h.marked
  have hne : id ≠ id' := by
    rintro rfl
    have hnone : sys.vm.spaces id = none := by simpa using hguard
    rw [hnone] at hmap
    cases hmap
  have hw := (h.setWorld (dirStep_newSwapFile _ _ _ _ _ hnew)).object
  refine ⟨?_, swapMap, ?_, ?_⟩
  · dsimp only at hw ⊢
    rw [Function.update_of_ne hne]
    exact hw
  · dsimp only
    rw [Vm.spaces_setSpace, if_neg hne]
    exact hmap
  · intro v hv
    dsimp only at hv
    rw [Function.update_of_ne hne] at hv
    exact htest v hv

/-- Another address space is destroyed. -/
theorem destroy (h : SwapInv id pages sys) {id' : SpaceId} (hne : id ≠ id')
    (hs : sys.destroy id' = some sys') : SwapInv id pages sys' := by
  simp only [FsVm.destroy, Vm.destroy, Option.bind_eq_bind, Option.bind_eq_some_iff, Option.pure_def,
    Option.some.injEq] at hs
  obtain ⟨vm, ⟨_, -, space, -, paginaMapa, -, rfl⟩, rfl⟩ := hs
  obtain ⟨swapMap, hmap, htest⟩ := h.marked
  refine ⟨h.object, swapMap, ?_, htest⟩
  dsimp only
  rw [Function.update_of_ne hne]
  exact hmap

theorem step (h : SwapInv id pages sys) {event : FsVm.Event} (hne : event ≠ .destroy id)
    (hs : sys.step policy event = some sys') : SwapInv id pages sys' := by
  cases event with
  | create me id' pid exe heap => exact h.create hs
  | access addr size value choice => exact h.access hs
  | switchTo next =>
    simp only [FsVm.step, Option.map_eq_some_iff] at hs
    obtain ⟨vm, hswitch, rfl⟩ := hs
    exact h.setVm (Vm.sameSwapMaps_switchTo hswitch)
  | destroy id' =>
    refine h.destroy ?_ hs
    rintro rfl
    exact hne rfl

/-- The constructor establishes the invariant. -/
theorem of_create {me : Filesys.Tid} {pid : UInt32} {exe : Executable} {heap : Nat → Word}
    (hready : FsReady sys.world) (hs : sys.create me id pid exe heap = some sys') :
    SwapInv id (fun _ => False) sys' := by
  simp only [FsVm.create, Vm.create, Option.bind_eq_bind, Option.bind_eq_some_iff, Option.pure_def,
    Option.some.injEq] at hs
  obtain ⟨vm, ⟨_, -, rfl⟩, ⟨fd, w⟩, hnew, rfl⟩ := hs
  refine ⟨⟨fd, Function.update_self .., newSwapFile_empty hready hnew⟩,
    (AddressSpace.new exe (fun _ => 0) heap).swapMap, ?_, ?_⟩
  · dsimp only
    rw [Vm.spaces_setSpace, if_pos rfl]
    rfl
  · intro v hv
    dsimp only at hv
    rw [Function.update_self] at hv
    simp at hv

/-! ## Loading -/

/-- `LoadPage` fills the frame of a page that was sent to swap with zeros. -/
theorem loadPage_page (h : SwapInv id pages sys) {v : Nat} (hv : sys.evicted id v ≠ none)
    (hs : sys.loadPage policy id v choice = some sys') :
    sys'.page id v = some (List.replicate pageSize 0) := by
  have hset : SwapInv id (· = v) sys := by
    obtain ⟨swapMap, hmap, htest⟩ := h.marked
    refine ⟨h.object, swapMap, hmap, ?_⟩
    rintro u (rfl | hu)
    · exact htest u (Or.inr hv)
    · exact htest u (Or.inr hu)
  simp only [FsVm.loadPage, Option.bind_eq_bind, Option.bind_eq_some_iff] at hs
  obtain ⟨entry, -, _, -, ⟨frame, sys1⟩, hframe, entry1, -, vm2, hentry, hfill⟩ := hs
  have h1 := (hset.obtainFrame hframe).setVm (Vm.sameSwapMaps_setEntry hentry)
  obtain ⟨fd, hfd, hobject⟩ := h1.object
  obtain ⟨swapMap, hmap, htest⟩ := h1.marked
  -- the entry that `LoadPage` has set
  have hget : vm2.getEntry id v = some { entry1 with physicalPage := frame, valid := true } := by
    simp only [Vm.setEntry, Option.bind_eq_bind, Option.bind_eq_some_iff] at hentry
    obtain ⟨sp, hsp, _, hguard, hentry⟩ := hentry
    rw [Vm.setPageTable_eq hsp] at hentry
    cases hentry
    rw [Vm.getEntry_setSpace, if_pos rfl]
    exact List.getElem?_set_self (by simpa using hguard)
  simp only [FsVm.fillFrame, Option.bind_eq_bind, Option.bind_eq_some_iff, Option.pure_def,
    Option.some.injEq] at hfill
  obtain ⟨space, hspace, _, -, ⟨mem, w⟩, hcontents, rfl⟩ := hfill
  rw [hspace] at hmap
  cases hmap
  -- nothing is read over the zeros
  rw [FsVm.pageContents, if_pos (htest v (Or.inl rfl))] at hcontents
  have hfd' : sys1.swapFD id = some fd := hfd
  have hread : (Filesys.readAt fd pageSize (v * pageSize)).run sys1.world = some ([], sys1.world) :=
    hobject.readAt (show 0 < pageSize by decide) _
  dsimp only at hcontents
  rw [hfd', Option.bind_eq_bind, Option.bind_some, hread] at hcontents
  cases hcontents
  rw [FsVm.page]
  have hget' : Vm.getEntry
      { vm2 with mmu := { vm2.mmu with
          mainMemory := blit (blit vm2.mmu.mainMemory (frame * pageSize) (List.replicate pageSize 0))
            (frame * pageSize) [] } } id v =
      some { entry1 with physicalPage := frame, valid := true } := hget
  dsimp only
  rw [hget', Option.bind_eq_bind, Option.bind_some, blit_nil]
  exact congrArg some (slice_blit vm2.mmu.mainMemory _ (List.length_replicate ..))

theorem runs (h : SwapInv id pages sys) {events : List FsVm.Event} (hlive : ∀ e ∈ events, e ≠ .destroy id)
    (hs : Foundations.runs (FsVm.step policy) sys events = some sys') : SwapInv id pages sys' := by
  induction events generalizing sys with
  | nil =>
    cases hs
    exact h
  | cons e events ih =>
    obtain ⟨sys1, h1, hs⟩ := runs_cons_eq_some.mp hs
    exact ih (h.step (hlive e List.mem_cons_self) h1) (fun e' he => hlive e' (List.mem_cons_of_mem _ he)) hs

end SwapInv

/-! ## The round trip -/

section RoundTrip

variable {policy : PrPolicy} {sys sys1 sys2 sys3 : FsVm} {me : Filesys.Tid} {id : SpaceId} {pid : UInt32}
  {exe : Executable} {heap : Nat → Word} {events : List FsVm.Event} {v choice : Nat} {bytes : List UInt8}

/-- In every life of an address space: a page that was sent to swap comes back as it was if and only if
it was a page of zeros. -/
theorem swap_round_trip (hready : FsReady sys.world) (hcreate : sys.create me id pid exe heap = some sys1)
    (hlive : ∀ e ∈ events, e ≠ .destroy id)
    (hrun : runs (FsVm.step policy) sys1 events = some sys2)
    (hevicted : sys2.evicted id v = some bytes)
    (hload : sys2.loadPage policy id v choice = some sys3) :
    sys3.page id v = some bytes ↔ bytes = List.replicate pageSize 0 := by
  have hinv := (SwapInv.of_create hready hcreate).runs hlive hrun
  rw [hinv.loadPage_page (by rw [hevicted]; exact Option.some_ne_none bytes) hload, Option.some.injEq]
  exact eq_comm

/-- A machine on the fresh disk. -/
def freshSystem : FsVm where
  vm := Vm.zeroedBoot
  world := freshWorld
  swapFD := fun _ => none
  evicted := fun _ _ => none

/-- The process writes the byte 7 into its page 0 and the byte 0 into its page 1, and reads a byte of
each of the next 64 pages, so that its first two pages go to swap. -/
def pressure : List FsVm.Event :=
  ([.switchTo (some 0), .access 0 .byte (some 7) 0, .access 0 .byte (some 7) 0,
    .access pageSize .byte (some 0) 0, .access pageSize .byte (some 0) 0] : List FsVm.Event) ++
    (List.range numPhysPages).map fun i => .access ((i + 2) * pageSize) .byte none 0

/-- The pages of the run that were sent to swap can be loaded again. -/
theorem pressure_evicted : ∃ sys1 sys2 sys3 sys4,
    freshSystem.create 0 0 0 (Vm.bareExecutable 8192) (fun _ => 0) = some sys1 ∧
      runs (FsVm.step .fifo) sys1 pressure = some sys2 ∧
      sys2.evicted 0 0 = some (7 :: List.replicate 127 0) ∧
      sys2.evicted 0 1 = some (List.replicate pageSize 0) ∧
      sys2.loadPage .fifo 0 0 0 = some sys3 ∧ sys2.loadPage .fifo 0 1 0 = some sys4 := by
  have h : ((freshSystem.create 0 0 0 (Vm.bareExecutable 8192) fun _ => 0).bind fun sys1 =>
      (runs (FsVm.step .fifo) sys1 pressure).map fun sys2 =>
        (sys2.evicted 0 0, sys2.evicted 0 1, (sys2.loadPage .fifo 0 0 0).isSome,
          (sys2.loadPage .fifo 0 1 0).isSome)) =
      some (some (7 :: List.replicate 127 0), some (List.replicate pageSize 0), true, true) := by
    -- clearing the bits of the new bitmaps one by one would take a good part of the time
    unfold FsVm.create FsVm.newSwapFile Filesys.create createFile flushNewFile writeBackDirectory
      Directory.writeBack Filesys.write fetchFreeMap
    unfold freshSystem freshWorld freshDisk freshMap Vm.zeroedBoot Vm.boot Coremap.new Vm.create AddressSpace.new
    simp only [Bitmap.new_zero]
    decide +kernel
  obtain ⟨sys1, h1, hmap⟩ := Option.bind_eq_some_iff.mp h
  obtain ⟨sys2, h2, hvals⟩ := Option.map_eq_some_iff.mp hmap
  simp only [Prod.mk.injEq, Option.isSome_iff_exists] at hvals
  obtain ⟨h7, h0, ⟨sys3, h3⟩, sys4, h4⟩ := hvals
  exact ⟨sys1, sys2, sys3, sys4, h1, h2, h7, h0, h3, h4⟩

theorem pressure_live : ∀ e ∈ pressure, e ≠ .destroy 0 := by
  intro e he
  simp only [pressure, List.mem_append, List.mem_cons, List.mem_map, List.not_mem_nil, or_false] at he
  rintro rfl
  simp at he

/-- The page of zeros comes back. -/
theorem swap_round_trip_zeros : ∃ sys1 sys2 sys3,
    freshSystem.create 0 0 0 (Vm.bareExecutable 8192) (fun _ => 0) = some sys1 ∧
      runs (FsVm.step .fifo) sys1 pressure = some sys2 ∧
      sys2.evicted 0 1 = some (List.replicate pageSize 0) ∧ sys2.loadPage .fifo 0 1 0 = some sys3 ∧
      sys3.page 0 1 = some (List.replicate pageSize 0) := by
  obtain ⟨sys1, sys2, -, sys4, h1, h2, -, h0, -, h4⟩ := pressure_evicted
  exact ⟨sys1, sys2, sys4, h1, h2, h0, h4,
    (swap_round_trip freshWorld_ready h1 pressure_live h2 h0 h4).mpr rfl⟩

/-- The byte 7 is lost. -/
theorem swapped_byte_lost : ∃ sys1 sys2 sys3,
    freshSystem.create 0 0 0 (Vm.bareExecutable 8192) (fun _ => 0) = some sys1 ∧
      runs (FsVm.step .fifo) sys1 pressure = some sys2 ∧
      sys2.evicted 0 0 = some (7 :: List.replicate 127 0) ∧ sys2.loadPage .fifo 0 0 0 = some sys3 ∧
      sys3.page 0 0 ≠ some (7 :: List.replicate 127 0) := by
  obtain ⟨sys1, sys2, sys3, -, h1, h2, h7, -, h3, -⟩ := pressure_evicted
  refine ⟨sys1, sys2, sys3, h1, h2, h7, h3, ?_⟩
  have hinv := (SwapInv.of_create freshWorld_ready h1).runs pressure_live h2
  rw [hinv.loadPage_page (by rw [h7]; exact Option.some_ne_none _) h3]
  decide

end RoundTrip

end Nachos
