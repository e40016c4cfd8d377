import Nachos.Userprog.Proofs.FrameInvProofs

/-!
# Proofs: what paging does not change of an address space

The executable, the number of pages, and the sizes of the page table and of the swap map stay as the
constructor set them. No invariant is needed: this also holds where a page of another process is evicted.
-/

namespace Nachos

open Foundations

/-- The executable, `numPages`, the length of the page table and the size of the swap map. -/
def AddressSpace.shape (sp : AddressSpace) : Executable × Nat × Nat × Nat :=
  (sp.exe, sp.numPages, sp.pageTable.length, sp.swapMap.numBits)

namespace Vm

/-- The address spaces have the same shapes. -/
def SameShapes (vm vm' : Vm) : Prop :=
  ∀ id, (vm'.spaces id).map AddressSpace.shape = (vm.spaces id).map AddressSpace.shape

variable {vm vm' vm'' : Vm} {this id : SpaceId} {vpn frame : Nat} {sp sp' : AddressSpace}

theorem SameShapes.refl (vm : Vm) : SameShapes vm vm := fun _ => rfl

theorem SameShapes.trans (h : SameShapes vm vm') (h' : SameShapes vm' vm'') : SameShapes vm vm'' :=
  fun id => (h' id).trans (h id)

/-- The address space is still there. -/
theorem SameShapes.exists_space (h : SameShapes vm vm') (hsp : vm.spaces id = some sp) :
    ∃ sp', vm'.spaces id = some sp' ∧ sp'.shape = sp.shape := by
  have hid := h id
  rw [hsp, Option.map_some] at hid
  exact Option.map_eq_some_iff.mp hid

theorem sameShapes_setSpace (hsp : vm.spaces this = some sp) (h : sp'.shape = sp.shape) :
    SameShapes vm (vm.setSpace this sp') := by
  intro id
  rw [spaces_setSpace]
  split
  · rename_i hid
    rw [hid, hsp, Option.map_some, Option.map_some, h]
  · rfl

theorem sameShapes_setEntry {entry : TranslationEntry} (h : vm.setEntry this vpn entry = some vm') :
    SameShapes vm vm' := by
  simp only [setEntry, setPageTable, Option.bind_eq_bind, Option.bind_eq_some_iff, Option.pure_def,
    Option.some.injEq] at h
  obtain ⟨sp, hsp, _, -, sp2, hsp2, rfl⟩ := h
  rw [hsp] at hsp2
  cases hsp2
  refine sameShapes_setSpace hsp ?_
  simp only [AddressSpace.shape, List.length_set]

theorem sameShapes_moveTlbEntry (h : vm.moveTlbEntry this vpn frame = some vm') : SameShapes vm vm' := by
  unfold moveTlbEntry at h
  split at h
  · simp only [Option.bind_eq_bind, Option.bind_eq_some_iff, Option.pure_def, Option.some.injEq] at h
    obtain ⟨e, -, vm1, hset, rfl⟩ := h
    exact (sameShapes_setEntry hset).trans fun _ => rfl
  · cases h
    exact SameShapes.refl vm

theorem sameShapes_writeToSwap {space : Option SpaceId} (h : vm.writeToSwap space vpn frame = some vm') :
    SameShapes vm vm' := by
  simp only [writeToSwap, Option.bind_eq_bind, Option.bind_eq_some_iff, Option.pure_def, Option.some.injEq] at h
  obtain ⟨owner, -, osp, hosp, _, -, rfl⟩ := h
  exact sameShapes_setSpace hosp rfl

theorem sameShapes_escribirFrameenSwap (h : vm.escribirFrameenSwap this frame = some vm') : SameShapes vm vm' := by
  simp only [escribirFrameenSwap, Option.bind_eq_bind, Option.bind_eq_some_iff] at h
  obtain ⟨vpn, -, space, -, vm1, hmove, entry, -, h⟩ := h
  refine (sameShapes_moveTlbEntry hmove).trans ?_
  split at h
  · obtain ⟨vm2, hwrite, hset⟩ := Option.bind_eq_some_iff.mp h
    exact (sameShapes_writeToSwap hwrite).trans (sameShapes_setEntry hset)
  · exact sameShapes_setEntry h

/-- Clearing `use` bits. -/
theorem UseEq.sameShapes (h : UseEq vm vm') : SameShapes vm vm' := by
  intro id
  have hid := congrArg (Option.map AddressSpace.shape) (h.spaces id)
  have herase : AddressSpace.shape ∘ eraseUse = AddressSpace.shape := by
    funext sp
    simp only [Function.comp_apply, AddressSpace.shape, eraseUse, List.length_map]
  rw [Option.map_map, Option.map_map, herase] at hid
  exact hid

theorem sameShapes_obtainFrame {policy : PrPolicy} {choice : Nat}
    (h : vm.obtainFrame policy this vpn choice = some (frame, vm')) : SameShapes vm vm' := by
  unfold obtainFrame at h
  split at h
  · cases h
    exact fun _ => rfl
  · simp only [sustitucionEnSwapDeMarcoVictima, Option.bind_eq_bind, Option.bind_eq_some_iff, Option.pure_def,
      Option.some.injEq] at h
    obtain ⟨⟨victim, vm1⟩, hpick, vm2, hwrite, map, -, hret⟩ := h
    cases hret
    have h2 : SameShapes vm vm2 :=
      (useEq_pickVictim hpick).sameShapes.trans (sameShapes_escribirFrameenSwap hwrite)
    exact h2

theorem sameShapes_loadPage {policy : PrPolicy} {choice : Nat}
    (h : vm.loadPage policy this vpn choice = some vm') : SameShapes vm vm' := by
  simp only [loadPage, Option.bind_eq_bind, Option.bind_eq_some_iff, Option.pure_def, Option.some.injEq] at h
  obtain ⟨_, -, _, -, ⟨f, vm1⟩, hob, _, -, vm2, hset, _, -, mem, -, rfl⟩ := h
  have h2 : SameShapes vm vm2 := (sameShapes_obtainFrame hob).trans (sameShapes_setEntry hset)
  exact h2

theorem sameShapes_ensureLoaded {policy : PrPolicy} {choice : Nat} {entry : TranslationEntry}
    (h : vm.ensureLoaded policy this vpn choice entry = some vm') : SameShapes vm vm' := by
  unfold ensureLoaded at h
  split at h
  · cases h
    exact SameShapes.refl vm
  · exact sameShapes_loadPage h

end Vm

end Nachos
