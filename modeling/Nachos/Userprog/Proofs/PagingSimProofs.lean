import Nachos.Userprog.UserProgram
import Nachos.Userprog.Proofs.FrameOwnershipProofs

/-!
# Proofs: where the current contents of a page are

The relation between the paging state of a single process and the array of bytes that the process
believes to be its memory. A page that is in a frame has its contents there. The backing copy, in the
swap file or in the executable, is current for a page that is not in memory and for one that is not
dirty; the dirty bit that counts is in the TLB or in the page table.
-/

namespace Nachos

open Foundations

namespace Vm

variable {vm vm' : Vm} {A : SpaceId} {exe : Executable} {mem : ByteMemory} {v f vpn : Nat}

/-! ## Loading the image of a page -/

theorem pageSize_pos : 0 < pageSize := by decide

theorem page_div (v : Nat) {i : Nat} (hi : i < pageSize) : (v * pageSize + i) / pageSize = v := by
  rw [Nat.add_comm, Nat.add_mul_div_right _ _ pageSize_pos, Nat.div_eq_of_lt hi, Nat.zero_add]

theorem page_mod (v : Nat) {i : Nat} (hi : i < pageSize) : (v * pageSize + i) % pageSize = i := by
  rw [Nat.add_comm, Nat.add_mul_mod_self_right, Nat.mod_eq_of_lt hi]

/-- Pages are disjoint. -/
theorem page_disjoint {v w i : Nat} (hvw : v ≠ w) (hi : i < pageSize) :
    v * pageSize + i < w * pageSize ∨ w * pageSize + pageSize ≤ v * pageSize + i := by
  rcases Nat.lt_or_gt_of_ne hvw with h | h
  · left
    calc v * pageSize + i < v * pageSize + pageSize := by omega
      _ = (v + 1) * pageSize := by rw [Nat.add_mul, Nat.one_mul]
      _ ≤ w * pageSize := Nat.mul_le_mul_right _ h
  · right
    calc w * pageSize + pageSize = (w + 1) * pageSize := by rw [Nat.add_mul, Nat.one_mul]
      _ ≤ v * pageSize := Nat.mul_le_mul_right _ h
      _ ≤ v * pageSize + i := Nat.le_add_right _ _

theorem length_readAt_le (exe : Executable) (n p : UInt32) : (exe.readAt n p).length ≤ n.toNat := by
  unfold Executable.readAt
  exact List.length_take_le _ _

theorem bytesCopyCode_le (exe : Executable) (d : UInt32) : (bytesCopyCode exe d).toNat ≤ pageSize := by
  unfold bytesCopyCode
  split
  · split
    · decide
    · rename_i h
      exact UInt32.not_lt.mp h
  · decide

/-- The code of a page fits in front of the data. -/
theorem length_codeOfPage {d : UInt32} {code : List UInt8} (h : codeOfPage exe d = some code) :
    code.length ≤ (bytesCopyCode exe d).toNat := by
  unfold codeOfPage at h
  split at h
  · simp only [Executable.readCodeBlock, Option.bind_eq_bind, Option.bind_eq_some_iff,
      Option.pure_def, Option.some.injEq] at h
    obtain ⟨_, -, _, -, rfl⟩ := h
    exact length_readAt_le _ _ _
  · cases h
    exact Nat.zero_le _

theorem toNat_min_le (x y : UInt32) : (if x < y then x else y).toNat ≤ y.toNat := by
  split
  · rename_i h
    exact Nat.le_of_lt (UInt32.lt_iff_toNat_lt.mp h)
  · exact Nat.le_refl _

/-- The data of a page fits behind the code. -/
theorem length_dataOfPage {d : UInt32} {data : List UInt8} (h : dataOfPage exe d = some data) :
    (bytesCopyCode exe d).toNat + data.length ≤ pageSize := by
  simp only [dataOfPage] at h
  have hle := bytesCopyCode_le exe d
  split at h
  · rename_i hc
    simp only [Executable.readDataBlock, Option.bind_eq_bind, Option.bind_eq_some_iff,
      Option.pure_def, Option.some.injEq] at h
    obtain ⟨_, ⟨_, -, _, -, rfl⟩, _, -, rfl⟩ := h
    refine Nat.le_trans (Nat.add_le_add_left (length_readAt_le _ _ _) _) ?_
    have hlt : (bytesCopyCode exe d).toNat < 128 := UInt32.lt_iff_toNat_lt.mp hc.2.2
    have hsub : (128 - bytesCopyCode exe d).toNat = 128 - (bytesCopyCode exe d).toNat :=
      UInt32.toNat_sub_of_le _ _ (UInt32.le_iff_toNat_le.mpr hle)
    have h128 : pageSize = 128 := rfl
    refine Nat.le_trans (Nat.add_le_add_left (toNat_min_le _ _) _) ?_
    omega
  · cases h
    simpa using hle

/-- Loading the image of a page at `k` is loading it at `0`; nothing outside the page changes. -/
theorem copyFromExe_shift {k : Nat} {m m0 : ByteMemory} (hm : ∀ i < pageSize, m (k + i) = m0 i) :
    (∀ {p : ByteMemory}, copyFromExe exe vpn k m = some p →
      ∃ p0, copyFromExe exe vpn 0 m0 = some p0 ∧ (∀ i < pageSize, p (k + i) = p0 i) ∧
        ∀ a, a < k ∨ k + pageSize ≤ a → p a = m a) ∧
    ((copyFromExe exe vpn 0 m0).isSome → (copyFromExe exe vpn k m).isSome) := by
  simp only [copyFromExe, Option.bind_eq_bind, Option.bind_eq_some_iff, Option.pure_def,
    Option.some.injEq, Option.isSome_iff_exists]
  constructor
  · rintro p ⟨code, hcode, data, hdata, rfl⟩
    refine ⟨_, ⟨code, hcode, data, hdata, rfl⟩, fun i hi => ?_, fun a ha => ?_⟩
    · rw [Nat.zero_add]
      have hcode : blit m (k + 0) code (k + i) = blit m0 0 code i := blit_shift (hm i hi)
      exact blit_shift hcode
    · have hcl := length_codeOfPage hcode
      have hdl := length_dataOfPage hdata
      rw [blit_outside (by omega), blit_outside (by omega)]
  · rintro ⟨-, code, hcode, data, hdata, -⟩
    exact ⟨_, code, hcode, data, hdata, rfl⟩

/-- The backing copy of the byte at `a`: in the swap file if the page was sent there, else in the
program image. -/
def backing (sp : AddressSpace) (a : Nat) : UInt8 :=
  if sp.swapMap.test (a / pageSize) then sp.swapFD a else programImage sp.exe a

/-- `LoadPage` puts the backing copy of the page into the frame and changes no other byte. -/
theorem fillFrame_spec {sp : AddressSpace} {k : Nat} {m m' : ByteMemory}
    (h : fillFrame sp vpn k m = some m') :
    (∀ i < pageSize, m' (k + i) = backing sp (vpn * pageSize + i)) ∧
      ∀ a, a < k ∨ k + pageSize ≤ a → m' a = m a := by
  have hzero : ∀ i < pageSize, blit m k (List.replicate pageSize 0) (k + i) = (0 : UInt8) := by
    intro i hi
    rw [blit_inside (by simpa using hi)]
    simp [hi]
  have hout : ∀ a, a < k ∨ k + pageSize ≤ a → blit m k (List.replicate pageSize 0) a = m a :=
    fun a ha => blit_outside (by simpa using ha)
  unfold fillFrame at h
  simp only at h
  split at h
  · split at h
    · rename_i ht
      cases h
      refine ⟨fun i hi => ?_, fun a ha => ?_⟩
      · rw [blit_inside (by simpa using hi), getD_slice _ _ _ hi, backing, page_div vpn hi, if_pos ht]
      · rw [blit_outside (by simpa using ha), hout a ha]
    · rename_i ht
      obtain ⟨p0, hp0, hin, hrest⟩ := (copyFromExe_shift hzero).1 h
      refine ⟨fun i hi => ?_, fun a ha => by rw [hrest a ha, hout a ha]⟩
      rw [hin i hi, backing, page_div vpn hi, if_neg ht, programImage]
      simp only [page_div vpn hi, page_mod vpn hi, hp0]
  · cases h

/-- A page whose image can be loaded can be loaded. -/
theorem fillFrame_isSome {sp : AddressSpace} (hv : vpn < sp.swapMap.numBits)
    (himg : (copyFromExe sp.exe vpn 0 fun _ => 0).isSome) (k : Nat) (m : ByteMemory) :
    (fillFrame sp vpn k m).isSome := by
  unfold fillFrame
  simp only [hv, if_true]
  split
  · rfl
  · have hzero : ∀ i < pageSize, blit m k (List.replicate pageSize 0) (k + i) = (0 : UInt8) := by
      intro i hi
      rw [blit_inside (by simpa using hi)]
      simp [hi]
    exact (copyFromExe_shift hzero).2 himg

/-! ## The relation -/

/-- Some dirty bit says that page `v` of `A` was modified since it was loaded. -/
def PageDirty (vm : Vm) (A : SpaceId) (v : Nat) : Prop :=
  (∃ e, vm.getEntry A v = some e ∧ e.dirty = true) ∨
    ∃ t ∈ vm.mmu.tlb, t.valid = true ∧ t.virtualPage = v ∧ t.dirty = true

/-- What holds of the flags and of the registers of the paging code: no page is read-only, the dirty
bit of a TLB entry is at least that of the page table, and the static indices are in range. -/
structure Flags (A : SpaceId) (vm : Vm) : Prop where
  tlb_length : vm.mmu.tlb.length = tlbSize
  index_lt : vm.index < tlbSize
  victima_lt : vm.victima < numPhysPages
  page_writable : ∀ v e, vm.getEntry A v = some e → e.readOnly = false
  tlb_writable : ∀ t ∈ vm.mmu.tlb, t.valid = true → t.readOnly = false
  tlb_dirty : ∀ t ∈ vm.mmu.tlb, t.valid = true → ∀ e, vm.getEntry A t.virtualPage = some e →
    e.dirty = true → t.dirty = true

/-- Frames and backing copies hold the memory `mem` of the process `A`. -/
structure Contents (exe : Executable) (A : SpaceId) (mem : ByteMemory) (vm : Vm) : Prop where
  space : ∃ sp, vm.spaces A = some sp ∧ sp.exe = exe ∧ sp.numPages = exe.numPages
  only : ∀ B sp, vm.spaces B = some sp → B = A
  resident : ∀ v f, vm.Maps A v f →
    ∀ i < pageSize, vm.mmu.mainMemory (f * pageSize + i) = mem (v * pageSize + i)
  backed : ∀ sp v e, vm.spaces A = some sp → vm.getEntry A v = some e →
    e.valid = false ∨ ¬ PageDirty vm A v →
    ∀ i < pageSize, backing sp (v * pageSize + i) = mem (v * pageSize + i)
  flags : Flags A vm

/-- The address space without its page table. -/
def eraseTable (sp : AddressSpace) : AddressSpace := { sp with pageTable := [] }

theorem backing_eraseTable (sp : AddressSpace) (a : Nat) : backing (eraseTable sp) a = backing sp a :=
  rfl

/-- A change of flags that forgets no dirty bit. -/
theorem Contents.of_flags (h : Contents exe A mem vm)
    (hmem : vm'.mmu.mainMemory = vm.mmu.mainMemory)
    (hsp : ∀ B, (vm'.spaces B).map eraseTable = (vm.spaces B).map eraseTable)
    (hcore : ∀ v, (vm'.getEntry A v).map TranslationEntry.core =
      (vm.getEntry A v).map TranslationEntry.core)
    (hdirty : ∀ v, PageDirty vm A v → PageDirty vm' A v) (hflags : Flags A vm') :
    Contents exe A mem vm' := by
  have hold : ∀ B sp', vm'.spaces B = some sp' →
      ∃ sp, vm.spaces B = some sp ∧ eraseTable sp = eraseTable sp' := by
    intro B sp' hB
    have h' := hsp B
    rw [hB, Option.map_some] at h'
    exact Option.map_eq_some_iff.mp h'.symm
  refine ⟨?_, ?_, ?_, ?_, hflags⟩
  · obtain ⟨sp, hA, hexe, hnum⟩ := h.space
    have h' := hsp A
    rw [hA, Option.map_some] at h'
    obtain ⟨sp', hA', he⟩ := Option.map_eq_some_iff.mp h'
    refine ⟨sp', hA', ?_⟩
    have hx : (eraseTable sp').exe = (eraseTable sp).exe := by rw [he]
    have hn : (eraseTable sp').numPages = (eraseTable sp).numPages := by rw [he]
    exact ⟨Eq.trans hx hexe, Eq.trans hn hnum⟩
  · intro B sp' hB
    obtain ⟨sp, hB', -⟩ := hold B sp' hB
    exact h.only B sp hB'
  · intro v f hm i hi
    rw [hmem]
    refine h.resident v f ?_ i hi
    rw [maps_iff_core, ← hcore, ← maps_iff_core]
    exact hm
  · intro sp' v e' hA' he' hclean i hi
    obtain ⟨sp, hA, hse⟩ := hold A sp' hA'
    have hc := hcore v
    rw [he', Option.map_some] at hc
    obtain ⟨e, he, hce⟩ := Option.map_eq_some_iff.mp hc.symm
    rw [← backing_eraseTable sp', ← hse, backing_eraseTable]
    refine h.backed sp v e hA he ?_ i hi
    rcases hclean with hv | hd
    · have hve : e.valid = e'.valid := congrArg (fun c => c.2.2) hce
      exact Or.inl (hve.trans hv)
    · exact Or.inr fun hd' => hd (hdirty v hd')

/-- Entries that differ in the `use` bit have the same other fields. -/
theorem fields_of_noUse {e e' : TranslationEntry} (h : e.noUse = e'.noUse) :
    e.virtualPage = e'.virtualPage ∧ e.valid = e'.valid ∧ e.readOnly = e'.readOnly ∧
      e.dirty = e'.dirty := by
  simp only [TranslationEntry.noUse, TranslationEntry.mk.injEq] at h
  exact ⟨h.1, h.2.2.1, h.2.2.2.1, h.2.2.2.2.2⟩

/-- An entry of a TLB that differs in `use` bits only. -/
theorem mem_of_noUse {tlb tlb' : List TranslationEntry} {t' : TranslationEntry}
    (h : tlb'.map TranslationEntry.noUse = tlb.map TranslationEntry.noUse) (ht : t' ∈ tlb') :
    ∃ t ∈ tlb, t.noUse = t'.noUse := by
  have ht' : t'.noUse ∈ tlb.map TranslationEntry.noUse := by
    rw [← h]
    exact List.mem_map_of_mem ht
  exact List.mem_map.mp ht'

/-- An entry of a page table that differs in `use` bits only. -/
theorem UseEq.getEntry_some (hu : UseEq vm vm') {e' : TranslationEntry}
    (he' : vm'.getEntry A v = some e') : ∃ e, vm.getEntry A v = some e ∧ e.noUse = e'.noUse := by
  have h := hu.getEntry A v
  rw [he', Option.map_some] at h
  exact Option.map_eq_some_iff.mp h.symm

/-- The replacement policy keeps the flags that matter. -/
theorem Flags.useEq (h : Flags A vm) (hu : UseEq vm vm') (hv : vm'.victima < numPhysPages) :
    Flags A vm' := by
  refine ⟨?_, by rw [hu.index]; exact h.index_lt, hv, ?_, ?_, ?_⟩
  · have hl := congrArg List.length hu.tlb
    simp only [List.length_map] at hl
    rw [hl]
    exact h.tlb_length
  · intro v e' he'
    obtain ⟨e, he, hn⟩ := hu.getEntry_some he'
    obtain ⟨-, -, hro, -⟩ := fields_of_noUse hn
    rw [← hro]
    exact h.page_writable v e he
  · intro t' ht' htv
    obtain ⟨t, ht, hn⟩ := mem_of_noUse hu.tlb ht'
    obtain ⟨-, hva, hro, -⟩ := fields_of_noUse hn
    rw [← hro]
    exact h.tlb_writable t ht (hva.trans htv)
  · intro t' ht' htv e' he' hd'
    obtain ⟨t, ht, hn⟩ := mem_of_noUse hu.tlb ht'
    obtain ⟨e, he, hne⟩ := hu.getEntry_some he'
    obtain ⟨hvp, hva, -, htd⟩ := fields_of_noUse hn
    obtain ⟨-, -, -, hed⟩ := fields_of_noUse hne
    rw [← htd]
    refine h.tlb_dirty t ht (hva.trans htv) e ?_ (hed.trans hd')
    rw [hvp]
    exact he

theorem UseEq.symm (hu : UseEq vm vm') : UseEq vm' vm :=
  ⟨hu.mem.symm, hu.map.symm, hu.current.symm, hu.index.symm, hu.tlb.symm, fun B => (hu.spaces B).symm⟩

/-- No dirty bit is lost where only `use` bits change. -/
theorem UseEq.pageDirty (hu : UseEq vm vm') (h : PageDirty vm A v) : PageDirty vm' A v := by
  rcases h with ⟨e, he, hd⟩ | ⟨t, ht, hv, hp, hd⟩
  · obtain ⟨e', he', hn⟩ := hu.symm.getEntry_some he
    obtain ⟨-, -, -, hed⟩ := fields_of_noUse hn
    exact Or.inl ⟨e', he', hed.trans hd⟩
  · obtain ⟨t', ht', hn⟩ := mem_of_noUse hu.symm.tlb ht
    obtain ⟨hvp, hva, -, htd⟩ := fields_of_noUse hn
    exact Or.inr ⟨t', ht', hva.trans hv, hvp.trans hp, htd.trans hd⟩

theorem Contents.useEq (h : Contents exe A mem vm) (hu : UseEq vm vm')
    (hv : vm'.victima < numPhysPages) : Contents exe A mem vm' := by
  refine h.of_flags hu.mem (fun B => ?_) (fun v => map_core_of_noUse (hu.getEntry A v))
    (fun v => hu.pageDirty) (h.flags.useEq hu hv)
  have hB := congrArg (Option.map eraseTable) (hu.spaces B)
  rw [Option.map_map, Option.map_map] at hB
  exact hB

/-! ## Eviction -/

/-- A page has one entry, so it is in one frame. -/
theorem maps_frame_unique {g : Nat} (h1 : vm.Maps A v f) (h2 : vm.Maps A v g) : f = g := by
  obtain ⟨e, he, -, hf⟩ := h1
  obtain ⟨e', he', -, hg⟩ := h2
  rw [he, Option.some.injEq] at he'
  subst he'
  exact hf.symm.trans hg

/-- When the entry that `EscribirFrameenSwap` finds is clean, the page of the victim is. -/
theorem not_pageDirty_of_victim {sp : AddressSpace} {e : TranslationEntry} {w : Nat}
    (hI : FrameInv vm) (hF : Flags A vm) (hcur : vm.current = some A) (hsp : vm.spaces A = some sp)
    (ho : vm.paginaMapa.owner f = some (A, w)) (he : vm.victimEntry sp.pageTable w f = some e)
    (hd : e.dirty = false) : ¬ PageDirty vm A w := by
  have hm := (hI.owned A w f).mpr ho
  obtain ⟨hew, -, hev⟩ := victimEntry_core hI hsp ho he
  unfold victimEntry at he
  cases hi : vm.mmu.tlb.findIdx? fun e => e.physicalPage == f && e.valid with
  | some i =>
    simp only [hi] at he
    rintro (⟨x, hx, hxd⟩ | ⟨t, ht, htv, htp, htd⟩)
    · have := hF.tlb_dirty e (List.mem_of_getElem? he) hev x (by rw [hew]; exact hx) hxd
      rw [hd] at this
      cases this
    · -- the TLB has one entry for the page
      obtain ⟨j, hj⟩ := List.mem_iff_getElem?.mp ht
      have hij := hI.tlb_inj i j e t he hj hev htv (by rw [hew, htp])
      rw [← hij, he, Option.some.injEq] at hj
      rw [← hj, hd] at htd
      cases htd
  | none =>
    simp only [hi] at he
    rintro (⟨x, hx, hxd⟩ | ⟨t, ht, htv, htp, htd⟩)
    · rw [getEntry_eq hsp, he, Option.some.injEq] at hx
      rw [← hx, hd] at hxd
      cases hxd
    · -- an entry of the page would be an entry of the frame
      obtain ⟨B, hB, hmt⟩ := hI.tlb_page t ht htv
      rw [hcur, Option.some.injEq] at hB
      subst hB
      rw [htp] at hmt
      have hnone := List.findIdx?_eq_none_iff.mp hi t ht
      simp [htv, maps_frame_unique hmt hm] at hnone

/-- A TLB entry after the eviction was there before it, or is invalid. -/
theorem mem_evictedTlb {t : TranslationEntry} (ht : t ∈ vm.evictedTlb f) (hv : t.valid = true) :
    t ∈ vm.mmu.tlb := by
  unfold evictedTlb at ht
  split at ht
  · split at ht
    · rcases List.mem_or_eq_of_mem_set ht with h | rfl
      · exact h
      · cases hv
    · exact ht
  · exact ht

theorem length_evictedTlb (vm : Vm) (f : Nat) : (vm.evictedTlb f).length = vm.mmu.tlb.length := by
  unfold evictedTlb
  split
  · split
    · exact List.length_set
    · rfl
  · rfl

/-- A TLB entry of another frame survives the eviction. -/
theorem mem_evictedTlb_of_ne {t : TranslationEntry} (ht : t ∈ vm.mmu.tlb) (hf : t.physicalPage ≠ f) :
    t ∈ vm.evictedTlb f := by
  unfold evictedTlb
  cases hi : vm.mmu.tlb.findIdx? fun e => e.physicalPage == f && e.valid with
  | none => exact ht
  | some i =>
    obtain ⟨hlt, hp, -⟩ := List.findIdx?_eq_some_iff_getElem.mp hi
    simp only [Bool.and_eq_true, beq_iff_eq] at hp
    simp only [List.getElem?_eq_getElem hlt]
    obtain ⟨j, hj⟩ := List.mem_iff_getElem?.mp ht
    have hij : i ≠ j := by
      rintro rfl
      rw [List.getElem?_eq_getElem hlt, Option.some.injEq] at hj
      exact hf (hj ▸ hp.1)
    exact List.mem_of_getElem? ((List.getElem?_set_ne hij).trans hj)

/-- The backing copy of a page that was just evicted is what was in its frame; that of another page
does not change. -/
theorem backing_evictedSpace {sp : AddressSpace} {e : TranslationEntry} {w : Nat}
    (hw : w < sp.swapMap.numBits) (v : Nat) {i : Nat} (hi : i < pageSize) :
    backing (vm.evictedSpace sp w f e) (v * pageSize + i) =
      if v = w ∧ e.dirty = true then vm.mmu.mainMemory (f * pageSize + i)
      else backing sp (v * pageSize + i) := by
  unfold backing evictedSpace
  simp only [page_div v hi]
  cases hd : e.dirty with
  | false => simp
  | true =>
    by_cases hv : v = w
    · subst hv
      simp only [if_true, and_self, Bitmap.test_mark hw, decide_true, Bool.true_or]
      rw [blit_inside (by simpa using hi), getD_slice _ _ _ hi]
    · have hwv : w ≠ v := fun h => hv h.symm
      simp only [if_true, hv, false_and, if_false, Bitmap.test_mark hw, hwv, decide_false,
        Bool.false_or]
      split
      · refine blit_outside ?_
        rw [length_slice]
        exact page_disjoint hv hi
      · rfl

/-- Evicting a page of the process keeps the contents: its backing copy is current afterwards. -/
theorem Contents.evict {sp : AddressSpace} {e : TranslationEntry} {w : Nat} (hI : FrameInv vm)
    (h : Contents exe A mem vm) (hcur : vm.current = some A) (hsp : vm.spaces A = some sp)
    (ho : vm.paginaMapa.owner f = some (A, w)) (he : vm.victimEntry sp.pageTable w f = some e)
    (c : Coremap) :
    Contents exe A mem
      { (vm.setTlb (vm.evictedTlb f)).setSpace A (vm.evictedSpace sp w f e) with paginaMapa := c } := by
  have hm := (hI.owned A w f).mpr ho
  obtain ⟨e0, he0, hv0, hf0⟩ := hm
  have hlt : w < sp.pageTable.length := by
    rw [getEntry_eq hsp] at he0
    exact (List.getElem?_eq_some_iff.mp he0).1
  have hwb : w < sp.swapMap.numBits := by
    have := hI.sizes A sp hsp
    omega
  have hget : ∀ v, Vm.getEntry { (vm.setTlb (vm.evictedTlb f)).setSpace A (vm.evictedSpace sp w f e)
      with paginaMapa := c } A v =
        if v = w then some { e with dirty := false, valid := false } else vm.getEntry A v := by
    intro v
    have hsp' : (vm.setTlb (vm.evictedTlb f)).spaces A = some sp := hsp
    have h1 := getEntry_set (B := A) (w := v) hsp' hlt
      (vm.evictedSpace sp w f e) rfl
    simp only [true_and] at h1
    exact h1
  have hne : ∀ t ∈ vm.evictedTlb f, t.valid = true → t.virtualPage ≠ w := by
    intro t ht htv htw
    obtain ⟨B, hB, hmt⟩ := hI.tlb_page t (mem_evictedTlb ht htv) htv
    rw [hcur, Option.some.injEq] at hB
    subst hB
    rw [htw] at hmt
    exact (evictedTlb_spec hI f).2 t ht htv (maps_frame_unique hmt ⟨e0, he0, hv0, hf0⟩)
  have hero : e.readOnly = false := by
    unfold victimEntry at he
    split at he
    · rename_i i hi
      obtain ⟨hil, hp, -⟩ := List.findIdx?_eq_some_iff_getElem.mp hi
      rw [List.getElem?_eq_getElem hil, Option.some.injEq] at he
      simp only [Bool.and_eq_true, beq_iff_eq] at hp
      rw [← he]
      exact h.flags.tlb_writable _ (List.getElem_mem hil) hp.2
    · exact h.flags.page_writable w e (by rw [getEntry_eq hsp]; exact he)
  refine ⟨⟨vm.evictedSpace sp w f e, by simp, ?_⟩, ?_, ?_, ?_, ?_⟩
  · obtain ⟨sp', hsp', hexe⟩ := h.space
    rw [hsp, Option.some.injEq] at hsp'
    subst hsp'
    exact hexe
  · intro B sp' hB
    have hB' : ((vm.setTlb (vm.evictedTlb f)).setSpace A (vm.evictedSpace sp w f e)).spaces B
        = some sp' := hB
    rw [spaces_setSpace] at hB'
    split at hB'
    · assumption
    · exact h.only B sp' hB'
  · rintro v g ⟨x, hx, hxv, hxf⟩ i hi
    rw [hget] at hx
    split at hx
    · cases hx
      cases hxv
    · exact h.resident v g ⟨x, hx, hxv, hxf⟩ i hi
  · intro sp' v x hsp' hx hclean i hi
    obtain rfl : vm.evictedSpace sp w f e = sp' := by simpa using hsp'
    rw [backing_evictedSpace hwb v hi]
    rw [hget] at hx
    by_cases hvw : v = w
    · subst hvw
      cases hd : e.dirty with
      | true => simpa using h.resident v f ⟨e0, he0, hv0, hf0⟩ i hi
      | false =>
        have hnd := not_pageDirty_of_victim hI h.flags hcur hsp ho he hd
        simpa using h.backed sp v e0 hsp he0 (Or.inr hnd) i hi
    · rw [if_neg hvw] at hx
      rw [if_neg (fun hc => hvw hc.1)]
      refine h.backed sp v x hsp hx (hclean.imp id fun hnd hd => hnd ?_) i hi
      -- a dirty bit of another page is still there
      rcases hd with ⟨y, hy, hyd⟩ | ⟨t, ht, htv, htp, htd⟩
      · exact Or.inl ⟨y, by rw [hget, if_neg hvw]; exact hy, hyd⟩
      · refine Or.inr ⟨t, mem_evictedTlb_of_ne ht fun htf => hvw ?_, htv, htp, htd⟩
        obtain ⟨B, -, hmt⟩ := hI.tlb_page t ht htv
        rw [htp, htf] at hmt
        exact (hI.maps_inj hmt ⟨e0, he0, hv0, hf0⟩).2
  · refine ⟨(length_evictedTlb vm f).trans h.flags.tlb_length, h.flags.index_lt, h.flags.victima_lt,
      ?_, fun t ht htv => h.flags.tlb_writable t (mem_evictedTlb ht htv) htv, ?_⟩
    · intro v x hx
      rw [hget] at hx
      split at hx
      · cases hx
        exact hero
      · exact h.flags.page_writable v x hx
    · intro t ht htv x hx
      rw [hget, if_neg (hne t ht htv)] at hx
      exact h.flags.tlb_dirty t (mem_evictedTlb ht htv) htv x hx

/-! ## Loading a page -/

/-- Where the coremap does not matter. -/
theorem Contents.setCoremap (h : Contents exe A mem vm) (c : Coremap) :
    Contents exe A mem { vm with paginaMapa := c } :=
  ⟨h.space, h.only, h.resident, h.backed,
    ⟨h.flags.tlb_length, h.flags.index_lt, h.flags.victima_lt, h.flags.page_writable,
      h.flags.tlb_writable, h.flags.tlb_dirty⟩⟩

/-- With a single process, a page that is evicted is one of its own. -/
theorem evictsOwn_of_only {policy : PrPolicy} {choice : Nat} (hI : FrameInv vm)
    (honly : ∀ B sp, vm.spaces B = some sp → B = A)
    (hlt : ∀ r ∈ vm.pickVictim policy A choice, r.1 < numPhysPages) :
    EvictsOwn policy vm A vpn choice := by
  intro hnone r hr
  rcases Coremap.find_cases hI.coremap A vpn with ⟨g, -, -, hfind⟩ | ⟨-, hall⟩
  · rw [hfind] at hnone
    cases hnone
  · obtain ⟨B, w, ho⟩ := hall r.1 (hlt r hr)
    obtain ⟨x, hx, -, -⟩ := (hI.owned B w r.1).mpr ho
    obtain ⟨sp, hsp, -⟩ := getEntry_eq_some.mp hx
    rw [ho, honly B sp hsp]
    rfl

theorem victima_clearUse {ref : EntryRef} (h : vm.clearUse A ref = some vm') :
    vm'.victima = vm.victima := by
  cases ref with
  | tlb i =>
    simp only [clearUse, Option.bind_eq_bind, Option.bind_eq_some_iff, Option.pure_def,
      Option.some.injEq] at h
    obtain ⟨e, -, rfl⟩ := h
    rfl
  | page w =>
    simp only [clearUse, Option.bind_eq_bind, Option.bind_eq_some_iff] at h
    obtain ⟨e, he, h⟩ := h
    obtain ⟨sp, hsp, hpe⟩ := getEntry_eq_some.mp he
    rw [setEntry_eq hsp (List.getElem?_eq_some_iff.mp hpe).1, Option.some.injEq] at h
    subst h
    rfl

/-- A round of the clock keeps its hand in range, and the frame it finds is in range. -/
theorem clockRound_lt {round : Nat} {ps : List Nat} {o : Option Nat} :
    ∀ {vm : Vm}, vm.victima < numPhysPages → clockRound A round ps vm = some (o, vm') →
      vm'.victima < numPhysPages ∧ ∀ g ∈ o, g < numPhysPages := by
  have hpos : 0 < numPhysPages := by decide
  induction ps with
  | nil =>
    intro vm hv h
    simp only [clockRound, Option.some.injEq, Prod.mk.injEq] at h
    obtain ⟨rfl, rfl⟩ := h
    exact ⟨hv, by simp⟩
  | cons p ps ih =>
    intro vm hv h
    simp only [clockRound, Option.bind_eq_bind, Option.bind_eq_some_iff] at h
    obtain ⟨ref, -, h⟩ := h
    cases ref with
    | none => exact ih hv h
    | some ref =>
      simp only [Option.bind_eq_some_iff] at h
      obtain ⟨e, -, h⟩ := h
      split at h
      · simp only [Option.pure_def, Option.some.injEq, Prod.mk.injEq] at h
        obtain ⟨rfl, rfl⟩ := h
        refine ⟨Nat.mod_lt _ hpos, fun g hg => ?_⟩
        cases hg
        exact Nat.mod_lt _ hpos
      · split at h
        · simp only [Option.bind_eq_some_iff] at h
          obtain ⟨vm1, h1, h⟩ := h
          exact ih (by rw [victima_clearUse h1]; exact hv) h
        · exact ih hv h

theorem clockRounds_lt {rounds : List Nat} :
    ∀ {vm : Vm}, vm.victima < numPhysPages → clockRounds A rounds vm = some (f, vm') →
      f < numPhysPages ∧ vm'.victima < numPhysPages := by
  have hpos : 0 < numPhysPages := by decide
  induction rounds with
  | nil =>
    intro vm _ h
    simp only [clockRounds, Option.some.injEq, Prod.mk.injEq] at h
    obtain ⟨rfl, rfl⟩ := h
    exact ⟨Nat.mod_lt _ hpos, Nat.mod_lt _ hpos⟩
  | cons round rounds ih =>
    intro vm hv h
    simp only [clockRounds, Option.bind_eq_bind, Option.bind_eq_some_iff] at h
    obtain ⟨⟨o, vm1⟩, h1, h⟩ := h
    obtain ⟨hv1, ho⟩ := clockRound_lt hv h1
    cases o with
    | some g =>
      simp only [Option.pure_def, Option.some.injEq, Prod.mk.injEq] at h
      obtain ⟨rfl, rfl⟩ := h
      exact ⟨ho g rfl, hv1⟩
    | none => exact ih hv1 h

/-- The victim is a frame of the machine, under every policy. -/
theorem pickVictim_lt {policy : PrPolicy} {choice : Nat} (hv : vm.victima < numPhysPages)
    (h : vm.pickVictim policy A choice = some (f, vm')) :
    f < numPhysPages ∧ vm'.victima < numPhysPages := by
  have hpos : 0 < numPhysPages := by decide
  cases policy with
  | fifo =>
    simp only [pickVictim, Option.some.injEq, Prod.mk.injEq] at h
    obtain ⟨rfl, rfl⟩ := h
    exact ⟨hv, Nat.mod_lt _ hpos⟩
  | clock => exact clockRounds_lt hv h
  | random =>
    simp only [pickVictim, Option.some.injEq, Prod.mk.injEq] at h
    obtain ⟨rfl, rfl⟩ := h
    exact ⟨Nat.mod_lt _ hpos, hv⟩

/-- A single process never evicts a page of another one. -/
theorem Contents.evictsOwn (h : Contents exe A mem vm) (hI : FrameInv vm) (policy : PrPolicy)
    (vpn choice : Nat) : EvictsOwn policy vm A vpn choice :=
  evictsOwn_of_only hI h.only fun _ hr => (pickVictim_lt h.flags.victima_lt hr).1

/-- Obtaining a frame keeps the contents. -/
theorem Contents.obtainFrame {policy : PrPolicy} {choice : Nat} (hI : FrameInv vm)
    (h : Contents exe A mem vm) (hcur : vm.current = some A)
    (hob : vm.obtainFrame policy A vpn choice = some (f, vm')) : Contents exe A mem vm' := by
  rcases obtainFrame_cases hI (h.evictsOwn hI policy vpn choice) hob with
    ⟨-, -, rfl⟩ | ⟨vmU, w, sp, e, hp, hsp, hw, he, rfl⟩
  · exact h.setCoremap _
  · have hu := useEq_pickVictim hp
    have hU := h.useEq hu (pickVictim_lt h.flags.victima_lt hp).2
    exact hU.evict (hI.useEq hu) (hu.current.trans hcur) hsp hw he _

/-- Mapping a page that was not in memory into the frame obtained for it, with its backing copy in the
frame. -/
theorem Contents.map {vm1 : Vm} {sp : AddressSpace} {entry : TranslationEntry} {m : ByteMemory}
    (hF : Freed vm vm1 A vpn f) (h : Contents exe A mem vm1) (hsp : vm1.spaces A = some sp)
    (he : vm1.getEntry A vpn = some entry) (hinv : entry.valid = false)
    (hfill : fillFrame (mappedSpace sp vpn f entry) vpn (f * pageSize) vm1.mmu.mainMemory = some m) :
    Contents exe A mem { vm1.setSpace A (mappedSpace sp vpn f entry) with
      mmu := { vm1.mmu with mainMemory := m } } := by
  have hlt : vpn < sp.pageTable.length := by
    rw [getEntry_eq hsp] at he
    exact (List.getElem?_eq_some_iff.mp he).1
  obtain ⟨hin, hout⟩ := fillFrame_spec hfill
  have hback : ∀ a, backing (mappedSpace sp vpn f entry) a = backing sp a := fun _ => rfl
  have hget : ∀ v, Vm.getEntry { vm1.setSpace A (mappedSpace sp vpn f entry) with
      mmu := { vm1.mmu with mainMemory := m } } A v =
        if v = vpn then some { entry with physicalPage := f, valid := true }
        else vm1.getEntry A v := by
    intro v
    have h1 := getEntry_set (B := A) (w := v) hsp hlt (mappedSpace sp vpn f entry) rfl
    simp only [true_and] at h1
    exact h1
  -- the dirty bits are those of before
  have hdirty : ∀ v, PageDirty vm1 A v → PageDirty { vm1.setSpace A (mappedSpace sp vpn f entry) with
      mmu := { vm1.mmu with mainMemory := m } } A v := by
    rintro v (⟨x, hx, hxd⟩ | ht)
    · by_cases hv : v = vpn
      · subst hv
        rw [he, Option.some.injEq] at hx
        subst hx
        exact Or.inl ⟨{ entry with physicalPage := f, valid := true }, by rw [hget, if_pos rfl], hxd⟩
      · exact Or.inl ⟨x, by rw [hget, if_neg hv]; exact hx, hxd⟩
    · exact Or.inr ht
  refine ⟨⟨mappedSpace sp vpn f entry, by simp, ?_⟩, ?_, ?_, ?_, ?_⟩
  · obtain ⟨sp', hsp', hexe⟩ := h.space
    rw [hsp, Option.some.injEq] at hsp'
    subst hsp'
    exact hexe
  · intro B sp' hB
    have hB' : (vm1.setSpace A (mappedSpace sp vpn f entry)).spaces B = some sp' := hB
    rw [spaces_setSpace] at hB'
    split at hB'
    · assumption
    · exact h.only B sp' hB'
  · rintro v g ⟨x, hx, hxv, hxf⟩ i hi
    rw [hget] at hx
    split at hx
    · rename_i hv
      subst hv
      cases hx
      obtain rfl : f = g := hxf
      show m (f * pageSize + i) = _
      rw [hin i hi, hback]
      exact h.backed sp v entry hsp he (Or.inl hinv) i hi
    · have hm : vm1.Maps A v g := ⟨x, hx, hxv, hxf⟩
      have hgf : g ≠ f := ((hF.maps A v g).mp hm).2
      show m (g * pageSize + i) = _
      rw [hout _ (page_disjoint hgf hi)]
      exact h.resident v g hm i hi
  · intro sp' v x hsp' hx hclean i hi
    obtain rfl : mappedSpace sp vpn f entry = sp' := by simpa using hsp'
    rw [hback]
    rw [hget] at hx
    split at hx
    · rename_i hv
      subst hv
      exact h.backed sp v entry hsp he (Or.inl hinv) i hi
    · exact h.backed sp v x hsp hx (hclean.imp id fun hnd hd => hnd (hdirty v hd)) i hi
  · refine ⟨h.flags.tlb_length, h.flags.index_lt, h.flags.victima_lt, ?_, h.flags.tlb_writable, ?_⟩
    · intro v x hx
      rw [hget] at hx
      split at hx
      · cases hx
        exact h.flags.page_writable vpn entry he
      · exact h.flags.page_writable v x hx
    · intro t ht htv x hx hxd
      rw [hget] at hx
      split at hx
      · rename_i hv
        cases hx
        exact h.flags.tlb_dirty t ht htv entry (by rw [hv]; exact he) hxd
      · exact h.flags.tlb_dirty t ht htv x hx hxd

/-- `LoadPage` keeps the contents. -/
theorem Contents.loadPage {policy : PrPolicy} {choice : Nat} (hI : FrameInv vm)
    (h : Contents exe A mem vm) (hcur : vm.current = some A)
    (hl : vm.loadPage policy A vpn choice = some vm') : Contents exe A mem vm' := by
  simp only [Vm.loadPage, Option.bind_eq_bind, Option.bind_eq_some_iff, Option.guard_eq_some',
    Option.pure_def, Option.some.injEq] at hl
  obtain ⟨e0, he0, _, hv0, ⟨g, vm1⟩, hob, entry, he, vm2, hset, sp2, hsp2, m, hfill, rfl⟩ := hl
  have hF := obtainFrame_freed hI (h.evictsOwn hI policy vpn choice) hob
  have h1 := h.obtainFrame hI hcur hob
  obtain ⟨sp, hsp, hpe⟩ := getEntry_eq_some.mp he
  rw [setEntry_eq hsp (List.getElem?_eq_some_iff.mp hpe).1, Option.some.injEq] at hset
  subst hset
  obtain rfl : mappedSpace sp vpn g entry = sp2 := by simpa [mappedSpace] using hsp2
  have hinv : entry.valid = false := by
    by_contra hv
    have hm : vm1.Maps A vpn entry.physicalPage := ⟨entry, he, by simpa using hv, rfl⟩
    obtain ⟨x, hx, hxv, -⟩ := ((hF.maps _ _ _).mp hm).1
    rw [he0, Option.some.injEq] at hx
    rw [← hx, hv0] at hxv
    cases hxv
  exact h1.map hF hsp he hinv hfill

end Vm

end Nachos
