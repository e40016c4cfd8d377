import Nachos.Userprog.PageTableAccess
import Nachos.Userprog.Proofs.ClockProofs
import Nachos.Userprog.Proofs.PagingSimProofs
import Nachos.Userprog.Proofs.ShapeProofs

/-!
# Proofs: page table accesses of the page-fault path

`PageFaultExeption` does not compare the page number with `numPages`, and `EscribirFrameenSwap` uses the page
number of a frame of any process in the table of the faulting one. All the other page numbers of the path come
from the TLB, which has pages of the running process only.
-/

namespace Nachos

open Foundations

namespace Vm

variable {vm vm' : Vm} {this A : SpaceId} {e entry : TranslationEntry} {v vpn frame choice : Nat} {policy : PrPolicy}

/-! ## The invariant -/

/-- The page table of `A` has an entry `v`. -/
def InSpace (vm : Vm) (A : SpaceId) (v : Nat) : Prop := ∃ sp, vm.spaces A = some sp ∧ v < sp.pageTable.length

/-- Page tables have the size of their address space, and the pages of all translation entries exist; those
of the TLB are pages of the running process. -/
structure PagesInside (vm : Vm) : Prop where
  coremap : vm.paginaMapa.Ok
  hand : vm.victima < numPhysPages
  sizes : ∀ A sp, vm.spaces A = some sp → sp.pageTable.length = sp.numPages
  entries : ∀ A v e, vm.getEntry A v = some e → vm.InSpace A e.virtualPage
  tlb : ∀ e ∈ vm.mmu.tlb, e.valid = true → ∃ A, vm.current = some A ∧ vm.InSpace A e.virtualPage

theorem InSpace.sameShapes (h : vm.InSpace A v) (hs : SameShapes vm vm') : vm'.InSpace A v := by
  obtain ⟨sp, hsp, hlt⟩ := h
  obtain ⟨sp', hsp', hshape⟩ := hs.exists_space hsp
  simp only [AddressSpace.shape, Prod.mk.injEq] at hshape
  exact ⟨sp', hsp', by rw [hshape.2.2.1]; exact hlt⟩

/-- What keeps the shapes, and makes no new translation entries, keeps the invariant. -/
theorem PagesInside.of_shapes (h : PagesInside vm) (hs : SameShapes vm vm') (hmap : vm'.paginaMapa.Ok)
    (hhand : vm'.victima < numPhysPages)
    (hentries : ∀ A v e, vm'.getEntry A v = some e → vm.InSpace A e.virtualPage)
    (htlb : ∀ e ∈ vm'.mmu.tlb, e.valid = true → ∃ A, vm'.current = some A ∧ vm.InSpace A e.virtualPage) :
    PagesInside vm' := by
  refine ⟨hmap, hhand, ?_, fun A v e he => (hentries A v e he).sameShapes hs, ?_⟩
  · intro A sp' hsp'
    have hid := hs A
    rw [hsp', Option.map_some] at hid
    obtain ⟨sp, hsp, hshape⟩ := Option.map_eq_some_iff.mp hid.symm
    simp only [AddressSpace.shape, Prod.mk.injEq] at hshape
    rw [← hshape.2.2.1, ← hshape.2.1]
    exact h.sizes A sp hsp
  · intro e he hv
    obtain ⟨A, hA, hin⟩ := htlb e he hv
    exact ⟨A, hA, hin.sameShapes hs⟩

/-- The invariant while `this` handles a page fault. -/
structure Faulting (this : SpaceId) (vm : Vm) : Prop extends PagesInside vm where
  running : vm.current = some this

/-- A valid TLB entry is one of the running process. -/
theorem Faulting.inSpace_tlb (h : Faulting this vm) (he : e ∈ vm.mmu.tlb) (hv : e.valid = true) :
    vm.InSpace this e.virtualPage := by
  obtain ⟨A, hA, hin⟩ := h.tlb e he hv
  rw [h.running, Option.some.injEq] at hA
  rw [hA]
  exact hin

/-! ## The page-fault path -/

theorem Faulting.setEntry (h : Faulting this vm) (hs : vm.setEntry this vpn e = some vm')
    (hin : vm.InSpace this e.virtualPage) : Faulting this vm' := by
  have hshapes := sameShapes_setEntry hs
  obtain ⟨sp, hsp, -⟩ := id hin
  have hlt : vpn < sp.pageTable.length := by
    simp only [Vm.setEntry, hsp, Option.bind_eq_bind, Option.bind_some, Option.bind_eq_some_iff,
      Option.guard_eq_some'] at hs
    exact hs.choose_spec.1
  rw [setEntry_eq hsp hlt, Option.some.injEq] at hs
  subst hs
  refine ⟨h.of_shapes hshapes h.coremap h.hand ?_ h.tlb, h.running⟩
  intro A v e0 he0
  rw [getEntry_set hsp hlt _ rfl] at he0
  split at he0
  · rename_i hA
    cases he0
    rw [hA.1]
    exact hin
  · exact h.entries A v e0 he0

/-- A TLB whose valid entries are pages of the running process. -/
theorem Faulting.setTlb (h : Faulting this vm) {tlb : List TranslationEntry}
    (htlb : ∀ e ∈ tlb, e.valid = true → vm.InSpace this e.virtualPage) : Faulting this (vm.setTlb tlb) :=
  ⟨h.of_shapes (SameShapes.refl _) h.coremap h.hand h.entries fun e he hv => ⟨this, h.running, htlb e he hv⟩,
    h.running⟩

theorem Faulting.moveTlbEntry (h : Faulting this vm) (hs : vm.moveTlbEntry this vpn frame = some vm') :
    Faulting this vm' := by
  unfold Vm.moveTlbEntry at hs
  split at hs
  · rename_i i hi
    simp only [Option.bind_eq_bind, Option.bind_eq_some_iff, Option.pure_def, Option.some.injEq] at hs
    obtain ⟨e, he, vm1, hset, rfl⟩ := hs
    obtain ⟨hlt, hp, -⟩ := List.findIdx?_eq_some_iff_getElem.mp hi
    rw [List.getElem?_eq_getElem hlt, Option.some.injEq] at he
    rw [he, Bool.and_eq_true] at hp
    have hmem : e ∈ vm.mmu.tlb := he ▸ List.getElem_mem hlt
    have h1 := h.setEntry hset (h.inSpace_tlb hmem hp.2)
    refine h1.setTlb fun x hx hv => ?_
    rcases List.mem_or_eq_of_mem_set hx with hx | rfl
    · exact h1.inSpace_tlb hx hv
    · cases hv
  · cases hs
    exact h

theorem Faulting.writeToSwap {space : Option SpaceId} (h : Faulting this vm)
    (hs : vm.writeToSwap space vpn frame = some vm') : Faulting this vm' := by
  have hshapes := sameShapes_writeToSwap hs
  simp only [Vm.writeToSwap, Option.bind_eq_bind, Option.bind_eq_some_iff, Option.pure_def, Option.some.injEq] at hs
  obtain ⟨owner, -, osp, hosp, _, -, rfl⟩ := hs
  refine ⟨h.of_shapes hshapes h.coremap h.hand ?_ h.tlb, h.running⟩
  intro A v e he
  rw [getEntry_setSpace] at he
  split at he
  · rename_i hA
    rw [hA]
    exact h.entries owner v e (by rw [getEntry_eq hosp]; exact he)
  · exact h.entries A v e he

theorem Faulting.escribirFrameenSwap (h : Faulting this vm) (hs : vm.escribirFrameenSwap this frame = some vm') :
    Faulting this vm' := by
  simp only [Vm.escribirFrameenSwap, Option.bind_eq_bind, Option.bind_eq_some_iff] at hs
  obtain ⟨vpn, -, space, -, vm1, hmove, entry, hget, hs⟩ := hs
  have h1 := h.moveTlbEntry hmove
  have hin : vm1.InSpace this entry.virtualPage := h1.entries _ _ _ hget
  split at hs
  · obtain ⟨vm2, hwrite, hset⟩ := Option.bind_eq_some_iff.mp hs
    exact (h1.writeToSwap hwrite).setEntry hset (hin.sameShapes (sameShapes_writeToSwap hwrite))
  · rw [Option.bind_some] at hs
    exact h1.setEntry hs hin

/-- Clearing `use` bits. -/
theorem Faulting.useEq (h : Faulting this vm) (hu : UseEq vm vm') (hhand : vm'.victima < numPhysPages) :
    Faulting this vm' := by
  refine ⟨h.of_shapes hu.sameShapes (hu.map ▸ h.coremap) hhand ?_ ?_, hu.current.trans h.running⟩
  · intro A v e he
    have hget := hu.getEntry A v
    rw [he, Option.map_some] at hget
    obtain ⟨e0, he0, hcore⟩ := Option.map_eq_some_iff.mp hget.symm
    have hvp : e0.noUse.virtualPage = e.noUse.virtualPage := by rw [hcore]
    have hvp : e0.virtualPage = e.virtualPage := hvp
    rw [← hvp]
    exact h.entries A v e0 he0
  · intro e he hv
    obtain ⟨i, hi⟩ := List.mem_iff_getElem?.mp he
    obtain ⟨e0, he0, hv0, hvp, -⟩ := hu.tlbLe i e hi hv
    rw [← hvp]
    exact ⟨this, hu.current.trans h.running, h.inSpace_tlb (List.mem_of_getElem? he0) hv0⟩

theorem Faulting.obtainFrame (h : Faulting this vm)
    (hs : vm.obtainFrame policy this vpn choice = some (frame, vm')) : Faulting this vm' := by
  have hsetMap : ∀ {vm : Vm} {c : Coremap}, Faulting this vm → c.Ok → Faulting this { vm with paginaMapa := c } :=
    fun h hc => ⟨h.of_shapes (SameShapes.refl _) hc h.hand h.entries h.tlb, h.running⟩
  unfold Vm.obtainFrame at hs
  rcases Coremap.find_cases h.coremap this vpn with ⟨f, hf, -, hfind⟩ | ⟨hnone, -⟩
  · rw [hfind] at hs
    cases hs
    exact hsetMap h (Coremap.ok_give h.coremap hf this vpn)
  · rw [show vm.paginaMapa.find this vpn = (none, (vm.paginaMapa.find this vpn).2) from Prod.ext hnone rfl] at hs
    simp only [sustitucionEnSwapDeMarcoVictima, Option.bind_eq_bind, Option.bind_eq_some_iff, Option.pure_def,
      Option.some.injEq] at hs
    obtain ⟨⟨victim, vm1⟩, hpick, vm2, hwrite, map, hmark, hret⟩ := hs
    cases hret
    obtain ⟨hlt, hhand⟩ := pickVictim_lt h.hand hpick
    have h2 := (h.useEq (useEq_pickVictim hpick) hhand).escribirFrameenSwap hwrite
    rw [Coremap.mark_eq h2.coremap hlt, Option.some.injEq] at hmark
    rw [← hmark]
    exact hsetMap h2 (Coremap.ok_give h2.coremap hlt this vpn)

theorem Faulting.loadPage (h : Faulting this vm) (hs : vm.loadPage policy this vpn choice = some vm') :
    Faulting this vm' := by
  simp only [Vm.loadPage, Option.bind_eq_bind, Option.bind_eq_some_iff, Option.pure_def, Option.some.injEq] at hs
  obtain ⟨e0, -, _, -, ⟨f, vm1⟩, hob, e1, hget, vm2, hset, sp, -, mem, -, rfl⟩ := hs
  have h1 := h.obtainFrame hob
  have hin : vm1.InSpace this e1.virtualPage := h1.entries _ _ _ hget
  have h2 : Faulting this vm2 := h1.setEntry hset hin
  exact ⟨h2.of_shapes (SameShapes.refl _) h2.coremap h2.hand h2.entries h2.tlb, h2.running⟩

theorem Faulting.ensureLoaded (h : Faulting this vm) (hs : vm.ensureLoaded policy this vpn choice entry = some vm') :
    Faulting this vm' := by
  unfold Vm.ensureLoaded at hs
  split at hs
  · cases hs
    exact h
  · exact h.loadPage hs

theorem Faulting.installEntry (h : Faulting this vm) (hs : vm.installEntry this vpn = some vm') :
    Faulting this vm' := by
  simp only [Vm.installEntry, Option.bind_eq_bind, Option.bind_eq_some_iff, Option.pure_def, Option.some.injEq] at hs
  obtain ⟨old, hold, vm1, hback, e, he, rfl⟩ := hs
  have h1 : Faulting this vm1 := by
    unfold writeBack at hback
    split at hback
    · rename_i hv
      exact h.setEntry hback (h.inSpace_tlb (List.mem_of_getElem? hold) hv)
    · cases hback
      exact h
  have h2 : Faulting this (vm1.setTlb (vm1.mmu.tlb.set vm1.index e)) := by
    refine h1.setTlb fun x hx hv => ?_
    rcases List.mem_or_eq_of_mem_set hx with hx | rfl
    · exact h1.inSpace_tlb hx hv
    · exact h1.entries _ _ _ he
  exact ⟨h2.of_shapes (SameShapes.refl _) h2.coremap h2.hand h2.entries h2.tlb, h2.running⟩

/-! ## Every event -/

theorem PagesInside.pageFaultExeption (h : PagesInside vm)
    (hs : vm.pageFaultExeption policy vpn choice = some vm') : PagesInside vm' := by
  simp only [Vm.pageFaultExeption, Option.bind_eq_bind, Option.bind_eq_some_iff] at hs
  obtain ⟨this, hthis, e, -, vm1, hload, hinstall⟩ := hs
  have h0 : Faulting this vm := ⟨h, hthis⟩
  exact ((h0.ensureLoaded hload).installEntry hinstall).toPagesInside

/-- A translation changes flags of a TLB entry. -/
theorem PagesInside.translate (h : PagesInside vm) {m' : Mmu} {addr phys : Nat} {size : AccessSize} {writing : Bool}
    (ht : vm.mmu.translate addr size writing = .ok (phys, m')) (mem : ByteMemory) :
    PagesInside { vm with mmu := { m' with mainMemory := mem } } := by
  obtain ⟨i, e, he, hv, -, -, -, -, rfl⟩ := translate_ok ht
  refine h.of_shapes (SameShapes.refl _) h.coremap h.hand h.entries fun x hx hvx => ?_
  rcases List.mem_or_eq_of_mem_set hx with hx | rfl
  · exact h.tlb x hx hvx
  · exact h.tlb e (List.mem_of_getElem? he) hv

theorem PagesInside.access {addr : Nat} {size : AccessSize} {value o : Option Word} (h : PagesInside vm)
    (hs : vm.access policy addr size value choice = some (o, vm')) : PagesInside vm' := by
  cases value with
  | none =>
    rcases access_read_cases hs with ⟨w, m, hread, -, rfl⟩ | ⟨-, -, hfault⟩
    · unfold Mmu.readMem at hread
      cases ht : vm.mmu.translate addr size false with
      | error ex =>
        rw [ht] at hread
        cases hread
      | ok r =>
        rw [ht] at hread
        cases hread
        exact h.translate ht _
    · exact h.pageFaultExeption hfault
  | some w =>
    rcases access_write_cases hs with ⟨m, hwrite, -, rfl⟩ | ⟨-, -, hfault⟩
    · unfold Mmu.writeMem at hwrite
      cases ht : vm.mmu.translate addr size true with
      | error ex =>
        rw [ht] at hwrite
        cases hwrite
      | ok r =>
        rw [ht] at hwrite
        cases hwrite
        exact h.translate ht _
    · exact h.pageFaultExeption hfault

/-- `SaveState` invalidates the TLB and changes flags of the page table. -/
theorem PagesInside.saveState (h : PagesInside vm) (hs : vm.saveState this = some vm') :
    PagesInside vm' ∧ ∀ e ∈ vm'.mmu.tlb, e.valid = false := by
  simp only [Vm.saveState, Option.bind_eq_bind, Option.bind_eq_some_iff] at hs
  obtain ⟨sp, hsp, ⟨tlb, table⟩, hsave, hs⟩ := hs
  obtain ⟨hinv, hlen, hcore⟩ := saveTlb_spec hsave
  have hsp' : (vm.setTlb tlb).spaces this = some sp := hsp
  rw [setPageTable_eq hsp', Option.some.injEq] at hs
  subst hs
  refine ⟨h.of_shapes (sameShapes_setSpace hsp' ?_) h.coremap h.hand ?_ ?_, hinv⟩
  · simp only [AddressSpace.shape, hlen]
  · intro A v e he
    rw [getEntry_setSpace] at he
    split at he
    · rename_i hA
      have hmap : (table.map TranslationEntry.core)[v]? = (sp.pageTable.map TranslationEntry.core)[v]? := by
        rw [hcore]
      have hentry : table[v]? = some e := he
      rw [List.getElem?_map, List.getElem?_map, hentry, Option.map_some] at hmap
      obtain ⟨e0, he0, hc⟩ := Option.map_eq_some_iff.mp hmap.symm
      have hvp : e0.virtualPage = e.virtualPage := congrArg Prod.fst hc
      rw [hA, ← hvp]
      exact h.entries this v e0 (by rw [getEntry_eq hsp]; exact he0)
    · exact h.entries A v e he
  · intro e he hv
    rw [hinv e he] at hv
    cases hv

theorem PagesInside.switchTo {next : Option SpaceId} (h : PagesInside vm) (hs : vm.switchTo next = some vm') :
    PagesInside vm' := by
  simp only [Vm.switchTo, Option.bind_eq_bind, Option.bind_eq_some_iff] at hs
  obtain ⟨vm1, hsave, hs⟩ := hs
  have h1 : PagesInside vm1 ∧ ∀ e ∈ vm1.mmu.tlb, e.valid = false := by
    unfold saveCurrent at hsave
    cases hcur : vm.current with
    | none =>
      rw [hcur] at hsave
      cases hsave
      refine ⟨h, fun e he => ?_⟩
      by_contra hv
      obtain ⟨A, hA, -⟩ := h.tlb e he (by simpa using hv)
      rw [hcur] at hA
      cases hA
    | some old =>
      rw [hcur] at hsave
      exact h.saveState hsave
  have hnext : PagesInside { vm1 with current := next } := by
    refine h1.1.of_shapes (SameShapes.refl _) h1.1.coremap h1.1.hand h1.1.entries fun e he hv => ?_
    rw [h1.2 e he] at hv
    cases hv
  cases next with
  | none =>
    cases hs
    exact hnext
  | some id =>
    simp only [Option.bind_eq_some_iff, Option.pure_def, Option.some.injEq] at hs
    obtain ⟨_, -, rfl⟩ := hs
    refine hnext.of_shapes (SameShapes.refl _) hnext.coremap hnext.hand hnext.entries fun e he hv => ?_
    obtain ⟨e0, -, rfl⟩ := List.mem_map.mp he
    cases hv

theorem PagesInside.create {id : SpaceId} {exe : Executable} {swapFD : ByteMemory} {heap : Nat → Word}
    (h : PagesInside vm) (hs : vm.create id exe swapFD heap = some vm') : PagesInside vm' := by
  simp only [Vm.create, Option.bind_eq_bind, Option.bind_eq_some_iff, Option.guard_eq_some',
    Option.isNone_iff_eq_none, Option.pure_def, Option.some.injEq] at hs
  obtain ⟨_, hnone, rfl⟩ := hs
  have hkeep : ∀ A v, vm.InSpace A v → (vm.setSpace id (AddressSpace.new exe swapFD heap)).InSpace A v := by
    rintro A v ⟨sp, hsp, hlt⟩
    refine ⟨sp, ?_, hlt⟩
    rw [spaces_setSpace, if_neg]
    · exact hsp
    · rintro rfl
      rw [hnone] at hsp
      cases hsp
  have hlen : (AddressSpace.new exe swapFD heap).pageTable.length = exe.numPages := by
    simp only [AddressSpace.new, List.length_map, List.length_range]
  refine ⟨h.coremap, h.hand, ?_, ?_, ?_⟩
  · intro A sp hsp
    rw [spaces_setSpace] at hsp
    split at hsp
    · cases hsp
      exact hlen
    · exact h.sizes A sp hsp
  · intro A v e he
    rw [getEntry_setSpace] at he
    split at he
    · rename_i hA
      simp only [AddressSpace.new, List.getElem?_map, Option.map_eq_some_iff] at he
      obtain ⟨i, hi, rfl⟩ := he
      refine ⟨_, by rw [hA, spaces_setSpace, if_pos rfl], ?_⟩
      rw [hlen]
      exact List.mem_range.mp (List.mem_of_getElem? hi)
    · exact hkeep _ _ (h.entries A v e he)
  · intro e he hv
    obtain ⟨A, hA, hin⟩ := h.tlb e he hv
    exact ⟨A, hA, hkeep _ _ hin⟩

theorem PagesInside.destroy {id : SpaceId} (h : PagesInside vm) (hs : vm.destroy id = some vm') :
    PagesInside vm' := by
  simp only [Vm.destroy, Option.bind_eq_bind, Option.bind_eq_some_iff, Option.guard_eq_some',
    Option.pure_def, Option.some.injEq] at hs
  obtain ⟨_, hcur, sp, hsp, c, hclear, rfl⟩ := hs
  obtain ⟨hok, -⟩ := clearFrames_spec h.coremap hclear
  have hspace : ∀ B, Function.update vm.spaces id none B = if B = id then none else vm.spaces B :=
    fun B => by simp [Function.update_apply]
  have hkeep : ∀ A v, A ≠ id → vm.InSpace A v →
      InSpace { vm with paginaMapa := c, spaces := Function.update vm.spaces id none } A v := by
    rintro A v hA ⟨sp, hsp, hlt⟩
    exact ⟨sp, by show Function.update vm.spaces id none A = some sp; rw [hspace, if_neg hA, hsp], hlt⟩
  refine ⟨hok, h.hand, ?_, ?_, ?_⟩
  · intro A sp' hsp'
    have hsp' : Function.update vm.spaces id none A = some sp' := hsp'
    rw [hspace] at hsp'
    split at hsp'
    · cases hsp'
    · exact h.sizes A sp' hsp'
  · intro A v e he
    simp only [getEntry, hspace] at he
    split at he
    · simp at he
    · rename_i hA
      exact hkeep _ _ hA (h.entries A v e he)
  · intro e he hv
    obtain ⟨A, hA, hin⟩ := h.tlb e he hv
    refine ⟨A, hA, hkeep _ _ ?_ hin⟩
    rintro rfl
    exact hcur hA

theorem PagesInside.step {ev : Event} (h : PagesInside vm) (hs : vm.step policy ev = some vm') :
    PagesInside vm' := by
  cases ev with
  | create id exe swapFD heap => exact h.create hs
  | access addr size value choice =>
    obtain ⟨⟨o, vm1⟩, h1, rfl⟩ := Option.map_eq_some_iff.mp hs
    exact h.access h1
  | switchTo next => exact h.switchTo hs
  | destroy id => exact h.destroy hs

theorem pagesInside_boot (heap : Nat → Word) (addrSpaces : Nat → Option SpaceId) (vpns : Nat → Nat)
    (tlb : Nat → TranslationEntry) : PagesInside (boot heap addrSpaces vpns tlb) := by
  have hI := frameInv_boot heap addrSpaces vpns tlb
  refine ⟨hI.coremap, Nat.zero_lt_succ _, fun A sp h => ?_, fun A v e he => ?_, fun e he hv => ?_⟩
  · cases h
  · simp [getEntry, boot] at he
  · obtain ⟨A, hA, -⟩ := hI.tlb_page e he hv
    cases hA

/-! ## The accesses -/

/-- A round of the clock that finds no victim leaves the hand where it is. -/
theorem victima_clockRound {round : Nat} {ps : List Nat} :
    ∀ {vm : Vm}, clockRound this round ps vm = some (none, vm') → vm'.victima = vm.victima := by
  induction ps with
  | nil =>
    intro vm h
    cases h
    rfl
  | cons p ps ih =>
    intro vm h
    simp only [clockRound, Option.bind_eq_bind, Option.bind_eq_some_iff] at h
    obtain ⟨ref, -, h⟩ := h
    cases ref with
    | none => exact ih h
    | some ref =>
      simp only [Option.bind_eq_some_iff] at h
      obtain ⟨e, -, h⟩ := h
      split at h
      · cases h
      · split at h
        · obtain ⟨vm1, h1, h⟩ := Option.bind_eq_some_iff.mp h
          rw [ih h, victima_clearUse h1]
        · exact ih h

theorem tlbSearchIndices_clockRound {round : Nat} {ps : List Nat}
    (h : clockRound this round ps vm = some (none, vm')) : vm'.tlbSearchIndices = vm.tlbSearchIndices := by
  unfold tlbSearchIndices
  rw [(useEq_clockRound h).tlbSearch (victima_clockRound h)]

/-- All accesses of a round are those of the first `TLBSearch`. -/
theorem mem_clockRoundIndices {round i : Nat} {ps : List Nat} :
    ∀ {vm : Vm}, i ∈ clockRoundIndices this round ps vm → i ∈ vm.tlbSearchIndices := by
  induction ps with
  | nil => exact fun h => absurd h List.not_mem_nil
  | cons p ps ih =>
    intro vm h
    rcases List.mem_append.mp h with h | h
    · exact h
    · split at h
      · rename_i vm1 h1
        rw [← tlbSearchIndices_clockRound h1]
        exact ih h
      · exact absurd h List.not_mem_nil

theorem mem_clockIndices {i : Nat} {rounds : List Nat} :
    ∀ {vm : Vm}, i ∈ clockIndices this rounds vm → i ∈ vm.tlbSearchIndices := by
  induction rounds with
  | nil => exact fun h => absurd h List.not_mem_nil
  | cons round rounds ih =>
    intro vm h
    rcases List.mem_append.mp h with h | h
    · exact mem_clockRoundIndices h
    · split at h
      · rename_i vm1 h1
        rw [← tlbSearchIndices_clockRound h1]
        exact ih h
      · exact absurd h List.not_mem_nil

/-- `PickVictim` makes the access of the first `TLBSearch`. -/
theorem mem_clockIndices_of_mem {i : Nat} (h : i ∈ vm.tlbSearchIndices) : i ∈ clockIndices this [1, 2, 3, 4] vm := by
  obtain ⟨ps, hps⟩ := range_map_hand vm.victima
  refine List.mem_append_left _ ?_
  rw [hps]
  exact List.mem_append_left _ h

theorem Full.escribirFrameenSwapIndices (h : vm.Full) (hf : frame < numPhysPages) (hmap : vm'.paginaMapa = vm.paginaMapa) :
    vm'.escribirFrameenSwapIndices frame = [vm.paginaMapa.vpns frame] := by
  unfold Vm.escribirFrameenSwapIndices
  rw [hmap, h.getVpn hf]
  rfl

/-- `TLBSearch` indexes the page table when the hand is on a page without TLB entry. -/
theorem Full.tlbSearchIndices_eq (h : vm.Full) (this : SpaceId) :
    vm.tlbSearchIndices = match vm.handSlot this with
      | .tlb _ => []
      | .page _ w => [w] := by
  unfold tlbSearchIndices
  rw [(h.tlbSearch_eq this).1]
  cases vm.handSlot this <;> rfl

/-- The entry under the hand exists exactly when `TLBSearch` stays in the page table. -/
theorem Full.exists_handEntry_iff (h : vm.Full) {sp : AddressSpace} (hsp : vm.spaces this = some sp) :
    (∃ entry, vm.slotEntry (vm.handSlot this) = some entry) ↔ ∀ i ∈ vm.tlbSearchIndices, i < sp.pageTable.length := by
  rw [h.tlbSearchIndices_eq this]
  unfold handSlot
  cases hidx : vm.mmu.tlb.findIdx? fun e => e.valid && e.physicalPage == vm.victima with
  | some i =>
    obtain ⟨hlt, -, -⟩ := List.findIdx?_eq_some_iff_getElem.mp hidx
    exact ⟨fun _ j hj => absurd hj List.not_mem_nil, fun _ => ⟨_, List.getElem?_eq_getElem hlt⟩⟩
  | none =>
    simp only [slotEntry, getEntry_eq hsp, List.mem_singleton, forall_eq]
    constructor
    · rintro ⟨entry, he⟩
      exact (List.getElem?_eq_some_iff.mp he).1
    · exact fun hlt => ⟨_, List.getElem?_eq_getElem hlt⟩

theorem Full.taken_lt (h : vm.Full) (entry : TranslationEntry) : vm.taken entry < numPhysPages := by
  unfold taken
  split
  · exact Nat.mod_lt _ (by decide)
  · exact h.hand

/-- `EscribirFrameenSwap` indexes with the page number of the victim. -/
theorem Full.mem_sustitucionIndices (h : vm.Full) {i : Nat} (hf : frame < numPhysPages)
    (hpick : vm.pickVictim policy this choice = some (frame, vm')) :
    i ∈ vm.sustitucionIndices policy this choice ↔
      i ∈ vm.pickVictimIndices policy this ∨ i = vm.paginaMapa.vpns frame := by
  unfold sustitucionIndices
  rw [List.mem_append, hpick]
  show _ ∨ i ∈ vm'.escribirFrameenSwapIndices frame ↔ _
  rw [h.escribirFrameenSwapIndices hf (useEq_pickVictim hpick).map, List.mem_singleton]

/-- The accesses of an eviction are inside exactly when the pages that the policy looks at are. -/
theorem Full.eviction_inside_iff (h : vm.Full) {sp : AddressSpace} (hsp : vm.spaces this = some sp)
    (policy : PrPolicy) (choice : Nat) :
    (∀ i ∈ vm.sustitucionIndices policy this choice, i < sp.pageTable.length) ↔
      vm.VictimInside policy this sp.pageTable.length choice := by
  cases policy with
  | fifo =>
    have hmem : ∀ i, i ∈ vm.sustitucionIndices .fifo this choice ↔
        i ∈ vm.pickVictimIndices .fifo this ∨ i = vm.paginaMapa.vpns vm.victima :=
      fun i => h.mem_sustitucionIndices h.hand rfl
    simp only [hmem, pickVictimIndices, List.not_mem_nil, false_or, forall_eq, VictimInside]
  | random =>
    have hlt : choice % numPhysPages < numPhysPages := Nat.mod_lt _ (by decide)
    have hmem : ∀ i, i ∈ vm.sustitucionIndices .random this choice ↔
        i ∈ vm.pickVictimIndices .random this ∨ i = vm.paginaMapa.vpns (choice % numPhysPages) :=
      fun i => h.mem_sustitucionIndices hlt rfl
    simp only [hmem, pickVictimIndices, List.not_mem_nil, false_or, forall_eq, VictimInside]
  | clock =>
    have hmem : ∀ entry, vm.slotEntry (vm.handSlot this) = some entry → ∀ i,
        i ∈ vm.sustitucionIndices .clock this choice ↔
          i ∈ clockIndices this [1, 2, 3, 4] vm ∨ i = vm.paginaMapa.vpns (vm.taken entry) := by
      intro entry hentry i
      obtain ⟨hsearch, hget⟩ := h.tlbSearch_eq this
      have hex : vm.Examines this (vm.handSlot this).entryRef entry := ⟨hsearch, hget.trans hentry⟩
      obtain ⟨vm1, -, heq⟩ := hex.pickVictim_eq h.hand choice
      exact h.mem_sustitucionIndices (h.taken_lt entry) heq
    constructor
    · intro hall
      obtain ⟨entry, hentry⟩ := (h.exists_handEntry_iff hsp).mpr fun i hi =>
        hall i (List.mem_append_left _ (mem_clockIndices_of_mem hi))
      exact ⟨entry, hentry, hall _ ((hmem entry hentry _).mpr (Or.inr rfl))⟩
    · rintro ⟨entry, hentry, hlt⟩ i hi
      rcases (hmem entry hentry i).mp hi with hi | rfl
      · exact (h.exists_handEntry_iff hsp).mp ⟨entry, hentry⟩ i (mem_clockIndices hi)
      · exact hlt

/-- Without a free frame all frames are taken. -/
theorem PagesInside.full (h : PagesInside vm) (hfind : (vm.paginaMapa.find this vpn).1 = none) : vm.Full := by
  rcases Coremap.find_cases h.coremap this vpn with ⟨f, -, -, hsome⟩ | ⟨-, hall⟩
  · rw [hsome] at hfind
    cases hfind
  · refine ⟨h.hand, h.coremap.size_eq, fun f hf => ?_, fun f hf => ?_⟩
    · obtain ⟨b, w, ho⟩ := hall f hf
      exact (h.coremap.owner_eq_some.mp ho).2.1
    · obtain ⟨b, w, ho⟩ := hall f hf
      rw [(h.coremap.owner_eq_some.mp ho).2.2.1]
      rfl

/-- The accesses of `LoadPage` are inside exactly when the page and those of an eviction are. -/
theorem PagesInside.loadPage_inside_iff (h : PagesInside vm) {sp : AddressSpace} (hsp : vm.spaces this = some sp)
    (policy : PrPolicy) (vpn choice : Nat) :
    (∀ i ∈ vm.loadPageIndices policy this vpn choice, i < sp.pageTable.length) ↔
      vpn < sp.pageTable.length ∧ ((vm.paginaMapa.find this vpn).1 = none →
        vm.VictimInside policy this sp.pageTable.length choice) := by
  unfold loadPageIndices
  cases hfind : vm.paginaMapa.find this vpn with
  | mk o map =>
    cases o with
    | some f => simp
    | none =>
      have hfull : vm.Full := h.full (by rw [hfind])
      simp only [List.forall_mem_cons, forall_const]
      rw [hfull.eviction_inside_iff hsp policy choice]

/-- A page fault stays inside exactly when its address and the page that it evicts do. -/
theorem PagesInside.fault_inside_iff (hinside : PagesInside vm) {sp : AddressSpace} (hcur : vm.current = some this)
    (hsp : vm.spaces this = some sp) (policy : PrPolicy) (addr choice : Nat) :
    vm.StaysInside policy this sp.numPages addr choice ↔ vm.FaultInside policy this sp.numPages addr choice := by
  have hpos : 0 < pageSize := by decide
  have hlt : addr / pageSize < sp.numPages ↔ addr < sp.numPages * pageSize := Nat.div_lt_iff_lt_mul hpos
  have hload := hinside.loadPage_inside_iff hsp policy (addr / pageSize) choice
  unfold StaysInside FaultInside
  rw [← hinside.sizes this sp hsp] at hlt ⊢
  constructor
  · rintro ⟨hall, -⟩
    refine ⟨hlt.mp (hall _ List.mem_cons_self), fun entry hentry hvalid hfind => ?_⟩
    refine (hload.mp fun i hi => hall i (List.mem_cons_of_mem _ ?_)).2 hfind
    simp only [hentry, hvalid, Bool.false_eq_true, if_false]
    exact List.mem_append_left _ hi
  · rintro ⟨haddr, hevict⟩
    refine ⟨?_, fun hle => absurd haddr (Nat.not_lt.mpr hle)⟩
    have hvpn := hlt.mpr haddr
    have hentry : vm.getEntry this (addr / pageSize) = some (sp.pageTable.get ⟨_, hvpn⟩) := by
      rw [getEntry_eq hsp]
      exact List.getElem?_eq_getElem hvpn
    intro i hi
    rcases List.mem_cons.mp hi with rfl | hi
    · exact hvpn
    · rw [hentry] at hi
      rcases List.mem_append.mp hi with hi | hi
      · split at hi
        · exact absurd hi List.not_mem_nil
        · rename_i hvalid
          exact hload.mpr ⟨hvpn, hevict _ hentry (by simpa using hvalid)⟩ i hi
      · split at hi
        · -- the entry that is overwritten is one of the running process
          rename_i vm1 hloaded
          have hfaulting : Faulting this vm1 := Faulting.ensureLoaded ⟨hinside, hcur⟩ hloaded
          obtain ⟨sp1, hsp1, hshape⟩ := (sameShapes_ensureLoaded hloaded).exists_space hsp
          simp only [AddressSpace.shape, Prod.mk.injEq] at hshape
          unfold installEntryIndices at hi
          split at hi
          · rename_i old hold
            split at hi
            · rename_i hv
              obtain ⟨sp2, hsp2, hin⟩ := hfaulting.inSpace_tlb (List.mem_of_getElem? hold) hv
              rw [hsp1, Option.some.injEq] at hsp2
              subst hsp2
              rw [List.mem_singleton.mp hi, ← hshape.2.2.1]
              exact hin
            · exact absurd hi List.not_mem_nil
          · exact absurd hi List.not_mem_nil
        · exact absurd hi List.not_mem_nil

/-- `EscribirFrameenSwap` succeeds for page numbers in the page table only. -/
theorem inSpace_of_escribirFrameenSwap (h : vm.escribirFrameenSwap this frame = some vm') :
    ∃ w, vm.paginaMapa.getVpn frame = some w ∧ vm'.InSpace this w := by
  have hshapes := sameShapes_escribirFrameenSwap h
  simp only [Vm.escribirFrameenSwap, Option.bind_eq_bind, Option.bind_eq_some_iff] at h
  obtain ⟨w, hw, space, -, vm1, hmove, entry, hget, -⟩ := h
  obtain ⟨sp1, hsp1, htable⟩ := getEntry_eq_some.mp hget
  have hid := sameShapes_moveTlbEntry hmove this
  rw [hsp1, Option.map_some] at hid
  obtain ⟨sp, hsp, hshape⟩ := Option.map_eq_some_iff.mp hid.symm
  simp only [AddressSpace.shape, Prod.mk.injEq] at hshape
  have hin : vm.InSpace this w := by
    refine ⟨sp, hsp, ?_⟩
    rw [hshape.2.2.1]
    exact (List.getElem?_eq_some_iff.mp htable).1
  exact ⟨w, hw, hin.sameShapes hshapes⟩

/-- An eviction of the model succeeds only when its accesses are inside. -/
theorem Full.sustitucion_inside (h : vm.Full) {sp : AddressSpace} (hsp : vm.spaces this = some sp)
    (hs : vm.sustitucionEnSwapDeMarcoVictima policy this vpn choice = some (frame, vm')) :
    ∀ i ∈ vm.sustitucionIndices policy this choice, i < sp.pageTable.length := by
  simp only [sustitucionEnSwapDeMarcoVictima, Option.bind_eq_bind, Option.bind_eq_some_iff] at hs
  obtain ⟨⟨victim, vm1⟩, hpick, vm2, hwrite, -⟩ := hs
  intro i hi
  unfold sustitucionIndices at hi
  rw [hpick] at hi
  rcases List.mem_append.mp hi with hi | hi
  · cases policy with
    | fifo => exact absurd hi List.not_mem_nil
    | random => exact absurd hi List.not_mem_nil
    | clock => exact (h.exists_handEntry_iff hsp).mp (h.slotEntry_of_pickVictim hpick) i (mem_clockIndices hi)
  · obtain ⟨w, hw, sp2, hsp2, hlt⟩ := inSpace_of_escribirFrameenSwap hwrite
    have hshapes := (useEq_pickVictim hpick).sameShapes.trans (sameShapes_escribirFrameenSwap hwrite)
    obtain ⟨sp3, hsp3, hshape⟩ := hshapes.exists_space hsp
    simp only [AddressSpace.shape, Prod.mk.injEq] at hshape
    rw [hsp2, Option.some.injEq] at hsp3
    subst hsp3
    have hi : i ∈ (vm1.paginaMapa.getVpn victim).toList := hi
    have hw : vm1.paginaMapa.getVpn victim = some w := hw
    rw [hw, Option.toList_some, List.mem_singleton] at hi
    rw [hi, ← hshape.2.2.1]
    exact hlt

/-- The handler of the model runs to its end only when all the accesses are inside. -/
theorem PagesInside.indices_inside (hinside : PagesInside vm) {sp : AddressSpace} (hcur : vm.current = some this)
    (hsp : vm.spaces this = some sp) (hs : vm.pageFaultExeption policy vpn choice = some vm') :
    ∀ i ∈ vm.pageFaultIndices policy this vpn choice, i < sp.numPages := by
  simp only [Vm.pageFaultExeption, hcur, Option.bind_eq_bind, Option.bind_some, Option.bind_eq_some_iff] at hs
  obtain ⟨entry, hget, vm1, hload, -⟩ := hs
  have hpage : vpn * pageSize / pageSize = vpn := Nat.mul_div_cancel _ (by decide)
  have hvpn : vpn < sp.numPages := by
    rw [getEntry_eq hsp] at hget
    rw [← hinside.sizes this sp hsp]
    exact (List.getElem?_eq_some_iff.mp hget).1
  have hfault : vm.FaultInside policy this sp.numPages (vpn * pageSize) choice := by
    refine ⟨(Nat.mul_lt_mul_right (by decide)).mpr hvpn, ?_⟩
    rw [hpage]
    intro e he hvalid hfind
    have hfull := hinside.full hfind
    rw [he, Option.some.injEq] at hget
    rw [← hget] at hload
    rw [← hinside.sizes this sp hsp]
    refine (hfull.eviction_inside_iff hsp policy choice).mp ?_
    simp only [Vm.ensureLoaded, hvalid, Bool.false_eq_true, if_false, Vm.loadPage, Option.bind_eq_bind,
      Option.bind_eq_some_iff] at hload
    obtain ⟨_, -, _, -, ⟨f, vm2⟩, hob, -⟩ := hload
    unfold Vm.obtainFrame at hob
    rw [show vm.paginaMapa.find this vpn = (none, (vm.paginaMapa.find this vpn).2) from Prod.ext hfind rfl] at hob
    exact hfull.sustitucion_inside hsp hob
  have hstays := ((hinside.fault_inside_iff hcur hsp policy (vpn * pageSize) choice).mpr hfault).1
  rw [hpage] at hstays
  exact hstays

/-- In every state of every run, a page fault stays inside the address space exactly when the address is in it
and, if a page has to be evicted, the number of that page is below `numPages` of the faulting process too. -/
theorem staysInside_iff {heap : Nat → Word} {addrSpaces : Nat → Option SpaceId} {vpns : Nat → Nat}
    {tlb : Nat → TranslationEntry} {evs : List Event} {sp : AddressSpace}
    (hrun : runs (Vm.step policy) (boot heap addrSpaces vpns tlb) evs = some vm) (hcur : vm.current = some this)
    (hsp : vm.spaces this = some sp) (addr choice : Nat) :
    vm.StaysInside policy this sp.numPages addr choice ↔ vm.FaultInside policy this sp.numPages addr choice := by
  have hinside : PagesInside vm := runs_inv (fun _ _ _ h _ hs => PagesInside.step h hs)
    (pagesInside_boot heap addrSpaces vpns tlb) (AllSteps.trivial _ _) hrun
  exact hinside.fault_inside_iff hcur hsp policy addr choice

/-- The machine runs a process of 16 pages. -/
def sixteenPages : List Event := [.create 0 (bareExecutable 0) (fun _ => 0) (fun _ => 0), .switchTo (some 0)]

theorem runs_sixteenPages : ∃ vm sp, runs (Vm.step .fifo) zeroedBoot sixteenPages = some vm ∧
    vm.current = some 0 ∧ vm.spaces 0 = some sp ∧ sp.numPages = 16 ∧ (vm.paginaMapa.find 0 0).1 ≠ none := by
  have hrun : (runs (Vm.step .fifo) zeroedBoot sixteenPages).map (fun vm =>
      (vm.current, (vm.spaces 0).map AddressSpace.numPages, (vm.paginaMapa.find 0 0).1)) =
      some (some 0, some 16, some 0) := by decide
  obtain ⟨vm, hvm, hproj⟩ := Option.map_eq_some_iff.mp hrun
  simp only [Prod.mk.injEq, Option.map_eq_some_iff] at hproj
  obtain ⟨hcur, ⟨sp, hsp, hpages⟩, hfind⟩ := hproj
  exact ⟨vm, sp, hvm, hcur, hsp, hpages, by rw [hfind]; simp⟩

/-- A fault on the first page. -/
theorem staysInside_iff_firstPage : ∃ vm, runs (Vm.step .fifo) zeroedBoot sixteenPages = some vm ∧
    vm.current = some 0 ∧ vm.StaysInside .fifo 0 16 0 0 := by
  obtain ⟨vm, sp, hrun, hcur, hsp, hpages, hfind⟩ := runs_sixteenPages
  have hiff := staysInside_iff hrun hcur hsp 0 0
  rw [hpages] at hiff
  exact ⟨vm, hrun, hcur, hiff.mpr ⟨by decide, fun _ _ _ hnone => absurd hnone hfind⟩⟩

/-- A fault on the page behind the last one reads the page table there. -/
theorem not_staysInside_behind :
    ¬ ∀ (policy : PrPolicy) (heap : Nat → Word) (addrSpaces : Nat → Option SpaceId) (vpns : Nat → Nat)
      (tlb : Nat → TranslationEntry) (evs : List Event) (vm : Vm) (this : SpaceId) (sp : AddressSpace)
      (addr choice : Nat), runs (Vm.step policy) (boot heap addrSpaces vpns tlb) evs = some vm →
      vm.current = some this → vm.spaces this = some sp → addr < 2 ^ 32 →
      vm.StaysInside policy this sp.numPages addr choice := by
  intro hall
  obtain ⟨vm, sp, hrun, hcur, hsp, hpages, -⟩ := runs_sixteenPages
  have h := (hall .fifo _ _ _ _ _ vm 0 sp (16 * pageSize) 0 hrun hcur hsp (by decide)).1 _ List.mem_cons_self
  rw [hpages] at h
  exact absurd h (by decide)

end Vm

end Nachos
