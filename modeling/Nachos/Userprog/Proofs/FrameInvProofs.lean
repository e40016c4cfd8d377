import Nachos.Userprog.Proofs.VmBasicProofs

/-!
# Proofs: the frame invariant

The invariant that ties the page tables, the TLB and the coremap together, and the operations that
keep it without moving a page: accesses, TLB write-backs, the clearing of `use` bits by the
replacement policy and context switches.
-/

namespace Nachos

open Foundations

/-- What ownership of frames sees of a translation entry. -/
def TranslationEntry.core (e : TranslationEntry) : Nat × Nat × Bool :=
  (e.virtualPage, e.physicalPage, e.valid)

/-- The entry without its `use` bit. -/
def TranslationEntry.noUse (e : TranslationEntry) : TranslationEntry := { e with use := false }

@[simp]
theorem TranslationEntry.core_noUse (e : TranslationEntry) : e.noUse.core = e.core := rfl

namespace Vm

/-- Page `v` of the address space `A` is in frame `f`. -/
def Maps (vm : Vm) (A : SpaceId) (v f : Nat) : Prop :=
  ∃ e, vm.getEntry A v = some e ∧ e.valid = true ∧ e.physicalPage = f

/-- Every valid entry of the first TLB is in the second one, at the same place, with the same page
and frame. -/
def TlbLe (tlb' tlb : List TranslationEntry) : Prop :=
  ∀ (i : Nat) (e' : TranslationEntry), tlb'[i]? = some e' → e'.valid = true →
    ∃ e, tlb[i]? = some e ∧ e.valid = true ∧ e.virtualPage = e'.virtualPage ∧
      e.physicalPage = e'.physicalPage

/-- The invariant: the coremap names the owner of each frame, every page table and swap map has the
size of its address space, and the TLB holds translations of the running process, at most one for
each page. -/
structure FrameInv (vm : Vm) : Prop where
  coremap : vm.paginaMapa.Ok
  owned : ∀ A v f, vm.Maps A v f ↔ vm.paginaMapa.owner f = some (A, v)
  sizes : ∀ A sp, vm.spaces A = some sp →
    sp.pageTable.length = sp.numPages ∧ sp.swapMap.numBits = sp.numPages
  vpn : ∀ A v e, vm.getEntry A v = some e → e.virtualPage = v
  tlb_page : ∀ e ∈ vm.mmu.tlb, e.valid = true →
    ∃ A, vm.current = some A ∧ vm.Maps A e.virtualPage e.physicalPage
  tlb_inj : ∀ (i j : Nat) (e e' : TranslationEntry), vm.mmu.tlb[i]? = some e →
    vm.mmu.tlb[j]? = some e' → e.valid = true → e'.valid = true →
    e.virtualPage = e'.virtualPage → i = j

theorem TlbLe.refl (tlb : List TranslationEntry) : TlbLe tlb tlb :=
  fun _ e he hv => ⟨e, he, hv, rfl, rfl⟩

theorem TlbLe.trans {t1 t2 t3 : List TranslationEntry} (h1 : TlbLe t1 t2) (h2 : TlbLe t2 t3) :
    TlbLe t1 t3 := by
  intro i e he hv
  obtain ⟨e2, he2, hv2, ha, hb⟩ := h1 i e he hv
  obtain ⟨e3, he3, hv3, hc, hd⟩ := h2 i e2 he2 hv2
  exact ⟨e3, he3, hv3, hc.trans ha, hd.trans hb⟩

/-- Overwriting one entry by one with the same page and frame, or by an invalid one. -/
theorem TlbLe.set {tlb : List TranslationEntry} {i : Nat} {e e' : TranslationEntry}
    (he : tlb[i]? = some e)
    (h : e'.valid = true →
      e.valid = true ∧ e'.virtualPage = e.virtualPage ∧ e'.physicalPage = e.physicalPage) :
    TlbLe (tlb.set i e') tlb := by
  intro j x hx hv
  by_cases hj : i = j
  · subst hj
    have hlt : i < tlb.length := (List.getElem?_eq_some_iff.mp he).1
    rw [List.getElem?_set_self hlt, Option.some.injEq] at hx
    subst hx
    obtain ⟨h1, h2, h3⟩ := h hv
    exact ⟨e, he, h1, h2.symm, h3.symm⟩
  · rw [List.getElem?_set_ne hj] at hx
    exact ⟨x, hx, hv, rfl, rfl⟩

/-- TLBs that agree on `core` are related. -/
theorem TlbLe.of_core {tlb' tlb : List TranslationEntry}
    (h : tlb'.map TranslationEntry.core = tlb.map TranslationEntry.core) : TlbLe tlb' tlb := by
  intro i e' he' hv
  have hi : (tlb'.map TranslationEntry.core)[i]? = (tlb.map TranslationEntry.core)[i]? := by rw [h]
  simp only [List.getElem?_map, he', Option.map_some] at hi
  obtain ⟨e, he, hcore⟩ := Option.map_eq_some_iff.mp hi.symm
  simp only [TranslationEntry.core, Prod.mk.injEq] at hcore
  exact ⟨e, he, by rw [hcore.2.2]; exact hv, hcore.1, hcore.2.1⟩

/-- A TLB without valid entries is below every TLB. -/
theorem TlbLe.of_invalid {tlb' : List TranslationEntry} (h : ∀ e ∈ tlb', e.valid = false)
    (tlb : List TranslationEntry) : TlbLe tlb' tlb := by
  intro i e he hv
  rw [h e (List.mem_of_getElem? he)] at hv
  cases hv

variable {vm vm' : Vm} {A this : SpaceId} {v f vpn : Nat}

/-- `Maps` reads the `core` of an entry. -/
theorem maps_iff_core :
    vm.Maps A v f ↔ ∃ x, (vm.getEntry A v).map TranslationEntry.core = some (x, f, true) := by
  simp only [Maps, Option.map_eq_some_iff, TranslationEntry.core, Prod.mk.injEq]
  constructor
  · rintro ⟨e, he, hv, hf⟩
    exact ⟨e.virtualPage, e, he, rfl, hf, hv⟩
  · rintro ⟨x, e, he, -, hf, hv⟩
    exact ⟨e, he, hv, hf⟩

/-- A change that moves no page keeps the invariant. -/
theorem FrameInv.of_core (h : FrameInv vm) (hmap : vm'.paginaMapa = vm.paginaMapa)
    (hcore : ∀ A v, (vm'.getEntry A v).map TranslationEntry.core =
      (vm.getEntry A v).map TranslationEntry.core)
    (hsizes : ∀ A sp, vm'.spaces A = some sp →
      sp.pageTable.length = sp.numPages ∧ sp.swapMap.numBits = sp.numPages)
    (htlb : TlbLe vm'.mmu.tlb vm.mmu.tlb)
    (hcur : (∃ e ∈ vm'.mmu.tlb, e.valid = true) → vm'.current = vm.current) : FrameInv vm' := by
  have hmaps : ∀ A v f, vm'.Maps A v f ↔ vm.Maps A v f := by
    intro A v f
    rw [maps_iff_core, maps_iff_core, hcore]
  refine ⟨by rw [hmap]; exact h.coremap, ?_, hsizes, ?_, ?_, ?_⟩
  · intro A v f
    rw [hmaps, hmap]
    exact h.owned A v f
  · intro A v e he
    have hc := hcore A v
    rw [he, Option.map_some] at hc
    obtain ⟨e0, he0, hce⟩ := Option.map_eq_some_iff.mp hc.symm
    have hvp : e0.virtualPage = e.virtualPage := congrArg Prod.fst hce
    rw [← hvp]
    exact h.vpn A v e0 he0
  · intro e he hv
    obtain ⟨i, hi⟩ := List.mem_iff_getElem?.mp he
    obtain ⟨e0, he0, hv0, hp, hf⟩ := htlb i e hi hv
    obtain ⟨A, hA, hm⟩ := h.tlb_page e0 (List.mem_of_getElem? he0) hv0
    rw [hp, hf] at hm
    exact ⟨A, by rw [hcur ⟨e, he, hv⟩]; exact hA, (hmaps _ _ _).mpr hm⟩
  · intro i j e e' hi hj hv hv' hp
    obtain ⟨a, ha, hav, hap, -⟩ := htlb i e hi hv
    obtain ⟨b, hb, hbv, hbp, -⟩ := htlb j e' hj hv'
    exact h.tlb_inj i j a b ha hb hav hbv (by rw [hap, hbp, hp])

/-- A page of a process that is mapped is below its number of pages. -/
theorem FrameInv.frame_lt (h : FrameInv vm) (hm : vm.Maps A v f) : f < numPhysPages :=
  (h.coremap.owner_eq_some.mp ((h.owned A v f).mp hm)).1

/-- No two pages share a frame. -/
theorem FrameInv.maps_inj (h : FrameInv vm) {B : SpaceId} {w : Nat} (h1 : vm.Maps A v f)
    (h2 : vm.Maps B w f) : A = B ∧ v = w := by
  have e := ((h.owned A v f).mp h1).symm.trans ((h.owned B w f).mp h2)
  simpa using e

/-! ## Accesses -/

/-- What a successful translation does. -/
theorem translate_ok {m m' : Mmu} {addr phys : Nat} {size : AccessSize} {writing : Bool}
    (h : m.translate addr size writing = .ok (phys, m')) :
    ∃ i e, m.tlb[i]? = some e ∧ e.valid = true ∧ e.virtualPage = addr / pageSize ∧
      addr % size.bytes = 0 ∧ e.physicalPage < numPhysPages ∧
      phys = e.physicalPage * pageSize + addr % pageSize ∧
      m' = { m with tlb := m.tlb.set i { e with use := true, dirty := e.dirty || writing } } := by
  unfold Mmu.translate at h
  split at h
  · cases h
  · rename_i hal
    split at h
    · cases h
    · rename_i i e hr
      simp only [Mmu.retrievePageEntry, Option.bind_eq_bind, Option.bind_eq_some_iff,
        Option.pure_def, Option.some.injEq, Prod.mk.injEq] at hr
      obtain ⟨i', hi', e', he', rfl, rfl⟩ := hr
      obtain ⟨hlt, hp, -⟩ := List.findIdx?_eq_some_iff_getElem.mp hi'
      rw [List.getElem?_eq_getElem hlt, Option.some.injEq] at he'
      rw [he'] at hp
      simp only [Bool.and_eq_true, beq_iff_eq] at hp
      split at h
      · cases h
      · split at h
        · cases h
        · rename_i hf
          cases h
          refine ⟨i', e', by rw [List.getElem?_eq_getElem hlt, he'], hp.1, hp.2, by simpa using hal,
            by omega, rfl, rfl⟩

/-- A translation that page-faults found no valid TLB entry for the page. -/
theorem translate_fault {m : Mmu} {addr : Nat} {size : AccessSize} {writing : Bool}
    (h : m.translate addr size writing = .error .pageFaultException) :
    addr % size.bytes = 0 ∧ ∀ e ∈ m.tlb, e.valid = true → e.virtualPage ≠ addr / pageSize := by
  unfold Mmu.translate at h
  split at h
  · cases h
  · rename_i hal
    split at h
    · rename_i hr
      refine ⟨by simpa using hal, fun e he hv hp => ?_⟩
      simp only [Mmu.retrievePageEntry, Option.bind_eq_bind, Option.bind_eq_none_iff,
        Option.pure_def, reduceCtorEq, imp_false] at hr
      cases hi : m.tlb.findIdx? fun e => e.valid && e.virtualPage == addr / pageSize with
      | none =>
        have := List.findIdx?_eq_none_iff.mp hi e he
        simp [hv, hp] at this
      | some i =>
        obtain ⟨hlt, -, -⟩ := List.findIdx?_eq_some_iff_getElem.mp hi
        exact hr i hi _ (List.getElem?_eq_getElem hlt)
    · split at h
      · cases h
      · split at h <;> cases h

/-- A successful translation keeps the invariant, whatever is then written to memory. -/
theorem FrameInv.translate (h : FrameInv vm) {m' : Mmu} {addr phys : Nat} {size : AccessSize}
    {writing : Bool} (ht : vm.mmu.translate addr size writing = .ok (phys, m'))
    (mem : ByteMemory) : FrameInv { vm with mmu := { m' with mainMemory := mem } } := by
  obtain ⟨i, e, he, hv, -, -, -, -, rfl⟩ := translate_ok ht
  exact h.of_core rfl (fun _ _ => rfl) h.sizes (TlbLe.set he fun _ => ⟨hv, rfl, rfl⟩) fun _ => rfl

/-! ## The replacement policy only clears `use` bits -/

/-- The address space without the `use` bits of its page table. -/
def eraseUse (sp : AddressSpace) : AddressSpace :=
  { sp with pageTable := sp.pageTable.map TranslationEntry.noUse }

/-- The states differ in `use` bits and in the hand of the replacement policy only. -/
structure UseEq (vm vm' : Vm) : Prop where
  mem : vm'.mmu.mainMemory = vm.mmu.mainMemory
  map : vm'.paginaMapa = vm.paginaMapa
  current : vm'.current = vm.current
  index : vm'.index = vm.index
  tlb : vm'.mmu.tlb.map TranslationEntry.noUse = vm.mmu.tlb.map TranslationEntry.noUse
  spaces : ∀ A, (vm'.spaces A).map eraseUse = (vm.spaces A).map eraseUse

theorem UseEq.refl (vm : Vm) : UseEq vm vm := ⟨rfl, rfl, rfl, rfl, rfl, fun _ => rfl⟩

theorem UseEq.trans {vm1 vm2 vm3 : Vm} (h1 : UseEq vm1 vm2) (h2 : UseEq vm2 vm3) : UseEq vm1 vm3 :=
  ⟨h2.mem.trans h1.mem, h2.map.trans h1.map, h2.current.trans h1.current, h2.index.trans h1.index,
    h2.tlb.trans h1.tlb, fun A => (h2.spaces A).trans (h1.spaces A)⟩

/-- The hand does not matter. -/
theorem UseEq.victima (vm : Vm) (n : Nat) : UseEq vm { vm with victima := n } :=
  ⟨rfl, rfl, rfl, rfl, rfl, fun _ => rfl⟩

/-- A list with one element replaced by one with the same image has the same image. -/
theorem map_set_of_eq {α β : Type*} (g : α → β) {l : List α} {i : Nat} {a a' : α} (ha : l[i]? = some a)
    (h : g a' = g a) : (l.set i a').map g = l.map g := by
  rw [List.map_set, h]
  apply List.ext_getElem?
  intro j
  by_cases hj : i = j
  · subst hj
    have hlt : i < l.length := (List.getElem?_eq_some_iff.mp ha).1
    rw [List.getElem?_set_self (by simpa using hlt)]
    simp [ha]
  · rw [List.getElem?_set_ne hj]

theorem useEq_clearUse {ref : EntryRef} (h : vm.clearUse this ref = some vm') : UseEq vm vm' := by
  cases ref with
  | tlb i =>
    simp only [clearUse, Option.bind_eq_bind, Option.bind_eq_some_iff, Option.pure_def,
      Option.some.injEq] at h
    obtain ⟨e, he, rfl⟩ := h
    exact ⟨rfl, rfl, rfl, rfl, map_set_of_eq _ he rfl, fun _ => rfl⟩
  | page vpn =>
    simp only [clearUse, Option.bind_eq_bind, Option.bind_eq_some_iff] at h
    obtain ⟨e, he, h⟩ := h
    obtain ⟨sp, hsp, hpe⟩ := getEntry_eq_some.mp he
    rw [setEntry_eq hsp (List.getElem?_eq_some_iff.mp hpe).1, Option.some.injEq] at h
    subst h
    refine ⟨rfl, rfl, rfl, rfl, rfl, fun B => ?_⟩
    rw [spaces_setSpace]
    split
    · rename_i hB
      subst hB
      rw [hsp]
      have hpt : (sp.pageTable.set vpn { e with use := false }).map TranslationEntry.noUse =
          sp.pageTable.map TranslationEntry.noUse := map_set_of_eq _ hpe rfl
      simp only [Option.map_some, eraseUse, hpt]
    · rfl

theorem useEq_clockRound {round : Nat} {ps : List Nat} {o : Option Nat} :
    ∀ {vm : Vm}, clockRound this round ps vm = some (o, vm') → UseEq vm vm' := by
  induction ps with
  | nil =>
    intro vm h
    simp only [clockRound, Option.some.injEq, Prod.mk.injEq] at h
    obtain ⟨-, rfl⟩ := h
    exact UseEq.refl _
  | cons p ps ih =>
    intro vm h
    simp only [clockRound, Option.bind_eq_bind, Option.bind_eq_some_iff] at h
    obtain ⟨ref, -, h⟩ := h
    cases ref with
    | none => exact ih h
    | some ref =>
      simp only [Option.bind_eq_some_iff] at h
      obtain ⟨e, -, h⟩ := h
      split at h
      · simp only [Option.pure_def, Option.some.injEq, Prod.mk.injEq] at h
        obtain ⟨-, rfl⟩ := h
        exact UseEq.victima vm _
      · split at h
        · simp only [Option.bind_eq_some_iff] at h
          obtain ⟨vm1, h1, h⟩ := h
          exact (useEq_clearUse h1).trans (ih h)
        · exact ih h

theorem useEq_clockRounds {rounds : List Nat} :
    ∀ {vm : Vm}, clockRounds this rounds vm = some (f, vm') → UseEq vm vm' := by
  induction rounds with
  | nil =>
    intro vm h
    simp only [clockRounds, Option.some.injEq, Prod.mk.injEq] at h
    obtain ⟨-, rfl⟩ := h
    exact UseEq.victima vm _
  | cons round rounds ih =>
    intro vm h
    simp only [clockRounds, Option.bind_eq_bind, Option.bind_eq_some_iff] at h
    obtain ⟨⟨o, vm1⟩, h1, h⟩ := h
    cases o with
    | some g =>
      simp only [Option.pure_def, Option.some.injEq, Prod.mk.injEq] at h
      obtain ⟨-, rfl⟩ := h
      exact useEq_clockRound h1
    | none => exact (useEq_clockRound h1).trans (ih h)

/-- `PickVictim` changes nothing but `use` bits and its hand. -/
theorem useEq_pickVictim {policy : PrPolicy} {choice : Nat}
    (h : vm.pickVictim policy this choice = some (f, vm')) : UseEq vm vm' := by
  cases policy with
  | fifo =>
    simp only [pickVictim, Option.some.injEq, Prod.mk.injEq] at h
    obtain ⟨-, rfl⟩ := h
    exact UseEq.victima vm _
  | clock => exact useEq_clockRounds h
  | random =>
    simp only [pickVictim, Option.some.injEq, Prod.mk.injEq] at h
    obtain ⟨-, rfl⟩ := h
    exact UseEq.refl _

/-- The entries of a state that differs in `use` bits only. -/
theorem UseEq.getEntry (h : UseEq vm vm') (A : SpaceId) (v : Nat) :
    (vm'.getEntry A v).map TranslationEntry.noUse = (vm.getEntry A v).map TranslationEntry.noUse := by
  have hs := h.spaces A
  unfold Vm.getEntry
  cases h1 : vm'.spaces A with
  | none =>
    cases h2 : vm.spaces A with
    | none => rfl
    | some sp2 => simp [h1, h2] at hs
  | some sp1 =>
    cases h2 : vm.spaces A with
    | none => simp [h1, h2] at hs
    | some sp2 =>
      rw [h1, h2, Option.map_some, Option.map_some, Option.some.injEq] at hs
      have hpt : sp1.pageTable.map TranslationEntry.noUse = sp2.pageTable.map TranslationEntry.noUse :=
        congrArg AddressSpace.pageTable hs
      simp only [Option.bind_eq_bind, Option.bind_some, ← List.getElem?_map, hpt]

/-- The `core` of an entry is that of the entry without `use` bit. -/
theorem map_core_of_noUse {o o' : Option TranslationEntry}
    (h : o'.map TranslationEntry.noUse = o.map TranslationEntry.noUse) :
    o'.map TranslationEntry.core = o.map TranslationEntry.core := by
  have := congrArg (Option.map TranslationEntry.core) h
  simpa [Option.map_map, Function.comp_def] using this

theorem UseEq.tlbLe (h : UseEq vm vm') : TlbLe vm'.mmu.tlb vm.mmu.tlb := by
  refine TlbLe.of_core ?_
  have := congrArg (List.map TranslationEntry.core) h.tlb
  simpa [List.map_map, Function.comp_def] using this

/-- The sizes of an address space do not depend on `use` bits. -/
theorem UseEq.sizes (h : UseEq vm vm')
    (hs : ∀ A sp, vm.spaces A = some sp →
      sp.pageTable.length = sp.numPages ∧ sp.swapMap.numBits = sp.numPages) :
    ∀ A sp, vm'.spaces A = some sp →
      sp.pageTable.length = sp.numPages ∧ sp.swapMap.numBits = sp.numPages := by
  intro A sp hsp
  have hA := h.spaces A
  rw [hsp, Option.map_some] at hA
  obtain ⟨sp0, hsp0, he⟩ := Option.map_eq_some_iff.mp hA.symm
  have hpt := congrArg (fun s => s.pageTable.length) he
  have hnp : (eraseUse sp0).numPages = (eraseUse sp).numPages := by rw [he]
  have hsm : (eraseUse sp0).swapMap = (eraseUse sp).swapMap := by rw [he]
  simp only [eraseUse, List.length_map] at hpt
  obtain ⟨h1, h2⟩ := hs A sp0 hsp0
  simp only [eraseUse] at hnp hsm
  exact ⟨by rw [← hpt, h1, hnp], by rw [← hsm, h2, hnp]⟩

theorem FrameInv.useEq (h : FrameInv vm) (hu : UseEq vm vm') : FrameInv vm' :=
  h.of_core hu.map (fun A v => map_core_of_noUse (hu.getEntry A v)) (hu.sizes h.sizes) hu.tlbLe
    fun _ => hu.current

/-! ## Context switches -/

/-- `SaveState` over the TLB: it invalidates the TLB, and the page table keeps its length and its
translations. -/
theorem saveTlb_spec : ∀ {tlb pt tlb' pt' : List TranslationEntry},
    saveTlb tlb pt = some (tlb', pt') →
      (∀ e ∈ tlb', e.valid = false) ∧ pt'.length = pt.length ∧
        pt'.map TranslationEntry.core = pt.map TranslationEntry.core := by
  intro tlb
  induction tlb with
  | nil =>
    intro pt tlb' pt' h
    simp only [saveTlb, Option.some.injEq, Prod.mk.injEq] at h
    obtain ⟨rfl, rfl⟩ := h
    simp
  | cons e tlb ih =>
    intro pt tlb' pt' h
    simp only [saveTlb, Option.bind_eq_bind] at h
    split at h
    · simp only [Option.bind_eq_some_iff, Option.pure_def, Option.some.injEq, Prod.mk.injEq] at h
      obtain ⟨e0, he0, ⟨tlb1, pt1⟩, h1, rfl, rfl⟩ := h
      obtain ⟨hv, hl, hc⟩ := ih h1
      refine ⟨?_, by simpa using hl, by rw [hc]; exact map_set_of_eq _ he0 rfl⟩
      intro x hx
      rcases List.mem_cons.mp hx with rfl | hx
      · rfl
      · exact hv x hx
    · rename_i hve
      simp only [Option.bind_eq_some_iff, Option.pure_def, Option.some.injEq, Prod.mk.injEq] at h
      obtain ⟨⟨tlb1, pt1⟩, h1, rfl, rfl⟩ := h
      obtain ⟨hv, hl, hc⟩ := ih h1
      refine ⟨?_, hl, hc⟩
      intro x hx
      rcases List.mem_cons.mp hx with rfl | hx
      · simpa using hve
      · exact hv x hx

/-- `SaveState` keeps the invariant and leaves no valid TLB entry. -/
theorem FrameInv.saveState (h : FrameInv vm) (hs : vm.saveState this = some vm') :
    FrameInv vm' ∧ (∀ e ∈ vm'.mmu.tlb, e.valid = false) ∧ vm'.spaces this ≠ none := by
  simp only [Vm.saveState, Option.bind_eq_bind, Option.bind_eq_some_iff] at hs
  obtain ⟨sp, hsp, ⟨tlb', pt'⟩, hsave, hs⟩ := hs
  obtain ⟨hinv, hlen, hcore⟩ := saveTlb_spec hsave
  have hsp' : (vm.setTlb tlb').spaces this = some sp := hsp
  rw [setPageTable_eq hsp', Option.some.injEq] at hs
  subst hs
  refine ⟨h.of_core rfl ?_ ?_ (TlbLe.of_invalid hinv _) fun _ => rfl, hinv, by simp⟩
  · intro A v
    rw [getEntry_setSpace]
    split
    · rename_i hA
      subst hA
      rw [getEntry_eq hsp, ← List.getElem?_map, ← List.getElem?_map, hcore]
    · rfl
  · intro A sp0 hsp0
    rw [spaces_setSpace] at hsp0
    split at hsp0
    · cases hsp0
      obtain ⟨h1, h2⟩ := h.sizes this sp hsp
      exact ⟨hlen.trans h1, h2⟩
    · exact h.sizes A sp0 hsp0

/-- With no valid TLB entry, any process may become the running one. -/
theorem FrameInv.setCurrent (h : FrameInv vm) (hinv : ∀ e ∈ vm.mmu.tlb, e.valid = false)
    (next : Option SpaceId) : FrameInv { vm with current := next } :=
  h.of_core rfl (fun _ _ => rfl) h.sizes (TlbLe.refl _) fun ⟨e, he, hv⟩ => by
    have hf := hinv e he
    rw [hf] at hv
    cases hv

theorem FrameInv.restoreState (h : FrameInv vm) : FrameInv vm.restoreState := by
  have hinv : ∀ e ∈ vm.restoreState.mmu.tlb, e.valid = false := by
    intro e he
    obtain ⟨e0, -, rfl⟩ := List.mem_map.mp he
    rfl
  exact h.of_core rfl (fun _ _ => rfl) h.sizes (TlbLe.of_invalid hinv _) fun _ => rfl

/-- Context switches keep the invariant. -/
theorem FrameInv.switchTo (h : FrameInv vm) {next : Option SpaceId}
    (hs : vm.switchTo next = some vm') : FrameInv vm' := by
  simp only [Vm.switchTo, Option.bind_eq_bind, Option.bind_eq_some_iff] at hs
  obtain ⟨vm1, h1, hs⟩ := hs
  unfold saveCurrent at h1
  have hinv : FrameInv vm1 ∧ ∀ e ∈ vm1.mmu.tlb, e.valid = false := by
    cases hc : vm.current with
    | none =>
      rw [hc] at h1
      cases h1
      refine ⟨h, fun e he => ?_⟩
      by_contra hv
      obtain ⟨A, hA, -⟩ := h.tlb_page e he (by simpa using hv)
      rw [hc] at hA
      cases hA
    | some old =>
      rw [hc] at h1
      obtain ⟨hI, hv, -⟩ := h.saveState h1
      exact ⟨hI, hv⟩
  have hcur := hinv.1.setCurrent hinv.2 next
  cases next with
  | none =>
    cases hs
    exact hcur
  | some id =>
    simp only [Option.bind_eq_some_iff, Option.pure_def, Option.some.injEq] at hs
    obtain ⟨_, -, rfl⟩ := hs
    exact hcur.restoreState

end Vm

end Nachos
