import Nachos.Foundations.Runs
import Nachos.Userprog.Proofs.FrameInvProofs

/-!
# Proofs: who owns a frame

`EscribirFrameenSwap` finds the owner of the victim frame, but reads and writes the page table of the
faulting process. As long as the victim is a page of the faulting process itself, every event keeps
the frame invariant; a victim of another process leaves two pages in one frame.
-/

namespace Nachos

open Foundations

namespace Vm

variable {vm vm' : Vm} {A this : SpaceId} {v f vpn : Nat}

/-! ## Evicting a page of the faulting process -/

/-- The entry that `EscribirFrameenSwap` finds in the page table after its loop over the TLB. -/
def victimEntry (vm : Vm) (pt : List TranslationEntry) (vpn frame : Nat) : Option TranslationEntry :=
  match vm.mmu.tlb.findIdx? fun e => e.physicalPage == frame && e.valid with
  | some i => vm.mmu.tlb[i]?
  | none => pt[vpn]?

/-- The TLB after the loop: the entry of the frame is invalid. -/
def evictedTlb (vm : Vm) (frame : Nat) : List TranslationEntry :=
  match vm.mmu.tlb.findIdx? fun e => e.physicalPage == frame && e.valid with
  | some i =>
    match vm.mmu.tlb[i]? with
    | some e => vm.mmu.tlb.set i { e with valid := false }
    | none => vm.mmu.tlb
  | none => vm.mmu.tlb

/-- The address space after its page `vpn` has been sent to swap; `e` is the entry of the page. -/
def evictedSpace (vm : Vm) (sp : AddressSpace) (vpn frame : Nat) (e : TranslationEntry) :
    AddressSpace :=
  { sp with
    pageTable := sp.pageTable.set vpn { e with dirty := false, valid := false }
    swapFD := if e.dirty then
        blit sp.swapFD (vpn * pageSize) (slice vm.mmu.mainMemory (frame * pageSize) pageSize)
      else sp.swapFD
    swapMap := if e.dirty then sp.swapMap.mark vpn else sp.swapMap }

/-- The loop over the TLB, for a page that exists: it moves the entry into the page table. -/
theorem moveTlbEntry_eq {sp : AddressSpace} (hsp : vm.spaces this = some sp)
    (hv : vpn < sp.pageTable.length) (frame : Nat) :
    ∃ e, vm.victimEntry sp.pageTable vpn frame = some e ∧
      vm.moveTlbEntry this vpn frame =
        some ((vm.setTlb (vm.evictedTlb frame)).setSpace this
          { sp with pageTable := sp.pageTable.set vpn e }) := by
  unfold moveTlbEntry victimEntry evictedTlb
  cases hi : vm.mmu.tlb.findIdx? fun e => e.physicalPage == frame && e.valid with
  | none =>
    obtain ⟨e, he⟩ : ∃ e, sp.pageTable[vpn]? = some e := ⟨_, List.getElem?_eq_getElem hv⟩
    refine ⟨e, he, ?_⟩
    have hset : sp.pageTable.set vpn e = sp.pageTable := by
      rw [List.getElem?_eq_getElem hv, Option.some.injEq] at he
      rw [← he, List.set_getElem_self]
    simp only [hset]
    congr 1
    cases vm
    simp only [setTlb, setSpace, Vm.mk.injEq, true_and, and_true]
    exact (Function.update_eq_self_iff.mpr hsp.symm).symm
  | some i =>
    obtain ⟨hlt, -, -⟩ := List.findIdx?_eq_some_iff_getElem.mp hi
    refine ⟨vm.mmu.tlb[i], List.getElem?_eq_getElem hlt, ?_⟩
    simp only [List.getElem?_eq_getElem hlt, Option.bind_eq_bind, Option.bind_some,
      setEntry_eq hsp hv, Option.pure_def]
    rfl

/-- `EscribirFrameenSwap` on a frame of the faulting process. -/
theorem escribir_own {sp : AddressSpace} (hI : FrameInv vm) (hsp : vm.spaces this = some sp)
    (ho : vm.paginaMapa.owner f = some (this, vpn)) :
    ∃ e, vm.victimEntry sp.pageTable vpn f = some e ∧
      vm.escribirFrameenSwap this f =
        some ((vm.setTlb (vm.evictedTlb f)).setSpace this (vm.evictedSpace sp vpn f e)) := by
  obtain ⟨hgv, hga⟩ := hI.coremap.get_of_owner ho
  obtain ⟨e0, he0, hv0, -⟩ := (hI.owned this vpn f).mpr ho
  rw [getEntry_eq hsp] at he0
  have hlt : vpn < sp.pageTable.length := (List.getElem?_eq_some_iff.mp he0).1
  obtain ⟨hlen, hbits⟩ := hI.sizes this sp hsp
  obtain ⟨e, he, hmove⟩ := moveTlbEntry_eq hsp hlt f
  refine ⟨e, he, ?_⟩
  have hent : ((vm.setTlb (vm.evictedTlb f)).setSpace this
      { sp with pageTable := sp.pageTable.set vpn e }).getEntry this vpn = some e := by
    rw [getEntry_setSpace, if_pos rfl]
    exact List.getElem?_set_self hlt
  unfold escribirFrameenSwap
  simp only [hgv, hga, hmove, hent, Option.bind_eq_bind, Option.bind_some]
  cases hd : e.dirty with
  | false =>
    simp only [Bool.false_eq_true, if_false]
    have hs1 : ((vm.setTlb (vm.evictedTlb f)).setSpace this
        { sp with pageTable := sp.pageTable.set vpn e }).spaces this =
          some { sp with pageTable := sp.pageTable.set vpn e } := by simp
    rw [setEntry_eq hs1 (by simpa using hlt)]
    simp [setSpace, setTlb, evictedSpace, hd, Function.update_idem]
  | true =>
    have hbv : vpn < sp.swapMap.numBits := by omega
    simp only [if_true, writeToSwap, Option.bind_eq_bind, Option.bind_some, spaces_setSpace, hbv,
      guard_true, Option.pure_def]
    rw [setEntry_eq (by simp; rfl) (by simpa using hlt)]
    simp [setSpace, setTlb, evictedSpace, hd, Function.update_idem]

/-- The entry of the victim is that of the page the frame belongs to. -/
theorem victimEntry_core {sp : AddressSpace} {e : TranslationEntry} (hI : FrameInv vm)
    (hsp : vm.spaces this = some sp) (ho : vm.paginaMapa.owner f = some (this, vpn))
    (he : vm.victimEntry sp.pageTable vpn f = some e) :
    e.virtualPage = vpn ∧ e.physicalPage = f ∧ e.valid = true := by
  unfold victimEntry at he
  split at he
  · rename_i i hi
    obtain ⟨hlt, hp, -⟩ := List.findIdx?_eq_some_iff_getElem.mp hi
    rw [List.getElem?_eq_getElem hlt, Option.some.injEq] at he
    rw [he] at hp
    simp only [Bool.and_eq_true, beq_iff_eq] at hp
    obtain ⟨B, -, hm⟩ := hI.tlb_page e (he ▸ List.getElem_mem hlt) hp.2
    rw [hp.1] at hm
    obtain ⟨-, hv⟩ := hI.maps_inj hm ((hI.owned this vpn f).mpr ho)
    exact ⟨hv, hp.1, hp.2⟩
  · obtain ⟨e0, he0, hv0, hf0⟩ := (hI.owned this vpn f).mpr ho
    have hvp := hI.vpn this vpn e0 he0
    rw [getEntry_eq hsp, he, Option.some.injEq] at he0
    subst he0
    exact ⟨hvp, hf0, hv0⟩

/-- After the loop over the TLB, no valid entry of it translates to the frame. -/
theorem evictedTlb_spec (hI : FrameInv vm) (f : Nat) :
    TlbLe (vm.evictedTlb f) vm.mmu.tlb ∧
      ∀ e ∈ vm.evictedTlb f, e.valid = true → e.physicalPage ≠ f := by
  unfold evictedTlb
  cases hi : vm.mmu.tlb.findIdx? fun e => e.physicalPage == f && e.valid with
  | none =>
    refine ⟨TlbLe.refl _, fun e he hv hf => ?_⟩
    have hn := List.findIdx?_eq_none_iff.mp hi e he
    simp [hv, hf] at hn
  | some i =>
    obtain ⟨hlt, hp, -⟩ := List.findIdx?_eq_some_iff_getElem.mp hi
    have hget := List.getElem?_eq_getElem hlt
    simp only [Bool.and_eq_true, beq_iff_eq] at hp
    simp only [hget]
    refine ⟨TlbLe.set hget (fun h => by cases h), fun e he hv hf => ?_⟩
    obtain ⟨j, hj⟩ := List.mem_iff_getElem?.mp he
    by_cases hij : i = j
    · subst hij
      rw [List.getElem?_set_self hlt, Option.some.injEq] at hj
      subst hj
      cases hv
    · -- a second entry for the frame would be a second entry for its page
      rw [List.getElem?_set_ne hij] at hj
      obtain ⟨B, hB, hm⟩ := hI.tlb_page _ (List.getElem_mem hlt) hp.2
      obtain ⟨C, hC, hm'⟩ := hI.tlb_page e (List.mem_of_getElem? hj) hv
      rw [hp.1] at hm
      rw [hf] at hm'
      exact hij (hI.tlb_inj i j _ e hget hj hp.2 hv (hI.maps_inj hm hm').2)

/-! ## A frame for a page -/

/-- The frame `f` has been taken from whatever page was in it and given to page `vpn` of `this` in
the coremap; the page table does not map the page yet. -/
structure Freed (vm vm1 : Vm) (this : SpaceId) (vpn f : Nat) : Prop where
  lt : f < numPhysPages
  coremap : vm1.paginaMapa.Ok
  owner : ∀ g, vm1.paginaMapa.owner g =
    if g = f then some (this, vpn) else vm.paginaMapa.owner g
  maps : ∀ A v g, vm1.Maps A v g ↔ vm.Maps A v g ∧ g ≠ f
  sizes : ∀ A sp, vm1.spaces A = some sp →
    sp.pageTable.length = sp.numPages ∧ sp.swapMap.numBits = sp.numPages
  vpn : ∀ A v e, vm1.getEntry A v = some e → e.virtualPage = v
  tlb : TlbLe vm1.mmu.tlb vm.mmu.tlb
  tlb_ne : ∀ e ∈ vm1.mmu.tlb, e.valid = true → e.physicalPage ≠ f
  current : vm1.current = vm.current

/-- A free frame. -/
theorem freed_of_free (hI : FrameInv vm) (hf : f < numPhysPages)
    (hfree : vm.paginaMapa.owner f = none) :
    Freed vm { vm with paginaMapa :=
      { vm.paginaMapa with framesMap := vm.paginaMapa.framesMap.mark f }.setOwner f this vpn }
      this vpn f where
  lt := hf
  coremap := Coremap.ok_give hI.coremap hf this vpn
  owner := Coremap.owner_give hI.coremap hf this vpn
  maps := by
    intro A v g
    refine ⟨fun h => ⟨h, ?_⟩, fun h => h.1⟩
    rintro rfl
    have ho := (hI.owned A v g).mp h
    rw [hfree] at ho
    cases ho
  sizes := hI.sizes
  vpn := hI.vpn
  tlb := TlbLe.refl _
  tlb_ne := by
    intro e he hv hef
    obtain ⟨A, -, hm⟩ := hI.tlb_page e he hv
    rw [hef] at hm
    have ho := (hI.owned _ _ _).mp hm
    rw [hfree] at ho
    cases ho
  current := rfl

/-- The frame of a page of the faulting process. -/
theorem freed_of_own {sp : AddressSpace} {e : TranslationEntry} {w : Nat} (hI : FrameInv vm)
    (hsp : vm.spaces this = some sp) (ho : vm.paginaMapa.owner f = some (this, w))
    (he : vm.victimEntry sp.pageTable w f = some e) :
    Freed vm { (vm.setTlb (vm.evictedTlb f)).setSpace this (vm.evictedSpace sp w f e) with
      paginaMapa :=
        { vm.paginaMapa with framesMap := vm.paginaMapa.framesMap.mark f }.setOwner f this vpn }
      this vpn f := by
  have hf := (hI.coremap.owner_eq_some.mp ho).1
  obtain ⟨hvp, -, -⟩ := victimEntry_core hI hsp ho he
  obtain ⟨e0, he0, hv0, hf0⟩ := (hI.owned this w f).mpr ho
  have hlt : w < sp.pageTable.length := by
    rw [getEntry_eq hsp] at he0
    exact (List.getElem?_eq_some_iff.mp he0).1
  have hget : ∀ A v, ((vm.setTlb (vm.evictedTlb f)).setSpace this
      (vm.evictedSpace sp w f e)).getEntry A v =
        if A = this ∧ v = w then some { e with dirty := false, valid := false }
        else vm.getEntry A v :=
    fun A v => getEntry_set (show (vm.setTlb (vm.evictedTlb f)).spaces this = some sp from hsp) hlt _ rfl
  refine
    { lt := hf
      coremap := Coremap.ok_give hI.coremap hf this vpn
      owner := Coremap.owner_give hI.coremap hf this vpn
      maps := ?_
      sizes := ?_
      vpn := ?_
      tlb := (evictedTlb_spec hI f).1
      tlb_ne := (evictedTlb_spec hI f).2
      current := rfl }
  · intro A v g
    have hg : Maps { (vm.setTlb (vm.evictedTlb f)).setSpace this (vm.evictedSpace sp w f e) with
        paginaMapa :=
          { vm.paginaMapa with framesMap := vm.paginaMapa.framesMap.mark f }.setOwner f this vpn }
        A v g ↔ ((vm.setTlb (vm.evictedTlb f)).setSpace this (vm.evictedSpace sp w f e)).Maps A v g :=
      Iff.rfl
    rw [hg, Maps, hget]
    by_cases hAv : A = this ∧ v = w
    · obtain ⟨rfl, rfl⟩ := hAv
      simp only [and_self, if_true, Option.some.injEq, exists_eq_left', Bool.false_eq_true,
        false_and, false_iff, not_and, not_not]
      rintro ⟨x, hx, -, hxg⟩
      rw [he0, Option.some.injEq] at hx
      subst hx
      rw [← hxg, hf0]
    · rw [if_neg hAv]
      refine ⟨fun h => ⟨h, ?_⟩, fun h => h.1⟩
      rintro rfl
      exact hAv (hI.maps_inj h ⟨e0, he0, hv0, hf0⟩)
  · intro A sp0 hsp0
    rw [spaces_setSpace] at hsp0
    split at hsp0
    · cases hsp0
      obtain ⟨h1, h2⟩ := hI.sizes this sp hsp
      refine ⟨by simpa [evictedSpace] using h1, ?_⟩
      show (vm.evictedSpace sp w f e).swapMap.numBits = sp.numPages
      rw [← h2]
      unfold evictedSpace
      split <;> rfl
    · exact hI.sizes A sp0 hsp0
  · intro A v x hx
    have hx' : ((vm.setTlb (vm.evictedTlb f)).setSpace this (vm.evictedSpace sp w f e)).getEntry A v
        = some x := hx
    rw [hget] at hx'
    split at hx'
    · rename_i hAv
      cases hx'
      rw [hAv.2]
      exact hvp
    · exact hI.vpn A v x hx'

/-- The victim that a fault of `this` evicts, if it evicts one, is a page of `this`. -/
def EvictsOwn (policy : PrPolicy) (vm : Vm) (this : SpaceId) (vpn choice : Nat) : Prop :=
  (vm.paginaMapa.find this vpn).1 = none → ∀ r ∈ vm.pickVictim policy this choice,
    (vm.paginaMapa.owner r.1).map Prod.fst = some this

instance (policy : PrPolicy) (vm : Vm) (this : SpaceId) (vpn choice : Nat) :
    Decidable (EvictsOwn policy vm this vpn choice) :=
  inferInstanceAs (Decidable (_ → ∀ r ∈ vm.pickVictim policy this choice, _ = _))

/-- `Freed` does not see `use` bits. -/
theorem Freed.useEq {vm0 vm1 : Vm} (h : Freed vm vm1 this vpn f) (hu : UseEq vm0 vm) :
    Freed vm0 vm1 this vpn f := by
  refine ⟨h.lt, h.coremap, ?_, ?_, h.sizes, h.vpn, h.tlb.trans hu.tlbLe, h.tlb_ne,
    h.current.trans hu.current⟩
  · intro g
    rw [h.owner g, hu.map]
  · intro A v g
    rw [h.maps A v g, maps_iff_core, maps_iff_core, map_core_of_noUse (hu.getEntry A v)]

/-- What `LoadPage` does to obtain a frame, when it does not take one of another process: it takes a
free one, or the replacement policy picks one of its own and the page in it is evicted. -/
theorem obtainFrame_cases {policy : PrPolicy} {choice : Nat} (hI : FrameInv vm)
    (hown : EvictsOwn policy vm this vpn choice)
    (h : vm.obtainFrame policy this vpn choice = some (f, vm')) :
    (f < numPhysPages ∧ vm.paginaMapa.owner f = none ∧
      vm' = { vm with paginaMapa :=
        { vm.paginaMapa with framesMap := vm.paginaMapa.framesMap.mark f }.setOwner f this vpn }) ∨
    ∃ vmU w sp e, vm.pickVictim policy this choice = some (f, vmU) ∧
      vmU.spaces this = some sp ∧ vmU.paginaMapa.owner f = some (this, w) ∧
      vmU.victimEntry sp.pageTable w f = some e ∧
      vm' = { (vmU.setTlb (vmU.evictedTlb f)).setSpace this (vmU.evictedSpace sp w f e) with
        paginaMapa :=
          { vmU.paginaMapa with framesMap := vmU.paginaMapa.framesMap.mark f }.setOwner
            f this vpn } := by
  unfold obtainFrame at h
  rcases Coremap.find_cases hI.coremap this vpn with ⟨g, hg, hfree, hfind⟩ | ⟨hnone, -⟩
  · rw [hfind] at h
    cases h
    exact Or.inl ⟨hg, hfree, rfl⟩
  · have hpick := hown hnone
    cases hfind : vm.paginaMapa.find this vpn with
    | mk o c =>
      rw [hfind] at hnone h
      simp only at hnone
      subst hnone
      simp only [sustitucionEnSwapDeMarcoVictima, Option.bind_eq_bind, Option.bind_eq_some_iff,
        Option.pure_def, Option.some.injEq, Prod.mk.injEq] at h
      obtain ⟨⟨frame, vmU⟩, hp, vm2, hesc, c', hmark, rfl, rfl⟩ := h
      obtain ⟨⟨B, w⟩, hw, hB⟩ := Option.map_eq_some_iff.mp (hpick (frame, vmU) hp)
      simp only at hB hw
      rw [hB] at hw
      have hu := useEq_pickVictim hp
      have hIU := hI.useEq hu
      rw [← hu.map] at hw
      obtain ⟨sp, hspU⟩ : ∃ sp, vmU.spaces this = some sp := by
        obtain ⟨x, hx, -, -⟩ := (hIU.owned this w frame).mpr hw
        obtain ⟨sp, hsp, -⟩ := getEntry_eq_some.mp hx
        exact ⟨sp, hsp⟩
      obtain ⟨e, he, heq⟩ := escribir_own hIU hspU hw
      rw [heq, Option.some.injEq] at hesc
      subst hesc
      have hfr := (hIU.coremap.owner_eq_some.mp hw).1
      have hmark' : vmU.paginaMapa.mark frame this vpn = some c' := hmark
      rw [Coremap.mark_eq hIU.coremap hfr, Option.some.injEq] at hmark'
      subst hmark'
      exact Or.inr ⟨vmU, w, sp, e, hp, hspU, hw, he, rfl⟩

/-- The frame that `LoadPage` obtains, when it does not take one of another process. -/
theorem obtainFrame_freed {policy : PrPolicy} {choice : Nat} (hI : FrameInv vm)
    (hown : EvictsOwn policy vm this vpn choice)
    (h : vm.obtainFrame policy this vpn choice = some (f, vm')) : Freed vm vm' this vpn f := by
  rcases obtainFrame_cases hI hown h with ⟨hf, hfree, rfl⟩ | ⟨vmU, w, sp, e, hp, hsp, hw, he, rfl⟩
  · exact freed_of_free hI hf hfree
  · have hu := useEq_pickVictim hp
    exact (freed_of_own (hI.useEq hu) hsp hw he).useEq hu

/-- The address space with page `vpn` mapped in frame `f`; `entry` is the old entry of the page. -/
def mappedSpace (sp : AddressSpace) (vpn f : Nat) (entry : TranslationEntry) : AddressSpace :=
  { sp with pageTable := sp.pageTable.set vpn { entry with physicalPage := f, valid := true } }

/-- Mapping the page in its frame restores the invariant, whatever the memory then holds. -/
theorem Freed.frameInv {vm1 vm2 : Vm} {entry : TranslationEntry} (hF : Freed vm vm1 this vpn f)
    (hI : FrameInv vm) (hnm : ∀ g, ¬ vm.Maps this vpn g) (he : vm1.getEntry this vpn = some entry)
    (hset : vm1.setEntry this vpn { entry with physicalPage := f, valid := true } = some vm2)
    (mem : ByteMemory) : FrameInv { vm2 with mmu := { vm2.mmu with mainMemory := mem } } := by
  obtain ⟨sp, hsp, hpe⟩ := getEntry_eq_some.mp he
  have hlt : vpn < sp.pageTable.length := (List.getElem?_eq_some_iff.mp hpe).1
  rw [setEntry_eq hsp hlt, Option.some.injEq] at hset
  subst hset
  have hget : ∀ A v, (vm1.setSpace this (mappedSpace sp vpn f entry)).getEntry A v =
      if A = this ∧ v = vpn then some { entry with physicalPage := f, valid := true }
      else vm1.getEntry A v := fun A v => getEntry_set hsp hlt _ rfl
  have hmaps : ∀ A v g, Maps (vm1.setSpace this (mappedSpace sp vpn f entry)) A v g ↔
      (A = this ∧ v = vpn ∧ g = f) ∨ vm1.Maps A v g := by
    intro A v g
    rw [Maps, hget]
    by_cases hAv : A = this ∧ v = vpn
    · obtain ⟨rfl, rfl⟩ := hAv
      simp only [and_self, if_true, Option.some.injEq, exists_eq_left', true_and]
      constructor
      · exact fun h => Or.inl h.symm
      · rintro (h | h)
        · exact h.symm
        · exact absurd ((hF.maps _ _ _).mp h).1 (hnm g)
    · rw [if_neg hAv]
      constructor
      · exact fun h => Or.inr h
      · rintro (⟨h1, h2, -⟩ | h)
        · exact absurd ⟨h1, h2⟩ hAv
        · exact h
  refine ⟨hF.coremap, ?_, ?_, ?_, ?_, ?_⟩
  · intro A v g
    show Maps (vm1.setSpace this (mappedSpace sp vpn f entry)) A v g ↔ _
    rw [hmaps, hF.maps, hI.owned]
    show _ ↔ vm1.paginaMapa.owner g = some (A, v)
    rw [hF.owner]
    by_cases hg : g = f
    · subst hg
      simp only [ne_eq, not_true_eq_false, and_false, or_false, if_true, and_true, Option.some.injEq,
        Prod.mk.injEq]
      constructor <;> (rintro ⟨rfl, rfl⟩; exact ⟨rfl, rfl⟩)
    · simp [hg]
  · intro A sp0 hsp0
    have hs0 : (vm1.setSpace this (mappedSpace sp vpn f entry)).spaces A = some sp0 := hsp0
    rw [spaces_setSpace] at hs0
    split at hs0
    · cases hs0
      simpa [mappedSpace] using hF.sizes this sp hsp
    · exact hF.sizes A sp0 hs0
  · intro A v x hx
    have hx' : (vm1.setSpace this (mappedSpace sp vpn f entry)).getEntry A v = some x := hx
    rw [hget] at hx'
    split at hx'
    · rename_i hAv
      cases hx'
      rw [hAv.2]
      exact hF.vpn this vpn entry he
    · exact hF.vpn A v x hx'
  · intro x hx hv
    obtain ⟨i, hi⟩ := List.mem_iff_getElem?.mp hx
    obtain ⟨y, hy, hyv, hyp, hyf⟩ := hF.tlb i x hi hv
    obtain ⟨B, hB, hm⟩ := hI.tlb_page y (List.mem_of_getElem? hy) hyv
    rw [hyp, hyf] at hm
    refine ⟨B, hF.current.trans hB, (hmaps _ _ _).mpr (Or.inr ?_)⟩
    exact (hF.maps _ _ _).mpr ⟨hm, hF.tlb_ne x hx hv⟩
  · intro i j a b hi hj ha hb hp
    obtain ⟨a', ha', hav, hap, -⟩ := hF.tlb i a hi ha
    obtain ⟨b', hb', hbv, hbp, -⟩ := hF.tlb j b hj hb
    exact hI.tlb_inj i j a' b' ha' hb' hav hbv (by rw [hap, hbp, hp])

/-- `LoadPage` keeps the invariant when it takes no frame of another process. The TLB gets no new
entry, and the page is mapped. -/
theorem FrameInv.loadPage {policy : PrPolicy} {choice : Nat} (hI : FrameInv vm)
    (hown : EvictsOwn policy vm this vpn choice)
    (h : vm.loadPage policy this vpn choice = some vm') :
    FrameInv vm' ∧ TlbLe vm'.mmu.tlb vm.mmu.tlb ∧ vm'.current = vm.current ∧
      ∃ g, vm'.Maps this vpn g := by
  simp only [Vm.loadPage, Option.bind_eq_bind, Option.bind_eq_some_iff, Option.guard_eq_some',
    Option.pure_def, Option.some.injEq] at h
  obtain ⟨e0, he0, _, hv0, ⟨g, vm1⟩, hob, entry, he, vm2, hset, sp, hsp, mem, -, rfl⟩ := h
  have hF := obtainFrame_freed hI hown hob
  have hnm : ∀ g, ¬ vm.Maps this vpn g := by
    rintro g ⟨x, hx, hxv, -⟩
    rw [he0, Option.some.injEq] at hx
    subst hx
    rw [hv0] at hxv
    cases hxv
  have hI' := hF.frameInv hI hnm he hset mem
  obtain ⟨sp1, hsp1, hpe⟩ := getEntry_eq_some.mp he
  have hlt := (List.getElem?_eq_some_iff.mp hpe).1
  rw [setEntry_eq hsp1 hlt, Option.some.injEq] at hset
  subst hset
  refine ⟨hI', hF.tlb, hF.current, g, { entry with physicalPage := g, valid := true }, ?_, rfl, rfl⟩
  show (vm1.setSpace this _).getEntry this vpn = _
  rw [getEntry_set hsp1 hlt _ rfl, if_pos ⟨rfl, rfl⟩]

/-- Writing a TLB entry back to the page table moves no page. -/
theorem FrameInv.setEntryOfTlb {old : TranslationEntry} (hI : FrameInv vm) (hcur : vm.current = some this)
    (hmem : old ∈ vm.mmu.tlb) (hv : old.valid = true)
    (h : vm.setEntry this old.virtualPage old = some vm') :
    FrameInv vm' ∧ vm'.mmu = vm.mmu ∧ vm'.current = vm.current ∧ vm'.index = vm.index ∧
      ∀ g, vm'.Maps this vpn g ↔ vm.Maps this vpn g := by
  obtain ⟨A, hA, e0, he0, hv0, hf0⟩ := hI.tlb_page old hmem hv
  rw [hcur, Option.some.injEq] at hA
  subst hA
  obtain ⟨sp, hsp, hpe⟩ := getEntry_eq_some.mp he0
  have hlt := (List.getElem?_eq_some_iff.mp hpe).1
  have hcore0 : old.core = e0.core := by
    simp only [TranslationEntry.core, hv, hv0, hf0, hI.vpn _ _ _ he0]
  rw [setEntry_eq hsp hlt, Option.some.injEq] at h
  subst h
  have hcore : ∀ A v, ((vm.setSpace this { sp with
      pageTable := sp.pageTable.set old.virtualPage old }).getEntry A v).map TranslationEntry.core =
        (vm.getEntry A v).map TranslationEntry.core := by
    intro A v
    rw [getEntry_set hsp hlt _ rfl]
    split
    · rename_i hAv
      rw [hAv.1, hAv.2, he0, Option.map_some, Option.map_some, hcore0]
    · rfl
  refine ⟨hI.of_core rfl hcore ?_ (TlbLe.refl _) fun _ => rfl, rfl, rfl, rfl, fun g => ?_⟩
  · intro A sp0 hsp0
    rw [spaces_setSpace] at hsp0
    split at hsp0
    · cases hsp0
      simpa using hI.sizes this sp hsp
    · exact hI.sizes A sp0 hsp0
  · rw [maps_iff_core, maps_iff_core, hcore]

/-- Installing the translation of a mapped page that the TLB does not hold. -/
theorem FrameInv.setTlbEntry {e : TranslationEntry} {i n : Nat} (hI : FrameInv vm)
    (hcur : vm.current = some this) (he : vm.getEntry this vpn = some e) (hv : e.valid = true)
    (hno : ∀ x ∈ vm.mmu.tlb, x.valid = true → x.virtualPage ≠ vpn) :
    FrameInv { vm.setTlb (vm.mmu.tlb.set i e) with index := n } := by
  have hvp := hI.vpn this vpn e he
  have hold : ∀ j x, (vm.mmu.tlb.set i e)[j]? = some x →
      (j = i ∧ x = e) ∨ (j ≠ i ∧ vm.mmu.tlb[j]? = some x) := by
    intro j x hx
    by_cases hj : i = j
    · subst hj
      refine Or.inl ⟨rfl, ?_⟩
      rw [List.getElem?_set] at hx
      split at hx
      · split at hx
        · exact (Option.some.inj hx).symm
        · cases hx
      · rename_i hne
        exact absurd rfl hne
    · rw [List.getElem?_set_ne hj] at hx
      exact Or.inr ⟨fun h => hj h.symm, hx⟩
  refine ⟨hI.coremap, hI.owned, hI.sizes, hI.vpn, ?_, ?_⟩
  · intro x hx hxv
    obtain ⟨j, hj⟩ := List.mem_iff_getElem?.mp hx
    rcases hold j x hj with ⟨-, rfl⟩ | ⟨-, hj'⟩
    · exact ⟨this, hcur, by rw [hvp]; exact ⟨x, he, hv, rfl⟩⟩
    · exact hI.tlb_page x (List.mem_of_getElem? hj') hxv
  · intro j k x y hj hk hxv hyv hp
    rcases hold j x hj with ⟨rfl, rfl⟩ | ⟨-, hj'⟩
    · rcases hold k y hk with ⟨rfl, -⟩ | ⟨-, hk'⟩
      · rfl
      · exact absurd (hp.symm.trans hvp) (hno y (List.mem_of_getElem? hk') hyv)
    · rcases hold k y hk with ⟨rfl, rfl⟩ | ⟨-, hk'⟩
      · exact absurd (hp.trans hvp) (hno x (List.mem_of_getElem? hj') hxv)
      · exact hI.tlb_inj j k x y hj' hk' hxv hyv hp

/-- The last part of the page-fault handler keeps the invariant. -/
theorem FrameInv.installEntry (hI : FrameInv vm) (hcur : vm.current = some this)
    (hm : ∃ g, vm.Maps this vpn g)
    (hno : ∀ x ∈ vm.mmu.tlb, x.valid = true → x.virtualPage ≠ vpn)
    (h : vm.installEntry this vpn = some vm') : FrameInv vm' := by
  simp only [Vm.installEntry, Option.bind_eq_bind, Option.bind_eq_some_iff, Option.pure_def,
    Option.some.injEq] at h
  obtain ⟨old, hold, vm1, h1, e, he, rfl⟩ := h
  have h1' : FrameInv vm1 ∧ vm1.mmu = vm.mmu ∧ vm1.current = vm.current ∧
      ∀ g, vm1.Maps this vpn g ↔ vm.Maps this vpn g := by
    unfold Vm.writeBack at h1
    split at h1
    · rename_i hv
      obtain ⟨a, b, c, -, d⟩ := hI.setEntryOfTlb hcur (List.mem_of_getElem? hold) hv h1
      exact ⟨a, b, c, d⟩
    · cases h1
      exact ⟨hI, rfl, rfl, fun _ => Iff.rfl⟩
  obtain ⟨hI1, hmmu, hcur1, hmaps⟩ := h1'
  obtain ⟨g, hg⟩ := hm
  obtain ⟨x, hx, hxv, -⟩ := (hmaps g).mpr hg
  rw [he, Option.some.injEq] at hx
  subst hx
  exact hI1.setTlbEntry (hcur1.trans hcur) he hxv (by rw [hmmu]; exact hno)

/-- The page-fault handler keeps the invariant when it takes no frame of another process. -/
theorem FrameInv.pageFaultExeption {policy : PrPolicy} {choice : Nat} (hI : FrameInv vm)
    (hown : ∀ this ∈ vm.current, ∀ e ∈ vm.getEntry this vpn, e.valid = false →
      EvictsOwn policy vm this vpn choice)
    (hno : ∀ x ∈ vm.mmu.tlb, x.valid = true → x.virtualPage ≠ vpn)
    (h : vm.pageFaultExeption policy vpn choice = some vm') : FrameInv vm' := by
  simp only [Vm.pageFaultExeption, Option.bind_eq_bind, Option.bind_eq_some_iff] at h
  obtain ⟨this, hcur, e, he, vm1, h1, hins⟩ := h
  unfold Vm.ensureLoaded at h1
  split at h1
  · rename_i hv
    cases h1
    exact hI.installEntry hcur ⟨_, e, he, hv, rfl⟩ hno hins
  · rename_i hv
    have hv' : e.valid = false := by simpa using hv
    obtain ⟨hI1, htlb, hcur1, hm⟩ := hI.loadPage (hown this hcur e he hv') h1
    refine hI1.installEntry (hcur1.trans hcur) hm (fun x hx hv => ?_) hins
    obtain ⟨i, hi⟩ := List.mem_iff_getElem?.mp hx
    obtain ⟨y, hy, hyv, hyp, -⟩ := htlb i x hi hv
    rw [← hyp]
    exact hno y (List.mem_of_getElem? hy) hyv

/-! ## Accesses, creation and destruction -/

/-- The translation of the address raises a page fault. -/
def pageFaults (vm : Vm) (addr : Nat) (size : AccessSize) (writing : Bool) : Bool :=
  match vm.mmu.translate addr size writing with
  | .error .pageFaultException => true
  | _ => false

/-- An access of the running process that page-faults on a page that is not in memory evicts, if it
evicts a page, one of the same process; nothing is asked of the other events. -/
def VictimIsOwn (policy : PrPolicy) (vm : Vm) : Event → Prop
  | .access addr size value choice =>
    vm.pageFaults addr size value.isSome = true → ∀ this ∈ vm.current,
      ∀ e ∈ vm.getEntry this (addr / pageSize), e.valid = false →
        EvictsOwn policy vm this (addr / pageSize) choice
  | _ => True

instance (policy : PrPolicy) (vm : Vm) : DecidablePred (VictimIsOwn policy vm)
  | .access addr size value _ =>
    inferInstanceAs (Decidable (vm.pageFaults addr size value.isSome = true →
      ∀ this ∈ vm.current, ∀ e ∈ vm.getEntry this (addr / pageSize), e.valid = false → _))
  | .create .. => inferInstanceAs (Decidable True)
  | .switchTo .. => inferInstanceAs (Decidable True)
  | .destroy .. => inferInstanceAs (Decidable True)

/-- What an attempt to read does. -/
theorem access_read_cases {policy : PrPolicy} {choice addr : Nat} {size : AccessSize} {o : Option Word}
    (h : vm.access policy addr size none choice = some (o, vm')) :
    (∃ v m, vm.mmu.readMem addr size = .ok (v, m) ∧ o = some v ∧ vm' = { vm with mmu := m }) ∨
      (o = none ∧ vm.mmu.translate addr size false = .error .pageFaultException ∧
        vm.pageFaultExeption policy (addr / pageSize) choice = some vm') := by
  unfold Vm.access at h
  cases hr : vm.mmu.readMem addr size with
  | ok r =>
    simp only [hr, Option.some.injEq, Prod.mk.injEq] at h
    obtain ⟨rfl, rfl⟩ := h
    exact Or.inl ⟨r.1, r.2, rfl, rfl, rfl⟩
  | error ex =>
    have ht : vm.mmu.translate addr size false = .error ex := by
      unfold Mmu.readMem at hr
      cases ht : vm.mmu.translate addr size false with
      | error ex' =>
        rw [ht] at hr
        cases hr
        rfl
      | ok r =>
        rw [ht] at hr
        cases hr
    simp only [hr] at h
    cases ex <;> simp only [reduceCtorEq, Option.bind_eq_bind, Option.bind_eq_some_iff,
      Option.pure_def, Option.some.injEq, Prod.mk.injEq] at h
    obtain ⟨vm1, h1, rfl, rfl⟩ := h
    exact Or.inr ⟨rfl, ht, h1⟩

/-- What an attempt to write does. -/
theorem access_write_cases {policy : PrPolicy} {choice addr : Nat} {size : AccessSize} {value : Word}
    {o : Option Word} (h : vm.access policy addr size (some value) choice = some (o, vm')) :
    (∃ m, vm.mmu.writeMem addr size value = .ok m ∧ o = some value ∧ vm' = { vm with mmu := m }) ∨
      (o = none ∧ vm.mmu.translate addr size true = .error .pageFaultException ∧
        vm.pageFaultExeption policy (addr / pageSize) choice = some vm') := by
  unfold Vm.access at h
  cases hw : vm.mmu.writeMem addr size value with
  | ok m =>
    simp only [hw, Option.some.injEq, Prod.mk.injEq] at h
    obtain ⟨rfl, rfl⟩ := h
    exact Or.inl ⟨m, rfl, rfl, rfl⟩
  | error ex =>
    have ht : vm.mmu.translate addr size true = .error ex := by
      unfold Mmu.writeMem at hw
      cases ht : vm.mmu.translate addr size true with
      | error ex' =>
        rw [ht] at hw
        cases hw
        rfl
      | ok r =>
        rw [ht] at hw
        cases hw
    simp only [hw] at h
    cases ex <;> simp only [reduceCtorEq, Option.bind_eq_bind, Option.bind_eq_some_iff,
      Option.pure_def, Option.some.injEq, Prod.mk.injEq] at h
    obtain ⟨vm1, h1, rfl, rfl⟩ := h
    exact Or.inr ⟨rfl, ht, h1⟩

/-- A read that hits the TLB keeps the invariant. -/
theorem FrameInv.readMem (hI : FrameInv vm) {addr : Nat} {size : AccessSize} {value : Word} {m : Mmu}
    (h : vm.mmu.readMem addr size = .ok (value, m)) : FrameInv { vm with mmu := m } := by
  unfold Mmu.readMem at h
  cases ht : vm.mmu.translate addr size false with
  | error ex =>
    rw [ht] at h
    cases h
  | ok r =>
    rw [ht] at h
    cases h
    exact hI.translate ht _

/-- A write that hits the TLB keeps the invariant. -/
theorem FrameInv.writeMem (hI : FrameInv vm) {addr : Nat} {size : AccessSize} {value : Word} {m : Mmu}
    (h : vm.mmu.writeMem addr size value = .ok m) : FrameInv { vm with mmu := m } := by
  unfold Mmu.writeMem at h
  cases ht : vm.mmu.translate addr size true with
  | error ex =>
    rw [ht] at h
    cases h
  | ok r =>
    rw [ht] at h
    cases h
    exact hI.translate ht _

/-- An access keeps the invariant. -/
theorem FrameInv.access {policy : PrPolicy} {choice addr : Nat} {size : AccessSize}
    {value o : Option Word} (hI : FrameInv vm)
    (hown : VictimIsOwn policy vm (.access addr size value choice))
    (h : vm.access policy addr size value choice = some (o, vm')) : FrameInv vm' := by
  cases value with
  | none =>
    rcases access_read_cases h with ⟨v, m, hr, -, rfl⟩ | ⟨-, ht, hf⟩
    · exact hI.readMem hr
    · exact hI.pageFaultExeption (hown (by simp [pageFaults, ht])) (translate_fault ht).2 hf
  | some value =>
    rcases access_write_cases h with ⟨m, hw, -, rfl⟩ | ⟨-, ht, hf⟩
    · exact hI.writeMem hw
    · exact hI.pageFaultExeption (hown (by simp [pageFaults, ht])) (translate_fault ht).2 hf

/-- A new address space has no page in memory. -/
theorem FrameInv.create {id : SpaceId} {exe : Executable} {swapFD : ByteMemory} {heap : Nat → Word}
    (hI : FrameInv vm) (h : vm.create id exe swapFD heap = some vm') : FrameInv vm' := by
  simp only [Vm.create, Option.bind_eq_bind, Option.bind_eq_some_iff, Option.guard_eq_some',
    Option.isNone_iff_eq_none, Option.pure_def, Option.some.injEq] at h
  obtain ⟨_, hnone, rfl⟩ := h
  have hget : ∀ B w e, (vm.setSpace id (AddressSpace.new exe swapFD heap)).getEntry B w = some e →
      (e.valid = false ∧ e.virtualPage = w ∧ B = id) ∨ (B ≠ id ∧ vm.getEntry B w = some e) := by
    intro B w e he
    rw [getEntry_setSpace] at he
    split at he
    · rename_i hB
      simp only [AddressSpace.new, List.getElem?_map, Option.map_eq_some_iff] at he
      obtain ⟨i, hi, rfl⟩ := he
      obtain ⟨hlt, hi⟩ := List.getElem?_eq_some_iff.mp hi
      rw [List.getElem_range] at hi
      exact Or.inl ⟨rfl, hi.symm, hB⟩
    · rename_i hB
      exact Or.inr ⟨hB, he⟩
  have hmaps : ∀ B w g, (vm.setSpace id (AddressSpace.new exe swapFD heap)).Maps B w g ↔
      vm.Maps B w g := by
    intro B w g
    constructor
    · rintro ⟨e, he, hv, hf⟩
      rcases hget B w e he with ⟨hinv, -⟩ | ⟨-, he⟩
      · rw [hinv] at hv
        cases hv
      · exact ⟨e, he, hv, hf⟩
    · rintro ⟨e, he, hv, hf⟩
      refine ⟨e, ?_, hv, hf⟩
      rw [getEntry_setSpace, if_neg]
      · exact he
      · rintro rfl
        rw [getEntry, hnone] at he
        cases he
  refine ⟨hI.coremap, fun B w g => (hmaps B w g).trans (hI.owned B w g), ?_, ?_, ?_, hI.tlb_inj⟩
  · intro B sp hsp
    rw [spaces_setSpace] at hsp
    split at hsp
    · cases hsp
      simp [AddressSpace.new]
    · exact hI.sizes B sp hsp
  · intro B w e he
    rcases hget B w e he with ⟨-, hw, -⟩ | ⟨-, he⟩
    · exact hw
    · exact hI.vpn B w e he
  · intro e he hv
    obtain ⟨B, hB, hm⟩ := hI.tlb_page e he hv
    exact ⟨B, hB, (hmaps _ _ _).mpr hm⟩

/-- The loop of `~AddressSpace` frees the frames of the valid entries, and no others. -/
theorem clearFrames_spec : ∀ {pt : List TranslationEntry} {c c' : Coremap}, c.Ok →
    clearFrames pt c = some c' → c'.Ok ∧ ∀ g, c'.owner g =
      if ∃ e ∈ pt, e.valid = true ∧ e.physicalPage = g then none else c.owner g := by
  intro pt
  induction pt with
  | nil =>
    intro c c' hc h
    cases h
    exact ⟨hc, fun g => by simp⟩
  | cons e pt ih =>
    intro c c' hc h
    simp only [clearFrames, Option.bind_eq_bind] at h
    split at h
    · rename_i hv
      obtain ⟨c1, h1, h⟩ := Option.bind_eq_some_iff.mp h
      obtain ⟨hok, ho⟩ := ih (Coremap.ok_clear hc h1) h
      refine ⟨hok, fun g => ?_⟩
      rw [ho g, Coremap.owner_clear h1]
      by_cases hg : e.physicalPage = g
      · simp [hv, hg]
      · have hne : g ≠ e.physicalPage := fun he => hg he.symm
        simp [hv, hg, hne]
    · rename_i hv
      obtain ⟨hok, ho⟩ := ih hc h
      refine ⟨hok, fun g => ?_⟩
      rw [ho g]
      simp [hv]

/-- Destroying an address space frees its frames. -/
theorem FrameInv.destroy {id : SpaceId} (hI : FrameInv vm) (h : vm.destroy id = some vm') :
    FrameInv vm' := by
  simp only [Vm.destroy, Option.bind_eq_bind, Option.bind_eq_some_iff, Option.guard_eq_some',
    Option.pure_def, Option.some.injEq] at h
  obtain ⟨_, hcur, sp, hsp, c, hclear, rfl⟩ := h
  obtain ⟨hok, ho⟩ := clearFrames_spec hI.coremap hclear
  have hspace : ∀ B, Function.update vm.spaces id none B = if B = id then none else vm.spaces B :=
    fun B => by simp [Function.update_apply]
  have hget : ∀ B w, Vm.getEntry { vm with
      paginaMapa := c, spaces := Function.update vm.spaces id none } B w =
        if B = id then none else vm.getEntry B w := by
    intro B w
    simp only [getEntry, hspace]
    split <;> simp
  have hmaps : ∀ B w g, Maps { vm with
      paginaMapa := c, spaces := Function.update vm.spaces id none } B w g ↔
        vm.Maps B w g ∧ B ≠ id := by
    intro B w g
    rw [Maps, hget]
    by_cases hB : B = id
    · simp [hB]
    · simp only [hB, if_false, ne_eq, not_false_eq_true, and_true]
      exact Iff.rfl
  -- the frames of the valid entries of the page table are those that the coremap gives to `id`
  have hfreed : ∀ g, (∃ e ∈ sp.pageTable, e.valid = true ∧ e.physicalPage = g) ↔
      ∃ w, vm.paginaMapa.owner g = some (id, w) := by
    intro g
    constructor
    · rintro ⟨e, he, hv, hf⟩
      obtain ⟨w, hw⟩ := List.mem_iff_getElem?.mp he
      exact ⟨w, (hI.owned id w g).mp ⟨e, by rw [getEntry_eq hsp]; exact hw, hv, hf⟩⟩
    · rintro ⟨w, hw⟩
      obtain ⟨e, he, hv, hf⟩ := (hI.owned id w g).mpr hw
      rw [getEntry_eq hsp] at he
      exact ⟨e, List.mem_of_getElem? he, hv, hf⟩
  refine ⟨hok, ?_, ?_, ?_, ?_, hI.tlb_inj⟩
  · intro B w g
    rw [hmaps, hI.owned, ho g]
    by_cases hg : ∃ w, vm.paginaMapa.owner g = some (id, w)
    · rw [if_pos ((hfreed g).mpr hg)]
      obtain ⟨x, hx⟩ := hg
      rw [hx]
      simp only [Option.some.injEq, Prod.mk.injEq, reduceCtorEq, iff_false, not_and, not_not]
      exact fun h => h.1.symm
    · rw [if_neg (fun h => hg ((hfreed g).mp h))]
      refine ⟨fun h => h.1, fun h => ⟨h, ?_⟩⟩
      rintro rfl
      exact hg ⟨w, h⟩
  · intro B sp0 hsp0
    have hs0 : Function.update vm.spaces id none B = some sp0 := hsp0
    rw [hspace] at hs0
    split at hs0
    · cases hs0
    · exact hI.sizes B sp0 hs0
  · intro B w e he
    rw [hget] at he
    split at he
    · cases he
    · exact hI.vpn B w e he
  · intro e he hv
    obtain ⟨B, hB, hm⟩ := hI.tlb_page e he hv
    refine ⟨B, hB, (hmaps _ _ _).mpr ⟨hm, ?_⟩⟩
    rintro rfl
    exact hcur hB

/-! ## Runs -/

/-- Every event whose victim, if it needs one, is a page of the faulting process keeps the
invariant. -/
theorem FrameInv.step {policy : PrPolicy} {ev : Event} (hI : FrameInv vm)
    (hown : VictimIsOwn policy vm ev) (h : vm.step policy ev = some vm') : FrameInv vm' := by
  cases ev with
  | create id exe swapFD heap => exact hI.create h
  | access addr size value choice =>
    obtain ⟨⟨o, vm1⟩, h1, rfl⟩ := Option.map_eq_some_iff.mp h
    exact hI.access hown h1
  | switchTo next => exact hI.switchTo h
  | destroy id => exact hI.destroy h

/-- At boot no page is in memory and all frames are free. -/
theorem frameInv_boot (heap : Nat → Word) (addrSpaces : Nat → Option SpaceId) (vpns : Nat → Nat)
    (tlb : Nat → TranslationEntry) : FrameInv (boot heap addrSpaces vpns tlb) := by
  have hfree : ∀ f, (boot heap addrSpaces vpns tlb).paginaMapa.framesMap.test f = true →
      ¬ f < numPhysPages := by
    intro f ht hf
    rw [show (boot heap addrSpaces vpns tlb).paginaMapa.framesMap = Bitmap.new numPhysPages heap from
      rfl, Bitmap.test_new heap hf] at ht
    cases ht
  have hown : ∀ f, (boot heap addrSpaces vpns tlb).paginaMapa.owner f = none := by
    intro f
    unfold Coremap.owner
    rw [if_neg]
    rintro ⟨hf, ht⟩
    exact hfree f ht hf
  have hinv : ∀ e ∈ (boot heap addrSpaces vpns tlb).mmu.tlb, e.valid = false := by
    intro e he
    simp only [boot, List.mem_map] at he
    obtain ⟨i, -, rfl⟩ := he
    rfl
  refine ⟨⟨rfl, rfl, fun f hf ht => absurd hf (hfree f ht)⟩, ?_, ?_, ?_, ?_, ?_⟩
  · intro A v f
    rw [hown]
    simp [Maps, getEntry, boot]
  · intro A sp h
    cases h
  · intro A v e he
    simp [getEntry, boot] at he
  · intro e he hv
    rw [hinv e he] at hv
    cases hv
  · intro i j e e' hi hj hv
    rw [hinv e (List.mem_of_getElem? hi)] at hv
    cases hv

/-- No two pages share a frame, and a page is in a frame exactly when the coremap gives the frame to
the page. -/
def FrameOwnership (vm : Vm) : Prop :=
  (∀ A B v w f, vm.Maps A v f → vm.Maps B w f → A = B ∧ v = w) ∧
    ∀ A v f, vm.Maps A v f ↔ vm.paginaMapa.owner f = some (A, v)

theorem FrameInv.frameOwnership (hI : FrameInv vm) : FrameOwnership vm :=
  ⟨fun _ _ _ _ _ h1 h2 => hI.maps_inj h1 h2, hI.owned⟩

/-- In every run, of any length and with any number of address spaces, in which each fault that has
to replace a page replaces one of the faulting process, frames are owned as they should be. -/
theorem frameOwnership_of_run (policy : PrPolicy) (heap : Nat → Word)
    (addrSpaces : Nat → Option SpaceId) (vpns : Nat → Nat) (tlb : Nat → TranslationEntry)
    (evs : List Event) (vm : Vm)
    (hown : AllSteps (Vm.step policy) (VictimIsOwn policy) (boot heap addrSpaces vpns tlb) evs)
    (hrun : runs (Vm.step policy) (boot heap addrSpaces vpns tlb) evs = some vm) :
    FrameOwnership vm :=
  (runs_inv (fun _ _ _ hI hP h => FrameInv.step hI hP h)
    (frameInv_boot heap addrSpaces vpns tlb) hown hrun).frameOwnership

/-- An executable without code and initialised data. -/
def bareExecutable (uninitData : UInt32) : Executable where
  header :=
    { code := ⟨0, 0, 0⟩
      initData := ⟨0, 0, 0⟩
      uninitData := ⟨0, 0, uninitData⟩ }
  file := []

/-- A machine whose memory is zeroed when it starts. -/
def zeroedBoot : Vm :=
  boot (fun _ => 0) (fun _ => none) (fun _ => 0) fun _ => ⟨0, 0, false, false, false, false⟩

/-- The first process, with more pages than there are frames, reads one byte of each of its first `n`
pages. -/
def readPages (n : Nat) : List Event :=
  ([.create 0 (bareExecutable 8192) (fun _ => 0) (fun _ => 0),
    .create 1 (bareExecutable 0) (fun _ => 0) (fun _ => 0), .switchTo (some 0)] : List Event) ++
    (List.range n).map fun i => .access (i * pageSize) .byte none 0

/-- A process that evicts one of its own pages, and then exits. -/
theorem frameOwnership_of_run_own :
    AllSteps (Vm.step .fifo) (VictimIsOwn .fifo) zeroedBoot
      (readPages 65 ++ [.switchTo (some 1), .destroy 0]) ∧
    ∃ vm, runs (Vm.step .fifo) zeroedBoot (readPages 65 ++ [.switchTo (some 1), .destroy 0]) = some vm ∧
      FrameOwnership vm := by
  obtain ⟨hown, hrun⟩ : AllSteps (Vm.step .fifo) (VictimIsOwn .fifo) zeroedBoot
      (readPages 65 ++ [.switchTo (some 1), .destroy 0]) ∧
      (runs (Vm.step .fifo) zeroedBoot (readPages 65 ++ [.switchTo (some 1), .destroy 0])).isSome = true := by
    decide +kernel
  obtain ⟨vm, hvm⟩ := Option.isSome_iff_exists.mp hrun
  exact ⟨hown, vm, hvm, frameOwnership_of_run .fifo _ _ _ _ _ vm hown hvm⟩

/-- All frames hold pages of the first process when the second one faults. The victim is page 0 of the
first process, but it is the entry of page 0 of the second one that is invalidated: afterwards both
pages are in frame 0. -/
theorem foreign_victim_shared :
    ¬ ∀ (policy : PrPolicy) (heap : Nat → Word) (addrSpaces : Nat → Option SpaceId) (vpns : Nat → Nat)
      (tlb : Nat → TranslationEntry) (evs : List Event) (vm : Vm),
      runs (Vm.step policy) (boot heap addrSpaces vpns tlb) evs = some vm → FrameOwnership vm := by
  intro hall
  have hrun : ((runs (Vm.step .fifo) zeroedBoot
      (readPages 64 ++ [.switchTo (some 1), .access 0 .byte none 0])).map fun vm =>
        ((vm.getEntry 0 0).map TranslationEntry.core, (vm.getEntry 1 0).map TranslationEntry.core)) =
      some (some (0, 0, true), some (0, 0, true)) := by decide +kernel
  obtain ⟨vm, hvm, hent⟩ := Option.map_eq_some_iff.mp hrun
  rw [Prod.mk.injEq] at hent
  have h0 : vm.Maps 0 0 0 := maps_iff_core.mpr ⟨0, hent.1⟩
  have h1 : vm.Maps 1 0 0 := maps_iff_core.mpr ⟨0, hent.2⟩
  have h01 := ((hall .fifo _ _ _ _ _ vm hvm).1 0 1 0 0 0 h0 h1).1
  cases h01

end Vm

end Nachos
