import Nachos.Userprog.Proofs.PagingStepProofs

/-!
# Proofs: paging is transparent to a single process

The program of a single process reads from the paged machine what it would read from an array of
bytes, under every replacement policy and for every choice of victims. An access that faults succeeds
when it is retried, so a program whose pages can be loaded runs to its end.
-/

namespace Nachos

open Foundations

namespace Vm

variable {vm vm' : Vm} {A : SpaceId} {exe : Executable} {mem : ByteMemory} {v f vpn : Nat}

/-! ## Replacement finds a victim -/

/-- Every frame holds a page of `A`, and the hand of the replacement policy is in range. -/
structure AllOwned (A : SpaceId) (vm : Vm) : Prop where
  inv : FrameInv vm
  hand : vm.victima < numPhysPages
  owned : ∀ g < numPhysPages, ∃ w, vm.paginaMapa.owner g = some (A, w)

theorem AllOwned.clearUse {ref : EntryRef} (h : AllOwned A vm) (hc : vm.clearUse A ref = some vm') :
    AllOwned A vm' := by
  have hu := useEq_clearUse hc
  refine ⟨h.inv.useEq hu, by rw [victima_clearUse hc]; exact h.hand, fun g hg => ?_⟩
  rw [hu.map]
  exact h.owned g hg

/-- `TLBSearch` finds an entry, and its `use` bit can be cleared. -/
theorem AllOwned.tlbSearch (h : AllOwned A vm) :
    ∃ ref, vm.tlbSearch = some (some ref) ∧ (vm.getRef A ref).isSome ∧
      (vm.clearUse A ref).isSome := by
  unfold Vm.tlbSearch
  cases hi : vm.mmu.tlb.findIdx? fun e => e.valid && e.physicalPage == vm.victima with
  | some i =>
    obtain ⟨hlt, -, -⟩ := List.findIdx?_eq_some_iff_getElem.mp hi
    refine ⟨.tlb i, rfl, ?_, ?_⟩ <;> simp [getRef, Vm.clearUse, List.getElem?_eq_getElem hlt]
  | none =>
    obtain ⟨w, hw⟩ := h.owned vm.victima h.hand
    obtain ⟨hvpn, hspace⟩ := h.inv.coremap.get_of_owner hw
    obtain ⟨e, he, -, -⟩ := (h.inv.owned A w vm.victima).mpr hw
    obtain ⟨sp, hsp, hpe⟩ := getEntry_eq_some.mp he
    refine ⟨.page w, ?_, by simp [getRef, he], ?_⟩
    · simp [hspace, hvpn]
    · simp only [Vm.clearUse, he, Option.bind_eq_bind, Option.bind_some,
        setEntry_eq hsp (List.getElem?_eq_some_iff.mp hpe).1, Option.isSome_some]

theorem clockRound_isSome {round : Nat} {ps : List Nat} :
    ∀ {vm : Vm}, AllOwned A vm → (clockRound A round ps vm).isSome := by
  induction ps with
  | nil => exact fun _ => rfl
  | cons p ps ih =>
    intro vm h
    obtain ⟨ref, href, hget, hclear⟩ := h.tlbSearch
    obtain ⟨e, he⟩ := Option.isSome_iff_exists.mp hget
    obtain ⟨vm1, hvm1⟩ := Option.isSome_iff_exists.mp hclear
    simp only [clockRound, href, he, hvm1, Option.bind_eq_bind, Option.bind_some]
    split
    · rfl
    · split
      · exact ih (h.clearUse hvm1)
      · exact ih h

theorem clockRounds_isSome {rounds : List Nat} :
    ∀ {vm : Vm}, AllOwned A vm → (clockRounds A rounds vm).isSome := by
  induction rounds with
  | nil => exact fun _ => rfl
  | cons round rounds ih =>
    intro vm h
    have hround : (clockRound A round ((List.range numPhysPages).map (vm.victima + ·)) vm).isSome :=
      clockRound_isSome h
    obtain ⟨⟨o, vm1⟩, h1⟩ := Option.isSome_iff_exists.mp hround
    simp only [clockRounds, h1, Option.bind_eq_bind, Option.bind_some]
    cases o with
    | some g => rfl
    | none =>
      have hu := useEq_clockRound h1
      refine ih ⟨h.inv.useEq hu, (clockRound_lt h.hand h1).1, fun g hg => ?_⟩
      rw [hu.map]
      exact h.owned g hg

theorem pickVictim_isSome (h : AllOwned A vm) (policy : PrPolicy) (choice : Nat) :
    (vm.pickVictim policy A choice).isSome := by
  cases policy with
  | fifo => rfl
  | clock => exact clockRounds_isSome h
  | random => rfl

/-- A frame can always be obtained. -/
theorem Contents.obtainFrame_isSome (hI : FrameInv vm) (h : Contents exe A mem vm)
    (policy : PrPolicy) (vpn choice : Nat) : (vm.obtainFrame policy A vpn choice).isSome := by
  unfold Vm.obtainFrame
  rcases Coremap.find_cases hI.coremap A vpn with ⟨g, -, -, hfind⟩ | ⟨hnone, hall⟩
  · rw [hfind]
    rfl
  · have hown := h.evictsOwn hI policy vpn choice hnone
    have hA : AllOwned A vm := by
      refine ⟨hI, h.flags.victima_lt, fun g hg => ?_⟩
      obtain ⟨B, w, ho⟩ := hall g hg
      obtain ⟨x, hx, -, -⟩ := (hI.owned B w g).mpr ho
      obtain ⟨sp, hsp, -⟩ := getEntry_eq_some.mp hx
      exact ⟨w, by rw [ho, h.only B sp hsp]⟩
    obtain ⟨⟨g, vmU⟩, hp⟩ := Option.isSome_iff_exists.mp (pickVictim_isSome hA policy choice)
    have hu := useEq_pickVictim hp
    have hIU := hI.useEq hu
    obtain ⟨⟨B, w⟩, hw, hB⟩ := Option.map_eq_some_iff.mp (hown (g, vmU) hp)
    simp only at hB hw
    rw [hB, ← hu.map] at hw
    obtain ⟨x, hx, -, -⟩ := (hIU.owned A w g).mpr hw
    obtain ⟨sp, hsp, -⟩ := getEntry_eq_some.mp hx
    obtain ⟨e, -, heq⟩ := escribir_own hIU hsp hw
    have hg := (hIU.coremap.owner_eq_some.mp hw).1
    cases hfind : vm.paginaMapa.find A vpn with
    | mk o c =>
      rw [hfind] at hnone
      simp only at hnone
      subst hnone
      have hmark : ((vmU.setTlb (vmU.evictedTlb g)).setSpace A
          (vmU.evictedSpace sp w g e)).paginaMapa = vmU.paginaMapa := rfl
      simp only [sustitucionEnSwapDeMarcoVictima, hp, heq, hmark, Coremap.mark_eq hIU.coremap hg,
        Option.bind_eq_bind, Option.bind_some, Option.pure_def, Option.isSome_some]

/-! ## The running process -/

/-- The process `A` runs, and `mem` is its memory. -/
structure Running (exe : Executable) (A : SpaceId) (mem : ByteMemory) (vm : Vm) : Prop where
  inv : FrameInv vm
  contents : Contents exe A mem vm
  current : vm.current = some A

/-- The image of every page of the executable can be loaded: no `ASSERT` of `LoadPage` fails. -/
def Loadable (exe : Executable) : Prop :=
  ∀ vpn < exe.numPages, (copyFromExe exe vpn 0 fun _ => 0).isSome

/-- The pages of the process are those of its executable. -/
theorem Running.getEntry_isSome (h : Running exe A mem vm) (hv : v < exe.numPages) :
    (vm.getEntry A v).isSome := by
  obtain ⟨sp, hsp, -, hnum⟩ := h.contents.space
  have hlen := (h.inv.sizes A sp hsp).1
  rw [getEntry_eq hsp, List.getElem?_eq_getElem (by omega)]
  rfl

/-- A page that can be loaded is loaded. -/
theorem Running.loadPage_isSome (h : Running exe A mem vm) {e : TranslationEntry}
    (he : vm.getEntry A vpn = some e) (hv : e.valid = false)
    (himg : (copyFromExe exe vpn 0 fun _ => 0).isSome) (policy : PrPolicy) (choice : Nat) :
    (vm.loadPage policy A vpn choice).isSome := by
  obtain ⟨⟨g, vm1⟩, hob⟩ := Option.isSome_iff_exists.mp
    (h.contents.obtainFrame_isSome h.inv policy vpn choice)
  have hC := h.contents.obtainFrame h.inv h.current hob
  have hF := obtainFrame_freed h.inv (h.contents.evictsOwn h.inv policy vpn choice) hob
  obtain ⟨sp0, hsp0, -, hnum0⟩ := h.contents.space
  obtain ⟨sp, hsp, hexe, hnum⟩ := hC.space
  have hv0 : vpn < sp0.pageTable.length := by
    rw [getEntry_eq hsp0] at he
    exact (List.getElem?_eq_some_iff.mp he).1
  have hs0 := h.inv.sizes A sp0 hsp0
  have hs := hF.sizes A sp hsp
  have hlt : vpn < sp.pageTable.length := by omega
  have hent : vm1.getEntry A vpn = some sp.pageTable[vpn] := by
    rw [getEntry_eq hsp]
    exact List.getElem?_eq_getElem hlt
  have hfill : (fillFrame (mappedSpace sp vpn g sp.pageTable[vpn]) vpn (g * pageSize)
      vm1.mmu.mainMemory).isSome :=
    fillFrame_isSome (show vpn < sp.swapMap.numBits by omega)
      (show (copyFromExe sp.exe vpn 0 fun _ => 0).isSome by rw [hexe]; exact himg) _ _
  obtain ⟨m, hm⟩ := Option.isSome_iff_exists.mp hfill
  unfold mappedSpace at hm
  simp [Vm.loadPage, he, hv, hob, hent, setEntry_eq hsp hlt, hm]

/-- The page-fault handler: afterwards the TLB has a translation of the page. -/
theorem Running.pageFaultExeption (h : Running exe A mem vm) {policy : PrPolicy} {choice : Nat}
    (hno : ∀ x ∈ vm.mmu.tlb, x.valid = true → x.virtualPage ≠ vpn)
    (hf : vm.pageFaultExeption policy vpn choice = some vm') :
    Running exe A mem vm' ∧ ∃ t ∈ vm'.mmu.tlb, t.valid = true ∧ t.virtualPage = vpn := by
  have hI' : FrameInv vm' := h.inv.pageFaultExeption (fun this hthis _ _ _ => by
    obtain rfl : A = this := Option.some.inj (h.current.symm.trans hthis)
    exact h.contents.evictsOwn h.inv policy vpn choice) hno hf
  simp only [Vm.pageFaultExeption, h.current, Option.bind_eq_bind, Option.bind_some,
    Option.bind_eq_some_iff] at hf
  obtain ⟨e, he, vm1, h1, hins⟩ := hf
  have hload : FrameInv vm1 ∧ Contents exe A mem vm1 ∧ vm1.current = some A ∧
      ∃ g, vm1.Maps A vpn g := by
    unfold Vm.ensureLoaded at h1
    split at h1
    · rename_i hv
      cases h1
      exact ⟨h.inv, h.contents, h.current, _, e, he, hv, rfl⟩
    · obtain ⟨hI1, -, hcur1, hm⟩ :=
        h.inv.loadPage (h.contents.evictsOwn h.inv policy vpn choice) h1
      exact ⟨hI1, h.contents.loadPage h.inv h.current h1, hcur1.trans h.current, hm⟩
  obtain ⟨hI1, hC1, hcur1, hm⟩ := hload
  obtain ⟨vm2, h2, hC2, hcur2, ht⟩ := hC1.installEntry hI1 hcur1 hm
  rw [hins, Option.some.injEq] at h2
  subst h2
  exact ⟨⟨hI', hC2, hcur2⟩, ht⟩

/-- The page-fault handler succeeds on the pages of the process. -/
theorem Running.pageFaultExeption_isSome (h : Running exe A mem vm) (hload : Loadable exe)
    (hv : vpn < exe.numPages) (policy : PrPolicy) (choice : Nat) :
    (vm.pageFaultExeption policy vpn choice).isSome := by
  obtain ⟨e, he⟩ := Option.isSome_iff_exists.mp (h.getEntry_isSome hv)
  have hstep : ∃ vm1, vm.ensureLoaded policy A vpn choice e = some vm1 ∧ FrameInv vm1 ∧
      Contents exe A mem vm1 ∧ vm1.current = some A ∧ ∃ g, vm1.Maps A vpn g := by
    unfold ensureLoaded
    cases hev : e.valid with
    | true => exact ⟨vm, rfl, h.inv, h.contents, h.current, _, e, he, hev, rfl⟩
    | false =>
      obtain ⟨vm1, h1⟩ := Option.isSome_iff_exists.mp
        (h.loadPage_isSome he hev (hload vpn hv) policy choice)
      obtain ⟨hI1, -, hcur1, hm⟩ :=
        h.inv.loadPage (h.contents.evictsOwn h.inv policy vpn choice) h1
      exact ⟨vm1, h1, hI1, h.contents.loadPage h.inv h.current h1, hcur1.trans h.current, hm⟩
  obtain ⟨vm1, h1, hI1, hC1, hcur1, hm⟩ := hstep
  obtain ⟨vm2, h2, -⟩ := hC1.installEntry hI1 hcur1 hm
  simp [Vm.pageFaultExeption, h.current, he, h1, h2]

/-- An aligned access to a page in the TLB is translated. -/
theorem Running.translate_hit (h : Running exe A mem vm) {addr : Nat} {size : AccessSize}
    (hal : addr % size.bytes = 0)
    (ht : ∃ t ∈ vm.mmu.tlb, t.valid = true ∧ t.virtualPage = addr / pageSize) (writing : Bool) :
    ∃ r, vm.mmu.translate addr size writing = .ok r := by
  obtain ⟨t, ht, htv, htp⟩ := ht
  unfold Mmu.translate Mmu.retrievePageEntry
  rw [if_neg (by simpa using hal)]
  cases hi : vm.mmu.tlb.findIdx? fun e => e.valid && e.virtualPage == addr / pageSize with
  | none =>
    have := List.findIdx?_eq_none_iff.mp hi t ht
    simp [htv, htp] at this
  | some i =>
    obtain ⟨hlt, hp, -⟩ := List.findIdx?_eq_some_iff_getElem.mp hi
    simp only [Bool.and_eq_true, beq_iff_eq] at hp
    have hmem := List.getElem_mem hlt
    obtain ⟨B, -, hm⟩ := h.inv.tlb_page _ hmem hp.1
    have hfr := h.inv.frame_lt hm
    have hro := h.contents.flags.tlb_writable _ hmem hp.1
    have hge : ¬ vm.mmu.tlb[i].physicalPage ≥ numPhysPages := by omega
    simp only [List.getElem?_eq_getElem hlt, Option.bind_eq_bind, Option.bind_some, Option.pure_def,
      hro, Bool.false_and, Bool.false_eq_true, if_false, hge]
    exact ⟨_, rfl⟩

/-- An aligned access to a page that is not in the TLB page-faults. -/
theorem translate_miss {m : Mmu} {addr : Nat} {size : AccessSize} (hal : addr % size.bytes = 0)
    (ht : ¬ ∃ t ∈ m.tlb, t.valid = true ∧ t.virtualPage = addr / pageSize) (writing : Bool) :
    m.translate addr size writing = .error .pageFaultException := by
  unfold Mmu.translate Mmu.retrievePageEntry
  rw [if_neg (by simpa using hal)]
  have hnone : m.tlb.findIdx? (fun e => e.valid && e.virtualPage == addr / pageSize) = none := by
    rw [List.findIdx?_eq_none_iff]
    intro t hmem
    by_contra hc
    simp only [Bool.not_eq_false, Bool.and_eq_true, beq_iff_eq] at hc
    exact ht ⟨t, hmem, hc.1, hc.2⟩
  simp [hnone]

/-- One attempt to read: it returns the byte of the memory of the process, or it faults and the page
is then in the TLB. -/
theorem Running.access_read (h : Running exe A mem vm) {policy : PrPolicy} {choice addr : Nat}
    {size : AccessSize} {o : Option Word}
    (ha : vm.access policy addr size none choice = some (o, vm')) :
    Running exe A mem vm' ∧ ∀ w ∈ o, w = load mem addr size := by
  rcases access_read_cases ha with ⟨w, m, hr, rfl, rfl⟩ | ⟨rfl, ht, hf⟩
  · obtain ⟨hw, hC⟩ := h.contents.readMem h.inv h.current hr
    refine ⟨⟨h.inv.readMem hr, hC, h.current⟩, fun x hx => ?_⟩
    cases hx
    exact hw
  · exact ⟨(h.pageFaultExeption (translate_fault ht).2 hf).1, fun _ hx => by cases hx⟩

/-- One attempt to write: it writes to the memory of the process, or it faults. -/
theorem Running.access_write (h : Running exe A mem vm) {policy : PrPolicy} {choice addr : Nat}
    {size : AccessSize} {value : Word} {o : Option Word}
    (ha : vm.access policy addr size (some value) choice = some (o, vm')) :
    Running exe A (if o.isSome then store mem addr size value else mem) vm' := by
  rcases access_write_cases ha with ⟨m, hw, rfl, rfl⟩ | ⟨rfl, ht, hf⟩
  · exact ⟨h.inv.writeMem hw, h.contents.writeMem h.inv h.current hw, h.current⟩
  · exact (h.pageFaultExeption (translate_fault ht).2 hf).1

/-- A read of the process, retried after a fault. -/
theorem Running.userRead (h : Running exe A mem vm) {policy : PrPolicy} {choice addr : Nat}
    {size : AccessSize} {w : Word}
    (ha : vm.userAccess policy addr size none choice = some (w, vm')) :
    w = load mem addr size ∧ Running exe A mem vm' := by
  unfold userAccess at ha
  split at ha
  · rename_i w1 vm1 h1
    cases ha
    obtain ⟨hR, hw⟩ := h.access_read h1
    exact ⟨hw w rfl, hR⟩
  · rename_i vm1 h1
    obtain ⟨hR1, -⟩ := h.access_read h1
    split at ha
    · rename_i w2 vm2 h2
      cases ha
      obtain ⟨hR, hw⟩ := hR1.access_read h2
      exact ⟨hw w rfl, hR⟩
    · cases ha
  · cases ha

/-- A write of the process, retried after a fault. -/
theorem Running.userWrite (h : Running exe A mem vm) {policy : PrPolicy} {choice addr : Nat}
    {size : AccessSize} {value w : Word}
    (ha : vm.userAccess policy addr size (some value) choice = some (w, vm')) :
    Running exe A (store mem addr size value) vm' := by
  unfold userAccess at ha
  split at ha
  · rename_i w1 vm1 h1
    cases ha
    exact h.access_write h1
  · rename_i vm1 h1
    have hR1 : Running exe A mem vm1 := h.access_write h1
    split at ha
    · rename_i w2 vm2 h2
      cases ha
      exact hR1.access_write h2
    · cases ha
  · cases ha

/-- An attempt that hits the TLB succeeds. -/
theorem Running.access_hit (h : Running exe A mem vm) {addr : Nat} {size : AccessSize}
    (hal : addr % size.bytes = 0)
    (ht : ∃ t ∈ vm.mmu.tlb, t.valid = true ∧ t.virtualPage = addr / pageSize) (policy : PrPolicy)
    (value : Option Word) (choice : Nat) :
    ∃ w vm1, vm.access policy addr size value choice = some (some w, vm1) := by
  cases value with
  | none =>
    obtain ⟨r, hr⟩ := h.translate_hit hal ht false
    refine ⟨load r.2.mainMemory r.1 size, { vm with mmu := r.2 }, ?_⟩
    simp [access, Mmu.readMem, hr, bind, Except.bind, pure, Except.pure]
  | some value =>
    obtain ⟨r, hr⟩ := h.translate_hit hal ht true
    refine ⟨value,
      { vm with mmu := { r.2 with mainMemory := store r.2.mainMemory r.1 size value } }, ?_⟩
    simp [access, Mmu.writeMem, hr, bind, Except.bind, pure, Except.pure]

/-- An attempt that misses the TLB runs the page-fault handler. -/
theorem access_miss {addr : Nat} {size : AccessSize} (hal : addr % size.bytes = 0)
    (ht : ¬ ∃ t ∈ vm.mmu.tlb, t.valid = true ∧ t.virtualPage = addr / pageSize) (policy : PrPolicy)
    (value : Option Word) (choice : Nat) :
    vm.access policy addr size value choice =
      (vm.pageFaultExeption policy (addr / pageSize) choice).map fun vm1 => (none, vm1) := by
  cases value with
  | none =>
    simp only [access, Mmu.readMem, translate_miss hal ht, bind, Except.bind]
    cases vm.pageFaultExeption policy (addr / pageSize) choice <;> rfl
  | some value =>
    simp only [access, Mmu.writeMem, translate_miss hal ht, bind, Except.bind]
    cases vm.pageFaultExeption policy (addr / pageSize) choice <;> rfl

/-- An aligned access inside the address space succeeds, at the latest when it is retried. -/
theorem Running.userAccess_isSome (h : Running exe A mem vm) (hload : Loadable exe) {addr : Nat}
    {size : AccessSize} (hal : addr % size.bytes = 0) (hin : addr < exe.numPages * pageSize)
    (policy : PrPolicy) (value : Option Word) (choice : Nat) :
    (vm.userAccess policy addr size value choice).isSome := by
  unfold userAccess
  by_cases ht : ∃ t ∈ vm.mmu.tlb, t.valid = true ∧ t.virtualPage = addr / pageSize
  · obtain ⟨w, vm1, h1⟩ := h.access_hit hal ht policy value choice
    rw [h1]
    rfl
  · have hv : addr / pageSize < exe.numPages := by
      rw [Nat.div_lt_iff_lt_mul pageSize_pos]
      exact hin
    obtain ⟨vm1, h1⟩ := Option.isSome_iff_exists.mp
      (h.pageFaultExeption_isSome hload hv policy choice)
    have hno : ∀ x ∈ vm.mmu.tlb, x.valid = true → x.virtualPage ≠ addr / pageSize :=
      fun x hx hxv hxp => ht ⟨x, hx, hxv, hxp⟩
    obtain ⟨hR, ht1⟩ := h.pageFaultExeption hno h1
    obtain ⟨w, vm2, h2⟩ := hR.access_hit hal ht1 policy value choice
    rw [access_miss hal ht, h1]
    simp only [Option.map_some, h2]
    rfl

/-- Turns of kernel threads do not touch the memory of the process. -/
theorem kernelTurn_spec (n : Nat) : ∀ {vm : Vm}, FrameInv vm → Contents exe A mem vm →
    vm.current = none ∨ vm.current = some A →
    ∃ vm', vm.kernelTurn A n = some vm' ∧ Running exe A mem vm' := by
  induction n with
  | zero =>
    intro vm hI hC hcur
    obtain ⟨vm', h', hC', hcur'⟩ := hC.switchTo hI hcur (Or.inr rfl)
    exact ⟨vm', h', hI.switchTo h', hC', hcur'⟩
  | succ n ih =>
    intro vm hI hC hcur
    obtain ⟨vm1, h1, hC1, hcur1⟩ := hC.switchTo hI hcur (Or.inl rfl)
    obtain ⟨vm', h', hR⟩ := ih (hI.switchTo h1) hC1 (Or.inl hcur1)
    exact ⟨vm', by simp [kernelTurn, h1, h'], hR⟩

/-! ## Whole programs -/

/-- What a program reads on the paged machine is what it reads from an array of bytes. -/
theorem Running.userRun_eq {policy : PrPolicy} : ∀ {ops : List UserOp} {vm vm' : Vm}
    {mem : ByteMemory} {vs : List Word}, Running exe A mem vm →
    userRun policy A vm ops = some (vs, vm') → vs = idealRun mem ops := by
  intro ops
  induction ops with
  | nil =>
    intro vm vm' mem vs _ hr
    cases hr
    rfl
  | cons op ops ih =>
    intro vm vm' mem vs h hr
    cases op with
    | read addr size choice =>
      simp only [userRun, Option.bind_eq_bind, Option.bind_eq_some_iff, Option.pure_def,
        Option.some.injEq, Prod.mk.injEq] at hr
      obtain ⟨⟨w, vm1⟩, h1, ⟨ws, vm2⟩, h2, rfl, rfl⟩ := hr
      obtain ⟨hw, hR⟩ := h.userRead h1
      rw [idealRun, ← hw, ih hR h2]
    | write addr size value choice =>
      simp only [userRun, Option.bind_eq_bind, Option.bind_eq_some_iff] at hr
      obtain ⟨⟨w, vm1⟩, h1, h2⟩ := hr
      exact ih (h.userWrite h1) h2
    | switch n =>
      simp only [userRun, Option.bind_eq_bind, Option.bind_eq_some_iff] at hr
      obtain ⟨vm1, h1, h2⟩ := hr
      obtain ⟨vm1', h1', hR⟩ := kernelTurn_spec n h.inv h.contents (Or.inr h.current)
      rw [h1, Option.some.injEq] at h1'
      subst h1'
      exact ih hR h2

/-- A program whose accesses are aligned and inside the address space runs to its end. -/
theorem Running.userRun_isSome {policy : PrPolicy} (hload : Loadable exe) :
    ∀ {ops : List UserOp} {vm : Vm} {mem : ByteMemory}, Running exe A mem vm →
    (∀ op ∈ ops, InsideSpace exe.numPages op) → (userRun policy A vm ops).isSome := by
  intro ops
  induction ops with
  | nil => exact fun _ _ => rfl
  | cons op ops ih =>
    intro vm mem h hin
    have hop := hin op List.mem_cons_self
    have hops := fun o ho => hin o (List.mem_cons_of_mem _ ho)
    cases op with
    | read addr size choice =>
      obtain ⟨⟨w, vm1⟩, h1⟩ := Option.isSome_iff_exists.mp
        (h.userAccess_isSome hload hop.1 hop.2 policy none choice)
      obtain ⟨⟨ws, vm2⟩, h2⟩ := Option.isSome_iff_exists.mp (ih (h.userRead h1).2 hops)
      simp [userRun, h1, h2]
    | write addr size value choice =>
      obtain ⟨⟨w, vm1⟩, h1⟩ := Option.isSome_iff_exists.mp
        (h.userAccess_isSome hload hop.1 hop.2 policy (some value) choice)
      simpa [userRun, h1] using ih (h.userWrite h1) hops
    | switch n =>
      obtain ⟨vm1, h1, hR⟩ := kernelTurn_spec n h.inv h.contents (Or.inr h.current)
      simpa [userRun, h1] using ih hR hops

/-- A process that starts on a booted machine has the program image in its memory. -/
theorem startProcess_running (heap heap' : Nat → Word) (addrSpaces : Nat → Option SpaceId)
    (vpns : Nat → Nat) (tlb : Nat → TranslationEntry) (A : SpaceId) (exe : Executable)
    (swapFD : ByteMemory) :
    ∃ vm, (boot heap addrSpaces vpns tlb).startProcess A exe swapFD heap' = some vm ∧
      Running exe A (programImage exe) vm := by
  have hcreate : (boot heap addrSpaces vpns tlb).create A exe swapFD heap' =
      some ((boot heap addrSpaces vpns tlb).setSpace A (AddressSpace.new exe swapFD heap')) := by
    simp [create, boot]
  have hI := (frameInv_boot heap addrSpaces vpns tlb).create hcreate
  have hinv : ∀ e ∈ (boot heap addrSpaces vpns tlb).mmu.tlb, e.valid = false := by
    intro e he
    simp only [boot, List.mem_map] at he
    obtain ⟨i, -, rfl⟩ := he
    rfl
  have hget : ∀ (v : Nat) (e : TranslationEntry),
      ((boot heap addrSpaces vpns tlb).setSpace A (AddressSpace.new exe swapFD heap')).getEntry A v =
        some e → v < exe.numPages ∧ e.valid = false ∧ e.readOnly = false := by
    intro v e he
    rw [getEntry_setSpace, if_pos rfl] at he
    simp only [AddressSpace.new, List.getElem?_map, Option.map_eq_some_iff] at he
    obtain ⟨i, hi, rfl⟩ := he
    obtain ⟨hlt, -⟩ := List.getElem?_eq_some_iff.mp hi
    exact ⟨by simpa using hlt, rfl, rfl⟩
  have hC : Contents exe A (programImage exe)
      ((boot heap addrSpaces vpns tlb).setSpace A (AddressSpace.new exe swapFD heap')) := by
    refine ⟨⟨AddressSpace.new exe swapFD heap', by simp, rfl, rfl⟩, ?_, ?_, ?_,
      ⟨by simp [boot], show 0 < tlbSize by decide, show 0 < numPhysPages by decide, fun v e he => (hget v e he).2.2, ?_, ?_⟩⟩
    · intro B sp hB
      rw [spaces_setSpace] at hB
      split at hB
      · assumption
      · cases hB
    · rintro v g ⟨e, he, hv, -⟩
      rw [(hget v e he).2.1] at hv
      cases hv
    · intro sp v e hsp he _ i hi
      rw [spaces_setSpace, if_pos rfl, Option.some.injEq] at hsp
      subst hsp
      unfold backing
      rw [page_div v hi, if_neg]
      · simp only [AddressSpace.new]
      · have hnew := Bitmap.test_new heap' (hget v e he).1
        simp [AddressSpace.new, hnew]
    · intro t ht htv
      rw [hinv t ht] at htv
      cases htv
    · intro t ht htv
      rw [hinv t ht] at htv
      cases htv
  have hnext : some A = none ∨ some A = some A := Or.inr rfl
  obtain ⟨vm, hvm, hC', hcur⟩ := hC.switchTo hI (Or.inl rfl) hnext
  exact ⟨vm, by simp [startProcess, hcreate, hvm], hI.switchTo hvm, hC', hcur⟩

/-- Paging is transparent to a single process. Whatever the replacement policy and the victims, what
a program reads is what it reads from an array of bytes that starts as the program image; and a
program of aligned accesses inside an address space whose pages can be loaded runs to its end. -/
theorem paging_transparent (policy : PrPolicy) (heap heap' : Nat → Word)
    (addrSpaces : Nat → Option SpaceId) (vpns : Nat → Nat) (tlb : Nat → TranslationEntry)
    (A : SpaceId) (exe : Executable) (swapFD : ByteMemory) :
    ∃ vm, (boot heap addrSpaces vpns tlb).startProcess A exe swapFD heap' = some vm ∧
      ∀ ops : List UserOp,
        (∀ r, userRun policy A vm ops = some r → r.1 = idealRun (programImage exe) ops) ∧
          (Loadable exe → (∀ op ∈ ops, InsideSpace exe.numPages op) →
            (userRun policy A vm ops).isSome) := by
  obtain ⟨vm, hvm, hR⟩ := startProcess_running heap heap' addrSpaces vpns tlb A exe swapFD
  refine ⟨vm, hvm, fun ops => ⟨?_, fun hload hin => hR.userRun_isSome hload hin⟩⟩
  rintro ⟨vs, vm'⟩ hr
  exact hR.userRun_eq hr

/-- The program writes a word, uses as many other pages as there are frames, so that the word goes to
the swap file, lets two kernel threads run, and reads the word back. -/
def swapProgram : List UserOp :=
  .write 4 .word 99 0 :: (List.range numPhysPages).map (fun i => .read ((i + 1) * pageSize) .byte 0) ++
    [.switch 2, .read 4 .word 0]

instance (numPages : Nat) : DecidablePred (InsideSpace numPages)
  | .read addr size _ => inferInstanceAs (Decidable (addr % size.bytes = 0 ∧ addr < _))
  | .write addr size _ _ => inferInstanceAs (Decidable (addr % size.bytes = 0 ∧ addr < _))
  | .switch _ => inferInstanceAs (Decidable True)

instance (exe : Executable) : Decidable (Loadable exe) :=
  inferInstanceAs (Decidable (∀ vpn < exe.numPages, _))

/-- The program above runs to its end under the clock policy, and the last word it reads is the one it
wrote. -/
theorem paging_transparent_swapProgram :
    ∃ vm vs vm', zeroedBoot.startProcess 0 (bareExecutable 8192) (fun _ => 0) (fun _ => 0) = some vm ∧
      userRun .clock 0 vm swapProgram = some (vs, vm') ∧ vs.getLast? = some 99 := by
  obtain ⟨vm, hvm, hall⟩ := paging_transparent .clock (fun _ => 0) (fun _ => 0) (fun _ => none)
    (fun _ => 0) (fun _ => ⟨0, 0, false, false, false, false⟩) 0 (bareExecutable 8192) fun _ => 0
  obtain ⟨heq, hend⟩ := hall swapProgram
  obtain ⟨⟨vs, vm'⟩, hr⟩ := Option.isSome_iff_exists.mp (hend (by decide) (by decide))
  refine ⟨vm, vs, vm', hvm, hr, ?_⟩
  have hvs : vs = _ := heq _ hr
  rw [hvs]
  decide

end Vm

end Nachos
