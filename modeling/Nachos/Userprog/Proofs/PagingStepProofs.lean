import Nachos.Userprog.Proofs.PagingSimProofs

/-!
# Proofs: the steps of a process keep the contents of its memory

The rest of the page-fault handler, accesses that hit the TLB and context switches, each against the
relation between paging state and memory.
-/

namespace Nachos

open Foundations

namespace Vm

variable {vm vm' : Vm} {A : SpaceId} {exe : Executable} {mem : ByteMemory} {v f vpn : Nat}

/-! ## The TLB of the page-fault handler -/

/-- What the write-back of a TLB entry changes: the entry of its page is now the TLB entry. -/
structure WrittenBack (vm vm' : Vm) (A : SpaceId) (old : TranslationEntry) : Prop where
  mmu : vm'.mmu = vm.mmu
  current : vm'.current = vm.current
  index : vm'.index = vm.index
  victima : vm'.victima = vm.victima
  spaces : ∀ B, (vm'.spaces B).map eraseTable = (vm.spaces B).map eraseTable
  core : ∀ v, (vm'.getEntry A v).map TranslationEntry.core =
    (vm.getEntry A v).map TranslationEntry.core
  entry : ∀ v, vm'.getEntry A v =
    if old.valid = true ∧ v = old.virtualPage then some old else vm.getEntry A v

/-- The write-back of a TLB entry succeeds. -/
theorem writeBack_spec {old : TranslationEntry} (hI : FrameInv vm) (hcur : vm.current = some A)
    (hmem : old ∈ vm.mmu.tlb) : ∃ vm1, vm.writeBack A old = some vm1 ∧ WrittenBack vm vm1 A old := by
  cases hv : old.valid with
  | false =>
    refine ⟨vm, by simp [writeBack, hv], rfl, rfl, rfl, rfl, fun _ => rfl, fun _ => rfl, fun v => ?_⟩
    simp [hv]
  | true =>
    obtain ⟨B, hB, e0, he0, hv0, hf0⟩ := hI.tlb_page old hmem hv
    rw [hcur, Option.some.injEq] at hB
    subst hB
    obtain ⟨sp, hsp, hpe⟩ := getEntry_eq_some.mp he0
    have hlt := (List.getElem?_eq_some_iff.mp hpe).1
    have hcore : old.core = e0.core := by
      simp only [TranslationEntry.core, hv, hv0, hf0, hI.vpn _ _ _ he0]
    have hget : ∀ v, (vm.setSpace A { sp with
        pageTable := sp.pageTable.set old.virtualPage old }).getEntry A v =
          if old.valid = true ∧ v = old.virtualPage then some old else vm.getEntry A v := by
      intro v
      rw [getEntry_set hsp hlt _ rfl]
      simp [hv]
    refine ⟨vm.setSpace A { sp with pageTable := sp.pageTable.set old.virtualPage old },
      by rw [writeBack, hv, if_pos rfl, setEntry_eq hsp hlt], rfl, rfl, rfl, rfl, fun C => ?_,
      fun v => ?_, hget⟩
    · rw [spaces_setSpace]
      split
      · rename_i hC
        subst hC
        rw [hsp]
        rfl
      · rfl
    · rw [hget]
      split
      · rename_i hc
        rw [hc.2, he0, Option.map_some, Option.map_some, hcore]
      · rfl

/-- Installing the translation of a page in the TLB forgets no dirty bit. -/
theorem Contents.installEntry (hI : FrameInv vm) (h : Contents exe A mem vm)
    (hcur : vm.current = some A) (hm : ∃ g, vm.Maps A vpn g) :
    ∃ vm', vm.installEntry A vpn = some vm' ∧ Contents exe A mem vm' ∧ vm'.current = some A ∧
      ∃ t ∈ vm'.mmu.tlb, t.valid = true ∧ t.virtualPage = vpn := by
  obtain ⟨old, hold⟩ : ∃ old, vm.mmu.tlb[vm.index]? = some old :=
    ⟨_, List.getElem?_eq_getElem (by rw [h.flags.tlb_length]; exact h.flags.index_lt)⟩
  have hmem := List.mem_of_getElem? hold
  obtain ⟨vm1, h1, hW⟩ := writeBack_spec hI hcur hmem
  have hlt : vm.index < vm.mmu.tlb.length := (List.getElem?_eq_some_iff.mp hold).1
  obtain ⟨g, e0, he0, hv0, -⟩ := hm
  obtain ⟨e, he, hce⟩ : ∃ e, vm1.getEntry A vpn = some e ∧ e.core = e0.core := by
    have hc := hW.core vpn
    rw [he0, Option.map_some] at hc
    exact Option.map_eq_some_iff.mp hc
  simp only [TranslationEntry.core, Prod.mk.injEq, hv0, hI.vpn A vpn e0 he0] at hce
  refine ⟨{ vm1.setTlb (vm1.mmu.tlb.set vm1.index e) with index := (vm1.index + 1) % tlbSize }, ?_, ?_,
    hW.current.trans hcur, e, ?_, hce.2.2, hce.1⟩
  · simp only [Vm.installEntry, hold, h1, he, Option.bind_eq_bind, Option.bind_some, Option.pure_def]
  rotate_left
  · show e ∈ vm1.mmu.tlb.set vm1.index e
    rw [hW.mmu, hW.index]
    exact List.mem_of_getElem? (List.getElem?_set_self hlt)
  -- every entry of the new page table has a writable page, and is as dirty as a TLB entry of before
  have hpw : ∀ v x, vm1.getEntry A v = some x → x.readOnly = false := by
    intro v x hx
    rw [hW.entry] at hx
    split at hx
    · rename_i hc
      cases hx
      exact h.flags.tlb_writable _ hmem hc.1
    · exact h.flags.page_writable v x hx
  refine h.of_flags (by rw [← hW.mmu]; rfl) hW.spaces hW.core ?_ ⟨?_, ?_, ?_, hpw, ?_, ?_⟩
  · rintro v (⟨x, hx, hxd⟩ | ⟨t, ht, htv, htp, htd⟩)
    · by_cases hc : old.valid = true ∧ v = old.virtualPage
      · refine Or.inl ⟨old, ?_, h.flags.tlb_dirty old hmem hc.1 x (by rw [← hc.2]; exact hx) hxd⟩
        show vm1.getEntry A v = _
        rw [hW.entry, if_pos hc]
      · refine Or.inl ⟨x, ?_, hxd⟩
        show vm1.getEntry A v = _
        rw [hW.entry, if_neg hc]
        exact hx
    · obtain ⟨j, hj⟩ := List.mem_iff_getElem?.mp ht
      by_cases hij : vm.index = j
      · -- the entry that is overwritten was written back
        rw [← hij, hold, Option.some.injEq] at hj
        subst hj
        refine Or.inl ⟨old, ?_, htd⟩
        show vm1.getEntry A v = _
        rw [hW.entry, if_pos ⟨htv, htp.symm⟩]
      · refine Or.inr ⟨t, ?_, htv, htp, htd⟩
        show t ∈ vm1.mmu.tlb.set vm1.index e
        rw [hW.mmu, hW.index]
        exact List.mem_of_getElem? ((List.getElem?_set_ne hij).trans hj)
  · show (vm1.mmu.tlb.set vm1.index e).length = tlbSize
    rw [List.length_set, hW.mmu]
    exact h.flags.tlb_length
  · exact Nat.mod_lt _ (by decide)
  · show vm1.victima < numPhysPages
    rw [hW.victima]
    exact h.flags.victima_lt
  · intro t ht htv
    rcases List.mem_or_eq_of_mem_set ht with ht | rfl
    · rw [hW.mmu] at ht
      exact h.flags.tlb_writable t ht htv
    · exact hpw vpn t he
  · intro t ht htv x hx hxd
    have hx' : vm1.getEntry A t.virtualPage = some x := hx
    have ht' : t ∈ vm.mmu.tlb.set vm.index e := by
      rw [← hW.mmu, ← hW.index]
      exact ht
    obtain ⟨j, hj⟩ := List.mem_iff_getElem?.mp ht'
    by_cases hij : vm.index = j
    · subst hij
      rw [List.getElem?_set_self hlt, Option.some.injEq] at hj
      subst hj
      rw [hce.1, he, Option.some.injEq] at hx'
      rw [hx']
      exact hxd
    · rw [List.getElem?_set_ne hij] at hj
      rw [hW.entry] at hx'
      split at hx'
      · rename_i hc
        exact absurd (hI.tlb_inj vm.index j old t hold hj hc.1 htv hc.2.symm) hij
      · exact h.flags.tlb_dirty t (List.mem_of_getElem? hj) htv x hx' hxd

/-! ## Accesses -/

theorem size_dvd_page (size : AccessSize) : pageSize % size.bytes = 0 ∧ 0 < size.bytes := by
  cases size <;> decide

/-- An aligned access does not cross the end of its page. -/
theorem access_in_page {addr : Nat} {size : AccessSize} (h : addr % size.bytes = 0) :
    addr % pageSize + size.bytes ≤ pageSize := by
  have hlt : addr % pageSize < pageSize := Nat.mod_lt _ pageSize_pos
  cases size <;> simp only [AccessSize.bytes, pageSize] at h hlt ⊢ <;> omega

/-- A value read from a frame is the value read from the page it holds. -/
theorem load_page {m : ByteMemory} {off : Nat} {size : AccessSize}
    (h : ∀ i < pageSize, m (f * pageSize + i) = mem (v * pageSize + i))
    (hoff : off + size.bytes ≤ pageSize) :
    load m (f * pageSize + off) size = load mem (v * pageSize + off) size := by
  cases size with
  | byte =>
    simp only [AccessSize.bytes] at hoff
    simp only [load, h off (by omega)]
  | half =>
    simp only [AccessSize.bytes] at hoff
    simp only [load, Nat.add_assoc, h off (by omega), h (off + 1) (by omega)]
  | word =>
    simp only [AccessSize.bytes] at hoff
    simp only [load, Nat.add_assoc, h off (by omega), h (off + 1) (by omega), h (off + 2) (by omega),
      h (off + 3) (by omega)]

theorem length_storedBytes (size : AccessSize) (value : Word) :
    (storedBytes size value).length = size.bytes := by
  simp [storedBytes]

/-- A store into a frame is a store into the page it holds. -/
theorem store_page {m : ByteMemory} {off i : Nat} (size : AccessSize) (value : Word)
    (h : m (f * pageSize + i) = mem (v * pageSize + i)) :
    store m (f * pageSize + off) size value (f * pageSize + i) =
      store mem (v * pageSize + off) size value (v * pageSize + i) := by
  have h1 : store mem (v * pageSize + off) size value (v * pageSize + i) =
      blit (fun a => mem (v * pageSize + a)) off (storedBytes size value) i := blit_shift rfl
  rw [h1]
  exact blit_shift h

/-- A store into a page changes no other page. -/
theorem store_other {m : ByteMemory} {off i g : Nat} {size : AccessSize} (value : Word)
    (hoff : off + size.bytes ≤ pageSize) (hg : g ≠ f) (hi : i < pageSize) :
    store m (f * pageSize + off) size value (g * pageSize + i) = m (g * pageSize + i) := by
  refine blit_outside ?_
  rw [length_storedBytes]
  have := page_disjoint hg hi
  omega

/-- The flags after a translation: the TLB entry it used has its `use` and `dirty` bits set. -/
theorem Flags.translate {i : Nat} {e : TranslationEntry} (h : Flags A vm) (he : vm.mmu.tlb[i]? = some e)
    (hv : e.valid = true) (writing : Bool) (m : ByteMemory) :
    Flags A { vm with mmu :=
      { mainMemory := m
        tlb := vm.mmu.tlb.set i { e with use := true, dirty := e.dirty || writing } } } := by
  have hmem := List.mem_of_getElem? he
  refine ⟨(List.length_set).trans h.tlb_length, h.index_lt, h.victima_lt, h.page_writable, ?_, ?_⟩
  · intro t ht htv
    rcases List.mem_or_eq_of_mem_set ht with ht | rfl
    · exact h.tlb_writable t ht htv
    · exact h.tlb_writable e hmem hv
  · intro t ht htv x hx hxd
    rcases List.mem_or_eq_of_mem_set ht with ht | rfl
    · exact h.tlb_dirty t ht htv x hx hxd
    · have hd := h.tlb_dirty e hmem hv x hx hxd
      simp [hd]

/-- A translation forgets no dirty bit. -/
theorem pageDirty_translate {i : Nat} {e : TranslationEntry} (he : vm.mmu.tlb[i]? = some e)
    (writing : Bool) (m : ByteMemory) (hd : PageDirty vm A v) :
    PageDirty { vm with mmu :=
      { mainMemory := m
        tlb := vm.mmu.tlb.set i { e with use := true, dirty := e.dirty || writing } } } A v := by
  have hlt : i < vm.mmu.tlb.length := (List.getElem?_eq_some_iff.mp he).1
  rcases hd with hd | ⟨t, ht, htv, htp, htd⟩
  · exact Or.inl hd
  · refine Or.inr ?_
    obtain ⟨j, hj⟩ := List.mem_iff_getElem?.mp ht
    by_cases hij : i = j
    · subst hij
      rw [he, Option.some.injEq] at hj
      subst hj
      exact ⟨_, List.mem_of_getElem? (List.getElem?_set_self hlt), htv, htp, by simp [htd]⟩
    · exact ⟨t, List.mem_of_getElem? ((List.getElem?_set_ne hij).trans hj), htv, htp, htd⟩

/-- A read that hits the TLB returns what the memory of the process holds. -/
theorem Contents.readMem {addr : Nat} {size : AccessSize} {value : Word} {m : Mmu}
    (hI : FrameInv vm) (h : Contents exe A mem vm) (hcur : vm.current = some A)
    (hr : vm.mmu.readMem addr size = .ok (value, m)) :
    value = load mem addr size ∧ Contents exe A mem { vm with mmu := m } := by
  unfold Mmu.readMem at hr
  cases ht : vm.mmu.translate addr size false with
  | error ex =>
    rw [ht] at hr
    cases hr
  | ok r =>
    obtain ⟨phys, m1⟩ := r
    rw [ht] at hr
    cases hr
    obtain ⟨i, e, he, hv, hvp, hal, -, rfl, rfl⟩ := translate_ok ht
    obtain ⟨B, hB, hm⟩ := hI.tlb_page e (List.mem_of_getElem? he) hv
    rw [hcur, Option.some.injEq] at hB
    subst hB
    refine ⟨?_, h.of_flags rfl (fun _ => rfl) (fun _ => rfl) (fun v => pageDirty_translate he false _)
      (h.flags.translate he hv false _)⟩
    have hl := load_page (h.resident _ _ hm) (access_in_page hal)
    rw [hvp, Nat.mul_comm (addr / pageSize), Nat.div_add_mod] at hl
    exact hl

/-- A write that hits the TLB is a write to the memory of the process. -/
theorem Contents.writeMem {addr : Nat} {size : AccessSize} {value : Word} {m : Mmu}
    (hI : FrameInv vm) (h : Contents exe A mem vm) (hcur : vm.current = some A)
    (hw : vm.mmu.writeMem addr size value = .ok m) :
    Contents exe A (store mem addr size value) { vm with mmu := m } := by
  unfold Mmu.writeMem at hw
  cases ht : vm.mmu.translate addr size true with
  | error ex =>
    rw [ht] at hw
    cases hw
  | ok r =>
    obtain ⟨phys, m1⟩ := r
    rw [ht] at hw
    cases hw
    obtain ⟨i, e, he, hv, hvp, hal, -, rfl, rfl⟩ := translate_ok ht
    have hmem := List.mem_of_getElem? he
    obtain ⟨B, hB, hm⟩ := hI.tlb_page e hmem hv
    rw [hcur, Option.some.injEq] at hB
    subst hB
    have hlt : i < vm.mmu.tlb.length := (List.getElem?_eq_some_iff.mp he).1
    have haddr : e.virtualPage * pageSize + addr % pageSize = addr := by
      rw [hvp, Nat.mul_comm, Nat.div_add_mod]
    have hin := access_in_page hal
    -- pages other than that of the address do not change
    have hother : ∀ v ≠ e.virtualPage, ∀ i < pageSize,
        store mem addr size value (v * pageSize + i) = mem (v * pageSize + i) := by
      intro v hv i hi
      rw [← haddr]
      exact store_other value hin hv hi
    refine ⟨h.space, h.only, ?_, ?_, h.flags.translate he hv true _⟩
    · intro v g hg i hi
      have hg' : vm.Maps A v g := hg
      show store vm.mmu.mainMemory (e.physicalPage * pageSize + addr % pageSize) size value _ = _
      by_cases hve : v = e.virtualPage
      · subst hve
        have hs : store vm.mmu.mainMemory (e.physicalPage * pageSize + addr % pageSize) size value _ =
            store mem (e.virtualPage * pageSize + addr % pageSize) size value _ :=
          store_page size value (h.resident _ _ hm i hi)
        rw [haddr] at hs
        rw [maps_frame_unique hg' hm]
        exact hs
      · have hgf : g ≠ e.physicalPage := fun hgf => hve (hI.maps_inj hg' (hgf ▸ hm)).2
        rw [store_other value hin hgf hi, hother v hve i hi]
        exact h.resident v g hg' i hi
    · intro sp v x hsp hx hclean i hi
      have hx' : vm.getEntry A v = some x := hx
      by_cases hve : v = e.virtualPage
      · -- the page of the address is in memory, and now dirty
        subst hve
        obtain ⟨y, hy, hyv, -⟩ := hm
        rw [hx', Option.some.injEq] at hy
        subst hy
        rcases hclean with hinv | hnd
        · rw [hyv] at hinv
          cases hinv
        · exact absurd (Or.inr ⟨_, List.mem_of_getElem? (List.getElem?_set_self hlt), hv, rfl,
            by simp⟩) hnd
      · rw [hother v hve i hi]
        exact h.backed sp v x hsp hx' (hclean.imp id fun hnd hd => hnd (pageDirty_translate he true _ hd))
          i hi

/-! ## Context switches -/

/-- `SaveState` over the TLB: dirty bits of the TLB entries go to the page table. -/
theorem saveTlb_dirty : ∀ {tlb pt tlb' pt' : List TranslationEntry},
    saveTlb tlb pt = some (tlb', pt') →
    (tlb.Pairwise fun t u => t.valid = true → u.valid = true → t.virtualPage ≠ u.virtualPage) →
    (∀ t ∈ tlb, t.valid = true → ∀ (e : TranslationEntry), pt[t.virtualPage]? = some e →
      e.dirty = true → t.dirty = true) →
    ∀ (v : Nat) (e' : TranslationEntry), pt'[v]? = some e' →
      ((∃ e, pt[v]? = some e ∧ e.dirty = true) ∨
        ∃ t ∈ tlb, t.valid = true ∧ t.virtualPage = v ∧ t.dirty = true) → e'.dirty = true := by
  intro tlb
  induction tlb with
  | nil =>
    intro pt tlb' pt' h _ _ v e' he' hd
    cases h
    rcases hd with ⟨e, he, hd⟩ | ⟨t, ht, -⟩
    · rw [he', Option.some.injEq] at he
      rw [he]
      exact hd
    · cases ht
  | cons t tlb ih =>
    intro pt tlb' pt' h hpw hle v e' he' hd
    obtain ⟨hhead, hpw⟩ := List.pairwise_cons.mp hpw
    simp only [saveTlb, Option.bind_eq_bind] at h
    split at h
    · rename_i htv
      simp only [Option.bind_eq_some_iff, Option.pure_def, Option.some.injEq, Prod.mk.injEq] at h
      obtain ⟨e0, he0, ⟨tlb1, pt1⟩, h1, rfl, rfl⟩ := h
      have hlt := (List.getElem?_eq_some_iff.mp he0).1
      refine ih h1 hpw (fun u hu huv e he hed => ?_) v e' he' ?_
      · rw [List.getElem?_set_ne (hhead u hu htv huv)] at he
        exact hle u (List.mem_cons_of_mem _ hu) huv e he hed
      · by_cases hv : t.virtualPage = v
        · -- the page of `t`: the new bit is that of `t`
          have htd : t.dirty = true ∨ ∃ u ∈ tlb, u.valid = true ∧ u.virtualPage = v ∧ u.dirty = true := by
            rcases hd with ⟨e, he, hed⟩ | ⟨u, hu, huv, hup, hud⟩
            · exact Or.inl (hle t List.mem_cons_self htv e (by rw [hv]; exact he) hed)
            · rcases List.mem_cons.mp hu with rfl | hu
              · exact Or.inl hud
              · exact Or.inr ⟨u, hu, huv, hup, hud⟩
          refine htd.imp (fun htd => ⟨{ e0 with dirty := t.dirty, use := t.use }, ?_, htd⟩) id
          rw [← hv]
          exact List.getElem?_set_self hlt
        · rcases hd with ⟨e, he, hed⟩ | ⟨u, hu, huv, hup, hud⟩
          · exact Or.inl ⟨e, by rw [List.getElem?_set_ne hv]; exact he, hed⟩
          · rcases List.mem_cons.mp hu with rfl | hu
            · exact absurd hup hv
            · exact Or.inr ⟨u, hu, huv, hup, hud⟩
    · rename_i htv
      simp only [Option.bind_eq_some_iff, Option.pure_def, Option.some.injEq, Prod.mk.injEq] at h
      obtain ⟨⟨tlb1, pt1⟩, h1, rfl, rfl⟩ := h
      refine ih h1 hpw (fun u hu => hle u (List.mem_cons_of_mem _ hu)) v e' he' (hd.imp id ?_)
      rintro ⟨u, hu, huv, hup, hud⟩
      rcases List.mem_cons.mp hu with rfl | hu
      · exact absurd huv htv
      · exact ⟨u, hu, huv, hup, hud⟩

/-- `SaveState` over the TLB changes no `readOnly` bit, keeps the length of the TLB, and succeeds when
the TLB translates pages of the page table. -/
theorem saveTlb_total : ∀ {tlb pt : List TranslationEntry},
    (∀ t ∈ tlb, t.valid = true → t.virtualPage < pt.length) →
    ∃ tlb' pt', saveTlb tlb pt = some (tlb', pt') ∧ tlb'.length = tlb.length ∧
      pt'.map TranslationEntry.readOnly = pt.map TranslationEntry.readOnly := by
  intro tlb
  induction tlb with
  | nil => exact fun _ => ⟨[], _, rfl, rfl, rfl⟩
  | cons t tlb ih =>
    intro pt hlt
    have htl := fun u hu => hlt u (List.mem_cons_of_mem _ hu)
    cases htv : t.valid with
    | true =>
      have h0 := hlt t List.mem_cons_self htv
      have htl' : ∀ u ∈ tlb, u.valid = true → u.virtualPage <
          (pt.set t.virtualPage { pt[t.virtualPage] with dirty := t.dirty, use := t.use }).length :=
        fun u hu huv => by rw [List.length_set]; exact htl u hu huv
      obtain ⟨tlb', pt', h, hlen, hro⟩ := ih htl'
      refine ⟨{ t with valid := false } :: tlb', pt', ?_, by simp [hlen], ?_⟩
      · simp only [saveTlb, htv, if_true, List.getElem?_eq_getElem h0, Option.bind_eq_bind,
          Option.bind_some, h, Option.pure_def]
      · rw [hro]
        exact map_set_of_eq _ (List.getElem?_eq_getElem h0) rfl
    | false =>
      obtain ⟨tlb', pt', h, hlen, hro⟩ := ih htl
      refine ⟨t :: tlb', pt', ?_, by simp [hlen], hro⟩
      simp only [saveTlb, htv, Bool.false_eq_true, if_false, h, Option.bind_eq_bind, Option.bind_some,
        Option.pure_def]

/-- The TLB of a state that keeps the frame invariant has one entry for a page. -/
theorem FrameInv.tlb_pairwise (hI : FrameInv vm) :
    vm.mmu.tlb.Pairwise fun t u => t.valid = true → u.valid = true → t.virtualPage ≠ u.virtualPage := by
  rw [List.pairwise_iff_getElem]
  intro i j hi hj hij htv huv hp
  have := hI.tlb_inj i j _ _ (List.getElem?_eq_getElem hi) (List.getElem?_eq_getElem hj) htv huv hp
  omega

/-- With no valid entry in the TLB, whichever process runs, and whatever invalid entries stand in the
TLB, the contents are the same. -/
theorem Contents.setInvalidTlb (h : Contents exe A mem vm) (hinv : ∀ t ∈ vm.mmu.tlb, t.valid = false)
    {tlb : List TranslationEntry} (hinv' : ∀ t ∈ tlb, t.valid = false) (hlen : tlb.length = tlbSize)
    (cur : Option SpaceId) : Contents exe A mem { vm.setTlb tlb with current := cur } := by
  have hno : ∀ t ∈ tlb, ¬ t.valid = true := fun t ht htv => by
    rw [hinv' t ht] at htv
    cases htv
  refine h.of_flags rfl (fun _ => rfl) (fun _ => rfl) ?_
    ⟨hlen, h.flags.index_lt, h.flags.victima_lt, h.flags.page_writable,
      fun t ht htv => absurd htv (hno t ht), fun t ht htv => absurd htv (hno t ht)⟩
  rintro v (hd | ⟨t, ht, htv, -⟩)
  · exact Or.inl hd
  · rw [hinv t ht] at htv
    cases htv

/-- `SaveState` succeeds, keeps the contents and leaves no valid TLB entry. -/
theorem Contents.saveState (hI : FrameInv vm) (h : Contents exe A mem vm)
    (hcur : vm.current = some A) :
    ∃ vm', vm.saveState A = some vm' ∧ Contents exe A mem vm' ∧ vm'.current = vm.current := by
  obtain ⟨sp, hsp, -⟩ := h.space
  have hlt : ∀ t ∈ vm.mmu.tlb, t.valid = true → t.virtualPage < sp.pageTable.length := by
    intro t ht htv
    obtain ⟨B, hB, x, hx, -⟩ := hI.tlb_page t ht htv
    rw [hcur, Option.some.injEq] at hB
    subst hB
    rw [getEntry_eq hsp] at hx
    exact (List.getElem?_eq_some_iff.mp hx).1
  obtain ⟨tlb', pt', hsave, hlen, hro⟩ := saveTlb_total hlt
  obtain ⟨hinv, -, hcore⟩ := saveTlb_spec hsave
  have hsp' : (vm.setTlb tlb').spaces A = some sp := hsp
  have hget : ∀ v, ((vm.setTlb tlb').setSpace A { sp with pageTable := pt' }).getEntry A v = pt'[v]? := by
    intro v
    rw [getEntry_setSpace, if_pos rfl]
  have hno : ∀ t ∈ tlb', ¬ t.valid = true := fun t ht htv => by
    rw [hinv t ht] at htv
    cases htv
  refine ⟨(vm.setTlb tlb').setSpace A { sp with pageTable := pt' }, ?_, ?_, rfl⟩
  · simp only [Vm.saveState, hsp, hsave, Option.bind_eq_bind, Option.bind_some, setPageTable_eq hsp']
  refine h.of_flags rfl (fun B => ?_) (fun v => ?_) (fun v hd => Or.inl ?_)
    ⟨hlen.trans h.flags.tlb_length, h.flags.index_lt, h.flags.victima_lt, ?_,
      fun t ht htv => absurd htv (hno t ht), fun t ht htv => absurd htv (hno t ht)⟩
  · rw [spaces_setSpace]
    split
    · rename_i hB
      subst hB
      rw [hsp]
      rfl
    · rfl
  · rw [hget, getEntry_eq hsp, ← List.getElem?_map, ← List.getElem?_map, hcore]
  · -- a dirty page has an entry, and that entry is dirty afterwards
    have hlen' : pt'.length = sp.pageTable.length := by
      have := congrArg List.length hcore
      simpa using this
    have hv : v < sp.pageTable.length := by
      rcases hd with ⟨x, hx, -⟩ | ⟨t, ht, htv, htp, -⟩
      · rw [getEntry_eq hsp] at hx
        exact (List.getElem?_eq_some_iff.mp hx).1
      · rw [← htp]
        exact hlt t ht htv
    have hv' : v < pt'.length := by rw [hlen']; exact hv
    refine ⟨pt'[v], by rw [hget]; exact List.getElem?_eq_getElem hv', ?_⟩
    refine saveTlb_dirty hsave hI.tlb_pairwise (fun t ht htv e he => ?_) v _
      (List.getElem?_eq_getElem hv') ?_
    · exact h.flags.tlb_dirty t ht htv e (by rw [getEntry_eq hsp]; exact he)
    · refine hd.imp ?_ id
      rintro ⟨x, hx, hxd⟩
      rw [getEntry_eq hsp] at hx
      exact ⟨x, hx, hxd⟩
  · intro v x hx
    rw [hget] at hx
    have hr : (pt'.map TranslationEntry.readOnly)[v]? = (sp.pageTable.map TranslationEntry.readOnly)[v]? := by
      rw [hro]
    simp only [List.getElem?_map, hx, Option.map_some] at hr
    obtain ⟨y, hy, hyr⟩ := Option.map_eq_some_iff.mp hr.symm
    rw [← hyr]
    exact h.flags.page_writable v y (by rw [getEntry_eq hsp]; exact hy)

/-- A context switch between the process and kernel threads succeeds and keeps the contents. -/
theorem Contents.switchTo (hI : FrameInv vm) (h : Contents exe A mem vm)
    (hcur : vm.current = none ∨ vm.current = some A) {next : Option SpaceId}
    (hnext : next = none ∨ next = some A) :
    ∃ vm', vm.switchTo next = some vm' ∧ Contents exe A mem vm' ∧ vm'.current = next := by
  have hsave : ∃ vm1, vm.saveCurrent = some vm1 ∧ Contents exe A mem vm1 ∧
      ∀ t ∈ vm1.mmu.tlb, t.valid = false := by
    unfold saveCurrent
    rcases hcur with hcur | hcur
    · refine ⟨vm, by rw [hcur], h, fun t ht => ?_⟩
      by_contra hv
      obtain ⟨B, hB, -⟩ := hI.tlb_page t ht (by simpa using hv)
      rw [hcur] at hB
      cases hB
    · obtain ⟨vm1, h1, hC, -⟩ := h.saveState hI hcur
      exact ⟨vm1, by rw [hcur]; exact h1, hC, (hI.saveState h1).2.1⟩
  obtain ⟨vm1, h1, hC, hinv⟩ := hsave
  rcases hnext with rfl | rfl
  · refine ⟨{ vm1 with current := none }, by simp [Vm.switchTo, h1], ?_, rfl⟩
    exact hC.setInvalidTlb hinv hinv hC.flags.tlb_length none
  · obtain ⟨sp, hsp, -⟩ := hC.space
    refine ⟨{ vm1 with current := some A }.restoreState, by simp [Vm.switchTo, h1, hsp], ?_, rfl⟩
    refine hC.setInvalidTlb hinv ?_ (by simpa using hC.flags.tlb_length) (some A)
    intro t ht
    obtain ⟨u, -, rfl⟩ := List.mem_map.mp ht
    rfl

end Vm

end Nachos
