import Nachos.Userprog.Clock
import Nachos.Userprog.Proofs.FrameInvProofs

/-!
# Proofs: the clock

`TLBSearch` looks at the frame under the hand whatever frame the loop of `PickVictim` is at. So one entry
decides: the frame under the hand is taken, or the next one if that entry was used and dirty.
-/

namespace Nachos.Vm

variable {vm vm' : Vm} {this : SpaceId} {ref : EntryRef} {entry : TranslationEntry} {round p : Nat} {ps : List Nat}

/-! ## The entry under the hand -/

/-- `TLBSearch` finds the entry `entry`. -/
structure Examines (vm : Vm) (this : SpaceId) (ref : EntryRef) (entry : TranslationEntry) : Prop where
  search : vm.tlbSearch = some (some ref)
  get : vm.getRef this ref = some entry

/-- The clock wants the entry in this round. -/
def wanted (round : Nat) (entry : TranslationEntry) : Bool :=
  !entry.use && (entry.dirty == (round == 2 || round == 4))

theorem set_getElem?_self {α : Type} {l : List α} {i : Nat} {a : α} (h : l[i]? = some a) : l.set i a = l := by
  obtain ⟨hlt, rfl⟩ := List.getElem?_eq_some_iff.mp h
  exact List.set_getElem_self hlt

/-- Clearing a `use` bit that is not set changes nothing. -/
theorem clearUse_of_unused (hget : vm.getRef this ref = some entry) (huse : entry.use = false) :
    vm.clearUse this ref = some vm := by
  have hself : { entry with use := false } = entry := by
    cases entry
    cases huse
    rfl
  cases ref with
  | tlb i =>
    have htlb : vm.mmu.tlb[i]? = some entry := hget
    simp only [clearUse, htlb, Option.bind_eq_bind, Option.bind_some, hself, setTlb, set_getElem?_self htlb,
      Option.pure_def]
  | page vpn =>
    have hentry : vm.getEntry this vpn = some entry := hget
    obtain ⟨sp, hsp, htable⟩ := getEntry_eq_some.mp hentry
    have hlt := (List.getElem?_eq_some_iff.mp htable).1
    simp only [clearUse, hentry, Option.bind_eq_bind, Option.bind_some, hself]
    rw [setEntry_eq hsp hlt, set_getElem?_self htable]
    simp only [setSpace, ← hsp, Function.update_eq_self]

/-- The TLB entry of a frame is at the same place when only `use` bits change. -/
theorem UseEq.findIdx?_frame (h : UseEq vm vm') (frame : Nat) :
    (vm'.mmu.tlb.findIdx? fun e => e.valid && e.physicalPage == frame) =
      vm.mmu.tlb.findIdx? fun e => e.valid && e.physicalPage == frame := by
  have hmap : ∀ tlb : List TranslationEntry, (tlb.findIdx? fun e => e.valid && e.physicalPage == frame) =
      (tlb.map TranslationEntry.noUse).findIdx? fun e => e.valid && e.physicalPage == frame := by
    intro tlb
    rw [List.findIdx?_map]
    rfl
  rw [hmap vm'.mmu.tlb, hmap vm.mmu.tlb, h.tlb]

theorem UseEq.tlbSearch (h : UseEq vm vm') (hhand : vm'.victima = vm.victima) : vm'.tlbSearch = vm.tlbSearch := by
  unfold Vm.tlbSearch
  rw [hhand, h.findIdx?_frame, h.map]

/-- A used entry is the same one without its `use` bit afterwards. -/
theorem Examines.clearUse (h : vm.Examines this ref entry) :
    ∃ vm', vm.clearUse this ref = some vm' ∧ vm'.Examines this ref { entry with use := false } ∧
      vm'.victima = vm.victima := by
  cases ref with
  | tlb i =>
    have htlb : vm.mmu.tlb[i]? = some entry := h.get
    have hclear : vm.clearUse this (.tlb i) =
        some (vm.setTlb (vm.mmu.tlb.set i { entry with use := false })) := by
      simp only [Vm.clearUse, htlb, Option.bind_eq_bind, Option.bind_some, Option.pure_def]
    refine ⟨_, hclear, ⟨?_, ?_⟩, rfl⟩
    · rw [(useEq_clearUse hclear).tlbSearch rfl]
      exact h.search
    · exact List.getElem?_set_self (List.getElem?_eq_some_iff.mp htlb).1
  | page vpn =>
    have hentry : vm.getEntry this vpn = some entry := h.get
    obtain ⟨sp, hsp, htable⟩ := getEntry_eq_some.mp hentry
    have hlt := (List.getElem?_eq_some_iff.mp htable).1
    have hclear : vm.clearUse this (.page vpn) = some (vm.setSpace this
        { sp with pageTable := sp.pageTable.set vpn { entry with use := false } }) := by
      simp only [Vm.clearUse, hentry, Option.bind_eq_bind, Option.bind_some]
      exact setEntry_eq hsp hlt _
    refine ⟨_, hclear, ⟨?_, ?_⟩, rfl⟩
    · rw [(useEq_clearUse hclear).tlbSearch rfl]
      exact h.search
    · show (vm.setSpace this _).getEntry this vpn = _
      rw [getEntry_set hsp hlt _ rfl, if_pos ⟨rfl, rfl⟩]

/-- An entry that is not wanted, and not used in the second round, leaves the round without a victim. -/
theorem Examines.clockRound_unwanted (h : vm.Examines this ref entry) (hw : wanted round entry = false)
    (huse : round = 2 → entry.use = false) (ps : List Nat) : clockRound this round ps vm = some (none, vm) := by
  induction ps with
  | nil => rfl
  | cons p ps ih =>
    unfold wanted at hw
    simp only [clockRound, h.search, h.get, Option.bind_eq_bind, Option.bind_some, hw, Bool.false_eq_true, if_false]
    by_cases hr : round = 2
    · simp only [hr, beq_self_eq_true, if_true, clearUse_of_unused h.get (huse hr), Option.bind_some]
      rw [← hr]
      exact ih
    · simp only [beq_iff_eq, hr, if_false]
      exact ih

/-- A wanted entry makes the frame of the loop the victim. -/
theorem Examines.clockRound_wanted (h : vm.Examines this ref entry) (hw : wanted round entry = true) :
    clockRound this round (p :: ps) vm = some (some (p % numPhysPages), { vm with victima := (p + 1) % numPhysPages }) := by
  unfold wanted at hw
  simp only [clockRound, h.search, h.get, Option.bind_eq_bind, Option.bind_some, hw, if_true, Option.pure_def]

/-- In the second round a used entry is cleared. -/
theorem Examines.clockRound_clear (h : vm.Examines this ref entry) (huse : entry.use = true)
    (hclear : vm.clearUse this ref = some vm') :
    clockRound this 2 (p :: ps) vm = clockRound this 2 ps vm' := by
  simp [clockRound, h.search, h.get, huse, hclear]

/-- The first two frames of a round. -/
theorem range_map_hand (v : Nat) : ∃ ps, (List.range numPhysPages).map (v + ·) = v :: (v + 1) :: ps := by
  refine ⟨(((List.range 62).map Nat.succ).map Nat.succ).map (v + ·), ?_⟩
  show (List.range (62 + 1 + 1)).map (v + ·) = _
  rw [List.range_succ_eq_map, List.range_succ_eq_map]
  rfl

/-- What `PickVictim` returns under the clock: the first entry it looks at decides. -/
theorem Examines.pickVictim_eq (h : vm.Examines this ref entry) (hhand : vm.victima < numPhysPages) (choice : Nat) :
    ∃ vm1, vm.clearUse this ref = some vm1 ∧ vm.pickVictim .clock this choice =
      some (vm.taken entry, { vm1 with victima := (vm.taken entry + 1) % numPhysPages }) := by
  obtain ⟨vm1, hclear, h1, hvict1⟩ := h.clearUse
  obtain ⟨ps, hps⟩ := range_map_hand vm.victima
  have hmod : vm.victima % numPhysPages = vm.victima := Nat.mod_eq_of_lt hhand
  refine ⟨vm1, hclear, ?_⟩
  unfold taken
  simp only [pickVictim, clockRounds, hps]
  by_cases huse : entry.use = true
  · have hw1 : wanted 1 entry = false := by simp [wanted, huse]
    rw [h.clockRound_unwanted hw1 (by omega)]
    simp only [Option.bind_eq_bind, Option.bind_some, hps]
    rw [h.clockRound_clear huse hclear]
    by_cases hdirty : entry.dirty = true
    · have hw2 : wanted 2 { entry with use := false } = true := by simp [wanted, hdirty]
      rw [h1.clockRound_wanted hw2]
      simp [huse, hdirty]
    · have hw2 : wanted 2 { entry with use := false } = false := by simp [wanted, hdirty]
      have hw3 : wanted 3 { entry with use := false } = true := by simp [wanted, hdirty]
      rw [h1.clockRound_unwanted hw2 fun _ => rfl]
      simp only [Option.bind_some, hvict1, hps]
      rw [h1.clockRound_wanted hw3]
      simp [huse, hdirty, hmod]
  · rw [Bool.not_eq_true] at huse
    have hself : vm1 = vm := by
      have := clearUse_of_unused h.get huse
      rw [hclear] at this
      exact Option.some.inj this
    rw [hself]
    by_cases hdirty : entry.dirty = true
    · have hw1 : wanted 1 entry = false := by simp [wanted, hdirty]
      have hw2 : wanted 2 entry = true := by simp [wanted, huse, hdirty]
      rw [h.clockRound_unwanted hw1 (by omega)]
      simp only [Option.bind_eq_bind, Option.bind_some, hps]
      rw [h.clockRound_wanted hw2]
      simp [huse, hmod]
    · have hw1 : wanted 1 entry = true := by simp [wanted, huse, hdirty]
      rw [h.clockRound_wanted hw1]
      simp [huse, hmod]

/-! ## The bits of the frames -/

/-- The slot of this page table or of the TLB, as `TLBSearch` returns it. -/
def Slot.entryRef : Slot → EntryRef
  | .tlb i => .tlb i
  | .page _ vpn => .page vpn

theorem Full.getVpn (h : vm.Full) {frame : Nat} (hf : frame < numPhysPages) :
    vm.paginaMapa.getVpn frame = some (vm.paginaMapa.vpns frame) := by
  have hlt : frame < vm.paginaMapa.size := by
    rw [h.size]
    exact hf
  simp [Coremap.getVpn, Coremap.test, guard, hlt, h.marked frame hf, h.owned frame hf]

theorem Full.getAddressSpace (h : vm.Full) {frame : Nat} (hf : frame < numPhysPages) :
    vm.paginaMapa.getAddressSpace frame = some (vm.paginaMapa.addrSpaces frame) := by
  have hlt : frame < vm.paginaMapa.size := by
    rw [h.size]
    exact hf
  simp [Coremap.getAddressSpace, Coremap.test, guard, hlt, h.marked frame hf, h.owned frame hf]

/-- `TLBSearch` returns the slot under the hand. -/
theorem Full.tlbSearch_eq (h : vm.Full) (this : SpaceId) :
    vm.tlbSearch = some (some (vm.handSlot this).entryRef) ∧
      vm.getRef this (vm.handSlot this).entryRef = vm.slotEntry (vm.handSlot this) := by
  obtain ⟨owner, howner⟩ := Option.isSome_iff_exists.mp (h.owned _ h.hand)
  cases hidx : vm.mmu.tlb.findIdx? fun e => e.valid && e.physicalPage == vm.victima with
  | some i =>
    simp only [Vm.tlbSearch, handSlot, hidx]
    exact ⟨rfl, rfl⟩
  | none =>
    simp only [Vm.tlbSearch, handSlot, hidx, h.getAddressSpace h.hand, h.getVpn h.hand, howner]
    exact ⟨rfl, rfl⟩

/-- `PickVictim` reads the slot under the hand. -/
theorem Full.slotEntry_of_pickVictim (h : vm.Full) {choice frame : Nat}
    (hpick : vm.pickVictim .clock this choice = some (frame, vm')) :
    ∃ entry, vm.slotEntry (vm.handSlot this) = some entry := by
  obtain ⟨hsearch, hget⟩ := h.tlbSearch_eq this
  obtain ⟨ps, hps⟩ := range_map_hand vm.victima
  cases hentry : vm.slotEntry (vm.handSlot this) with
  | some entry => exact ⟨entry, rfl⟩
  | none =>
    rw [hentry] at hget
    simp [pickVictim, clockRounds, hps, clockRound, hsearch, hget] at hpick

/-- Clearing the slot under the hand changes the bits of the frames that have it. -/
theorem slotEntry_clearUse (slot : Slot) (hand : Slot) (hmine : ∀ owner vpn, hand = .page owner vpn → owner = this)
    (hget : vm.slotEntry hand = some entry) (hclear : vm.clearUse this hand.entryRef = some vm') :
    vm'.slotEntry slot = if slot = hand then some { entry with use := false } else vm.slotEntry slot := by
  cases hand with
  | tlb i =>
    have htlb : vm.mmu.tlb[i]? = some entry := hget
    simp only [Slot.entryRef, clearUse, htlb, Option.bind_eq_bind, Option.bind_some, Option.pure_def,
      Option.some.injEq] at hclear
    subst hclear
    cases slot with
    | tlb j =>
      show (vm.mmu.tlb.set i _)[j]? = _
      by_cases hij : i = j
      · subst hij
        rw [if_pos rfl, List.getElem?_set_self (List.getElem?_eq_some_iff.mp htlb).1]
      · rw [if_neg (by simp only [Slot.tlb.injEq]; omega), List.getElem?_set_ne hij]
        rfl
    | page owner vpn => rfl
  | page mine vpn =>
    have := hmine mine vpn rfl
    subst this
    have hentry : vm.getEntry mine vpn = some entry := hget
    obtain ⟨sp, hsp, htable⟩ := getEntry_eq_some.mp hentry
    have hlt := (List.getElem?_eq_some_iff.mp htable).1
    simp only [Slot.entryRef, clearUse, hentry, Option.bind_eq_bind, Option.bind_some] at hclear
    rw [setEntry_eq hsp hlt, Option.some.injEq] at hclear
    subst hclear
    cases slot with
    | tlb j => rfl
    | page owner w =>
      show (vm.setSpace mine _).getEntry owner w = _
      rw [getEntry_set hsp hlt _ rfl]
      simp only [Slot.page.injEq]
      rfl

/-- A frame is not used afterwards if it was not used before, or if its bits are those under the hand. -/
theorem unused_iff (hget : vm.slotEntry (vm.handSlot this) = some entry)
    (hclear : vm.clearUse this (vm.handSlot this).entryRef = some vm') (n frame : Nat) :
    { vm' with victima := n }.Unused frame ↔ vm.Unused frame ∨ vm.frameSlot frame = vm.handSlot this := by
  have hmine : ∀ owner vpn, vm.handSlot this = .page owner vpn → owner = this := by
    intro owner vpn hslot
    unfold handSlot at hslot
    split at hslot
    · cases hslot
    · cases hslot
      rfl
  have huse := useEq_clearUse hclear
  have hslot : frameSlot { vm' with victima := n } frame = vm.frameSlot frame := by
    unfold frameSlot
    rw [huse.findIdx?_frame, huse.map]
  have hentry : frameEntry { vm' with victima := n } frame = vm'.slotEntry (vm.frameSlot frame) := by
    unfold frameEntry
    rw [hslot]
    cases vm.frameSlot frame <;> rfl
  unfold Unused
  rw [hentry, slotEntry_clearUse _ _ hmine hget hclear]
  by_cases hsame : vm.frameSlot frame = vm.handSlot this
  · simp [hsame]
  · simp only [hsame, if_false, or_false]
    rfl

/-- Under the clock `PickVictim` chooses by the bits of the frames exactly when the entry under the hand, read
in this page table, points to such a frame: that frame, or the next one if the entry is used and dirty. -/
theorem choosesByFrame_iff (h : vm.Occupied) (this : SpaceId) (choice : Nat) :
    vm.ChoosesByFrame this choice ↔
      ∃ entry, vm.slotEntry (vm.handSlot this) = some entry ∧
        (vm.AnyClean → vm.Clean (vm.taken entry)) ∧
        (¬ vm.AnyClean → vm.Unused (vm.taken entry) ∨ vm.frameSlot (vm.taken entry) = vm.handSlot this) := by
  obtain ⟨hsearch, hget⟩ := h.toFull.tlbSearch_eq this
  constructor
  · rintro ⟨frame, vm', hpick, hclean, hunused, -⟩
    obtain ⟨entry, hentry⟩ := h.toFull.slotEntry_of_pickVictim hpick
    have hex : vm.Examines this (vm.handSlot this).entryRef entry := ⟨hsearch, hget.trans hentry⟩
    obtain ⟨vm1, hclear, heq⟩ := hex.pickVictim_eq h.hand choice
    rw [heq, Option.some.injEq, Prod.mk.injEq] at hpick
    obtain ⟨rfl, rfl⟩ := hpick
    exact ⟨entry, hentry, hclean, fun hno => (unused_iff hentry hclear _ _).mp (hunused hno)⟩
  · rintro ⟨entry, hentry, hclean, hunused⟩
    have hex : vm.Examines this (vm.handSlot this).entryRef entry := ⟨hsearch, hget.trans hentry⟩
    obtain ⟨vm1, hclear, heq⟩ := hex.pickVictim_eq h.hand choice
    exact ⟨_, _, heq, hclean, fun hno => (unused_iff hentry hclear _ _).mpr (hunused hno), rfl⟩

/-- A process with 64 pages, page `i` in frame `i`; all pages are used, and those of `dirty` are dirty. -/
def fullVm (dirty : Nat → Bool) : Vm where
  mmu := ⟨fun _ => 0, List.replicate tlbSize ⟨0, 0, false, false, false, false⟩⟩
  paginaMapa := ⟨numPhysPages, (List.range numPhysPages).foldl Bitmap.mark (Bitmap.new numPhysPages fun _ => 0),
    fun _ => some 0, id⟩
  spaces := fun id => if id = 0 then some
    { exe := ⟨⟨⟨0, 40, 0⟩, ⟨0, 40, 0⟩, ⟨0, 0, 6144⟩⟩, []⟩
      numPages := numPhysPages
      pageTable := (List.range numPhysPages).map fun i => ⟨i, i, true, false, true, dirty i⟩
      swapFD := fun _ => 0
      swapMap := Bitmap.new numPhysPages fun _ => 0 } else none
  current := some 0
  victima := 0
  index := 0

theorem not_anyClean_of_used
    (h : ∀ frame < numPhysPages, (vm.frameEntry frame).map TranslationEntry.use = some true) : ¬ vm.AnyClean := by
  rintro ⟨frame, hlt, e, he, huse, -⟩
  have hused := h frame hlt
  rw [he, Option.map_some, huse] at hused
  cases hused

/-- No page is dirty: the clock clears the bit of frame 0 and takes it. -/
theorem choosesByFrame_iff_noDirty :
    (fullVm fun _ => false).Occupied ∧ (fullVm fun _ => false).ChoosesByFrame 0 0 := by
  have hocc : (fullVm fun _ => false).Occupied :=
    ⟨⟨by decide, rfl, by decide +kernel, by decide⟩, by decide⟩
  refine ⟨hocc, (choosesByFrame_iff hocc 0 0).mpr ⟨⟨0, 0, true, false, true, false⟩, by decide, ?_, ?_⟩⟩
  · exact fun hany => absurd hany (not_anyClean_of_used (by decide))
  · exact fun _ => Or.inr (by decide)

/-- Page 0 is dirty: the clock takes frame 1, which is still used. -/
theorem not_choosesByFrame_dirtyHand : ¬ ∀ vm this choice, Occupied vm → vm.ChoosesByFrame this choice := by
  intro h
  have hocc : (fullVm (· == 0)).Occupied :=
    ⟨⟨by decide, rfl, by decide +kernel, by decide⟩, by decide⟩
  obtain ⟨frame, vm', hpick, -, hunused, -⟩ := h _ 0 0 hocc
  have hno : ¬ (fullVm (· == 0)).AnyClean := not_anyClean_of_used (by decide)
  have hstill : (((fullVm (· == 0)).pickVictim .clock 0 0).bind fun r => (r.2.frameEntry r.1).map
      TranslationEntry.use) = some true := by decide +kernel
  obtain ⟨e, he, huse⟩ := hunused hno
  rw [hpick, Option.bind_some, he, Option.map_some, huse] at hstill
  cases hstill

end Nachos.Vm
