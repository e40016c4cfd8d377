import Nachos.Machine.Restart

/-!
# Proofs about traps between instructions

A trap changes the general registers only by the load that was pending. So an instruction that does not read
the register of that load computes the same with and without the trap, and what differs is who writes this
register last.
-/

namespace Nachos.Mips

open Foundations Registers

variable {r r' q q' : Registers} {m : Mmu} {i : Instruction} {w : Option (RegNum × Word)} {b : Word}

/-! ## Two executions of the `switch` -/

/-- The general registers after a write. -/
def written (w : Option (RegNum × Word)) (gpr : RegNum → Word) : RegNum → Word :=
  match w with
  | none => gpr
  | some (n, v) => fun x => if x = n then v else gpr x

/-- The registers `q` and `q'` come from `r` and `r'` by the same write, and are the same otherwise. -/
structure Pair (w : Option (RegNum × Word)) (r r' q q' : Registers) : Prop where
  gpr : q.gpr = written w r.gpr
  gpr' : q'.gpr = written w r'.gpr
  hi : q'.hi = q.hi
  lo : q'.lo = q.lo
  pc : q'.pc = q.pc
  nextPc : q'.nextPc = q.nextPc
  loadReg : q.loadReg = r.loadReg
  loadValue : q.loadValue = r.loadValue
  loadReg' : q'.loadReg = r'.loadReg
  loadValue' : q'.loadValue = r'.loadValue

/-- The two executions stop in the same way, or leave the same. -/
inductive Corresponds (w : Option (RegNum × Word)) (r r' : Registers) :
    Except Stop Executed → Except Stop Executed → Prop where
  | stop (x : Stop) (hw : w = none) : Corresponds w r r' (.error x) (.error x)
  | ok (e e' : Executed) (regs : Pair w r r' e.regs e'.regs) (mmu : e'.mmu = e.mmu)
      (pcAfter : e'.pcAfter = e.pcAfter) (nextLoadReg : e'.nextLoadReg = e.nextLoadReg)
      (nextLoadValue : e.nextLoadReg = 0 ∨ e'.nextLoadValue = e.nextLoadValue) :
      Corresponds w r r' (.ok e) (.ok e')

/-- The registers differ in what a trap changes only, and the instruction does not read that. -/
structure Unread (i : Instruction) (r r' : Registers) : Prop where
  gpr : ∀ x ∈ reads i, r'.gpr x = r.gpr x
  hi : r'.hi = r.hi
  lo : r'.lo = r.lo
  pc : r'.pc = r.pc
  nextPc : r'.nextPc = r.nextPc
  pending : i.rt = 0 ∨ r'.pendingValue i = r.pendingValue i

theorem Pair.jump (h : Pair w r r' q q') {pcAfter pcAfter' : Word} (hpc : pcAfter' = pcAfter) :
    Corresponds w r r' (q.jump m pcAfter) (q'.jump m pcAfter') :=
  .ok _ _ h rfl hpc rfl (Or.inl rfl)

theorem Pair.done (h : Pair w r r' q q') : Corresponds w r r' (q.done m) (q'.done m) :=
  .ok _ _ h rfl (congrArg (· + 4) h.nextPc) rfl (Or.inl rfl)

theorem Pair.branch (h : Pair w r r' q q') {taken taken' : Bool} (ht : taken' = taken) :
    Corresponds w r r' (q.branch m i taken) (q'.branch m i taken') := by
  apply h.jump
  rw [ht, h.nextPc]

theorem Pair.delay (h : Pair w r r' q q') {n : RegNum} {v v' : Word} (hv : n = 0 ∨ v' = v) :
    Corresponds w r r' (q.delay m n v) (q'.delay m n v') :=
  .ok _ _ h rfl (congrArg (· + 4) h.nextPc) rfl hv

namespace Unread

/-- The registers themselves. -/
theorem pair (h : Unread i r r') : Pair none r r' r r' :=
  ⟨rfl, rfl, h.hi, h.lo, h.pc, h.nextPc, rfl, rfl, rfl, rfl⟩

/-- A general register has been written. -/
theorem set (h : Unread i r r') (n : RegNum) {v v' : Word} (hv : v' = v) :
    Pair (some (n, v)) r r' (r.set n v) (r'.set n v') := by
  rw [hv]
  exact ⟨rfl, rfl, h.hi, h.lo, h.pc, h.nextPc, rfl, rfl, rfl, rfl⟩

/-- `HI` and `LO` have been written. -/
theorem hiLo (h : Unread i r r') {hi hi' lo lo' : Word} (hh : hi' = hi) (hl : lo' = lo) :
    Pair none r r' { r with hi := hi, lo := lo } { r' with hi := hi', lo := lo' } :=
  ⟨rfl, rfl, hh, hl, h.pc, h.nextPc, rfl, rfl, rfl, rfl⟩

end Unread

/-- A read of memory is the same. -/
theorem readMem_corresponds {addr addr' : Word} {size : AccessSize}
    {f f' : Word × Mmu → Except Stop Executed} (ha : addr' = addr)
    (h : ∀ x, Corresponds none r r' (f x) (f' x)) :
    Corresponds none r r' (readMem m addr size >>= f) (readMem m addr' size >>= f') := by
  rw [ha]
  cases readMem m addr size with
  | error x => exact .stop x rfl
  | ok x => exact h x

/-- A write to memory is the same. -/
theorem writeMem_corresponds {addr addr' value value' : Word} {size : AccessSize}
    {f f' : Mmu → Except Stop Executed} (ha : addr' = addr) (hv : value' = value)
    (h : ∀ x, Corresponds none r r' (f x) (f' x)) :
    Corresponds none r r' (writeMem m addr size value >>= f) (writeMem m addr' size value' >>= f') := by
  rw [ha, hv]
  cases writeMem m addr size value with
  | error x => exact .stop x rfl
  | ok x => exact h x

namespace Unread

theorem loadByte (h : Unread i r r') (hrs : r'.gpr i.rs = r.gpr i.rs) :
    Corresponds none r r' (r.loadByte m i) (r'.loadByte m i) := by
  unfold Registers.loadByte
  rw [hrs]
  exact readMem_corresponds rfl fun x => h.pair.delay (Or.inr rfl)

theorem loadHalf (h : Unread i r r') (hrs : r'.gpr i.rs = r.gpr i.rs) :
    Corresponds none r r' (r.loadHalf m i) (r'.loadHalf m i) := by
  unfold Registers.loadHalf
  rw [hrs]
  by_cases ha : r.gpr i.rs + i.extra &&& 0x1 ≠ 0
  · simp only [if_pos ha]
    exact .stop _ rfl
  · simp only [if_neg ha]
    exact readMem_corresponds rfl fun x => h.pair.delay (Or.inr rfl)

theorem loadWord (h : Unread i r r') (hrs : r'.gpr i.rs = r.gpr i.rs) :
    Corresponds none r r' (r.loadWord m i) (r'.loadWord m i) := by
  unfold Registers.loadWord
  rw [hrs]
  by_cases ha : r.gpr i.rs + i.extra &&& 0x3 ≠ 0
  · simp only [if_pos ha]
    exact .stop _ rfl
  · simp only [if_neg ha]
    exact readMem_corresponds rfl fun x => h.pair.delay (Or.inr rfl)

theorem loadPart (h : Unread i r r') (hrs : r'.gpr i.rs = r.gpr i.rs)
    (merge : Word → Word → Word → Word) :
    Corresponds none r r' (r.loadPart m merge i) (r'.loadPart m merge i) := by
  unfold Registers.loadPart
  rw [hrs]
  by_cases ha : r.gpr i.rs + i.extra &&& 0x3 ≠ 0
  · simp only [if_pos ha]
    exact .stop _ rfl
  · simp only [if_neg ha]
    refine readMem_corresponds rfl fun x => h.pair.delay ?_
    rcases h.pending with hz | hp
    · exact Or.inl hz
    · rw [hp]
      exact Or.inr rfl

theorem storeValue (h : Unread i r r') (hrs : r'.gpr i.rs = r.gpr i.rs) (hrt : r'.gpr i.rt = r.gpr i.rt)
    (size : AccessSize) : Corresponds none r r' (r.storeValue m size i) (r'.storeValue m size i) := by
  unfold Registers.storeValue
  exact writeMem_corresponds (by rw [hrs]) hrt fun x => h.pair.done

theorem storePart (h : Unread i r r') (hrs : r'.gpr i.rs = r.gpr i.rs) (hrt : r'.gpr i.rt = r.gpr i.rt)
    (split : Word → Word → Word → Word) :
    Corresponds none r r' (r.storePart m split i) (r'.storePart m split i) := by
  unfold Registers.storePart
  rw [hrs, hrt]
  by_cases ha : r.gpr i.rs + i.extra &&& 0x3 ≠ 0
  · simp only [if_pos ha]
    exact .stop _ rfl
  · simp only [if_neg ha]
    exact readMem_corresponds rfl fun x => writeMem_corresponds rfl rfl fun x => h.pair.done

/-- The `switch` does the same with and without a trap. -/
theorem execSwitch (h : Unread i r r') (m : Mmu) :
    Corresponds (writes r i) r r' (execSwitch r m i) (execSwitch r' m i) := by
  have hread := h.gpr
  unfold reads at hread
  unfold Mips.execSwitch writes
  cases ho : i.opCode with
  | addu | subu | and | or | xor | nor | slt | sltu | sllv | srav | srlv =>
    rw [ho] at hread
    have hrs := hread i.rs (List.mem_cons_self ..)
    have hrt := hread i.rt (List.mem_cons_of_mem _ (List.mem_cons_self ..))
    exact (h.set i.rd (by rw [hrs, hrt])).done
  | add | sub =>
    rw [ho] at hread
    have hrs := hread i.rs (List.mem_cons_self ..)
    have hrt := hread i.rt (List.mem_cons_of_mem _ (List.mem_cons_self ..))
    simp only [hrs, hrt]
    split_ifs
    · exact .stop _ rfl
    · exact (h.set i.rd rfl).done
  | addi =>
    rw [ho] at hread
    have hrs := hread i.rs (List.mem_cons_self ..)
    simp only [hrs]
    split_ifs
    · exact .stop _ rfl
    · exact (h.set i.rt rfl).done
  | addiu | andi | ori | xori | slti | sltiu =>
    rw [ho] at hread
    have hrs := hread i.rs (List.mem_cons_self ..)
    exact (h.set i.rt (by rw [hrs])).done
  | lui => exact (h.set i.rt rfl).done
  | sll | sra | srl =>
    rw [ho] at hread
    have hrt := hread i.rt (List.mem_cons_self ..)
    exact (h.set i.rd (by rw [hrt])).done
  | mfhi => exact (h.set i.rd h.hi).done
  | mflo => exact (h.set i.rd h.lo).done
  | beq | bne =>
    rw [ho] at hread
    have hrs := hread i.rs (List.mem_cons_self ..)
    have hrt := hread i.rt (List.mem_cons_of_mem _ (List.mem_cons_self ..))
    exact h.pair.branch (by rw [hrs, hrt])
  | bgez | bgtz | blez | bltz =>
    rw [ho] at hread
    have hrs := hread i.rs (List.mem_cons_self ..)
    exact h.pair.branch (by rw [hrs])
  | bgezal | bltzal =>
    rw [ho] at hread
    have hrs := hread i.rs (List.mem_cons_self ..)
    refine (h.set retAddrReg (congrArg (· + 4) h.nextPc)).branch ?_
    rw [gpr_set, gpr_set, hrs, h.nextPc]
  | j => exact h.pair.jump (by rw [h.nextPc])
  | jal =>
    refine (h.set retAddrReg (congrArg (· + 4) h.nextPc)).jump ?_
    show ((r'.nextPc + 4) &&& 0xF0000000) ||| indexToAddr i.extra = _
    rw [h.nextPc]
    rfl
  | jr =>
    rw [ho] at hread
    exact h.pair.jump (hread i.rs (List.mem_cons_self ..))
  | jalr =>
    rw [ho] at hread
    have hrs := hread i.rs (List.mem_cons_self ..)
    refine (h.set i.rd (congrArg (· + 4) h.nextPc)).jump ?_
    rw [gpr_set, gpr_set, hrs, h.nextPc]
  | div =>
    rw [ho] at hread
    have hrs := hread i.rs (List.mem_cons_self ..)
    have hrt := hread i.rt (List.mem_cons_of_mem _ (List.mem_cons_self ..))
    simp only [hrs, hrt]
    by_cases hz : r.gpr i.rt = 0
    · rw [if_pos hz, if_pos hz]
      exact (h.hiLo rfl rfl).done
    · rw [if_neg hz, if_neg hz]
      cases divide (r.gpr i.rs) (r.gpr i.rt) with
      | error x => exact .stop x rfl
      | ok q => exact (h.hiLo rfl rfl).done
  | divu =>
    rw [ho] at hread
    have hrs := hread i.rs (List.mem_cons_self ..)
    have hrt := hread i.rt (List.mem_cons_of_mem _ (List.mem_cons_self ..))
    simp only [hrs, hrt]
    split_ifs
    · exact (h.hiLo rfl rfl).done
    · exact (h.hiLo rfl rfl).done
  | mult | multu =>
    rw [ho] at hread
    have hrs := hread i.rs (List.mem_cons_self ..)
    have hrt := hread i.rt (List.mem_cons_of_mem _ (List.mem_cons_self ..))
    simp only [hrs, hrt]
    exact (h.hiLo rfl rfl).done
  | mthi =>
    rw [ho] at hread
    simp only [hread i.rs (List.mem_cons_self ..)]
    exact (h.hiLo rfl h.lo).done
  | mtlo =>
    rw [ho] at hread
    simp only [hread i.rs (List.mem_cons_self ..)]
    exact (h.hiLo h.hi rfl).done
  | lb | lbu =>
    rw [ho] at hread
    exact h.loadByte (hread i.rs (List.mem_cons_self ..))
  | lh | lhu =>
    rw [ho] at hread
    exact h.loadHalf (hread i.rs (List.mem_cons_self ..))
  | lw =>
    rw [ho] at hread
    exact h.loadWord (hread i.rs (List.mem_cons_self ..))
  | lwl | lwr =>
    rw [ho] at hread
    exact h.loadPart (hread i.rs (List.mem_cons_self ..)) _
  | sb | sh | sw =>
    rw [ho] at hread
    exact h.storeValue (hread i.rs (List.mem_cons_self ..)) (hread i.rt (List.mem_cons_of_mem _ (List.mem_cons_self ..))) _
  | swl | swr =>
    rw [ho] at hread
    exact h.storePart (hread i.rs (List.mem_cons_self ..)) (hread i.rt (List.mem_cons_of_mem _ (List.mem_cons_self ..))) _
  | syscall | res | unimp => exact .stop _ rfl

end Unread

/-! ## After the `switch` -/

theorem gpr_raise (r : Registers) (b : Word) (x : RegNum) :
    (r.raise b).gpr x = if x = 0 then 0 else if x = r.loadReg then r.loadValue else r.gpr x := rfl

theorem loadReg_raise (r : Registers) (b : Word) : (r.raise b).loadReg = 0 := rfl

/-- A trap leaves what an instruction reads. -/
theorem unread_raise (s : Machine) (b : Word) (hr : s.regs.loadReg = 0 ∨ s.regs.loadReg ∉ reads i) :
    Unread i s.regs (s.regs.raise b) := by
  have hgpr (x : RegNum) (hx : x ≠ s.regs.loadReg ∨ x = 0) : (s.regs.raise b).gpr x = s.regs.gpr x := by
    rw [gpr_raise]
    by_cases h0 : x = 0
    · rw [if_pos h0, h0, s.zero]
    · rw [if_neg h0, if_neg (hx.resolve_right h0)]
  refine ⟨?_, rfl, rfl, rfl, rfl, ?_⟩
  · intro x hx
    apply hgpr
    rcases hr with h | h
    · by_cases h0 : x = 0
      · exact Or.inr h0
      · exact Or.inl fun hc => h0 (hc.trans h)
    · exact Or.inl fun hc => h (hc ▸ hx)
  · by_cases h0 : i.rt = 0
    · exact Or.inl h0
    right
    unfold pendingValue
    rw [loadReg_raise, if_neg fun h => h0 h.symm]
    by_cases hl : s.regs.loadReg = i.rt
    · rw [if_pos hl, gpr_raise, if_neg h0, if_pos hl.symm]
    · rw [if_neg hl]
      exact hgpr i.rt (Or.inl fun h => hl h.symm)

/-- After an exception nothing of the trap is left but the address that it was about. -/
theorem same_raise (s : Machine) (b c : Word) (m : Mmu) :
    Same (s.regs.trap c m) ((s.regs.raise b).trap c m) := by
  refine ⟨?_, rfl, rfl, rfl, rfl, rfl, rfl, Or.inl rfl⟩
  funext x
  show ((s.regs.raise b).raise c).gpr x = (s.regs.raise c).gpr x
  rw [gpr_raise, loadReg_raise, gpr_raise, gpr_raise]
  by_cases h0 : x = 0
  · rw [if_pos h0, if_pos h0]
  · rw [if_neg h0, if_neg h0, if_neg h0]

theorem gpr_finish (e : Executed) (x : RegNum) : e.finish.regs.gpr x =
    if x = 0 then 0 else if x = e.regs.loadReg then e.regs.loadValue else e.regs.gpr x := rfl

/-- The general registers are the same at the end exactly if the pending load is not overwritten. -/
theorem gpr_finish_iff {e e' : Executed} (h : Pair w r (r.raise b) e.regs e'.regs) :
    e'.finish.regs.gpr = e.finish.regs.gpr ↔
      ∀ n v, w = some (n, v) → n ≠ 0 → r.loadReg = n → v = r.loadValue := by
  constructor
  · intro hg n v hw hn hl
    have hx := congrFun hg n
    rw [gpr_finish, gpr_finish, if_neg hn, if_neg hn, h.loadReg', loadReg_raise, if_neg hn, h.loadReg,
      if_pos hl.symm, h.loadValue, h.gpr', hw] at hx
    simpa [written] using hx
  · intro hw
    funext x
    rw [gpr_finish, gpr_finish, h.loadReg', loadReg_raise, h.loadReg, h.loadValue, h.gpr, h.gpr']
    by_cases h0 : x = 0
    · rw [if_pos h0, if_pos h0]
    rw [if_neg h0, if_neg h0, if_neg h0]
    cases w with
    | none =>
      show (r.raise b).gpr x = if x = r.loadReg then r.loadValue else r.gpr x
      rw [gpr_raise, if_neg h0]
    | some p =>
      obtain ⟨n, v⟩ := p
      show (if x = n then v else (r.raise b).gpr x) =
        if x = r.loadReg then r.loadValue else if x = n then v else r.gpr x
      by_cases hx : x = n
      · rw [if_pos hx, if_pos hx]
        by_cases hl : x = r.loadReg
        · rw [if_pos hl]
          exact hw n v rfl (hx ▸ h0) (hl ▸ hx)
        · rw [if_neg hl]
      · rw [if_neg hx, if_neg hx, gpr_raise, if_neg h0]

/-- An instruction has the same effect with and without the trap exactly if it does not overwrite the
pending load. -/
theorem sameEffect_iff (s : Machine) {x y : Except Stop Executed}
    (h : Corresponds w s.regs (s.regs.raise b) x y) :
    SameEffect (finish s.regs x) (finish (s.regs.raise b) y) ↔
      ∀ n v, w = some (n, v) → n ≠ 0 → s.regs.loadReg = n → v = s.regs.loadValue := by
  cases h with
  | stop x hw =>
    rw [hw]
    constructor
    · intro _ n v he
      nomatch he
    · intro _
      cases x with
      | exception e c m => exact ⟨rfl, same_raise s b c m⟩
      | assertion => trivial
      | hostOverflow => trivial
  | ok e e' hp hmmu hpc hreg hvalue =>
    rw [← gpr_finish_iff hp]
    constructor
    · exact fun hs => hs.gpr
    · intro hg
      exact ⟨hg, hp.hi, hp.lo, hp.nextPc, hpc, hmmu, hreg, hvalue⟩

/-! ## Traps -/

theorem regs_of_raised {r : Registers} {x : Except Stop Executed} {e : Exception} {machine : Machine}
    (h : finish r x = .raised e machine) : ∃ b, machine.regs = r.raise b := by
  cases x with
  | ok x => nomatch h
  | error stop =>
    cases stop with
    | exception e' c m =>
      refine ⟨c, ?_⟩
      rw [← (Outcome.raised.inj h).2]
      rfl
    | assertion => nomatch h
    | hostOverflow => nomatch h

theorem step_eq (s : Machine) :
    s.step = finish s.regs (s.fetchInstruction >>= fun p => execSwitch s.regs p.2 p.1) := by
  unfold Machine.step
  cases s.fetchInstruction with
  | error stop => rfl
  | ok p => rfl

/-- After a trap the registers are those in which the pending load has been done. -/
theorem Trapped.regs {s s' : Machine} (h : Trapped s s') :
    s'.mmu = s.mmu ∧ ∃ b, s'.regs = s.regs.raise b := by
  cases h with
  | pageFault m machine h =>
    rw [step_eq] at h
    obtain ⟨b, hb⟩ := regs_of_raised h
    exact ⟨rfl, b, hb⟩
  | interrupt => exact ⟨rfl, s.regs.badVAddr, rfl⟩

/-- A trap before an instruction is invisible exactly if the instruction does not overwrite the load that is
pending. -/
theorem trap_invisible_iff (s s' : Machine) (ht : Trapped s s') (hr : ReadsNoPending s) :
    SameEffect s.step s'.step ↔ ¬ OverwritesPending s := by
  obtain ⟨hmmu, b, hregs⟩ := ht.regs
  have hfetch : s'.fetchInstruction = s.fetchInstruction := by
    unfold Machine.fetchInstruction
    rw [hmmu, hregs]
    rfl
  unfold OverwritesPending
  rw [step_eq, step_eq, hfetch, hregs]
  cases hf : s.fetchInstruction with
  | error stop =>
    have hstop : Corresponds none s.regs (s.regs.raise b) (.error stop) (.error stop) := .stop stop rfl
    refine iff_of_true ((sameEffect_iff s hstop).mpr fun n v he => by nomatch he) ?_
    rintro ⟨i, m, n, v, he, -⟩
    nomatch he
  | ok p =>
    have hu : Unread p.1 s.regs (s.regs.raise b) := unread_raise s b (hr p.1 p.2 hf)
    refine (sameEffect_iff s (hu.execSwitch p.2)).trans ?_
    constructor
    · rintro h ⟨i, m, n, v, he, hw, hn, hl, hv⟩
      have hi : p.1 = i := congrArg Prod.fst (Except.ok.inj he)
      rw [← hi] at hw
      exact hv (h n v hw hn hl)
    · intro h n v hw hn hl
      by_contra hv
      exact h ⟨p.1, p.2, n, v, rfl, hw, hn, hl, hv⟩

/-- Registers at address 0, with 7 about to be loaded into register 2. -/
def loadingRegisters : Registers where
  gpr := fun _ => 0
  hi := 0
  lo := 0
  pc := 0
  nextPc := 4
  prevPc := 0
  loadReg := 2
  loadValue := 7
  badVAddr := 0

/-- A translation of page 0 to frame 0. -/
def pageZero : TranslationEntry where
  virtualPage := 0
  physicalPage := 0
  valid := true
  readOnly := false
  use := false
  dirty := false

/-- A machine with a pending load and these bytes in memory. -/
def loadingMachine (bytes : List UInt8) : Machine where
  regs := loadingRegisters
  mmu := { mainMemory := fun a => bytes.getD a 0, tlb := [pageZero] }
  zero := rfl

/-- `lui $3,5`. -/
def luiOther : List UInt8 := [0x05, 0x00, 0x03, 0x3C]

/-- `lui $2,5`. -/
def luiPending : List UInt8 := [0x05, 0x00, 0x02, 0x3C]

theorem fetched_unique {s : Machine} {i j : Instruction} {m m' : Mmu} (h : s.fetchInstruction = .ok (i, m))
    (h' : s.fetchInstruction = .ok (j, m')) : i = j :=
  congrArg Prod.fst (Except.ok.inj (h.symm.trans h'))

/-- An instruction that is fetched does not read the register of the pending load, if it reads none. -/
theorem readsNoPending_of_lui {s : Machine} {n : RegNum} {m : Mmu} {extra : Word}
    (hf : s.fetchInstruction = .ok ({ opCode := .lui, rs := 0, rt := n, rd := 0, extra := extra }, m)) :
    ReadsNoPending s := by
  intro i m' he
  rw [← fetched_unique hf he]
  exact Or.inr List.not_mem_nil

theorem trap_invisible_iff_lui :
    SameEffect (loadingMachine luiOther).step (loadingMachine luiOther).interrupted.step := by
  have hf : (loadingMachine luiOther).fetchInstruction =
      .ok ({ opCode := .lui, rs := 0, rt := 3, rd := 0, extra := 5 },
        { (loadingMachine luiOther).mmu with tlb := [{ pageZero with use := true }] }) := rfl
  refine (trap_invisible_iff _ _ .interrupt (readsNoPending_of_lui hf)).mpr ?_
  rintro ⟨i, m, n, v, he, hw, -, hl, -⟩
  rw [← fetched_unique hf he] at hw
  have hn : (3 : RegNum) = n := congrArg Prod.fst (Option.some.inj hw)
  rw [← hn] at hl
  exact absurd hl (by decide)

/-- The machine when the page fault of the instruction at address 0 is handled. -/
def faultedMachine : Machine where
  regs := loadingRegisters.raise 0
  mmu := { (loadingMachine luiPending).mmu with tlb := [] }
  zero := rfl

/-- After a page fault `lui $2,5` writes register 2; without it the pending load does. -/
theorem pageFault_visible : ∃ s', Trapped (loadingMachine luiPending) s' ∧
    ReadsNoPending (loadingMachine luiPending) ∧ ¬ SameEffect (loadingMachine luiPending).step s'.step := by
  have hf : (loadingMachine luiPending).fetchInstruction =
      .ok ({ opCode := .lui, rs := 0, rt := 2, rd := 0, extra := 5 },
        { (loadingMachine luiPending).mmu with tlb := [{ pageZero with use := true }] }) := rfl
  have hfault : { loadingMachine luiPending with mmu := { (loadingMachine luiPending).mmu with tlb := [] } }.step =
      .raised (.mmu .pageFaultException) faultedMachine := rfl
  refine ⟨_, .pageFault _ _ hfault, readsNoPending_of_lui hf, ?_⟩
  intro h
  have hgpr := congrFun (show Same _ _ from h).gpr 2
  have hwith : (0x50000 : Word) = 7 := hgpr
  exact absurd hwith (by decide)

end Nachos.Mips
