import Nachos.Userprog.Proofs.ArgsProofs

/-!
# Arguments and the stack

What `WriteArgs` writes lies between the last place that it has taken and the end of the address space,
whatever the buffers hold. It is in the stack if the arguments are small, or if the kernel stops at a string
for which there is no place.
-/

namespace Nachos

open Foundations

variable {c₀ c c' : Child} {lo a sp : Int} {bs : List UInt8} {ws buffers : List (List UInt8)}

/-! ## What is written -/

/-- `P` of the child that is left behind when the kernel stops, and `Q` of the result. -/
def Ends {α : Type} (P : Child → Prop) (Q : α → Prop) : Except Child α → Prop
  | .error c => P c
  | .ok r => Q r

theorem Ends.bind {α β : Type} {P : Child → Prop} {Q : α → Prop} {R : β → Prop} {x : Except Child α}
    {f : α → Except Child β} (hx : Ends P Q x) (hf : ∀ r, Q r → Ends P R (f r)) : Ends P R (x >>= f) := by
  cases x with
  | error c => exact hx
  | ok r => exact hf r hx

/-- The address space is that of `c₀`, and all that has been written is at `lo` or above. -/
structure Above (c₀ : Child) (lo : Int) (c : Child) : Prop where
  top : c.top = c₀.top
  written : ∀ a ∈ c.written, lo ≤ (a : Int) ∧ a < c₀.top

theorem Above.put (h : Above c₀ lo c) {a : Nat} (ha : lo ≤ a) (htop : a + bs.length ≤ c.top) :
    Above c₀ lo (c.put a bs) := by
  refine ⟨h.top, fun x hx => ?_⟩
  rcases List.mem_append.mp hx with hx | hx
  · exact h.written x hx
  · obtain ⟨i, hi, rfl⟩ := List.mem_map.mp hx
    have hlt : i < bs.length := List.mem_range.mp hi
    have := h.top
    constructor
    · push_cast
      omega
    · omega

theorem Above.writeByte {b : UInt8} (h : Above c₀ lo c) (ha : lo ≤ a) (hw : c.writeByte a b = some c') :
    Above c₀ lo c' := by
  unfold Child.writeByte at hw
  split at hw
  case isTrue hin =>
    obtain rfl := Option.some.inj hw
    obtain ⟨hpos, hlt⟩ := hin
    have hnat : ((a.toNat : Nat) : Int) = a := Int.toNat_of_nonneg hpos
    refine h.put (by omega) ?_
    rw [List.length_singleton]
    omega
  case isFalse => nomatch hw

theorem Above.writeWord {v : Int} (h : Above c₀ lo c) (ha : lo ≤ a) (hw : c.writeWord a v = some c') :
    Above c₀ lo c' := by
  have htop4 := top_mod c
  unfold Child.writeWord at hw
  split at hw
  case isTrue hin =>
    obtain rfl := Option.some.inj hw
    obtain ⟨hpos, hlt, hmod⟩ := hin
    have hnat : ((a.toNat : Nat) : Int) = a := Int.toNat_of_nonneg hpos
    have hlen (n : Nat) : (le32 n).length = 4 := rfl
    refine h.put (by omega) ?_
    rw [hlen]
    omega
  case isFalse => nomatch hw

theorem writeStringLoop_above (h : Above c₀ lo c) (ha : lo ≤ a) :
    Ends (Above c₀ lo) (Above c₀ lo) (c.writeStringLoop a bs) := by
  induction bs generalizing c a with
  | nil => exact h
  | cons b bs ih =>
    unfold Child.writeStringLoop
    cases hw : c.writeByte a b with
    | none => exact h
    | some c₁ =>
      have h₁ := h.writeByte ha hw
      show Ends _ _ (if bs = [] then _ else if bs.head? = some 0 then _ else _)
      split
      · exact h₁
      · split
        · exact h₁
        · exact ih h₁ (by omega)

theorem writeStringToUser_above (h : Above c₀ lo c) (ha : lo ≤ a) :
    Ends (Above c₀ lo) (Above c₀ lo) (c.writeStringToUser bs a) := by
  unfold Child.writeStringToUser
  split
  · exact h
  · exact writeStringLoop_above h ha

/-- The buffers hold the strings. -/
def Buffers (ws buffers : List (List UInt8)) : Prop :=
  List.Forall₂ (fun w buffer => strlen buffer = some w.length) ws buffers

/-- The first loop of `WriteArgs`. -/
theorem pushStrings_above (hb : Buffers ws buffers) (h : Above c₀ lo c) (hlo : lo ≤ sp - bytesOf ws) :
    Ends (Above c₀ lo) (fun p => Above c₀ lo p.child ∧ p.sp = sp - bytesOf ws) (pushStrings c sp buffers) := by
  induction hb generalizing c sp with
  | nil => exact ⟨h, (Int.sub_zero sp).symm⟩
  | @cons w buffer ws buffers hw _ ih =>
    rw [bytesOf_cons] at hlo ⊢
    push_cast at hlo ⊢
    unfold pushStrings
    rw [hw]
    refine (writeStringToUser_above h (by omega)).bind fun c₁ h₁ => ?_
    refine (ih h₁ (by omega)).bind fun p hp => ⟨hp.1, ?_⟩
    show p.sp = _
    rw [hp.2]
    omega

theorem writePointers_above {addresses : List Int} (h : Above c₀ lo c) (hlo : lo ≤ sp) :
    Above c₀ lo (writePointers c sp addresses) := by
  have hword (c : Child) (sp v : Int) (h : Above c₀ lo c) (hlo : lo ≤ sp) :
      Above c₀ lo ((c.writeWord sp v).getD c) := by
    cases hw : c.writeWord sp v with
    | none => exact h
    | some c₁ => exact h.writeWord hlo hw
  induction addresses generalizing c sp with
  | nil => exact hword c sp 0 h hlo
  | cons a addresses ih => exact ih (hword c sp a h hlo) (by omega)

/-- There is no place at zero and below. -/
theorem writeStringToUser_fails (ha : a ≤ 0) : c.writeStringToUser bs a = .error c := by
  unfold Child.writeStringToUser
  split
  · rfl
  case isFalse hne =>
    cases bs with
    | nil => rfl
    | cons b bs =>
      have hbyte : c.writeByte a b = none := if_neg (by omega)
      unfold Child.writeStringLoop
      rw [hbyte]

/-- The kernel stops at a string below which there is no place. -/
theorem pushStrings_stops {w : List UInt8} {pre post : List (List UInt8)}
    (hb : Buffers (pre ++ w :: post) buffers) (h : Above c₀ lo c) (hlo : lo ≤ sp - bytesOf pre)
    (hw : sp ≤ bytesOf (pre ++ [w])) : Ends (Above c₀ lo) (fun _ => False) (pushStrings c sp buffers) := by
  induction pre generalizing c sp buffers with
  | nil =>
    obtain ⟨buffer, rest, hbuffer, -, rfl⟩ := List.forall₂_cons_left_iff.mp hb
    have hone : bytesOf [w] = w.length + 1 := rfl
    change sp ≤ bytesOf [w] at hw
    rw [hone] at hw
    push_cast at hw
    unfold pushStrings
    rw [hbuffer]
    have hfail : c.writeStringToUser buffer (sp - (w.length + 1)) = .error c :=
      writeStringToUser_fails (by omega)
    simp only [hfail]
    exact h
  | cons v pre ih =>
    obtain ⟨buffer, rest, hbuffer, hrest, rfl⟩ := List.forall₂_cons_left_iff.mp hb
    rw [bytesOf_cons] at hlo
    change sp ≤ bytesOf (v :: (pre ++ [w])) at hw
    rw [bytesOf_cons] at hw
    push_cast at hlo hw
    unfold pushStrings
    rw [hbuffer]
    refine (writeStringToUser_above h (by omega)).bind fun c₁ h₁ => ?_
    refine (ih hrest h₁ (by omega) (by omega)).bind fun p hp => ?_
    exact hp.elim

/-! ## The stack -/

/-- The lowest address of the stack. -/
abbrev stackBase (c : Child) : Int := c.top - userStackSize.toNat

theorem Above.inStack (h : Above c₀ (stackBase c₀) c) : ∀ a ∈ c.written, c₀.InStack a := by
  intro a ha
  obtain ⟨hlo, htop⟩ := h.written a ha
  change (c₀.top : Int) - userStackSize.toNat ≤ a at hlo
  exact ⟨Int.natCast_nonneg a, by omega, Int.ofNat_lt.mpr htop⟩

theorem staysInStack_of_ends {r : Except Child Started} (h : Ends (Above c (stackBase c))
    (fun s => Above c (stackBase c) s.child ∧ c.InStack s.child.stackReg) r) : StaysInStack c r := by
  cases r with
  | error c' => exact h.inStack
  | ok s => exact ⟨h.1.inStack, h.2⟩

theorem above_start (space : Child) (image : ByteMemory) (lo : Int) :
    Above (space.start image) lo (space.start image) := ⟨rfl, nofun⟩

/-- The stack pointer with which the program is started. -/
theorem inStack_stackReg {n : Nat} (hn : n = ws.length) (hsp : sp = (c.top : Int) - 16 - bytesOf ws) :
    c.InStack (sp - sp.tmod 4 - ((n : Int) * 4 + 4) - 24) ↔
      argsSize ws + 24 ≤ userStackSize.toNat ∧ argsSize ws + 24 ≤ c.top := by
  subst hn
  have hsize := argsSize_le hsp rfl
  unfold Child.InStack
  omega

/-- `WriteArgs` writes from its new stack pointer on. -/
theorem writeArgs_above {reg : Int} (hb : Buffers ws buffers) (h : Above c₀ lo c)
    (hsp : sp = c.stackReg - bytesOf ws) (hreg : reg = sp - sp.tmod 4 - ((ws.length : Int) * 4 + 4))
    (hlo : lo ≤ reg) (hpush : lo ≤ sp) :
    Ends (Above c₀ lo) (fun r => Above c₀ lo r.2 ∧ r.2.stackReg = reg) (writeArgs c buffers) := by
  have hcount : buffers.length = ws.length := hb.length_eq.symm
  subst hsp
  refine (pushStrings_above hb h hpush).bind fun p hp => ?_
  rw [hp.2, hcount]
  split
  · exact hp.1
  · have hpointers : Above c₀ lo (writePointers p.child reg p.argsAddress) := writePointers_above hp.1 hlo
    subst hreg
    exact ⟨⟨hpointers.top, hpointers.written⟩, rfl⟩

/-- Arguments that fit in the stack with the space for a call. -/
theorem staysInStack_of_fit {image : ByteMemory} {space : Child} (hb : Buffers ws buffers)
    (hfit : argsSize ws + 24 ≤ userStackSize.toNat ∧ argsSize ws + 24 ≤ space.top) :
    StaysInStack (space.start image) (rutinaHiloSCExec (space.start image) buffers) := by
  obtain ⟨hround, -, -⟩ := roundUp_spec (16 + bytesOf ws)
  have hsize : argsSize ws = divRoundUp (16 + bytesOf ws) 4 * 4 + 4 * (ws.length + 1) := rfl
  have htop : (space.start image).top = space.top := rfl
  have hin := (inStack_stackReg (c := space.start image) rfl rfl).mpr hfit
  have hbase : stackBase (space.start image) ≤ _ := Int.sub_right_le_of_le_add hin.2.1
  have hpush : stackBase (space.start image) ≤ ((space.start image).top : Int) - 16 - bytesOf ws := by
    unfold stackBase
    omega
  have hsp : ((space.start image).top : Int) - 16 - bytesOf ws =
      (space.start image).stackReg - bytesOf ws := rfl
  apply staysInStack_of_ends
  refine (writeArgs_above hb (above_start space image _) hsp rfl (by omega) hpush).bind fun r hr => ?_
  refine ⟨⟨hr.1.top, hr.1.written⟩, ?_⟩
  show (space.start image).InStack (r.2.stackReg - 24)
  rw [hr.2]
  exact hin

theorem staysInStack_of_stops {image : ByteMemory} {space : Child} (hb : Buffers ws buffers)
    (hstops : StopsInStack space ws) :
    StaysInStack (space.start image) (rutinaHiloSCExec (space.start image) buffers) := by
  obtain ⟨pre, w, post, rfl, hpre, hw⟩ := hstops
  have htop : (space.start image).top = space.top := rfl
  have hreg : (space.start image).stackReg = ((space.start image).top : Int) - 16 := rfl
  apply staysInStack_of_ends
  refine Ends.bind (Q := fun _ => False) ?_ fun r hr => hr.elim
  refine (pushStrings_stops hb (above_start space image _) ?_ ?_).bind fun p hp => hp.elim
  · show ((space.start image).top : Int) - userStackSize.toNat ≤ _
    omega
  · omega

/-! ## What is written at least -/

variable {w : List UInt8} {pre post : List (List UInt8)} {image : ByteMemory} {space : Child}

/-- Up to the string that does not fit, the strings are written. -/
theorem pushStrings_error {sp : Nat} {buffer : List UInt8} {rest : List (List UInt8)}
    (hb : List.Forall₂ Writable pre buffers) (hw : strlen buffer = some w.length) (hsp : bytesOf pre < sp)
    (htop : sp ≤ c.top) (hstop : sp ≤ bytesOf (pre ++ [w])) :
    pushStrings c sp (buffers ++ buffer :: rest) = .error (pushedChild c sp pre) := by
  induction hb generalizing c sp with
  | nil =>
    have hone : bytesOf [w] = w.length + 1 := rfl
    change sp ≤ bytesOf [w] at hstop
    have hfail : c.writeStringToUser buffer (sp - (w.length + 1)) = .error c :=
      writeStringToUser_fails (by omega)
    show pushStrings c sp (buffer :: rest) = _
    unfold pushStrings
    rw [hw]
    simp only [hfail]
    rfl
  | @cons v b pre buffers hv _ ih =>
    rw [bytesOf_cons] at hsp
    change sp ≤ bytesOf (v :: (pre ++ [w])) at hstop
    rw [bytesOf_cons] at hstop
    have haddr : (sp : Int) - ((v.length : Int) + 1) = ((sp - (v.length + 1) : Nat) : Int) := by omega
    have hwrite : c.writeStringToUser b ((sp - (v.length + 1) : Nat) : Int) = _ :=
      hv.write (by omega) (by omega)
    have hlt : bytesOf pre < sp - (v.length + 1) := by omega
    have hrest := ih (c := c.put (sp - (v.length + 1)) (pushedBytes v)) hlt
      (by rw [Child.top_put]; omega) (by omega)
    show pushStrings c sp (b :: (buffers ++ buffer :: rest)) = _
    unfold pushStrings
    rw [hv.strlen]
    simp only [haddr]
    rw [hwrite]
    show (pushStrings _ _ (buffers ++ buffer :: rest) >>= _ : Except Child Pushed) = _
    rw [hrest]
    rfl

theorem pushedChild_concat {sp : Nat} : pushedChild c sp (pre ++ [w]) =
    (pushedChild c sp pre).put (sp - bytesOf (pre ++ [w])) (pushedBytes w) := by
  induction pre generalizing c sp with
  | nil => rfl
  | cons v pre ih =>
    have hsub : sp - (v.length + 1) - bytesOf (pre ++ [w]) = sp - bytesOf (v :: (pre ++ [w])) := by
      rw [bytesOf_cons, Nat.sub_sub]
    show pushedChild (c.put (sp - (v.length + 1)) (pushedBytes v)) (sp - (v.length + 1)) (pre ++ [w]) = _
    rw [ih, hsub]
    rfl

/-- The first byte of the last string has been written. -/
theorem mem_written_pushedChild {sp : Nat} :
    sp - bytesOf (pre ++ [w]) ∈ (pushedChild c sp (pre ++ [w])).written := by
  have hpos : 0 < (pushedBytes w).length := by
    unfold pushedBytes
    split
    · decide
    case isFalse hne => exact List.length_pos_of_ne_nil hne
  rw [pushedChild_concat]
  exact List.mem_append_right _ (List.mem_map.mpr ⟨0, List.mem_range.mpr hpos, Nat.add_zero _⟩)

/-- The first string for which there is no place. -/
theorem exists_stop {sp : Nat} (hpos : 0 < sp) (hsp : sp ≤ bytesOf ws) :
    ∃ pre w post, ws = pre ++ w :: post ∧ bytesOf pre < sp ∧ sp ≤ bytesOf (pre ++ [w]) := by
  induction ws generalizing sp with
  | nil => exact absurd hsp (Nat.not_le.mpr hpos)
  | cons v ws ih =>
    rw [bytesOf_cons] at hsp
    by_cases hv : sp ≤ v.length + 1
    · exact ⟨[], v, ws, rfl, hpos, hv⟩
    · have hlt : 0 < sp - (v.length + 1) := by omega
      obtain ⟨pre, w, post, hws, hpre, hw⟩ := ih hlt (by omega)
      refine ⟨v :: pre, w, post, congrArg (v :: ·) hws, ?_, ?_⟩
      · rw [bytesOf_cons]
        omega
      · show sp ≤ bytesOf (v :: (pre ++ [w]))
        rw [bytesOf_cons]
        omega

/-- If all strings are written, the stack pointer has to be in the stack. -/
theorem fit_of_push {p : Pushed} {start : Child} (hpush : pushStrings start start.stackReg buffers = .ok p)
    (hlen : ws.length < maxArgCount) (hcount : buffers.length = ws.length)
    (hsp : p.sp = (start.top : Int) - 16 - bytesOf ws)
    (h : StaysInStack start (rutinaHiloSCExec start buffers)) :
    argsSize ws + 24 ≤ userStackSize.toNat ∧ argsSize ws + 24 ≤ start.top := by
  have hnot : ¬ maxArgCount ≤ buffers.length := by omega
  unfold rutinaHiloSCExec writeArgs at h
  rw [hpush] at h
  change StaysInStack start ((if maxArgCount ≤ buffers.length then _ else _ : Except Child (Nat × Child)) >>= _)
    at h
  rw [if_neg hnot] at h
  exact (inStack_stackReg hcount hsp).mp h.2

/-- Where every string can be written, the condition is necessary. -/
theorem fit_or_stops (hb : List.Forall₂ Writable ws buffers) (hlen : ws.length < maxArgCount)
    (h : StaysInStack (space.start image) (rutinaHiloSCExec (space.start image) buffers)) :
    (argsSize ws + 24 ≤ userStackSize.toNat ∧ argsSize ws + 24 ≤ space.top) ∨ StopsInStack space ws := by
  have hcount : buffers.length = ws.length := hb.length_eq.symm
  have hreg : (space.start image).stackReg = (space.top : Int) - 16 := rfl
  have htop : (space.start image).top = space.top := rfl
  by_cases hsmall : space.top ≤ 16
  · cases ws with
    | nil =>
      cases hb
      left
      have hpush : pushStrings (space.start image) (space.start image).stackReg [] = .ok _ := rfl
      have hfit := fit_of_push hpush hlen rfl (Int.sub_zero _).symm h
      exact hfit
    | cons w ws =>
      right
      refine ⟨[], w, ws, rfl, by decide, ?_⟩
      exact Nat.le_trans hsmall (Nat.le_add_right 16 _)
  have hsp : (space.start image).stackReg = ((space.top - 16 : Nat) : Int) := by omega
  by_cases hbytes : bytesOf ws < space.top - 16
  · left
    have hpush := pushStrings_ok (c := space.start image) hb hbytes (Nat.sub_le _ _)
    rw [← hsp] at hpush
    have hbottom : ((space.top - 16 - bytesOf ws : Nat) : Int) =
        ((space.start image).top : Int) - 16 - bytesOf ws := by omega
    have hfit := fit_of_push hpush hlen hcount hbottom h
    exact hfit
  · right
    obtain ⟨pre, w, post, rfl, hpre, hw⟩ := exists_stop (by omega) (Nat.not_lt.mp hbytes)
    refine ⟨pre, w, post, rfl, ?_, by omega⟩
    obtain ⟨pres, rest, hpres, hrest, rfl⟩ : ∃ pres rest, List.Forall₂ Writable pre pres ∧
        List.Forall₂ Writable (w :: post) rest ∧ buffers = pres ++ rest :=
      ⟨_, _, (List.forall₂_take_append _ _ _ hb.flip).flip, (List.forall₂_drop_append _ _ _ hb.flip).flip,
        (List.take_append_drop pre.length buffers).symm⟩
    obtain ⟨buffer, posts, hbuffer, -, rfl⟩ := List.forall₂_cons_left_iff.mp hrest
    have hpush : pushStrings (space.start image) ((space.top - 16 : Nat) : Int) (pres ++ buffer :: posts) = _ :=
      pushStrings_error hpres hbuffer.strlen hpre (Nat.sub_le _ _) hw
    rcases List.eq_nil_or_concat' pre with rfl | ⟨pre, v, rfl⟩
    · decide
    · have hwritten : space.top - 16 - bytesOf (pre ++ [v]) ∈
          (pushedChild (space.start image) (space.top - 16) (pre ++ [v])).written := mem_written_pushedChild
      unfold rutinaHiloSCExec writeArgs at h
      rw [hsp, hpush] at h
      have hin := (h _ hwritten).2.1
      omega

/-! ## The theorem -/

variable {mem : UserMemory} {address : Word}

theorem buffers_savedStrings (h0 : ∀ w ∈ ws, 0 ∉ w) (hshort : ∀ w ∈ ws, w.length < maxArgLength)
    (heap : Nat → Nat → UInt8) : Buffers ws (savedStrings heap (ws.map (cutString maxArgLength))) := by
  have hsaved := forall₂_savedStrings heap ws
  rw [List.forall₂_iff_get] at hsaved
  refine List.forall₂_iff_get.mpr ⟨hsaved.1, fun i hi hi' => ?_⟩
  obtain ⟨k, hk⟩ := hsaved.2 i hi hi'
  have hw : ws.get ⟨i, hi⟩ ∈ ws := List.get_mem ws ⟨i, hi⟩
  rw [hk, savedString_short (hshort _ hw)]
  exact strlen_eq (h0 _ hw) _

/-- With zeros on the heap an empty string is written as well. -/
theorem writable_zeros (h0 : 0 ∉ w) (hw : w.length < maxArgLength) :
    Writable w (savedString (fun _ => 0) (cutString maxArgLength w)) := by
  by_cases hne : w = []
  · subst hne
    exact ⟨h0, List.replicate 126 0, by decide⟩
  · exact writable_savedString h0 hne hw _

theorem writable_savedStrings_zeros (h0 : ∀ w ∈ ws, 0 ∉ w) (hshort : ∀ w ∈ ws, w.length < maxArgLength) :
    List.Forall₂ Writable ws (savedStrings (fun _ _ => 0) (ws.map (cutString maxArgLength))) := by
  have hsaved := forall₂_savedStrings (fun _ _ => 0) ws
  rw [List.forall₂_iff_get] at hsaved ⊢
  refine ⟨hsaved.1, fun i hi hi' => ?_⟩
  obtain ⟨k, hk⟩ := hsaved.2 i hi hi'
  have hw : ws.get ⟨i, hi⟩ ∈ ws := List.get_mem ws ⟨i, hi⟩
  rw [hk]
  exact writable_zeros (h0 _ hw) (hshort _ hw)

/-- With zeros on the heap, arguments that do not fit leave the stack. -/
theorem leavesStack (h : HoldsArgv mem address ws) (hlen : ws.length < maxArgCount)
    (hshort : ∀ w ∈ ws, w.length < maxArgLength) {space : Child}
    (hnot : ¬ ((argsSize ws + 24 ≤ userStackSize.toNat ∧ argsSize ws + 24 ≤ space.top) ∨
      StopsInStack space ws)) (image : ByteMemory) :
    ∃ args, saveArgBuffers (fun _ _ => 0) mem address = some (some args) ∧
      ¬ StaysInStack (space.start image) (rutinaHiloSCExec (space.start image) args) :=
  ⟨_, saveArgBuffers_eq h hlen _, fun hstays =>
    hnot (fit_or_stops (writable_savedStrings_zeros h.strings.not_mem hshort) hlen hstays)⟩

/-- Arguments stay in the stack whatever the heap and the program are if and only if they fit in it, with the
24 bytes below them, or the kernel stops before it leaves the stack. -/
theorem staysInStack_iff (h : HoldsArgv mem address ws) (hlen : ws.length < maxArgCount)
    (hshort : ∀ w ∈ ws, w.length < maxArgLength) (space : Child) :
    (∀ heap image args, saveArgBuffers heap mem address = some (some args) →
      StaysInStack (space.start image) (rutinaHiloSCExec (space.start image) args)) ↔
    (argsSize ws + 24 ≤ userStackSize.toNat ∧ argsSize ws + 24 ≤ space.top) ∨ StopsInStack space ws := by
  have h0 := h.strings.not_mem
  constructor
  · intro hall
    by_contra hnot
    obtain ⟨args, hargs, hleaves⟩ := leavesStack h hlen hshort hnot fun _ => 0
    exact hleaves (hall _ _ args hargs)
  · intro hfit heap image args hargs
    have hsaved := saveArgBuffers_eq h hlen heap
    obtain rfl := Option.some.inj (Option.some.inj (hsaved.symm.trans hargs))
    have hb := buffers_savedStrings h0 hshort heap
    rcases hfit with hfit | hstops
    · exact staysInStack_of_fit hb hfit
    · exact staysInStack_of_stops hb hstops

theorem staysInStack_iff_sample : HoldsArgv (argvMemory 97) 4#32 [[97]] ∧
    ∀ heap image args, saveArgBuffers heap (argvMemory 97) 4#32 = some (some args) →
      StaysInStack (onePageProgram.start image) (rutinaHiloSCExec (onePageProgram.start image) args) := by
  have h : HoldsArgv (argvMemory 97) 4#32 [[97]] :=
    ⟨by decide, by decide, 64#32, rfl, by decide, ⟨by decide, rfl, rfl⟩, rfl⟩
  refine ⟨h, (staysInStack_iff h (by decide) ?_ onePageProgram).mpr (Or.inl (by decide))⟩
  intro w hw
  rw [List.mem_singleton.mp hw]
  decide

/-! ## A program that is overwritten -/

/-- From address 4 on there are sixteen pointers to address 256, where there is a string of 127 bytes. -/
def longArgv : UserMemory := fun p =>
  if p.toNat < 68 then some (if p.toNat % 4 = 1 then 1 else 0)
  else if 256 ≤ p.toNat ∧ p.toNat < 383 then some 97 else some 0

/-- The sixteen strings. -/
def longStrings : List (List UInt8) := List.replicate 16 (List.replicate 127 97)

theorem userString_longArgv {n : Nat} (hn : n ≤ 127) :
    UserString longArgv (BitVec.ofNat 32 (383 - n)) (List.replicate n 97) := by
  induction n with
  | zero => rfl
  | succ n ih =>
    have hbyte : ∀ i : Fin 127, longArgv (BitVec.ofNat 32 (382 - i)) = some 97 := by decide
    have hsub : 383 - (n + 1) = 382 - n := by omega
    have hnext : BitVec.ofNat 32 (382 - n) + 1#32 = BitVec.ofNat 32 (383 - n) := by
      rw [← BitVec.ofNat_add]
      congr 1
      omega
    rw [List.replicate_succ, hsub]
    exact ⟨by decide, hbyte ⟨n, hn⟩, hnext ▸ ih (Nat.le_of_succ_le hn)⟩

theorem userStrings_longArgv {n : Nat} (hn : n ≤ 16) : UserStrings longArgv (BitVec.ofNat 32 (68 - 4 * n))
    (List.replicate n (List.replicate 127 97)) := by
  induction n with
  | zero => rfl
  | succ n ih =>
    have hword : ∀ i : Fin 16, wordAt longArgv (BitVec.ofNat 32 (64 - 4 * i)) = some 256#32 := by decide
    have hsub : 68 - 4 * (n + 1) = 64 - 4 * n := by omega
    have hnext : BitVec.ofNat 32 (64 - 4 * n) + 4#32 = BitVec.ofNat 32 (68 - 4 * n) := by
      rw [← BitVec.ofNat_add]
      congr 1
      omega
    rw [List.replicate_succ, hsub]
    exact ⟨256#32, hword ⟨n, hn⟩, by decide, userString_longArgv (Nat.le_refl 127),
      hnext ▸ ih (Nat.le_of_succ_le hn)⟩

theorem bytesOf_replicate (n : Nat) (w : List UInt8) : bytesOf (List.replicate n w) = n * (w.length + 1) := by
  induction n with
  | zero => exact (Nat.zero_mul _).symm
  | succ n ih => rw [List.replicate_succ, bytesOf_cons, ih, Nat.succ_mul, Nat.add_comm]

/-- Sixteen strings of 127 bytes are written over the code of a program. -/
theorem long_arguments_overwrite : HoldsArgv longArgv 4#32 longStrings ∧
    ∃ args, saveArgBuffers (fun _ _ => 0) longArgv 4#32 = some (some args) ∧
      ¬ StaysInStack (onePageProgram.start fun _ => 0)
          (rutinaHiloSCExec (onePageProgram.start fun _ => 0) args) := by
  have h : HoldsArgv longArgv 4#32 longStrings := ⟨by decide, by decide, userStrings_longArgv (Nat.le_refl 16)⟩
  have hshort : ∀ w ∈ longStrings, w.length < maxArgLength := by
    intro w hw
    rw [(List.mem_replicate.mp hw).2, List.length_replicate]
    decide
  have hlen : longStrings.length < maxArgCount := by
    unfold longStrings
    rw [List.length_replicate]
    decide
  have hbytes : bytesOf longStrings = 2048 := by
    unfold longStrings
    rw [bytesOf_replicate, List.length_replicate]
  refine ⟨h, leavesStack h hlen hshort ?_ _⟩
  rintro (hfit | ⟨pre, w, post, hws, -, hw⟩)
  · obtain ⟨hround, -, -⟩ := roundUp_spec (16 + bytesOf longStrings)
    have hsize : divRoundUp (16 + bytesOf longStrings) 4 * 4 ≤ argsSize longStrings := Nat.le_add_right _ _
    have hstack : userStackSize.toNat = 2048 := rfl
    omega
  · have hall := bytesOf_append (pre ++ [w]) post
    rw [List.append_assoc, List.singleton_append, ← hws] at hall
    have htop : onePageProgram.top = 2176 := rfl
    omega

end Nachos
