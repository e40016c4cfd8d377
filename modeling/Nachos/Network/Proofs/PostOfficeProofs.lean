import Nachos.Network.Proofs.PacketProofs
import Nachos.Threads.Proofs.SystemFramesProofs

/-!
# Proofs: the network devices

On each machine, a thread that has put a packet on the wire waits for its own interrupt and for no other one. The
inbox is full exactly while the worker has been told of it and has not fetched the packet. So no packet is sent
while another one is on its way to the wire, and none is overwritten in the inbox.
-/

namespace Nachos.Network

open Foundations Nachos.Synch

variable {s s' : PostState} {t u : Nat} {m : Address}

/-! ## Threads -/

theorem hardware_inj {m m' : Address} (h : hardware m = hardware m') : m = m' := by
  rw [hardware, hardware] at h
  exact UInt32.toNat_inj.mp (by omega)

theorem worker_inj {m m' : Address} (h : worker m = worker m') : m = m' := by
  rw [worker, worker] at h
  exact UInt32.toNat_inj.mp (by omega)

theorem hardware_ne_worker (m m' : Address) : hardware m ≠ worker m' := by
  rw [hardware, worker]
  omega

theorem IsUser.ne_hardware (h : IsUser t) (m : Address) : t ≠ hardware m := by
  rw [IsUser] at h
  rw [hardware]
  omega

theorem IsUser.ne_worker (h : IsUser t) (m : Address) : t ≠ worker m := by
  rw [IsUser] at h
  rw [worker]
  omega

/-! ## The locks -/

@[simp]
theorem postUsers_lockOf (m : Address) (b : Nat) : postUsers.lockOf (m, b) = .box m b := rfl

/-- What the code does with the locks: a packet is sent with `sendLock` held, which is released when the interrupt has
come; the worker fetches a packet without the lock of any mail box, and the lists of the boxes are used with their
lock held. -/
def postUse : PostCode → PostLock → Option Use
  | .poll _, _ => none
  | .transmit m _ _ _, l => if PostLock.send m = l then some ⟨.held, .out⟩ else none
  | .fetch _, .box _ _ => some ⟨.out, .out⟩
  | .fetch _, .send _ => none
  | .append m b _, l => if PostLock.box m b = l then some ⟨.held, .held⟩ else none
  | .loop m b, l => if PostLock.box m b = l then some ⟨.held, .held⟩ else none
  | .pop m b, l => if PostLock.box m b = l then some ⟨.held, .out⟩ else none
  | .got _, _ => none

theorem checkPktAvail_frames {net : Internet} {r : Internet × List PostFrame} (h : net.checkPktAvail m = some r) :
    r.2 = [] ∨ r.2 = [.v (.user (.messageAvailable m))] := by
  rw [Internet.checkPktAvail] at h
  dsimp only at h
  split at h
  · cases h
    exact Or.inl rfl
  · split at h
    · cases h
      exact Or.inl rfl
    · split at h
      · cases h
        exact Or.inr rfl
      · cases h

def postDiscipline : Discipline postUsers where
  use := postUse
  home := fun _ _ _ => .out
  call_home := by
    intros
    rfl
  call_fits := by
    intro i t net r hr l
    cases i with
    | poll m =>
      simp only [postUsers, Internet.call] at hr
      split at hr
      · cases hr
        simp [Fits, phaseOf, Frame.use, postUse]
      · cases hr
    | sendDone m =>
      simp only [postUsers, Internet.call] at hr
      split at hr
      · cases hr
        simp [Fits, phaseOf, Frame.use]
      · cases hr
    | deliver m =>
      simp only [postUsers, Internet.call] at hr
      split at hr
      · cases hr
        cases l <;> simp [Fits, phaseOf, Frame.use, postUse]
      · cases hr
    | send m pktHdr mailHdr data =>
      simp only [postUsers, Internet.call] at hr
      split at hr
      · obtain ⟨⟨net', hdr, buffer⟩, -, rfl⟩ := Option.map_eq_some_iff.mp hr
        by_cases hl : PostLock.send m = l <;> simp [Fits, phaseOf, Frame.use, postUse, hl]
      · cases hr
    | receive m box =>
      simp only [postUsers, Internet.call] at hr
      split at hr
      · cases hr
        by_cases hl : PostLock.box m box = l <;> simp [Fits, phaseOf, Frame.use, postUse, hl]
      · cases hr
  exec_home := by
    intros
    rfl
  exec_fits := by
    intro code t net r hr l last hlast
    cases code with
    | poll m =>
      rcases checkPktAvail_frames hr with hframes | hframes <;> rw [hframes] <;>
        simp [Fits, phaseOf, Frame.use, postUse]
    | transmit m hdr data mail =>
      obtain ⟨net', -, rfl⟩ := Option.map_eq_some_iff.mp hr
      by_cases hl : PostLock.send m = l
      · have hout := hlast ⟨.held, .out⟩ (by simp [postUse, hl])
        subst hout
        simp [Fits, phaseOf, Frame.use, postUse, hl]
      · simp [Fits, phaseOf, Frame.use, postUse, hl]
    | fetch m =>
      obtain ⟨⟨net', mail⟩, -, rfl⟩ := Option.map_eq_some_iff.mp hr
      cases l with
      | send m' => simp [Fits, phaseOf, Frame.use, postUse]
      | box m' b =>
        have hout := hlast ⟨.out, .out⟩ (by simp [postUse])
        subst hout
        by_cases hl : PostLock.box m mail.mailHdr.to.toNat = PostLock.box m' b <;>
          simp [Fits, phaseOf, Frame.use, postUse, hl]
    | append m b mail =>
      cases hr
      by_cases hl : PostLock.box m b = l
      · have hheld := hlast ⟨.held, .held⟩ (by simp [postUse, hl])
        simp [Fits, phaseOf, postUse, hl, hheld]
      · simp [Fits, phaseOf, postUse, hl]
    | loop m b =>
      simp only [postUsers, Internet.exec] at hr
      split at hr
      · cases hr
        by_cases hl : PostLock.box m b = l
        · have hheld := hlast ⟨.held, .held⟩ (by simp [postUse, hl])
          simp [Fits, phaseOf, Frame.use, postUse, hl, hheld]
        · simp [Fits, phaseOf, Frame.use, postUse, hl]
      · cases hr
        by_cases hl : PostLock.box m b = l
        · have hheld := hlast ⟨.held, .held⟩ (by simp [postUse, hl])
          simp [Fits, phaseOf, postUse, hl, hheld]
        · simp [Fits, phaseOf, postUse, hl]
    | pop m b =>
      simp only [postUsers, Internet.exec] at hr
      split at hr
      · cases hr
      · cases hr
        by_cases hl : PostLock.box m b = l
        · have hout := hlast ⟨.held, .out⟩ (by simp [postUse, hl])
          subst hout
          simp [Fits, phaseOf, Frame.use, postUse, hl]
        · simp [Fits, phaseOf, Frame.use, postUse, hl]
    | got mail =>
      simp only [postUsers, Internet.exec] at hr
      split at hr
      · cases hr
        simp [Fits, phaseOf, postUse]
      · cases hr

/-! ## The stacks -/

/-- The packet that a thread is about to send carries its mail. -/
structure Sending (m : Address) (hdr : PacketHeader) (data : ByteMemory) (mail : Mail) : Prop where
  pktHdr_eq : mail.pktHdr = hdr
  from_eq : hdr.from = m
  ok : mail.Ok hdr.to
  payload_eq : slice data 0 hdr.length.toNat = mail.payload

/-- What is left of a `Receive` that has the lock. -/
def popRest (m : Address) (b : Nat) : List PostFrame := [.code (.loop m b), .code (.pop m b)]

/-- What a thread does once it has a lock. -/
inductive Start (t : Nat) : PostLock → List PostFrame → Prop where
  | transmit {m : Address} {hdr : PacketHeader} {data : ByteMemory} {mail : Mail} : IsUser t →
      Sending m hdr data mail → Start t (.send m) [.code (.transmit m hdr data mail)]
  | append {m : Address} {b : Nat} {mail : Mail} : t = worker m → mail.mailHdr.to.toNat = b →
      Start t (.box m b) [.code (.append m b mail), .signal (m, b), .release (.box m b)]
  | pop {m : Address} {b : Nat} : IsUser t → Start t (.box m b) (popRest m b)
  | again {m : Address} {b n : Nat} : IsUser t → Start t (.box m b) (.waitReturn (m, b) n :: popRest m b)

/-- The stacks of the threads. -/
inductive PostStack (t : Nat) : List PostFrame → Prop where
  | idle : PostStack t []
  | poll {m : Address} : t = hardware m → PostStack t [.code (.poll m)]
  | available {m : Address} : t = hardware m → PostStack t [.v (.user (.messageAvailable m))]
  | done {m : Address} : t = hardware m → PostStack t [.v (.user (.messageSent m))]
  | deliver {m : Address} : t = worker m → PostStack t [.p (.user (.messageAvailable m)), .code (.fetch m)]
  | fetch {m : Address} : t = worker m → PostStack t [.code (.fetch m)]
  | acquire {l : PostLock} {rest : List PostFrame} : Start t l rest → PostStack t (.acquire l :: rest)
  | p {l : PostLock} {rest : List PostFrame} : Start t l rest → PostStack t (.p (.lock l) :: .own l :: rest)
  | own {l : PostLock} {rest : List PostFrame} : Start t l rest → PostStack t (.own l :: rest)
  | start {l : PostLock} {rest : List PostFrame} : Start t l rest → PostStack t rest
  | waits {m : Address} : IsUser t → PostStack t [.p (.user (.messageSent m)), .release (.send m)]
  | signal {m : Address} {b : Nat} : t = worker m → PostStack t [.signal (m, b), .release (.box m b)]
  | raise {m : Address} {b n : Nat} : t = worker m → PostStack t [.v (.sleeper n), .release (.box m b)]
  | wait {m : Address} {b : Nat} : IsUser t → PostStack t (.wait (m, b) :: popRest m b)
  | releasing {m : Address} {b n : Nat} : IsUser t → PostStack t
      (.release (.box m b) :: .p (.sleeper n) :: .acquire (.box m b) :: .waitReturn (m, b) n :: popRest m b)
  | freeing {m : Address} {b n : Nat} : IsUser t → PostStack t
      (.v (.lock (.box m b)) :: .p (.sleeper n) :: .acquire (.box m b) :: .waitReturn (m, b) n :: popRest m b)
  | sleeping {m : Address} {b n : Nat} : IsUser t → PostStack t
      (.p (.sleeper n) :: .acquire (.box m b) :: .waitReturn (m, b) n :: popRest m b)
  | found {m : Address} {b : Nat} : IsUser t → PostStack t [.code (.pop m b)]
  | took {m : Address} {b : Nat} {mail : Mail} : IsUser t → PostStack t [.release (.box m b), .code (.got mail)]
  | freed {m : Address} {b : Nat} {mail : Mail} : IsUser t → PostStack t [.v (.lock (.box m b)), .code (.got mail)]
  | got {mail : Mail} : IsUser t → PostStack t [.code (.got mail)]
  | release {l : PostLock} : PostStack t [.release l]
  | v {l : PostLock} : PostStack t [.v (.lock l)]

section Shape

variable {f : PostFrame} {rest : List PostFrame}

/-- A thread that has a lock and starts to use it. -/
theorem Start.exec {l : PostLock} (h : Start t l (f :: rest)) (hexec : s.execFrame postUsers t f rest = some s') :
    PostStack t (s'.stack t) := by
  cases h with
  | transmit ht hsending =>
    simp only [State.execFrame, postUsers, Internet.exec, Option.map_eq_some_iff] at hexec
    obtain ⟨_, ⟨net', -, rfl⟩, rfl⟩ := hexec
    simpa [State.setStack] using PostStack.waits ht
  | append ht hb =>
    cases hexec
    simpa [State.setStack] using PostStack.signal ht
  | pop ht =>
    simp only [State.execFrame, postUsers, Internet.exec, Option.map_eq_some_iff] at hexec
    obtain ⟨r, hr, rfl⟩ := hexec
    split at hr
    · cases hr
      simpa [State.setStack, popRest] using PostStack.wait ht
    · cases hr
      simpa [State.setStack] using PostStack.found ht
  | again ht =>
    cases hexec
    simpa [State.setStack, State.addLog] using PostStack.start (Start.pop ht)

/-- A thread in `P` stays where it is or goes on. -/
theorem PostStack.exec_p {j : Synch.SemId PostLock PostSem} (h : PostStack t (s.stack t)) (hrest : PostStack t rest) :
    PostStack t ((s.p t j rest).stack t) := by
  rcases (p_same s t j rest).2.2.2.2 with hst | hst
  · rw [hst]
    exact h
  · rw [hst]
    exact hrest

theorem PostStack.exec_v {j : Synch.SemId PostLock PostSem} (hrest : PostStack t rest) :
    PostStack t ((s.v t j rest).stack t) := by
  rw [(v_same s t j rest).2.2.2.2]
  exact hrest

/-- A thread in `Release`. -/
theorem PostStack.exec_release {l : PostLock} (hrest : PostStack t (.v (.lock l) :: rest))
    (hexec : s.execFrame postUsers t (.release l) rest = some s') : PostStack t (s'.stack t) := by
  simp only [State.execFrame] at hexec
  split at hexec
  · cases hexec
    simpa [State.setStack] using hrest
  · cases hexec

/-- A thread executes its first frame. -/
theorem PostStack.exec (h : PostStack t (s.stack t)) (hstack : s.stack t = f :: rest)
    (hexec : s.execFrame postUsers t f rest = some s') : PostStack t (s'.stack t) := by
  have hshape := h
  rw [hstack] at hshape
  cases hshape with
  | start hstart => exact hstart.exec hexec
  | poll ht =>
    simp only [State.execFrame, postUsers, Internet.exec, Option.map_eq_some_iff] at hexec
    obtain ⟨r, hr, rfl⟩ := hexec
    rcases checkPktAvail_frames hr with hframes | hframes
    · simpa [State.setStack, hframes] using PostStack.idle
    · simpa [State.setStack, hframes] using PostStack.available ht
  | available ht =>
    cases hexec
    exact exec_v .idle
  | done ht =>
    cases hexec
    exact exec_v .idle
  | deliver ht =>
    cases hexec
    exact h.exec_p (.fetch ht)
  | fetch ht =>
    simp only [State.execFrame, postUsers, Internet.exec, Option.map_eq_some_iff] at hexec
    obtain ⟨_, ⟨⟨net', mail⟩, -, rfl⟩, rfl⟩ := hexec
    simpa [State.setStack] using PostStack.acquire (Start.append ht rfl)
  | acquire hstart =>
    simp only [State.execFrame] at hexec
    split at hexec
    · cases hexec
    · cases hexec
      simpa [State.setStack] using PostStack.p hstart
  | p hstart =>
    cases hexec
    exact h.exec_p (.own hstart)
  | own hstart =>
    cases hexec
    simpa [State.setStack] using PostStack.start hstart
  | waits ht =>
    cases hexec
    exact h.exec_p .release
  | signal ht =>
    simp only [State.execFrame] at hexec
    split at hexec
    · split at hexec
      · cases hexec
        simpa [State.setStack] using PostStack.release
      · cases hexec
        simpa [State.setStack] using PostStack.raise ht
    · cases hexec
  | raise ht =>
    cases hexec
    exact exec_v .release
  | wait ht =>
    simp only [State.execFrame] at hexec
    split at hexec
    · cases hexec
      simpa [State.setStack] using PostStack.releasing ht
    · cases hexec
  | releasing ht => exact exec_release (.freeing ht) hexec
  | freeing ht =>
    cases hexec
    exact exec_v (.sleeping ht)
  | sleeping ht =>
    cases hexec
    exact h.exec_p (.acquire (.again ht))
  | found ht =>
    simp only [State.execFrame, postUsers, Internet.exec, Option.map_eq_some_iff] at hexec
    obtain ⟨r, hr, rfl⟩ := hexec
    split at hr
    · cases hr
    · cases hr
      simpa [State.setStack] using PostStack.took ht
  | took ht => exact exec_release (.freed ht) hexec
  | freed ht =>
    cases hexec
    exact exec_v (.got ht)
  | got ht =>
    simp only [State.execFrame, postUsers, Internet.exec, Option.map_eq_some_iff] at hexec
    obtain ⟨r, hr, rfl⟩ := hexec
    split at hr
    · cases hr
      simpa [State.setStack] using PostStack.idle
    · cases hr
  | release => exact exec_release .v hexec
  | v =>
    cases hexec
    exact exec_v .idle

/-- A thread makes a call. -/
theorem PostStack.call {i : PostCall} {net : Internet} {r : Internet × List PostFrame}
    (hr : net.call i t = some r) : PostStack t r.2 := by
  cases i with
  | poll m =>
    simp only [Internet.call] at hr
    split at hr
    · cases hr
      exact .poll ‹_›
    · cases hr
  | sendDone m =>
    simp only [Internet.call] at hr
    split at hr
    · rename_i hok
      cases hr
      exact .done hok.1
    · cases hr
  | deliver m =>
    simp only [Internet.call] at hr
    split at hr
    · cases hr
      exact .deliver ‹_›
    · cases hr
  | send m pktHdr mailHdr data =>
    simp only [Internet.call] at hr
    split at hr
    · obtain ⟨⟨net', hdr, buffer⟩, hprepare, rfl⟩ := Option.map_eq_some_iff.mp hr
      obtain ⟨hfrom, -, hok, hpayload, -⟩ := Internet.prepare_ok hprepare
      exact .acquire (.transmit ‹_› ⟨rfl, hfrom, hok, hpayload⟩)
    · cases hr
  | receive m box =>
    simp only [Internet.call] at hr
    split at hr
    · rename_i hok
      cases hr
      exact .acquire (.pop hok.1)
    · cases hr

/-- Every step keeps the stacks in shape. -/
theorem shape_step {e : Event PostCall} (h : ∀ t, PostStack t (s.stack t)) (hs : s.step postUsers e = some s') (t : Nat) :
    PostStack t (s'.stack t) := by
  cases e with
  | exec u =>
    obtain ⟨-, f, rest, hstack, hexec⟩ := step_exec_iff.mp hs
    by_cases ht : t = u
    · subst ht
      exact (h t).exec hstack hexec
    · rw [execFrame_stack_other hexec ht]
      exact h t
  | call u i =>
    obtain ⟨-, -, r, hr, rfl⟩ := step_call_iff.mp hs
    by_cases ht : t = u
    · subst ht
      simpa [State.setStack] using PostStack.call hr
    · simpa [State.setStack, ht] using h t

end Shape

theorem postUsers_plain : PlainSystem postUsers where
  call := by
    intro i t net r hr
    cases i with
    | poll m | deliver m =>
      simp only [postUsers, Internet.call] at hr
      split at hr
      · cases hr
        simp [Frame.Plain]
      · cases hr
    | sendDone m =>
      simp only [postUsers, Internet.call] at hr
      split at hr
      · cases hr
        simp [Frame.Plain]
      · cases hr
    | send m pktHdr mailHdr data =>
      simp only [postUsers, Internet.call] at hr
      split at hr
      · obtain ⟨⟨net', hdr, buffer⟩, -, rfl⟩ := Option.map_eq_some_iff.mp hr
        simp [Frame.Plain]
      · cases hr
    | receive m box =>
      simp only [postUsers, Internet.call] at hr
      split at hr
      · cases hr
        simp [Frame.Plain]
      · cases hr
  exec := by
    intro code t net r hr
    cases code with
    | poll m =>
      rcases checkPktAvail_frames hr with hframes | hframes <;> rw [hframes] <;> simp [Frame.Plain]
    | transmit m hdr data mail =>
      obtain ⟨net', -, rfl⟩ := Option.map_eq_some_iff.mp hr
      simp [Frame.Plain]
    | fetch m =>
      obtain ⟨⟨net', mail⟩, -, rfl⟩ := Option.map_eq_some_iff.mp hr
      simp [Frame.Plain]
    | append m b mail =>
      cases hr
      simp
    | loop m b | pop m b | got mail =>
      simp only [postUsers, Internet.exec] at hr
      split at hr
      · cases hr <;> simp [Frame.Plain]
      · cases hr <;> simp [Frame.Plain]

/-! ## What the devices see of the stacks -/

/-- The machine of a semaphore. -/
def PostSem.machine : PostSem → Address
  | .messageAvailable m | .messageSent m => m

/-- Is the frame a `V` on this semaphore? -/
def isUp (k : PostSem) : PostFrame → Bool
  | .v (.user k') => k' == k
  | _ => false

/-- One if the thread is about to fetch a packet. -/
def fetches : List PostFrame → Nat
  | .code (.fetch _) :: _ => 1
  | _ => 0

/-- The number of times that the handler is about to raise the semaphore. -/
def raising (s : PostState) (k : PostSem) : Nat := (s.own (hardware k.machine)).countP (isUp k)

/-- The units of a semaphore that are there or on their way. -/
def units (s : PostState) (k : PostSem) : Int := s.value k + raising s k

def fetching (s : PostState) (m : Address) : Nat := fetches (s.own (worker m))

/-- The thread waits until its packet is on the wire. -/
def WaitsSent (s : PostState) (t : Nat) (m : Address) : Prop := .p (.user (.messageSent m)) ∈ s.own t

/-- For the devices the stacks are the same. -/
structure SameForDevices (a b : List PostFrame) : Prop where
  up : ∀ k, b.countP (isUp k) = a.countP (isUp k)
  fetch : fetches b = fetches a
  wait : ∀ m, .p (.user (.messageSent m)) ∈ b ↔ .p (.user (.messageSent m)) ∈ a

/-- For the devices the stations are the same. -/
structure SameStation (a b : Station) : Prop where
  sendBusy : b.sendBusy = a.sendBusy
  sending : b.sending = a.sending
  length : b.inHdr.length = a.inHdr.length
  socket : b.socket = a.socket

/-! ## The invariant of the devices -/

structure DeviceInv (s : PostState) : Prop where
  ok : ∃ init, SynchInv postDiscipline init s
  shape : ∀ t, PostStack t (s.stack t)
  sendBusy : ∀ m, (s.shared.stations m).sendBusy = false
  /-- The packet of a thread that waits is on the wire, or its interrupt was and is on the way to the thread. -/
  sending : ∀ t m, WaitsSent s t m → units s (.messageSent m) + (s.shared.stations m).sending = 1
  /-- Nothing is on its way to a thread that does not wait. -/
  quiet : ∀ m, (∀ t, ¬ WaitsSent s t m) → units s (.messageSent m) + (s.shared.stations m).sending = 0
  /-- The inbox is full exactly while the worker is told of it. -/
  arrived : ∀ m, units s (.messageAvailable m) + fetching s m = if (s.shared.stations m).inHdr.length = 0 then 0 else 1
  packets : ∀ m, ∀ packet ∈ (s.shared.stations m).socket, ∃ mail : Mail, mail.Ok m ∧ Carries packet mail

namespace DeviceInv

variable {rest : List PostFrame}

theorem start (heap : Nat → ByteMemory) (lost : Nat → Bool) (priority : Nat → Int) :
    DeviceInv (postStart heap lost priority) where
  ok := ⟨_, SynchInv.start (fun _ => Int.le_refl 0) fun _ _ => rfl⟩
  shape := fun _ => .idle
  sendBusy := fun _ => rfl
  sending := fun t m h => nomatch h
  quiet := fun _ _ => rfl
  arrived := fun _ => rfl
  packets := fun m packet h => nomatch h

theorem nonneg (h : DeviceInv s) (k : PostSem) : 0 ≤ s.value k := by
  obtain ⟨init, h⟩ := h.ok
  exact h.sem.nonneg (.user k)

/-- A thread that waits for its packet is in `Send` with `sendLock` held. -/
theorem stack_of_waitsSent (h : DeviceInv s) (hw : WaitsSent s t m) :
    s.stack t = [.p (.user (.messageSent m)), .release (.send m)] := by
  have hmem : .p (.user (.messageSent m)) ∈ s.stack t := List.mem_of_mem_filter hw
  have hshape := h.shape t
  generalize s.stack t = fs at hmem hshape
  have hstart : ∀ l rest, Start t l rest → .p (.user (.messageSent m)) ∉ rest := by
    intro l rest hs
    cases hs <;> simp [popRest]
  cases hshape with
  | waits ht =>
    obtain rfl : m = _ := by simpa using hmem
    rfl
  | start hs => exact absurd hmem (hstart _ _ hs)
  | acquire hs | p hs | own hs => exact absurd (by simpa using hmem) (hstart _ _ hs)
  | _ => simp [popRest] at hmem

theorem owner_of_waitsSent (h : DeviceInv s) (hw : WaitsSent s t m) : s.lockOwner (.send m) = some t := by
  obtain ⟨init, hok⟩ := h.ok
  refine ((hok.locks.lock _).owner t).mpr ?_
  simp [State.phase, h.stack_of_waitsSent hw, phaseOf, Frame.use]

theorem owner_of_transmit {hdr : PacketHeader} {data : ByteMemory} {mail : Mail} (h : DeviceInv s)
    (hstack : s.stack t = [.code (.transmit m hdr data mail)]) : s.lockOwner (.send m) = some t := by
  obtain ⟨init, hok⟩ := h.ok
  refine ((hok.locks.lock _).owner t).mpr ?_
  simp [State.phase, hstack, phaseOf, Frame.use, postDiscipline, postUse]

/-- The rule for a step that the devices do not see. -/
theorem unseen (h : DeviceInv s) (hok : ∃ init, SynchInv postDiscipline init s') (hshape : ∀ t, PostStack t (s'.stack t))
    (hsame : ∀ u, SameForDevices (s.own u) (s'.own u)) (hvalue : ∀ k, s'.value k = s.value k)
    (hstations : ∀ m, SameStation (s.shared.stations m) (s'.shared.stations m)) : DeviceInv s' := by
  have hunits : ∀ k, units s' k = units s k := by
    intro k
    rw [units, units, hvalue, raising, raising, (hsame _).up]
  refine ⟨hok, hshape, fun m => ?_, fun t m hw => ?_, fun m hw => ?_, fun m => ?_, fun m => ?_⟩
  · rw [(hstations m).sendBusy]
    exact h.sendBusy m
  · rw [hunits, (hstations m).sending]
    exact h.sending t m (((hsame t).wait m).mp hw)
  · rw [hunits, (hstations m).sending]
    exact h.quiet m fun t ht => hw t (((hsame t).wait m).mpr ht)
  · rw [hunits, fetching, (hsame _).fetch, (hstations m).length]
    exact h.arrived m
  · rw [(hstations m).socket]
    exact h.packets m

section Steps

variable {frames : List PostFrame}

/-- What a thread that has a new stack is going to do. -/
theorem own_update (hst : s'.stack = Function.update s.stack t frames) (u : Nat) :
    s'.own u = if u = t then frames.filter Frame.isOwn else s.own u := by
  rw [State.own, hst]
  by_cases hu : u = t
  · subst hu
    rw [Function.update_self, if_pos rfl]
  · rw [Function.update_of_ne hu, if_neg hu]
    rfl

theorem unseen_update (h : DeviceInv s) (hok : ∃ init, SynchInv postDiscipline init s')
    (hshape : ∀ t, PostStack t (s'.stack t)) (hst : s'.stack = Function.update s.stack t frames)
    (hsame : SameForDevices (s.own t) (frames.filter Frame.isOwn)) (hvalue : ∀ k, s'.value k = s.value k)
    (hstations : ∀ m, SameStation (s.shared.stations m) (s'.shared.stations m)) : DeviceInv s' := by
  refine h.unseen hok hshape (fun u => ?_) hvalue hstations
  rw [own_update hst]
  split
  · rename_i hu
    rw [hu]
    exact hsame
  · exact ⟨fun _ => rfl, rfl, fun _ => Iff.rfl⟩

/-- The units of a semaphore after a step of a thread that is not the handler of its machine. -/
theorem units_other {k : PostSem} (hst : s'.stack = Function.update s.stack t frames) (ht : t ≠ hardware k.machine) :
    units s' k = units s k + (s'.value k - s.value k) := by
  rw [units, units, raising, raising, own_update hst, if_neg (Ne.symm ht)]
  omega

/-- The units of a semaphore after a step of the handler of a machine. -/
theorem units_hardware {k : PostSem} (hst : s'.stack = Function.update s.stack (hardware m) frames) :
    units s' k = units s k + (s'.value k - s.value k) + if k.machine = m then
      ((frames.filter Frame.isOwn).countP (isUp k) : Int) - (s.own (hardware m)).countP (isUp k) else 0 := by
  rw [units, units, raising, raising, own_update hst]
  by_cases hm : k.machine = m
  · rw [hm, if_pos rfl, if_pos rfl]
    omega
  · rw [if_neg fun heq => hm (hardware_inj heq), if_neg hm]
    omega

theorem waitsSent_update (hst : s'.stack = Function.update s.stack t frames)
    (hbefore : ∀ m, ¬ WaitsSent s t m) (hafter : ∀ m, .p (.user (.messageSent m)) ∉ frames) (u : Nat) (m : Address) :
    WaitsSent s' u m ↔ WaitsSent s u m := by
  rw [WaitsSent, WaitsSent, own_update hst]
  split
  · rename_i hu
    subst hu
    exact ⟨fun h => absurd (List.mem_of_mem_filter h) (hafter m), fun h => absurd h (hbefore m)⟩
  · rfl

theorem fetching_update (hst : s'.stack = Function.update s.stack t frames) (ht : t ≠ worker m) :
    fetching s' m = fetching s m := by
  rw [fetching, fetching, own_update hst, if_neg (Ne.symm ht)]

/-- The interrupt of a packet that was sent comes. -/
theorem call_sendDone (h : DeviceInv s) (hok : ∃ init, SynchInv postDiscipline init s')
    (hshape : ∀ t, PostStack t (s'.stack t)) (hstack : s.stack (hardware m) = [])
    (hpos : 0 < (s.shared.stations m).sending)
    (hst : s'.stack = Function.update s.stack (hardware m) [.v (.user (.messageSent m))])
    (hvalue : ∀ k, s'.value k = s.value k)
    (hshared : s'.shared = s.shared.setStation m { s.shared.stations m with
      sendBusy := false, sending := (s.shared.stations m).sending - 1 }) : DeviceInv s' := by
  have hown : s.own (hardware m) = [] := own_of_stack hstack
  have hwaits := waitsSent_update hst (fun m' => by rw [WaitsSent, hown]; exact List.not_mem_nil) (by simp)
  have hunits : ∀ k, units s' k = units s k + if k = .messageSent m then 1 else 0 := by
    intro k
    rw [units_hardware hst, hvalue, hown]
    cases k with
    | messageAvailable m' => simp [PostSem.machine, isUp, Frame.isOwn]
    | messageSent m' =>
      by_cases hm : m' = m
      · subst hm
        simp [PostSem.machine, isUp, Frame.isOwn, List.filter_cons]
      · simp [PostSem.machine, hm]
  have hstation : ∀ m', s'.shared.stations m' = if m' = m then { s.shared.stations m with
      sendBusy := false, sending := (s.shared.stations m).sending - 1 } else s.shared.stations m' := by
    intro m'
    rw [hshared, Internet.setStation]
    exact Function.update_apply _ _ _ _
  have htotal : ∀ m', units s' (.messageSent m') + (s'.shared.stations m').sending =
      units s (.messageSent m') + (s.shared.stations m').sending := by
    intro m'
    rw [hunits, hstation]
    by_cases hm : m' = m
    · subst hm
      rw [if_pos rfl, if_pos rfl]
      dsimp only
      omega
    · rw [if_neg hm, if_neg (by simpa using hm), Int.add_zero]
  refine ⟨hok, hshape, fun m' => ?_, fun u m' hw => ?_, fun m' hw => ?_, fun m' => ?_, fun m' => ?_⟩
  · rw [hstation]
    split
    · rfl
    · exact h.sendBusy m'
  · rw [htotal]
    exact h.sending u m' ((hwaits u m').mp hw)
  · rw [htotal]
    exact h.quiet m' fun u hu => hw u ((hwaits u m').mpr hu)
  · rw [hunits, if_neg (by simp), Int.add_zero, fetching_update hst (hardware_ne_worker m m'), hstation]
    have harrived := h.arrived m'
    split
    · rename_i hm
      subst hm
      exact harrived
    · exact harrived
  · rw [hstation]
    have hpackets := h.packets m'
    split
    · rename_i hm
      subst hm
      exact hpackets
    · exact hpackets

/-- The handler raises a semaphore. -/
theorem up (h : DeviceInv s) (hok : ∃ init, SynchInv postDiscipline init s')
    (hshape : ∀ t, PostStack t (s'.stack t)) {k : PostSem} (hstack : s.stack t = .v (.user k) :: rest)
    (hst : s'.stack = Function.update s.stack t rest) (hshared : s'.shared = s.shared)
    (hvalue : ∀ n, s'.value n = s.value n + if n = k then 1 else 0) : DeviceInv s' := by
  obtain ⟨rfl, rfl⟩ : rest = [] ∧ t = hardware k.machine := by
    have hs := h.shape t
    rw [hstack] at hs
    cases hs with
    | available ht | done ht => exact ⟨rfl, ht⟩
    | start hs => cases hs
  have hown : s.own (hardware k.machine) = [.v (.user k)] := own_of_stack hstack
  have hwaits := waitsSent_update hst (fun m' => by rw [WaitsSent, hown]; simp) (by simp)
  have hunits : ∀ n, units s' n = units s n := by
    intro n
    rw [units_hardware hst, hvalue, hown]
    by_cases hn : n = k
    · subst hn
      simp [isUp]
    · have hne : ¬ k = n := fun heq => hn heq.symm
      simp [isUp, hn, hne]
  refine ⟨hok, hshape, fun m' => ?_, fun u m' hw => ?_, fun m' hw => ?_, fun m' => ?_, fun m' => ?_⟩
  · rw [hshared]
    exact h.sendBusy m'
  · rw [hunits, hshared]
    exact h.sending u m' ((hwaits u m').mp hw)
  · rw [hunits, hshared]
    exact h.quiet m' fun u hu => hw u ((hwaits u m').mpr hu)
  · rw [hunits, fetching_update hst (hardware_ne_worker _ m'), hshared]
    exact h.arrived m'
  · rw [hshared]
    exact h.packets m'

/-- The worker hears of a packet. -/
theorem down_available (h : DeviceInv s) (hok : ∃ init, SynchInv postDiscipline init s')
    (hshape : ∀ t, PostStack t (s'.stack t)) (hstack : s.stack (worker m) = [.p (.user (.messageAvailable m)), .code (.fetch m)])
    (hst : s'.stack = Function.update s.stack (worker m) [.code (.fetch m)]) (hshared : s'.shared = s.shared)
    (hvalue : ∀ n, s'.value n = s.value n - if n = .messageAvailable m then 1 else 0) : DeviceInv s' := by
  have hown : s.own (worker m) = [.p (.user (.messageAvailable m)), .code (.fetch m)] := own_of_stack hstack
  have hwaits := waitsSent_update hst (fun m' => by rw [WaitsSent, hown]; simp) (by simp)
  have hunits : ∀ n, units s' n = units s n - if n = .messageAvailable m then 1 else 0 := by
    intro n
    rw [units_other hst (Ne.symm (hardware_ne_worker _ m)), hvalue]
    omega
  have htotal : ∀ m', units s' (.messageAvailable m') + fetching s' m' = units s (.messageAvailable m') + fetching s m' := by
    intro m'
    rw [hunits]
    by_cases hm : m' = m
    · subst hm
      have hafter : fetching s' m' = 1 := by
        rw [fetching, own_update hst, if_pos rfl]
        rfl
      have hbefore : fetching s m' = 0 := by
        rw [fetching, hown]
        rfl
      rw [if_pos rfl, hafter, hbefore]
      omega
    · rw [fetching_update hst fun heq => hm (worker_inj heq).symm, if_neg (by simpa using hm)]
      omega
  refine ⟨hok, hshape, fun m' => ?_, fun u m' hw => ?_, fun m' hw => ?_, fun m' => ?_, fun m' => ?_⟩
  · rw [hshared]
    exact h.sendBusy m'
  · rw [hunits, if_neg (by simp), hshared, Int.sub_zero]
    exact h.sending u m' ((hwaits u m').mp hw)
  · rw [hunits, if_neg (by simp), hshared, Int.sub_zero]
    exact h.quiet m' fun u hu => hw u ((hwaits u m').mpr hu)
  · rw [htotal, hshared]
    exact h.arrived m'
  · rw [hshared]
    exact h.packets m'

/-- Another thread waits for the packets of another machine. -/
theorem waitsSent_other (hst : s'.stack = Function.update s.stack t frames) (hu : u ≠ t) (m : Address) :
    WaitsSent s' u m ↔ WaitsSent s u m := by
  rw [WaitsSent, WaitsSent, own_update hst, if_neg hu]

/-- A thread hears that its packet is on the wire. -/
theorem down_sent (h : DeviceInv s) (hok : ∃ init, SynchInv postDiscipline init s')
    (hshape : ∀ t, PostStack t (s'.stack t)) (ht : IsUser t)
    (hstack : s.stack t = [.p (.user (.messageSent m)), .release (.send m)])
    (hst : s'.stack = Function.update s.stack t [.release (.send m)]) (hshared : s'.shared = s.shared)
    (hvalue : ∀ n, s'.value n = s.value n - if n = .messageSent m then 1 else 0) : DeviceInv s' := by
  have hown : s.own t = [.p (.user (.messageSent m))] := own_of_stack hstack
  have hunits : ∀ n, units s' n = units s n - if n = .messageSent m then 1 else 0 := by
    intro n
    rw [units_other hst (ht.ne_hardware _), hvalue]
    omega
  have hwaiting : WaitsSent s t m := by
    rw [WaitsSent, hown]
    exact List.mem_singleton_self _
  have hdone : ∀ m', ¬ WaitsSent s' t m' := by
    intro m' hw
    rw [WaitsSent, own_update hst, if_pos rfl] at hw
    exact List.not_mem_nil hw
  -- nobody else waits for this machine, for the lock is held
  have honly : ∀ u m', WaitsSent s' u m' → WaitsSent s u m' ∧ m' ≠ m := by
    intro u m' hw
    have hu : u ≠ t := by
      rintro rfl
      exact hdone m' hw
    have hbefore := (waitsSent_other hst hu m').mp hw
    refine ⟨hbefore, ?_⟩
    rintro rfl
    exact hu (Option.some.inj ((h.owner_of_waitsSent hbefore).symm.trans (h.owner_of_waitsSent hwaiting)))
  refine ⟨hok, hshape, fun m' => ?_, fun u m' hw => ?_, fun m' hw => ?_, fun m' => ?_, fun m' => ?_⟩
  · rw [hshared]
    exact h.sendBusy m'
  · obtain ⟨hbefore, hne⟩ := honly u m' hw
    rw [hunits, if_neg (by simpa using hne), hshared, Int.sub_zero]
    exact h.sending u m' hbefore
  · rw [hunits, hshared]
    by_cases hm : m' = m
    · subst hm
      have hone := h.sending t m' hwaiting
      rw [if_pos rfl]
      omega
    · rw [if_neg (by simpa using hm), Int.sub_zero]
      refine h.quiet m' fun u hu => hw u ((waitsSent_other hst ?_ m').mpr hu)
      rintro rfl
      rw [WaitsSent, hown] at hu
      simp [hm] at hu
  · rw [hunits, if_neg (by simp), fetching_update hst (ht.ne_worker m'), hshared, Int.sub_zero]
    exact h.arrived m'
  · rw [hshared]
    exact h.packets m'

/-- The device looks for a packet. -/
theorem code_poll {r : Internet × List PostFrame} (h : DeviceInv s) (hok : ∃ init, SynchInv postDiscipline init s')
    (hshape : ∀ t, PostStack t (s'.stack t)) (hstack : s.stack (hardware m) = [.code (.poll m)])
    (hr : s.shared.checkPktAvail m = some r) (hst : s'.stack = Function.update s.stack (hardware m) r.2)
    (hshared : s'.shared = r.1) (hvalue : ∀ n, s'.value n = s.value n) : DeviceInv s' := by
  have hown : s.own (hardware m) = [.code (.poll m)] := own_of_stack hstack
  rcases checkPktAvail_cases hr with rfl | ⟨hframes, packet, hreads⟩
  · refine h.unseen_update hok hshape hst ?_ hvalue fun m' => ?_
    · rw [hown]
      exact ⟨fun _ => rfl, rfl, by simp⟩
    · rw [hshared]
      exact ⟨rfl, rfl, rfl, rfl⟩
  rw [hframes] at hst
  rw [← hshared] at hreads
  have hwaits := waitsSent_update hst (fun m' => by rw [WaitsSent, hown]; simp) (by simp)
  have hunits : ∀ k, units s' k = units s k + if k = .messageAvailable m then 1 else 0 := by
    intro k
    rw [units_hardware hst, hvalue, hown]
    cases k with
    | messageSent m' => simp [PostSem.machine, isUp, Frame.isOwn]
    | messageAvailable m' =>
      by_cases hm : m' = m
      · subst hm
        simp [PostSem.machine, isUp, Frame.isOwn, List.filter_cons]
      · simp [PostSem.machine, hm]
  have hsending : ∀ m', (s'.shared.stations m').sending = (s.shared.stations m').sending := by
    intro m'
    by_cases hm : m' = m
    · rw [hm]
      exact hreads.sending
    · rw [hreads.others m' hm]
  obtain ⟨mail, hmail, hcarries⟩ := h.packets m packet (by rw [hreads.socket]; exact List.mem_cons_self)
  refine ⟨hok, hshape, fun m' => ?_, fun u m' hw => ?_, fun m' hw => ?_, fun m' => ?_, fun m' p hp => ?_⟩
  · by_cases hm : m' = m
    · rw [hm, hreads.sendBusy]
      exact h.sendBusy m
    · rw [hreads.others m' hm]
      exact h.sendBusy m'
  · rw [hunits, if_neg (by simp), hsending, Int.add_zero]
    exact h.sending u m' ((hwaits u m').mp hw)
  · rw [hunits, if_neg (by simp), hsending, Int.add_zero]
    exact h.quiet m' fun u hu => hw u ((hwaits u m').mpr hu)
  · rw [hunits, fetching_update hst (hardware_ne_worker m m')]
    have harrived := h.arrived m'
    by_cases hm : m' = m
    · subst hm
      have hne : ¬ (s'.shared.stations m').inHdr.length = 0 := by
        rw [(hreads.full mail hmail hcarries).1]
        intro hzero
        have hpos := hmail.length_pos
        rw [hzero] at hpos
        exact Nat.lt_irrefl 0 hpos
      rw [if_pos hreads.free] at harrived
      rw [if_pos rfl, if_neg hne]
      omega
    · rw [if_neg (by simpa using hm), hreads.others m' hm, Int.add_zero]
      exact harrived
  · by_cases hm : m' = m
    · subst hm
      exact h.packets m' p (by rw [hreads.socket]; exact List.mem_cons_of_mem _ hp)
    · rw [hreads.others m' hm] at hp
      exact h.packets m' p hp

/-- A thread puts a packet on the wire: no other one waits, for it has the lock. -/
theorem code_transmit {net : Internet} {data : ByteMemory} {mail : Mail} (h : DeviceInv s)
    (hok : ∃ init, SynchInv postDiscipline init s') (hshape : ∀ t, PostStack t (s'.stack t)) (ht : IsUser t)
    (hstack : s.stack t = [.code (.transmit m mail.pktHdr data mail)]) (hmail : mail.Ok mail.pktHdr.to)
    (hdata : slice data 0 mail.pktHdr.length.toNat = mail.payload)
    (hr : s.shared.transmit m mail.pktHdr data mail = some net)
    (hst : s'.stack = Function.update s.stack t [.p (.user (.messageSent m)), .release (.send m)])
    (hshared : s'.shared = net) (hvalue : ∀ n, s'.value n = s.value n) : DeviceInv s' := by
  have hown : s.own t = [.code (.transmit m mail.pktHdr data mail)] := own_of_stack hstack
  obtain ⟨htransmits, harrives⟩ := transmit_cases hr hmail hdata
  rw [← hshared] at htransmits harrives
  have hunits : ∀ k, units s' k = units s k := by
    intro k
    rw [units_other hst (ht.ne_hardware _), hvalue]
    omega
  have hnobody : ∀ u, ¬ WaitsSent s u m := by
    intro u hu
    obtain rfl : u = t :=
      Option.some.inj ((h.owner_of_waitsSent hu).symm.trans (h.owner_of_transmit hstack))
    rw [WaitsSent, hown] at hu
    simp at hu
  have hwaits : ∀ u m', m' ≠ m → (WaitsSent s' u m' ↔ WaitsSent s u m') := by
    intro u m' hm
    by_cases hu : u = t
    · subst hu
      rw [WaitsSent, WaitsSent, own_update hst, if_pos rfl, hown]
      simp [Frame.isOwn, hm]
    · exact waitsSent_other hst hu m'
  refine ⟨hok, hshape, fun m' => ?_, fun u m' hw => ?_, fun m' hw => ?_, fun m' => ?_, fun m' p hp => ?_⟩
  · rw [htransmits.sendBusy]
    exact h.sendBusy m'
  · rw [hunits, htransmits.sending]
    by_cases hm : m' = m
    · subst hm
      have hquiet := h.quiet m' hnobody
      rw [if_pos rfl]
      omega
    · rw [if_neg hm]
      exact h.sending u m' ((hwaits u m' hm).mp hw)
  · rw [hunits, htransmits.sending]
    by_cases hm : m' = m
    · subst hm
      refine absurd ?_ (hw t)
      rw [WaitsSent, own_update hst, if_pos rfl]
      simp [Frame.isOwn]
    · rw [if_neg hm]
      exact h.quiet m' fun u hu => hw u ((hwaits u m' hm).mpr hu)
  · rw [hunits, fetching_update hst (ht.ne_worker m'), htransmits.inHdr]
    exact h.arrived m'
  · rcases harrives with ⟨hsocket, -⟩ | ⟨packet, hcarries, hsocket, -⟩
    · rw [hsocket] at hp
      exact h.packets m' p hp
    · rw [hsocket, List.mem_append] at hp
      rcases hp with hp | hp
      · exact h.packets m' p hp
      · by_cases hm : m' = mail.pktHdr.to
        · rw [if_pos hm, List.mem_singleton] at hp
          subst hp hm
          exact ⟨mail, hmail, hcarries⟩
        · rw [if_neg hm] at hp
          exact absurd hp List.not_mem_nil

/-- The worker fetches the packet in the inbox. -/
theorem code_fetch {r : Internet × Mail} (h : DeviceInv s) (hok : ∃ init, SynchInv postDiscipline init s')
    (hshape : ∀ t, PostStack t (s'.stack t)) (hstack : s.stack (worker m) = [.code (.fetch m)])
    (hr : s.shared.fetch m = some r) (hst : s'.stack = Function.update s.stack (worker m) frames)
    (hframes : fetches (frames.filter Frame.isOwn) = 0) (hwait : ∀ m', .p (.user (.messageSent m')) ∉ frames)
    (hshared : s'.shared = r.1) (hvalue : ∀ n, s'.value n = s.value n) : DeviceInv s' := by
  have hown : s.own (worker m) = [.code (.fetch m)] := own_of_stack hstack
  have hfetch := fetch_spec hr
  rw [← hshared] at hfetch
  have hwaits := waitsSent_update hst (fun m' => by rw [WaitsSent, hown]; simp) hwait
  have hunits : ∀ k, units s' k = units s k := by
    intro k
    rw [units_other hst (Ne.symm (hardware_ne_worker _ m)), hvalue]
    omega
  refine ⟨hok, hshape, fun m' => ?_, fun u m' hw => ?_, fun m' hw => ?_, fun m' => ?_, fun m' p hp => ?_⟩
  · rw [hfetch.sendBusy]
    exact h.sendBusy m'
  · rw [hunits, hfetch.sending]
    exact h.sending u m' ((hwaits u m').mp hw)
  · rw [hunits, hfetch.sending]
    exact h.quiet m' fun u hu => hw u ((hwaits u m').mpr hu)
  · rw [hunits]
    have harrived := h.arrived m'
    by_cases hm : m' = m
    · subst hm
      have hbefore : fetching s m' = 1 := by
        rw [fetching, hown]
        rfl
      have hnonneg := h.nonneg (.messageAvailable m')
      rw [fetching, own_update hst, if_pos rfl, hframes, if_pos hfetch.empty]
      rw [hbefore] at harrived
      rw [units] at harrived ⊢
      split at harrived <;> omega
    · rw [fetching_update hst fun heq => hm (worker_inj heq).symm, hfetch.others m' hm]
      exact harrived
  · rw [hfetch.socket] at hp
    exact h.packets m' p hp

/-- A thread executes a piece of code. -/
theorem code {code : PostCode} {r : Internet × List PostFrame} (h : DeviceInv s)
    (hok : ∃ init, SynchInv postDiscipline init s') (hshape : ∀ t, PostStack t (s'.stack t))
    (hstack : s.stack t = .code code :: rest) (hr : s.shared.exec code t = some r)
    (hst : s'.stack = Function.update s.stack t (r.2 ++ rest)) (hshared : s'.shared = r.1)
    (hvalue : ∀ n, s'.value n = s.value n) : DeviceInv s' := by
  have hs := h.shape t
  rw [hstack] at hs
  have hown : s.own t = .code code :: rest.filter Frame.isOwn := own_of_stack hstack
  cases hs with
  | poll ht =>
    subst ht
    rw [List.append_nil] at hst
    exact h.code_poll hok hshape hstack hr hst hshared hvalue
  | fetch ht =>
    subst ht
    obtain ⟨⟨net, mail⟩, hfetch, rfl⟩ := Option.map_eq_some_iff.mp hr
    rw [List.append_nil] at hst
    exact h.code_fetch hok hshape hstack hfetch hst rfl (by simp) hshared hvalue
  | found ht =>
    simp only [Internet.exec] at hr
    split at hr
    · cases hr
    · cases hr
      refine h.unseen_update hok hshape hst ?_ hvalue fun m' => ?_
      · rw [hown]
        exact ⟨fun _ => rfl, rfl, by simp [Frame.isOwn]⟩
      · rw [hshared]
        exact ⟨rfl, rfl, rfl, rfl⟩
  | got ht =>
    simp only [Internet.exec] at hr
    split at hr
    · cases hr
      refine h.unseen_update hok hshape hst ?_ hvalue fun m' => ?_
      · rw [hown]
        exact ⟨fun _ => rfl, rfl, by simp⟩
      · rw [hshared]
        exact ⟨rfl, rfl, rfl, rfl⟩
    · cases hr
  | start hs =>
    cases hs with
    | transmit ht hsending =>
      obtain ⟨net, htransmit, rfl⟩ := Option.map_eq_some_iff.mp hr
      obtain ⟨rfl, -, hmail, hdata⟩ := hsending
      exact h.code_transmit hok hshape ht hstack hmail hdata htransmit hst hshared hvalue
    | append ht hb =>
      cases hr
      refine h.unseen_update hok hshape hst ?_ hvalue fun m' => ?_
      · rw [hown]
        exact ⟨fun _ => rfl, rfl, by simp [Frame.isOwn]⟩
      · rw [hshared]
        exact ⟨rfl, rfl, rfl, rfl⟩
    | pop ht =>
      simp only [Internet.exec] at hr
      split at hr <;> cases hr
      all_goals
        refine h.unseen_update hok hshape hst ?_ hvalue fun m' => ?_
        · rw [hown]
          exact ⟨fun _ => rfl, rfl, by simp [Frame.isOwn]⟩
        · rw [hshared]
          exact ⟨rfl, rfl, rfl, rfl⟩

/-- A thread makes a call. -/
theorem call {i : PostCall} {r : Internet × List PostFrame} (h : DeviceInv s)
    (hok : ∃ init, SynchInv postDiscipline init s') (hshape : ∀ t, PostStack t (s'.stack t))
    (hstack : s.stack t = []) (hr : s.shared.call i t = some r) (hst : s'.stack = Function.update s.stack t r.2)
    (hshared : s'.shared = r.1) (hvalue : ∀ n, s'.value n = s.value n) : DeviceInv s' := by
  have hown : s.own t = [] := own_of_stack hstack
  cases i with
  | sendDone m =>
    simp only [Internet.call] at hr
    split at hr
    · rename_i hok'
      obtain ⟨rfl, hpos⟩ := hok'
      cases hr
      exact h.call_sendDone hok hshape hstack hpos hst hvalue hshared
    · cases hr
  | send m pktHdr mailHdr data =>
    simp only [Internet.call] at hr
    split at hr
    · obtain ⟨⟨net, hdr, buffer⟩, hprepare, rfl⟩ := Option.map_eq_some_iff.mp hr
      obtain ⟨-, -, -, -, heap, rfl⟩ := Internet.prepare_ok hprepare
      refine h.unseen_update hok hshape hst ?_ hvalue fun m' => ?_
      · rw [hown]
        exact ⟨fun _ => rfl, rfl, by simp [Frame.isOwn]⟩
      · rw [hshared]
        exact ⟨rfl, rfl, rfl, rfl⟩
    · cases hr
  | poll m | deliver m | receive m b =>
    simp only [Internet.call] at hr
    split at hr
    · cases hr
      refine h.unseen_update hok hshape hst ?_ hvalue fun m' => ?_
      · rw [hown]
        exact ⟨fun _ => rfl, rfl, by simp [Frame.isOwn]⟩
      · rw [hshared]
        exact ⟨rfl, rfl, rfl, rfl⟩
    · cases hr

/-- A thread goes on with a unit of a semaphore. -/
theorem down {k : PostSem} (h : DeviceInv s) (hok : ∃ init, SynchInv postDiscipline init s')
    (hshape : ∀ t, PostStack t (s'.stack t)) (hstack : s.stack t = .p (.user k) :: rest)
    (hst : s'.stack = Function.update s.stack t rest) (hshared : s'.shared = s.shared)
    (hvalue : ∀ n, s'.value n = s.value n - if n = k then 1 else 0) : DeviceInv s' := by
  have hs := h.shape t
  rw [hstack] at hs
  cases hs with
  | deliver ht =>
    subst ht
    exact h.down_available hok hshape hstack hst hshared hvalue
  | waits ht => exact h.down_sent hok hshape ht hstack hst hshared hvalue
  | start hs => cases hs

end Steps

theorem step {e : Event PostCall} (h : DeviceInv s) (hs : s.step postUsers e = some s') : DeviceInv s' := by
  obtain ⟨init, hsynch⟩ := h.ok
  have hok : ∃ init, SynchInv postDiscipline init s' := ⟨init, hsynch.step postUsers_plain hs⟩
  have hshape := shape_step h.shape hs
  cases step_seen hs with
  | hidden hh =>
    refine h.unseen hok hshape (fun u => ?_) hh.value_eq fun m => ?_
    · rw [hh.own_eq]
      exact ⟨fun _ => rfl, rfl, fun _ => Iff.rfl⟩
    · rw [hh.shared_eq]
      exact ⟨rfl, rfl, rfl, rfl⟩
  | call t i r hstack hr hst hshared hvalue => exact h.call hok hshape hstack hr hst hshared hvalue
  | code t k rest r hstack hr hst hshared hvalue => exact h.code hok hshape hstack hr hst hshared hvalue
  | up t k rest hstack hst hshared hvalue => exact h.up hok hshape hstack hst hshared hvalue
  | down t k rest hstack _ hst hshared hvalue => exact h.down hok hshape hstack hst hshared hvalue

theorem reachable {heap : Nat → ByteMemory} {lost : Nat → Bool} {priority : Nat → Int}
    (hr : Reachable postUsers (postStart heap lost priority) s) : DeviceInv s := by
  obtain ⟨es, hrun⟩ := hr
  exact runs_inv (fun _ _ _ hI _ hs => step hI hs) (start heap lost priority) (AllSteps.trivial es _) hrun

end DeviceInv

end Nachos.Network
