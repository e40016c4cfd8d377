import Nachos.Threads.ChannelMachine
import Nachos.Threads.Proofs.ConditionProofs

/-!
# Proofs: the code of the channels makes the moves of the machine

The stack of a thread shows its activity. Every step of the code either keeps the activity, while the
thread is inside a lock or a semaphore, or makes one of the moves.
-/

namespace Nachos.Synch

open Foundations

variable {joinable : Tid → Bool} {s s' : ChannelsState} {t u : Tid} {k : ChannelId}

/-! ## The locks of the channels -/

/-- What the code does with the locks. -/
def ChannelCode.use : ChannelCode → ChannelId → Option Use
  | .append k _, l | .head k _, l | .sendLoop k _ _, l => if k = l then some ⟨.held, .out⟩ else none
  | .receiveLoop k, l | .pop k, l => if k = l then some ⟨.held, .held⟩ else none
  | _, _ => none

/-- The channels use their locks properly. -/
def channelDiscipline (joinable : Tid → Bool) : Discipline (channelUsers joinable) where
  use := ChannelCode.use
  home := fun _ _ _ => .out
  call_home := by
    intros
    rfl
  call_fits := by
    intro i t sh r hr l
    simp only [channelUsers, Channels.call] at hr
    split at hr
    · cases hr
    · cases i with
      | send n mensaje =>
        cases hr
        by_cases hl : ChannelId.user n = l <;>
          simp [Channels.send, Fits, phaseOf, Frame.use, ChannelCode.use, hl]
      | receive n =>
        cases hr
        by_cases hl : ChannelId.user n = l <;>
          simp [Channels.receive, Fits, phaseOf, Frame.use, ChannelCode.use, ChannelCond.channel,
              channelUsers, hl]
      | join t' =>
        simp only at hr
        split at hr
        · cases hr
          by_cases hl : ChannelId.thread t' = l <;>
            simp [Channels.receive, Fits, phaseOf, Frame.use, ChannelCode.use, ChannelCond.channel,
              channelUsers, hl]
        · cases hr
      | finish returnValue =>
        cases hr
        by_cases hl : ChannelId.thread t = l <;> by_cases hj : joinable t = true <;>
          simp [Channels.send, Fits, phaseOf, Frame.use, ChannelCode.use, hl, hj]
  exec_home := by
    intros
    rfl
  exec_fits := by
    intro code t sh r hr l last hlast
    cases code with
    | append k mensaje =>
      cases hr
      by_cases hl : k = l
      · subst hl
        have := hlast _ (if_pos rfl)
        simp [Fits, phaseOf, Frame.use, ChannelCode.use, ChannelCond.channel, channelUsers, this]
      · simp [Fits, phaseOf, Frame.use, ChannelCode.use, ChannelCond.channel, channelUsers, hl]
    | head k m =>
      simp only [channelUsers, Channels.exec] at hr
      split at hr
      · cases hr
      · cases hr
        by_cases hl : k = l
        · subst hl
          have := hlast _ (if_pos rfl)
          simp [Fits, phaseOf, Frame.use, ChannelCode.use, this]
        · simp [Fits, phaseOf, Frame.use, ChannelCode.use, hl]
    | sendLoop k m b =>
      by_cases hl : k = l
      · subst hl
        have := hlast _ (if_pos rfl)
        simp only [channelUsers, Channels.exec] at hr
        repeat' split at hr
        all_goals
          cases hr
          simp [Fits, phaseOf, Frame.use, ChannelCode.use, ChannelCond.channel, channelUsers, this]
      · simp only [channelUsers, Channels.exec] at hr
        repeat' split at hr
        all_goals
          cases hr
          simp [Fits, phaseOf, Frame.use, ChannelCode.use, ChannelCond.channel, channelUsers, hl]
    | receiveLoop k =>
      by_cases hl : k = l
      · subst hl
        have := hlast _ (if_pos rfl)
        simp only [channelUsers, Channels.exec] at hr
        split at hr
        all_goals
          cases hr
          simp [Fits, phaseOf, Frame.use, ChannelCode.use, ChannelCond.channel, channelUsers, this]
      · simp only [channelUsers, Channels.exec] at hr
        split at hr
        all_goals
          cases hr
          simp [Fits, phaseOf, Frame.use, ChannelCode.use, ChannelCond.channel, channelUsers, hl]
    | pop k =>
      cases hr
      by_cases hl : k = l
      · subst hl
        have := hlast _ (if_pos rfl)
        simp [Fits, phaseOf, ChannelCode.use, this]
      · simp [Fits, phaseOf, ChannelCode.use, hl]
    | sendReturn k m | joinReturn t' | destroy =>
      cases hr
      simp [Fits, phaseOf, ChannelCode.use]

theorem channelUsers_plain (joinable : Tid → Bool) : PlainSystem (channelUsers joinable) where
  call := by
    intro i t sh r hr
    simp only [channelUsers, Channels.call] at hr
    split at hr
    · cases hr
    · cases i with
      | send n mensaje =>
        cases hr
        simp [Channels.send, Frame.Plain]
      | receive n =>
        cases hr
        simp [Channels.receive, Frame.Plain]
      | join t' =>
        simp only at hr
        split at hr
        · cases hr
          simp [Channels.receive, Frame.Plain]
        · cases hr
      | finish returnValue =>
        cases hr
        split <;> simp [Channels.send, Frame.Plain]
  exec := by
    intro code t sh r hr
    cases code
    all_goals
      simp only [channelUsers, Channels.exec] at hr
      repeat' split at hr
      all_goals
        cases hr
        try simp [Frame.Plain]

/-- The invariant of the primitives, for the channels. -/
abbrev ChannelsOk (joinable : Tid → Bool) (s : ChannelsState) : Prop :=
  ∃ init, SynchInv (channelDiscipline joinable) init s

namespace ChannelsOk

theorem start (joinable : Tid → Bool) (priority : Tid → Int) :
    ChannelsOk joinable (channelsStart priority) :=
  ⟨_, SynchInv.start (fun n => n.elim) fun _ _ => rfl⟩

theorem step {e : Event ChannelCall} (h : ChannelsOk joinable s)
    (hs : s.step (channelUsers joinable) e = some s') : ChannelsOk joinable s' := by
  obtain ⟨init, h⟩ := h
  exact ⟨init, h.step (channelUsers_plain joinable) hs⟩

/-- A thread whose first frame needs a lock holds it. -/
theorem owner {f : ChannelFrame} {rest : List ChannelFrame} {a : Phase} (h : ChannelsOk joinable s)
    (hstack : s.stack t = f :: rest)
    (huse : f.use ChannelCond.channel ChannelCode.use k = some ⟨.held, a⟩) :
    s.lockOwner k = some t := by
  obtain ⟨_, h⟩ := h
  refine ((h.locks.lock k).owner t).mpr ?_
  simp only [State.phase, hstack]
  simp only [phaseOf]
  rw [show f.use (channelUsers joinable).lockOf (channelDiscipline joinable).use k = _ from huse]

end ChannelsOk

/-! ## The stacks -/

/-- What comes after a `Send`: the end of `Finish` for the channel of a thread. -/
def sendTail : ChannelId → List ChannelFrame
  | .user _ => []
  | .thread _ => [.code .destroy]

/-- What comes after a `Receive`: the end of `Join` for the channel of a thread. -/
def receiveTail : ChannelId → List ChannelFrame
  | .user _ => []
  | .thread t => [.code (.joinReturn t)]

/-- What is left of a `Receive` that has found a message. -/
def receiveRest (k : ChannelId) : List ChannelFrame :=
  .code (.pop k) :: .signal (.send k) :: .release k :: receiveTail k

/-- The thread is in `Acquire`, or has the lock, before `rest`. -/
inductive Entering (k : ChannelId) (rest : List ChannelFrame) : List ChannelFrame → Prop where
  | acquire : Entering k rest (.acquire k :: rest)
  | p : Entering k rest (.p (.lock k) :: .own k :: rest)
  | own : Entering k rest (.own k :: rest)
  | inside : Entering k rest rest

/-- The thread is in `Release`, or has freed the lock, before `rest`. -/
inductive Leaving (k : ChannelId) (rest : List ChannelFrame) : List ChannelFrame → Prop where
  | release : Leaving k rest (.release k :: rest)
  | v : Leaving k rest (.v (.lock k) :: rest)
  | outside : Leaving k rest rest

/-- The thread is in a `Wait` with the semaphore `n`, before `rest`. -/
inductive Waiting (k : ChannelId) (n : Nat) (rest : List ChannelFrame) : List ChannelFrame → Prop where
  | releasing : Waiting k n rest (.release k :: .p (.sleeper n) :: .acquire k :: rest)
  | freeing : Waiting k n rest (.v (.lock k) :: .p (.sleeper n) :: .acquire k :: rest)
  | sleeping : Waiting k n rest (.p (.sleeper n) :: .acquire k :: rest)
  | entering {fs : List ChannelFrame} : Entering k rest fs → Waiting k n rest fs

/-- The stack shows this activity. -/
inductive Doing : List ChannelFrame → Activity → Prop where
  | idle : Doing [] .out
  | joinReturn {t : Tid} : Doing [.code (.joinReturn t)] .out
  | destroy : Doing [.code .destroy] .out
  | sendAppend {k : ChannelId} {mensaje : Int} {fs : List ChannelFrame} : Entering k (.code (.append k mensaje) :: sendTail k) fs →
      Doing fs (.sendAppend k mensaje)
  | sendSignal {k : ChannelId} {m : Mensaje} :
      Doing (.signal (.receive k) :: .code (.head k m) :: sendTail k) (.sendSignal k m)
  | sendRaise {k : ChannelId} {m : Mensaje} {n : Nat} : Doing (.v (.sleeper n) :: .code (.head k m) :: sendTail k) (.sendHead k m)
  | sendHead {k : ChannelId} {m : Mensaje} : Doing (.code (.head k m) :: sendTail k) (.sendHead k m)
  | sendLoop {k : ChannelId} {m : Mensaje} {b : Int} : Doing (.code (.sendLoop k m b) :: sendTail k) (.sendLoop k m b)
  | sendWait {k : ChannelId} {m : Mensaje} {b : Int} :
      Doing (.wait (.send k) :: .code (.sendLoop k m b) :: sendTail k) (.sendWait k m b)
  | sendWaiting {k : ChannelId} {m : Mensaje} {b : Int} {n : Nat} {fs : List ChannelFrame} :
      Waiting k n (.waitReturn (.send k) n :: .code (.sendLoop k m b) :: sendTail k) fs →
      Doing fs (.sendWaiting k m b n)
  | sendReturn {k : ChannelId} {m : Mensaje} {fs : List ChannelFrame} : Leaving k (.code (.sendReturn k m) :: sendTail k) fs →
      Doing fs (.sendReturn k m)
  | receiveLoop {k : ChannelId} {fs : List ChannelFrame} : Entering k (.code (.receiveLoop k) :: receiveRest k) fs →
      Doing fs (.receiveLoop k)
  | receiveWait {k : ChannelId} :
      Doing (.wait (.receive k) :: .code (.receiveLoop k) :: receiveRest k) (.receiveWait k)
  | receiveWaiting {k : ChannelId} {n : Nat} {fs : List ChannelFrame} :
      Waiting k n (.waitReturn (.receive k) n :: .code (.receiveLoop k) :: receiveRest k) fs →
      Doing fs (.receiveWaiting k n)
  | receivePop {k : ChannelId} : Doing (receiveRest k) (.receivePop k)
  | receiveSignal {k : ChannelId} : Doing (.signal (.send k) :: .release k :: receiveTail k) (.receiveSignal k)
  | receiveRaise {k : ChannelId} {n : Nat} : Doing (.v (.sleeper n) :: .release k :: receiveTail k) .out
  | receiveLeave {k : ChannelId} {fs : List ChannelFrame} : Leaving k (receiveTail k) fs → Doing fs .out

theorem doing_sendTail (k : ChannelId) : Doing (sendTail k) .out := by
  cases k with
  | user n => exact .idle
  | thread t => exact .destroy

/-! ## Steps inside a lock -/

section Inside

variable {f : ChannelFrame} {frames rest : List ChannelFrame} {n : Nat}

theorem channelView_p {j : SemId ChannelId Empty} : channelView (s.p t j rest) = channelView s := by
  simp only [State.p]
  split <;> rfl

theorem channelView_v {j : SemId ChannelId Empty} : channelView (s.v t j rest) = channelView s := by
  simp only [State.v]
  split <;> rfl

/-- The lock has no owner when a thread is past the `P` of its `Acquire`. -/
theorem ChannelsOk.no_owner (h : ChannelsOk joinable s) (hstack : s.stack t = .own k :: rest) :
    s.lockOwner k = none := by
  obtain ⟨_, h⟩ := h
  have hgot : s.phase (channelDiscipline joinable) t k = .got := by
    simp [State.phase, hstack, phaseOf, Frame.use]
  by_contra hne
  obtain ⟨u, hu⟩ := Option.ne_none_iff_exists'.mp hne
  have hheld := ((h.locks.lock k).owner u).mp hu
  have hut := (h.locks.lock k).unique u t (by rw [hheld]; simp) (by rw [hgot]; simp)
  rw [hut, hgot] at hheld
  cases hheld

/-- A step in `Acquire`. -/
theorem Entering.exec (h : ChannelsOk joinable s) (he : Entering k rest (f :: frames))
    (hstack : s.stack t = f :: frames)
    (hexec : s.execFrame (channelUsers joinable) t f frames = some s') :
    f :: frames = rest ∨ (Entering k rest (s'.stack t) ∧ (channelView s' = channelView s ∨
      (s.lockOwner k = none ∧ channelView s' = (channelView s).enter k t))) := by
  cases he with
  | acquire =>
    simp only [State.execFrame] at hexec
    split at hexec
    · cases hexec
    · cases hexec
      refine .inr ⟨?_, .inl rfl⟩
      simpa [State.setStack] using Entering.p
  | p =>
    cases hexec
    refine .inr ⟨?_, .inl channelView_p⟩
    simp only [State.p]
    split
    · simpa [hstack] using Entering.p
    · simpa using Entering.own
  | own =>
    cases hexec
    refine .inr ⟨?_, .inr ⟨h.no_owner hstack, rfl⟩⟩
    simpa [State.setStack] using Entering.inside
  | inside => exact .inl rfl

/-- A step in `Release`. -/
theorem Leaving.exec (he : Leaving k rest (f :: frames)) (hstack : s.stack t = f :: frames)
    (hexec : s.execFrame (channelUsers joinable) t f frames = some s') :
    f :: frames = rest ∨ (Leaving k rest (s'.stack t) ∧ (channelView s' = channelView s ∨
      (s.lockOwner k = some t ∧ channelView s' = (channelView s).leave k))) := by
  cases he with
  | release =>
    simp only [State.execFrame] at hexec
    split at hexec
    · rename_i hheld
      cases hexec
      refine .inr ⟨?_, .inr ⟨by simpa [State.isHeldByCurrentThread] using hheld, rfl⟩⟩
      simpa [State.setStack] using Leaving.v
    · cases hexec
  | v =>
    cases hexec
    refine .inr ⟨?_, .inl channelView_v⟩
    rw [CondInv.stack_v]
    exact .outside
  | outside => exact .inl rfl

/-- A step in `Wait`. -/
theorem Waiting.exec (h : ChannelsOk joinable s) (he : Waiting k n rest (f :: frames))
    (hstack : s.stack t = f :: frames)
    (hexec : s.execFrame (channelUsers joinable) t f frames = some s') :
    f :: frames = rest ∨ (Waiting k n rest (s'.stack t) ∧ (channelView s' = channelView s ∨
      (s.lockOwner k = none ∧ channelView s' = (channelView s).enter k t) ∨
      (s.lockOwner k = some t ∧ channelView s' = (channelView s).leave k))) := by
  cases he with
  | releasing =>
    simp only [State.execFrame] at hexec
    split at hexec
    · rename_i hheld
      cases hexec
      refine .inr ⟨?_, .inr (.inr ⟨by simpa [State.isHeldByCurrentThread] using hheld, rfl⟩)⟩
      simpa [State.setStack] using Waiting.freeing
    · cases hexec
  | freeing =>
    cases hexec
    refine .inr ⟨?_, .inl channelView_v⟩
    rw [CondInv.stack_v]
    exact .sleeping
  | sleeping =>
    cases hexec
    refine .inr ⟨?_, .inl channelView_p⟩
    simp only [State.p]
    split
    · simpa [hstack] using Waiting.sleeping
    · simpa using Waiting.entering .acquire
  | entering he =>
    rcases he.exec h hstack hexec with hrest | ⟨he', hview | hview⟩
    · exact .inl hrest
    · exact .inr ⟨.entering he', .inl hview⟩
    · exact .inr ⟨.entering he', .inr (.inl hview)⟩

end Inside

/-! ## Every step is a move -/

section Moves

variable {f : ChannelFrame} {frames rest : List ChannelFrame} {a : Activity}

/-- A step inside a `Wait`, for an activity that owes nothing. -/
theorem Waiting.move {n : Nat} (h : ChannelsOk joinable s) (he : Waiting k n rest (f :: frames))
    (hstack : s.stack t = f :: frames)
    (hexec : s.execFrame (channelUsers joinable) t f frames = some s') (ha : a.Calm) :
    f :: frames = rest ∨
      (Waiting k n rest (s'.stack t) ∧ ChannelMove (channelView s) t (channelView s') a a) := by
  rcases he.exec h hstack hexec with hrest | ⟨he', hview | ⟨ho, hview⟩ | ⟨ho, hview⟩⟩
  · exact .inl hrest
  · exact .inr ⟨he', by rw [hview]; exact .silent⟩
  · exact .inr ⟨he', by rw [hview]; exact .enter (.inl ha) ho⟩
  · exact .inr ⟨he', by rw [hview]; exact .leave ha ho⟩

/-- A step inside an `Acquire`. -/
theorem Entering.move (h : ChannelsOk joinable s) (he : Entering k rest (f :: frames))
    (hstack : s.stack t = f :: frames)
    (hexec : s.execFrame (channelUsers joinable) t f frames = some s')
    (ha : a.Calm ∨ a = .receiveLoop k) :
    f :: frames = rest ∨
      (Entering k rest (s'.stack t) ∧ ChannelMove (channelView s) t (channelView s') a a) := by
  rcases he.exec h hstack hexec with hrest | ⟨he', hview | ⟨ho, hview⟩⟩
  · exact .inl hrest
  · exact .inr ⟨he', by rw [hview]; exact .silent⟩
  · exact .inr ⟨he', by rw [hview]; exact .enter ha ho⟩

/-- A step inside a `Release`. -/
theorem Leaving.move (he : Leaving k rest (f :: frames)) (hstack : s.stack t = f :: frames)
    (hexec : s.execFrame (channelUsers joinable) t f frames = some s') (ha : a.Calm) :
    f :: frames = rest ∨
      (Leaving k rest (s'.stack t) ∧ ChannelMove (channelView s) t (channelView s') a a) := by
  rcases he.exec hstack hexec with hrest | ⟨he', hview | ⟨ho, hview⟩⟩
  · exact .inl hrest
  · exact .inr ⟨he', by rw [hview]; exact .silent⟩
  · exact .inr ⟨he', by rw [hview]; exact .leave ha ho⟩

/-- The end of `Join`. -/
theorem joinReturn_move {t' : Tid}
    (hexec : s.execFrame (channelUsers joinable) t (.code (.joinReturn t')) [] = some s') :
    Doing (s'.stack t) .out ∧ ChannelMove (channelView s) t (channelView s') .out .out := by
  cases hexec
  refine ⟨?_, .joinReturn⟩
  simpa [State.setStack] using Doing.idle

/-- Every step of a thread is a move. -/
theorem exec_move (h : ChannelsOk joinable s) (hd : Doing (s.stack t) a)
    (hstack : s.stack t = f :: frames)
    (hexec : s.execFrame (channelUsers joinable) t f frames = some s') :
    ∃ a', Doing (s'.stack t) a' ∧ ChannelMove (channelView s) t (channelView s') a a' := by
  obtain ⟨init, hinv⟩ := id h
  obtain ⟨role, status, hc⟩ := hinv.cond
  rw [hstack] at hd
  cases hd with
  | joinReturn => exact ⟨_, joinReturn_move hexec⟩
  | destroy =>
    cases hexec
    refine ⟨.out, ?_, .destroy⟩
    simpa [State.setStack] using Doing.idle
  | sendAppend he =>
    rcases he.move (a := .sendAppend _ _) h hstack hexec (.inl trivial) with hrest | ⟨he', hmove⟩
    · cases hrest
      cases hexec
      refine ⟨_, ?_, .append (h.owner hstack (if_pos rfl))⟩
      simp only [State.setStack, Function.update_self]
      exact .sendSignal
    · exact ⟨_, .sendAppend he', hmove⟩
  | sendSignal =>
    have ho := h.owner hstack (k := _) (if_pos rfl)
    simp only [State.execFrame] at hexec
    split at hexec
    · split at hexec
      · rename_i hq
        cases hexec
        refine ⟨_, ?_, .signalReceiveNone ho hq⟩
        simpa [State.setStack] using Doing.sendHead
      · rename_i n q hq
        cases hexec
        refine ⟨_, ?_, .signalReceive ho hq (hc.notMem_returns (by rw [hq]; simp))⟩
        simpa [State.setStack] using Doing.sendRaise
    · cases hexec
  | sendRaise =>
    cases hexec
    refine ⟨_, ?_, by rw [channelView_v]; exact .silent⟩
    rw [CondInv.stack_v]
    exact .sendHead
  | sendHead =>
    have ho := h.owner hstack (k := _) (if_pos rfl)
    simp only [State.execFrame, channelUsers, Channels.exec, Option.map_eq_some_iff] at hexec
    obtain ⟨r, hr, rfl⟩ := hexec
    split at hr
    · cases hr
    · rename_i first rest hbuzon
      cases hr
      have hb : (if first.value ≠ 0 then first.value else 0) = first.value := by
        split <;> simp_all
      refine ⟨_, ?_, .head ho hbuzon⟩
      rw [hb]
      simpa [State.setStack] using Doing.sendLoop
  | sendLoop =>
    have ho := h.owner hstack (k := _) (if_pos rfl)
    simp only [State.execFrame, channelUsers, Channels.exec, Option.map_eq_some_iff] at hexec
    obtain ⟨r, hr, rfl⟩ := hexec
    split at hr
    · rename_i hbuzon
      cases hr
      refine ⟨_, ?_, .loopExit ho ?_⟩
      · simpa [State.setStack] using Doing.sendReturn .release
      · intro first rest hcons
        rw [show (channelView s).shared = s.shared from rfl, hbuzon] at hcons
        cases hcons
    · rename_i first rest hbuzon
      split at hr
      · rename_i hb
        subst hb
        cases hr
        refine ⟨_, ?_, .loopWait ho hbuzon⟩
        simpa [State.setStack] using Doing.sendWait
      · rename_i hb
        cases hr
        refine ⟨_, ?_, .loopExit ho ?_⟩
        · simpa [State.setStack] using Doing.sendReturn .release
        · intro first' rest' hcons
          rw [show (channelView s).shared = s.shared from rfl, hbuzon] at hcons
          cases hcons
          exact hb
  | sendWait =>
    have ho := h.owner hstack (k := _) (if_pos rfl)
    simp only [State.execFrame] at hexec
    split at hexec
    · cases hexec
      refine ⟨_, ?_, .waitSend ho (hc.sleepers_notMem _)⟩
      simp only [State.setStack, Function.update_self]
      exact .sendWaiting .releasing
    · cases hexec
  | sendWaiting he =>
    rcases he.move (a := .sendWaiting _ _ _ _) h hstack hexec trivial with hrest | ⟨he', hmove⟩
    · cases hrest
      cases hexec
      refine ⟨_, ?_, .waitReturnSend (h.owner hstack (if_pos rfl)) (hinv.notMem_cola hstack)⟩
      simpa [State.setStack, State.addLog] using Doing.sendLoop
    · exact ⟨_, .sendWaiting he', hmove⟩
  | sendReturn he =>
    rcases he.move (a := .sendReturn _ _) hstack hexec trivial with hrest | ⟨he', hmove⟩
    · cases hrest
      cases hexec
      refine ⟨_, ?_, .sendReturn⟩
      simpa [State.setStack] using doing_sendTail _
    · exact ⟨_, .sendReturn he', hmove⟩
  | receiveLoop he =>
    rcases he.move h hstack hexec (.inr rfl) with hrest | ⟨he', hmove⟩
    · cases hrest
      have ho := h.owner hstack (k := _) (if_pos rfl)
      simp only [State.execFrame, channelUsers, Channels.exec, Option.map_eq_some_iff] at hexec
      obtain ⟨r, hr, rfl⟩ := hexec
      split at hr
      · rename_i hempty
        cases hr
        refine ⟨_, ?_, .receiveEmpty ho (List.isEmpty_iff.mp hempty)⟩
        simpa [State.setStack] using Doing.receiveWait
      · rename_i hempty
        cases hr
        refine ⟨_, ?_, .receiveFound ho fun hnil => hempty (List.isEmpty_iff.mpr hnil)⟩
        simpa [State.setStack] using Doing.receivePop
    · exact ⟨_, .receiveLoop he', hmove⟩
  | receiveWait =>
    have ho := h.owner hstack (k := _) (if_pos rfl)
    simp only [State.execFrame] at hexec
    split at hexec
    · cases hexec
      refine ⟨_, ?_, .waitReceive ho⟩
      simp only [State.setStack, Function.update_self]
      exact .receiveWaiting .releasing
    · cases hexec
  | receiveWaiting he =>
    rcases he.move (a := .receiveWaiting _ _) h hstack hexec trivial with hrest | ⟨he', hmove⟩
    · cases hrest
      cases hexec
      refine ⟨_, ?_, .waitReturnReceive (h.owner hstack (if_pos rfl)) (hc.selects_nodup _)⟩
      simpa [State.setStack, State.addLog] using Doing.receiveLoop .inside
    · exact ⟨_, .receiveWaiting he', hmove⟩
  | receivePop =>
    have ho := h.owner hstack (k := _) (if_pos rfl)
    cases hexec
    refine ⟨_, ?_, .pop ho⟩
    simpa [State.setStack] using Doing.receiveSignal
  | receiveSignal =>
    have ho := h.owner hstack (k := _) (if_pos rfl)
    simp only [State.execFrame] at hexec
    split at hexec
    · split at hexec
      · rename_i hq
        cases hexec
        refine ⟨_, ?_, .signalSendNone ho hq⟩
        simpa [State.setStack] using Doing.receiveLeave .release
      · rename_i n q hq
        cases hexec
        have hnd : (n :: q).Nodup := by
          rw [← hq]
          exact hc.cola_nodup _
        refine ⟨_, ?_, .signalSend ho hq (List.nodup_cons.mp hnd).1⟩
        simpa [State.setStack] using Doing.receiveRaise
    · cases hexec
  | receiveRaise =>
    cases hexec
    refine ⟨_, ?_, by rw [channelView_v]; exact .silent⟩
    rw [CondInv.stack_v]
    exact .receiveLeave .release
  | receiveLeave he =>
    rcases he.move hstack hexec (a := .out) trivial with hrest | ⟨he', hmove⟩
    · rename_i k'
      cases k' with
      | user n => cases hrest
      | thread t' =>
        cases hrest
        exact ⟨_, joinReturn_move hexec⟩
    · exact ⟨_, .receiveLeave he', hmove⟩

end Moves

end Nachos.Synch
