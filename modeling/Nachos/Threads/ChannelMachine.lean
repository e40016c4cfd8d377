import Nachos.Threads.Channel
import Nachos.Threads.Conditions

/-!
# The machine behind the channels

What a thread is doing with a channel, without the inner steps of the locks and semaphores, and the
moves that it can make. The moves read and change only a part of the state, the `ChannelView`.
-/

namespace Nachos.Synch

/-! ## Activities -/

/-- What a thread is doing with a channel. Only some of the activities need the lock of the channel; a
thread that is in `Acquire` has the activity that follows it. -/
inductive Activity where
  /-- Nothing, or leaving a `Receive`. -/
  | out
  | sendAppend (k : ChannelId) (mensaje : Int)
  | sendSignal (k : ChannelId) (m : Mensaje)
  | sendHead (k : ChannelId) (m : Mensaje)
  | sendLoop (k : ChannelId) (m : Mensaje) (b : Int)
  | sendWait (k : ChannelId) (m : Mensaje) (b : Int)
  /-- In `Wait`, with the semaphore `n`. -/
  | sendWaiting (k : ChannelId) (m : Mensaje) (b : Int) (n : Nat)
  | sendReturn (k : ChannelId) (m : Mensaje)
  | receiveLoop (k : ChannelId)
  | receiveWait (k : ChannelId)
  /-- In `Wait`, with the semaphore `n`. -/
  | receiveWaiting (k : ChannelId) (n : Nat)
  | receivePop (k : ChannelId)
  | receiveSignal (k : ChannelId)
deriving DecidableEq

namespace Activity

/-- The channel of the activity. -/
def channel : Activity → Option ChannelId
  | .out => none
  | .sendAppend k _ | .sendSignal k _ | .sendHead k _ | .sendLoop k _ _ | .sendWait k _ _
  | .sendWaiting k _ _ _ | .sendReturn k _ | .receiveLoop k | .receiveWait k | .receiveWaiting k _
  | .receivePop k | .receiveSignal k => some k

/-- The message of a `Send`, from the moment when it is in the mailbox. -/
def message : Activity → Option (ChannelId × Mensaje)
  | .sendSignal k m | .sendHead k m | .sendLoop k m _ | .sendWait k m _ | .sendWaiting k m _ _
  | .sendReturn k m => some (k, m)
  | _ => none

/-- The channel of a `Send` that has not returned. -/
def sending : Activity → Option ChannelId
  | .sendAppend k _ | .sendSignal k _ | .sendHead k _ | .sendLoop k _ _ | .sendWait k _ _
  | .sendWaiting k _ _ _ | .sendReturn k _ => some k
  | _ => none

/-- The channel of a `Receive` that has not removed a message yet. -/
def receiving : Activity → Option ChannelId
  | .receiveLoop k | .receiveWait k | .receiveWaiting k _ | .receivePop k => some k
  | _ => none

/-- One if a `Receive` on `k` has removed a message and not yet signalled. -/
def popped (k : ChannelId) : Activity → Nat
  | .receiveSignal k' => if k' = k then 1 else 0
  | _ => 0

/-- One if a `Send` on `k` has appended its message, which is still there, and not yet waited. -/
def appended (k : ChannelId) (received : Nat) : Activity → Nat
  | .sendSignal k' m | .sendHead k' m | .sendLoop k' m _ | .sendWait k' m _ =>
    if k' = k ∧ received ≤ m.id then 1 else 0
  | _ => 0

/-- One for a message of `k` that is taken care of: its `Send` is about to signal, or a receiver that
has the lock is about to find it. -/
def covered (k : ChannelId) : Activity → Nat
  | .sendSignal k' _ | .receiveLoop k' | .receivePop k' => if k' = k then 1 else 0
  | _ => 0

end Activity

/-! ## The view -/

/-- The part of the state that the moves read and change. -/
structure ChannelView where
  lockOwner : ChannelId → Option Tid
  cola : ChannelCond → List Nat
  log : ChannelCond → List CondEvent
  sleepers : Nat
  shared : Channels

/-- The view of a state. -/
def channelView (s : ChannelsState) : ChannelView :=
  ⟨s.lockOwner, s.colaProcesosDormidos, s.log, s.sleepers, s.shared⟩

/-- The activity of the thread that holds the lock of the channel. -/
def ChannelView.stage (w : ChannelView) (act : Tid → Activity) (k : ChannelId) : Activity :=
  (w.lockOwner k).elim .out act

namespace ChannelView

/-- The thread gets the lock of the channel in the view. -/
def enter (w : ChannelView) (k : ChannelId) (t : Tid) : ChannelView :=
  { w with lockOwner := Function.update w.lockOwner k (some t) }

/-- The thread frees the lock of the channel in the view. -/
def leave (w : ChannelView) (k : ChannelId) : ChannelView :=
  { w with lockOwner := Function.update w.lockOwner k none }

/-- The thread `t` joins the queue of `c`. -/
def wait (w : ChannelView) (c : ChannelCond) (t : Tid) : ChannelView :=
  { w with
    cola := Function.update w.cola c (w.cola c ++ [w.sleepers])
    log := Function.update w.log c (w.log c ++ [.wait t w.sleepers])
    sleepers := w.sleepers + 1 }

/-- The thread `t` selects the first waiter `n` of `c`, and `q` are the others. -/
def select (w : ChannelView) (c : ChannelCond) (t : Tid) (n : Nat) (q : List Nat) : ChannelView :=
  { w with
    cola := Function.update w.cola c q
    log := Function.update w.log c (w.log c ++ [.select t n]) }

/-- The `Wait` of the thread `t` returns. -/
def waitReturn (w : ChannelView) (c : ChannelCond) (t : Tid) (n : Nat) : ChannelView :=
  { w with log := Function.update w.log c (w.log c ++ [.waitReturn t n]) }

end ChannelView

/-! ## Moves -/

/-- Not about to change the mailbox, to signal or to wait: when a thread with such an activity takes or
frees the lock nothing is owed. -/
def Activity.Calm : Activity → Prop
  | .sendAppend _ _ | .sendWaiting _ _ _ _ | .receiveWaiting _ _ | .sendReturn _ _ | .out => True
  | _ => False

/-- A move of the thread `t`, with its activities before and after it. The guards about the queues and
logs say what the conditions guarantee. -/
inductive ChannelMove (w : ChannelView) (t : Tid) :
    ChannelView → Activity → Activity → Prop where
  | silent {a} : ChannelMove w t w a a
  | enter {a k} : a.Calm ∨ a = .receiveLoop k → w.lockOwner k = none → ChannelMove w t (w.enter k t) a a
  | leave {a k} : a.Calm → w.lockOwner k = some t → ChannelMove w t (w.leave k) a a
  | append {k mensaje} : w.lockOwner k = some t →
      ChannelMove w t { w with shared := (w.shared.append k mensaje).2 } (.sendAppend k mensaje)
        (.sendSignal k (w.shared.append k mensaje).1)
  | signalReceiveNone {k m} : w.lockOwner k = some t → w.cola (.receive k) = [] →
      ChannelMove w t w (.sendSignal k m) (.sendHead k m)
  | signalReceive {k m n q} : w.lockOwner k = some t → w.cola (.receive k) = n :: q →
      n ∉ returns (w.log (.receive k)) →
      ChannelMove w t (w.select (.receive k) t n q) (.sendSignal k m) (.sendHead k m)
  | head {k m first rest} : w.lockOwner k = some t → (w.shared.channel k).buzon = first :: rest →
      ChannelMove w t w (.sendHead k m) (.sendLoop k m first.value)
  | loopWait {k m first rest} : w.lockOwner k = some t →
      (w.shared.channel k).buzon = first :: rest →
      ChannelMove w t w (.sendLoop k m first.value) (.sendWait k m first.value)
  | loopExit {k m b} : w.lockOwner k = some t →
      (∀ first rest, (w.shared.channel k).buzon = first :: rest → b ≠ first.value) →
      ChannelMove w t w (.sendLoop k m b) (.sendReturn k m)
  | waitSend {k m b} : w.lockOwner k = some t → w.sleepers ∉ w.cola (.send k) →
      ChannelMove w t (w.wait (.send k) t) (.sendWait k m b) (.sendWaiting k m b w.sleepers)
  | waitReturnSend {k m b n} : w.lockOwner k = some t → n ∉ w.cola (.send k) →
      ChannelMove w t (w.waitReturn (.send k) t n) (.sendWaiting k m b n) (.sendLoop k m b)
  | sendReturn {k m} :
      ChannelMove w t { w with shared := w.shared.setChannel k { w.shared.channel k with
        returned := (w.shared.channel k).returned ++ [m] } } (.sendReturn k m) .out
  | receiveEmpty {k} : w.lockOwner k = some t → (w.shared.channel k).buzon = [] →
      ChannelMove w t w (.receiveLoop k) (.receiveWait k)
  | receiveFound {k} : w.lockOwner k = some t → (w.shared.channel k).buzon ≠ [] →
      ChannelMove w t w (.receiveLoop k) (.receivePop k)
  | waitReceive {k} : w.lockOwner k = some t →
      ChannelMove w t (w.wait (.receive k) t) (.receiveWait k) (.receiveWaiting k w.sleepers)
  | waitReturnReceive {k n} : w.lockOwner k = some t → (selects (w.log (.receive k))).Nodup →
      ChannelMove w t (w.waitReturn (.receive k) t n) (.receiveWaiting k n) (.receiveLoop k)
  | pop {k} : w.lockOwner k = some t →
      ChannelMove w t { w with shared := w.shared.pop k t } (.receivePop k) (.receiveSignal k)
  | signalSendNone {k} : w.lockOwner k = some t → w.cola (.send k) = [] →
      ChannelMove w t w (.receiveSignal k) .out
  | signalSend {k n q} : w.lockOwner k = some t → w.cola (.send k) = n :: q → n ∉ q →
      ChannelMove w t (w.select (.send k) t n q) (.receiveSignal k) .out
  | joinReturn {t'} : ChannelMove w t { w with shared := { w.shared with
      joined := w.shared.joined ++ [(t, t', w.shared.mensaje t)] } } .out .out
  | destroy : ChannelMove w t { w with shared := { w.shared with
      destroyed := Function.update w.shared.destroyed t true } } .out .out

end Nachos.Synch
