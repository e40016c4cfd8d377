import Nachos.Threads.Discipline

/-!
# Channels

`Channel` of `threads/channel.cc`, and `Thread::Join` and `Thread::Finish`, which use the channel of the
thread. Any number of threads call `Send`, `Receive`, `Join` and `Finish`, in any order. Every `Send`
numbers its message, and the mailbox records what was appended and removed; the source has neither.
-/

namespace Nachos.Synch

/-- The channels: those of the programs, and the `threadChannel` of each thread. -/
inductive ChannelId where
  | user (n : Nat)
  | thread (t : Tid)
deriving DecidableEq

/-- The conditions of a channel, `BloqueanteSend` and `BloqueanteReceive`. Their lock is `Acceso`, which
goes by the name of the channel. -/
inductive ChannelCond where
  | send (k : ChannelId)
  | receive (k : ChannelId)
deriving DecidableEq

/-- The channel of a condition. -/
def ChannelCond.channel : ChannelCond → ChannelId
  | .send k | .receive k => k

/-- A message, with the number of the `Send` that appended it. -/
structure Mensaje where
  id : Nat
  value : Int
deriving DecidableEq

/-- The mailbox of a channel, all the messages that were appended and removed, and those whose `Send`
returned. -/
structure Channel where
  buzon : List Mensaje
  sent : List Mensaje
  received : List Mensaje
  returned : List Mensaje

/-- What the threads share. -/
structure Channels where
  channel : ChannelId → Channel
  /-- Where the `Receive` of each thread stores the message. -/
  mensaje : Tid → Int
  /-- The value with which a thread called `Finish`. -/
  finished : Tid → Option Int
  destroyed : Tid → Bool
  /-- The calls of `Join`: the caller and the thread. -/
  joins : List (Tid × Tid)
  /-- The calls of `Join` that returned: the caller, the thread and the value. -/
  joined : List (Tid × Tid × Int)

/-- The code of the routines between their uses of the primitives. -/
inductive ChannelCode where
  /-- `Send`: the message is appended. -/
  | append (k : ChannelId) (mensaje : Int)
  /-- `Send`, with its message `m`: the first value of the mailbox is remembered. -/
  | head (k : ChannelId) (m : Mensaje)
  /-- The loop of `Send`, with the value that it remembers. -/
  | sendLoop (k : ChannelId) (m : Mensaje) (b : Int)
  /-- `Send` returns. -/
  | sendReturn (k : ChannelId) (m : Mensaje)
  /-- The loop of `Receive`. -/
  | receiveLoop (k : ChannelId)
  /-- `Receive`: the first message is removed. -/
  | pop (k : ChannelId)
  /-- `Join` on the thread `t` returns. -/
  | joinReturn (t : Tid)
  /-- The end of `Finish`: the thread is to be destroyed and sleeps, and the thread that runs next
  destroys it. -/
  | destroy

abbrev ChannelFrame := Frame ChannelId ChannelCond Empty ChannelCode

namespace Channels

def setChannel (sh : Channels) (k : ChannelId) (ch : Channel) : Channels :=
  { sh with channel := Function.update sh.channel k ch }

/-- `Channel::Send`. -/
def send (k : ChannelId) (mensaje : Int) : List ChannelFrame :=
  [.acquire k, .code (.append k mensaje)]

/-- `Channel::Receive`. -/
def receive (k : ChannelId) : List ChannelFrame :=
  [.acquire k, .code (.receiveLoop k), .code (.pop k), .signal (.send k), .release k]

/-- `buzon->Append`; the message gets its number. -/
def append (sh : Channels) (k : ChannelId) (mensaje : Int) : Mensaje × Channels :=
  let ch := sh.channel k
  let m : Mensaje := ⟨ch.sent.length, mensaje⟩
  (m, sh.setChannel k { ch with buzon := ch.buzon ++ [m], sent := ch.sent ++ [m] })

/-- `*mensaje = buzon->Pop()` by the thread `t`. An empty list yields `Item()`, which no `Send`
appended. -/
def pop (sh : Channels) (k : ChannelId) (t : Tid) : Channels :=
  let ch := sh.channel k
  match ch.buzon with
  | [] =>
    { sh.setChannel k { ch with received := ch.received ++ [⟨ch.sent.length, 0⟩] } with
      mensaje := Function.update sh.mensaje t 0 }
  | m :: buzon =>
    { sh.setChannel k { ch with buzon := buzon, received := ch.received ++ [m] } with
      mensaje := Function.update sh.mensaje t m.value }

/-- A piece of code, with the frames that come next; `none` is a failed `ASSERT`. -/
def exec (code : ChannelCode) (t : Tid) (sh : Channels) : Option (Channels × List ChannelFrame) :=
  match code with
  | .append k mensaje =>
    let (m, sh') := sh.append k mensaje
    some (sh', [.signal (.receive k), .code (.head k m)])
  | .head k m => match (sh.channel k).buzon with
    | [] => none
    -- `b` is zero from the beginning, so the test for zero makes no difference
    | first :: _ => some (sh, [.code (.sendLoop k m (if first.value ≠ 0 then first.value else 0))])
  | .sendLoop k m b => match (sh.channel k).buzon with
    | [] => some (sh, [.release k, .code (.sendReturn k m)])
    | first :: _ =>
      if b = first.value then some (sh, [.wait (.send k), .code (.sendLoop k m b)])
      else some (sh, [.release k, .code (.sendReturn k m)])
  | .sendReturn k m =>
    let ch := sh.channel k
    some (sh.setChannel k { ch with returned := ch.returned ++ [m] }, [])
  | .receiveLoop k =>
    if (sh.channel k).buzon.isEmpty then some (sh, [.wait (.receive k), .code (.receiveLoop k)])
    else some (sh, [])
  | .pop k => some (sh.pop k t, [])
  | .joinReturn t' => some ({ sh with joined := sh.joined ++ [(t, t', sh.mensaje t)] }, [])
  | .destroy => some ({ sh with destroyed := Function.update sh.destroyed t true }, [])

end Channels

/-- The calls of a thread. -/
inductive ChannelCall where
  | send (n : Nat) (mensaje : Int)
  | receive (n : Nat)
  /-- `t->Join()`. -/
  | join (t : Tid)
  /-- `Thread::Finish`. -/
  | finish (returnValue : Int)

/-- A call by the thread `t`, with the frames of the routine; a thread that was destroyed makes no call
and is not joined. -/
def Channels.call (joinable : Tid → Bool) (c : ChannelCall) (t : Tid) (sh : Channels) :
    Option (Channels × List ChannelFrame) :=
  if sh.destroyed t then none
  else match c with
    | .send n mensaje => some (sh, Channels.send (.user n) mensaje)
    | .receive n => some (sh, Channels.receive (.user n))
    | .join t' =>
      if joinable t' ∧ sh.destroyed t' = false then
        some ({ sh with
            mensaje := Function.update sh.mensaje t 0
            joins := sh.joins ++ [(t, t')] },
          Channels.receive (.thread t') ++ [.code (.joinReturn t')])
      else none
    | .finish returnValue =>
      some ({ sh with finished := Function.update sh.finished t (some returnValue) },
        (if joinable t then Channels.send (.thread t) returnValue else []) ++ [.code .destroy])

/-- Threads that use channels, of which some are joinable. -/
def channelUsers (joinable : Tid → Bool) :
    System ChannelId ChannelCond Empty ChannelCode ChannelCall Channels where
  lockOf := ChannelCond.channel
  call := Channels.call joinable
  exec := Channels.exec

/-- The channels at the beginning. -/
def Channels.start : Channels where
  channel := fun _ => ⟨[], [], [], []⟩
  mensaje := fun _ => 0
  finished := fun _ => none
  destroyed := fun _ => false
  joins := []
  joined := []

abbrev ChannelsState := State ChannelId ChannelCond Empty ChannelCode Channels

/-- The state of the system at the beginning. -/
def channelsStart (priority : Tid → Int) : ChannelsState :=
  State.start Empty.elim priority Channels.start

/-! ## Threads inside the routines -/

/-- The channel that a piece of code belongs to. -/
def ChannelCode.channel : ChannelCode → Option ChannelId
  | .append k _ | .head k _ | .sendLoop k _ _ | .sendReturn k _ | .receiveLoop k | .pop k => some k
  | .joinReturn _ | .destroy => none

/-- The channel that a frame of `Send` or `Receive` belongs to. -/
def channelOf : ChannelFrame → Option ChannelId
  | .p (.lock k) | .v (.lock k) | .acquire k | .own k | .release k => some k
  | .wait c | .waitReturn c _ | .signal c | .broadcast c _ => some c.channel
  | .code code => code.channel
  | _ => none

/-- The code of `Send`. -/
def ChannelCode.IsSend (k : ChannelId) : ChannelCode → Prop
  | .append k' _ | .head k' _ | .sendLoop k' _ _ | .sendReturn k' _ => k' = k
  | _ => False

/-- The thread `t` is inside `Send` or `Receive` on the channel `k`. -/
def ChannelsState.Inside (s : ChannelsState) (t : Tid) (k : ChannelId) : Prop :=
  ∃ f ∈ s.stack t, channelOf f = some k

/-- The thread `t` is inside `Send` on the channel `k`. -/
def ChannelsState.InSend (s : ChannelsState) (t : Tid) (k : ChannelId) : Prop :=
  ∃ code, .code code ∈ s.stack t ∧ code.IsSend k

/-- No thread inside `Send` or `Receive` on the channel can take a step. -/
def ChannelsState.Quiescent (s : ChannelsState) (k : ChannelId) : Prop :=
  ∀ t, s.Inside t k → s.asleep t = true

/-- What comes next is the loop of a `Send` whose own message is gone, while another message with the
value that it remembers is at the head of the mailbox. -/
def repeats (sh : Channels) : List ChannelFrame → Bool
  | .code (.sendLoop k m b) :: _ => decide (m ∉ (sh.channel k).buzon) &&
    (sh.channel k).buzon.head?.map Mensaje.value == some b
  | _ => false

/-- The step does not make a sender wait again after its message is gone. -/
def NoRepeat (s : ChannelsState) : Event ChannelCall → Prop
  | .call _ _ => True
  | .exec t => repeats s.shared (s.stack t) = false

instance NoRepeat.decidable (s : ChannelsState) : DecidablePred (NoRepeat s)
  | .call _ _ => inferInstanceAs (Decidable True)
  | .exec t => inferInstanceAs (Decidable (repeats s.shared (s.stack t) = false))

/-- The thread `u` is inside `t->Join()`. -/
def ChannelsState.Joining (s : ChannelsState) (u t : Tid) : Prop :=
  .code (.joinReturn t) ∈ s.stack u

/-- The step is not a second call of `Join` on the same thread. -/
def OneJoin (s : ChannelsState) : Event ChannelCall → Prop
  | .call _ (.join t) => t ∉ s.shared.joins.map Prod.snd
  | _ => True

instance OneJoin.decidable (s : ChannelsState) : DecidablePred (OneJoin s)
  | .call _ (.join t) => inferInstanceAs (Decidable (t ∉ s.shared.joins.map Prod.snd))
  | .call _ (.send _ _) | .call _ (.receive _) | .call _ (.finish _) | .exec _ =>
    inferInstanceAs (Decidable True)

end Nachos.Synch
