import Nachos.Foundations.ByteList
import Nachos.Foundations.ByteMemory
import Nachos.Threads.Conditions

/-!
# The post office

`PostOffice` and `MailBox` of `network/post.cc` over `Network` of `machine/network.cc`, on any number of machines that
are connected by sockets. Any number of threads call `Send` and `Receive`, in any order; a worker on each machine
delivers what arrives. The interrupts of a network device come at any time; their handlers run as a thread of their
own on each machine. A socket keeps whole packets in order.
-/

namespace Nachos.Network

open Foundations

/-! ## The format -/

/-- `NetworkAddress`: the ID of a machine, as a word. -/
abbrev Address := UInt32

structure PacketHeader where
  «to» : Address
  «from» : Address
  length : UInt32
deriving DecidableEq

structure MailHeader where
  «to» : UInt32
  «from» : UInt32
  length : UInt32
deriving DecidableEq

/-- `sizeof (PacketHeader)`, and also `sizeof (MailHeader)`. -/
def headerSize : Nat := 12

/-- `MAX_WIRE_SIZE`. -/
def maxWireSize : Nat := 64

/-- `MAX_PACKET_SIZE`. -/
def maxPacketSize : Nat := maxWireSize - headerSize

/-- `MAX_MAIL_SIZE`. -/
def maxMailSize : Nat := maxPacketSize - headerSize

/-- The mail boxes of each machine: the constructor in `threads/system.cc` makes ten. -/
def numBoxes : Nat := 10

/-- The bytes of three words. -/
def wordBytes (a b c : UInt32) : List UInt8 := le32 a.toNat ++ le32 b.toNat ++ le32 c.toNat

/-- The word at an address of a buffer. -/
def wordAt (buffer : ByteMemory) (a : Nat) : UInt32 :=
  UInt32.ofNat (ofLe32 (buffer a) (buffer (a + 1)) (buffer (a + 2)) (buffer (a + 3)))

def PacketHeader.bytes (h : PacketHeader) : List UInt8 := wordBytes h.to h.from h.length

/-- `*(PacketHeader *) buffer`. -/
def PacketHeader.ofBuffer (buffer : ByteMemory) : PacketHeader :=
  ⟨wordAt buffer 0, wordAt buffer 4, wordAt buffer 8⟩

def MailHeader.bytes (h : MailHeader) : List UInt8 := wordBytes h.to h.from h.length

/-- `*(MailHeader *) buffer`. -/
def MailHeader.ofBuffer (buffer : ByteMemory) : MailHeader :=
  ⟨wordAt buffer 0, wordAt buffer 4, wordAt buffer 8⟩

/-- A `Mail`, with the bytes that are copied into its `data`. -/
structure Mail where
  pktHdr : PacketHeader
  mailHdr : MailHeader
  data : List UInt8
deriving DecidableEq

/-- The constructor of `Mail`. -/
def Mail.new (pktHdr : PacketHeader) (mailHdr : MailHeader) (msgData : ByteMemory) : Mail :=
  ⟨pktHdr, mailHdr, slice msgData 0 mailHdr.length.toNat⟩

/-- Is the mail for the box `b`? -/
def Mail.isFor (b : Nat) (mail : Mail) : Bool := mail.mailHdr.to.toNat == b

/-! ## The state -/

/-- What a machine has of the network. -/
structure Station where
  /-- It is never set in the source. -/
  sendBusy : Bool
  /-- The number of scheduled `NETWORK_SEND_INT`. -/
  sending : Nat
  inHdr : PacketHeader
  inbox : ByteMemory
  /-- The packets that wait in the socket. -/
  socket : List (List UInt8)
  /-- The buffer of the postal worker. -/
  buffer : ByteMemory

/-- All machines, with the history of the mail. -/
structure Internet where
  stations : Address → Station
  /-- The lists of the mail boxes. -/
  boxes : Address → Nat → List Mail
  /-- What each `new` finds in the memory. -/
  heap : Nat → ByteMemory
  /-- Whether the next packets are lost on the way (`SystemDep::Random` and `chanceToWork`). -/
  lost : Nat → Bool
  /-- Not in the source: the mail that was put on the wire to each machine, as the arguments of its `Send`. -/
  sent : Address → List Mail
  /-- Not in the source: the thread of each `Receive` from a box and what it took. -/
  taken : Address → Nat → List (Nat × Mail)

namespace Internet

def setStation (net : Internet) (m : Address) (st : Station) : Internet :=
  { net with stations := Function.update net.stations m st }

def setBox (net : Internet) (m : Address) (b : Nat) (l : List Mail) : Internet :=
  { net with boxes := Function.update net.boxes m (Function.update (net.boxes m) b l) }

/-- `new char [..]`. -/
def malloc (net : Internet) : ByteMemory × Internet := (net.heap 0, { net with heap := fun n => net.heap (n + 1) })

end Internet

/-- The locks: `sendLock` of each machine and the lock of each mail box. -/
inductive PostLock where
  | send (m : Address)
  | box (m : Address) (b : Nat)
deriving DecidableEq

/-- The semaphores of each machine. -/
inductive PostSem where
  | messageAvailable (m : Address)
  | messageSent (m : Address)
deriving DecidableEq

/-- The code between the uses of the primitives. -/
inductive PostCode where
  /-- `Network::CheckPktAvail`. -/
  | poll (m : Address)
  /-- `Network::Send`; the mail is only for the history. -/
  | transmit (m : Address) (hdr : PacketHeader) (data : ByteMemory) (mail : Mail)
  /-- `Network::Receive` and the checks of the worker. -/
  | fetch (m : Address)
  /-- `list->Append` of a mail box. -/
  | append (m : Address) (b : Nat) (mail : Mail)
  /-- The loop of `SynchList::Pop` of a mail box, and its `list->Pop`. -/
  | loop (m : Address) (b : Nat)
  | pop (m : Address) (b : Nat)
  /-- The end of `Receive`. -/
  | got (mail : Mail)

/-- What can be called. -/
inductive PostCall where
  /-- `NetworkReadPoll` and `NetworkSendDone`, the handlers of the interrupts. -/
  | poll (m : Address)
  | sendDone (m : Address)
  /-- A round of the loop of `PostalDelivery`. -/
  | deliver (m : Address)
  | send (m : Address) (pktHdr : PacketHeader) (mailHdr : MailHeader) (data : ByteMemory)
  | receive (m : Address) (box : Nat)

/-- The condition of a mail box is named by its machine and its number. -/
abbrev PostFrame := Synch.Frame PostLock (Address × Nat) PostSem PostCode

/-! ## Threads -/

/-- The thread that stands for the interrupts of a machine. -/
def hardware (m : Address) : Nat := 3 * m.toNat

/-- The thread `"postal worker"` of a machine. -/
def worker (m : Address) : Nat := 3 * m.toNat + 1

/-- The other threads. -/
def IsUser (t : Nat) : Prop := t % 3 = 2

instance (t : Nat) : Decidable (IsUser t) := inferInstanceAs (Decidable (t % 3 = 2))

/-! ## The code -/

namespace Internet

/-- `Network::CheckPktAvail`; `none` is a failed `ASSERT`. -/
def checkPktAvail (net : Internet) (m : Address) : Option (Internet × List PostFrame) :=
  let st := net.stations m
  if st.inHdr.length ≠ 0 then some (net, [])
  else match st.socket with
  | [] => some (net, [])
  | packet :: socket =>
    let (heap, net) := net.malloc
    let buffer := blit heap 0 packet
    let inHdr := PacketHeader.ofBuffer buffer
    if inHdr.to = m ∧ inHdr.length.toNat ≤ maxPacketSize then
      some (net.setStation m { st with
        inHdr := inHdr
        inbox := blit st.inbox 0 (slice buffer headerSize inHdr.length.toNat)
        socket := socket }, [.v (.user (.messageAvailable m))])
    else none

/-- `Network::Send`. -/
def transmit (net : Internet) (m : Address) (hdr : PacketHeader) (data : ByteMemory) (mail : Mail) :
    Option Internet :=
  let st := net.stations m
  if st.sendBusy = false ∧ 0 < hdr.length ∧ hdr.length.toNat ≤ maxPacketSize ∧ hdr.from = m then
    let net := net.setStation m { st with sending := st.sending + 1 }
    let lost := net.lost 0
    let net := { net with lost := fun n => net.lost (n + 1) }
    if lost then some net
    else
      let (heap, net) := net.malloc
      let buffer := blit (blit heap 0 hdr.bytes) headerSize (slice data 0 hdr.length.toNat)
      let target := net.stations hdr.to
      some { net.setStation hdr.to { target with socket := target.socket ++ [slice buffer 0 maxWireSize] } with
        sent := Function.update net.sent hdr.to (net.sent hdr.to ++ [mail]) }
  else none

/-- `Network::Receive` into the buffer of the worker, and the checks of `PostalDelivery`. -/
def fetch (net : Internet) (m : Address) : Option (Internet × Mail) :=
  let st := net.stations m
  let pktHdr := st.inHdr
  let buffer :=
    if pktHdr.length ≠ 0 then blit st.buffer 0 (slice st.inbox 0 pktHdr.length.toNat) else st.buffer
  let mailHdr := MailHeader.ofBuffer buffer
  let net := net.setStation m { st with inHdr := { st.inHdr with length := 0 }, buffer := buffer }
  if mailHdr.to.toNat < numBoxes ∧ mailHdr.length.toNat ≤ maxMailSize then
    some (net, Mail.new pktHdr mailHdr fun i => buffer (headerSize + i))
  else none

/-- A piece of code, with the frames that come next. -/
def exec (code : PostCode) (t : Nat) (net : Internet) : Option (Internet × List PostFrame) :=
  match code with
  | .poll m => net.checkPktAvail m
  | .transmit m hdr data mail => (net.transmit m hdr data mail).map fun net =>
    (net, [.p (.user (.messageSent m)), .release (.send m)])
  | .fetch m => (net.fetch m).map fun r =>
    let b := r.2.mailHdr.to.toNat
    (r.1, [.acquire (.box m b), .code (.append m b r.2), .signal (m, b), .release (.box m b)])
  | .append m b mail => some (net.setBox m b (net.boxes m b ++ [mail]), [])
  | .loop m b => if (net.boxes m b).isEmpty then some (net, [.wait (m, b), .code (.loop m b)]) else some (net, [])
  | .pop m b =>
    match net.boxes m b with
    -- `List::Pop` gives a null pointer, which is dereferenced
    | [] => none
    | mail :: l => some ({ net.setBox m b l with
        taken := Function.update net.taken m (Function.update (net.taken m) b (net.taken m b ++ [(t, mail)])) },
      [.release (.box m b), .code (.got mail)])
  | .got mail => if mail.mailHdr.length.toNat ≤ maxMailSize then some (net, []) else none

/-- The header and the buffer that `PostOffice::Send` makes; `none` is a failed `ASSERT`. -/
def prepare (net : Internet) (m : Address) (pktHdr : PacketHeader) (mailHdr : MailHeader) (data : ByteMemory) :
    Option (Internet × PacketHeader × ByteMemory) :=
  let (heap, net) := net.malloc
  -- an `int` that is not negative and less than `numBoxes`
  if mailHdr.length.toNat ≤ maxMailSize ∧ mailHdr.to.toNat < numBoxes then
    let pktHdr := { pktHdr with «from» := m, length := mailHdr.length + UInt32.ofNat headerSize }
    some (net, pktHdr, blit (blit heap 0 mailHdr.bytes) headerSize (slice data 0 mailHdr.length.toNat))
  else none

/-- A call, with the frames of the routine. -/
def call (c : PostCall) (t : Nat) (net : Internet) : Option (Internet × List PostFrame) :=
  match c with
  | .poll m => if t = hardware m then some (net, [.code (.poll m)]) else none
  | .sendDone m =>
    let st := net.stations m
    if t = hardware m ∧ 0 < st.sending then
      some (net.setStation m { st with sendBusy := false, sending := st.sending - 1 },
        [.v (.user (.messageSent m))])
    else none
  | .deliver m =>
    if t = worker m then some (net, [.p (.user (.messageAvailable m)), .code (.fetch m)]) else none
  | .send m pktHdr mailHdr data =>
    if IsUser t then (net.prepare m pktHdr mailHdr data).map fun (net, hdr, buffer) =>
      (net, [.acquire (.send m), .code (.transmit m hdr buffer (Mail.new hdr mailHdr data))])
    else none
  | .receive m box =>
    if IsUser t ∧ box < numBoxes then
      some (net, [.acquire (.box m box), .code (.loop m box), .code (.pop m box)])
    else none

end Internet

/-- Threads that use the post offices. -/
def postUsers : Synch.System PostLock (Address × Nat) PostSem PostCode PostCall Internet where
  lockOf := fun c => .box c.1 c.2
  call := Internet.call
  exec := Internet.exec

abbrev PostState := Synch.State PostLock (Address × Nat) PostSem PostCode Internet

/-- The network at the beginning: what the memory holds, and which packets will be lost. -/
def Internet.new (heap : Nat → ByteMemory) (lost : Nat → Bool) : Internet where
  stations := fun _ =>
    { sendBusy := false, sending := 0, inHdr := ⟨0, 0, 0⟩, inbox := fun _ => 0, socket := [], buffer := fun _ => 0 }
  boxes := fun _ _ => []
  heap := heap
  lost := lost
  sent := fun _ => []
  taken := fun _ _ => []

def postStart (heap : Nat → ByteMemory) (lost : Nat → Bool) (priority : Nat → Int) : PostState :=
  Synch.State.start (fun _ => 0) priority (Internet.new heap lost)

end Nachos.Network
