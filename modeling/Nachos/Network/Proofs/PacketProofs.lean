import Nachos.Network.PostOffice

/-!
# Proofs: packets

A packet on the wire carries a mail: the two headers and the data stand in it one after the other, whatever stands
behind them. What is sent carries the mail of the sender, and the receiver finds the same mail in it.
-/

namespace Nachos.Network

open Foundations

section Buffers

variable {mem : ByteMemory} {bs xs : List UInt8} {k n : Nat}

/-- A part of the bytes that were copied to the beginning of a buffer. -/
theorem slice_blit_part (mem : ByteMemory) (h : k + n ≤ bs.length) :
    slice (blit mem 0 bs) k n = (bs.drop k).take n := by
  refine List.ext_getElem ?_ fun i hi _ => ?_
  · rw [length_slice, List.length_take, List.length_drop]
    omega
  · rw [length_slice] at hi
    have hlt : k + i < bs.length := by omega
    have hbyte : blit mem 0 bs (0 + (k + i)) = bs.getD (k + i) 0 := blit_inside hlt
    rw [Nat.zero_add, List.getD_eq_getElem?_getD, List.getElem?_eq_getElem hlt] at hbyte
    simp only [slice, List.getElem_map, List.getElem_range, List.getElem_take, List.getElem_drop]
    exact hbyte

/-- A word is read back. -/
theorem wordAt_of_slice {w : UInt32} (h : slice mem k 4 = le32 w.toNat) : wordAt mem k = w := by
  have h0 : mem k = UInt8.ofNat w.toNat := by
    have := congrArg (fun l => l.getD 0 0) h
    rwa [getD_slice mem k 0 (by decide)] at this
  have h1 : mem (k + 1) = UInt8.ofNat (w.toNat / 256) := by
    have := congrArg (fun l => l.getD 1 0) h
    rwa [getD_slice mem k 0 (by decide)] at this
  have h2 : mem (k + 2) = UInt8.ofNat (w.toNat / 65536) := by
    have := congrArg (fun l => l.getD 2 0) h
    rwa [getD_slice mem k 0 (by decide)] at this
  have h3 : mem (k + 3) = UInt8.ofNat (w.toNat / 16777216) := by
    have := congrArg (fun l => l.getD 3 0) h
    rwa [getD_slice mem k 0 (by decide)] at this
  rw [wordAt, h0, h1, h2, h3, ofLe32_bytes w.toNat_lt]
  exact UInt32.ofNat_toNat

theorem length_wordBytes (a b c : UInt32) : (wordBytes a b c).length = headerSize := rfl

/-- The words of a header are read back. -/
theorem words_of_slice {a b c : UInt32} (h : slice mem 0 headerSize = wordBytes a b c) :
    wordAt mem 0 = a ∧ wordAt mem 4 = b ∧ wordAt mem 8 = c := by
  have hsplit : slice mem 0 4 ++ slice mem 4 4 ++ slice mem 8 4 = wordBytes a b c := by
    rw [← h, headerSize, show (12 : Nat) = 4 + 4 + 4 from rfl, slice_add, slice_add]
  obtain ⟨hab, hc⟩ := List.append_inj hsplit rfl
  obtain ⟨ha, hb⟩ := List.append_inj hab rfl
  exact ⟨wordAt_of_slice ha, wordAt_of_slice hb, wordAt_of_slice hc⟩

theorem packetHeader_of_slice {h : PacketHeader} (hs : slice mem 0 headerSize = h.bytes) :
    PacketHeader.ofBuffer mem = h := by
  obtain ⟨h0, h1, h2⟩ := words_of_slice hs
  rw [PacketHeader.ofBuffer, h0, h1, h2]

theorem mailHeader_of_slice {h : MailHeader} (hs : slice mem 0 headerSize = h.bytes) :
    MailHeader.ofBuffer mem = h := by
  obtain ⟨h0, h1, h2⟩ := words_of_slice hs
  rw [MailHeader.ofBuffer, h0, h1, h2]

end Buffers

/-! ## Mail -/

/-- The bytes behind the header of the packet. -/
def Mail.payload (mail : Mail) : List UInt8 := mail.mailHdr.bytes ++ mail.data

/-- The mail is one that `Send` makes for the machine `m`. -/
structure Mail.Ok (m : Address) (mail : Mail) : Prop where
  to_eq : mail.pktHdr.to = m
  box_lt : mail.mailHdr.to.toNat < numBoxes
  length_le : mail.mailHdr.length.toNat ≤ maxMailSize
  length_data : mail.data.length = mail.mailHdr.length.toNat
  length_eq : mail.pktHdr.length.toNat = headerSize + mail.mailHdr.length.toNat

/-- The packet carries the mail. -/
def Carries (packet : List UInt8) (mail : Mail) : Prop := ∃ pad, packet = mail.pktHdr.bytes ++ mail.payload ++ pad

section Mail

variable {m : Address} {mail : Mail} {packet : List UInt8} {mem : ByteMemory}

theorem Mail.Ok.length_payload (h : mail.Ok m) : mail.payload.length = mail.pktHdr.length.toNat := by
  rw [Mail.payload, List.length_append, MailHeader.bytes, length_wordBytes, h.length_data, h.length_eq]

theorem Mail.Ok.length_le_max (h : mail.Ok m) : mail.pktHdr.length.toNat ≤ maxPacketSize := by
  have hmax : maxPacketSize = headerSize + maxMailSize := rfl
  have := h.length_le
  rw [h.length_eq, hmax]
  omega

theorem Mail.Ok.length_pos (h : mail.Ok m) : 0 < mail.pktHdr.length.toNat := by
  have hsize : headerSize = 12 := rfl
  rw [h.length_eq, hsize]
  omega

/-- The header of the packet in the buffer of the receiver. -/
theorem Carries.header (h : Carries packet mail) : PacketHeader.ofBuffer (blit mem 0 packet) = mail.pktHdr := by
  obtain ⟨pad, rfl⟩ := h
  apply packetHeader_of_slice
  have hlen : mail.pktHdr.bytes.length = headerSize := rfl
  rw [slice_blit_part mem (by rw [List.length_append, List.length_append, hlen]; omega), List.drop_zero,
    List.append_assoc, ← hlen, List.take_left]

/-- What the receiver copies into its inbox. -/
theorem Carries.payload (h : Carries packet mail) (hmail : mail.Ok m) :
    slice (blit mem 0 packet) headerSize mail.pktHdr.length.toNat = mail.payload := by
  obtain ⟨pad, rfl⟩ := h
  have hlen : mail.pktHdr.bytes.length = headerSize := rfl
  rw [← hmail.length_payload, slice_blit_part mem (by simp only [List.length_append, hlen]; omega), ← hlen,
    List.append_assoc, List.drop_left, List.take_left]

/-- What a sender puts on the wire carries its mail. -/
theorem carries_sent (mem : ByteMemory) {data : ByteMemory} (hmail : mail.Ok m)
    (hdata : slice data 0 mail.pktHdr.length.toNat = mail.payload) :
    Carries (slice (blit (blit mem 0 mail.pktHdr.bytes) headerSize (slice data 0 mail.pktHdr.length.toNat)) 0
      maxWireSize) mail := by
  have hlen : mail.pktHdr.bytes.length = headerSize := rfl
  have hmax := hmail.length_le_max
  have hblit := blit_append mem 0 mail.pktHdr.bytes mail.payload
  rw [Nat.zero_add, hlen] at hblit
  have hsize : maxWireSize = (mail.pktHdr.bytes ++ mail.payload).length + (maxPacketSize - mail.pktHdr.length.toNat) := by
    have hwire : maxWireSize = headerSize + maxPacketSize := rfl
    rw [List.length_append, hlen, hmail.length_payload, hwire]
    omega
  rw [hdata, hblit, hsize, slice_add, slice_blit mem 0 rfl]
  exact ⟨_, rfl⟩

/-- The postal worker makes the mail again from what is in its buffer. -/
theorem mail_of_buffer (hmail : mail.Ok m) (hbuffer : slice mem 0 mail.pktHdr.length.toNat = mail.payload) :
    MailHeader.ofBuffer mem = mail.mailHdr ∧
      Mail.new mail.pktHdr mail.mailHdr (fun i => mem (headerSize + i)) = mail := by
  rw [hmail.length_eq, slice_add] at hbuffer
  obtain ⟨hhdr, hdata⟩ := List.append_inj hbuffer (by rw [length_slice]; rfl)
  refine ⟨mailHeader_of_slice hhdr, ?_⟩
  rw [Nat.zero_add] at hdata
  have hslice : slice (fun i => mem (headerSize + i)) 0 mail.mailHdr.length.toNat =
      slice mem headerSize mail.mailHdr.length.toNat := by
    simp only [slice, Nat.zero_add]
  rw [Mail.new, hslice, hdata]

/-- What `Send` prepares. -/
theorem Internet.prepare_ok {net net' : Internet} {pktHdr hdr : PacketHeader} {mailHdr : MailHeader}
    {data buffer : ByteMemory} (h : net.prepare m pktHdr mailHdr data = some (net', hdr, buffer)) :
    hdr.from = m ∧ hdr.to = pktHdr.to ∧ (Mail.new hdr mailHdr data).Ok hdr.to ∧
      slice buffer 0 hdr.length.toNat = (Mail.new hdr mailHdr data).payload ∧ ∃ heap, net' = { net with heap := heap } := by
  rw [Internet.prepare, Internet.malloc] at h
  dsimp only at h
  split at h
  · rename_i hok
    obtain ⟨hle, hlt⟩ := hok
    cases h
    have hmax : maxMailSize = 40 := rfl
    have hsum : (mailHdr.length + UInt32.ofNat headerSize).toNat = headerSize + mailHdr.length.toNat := by
      rw [UInt32.toNat_add, show (UInt32.ofNat headerSize).toNat = headerSize from rfl]
      have hsize : headerSize = 12 := rfl
      omega
    refine ⟨rfl, rfl, ⟨rfl, hlt, hle, ?_, hsum⟩, ?_, ⟨_, rfl⟩⟩
    · rw [Mail.new, length_slice]
    · have hlen : mailHdr.bytes.length = headerSize := rfl
      have hblit := blit_append (net.heap 0) 0 mailHdr.bytes (slice data 0 mailHdr.length.toNat)
      rw [Nat.zero_add, hlen] at hblit
      rw [hblit]
      exact slice_blit _ 0 (by rw [List.length_append, hlen, length_slice]; exact hsum.symm)
  · cases h

end Mail

/-! ## The code of the network -/

section Code

variable {net net' : Internet} {m : Address}

/-- A machine reads a packet that carries a mail for it. -/
structure Reads (net net' : Internet) (m : Address) (packet : List UInt8) : Prop where
  free : (net.stations m).inHdr.length = 0
  socket : (net.stations m).socket = packet :: (net'.stations m).socket
  full : ∀ mail : Mail, mail.Ok m → Carries packet mail →
    (net'.stations m).inHdr = mail.pktHdr ∧ slice (net'.stations m).inbox 0 mail.pktHdr.length.toNat = mail.payload
  sendBusy : (net'.stations m).sendBusy = (net.stations m).sendBusy
  sending : (net'.stations m).sending = (net.stations m).sending
  others : ∀ n, n ≠ m → net'.stations n = net.stations n
  boxes : net'.boxes = net.boxes
  sent : net'.sent = net.sent
  taken : net'.taken = net.taken

theorem checkPktAvail_cases {r : Internet × List PostFrame} (h : net.checkPktAvail m = some r) :
    r = (net, []) ∨ r.2 = [.v (.user (.messageAvailable m))] ∧ ∃ packet, Reads net r.1 m packet := by
  rw [Internet.checkPktAvail] at h
  dsimp only at h
  split at h
  · cases h
    exact Or.inl rfl
  · rename_i hfree
    have hfree : (net.stations m).inHdr.length = 0 := by simpa using hfree
    cases hsocket : (net.stations m).socket with
    | nil =>
      rw [hsocket] at h
      cases h
      exact Or.inl rfl
    | cons packet socket =>
      rw [hsocket] at h
      dsimp only at h
      split at h
      · cases h
        refine Or.inr ⟨rfl, packet, ⟨hfree, ?_, fun mail hmail hcarries => ?_, ?_, ?_, fun n hn => ?_, rfl, rfl, rfl⟩⟩
        · simp [Internet.setStation, hsocket]
        · simp only [Internet.setStation, Function.update_self]
          rw [hcarries.header, hcarries.payload hmail]
          exact ⟨rfl, slice_blit _ 0 hmail.length_payload⟩
        · simp [Internet.setStation]
        · simp [Internet.setStation]
        · simp [Internet.setStation, Internet.malloc, hn]
      · cases h

/-- A packet that carries a mail for the machine is read without a failed `ASSERT`. -/
theorem checkPktAvail_isSome (h : ∀ packet ∈ (net.stations m).socket, ∃ mail : Mail, mail.Ok m ∧ Carries packet mail) :
    ∃ r, net.checkPktAvail m = some r := by
  rw [Internet.checkPktAvail]
  dsimp only
  split
  · exact ⟨_, rfl⟩
  · cases hsocket : (net.stations m).socket with
    | nil => exact ⟨_, rfl⟩
    | cons packet socket =>
      obtain ⟨mail, hmail, hcarries⟩ := h packet (by rw [hsocket]; exact List.mem_cons_self)
      dsimp only
      rw [hcarries.header, if_pos ⟨hmail.to_eq, hmail.length_le_max⟩]
      exact ⟨_, rfl⟩

/-- A packet goes out. -/
structure Transmits (net net' : Internet) (m : Address) : Prop where
  sendBusy : ∀ n, (net'.stations n).sendBusy = (net.stations n).sendBusy
  sending : ∀ n, (net'.stations n).sending = (net.stations n).sending + if n = m then 1 else 0
  inHdr : ∀ n, (net'.stations n).inHdr = (net.stations n).inHdr
  inbox : ∀ n, (net'.stations n).inbox = (net.stations n).inbox
  boxes : net'.boxes = net.boxes
  taken : net'.taken = net.taken

/-- A packet that goes out is lost, or it arrives at the socket of its machine. -/
theorem transmit_cases {data : ByteMemory} {mail : Mail} (h : net.transmit m mail.pktHdr data mail = some net')
    (hmail : mail.Ok mail.pktHdr.to) (hdata : slice data 0 mail.pktHdr.length.toNat = mail.payload) :
    Transmits net net' m ∧
      ((∀ n, (net'.stations n).socket = (net.stations n).socket) ∧ net'.sent = net.sent ∨
        ∃ packet, Carries packet mail ∧
          (∀ n, (net'.stations n).socket = (net.stations n).socket ++ if n = mail.pktHdr.to then [packet] else []) ∧
          ∀ n, net'.sent n = net.sent n ++ if n = mail.pktHdr.to then [mail] else []) := by
  rw [Internet.transmit] at h
  dsimp only at h
  split at h
  · split at h
    · cases h
      refine ⟨⟨fun n => ?_, fun n => ?_, fun n => ?_, fun n => ?_, rfl, rfl⟩, Or.inl ⟨fun n => ?_, rfl⟩⟩
      all_goals
        by_cases hn : n = m
        · subst hn
          simp [Internet.setStation]
        · simp [Internet.setStation, hn]
    · cases h
      refine ⟨⟨fun n => ?_, fun n => ?_, fun n => ?_, fun n => ?_, rfl, rfl⟩, Or.inr ⟨_,
        carries_sent (net.heap 0) hmail hdata, fun n => ?_, fun n => ?_⟩⟩
      case refine_6 =>
        by_cases hn : n = mail.pktHdr.to
        · subst hn
          simp [Internet.setStation, Internet.malloc]
        · simp [Internet.setStation, Internet.malloc, hn]
      all_goals
        by_cases hn : n = mail.pktHdr.to
        · subst hn
          by_cases hm : mail.pktHdr.to = m
          · simp [Internet.setStation, Internet.malloc, hm]
          · simp [Internet.setStation, Internet.malloc, hm]
        · by_cases hm : n = m
          · subst hm
            simp [Internet.setStation, Internet.malloc, hn]
          · simp [Internet.setStation, Internet.malloc, hn, hm]
  · cases h

/-- A mail goes out without a failed `ASSERT`. -/
theorem transmit_isSome {data : ByteMemory} {mail : Mail} (hmail : mail.Ok mail.pktHdr.to) (hfrom : mail.pktHdr.from = m)
    (hbusy : (net.stations m).sendBusy = false) : ∃ net', net.transmit m mail.pktHdr data mail = some net' := by
  have hpos : 0 < mail.pktHdr.length := hmail.length_pos
  rw [Internet.transmit]
  dsimp only
  rw [if_pos ⟨hbusy, hpos, hmail.length_le_max, hfrom⟩]
  split
  · exact ⟨_, rfl⟩
  · exact ⟨_, rfl⟩

/-- The worker fetches what is in the inbox. -/
structure Fetches (net net' : Internet) (m : Address) : Prop where
  empty : (net'.stations m).inHdr.length = 0
  socket : ∀ n, (net'.stations n).socket = (net.stations n).socket
  sendBusy : ∀ n, (net'.stations n).sendBusy = (net.stations n).sendBusy
  sending : ∀ n, (net'.stations n).sending = (net.stations n).sending
  others : ∀ n, n ≠ m → net'.stations n = net.stations n
  boxes : net'.boxes = net.boxes
  sent : net'.sent = net.sent
  taken : net'.taken = net.taken

theorem fetch_spec {r : Internet × Mail} (h : net.fetch m = some r) : Fetches net r.1 m := by
  rw [Internet.fetch] at h
  dsimp only at h
  generalize (if (net.stations m).inHdr.length ≠ 0 then _ else _ : ByteMemory) = buffer at h
  split at h
  · cases h
    refine ⟨?_, fun n => ?_, fun n => ?_, fun n => ?_, fun n hn => ?_, rfl, rfl, rfl⟩
    · simp [Internet.setStation]
    case refine_5 => simp [Internet.setStation, hn]
    all_goals
      by_cases hn : n = m
      · subst hn
        simp [Internet.setStation]
      · simp [Internet.setStation, hn]
  · cases h

/-- A mail in the inbox is fetched as it is. -/
theorem fetch_mail {mail : Mail} (hmail : mail.Ok m) (hhdr : (net.stations m).inHdr = mail.pktHdr)
    (hinbox : slice (net.stations m).inbox 0 mail.pktHdr.length.toNat = mail.payload) :
    ∃ net', net.fetch m = some (net', mail) := by
  have hne : mail.pktHdr.length ≠ 0 := by
    intro hzero
    have hpos := hmail.length_pos
    rw [hzero] at hpos
    exact Nat.lt_irrefl 0 hpos
  have hbuffer : slice (blit (net.stations m).buffer 0 mail.payload) 0 mail.pktHdr.length.toNat = mail.payload :=
    slice_blit _ 0 hmail.length_payload
  obtain ⟨hto, hnew⟩ := mail_of_buffer hmail hbuffer
  rw [Internet.fetch]
  dsimp only
  rw [hhdr, if_pos hne, hinbox, hto, hnew, if_pos ⟨hmail.box_lt, hmail.length_le⟩]
  exact ⟨_, rfl⟩

end Code

end Nachos.Network
