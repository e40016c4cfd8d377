import Nachos.Network.Proofs.PostOfficeProofs

/-!
# Proofs: the delivery of mail

The mail that was put on the wire to a machine is, box by box and in order: what was taken from the box, what lies in
the box, what the worker has in its hand, what is in the inbox of the device and what waits in the socket.
-/

namespace Nachos.Network

open Foundations Nachos.Synch

variable {s s' : PostState} {t : Nat} {m : Address} {b : Nat} {net net' : Internet} {mail : Mail} {hand : List Mail}

/-! ## One machine -/

/-- The mail in the inbox of the device. -/
inductive Inbox (m : Address) (st : Station) : List Mail → Prop where
  | empty : st.inHdr.length = 0 → Inbox m st []
  | full (mail : Mail) : mail.Ok m → st.inHdr = mail.pktHdr →
      slice st.inbox 0 mail.pktHdr.length.toNat = mail.payload → Inbox m st [mail]

/-- No mail to the machine is lost, doubled or out of order, once it is on the wire. -/
structure Balanced (net : Internet) (m : Address) (hand inbox arriving : List Mail) : Prop where
  holds : Inbox m (net.stations m) inbox
  socket : List.Forall₂ Carries (net.stations m).socket arriving
  sent : ∀ mail ∈ net.sent m, mail.Ok m
  mail_eq : ∀ b, (net.sent m).filter (Mail.isFor b) =
    (net.taken m b).map Prod.snd ++ net.boxes m b ++ (hand ++ inbox ++ arriving).filter (Mail.isFor b)

namespace Balanced

variable {inbox arriving : List Mail}

/-- What is in the hand, in the inbox or in the socket was sent. -/
theorem ok_of_coming (h : Balanced net m hand inbox arriving) (hmem : mail ∈ hand ++ inbox ++ arriving) : mail.Ok m := by
  have hfor : mail ∈ (hand ++ inbox ++ arriving).filter (Mail.isFor mail.mailHdr.to.toNat) :=
    List.mem_filter.mpr ⟨hmem, by simp [Mail.isFor]⟩
  have hsent : mail ∈ (net.sent m).filter (Mail.isFor mail.mailHdr.to.toNat) := by
    rw [h.mail_eq]
    exact List.mem_append_right _ hfor
  exact h.sent mail (List.mem_of_mem_filter hsent)

/-- What lies in a box was sent. -/
theorem ok_of_box (h : Balanced net m hand inbox arriving) (hmem : mail ∈ net.boxes m b) : mail.Ok m := by
  have hsent : mail ∈ (net.sent m).filter (Mail.isFor b) := by
    rw [h.mail_eq]
    exact List.mem_append_left _ (List.mem_append_right _ hmem)
  exact h.sent mail (List.mem_of_mem_filter hsent)

theorem congr (h : Balanced net m hand inbox arriving)
    (hhdr : (net'.stations m).inHdr = (net.stations m).inHdr) (hinbox : (net'.stations m).inbox = (net.stations m).inbox)
    (hsocket : (net'.stations m).socket = (net.stations m).socket) (hboxes : net'.boxes m = net.boxes m)
    (hsent : net'.sent m = net.sent m) (htaken : net'.taken m = net.taken m) : Balanced net' m hand inbox arriving := by
  refine ⟨?_, by rw [hsocket]; exact h.socket, by rw [hsent]; exact h.sent, ?_⟩
  · cases h.holds with
    | empty hempty => exact .empty (by rw [hhdr]; exact hempty)
    | full mail hmail heq hslice => exact .full mail hmail (by rw [hhdr]; exact heq) (by rw [hinbox]; exact hslice)
  · rw [hsent, htaken, hboxes]
    exact h.mail_eq

/-- The device moves a packet from the socket to the inbox. -/
theorem reads {packet : List UInt8} (h : Balanced net m hand inbox arriving) (hreads : Reads net net' m packet) :
    ∃ inbox' arriving', Balanced net' m hand inbox' arriving' := by
  obtain rfl : inbox = [] := by
    cases h.holds with
    | empty => rfl
    | full mail hmail heq hslice =>
      have hzero := hreads.free
      have hpos := hmail.length_pos
      rw [← heq, hzero] at hpos
      exact absurd hpos (Nat.lt_irrefl 0)
  have hsocket := h.socket
  rw [hreads.socket] at hsocket
  cases hsocket with
  | cons hcarries hrest =>
    rename_i mail arriving
    have hmail : mail.Ok m := h.ok_of_coming (by simp)
    obtain ⟨hhdr, hslice⟩ := hreads.full mail hmail hcarries
    refine ⟨[mail], arriving, ⟨.full mail hmail hhdr hslice, hrest, by rw [hreads.sent]; exact h.sent, fun b => ?_⟩⟩
    rw [hreads.sent, hreads.taken, hreads.boxes, h.mail_eq]
    simp

/-- A packet comes to the socket. -/
theorem arrives {packet : List UInt8} (h : Balanced net m hand inbox arriving) (hcarries : Carries packet mail)
    (hmail : mail.Ok m) (hhdr : (net'.stations m).inHdr = (net.stations m).inHdr)
    (hinbox : (net'.stations m).inbox = (net.stations m).inbox)
    (hsocket : (net'.stations m).socket = (net.stations m).socket ++ [packet]) (hboxes : net'.boxes m = net.boxes m)
    (hsent : net'.sent m = net.sent m ++ [mail]) (htaken : net'.taken m = net.taken m) :
    Balanced net' m hand inbox (arriving ++ [mail]) := by
  refine ⟨?_, ?_, ?_, fun b => ?_⟩
  · cases h.holds with
    | empty hempty => exact .empty (by rw [hhdr]; exact hempty)
    | full mail hmail heq hslice => exact .full mail hmail (by rw [hhdr]; exact heq) (by rw [hinbox]; exact hslice)
  · rw [hsocket]
    exact List.rel_append h.socket (.cons hcarries .nil)
  · intro x hx
    rw [hsent, List.mem_append, List.mem_singleton] at hx
    rcases hx with hx | rfl
    · exact h.sent x hx
    · exact hmail
  · rw [hsent, htaken, hboxes, List.filter_append, h.mail_eq]
    simp

/-- The worker takes the mail of the inbox into its hand. -/
theorem fetch {r : Internet × Mail} (h : Balanced net m [] inbox arriving) (hfull : (net.stations m).inHdr.length ≠ 0)
    (hr : net.fetch m = some r) : Balanced r.1 m [r.2] [] arriving := by
  have hfetch := fetch_spec hr
  cases h.holds with
  | empty hempty => exact absurd hempty hfull
  | full mail hmail heq hslice =>
    obtain ⟨net', hnet'⟩ := fetch_mail hmail heq hslice
    obtain rfl : r = (net', mail) := Option.some.inj (hr.symm.trans hnet')
    refine ⟨.empty hfetch.empty, by rw [hfetch.socket]; exact h.socket, by rw [hfetch.sent]; exact h.sent, fun b => ?_⟩
    rw [hfetch.sent, hfetch.taken, hfetch.boxes, h.mail_eq]
    rfl

/-- The worker puts the mail into its box. -/
theorem append (h : Balanced net m [mail] inbox arriving) (hb : mail.mailHdr.to.toNat = b) :
    Balanced (net.setBox m b (net.boxes m b ++ [mail])) m [] inbox arriving := by
  refine ⟨h.holds, h.socket, h.sent, fun c => ?_⟩
  have hmail := h.mail_eq c
  by_cases hc : c = b
  · subst hc
    have hfor : mail.isFor c = true := by simp [Mail.isFor, hb]
    simp only [Internet.setBox, Function.update_self]
    rw [hmail]
    simp [hfor]
  · have hfor : mail.isFor c = false := by
      simp only [Mail.isFor, hb, beq_eq_false_iff_ne]
      exact Ne.symm hc
    simp only [Internet.setBox, Function.update_self, Function.update_of_ne hc]
    rw [hmail]
    simp [hfor]

/-- A thread takes the first mail of a box. -/
theorem take {l : List Mail} (h : Balanced net m hand inbox arriving) (hbox : net.boxes m b = mail :: l) (t : Nat) :
    Balanced { net.setBox m b l with
      taken := Function.update net.taken m (Function.update (net.taken m) b (net.taken m b ++ [(t, mail)])) }
      m hand inbox arriving := by
  refine ⟨h.holds, h.socket, h.sent, fun c => ?_⟩
  have hmail := h.mail_eq c
  by_cases hc : c = b
  · subst hc
    rw [hbox] at hmail
    simp only [Internet.setBox, Function.update_self, List.map_append, List.map_cons, List.map_nil]
    rw [List.append_assoc _ [mail] l]
    exact hmail
  · simp only [Internet.setBox, Function.update_self, Function.update_of_ne hc]
    exact hmail

end Balanced

/-! ## All machines -/

/-- The mail that a thread has in its hand. -/
def handOf (frames : List PostFrame) : List Mail :=
  frames.filterMap fun f => match f with
    | .code (.append _ _ mail) => some mail
    | _ => none

structure MailInv (s : PostState) : Prop where
  device : DeviceInv s
  balanced : ∀ m, ∃ inbox arriving, Balanced s.shared m (handOf (s.own (worker m))) inbox arriving
  /-- A thread that is about to take a mail has seen one in the box, and it has the lock. -/
  found : ∀ t m b, s.own t = [.code (.pop m b)] → s.shared.boxes m b ≠ []
  got : ∀ t mail, .code (.got mail) ∈ s.own t → mail.mailHdr.length.toNat ≤ maxMailSize

namespace MailInv

variable {rest frames : List PostFrame}

theorem start (heap : Nat → ByteMemory) (lost : Nat → Bool) (priority : Nat → Int) :
    MailInv (postStart heap lost priority) where
  device := DeviceInv.start heap lost priority
  balanced := fun _ => ⟨[], [], .empty rfl, .nil, (fun _ h => nomatch h), fun _ => rfl⟩
  found := fun _ _ _ h => nomatch h
  got := fun _ _ h => nomatch h

/-- The rule for a step in which no mail goes through the hand of the thread. -/
theorem update (h : MailInv s) (hdevice : DeviceInv s') (hst : s'.stack = Function.update s.stack t frames)
    (hhand : handOf (frames.filter Frame.isOwn) = handOf (s.own t))
    (hbalanced : ∀ m hand inbox arriving, Balanced s.shared m hand inbox arriving →
      ∃ inbox' arriving', Balanced s'.shared m hand inbox' arriving')
    (hboxes : s'.shared.boxes = s.shared.boxes)
    (hfound : ∀ m b, frames.filter Frame.isOwn = [.code (.pop m b)] → s.shared.boxes m b ≠ [])
    (hgot : ∀ mail, .code (.got mail) ∈ frames.filter Frame.isOwn → .code (.got mail) ∈ s.own t) : MailInv s' := by
  refine ⟨hdevice, fun m => ?_, fun u m b hu => ?_, fun u mail hu => ?_⟩
  · obtain ⟨inbox, arriving, hm⟩ := h.balanced m
    rw [DeviceInv.own_update hst]
    split
    · rename_i ht
      rw [hhand, ← ht]
      exact hbalanced m _ _ _ hm
    · exact hbalanced m _ _ _ hm
  · rw [hboxes]
    rw [DeviceInv.own_update hst] at hu
    split at hu
    · exact hfound m b hu
    · exact h.found u m b hu
  · rw [DeviceInv.own_update hst] at hu
    split at hu
    · exact h.got t mail (hgot mail hu)
    · exact h.got u mail hu

/-- The rule for a step that changes nothing of the mail. -/
theorem update_same (h : MailInv s) (hdevice : DeviceInv s') (hst : s'.stack = Function.update s.stack t frames)
    (hhand : handOf (frames.filter Frame.isOwn) = handOf (s.own t)) (hshared : s'.shared = s.shared)
    (hfound : ∀ m b, frames.filter Frame.isOwn = [.code (.pop m b)] → s.shared.boxes m b ≠ [])
    (hgot : ∀ mail, .code (.got mail) ∈ frames.filter Frame.isOwn → .code (.got mail) ∈ s.own t) : MailInv s' :=
  h.update hdevice hst hhand (fun m hand inbox arriving hm => ⟨inbox, arriving, by rw [hshared]; exact hm⟩)
    (by rw [hshared]) hfound hgot

/-- A thread that is about to take a mail has the lock of the box. -/
theorem owner_of_pop (h : MailInv s) (hown : s.own t = [.code (.pop m b)]) : s.lockOwner (.box m b) = some t := by
  obtain ⟨init, hok⟩ := h.device.ok
  refine ((hok.locks.lock _).owner t).mpr ?_
  have hshape := h.device.shape t
  have hstart : ∀ l rest, Start t l rest → rest.filter Frame.isOwn ≠ [.code (.pop m b)] := by
    intro l rest hs
    cases hs <;> simp [popRest, List.filter_cons, Frame.isOwn]
  rw [State.own] at hown
  generalize hstack : s.stack t = fs at hown hshape
  cases hshape with
  | found ht =>
    obtain ⟨rfl, rfl⟩ : _ = m ∧ _ = b := by simpa [List.filter_cons, Frame.isOwn] using hown
    simp [State.phase, hstack, phaseOf, Frame.use, postDiscipline, postUse]
  | start hs => exact absurd hown (hstart _ _ hs)
  | acquire hs | p hs | own hs => exact absurd (by simpa [List.filter_cons, Frame.isOwn] using hown) (hstart _ _ hs)
  | _ => simp [popRest, List.filter_cons, Frame.isOwn] at hown

/-- The device looks for a packet. -/
theorem code_poll {r : Internet × List PostFrame} (h : MailInv s) (hdevice : DeviceInv s')
    (hown : s.own t = [.code (.poll m)]) (hr : s.shared.checkPktAvail m = some r)
    (hst : s'.stack = Function.update s.stack t r.2) (hshared : s'.shared = r.1) : MailInv s' := by
  rcases checkPktAvail_cases hr with rfl | ⟨hframes, packet, hreads⟩
  · exact h.update_same hdevice hst (by rw [hown]; rfl) hshared (by simp) (by simp)
  · rw [hframes] at hst
    rw [← hshared] at hreads
    refine h.update hdevice hst (by rw [hown]; rfl) (fun m' hand inbox arriving hm' => ?_) hreads.boxes
      (by simp [List.filter_cons, Frame.isOwn]) (by simp)
    by_cases hm : m' = m
    · subst hm
      exact hm'.reads hreads
    · have hsame := hreads.others m' hm
      exact ⟨inbox, arriving, hm'.congr (by rw [hsame]) (by rw [hsame]) (by rw [hsame]) (by rw [hreads.boxes])
        (by rw [hreads.sent]) (by rw [hreads.taken])⟩

/-- A thread puts a packet on the wire. -/
theorem code_transmit {net : Internet} {data : ByteMemory} {mail : Mail} (h : MailInv s) (hdevice : DeviceInv s')
    (hown : s.own t = [.code (.transmit m mail.pktHdr data mail)]) (hmail : mail.Ok mail.pktHdr.to)
    (hdata : slice data 0 mail.pktHdr.length.toNat = mail.payload)
    (hr : s.shared.transmit m mail.pktHdr data mail = some net)
    (hst : s'.stack = Function.update s.stack t [.p (.user (.messageSent m)), .release (.send m)])
    (hshared : s'.shared = net) : MailInv s' := by
  obtain ⟨htransmits, harrives⟩ := transmit_cases hr hmail hdata
  rw [← hshared] at htransmits harrives
  refine h.update hdevice hst (by rw [hown]; rfl) (fun m' hand inbox arriving hm' => ?_) htransmits.boxes
    (by simp [List.filter_cons, Frame.isOwn]) (by simp [Frame.isOwn])
  have hboxes : s'.shared.boxes m' = s.shared.boxes m' := by rw [htransmits.boxes]
  have htaken : s'.shared.taken m' = s.shared.taken m' := by rw [htransmits.taken]
  rcases harrives with ⟨hsocket, hsent⟩ | ⟨packet, hcarries, hsocket, hsent⟩
  · exact ⟨inbox, arriving, hm'.congr (htransmits.inHdr m') (htransmits.inbox m') (hsocket m') hboxes (by rw [hsent])
      htaken⟩
  · by_cases hm : m' = mail.pktHdr.to
    · subst hm
      refine ⟨inbox, arriving ++ [mail], hm'.arrives hcarries hmail (htransmits.inHdr _) (htransmits.inbox _) ?_ hboxes
        ?_ htaken⟩
      · rw [hsocket, if_pos rfl]
      · rw [hsent, if_pos rfl]
    · refine ⟨inbox, arriving, hm'.congr (htransmits.inHdr m') (htransmits.inbox m') ?_ hboxes ?_ htaken⟩
      · rw [hsocket, if_neg hm, List.append_nil]
      · rw [hsent, if_neg hm, List.append_nil]

/-- The worker fetches a packet. -/
theorem code_fetch {r : Internet × Mail} (h : MailInv s) (hdevice : DeviceInv s')
    (hstack : s.stack (worker m) = [.code (.fetch m)]) (hr : s.shared.fetch m = some r)
    (hst : s'.stack = Function.update s.stack (worker m) frames)
    (hframes : frames.filter Frame.isOwn = [.code (.append m b r.2)]) (hshared : s'.shared = r.1) : MailInv s' := by
  have hown : s.own (worker m) = [.code (.fetch m)] := own_of_stack hstack
  have hfetch := fetch_spec hr
  have hfull : (s.shared.stations m).inHdr.length ≠ 0 := by
    intro hempty
    have harrived := h.device.arrived m
    have hnonneg := h.device.nonneg (.messageAvailable m)
    have hone : fetching s m = 1 := by
      rw [fetching, hown]
      rfl
    rw [hone, units, if_pos hempty] at harrived
    omega
  refine ⟨hdevice, fun m' => ?_, fun u m' b hu => ?_, fun u mail hu => ?_⟩
  · obtain ⟨inbox, arriving, hm'⟩ := h.balanced m'
    rw [DeviceInv.own_update hst, hshared]
    by_cases hm : m' = m
    · subst hm
      rw [hown] at hm'
      rw [if_pos rfl, hframes]
      exact ⟨[], arriving, hm'.fetch hfull hr⟩
    · have hsame := hfetch.others m' hm
      rw [if_neg fun heq => hm (worker_inj heq)]
      exact ⟨inbox, arriving, hm'.congr (by rw [hsame]) (by rw [hsame]) (by rw [hsame]) (by rw [hfetch.boxes])
        (by rw [hfetch.sent]) (by rw [hfetch.taken])⟩
  · rw [hshared, hfetch.boxes]
    rw [DeviceInv.own_update hst] at hu
    split at hu
    · rw [hframes] at hu
      simp at hu
    · exact h.found u m' b hu
  · rw [DeviceInv.own_update hst] at hu
    split at hu
    · rw [hframes] at hu
      simp at hu
    · exact h.got u mail hu

/-- The worker puts a mail into its box. -/
theorem code_append {mail : Mail} (h : MailInv s) (hdevice : DeviceInv s') (hown : s.own (worker m) = [.code (.append m b mail)])
    (hb : mail.mailHdr.to.toNat = b) (hst : s'.stack = Function.update s.stack (worker m) frames)
    (hframes : frames.filter Frame.isOwn = [])
    (hshared : s'.shared = s.shared.setBox m b (s.shared.boxes m b ++ [mail])) : MailInv s' := by
  refine ⟨hdevice, fun m' => ?_, fun u m' b' hu => ?_, fun u mail' hu => ?_⟩
  · obtain ⟨inbox, arriving, hm'⟩ := h.balanced m'
    rw [DeviceInv.own_update hst, hshared]
    by_cases hm : m' = m
    · subst hm
      rw [hown] at hm'
      rw [if_pos rfl, hframes]
      exact ⟨inbox, arriving, hm'.append hb⟩
    · rw [if_neg fun heq => hm (worker_inj heq)]
      exact ⟨inbox, arriving, hm'.congr rfl rfl rfl (by simp [Internet.setBox, hm]) rfl rfl⟩
  · rw [DeviceInv.own_update hst] at hu
    split at hu
    · rw [hframes] at hu
      cases hu
    · have hbefore := h.found u m' b' hu
      rw [hshared]
      by_cases hm : m' = m
      · subst hm
        by_cases hc : b' = b
        · subst hc
          simp [Internet.setBox]
        · simpa [Internet.setBox, hc] using hbefore
      · simpa [Internet.setBox, hm] using hbefore
  · rw [DeviceInv.own_update hst] at hu
    split at hu
    · rw [hframes] at hu
      cases hu
    · exact h.got u mail' hu

/-- A thread takes a mail. -/
theorem code_pop {mail : Mail} {l : List Mail} (h : MailInv s) (hdevice : DeviceInv s') (hown : s.own t = [.code (.pop m b)])
    (hbox : s.shared.boxes m b = mail :: l) (hst : s'.stack = Function.update s.stack t frames)
    (hframes : frames.filter Frame.isOwn = [.code (.got mail)])
    (hshared : s'.shared = { s.shared.setBox m b l with
      taken := Function.update s.shared.taken m
        (Function.update (s.shared.taken m) b (s.shared.taken m b ++ [(t, mail)])) }) : MailInv s' := by
  refine ⟨hdevice, fun m' => ?_, fun u m' b' hu => ?_, fun u mail' hu => ?_⟩
  · obtain ⟨inbox, arriving, hm'⟩ := h.balanced m'
    have hhand : handOf (s'.own (worker m')) = handOf (s.own (worker m')) := by
      rw [DeviceInv.own_update hst]
      split
      · rename_i ht
        rw [hframes, ht, hown]
        rfl
      · rfl
    rw [hhand, hshared]
    by_cases hm : m' = m
    · subst hm
      exact ⟨inbox, arriving, hm'.take hbox t⟩
    · exact ⟨inbox, arriving, hm'.congr rfl rfl rfl (by simp [Internet.setBox, hm]) rfl (by simp [hm])⟩
  · rw [DeviceInv.own_update hst] at hu
    split at hu
    · rw [hframes] at hu
      simp at hu
    · rename_i hut
      have hbefore := h.found u m' b' hu
      -- the box is another one, for the lock is held
      have hne : m' = m → b' ≠ b := by
        rintro rfl rfl
        exact hut (Option.some.inj ((h.owner_of_pop hu).symm.trans (h.owner_of_pop hown)))
      rw [hshared]
      by_cases hm : m' = m
      · subst hm
        simpa [Internet.setBox, hne rfl] using hbefore
      · simpa [Internet.setBox, hm] using hbefore
  · rw [DeviceInv.own_update hst] at hu
    split at hu
    · rw [hframes, List.mem_singleton] at hu
      obtain ⟨inbox, arriving, hm⟩ := h.balanced m
      cases hu
      exact (hm.ok_of_box (by rw [hbox]; exact List.mem_cons_self)).length_le
    · exact h.got u mail' hu

/-- A thread executes a piece of code. -/
theorem code {code : PostCode} {r : Internet × List PostFrame} (h : MailInv s) (hdevice : DeviceInv s')
    (hstack : s.stack t = .code code :: rest) (hr : s.shared.exec code t = some r)
    (hst : s'.stack = Function.update s.stack t (r.2 ++ rest)) (hshared : s'.shared = r.1) : MailInv s' := by
  have hs := h.device.shape t
  rw [hstack] at hs
  have hown : s.own t = .code code :: rest.filter Frame.isOwn := own_of_stack hstack
  cases hs with
  | poll ht =>
    rw [List.append_nil] at hst
    exact h.code_poll hdevice hown hr hst hshared
  | fetch ht =>
    subst ht
    obtain ⟨⟨net, mail⟩, hfetch, rfl⟩ := Option.map_eq_some_iff.mp hr
    exact h.code_fetch hdevice hstack hfetch hst rfl hshared
  | found ht =>
    simp only [Internet.exec] at hr
    split at hr
    · cases hr
    · rename_i hbox
      cases hr
      exact h.code_pop hdevice hown hbox hst rfl hshared
  | got ht =>
    simp only [Internet.exec] at hr
    split at hr
    · cases hr
      exact h.update_same hdevice hst (by rw [hown]; rfl) hshared (by simp) (by simp)
    · cases hr
  | start hs =>
    cases hs with
    | transmit ht hsending =>
      obtain ⟨net, htransmit, rfl⟩ := Option.map_eq_some_iff.mp hr
      obtain ⟨rfl, -, hmail, hdata⟩ := hsending
      exact h.code_transmit hdevice hown hmail hdata htransmit hst hshared
    | append ht hb =>
      have htw := ht
      cases hr
      -- the worker puts mail only into the boxes of its own machine
      subst htw
      exact h.code_append hdevice hown hb hst rfl hshared
    | pop ht =>
      simp only [Internet.exec] at hr
      split at hr
      · cases hr
        exact h.update_same hdevice hst (by rw [hown]; rfl) hshared (by simp [List.filter_cons, Frame.isOwn]) (by simp)
      · rename_i hne
        cases hr
        refine h.update_same hdevice hst (by rw [hown]; rfl) hshared (fun m' b' heq => ?_) (by simp)
        obtain ⟨rfl, rfl⟩ : _ = m' ∧ _ = b' := by simpa [List.filter_cons, Frame.isOwn] using heq
        exact fun hnil => hne (by rw [hnil]; rfl)

/-- A thread makes a call. -/
theorem call {i : PostCall} {r : Internet × List PostFrame} (h : MailInv s) (hdevice : DeviceInv s')
    (hstack : s.stack t = []) (hr : s.shared.call i t = some r) (hst : s'.stack = Function.update s.stack t r.2)
    (hshared : s'.shared = r.1) : MailInv s' := by
  have hown : s.own t = [] := own_of_stack hstack
  cases i with
  | sendDone m =>
    simp only [Internet.call] at hr
    split at hr
    · cases hr
      refine h.update hdevice hst (by rw [hown]; rfl) (fun m' hand inbox arriving hm' => ?_) (by rw [hshared]; rfl)
        (by simp [List.filter_cons, Frame.isOwn]) (by simp)
      rw [hshared]
      by_cases hm : m' = m
      · subst hm
        exact ⟨inbox, arriving, hm'.congr (by simp [Internet.setStation]) (by simp [Internet.setStation])
          (by simp [Internet.setStation]) rfl rfl rfl⟩
      · exact ⟨inbox, arriving, hm'.congr (by simp [Internet.setStation, hm]) (by simp [Internet.setStation, hm])
          (by simp [Internet.setStation, hm]) rfl rfl rfl⟩
    · cases hr
  | send m pktHdr mailHdr data =>
    simp only [Internet.call] at hr
    split at hr
    · obtain ⟨⟨net, hdr, buffer⟩, hprepare, rfl⟩ := Option.map_eq_some_iff.mp hr
      obtain ⟨-, -, -, -, heap, rfl⟩ := Internet.prepare_ok hprepare
      exact h.update hdevice hst (by rw [hown]; rfl)
        (fun m' hand inbox arriving hm' => ⟨inbox, arriving, by rw [hshared]; exact hm'.congr rfl rfl rfl rfl rfl rfl⟩)
        (by rw [hshared]) (by simp [List.filter_cons, Frame.isOwn]) (by simp)
    · cases hr
  | poll m | deliver m | receive m b =>
    simp only [Internet.call] at hr
    split at hr
    · cases hr
      exact h.update_same hdevice hst (by rw [hown]; rfl) hshared (by simp [List.filter_cons, Frame.isOwn]) (by simp)
    · cases hr

/-- A use of a semaphore. -/
theorem use {f : PostFrame} {k : PostSem} (h : MailInv s) (hdevice : DeviceInv s') (hf : f = .p (.user k) ∨ f = .v (.user k))
    (hstack : s.stack t = f :: rest) (hst : s'.stack = Function.update s.stack t rest) (hshared : s'.shared = s.shared) :
    MailInv s' := by
  have hs := h.device.shape t
  have hown : s.own t = f :: rest.filter Frame.isOwn := by
    rw [own_of_stack hstack]
    rcases hf with rfl | rfl <;> rfl
  rw [hstack] at hs
  refine h.update_same hdevice hst ?_ hshared (fun m b heq => ?_) fun mail hmem => ?_
  · rw [hown]
    rcases hf with rfl | rfl <;> rfl
  · rcases hf with rfl | rfl
    · cases hs with
      | deliver ht => simp [List.filter_cons, Frame.isOwn] at heq
      | waits ht => simp [List.filter_cons, Frame.isOwn] at heq
      | start hs => cases hs
    · cases hs with
      | available ht | done ht => simp at heq
      | start hs => cases hs
  · rw [hown]
    exact List.mem_cons_of_mem _ hmem

theorem step {e : Event PostCall} (h : MailInv s) (hs : s.step postUsers e = some s') : MailInv s' := by
  have hdevice := h.device.step hs
  cases step_seen hs with
  | hidden hh =>
    refine ⟨hdevice, fun m => ?_, fun t m b hown => ?_, fun t mail hmem => ?_⟩
    · rw [hh.own_eq, hh.shared_eq]
      exact h.balanced m
    · rw [hh.own_eq] at hown
      rw [hh.shared_eq]
      exact h.found t m b hown
    · rw [hh.own_eq] at hmem
      exact h.got t mail hmem
  | call t i r hstack hr hst hshared => exact h.call hdevice hstack hr hst hshared
  | code t k rest r hstack hr hst hshared => exact h.code hdevice hstack hr hst hshared
  | up t k rest hstack hst hshared => exact h.use hdevice (Or.inr rfl) hstack hst hshared
  | down t k rest hstack _ hst hshared => exact h.use hdevice (Or.inl rfl) hstack hst hshared

theorem reachable {heap : Nat → ByteMemory} {lost : Nat → Bool} {priority : Nat → Int}
    (hr : Reachable postUsers (postStart heap lost priority) s) : MailInv s := by
  obtain ⟨es, hrun⟩ := hr
  exact runs_inv (fun _ _ _ hI _ hs => step hI hs) (start heap lost priority) (AllSteps.trivial es _) hrun

end MailInv

/-! ## The results -/

variable {heap : Nat → ByteMemory} {lost : Nat → Bool} {priority : Nat → Int}

/-- A machine sends two bytes to its own box 1, and a thread receives them. -/
def oneMail : List (Event PostCall) :=
  [.call 2 (.send 0 ⟨0, 0, 0⟩ ⟨1, 0, 2⟩ fun i => UInt8.ofNat (65 + i)), .exec 2, .exec 2, .exec 2, .exec 2,
    .call 0 (.sendDone 0), .exec 0, .exec 2, .exec 2, .exec 2, .call 0 (.poll 0), .exec 0, .exec 0,
    .call 1 (.deliver 0), .exec 1, .exec 1, .exec 1, .exec 1, .exec 1, .exec 1, .exec 1, .exec 1, .exec 1,
    .call 5 (.receive 0 1), .exec 5, .exec 5, .exec 5, .exec 5, .exec 5]

/-- A network that loses nothing. -/
def quietStart : PostState := postStart (fun _ _ => 0) (fun _ => false) fun _ => 0

/-- The worker finds a mail in the inbox. -/
theorem MailInv.exists_fetch (h : MailInv s) (hstack : s.stack (worker m) = [.code (.fetch m)]) :
    ∃ net mail, s.shared.fetch m = some (net, mail) := by
  have hone : fetching s m = 1 := by
    rw [fetching, own_of_stack hstack]
    rfl
  have harrived := h.device.arrived m
  have hnonneg := h.device.nonneg (.messageAvailable m)
  rw [hone, units] at harrived
  obtain ⟨inbox, arriving, hm⟩ := h.balanced m
  cases hm.holds with
  | empty hempty =>
    rw [if_pos hempty] at harrived
    omega
  | full mail hmail heq hslice =>
    obtain ⟨net, hnet⟩ := fetch_mail hmail heq hslice
    exact ⟨net, mail, hnet⟩

/-- The code of a thread never fails. -/
theorem MailInv.exists_code {code : PostCode} {rest : List PostFrame} (h : MailInv s)
    (hstack : s.stack t = .code code :: rest) : ∃ r, s.shared.exec code t = some r := by
  have hs := h.device.shape t
  rw [hstack] at hs
  have hown : s.own t = .code code :: rest.filter Frame.isOwn := own_of_stack hstack
  cases hs with
  | poll ht => exact checkPktAvail_isSome (h.device.packets _)
  | fetch ht =>
    subst ht
    obtain ⟨net, mail, hfetch⟩ := h.exists_fetch hstack
    rw [Internet.exec, hfetch]
    exact ⟨_, rfl⟩
  | found ht =>
    rename_i m b
    obtain ⟨mail, l, hbox⟩ := List.exists_cons_of_ne_nil (h.found t m b hown)
    rw [Internet.exec, hbox]
    exact ⟨_, rfl⟩
  | got ht =>
    rename_i mail
    have hle := h.got t mail (by rw [hown]; exact List.mem_cons_self)
    rw [Internet.exec, if_pos hle]
    exact ⟨_, rfl⟩
  | start hs =>
    cases hs with
    | transmit ht hsending =>
      rename_i m hdr data mail
      obtain ⟨rfl, hfrom, hmail, hdata⟩ := hsending
      obtain ⟨net, hnet⟩ := transmit_isSome hmail hfrom (h.device.sendBusy m)
      rw [Internet.exec, hnet]
      exact ⟨_, rfl⟩
    | append ht hb => exact ⟨_, rfl⟩
    | pop ht =>
      rw [Internet.exec]
      split
      · exact ⟨_, rfl⟩
      · exact ⟨_, rfl⟩

end Nachos.Network
