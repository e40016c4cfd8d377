import Nachos.Threads.Proofs.ChannelProofs

/-!
# Proofs: stranded senders

A sender that comes back from its `Wait` and finds at the head of the mailbox the value that it remembers
waits again, although its message may be gone; then nobody is left to signal it. As long as this does not
happen there are no more queued senders than messages.
-/

namespace Nachos.Synch

open Foundations

variable {joinable : Tid → Bool} {s s' : ChannelsState} {t u : Tid} {k : ChannelId}
  {w w' : ChannelView} {act act' : Tid → Activity} {a' : Activity}

/-! ## The invariant -/

/-- There are no more queued senders than messages, and only senders whose message is there are about to
wait. -/
structure NoExcess (w : ChannelView) (act : Tid → Activity) (k : ChannelId) : Prop where
  tight : (w.cola (.send k)).length +
      (w.stage act k).appended k (w.shared.channel k).received.length ≤
    (w.shared.channel k).buzon.length + (w.stage act k).popped k
  fresh : ∀ m b, w.stage act k = .sendWait k m b → (w.shared.channel k).received.length ≤ m.id

namespace NoExcess

/-- A move that changes neither the mailbox nor the queue of the senders. -/
theorem stay (h : NoExcess w act k) (hch : w'.shared.channel k = w.shared.channel k)
    (hsend : w'.cola (.send k) = w.cola (.send k))
    (happ : (w'.stage act' k).appended k (w.shared.channel k).received.length ≤
      (w.stage act k).appended k (w.shared.channel k).received.length)
    (hpop : (w.stage act k).popped k ≤ (w'.stage act' k).popped k)
    (hfresh : ∀ m b, w'.stage act' k = .sendWait k m b →
      (w.shared.channel k).received.length ≤ m.id) : NoExcess w' act' k := by
  refine ⟨?_, ?_⟩
  · rw [hch, hsend]
    have := h.tight
    omega
  · rw [hch]
    exact hfresh

/-- The thread that holds the lock does not change, and neither does what it is doing. -/
theorem same (h : NoExcess w act k) (hch : w'.shared.channel k = w.shared.channel k)
    (hsend : w'.cola (.send k) = w.cola (.send k)) (hst : w'.stage act' k = w.stage act k) :
    NoExcess w' act' k :=
  h.stay hch hsend (by rw [hst]) (by rw [hst]) (by rw [hst]; exact h.fresh)

/-- A move on another channel. -/
theorem other (h : NoExcess w act k) (ha : (act t).channel ≠ some k) (ha' : a'.channel ≠ some k)
    (hch : w'.shared.channel k = w.shared.channel k) (howner : w'.lockOwner k = w.lockOwner k)
    (hsend : w'.cola (.send k) = w.cola (.send k)) : NoExcess w' (Function.update act t a') k := by
  by_cases ho : w.lockOwner k = some t
  · have hst : w.stage act k = act t := stage_owner ho
    have hst' : w'.stage (Function.update act t a') k = a' := stage_owner_update (howner.trans ho)
    refine h.stay hch hsend ?_ ?_ ?_
    · rw [hst', Activity.appended_of_channel ha']
      exact Nat.zero_le _
    · rw [hst, Activity.popped_of_channel ha]
      exact Nat.zero_le _
    · rw [hst']
      rintro m b rfl
      exact absurd rfl ha'
  · exact h.same hch hsend (stage_update howner ho)

/-- A thread that holds the lock goes to another activity, and the mailbox and the queue stay. -/
theorem owned (h : NoExcess w act k) (ho : w.lockOwner k = some t)
    (hch : w'.shared.channel k = w.shared.channel k) (howner : w'.lockOwner k = w.lockOwner k)
    (hsend : w'.cola (.send k) = w.cola (.send k))
    (happ : a'.appended k (w.shared.channel k).received.length ≤
      (act t).appended k (w.shared.channel k).received.length)
    (hpop : (act t).popped k ≤ a'.popped k)
    (hfresh : ∀ m b, a' = .sendWait k m b → (w.shared.channel k).received.length ≤ m.id) :
    NoExcess w' (Function.update act t a') k := by
  have hst : w.stage act k = act t := stage_owner ho
  have hst' : w'.stage (Function.update act t a') k = a' := stage_owner_update (howner.trans ho)
  refine h.stay hch hsend ?_ ?_ ?_
  · rw [hst, hst']
    exact happ
  · rw [hst, hst']
    exact hpop
  · rw [hst']
    exact hfresh

/-- The thread that holds the lock changes the mailbox or the queue. -/
theorem changed (ho : w'.lockOwner k = some t)
    (htight : (w'.cola (.send k)).length + a'.appended k (w'.shared.channel k).received.length ≤
      (w'.shared.channel k).buzon.length + a'.popped k) (hwait : ∀ m b, a' ≠ .sendWait k m b) :
    NoExcess w' (Function.update act t a') k := by
  refine ⟨?_, ?_⟩
  · rw [stage_owner_update ho]
    exact htight
  · rw [stage_owner_update ho]
    exact fun m b heq => absurd heq (hwait m b)

/-- The lock is taken or freed by a thread that owes nothing. -/
theorem lock (h : NoExcess w act k) (hshared : w'.shared = w.shared) (hcola : w'.cola = w.cola)
    (hold : (w.stage act k).popped k = 0)
    (hnew : (w'.stage act k).appended k (w.shared.channel k).received.length = 0)
    (hwait : ∀ m b, w'.stage act k ≠ .sendWait k m b) : NoExcess w' act k := by
  refine h.stay (by rw [hshared]) (by rw [hcola]) ?_ ?_ ?_
  · rw [hnew]
    exact Nat.zero_le _
  · rw [hold]
    exact Nat.zero_le _
  · exact fun m b heq => absurd heq (hwait m b)

/-- Every move keeps the invariant, if a sender waits only while its message is there. -/
theorem move (hc : ChannelInv w act k) (h : NoExcess w act k)
    (hmove : ChannelMove w t w' (act t) a')
    (hfirst : ∀ m first rest, act t = .sendLoop k m first.value →
      (w.shared.channel k).buzon = first :: rest → (w.shared.channel k).received.length ≤ m.id) :
    NoExcess w' (Function.update act t a') k := by
  generalize ha : act t = a at hmove
  cases hmove with
  | silent =>
    rw [← ha, Function.update_eq_self]
    exact h
  | enter hcalm hfree =>
    rename_i k'
    rw [← ha, Function.update_eq_self]
    by_cases hk : k' = k
    · subst hk
      have hst' : (w.enter k' t).stage act k' = act t := stage_owner (by simp [ChannelView.enter])
      rw [← ha] at hcalm
      refine h.lock rfl rfl (by rw [stage_none hfree]; rfl) ?_ ?_
      · rw [hst']
        rcases hcalm with hcalm | heq
        · exact (hcalm.weights _).2.1
        · rw [heq]
          rfl
      · rw [hst']
        intro m b heq
        simp [heq, Activity.Calm] at hcalm
    · refine h.same rfl rfl ?_
      simp [ChannelView.stage, ChannelView.enter, Ne.symm hk]
  | leave hcalm ho =>
    rename_i k'
    rw [← ha, Function.update_eq_self]
    by_cases hk : k' = k
    · subst hk
      have hst' : (w.leave k').stage act k' = .out := stage_none (by simp [ChannelView.leave])
      refine h.lock rfl rfl ?_ (by rw [hst']; rfl) (by rw [hst']; simp)
      rw [stage_owner ho, ha]
      exact (hcalm.weights 0).1
    · refine h.same rfl rfl ?_
      simp [ChannelView.stage, ChannelView.leave, Ne.symm hk]
  | append ho =>
    rename_i k' mensaje
    by_cases hk : k' = k
    · subst hk
      have hst : w.stage act k' = .sendAppend k' mensaje := (stage_owner ho).trans ha
      refine changed ho ?_ (by simp)
      have ht := h.tight
      simp only [hst, Activity.appended, Activity.popped] at ht
      simp only [Channels.append, Channels.setChannel, Function.update_self, List.length_append,
        List.length_singleton, Activity.appended, Activity.popped]
      split <;> omega
    · refine h.other (by simp [ha, Activity.channel, hk]) (by simp [Activity.channel, hk]) ?_ rfl rfl
      simp [Channels.append, Channels.setChannel, Ne.symm hk]
  | signalReceiveNone ho hq =>
    rename_i k' m
    by_cases hk : k' = k
    · subst hk
      refine h.owned ho rfl rfl rfl ?_ ?_ ?_
      all_goals simp [ha, Activity.appended, Activity.popped]
    · exact h.other (by simp [ha, Activity.channel, hk]) (by simp [Activity.channel, hk]) rfl rfl rfl
  | signalReceive ho hq hn =>
    rename_i k' m n q
    by_cases hk : k' = k
    · subst hk
      refine h.owned ho rfl rfl ?_ ?_ ?_ ?_
      all_goals simp [ha, Activity.appended, Activity.popped]
    · refine h.other (by simp [ha, Activity.channel, hk]) (by simp [Activity.channel, hk]) rfl rfl ?_
      simp
  | head ho hbuzon =>
    rename_i k' m first rest
    by_cases hk : k' = k
    · subst hk
      refine h.owned ho rfl rfl rfl ?_ ?_ ?_
      all_goals simp [ha, Activity.appended, Activity.popped]
    · exact h.other (by simp [ha, Activity.channel, hk]) (by simp [Activity.channel, hk]) rfl rfl rfl
  | loopWait ho hbuzon =>
    rename_i k' m first rest
    by_cases hk : k' = k
    · subst hk
      have hle := hfirst m first rest ha hbuzon
      refine h.owned ho rfl rfl rfl ?_ ?_ ?_
      · simp [ha, Activity.appended]
      · simp [ha, Activity.popped]
      · rintro m' b' ⟨⟩
        exact hle
    · exact h.other (by simp [ha, Activity.channel, hk]) (by simp [Activity.channel, hk]) rfl rfl rfl
  | loopExit ho hb =>
    rename_i k' m b
    by_cases hk : k' = k
    · subst hk
      refine h.owned ho rfl rfl rfl ?_ ?_ ?_
      all_goals simp [ha, Activity.appended, Activity.popped]
    · exact h.other (by simp [ha, Activity.channel, hk]) (by simp [Activity.channel, hk]) rfl rfl rfl
  | waitSend ho hfresh =>
    rename_i k' m b
    by_cases hk : k' = k
    · subst hk
      have hst : w.stage act k' = .sendWait k' m b := (stage_owner ho).trans ha
      have hle := h.fresh m b hst
      refine changed ho ?_ (by simp)
      have ht := h.tight
      simp only [hst, Activity.appended, Activity.popped, true_and, if_pos hle] at ht
      simp only [ChannelView.wait_cola, ChannelView.wait_shared, Function.update_self,
        List.length_append, List.length_singleton, Activity.appended, Activity.popped]
      omega
    · refine h.other (by simp [ha, Activity.channel, hk]) (by simp [Activity.channel, hk]) rfl rfl ?_
      simp [Ne.symm hk]
  | waitReturnSend ho hn =>
    rename_i k' m b n
    by_cases hk : k' = k
    · subst hk
      have hgone := hc.selected t m b n ha hn
      refine h.owned ho rfl rfl rfl ?_ ?_ ?_
      · simp [ha, Activity.appended, hgone]
      · simp [ha, Activity.popped]
      · simp
    · exact h.other (by simp [ha, Activity.channel, hk]) (by simp [Activity.channel, hk]) rfl rfl rfl
  | sendReturn =>
    rename_i k' m
    by_cases hk : k' = k
    · subst hk
      have h' : NoExcess w (Function.update act t .out) k' := by
        by_cases ho : w.lockOwner k' = some t
        · refine h.owned ho rfl rfl rfl ?_ ?_ ?_
          all_goals simp [ha, Activity.appended, Activity.popped]
        · exact h.same rfl rfl (stage_update rfl ho)
      refine ⟨?_, ?_⟩
      · simp only [Channels.setChannel, Function.update_self]
        exact h'.tight
      · simp only [Channels.setChannel, Function.update_self]
        exact h'.fresh
    · refine h.other (by simp [ha, Activity.channel, hk]) (by simp [Activity.channel]) ?_ rfl rfl
      simp [Channels.setChannel, Ne.symm hk]
  | receiveEmpty ho hbuzon =>
    rename_i k'
    by_cases hk : k' = k
    · subst hk
      refine h.owned ho rfl rfl rfl ?_ ?_ ?_
      all_goals simp [ha, Activity.appended, Activity.popped]
    · exact h.other (by simp [ha, Activity.channel, hk]) (by simp [Activity.channel, hk]) rfl rfl rfl
  | receiveFound ho hbuzon =>
    rename_i k'
    by_cases hk : k' = k
    · subst hk
      refine h.owned ho rfl rfl rfl ?_ ?_ ?_
      all_goals simp [ha, Activity.appended, Activity.popped]
    · exact h.other (by simp [ha, Activity.channel, hk]) (by simp [Activity.channel, hk]) rfl rfl rfl
  | waitReceive ho =>
    rename_i k'
    by_cases hk : k' = k
    · subst hk
      refine h.owned ho rfl rfl ?_ ?_ ?_ ?_
      all_goals simp [ha, Activity.appended, Activity.popped]
    · refine h.other (by simp [ha, Activity.channel, hk]) (by simp [Activity.channel, hk]) rfl rfl ?_
      simp
  | waitReturnReceive ho hnd =>
    rename_i k' n
    by_cases hk : k' = k
    · subst hk
      refine h.owned ho rfl rfl rfl ?_ ?_ ?_
      all_goals simp [ha, Activity.appended, Activity.popped]
    · exact h.other (by simp [ha, Activity.channel, hk]) (by simp [Activity.channel, hk]) rfl rfl rfl
  | pop ho =>
    rename_i k'
    by_cases hk : k' = k
    · subst hk
      have hst : w.stage act k' = .receivePop k' := (stage_owner ho).trans ha
      obtain ⟨m, rest, hbuzon⟩ := List.exists_cons_of_ne_nil (hc.found hst)
      refine changed ho ?_ (by simp)
      have ht := h.tight
      simp only [hst, hbuzon, Activity.appended, Activity.popped, List.length_cons] at ht
      simp only [Channels.pop, hbuzon, Channels.setChannel, Function.update_self, Activity.appended,
        Activity.popped, if_true]
      omega
    · refine h.other (by simp [ha, Activity.channel, hk]) (by simp [Activity.channel, hk]) ?_ rfl rfl
      simp only [Channels.pop]
      split <;> simp [Channels.setChannel, Ne.symm hk]
  | signalSendNone ho hq =>
    rename_i k'
    by_cases hk : k' = k
    · subst hk
      refine changed ho ?_ (by simp)
      simp [hq, Activity.appended]
    · exact h.other (by simp [ha, Activity.channel, hk]) (by simp [Activity.channel]) rfl rfl rfl
  | signalSend ho hq hn =>
    rename_i k' n q
    by_cases hk : k' = k
    · subst hk
      have hst : w.stage act k' = .receiveSignal k' := (stage_owner ho).trans ha
      refine changed ho ?_ (by simp)
      have ht := h.tight
      simp only [hst, hq, Activity.appended, Activity.popped, List.length_cons, if_true] at ht
      simp only [ChannelView.select_cola, ChannelView.select_shared, Function.update_self,
        Activity.appended, Activity.popped]
      omega
    · refine h.other (by simp [ha, Activity.channel, hk]) (by simp [Activity.channel]) rfl rfl ?_
      simp [Ne.symm hk]
  | joinReturn => exact h.other (by simp [ha, Activity.channel]) (by simp [Activity.channel]) rfl rfl rfl
  | destroy => exact h.other (by simp [ha, Activity.channel]) (by simp [Activity.channel]) rfl rfl rfl

end NoExcess

/-! ## Quiescent states -/

theorem channelOf_sendTail (k' : ChannelId) : ¬ ∃ f ∈ sendTail k', channelOf f = some k := by
  rintro ⟨f, hf, hk⟩
  cases k' <;> simp [sendTail] at hf
  rw [hf] at hk
  cases hk

theorem channelOf_receiveTail (k' : ChannelId) : ¬ ∃ f ∈ receiveTail k', channelOf f = some k := by
  rintro ⟨f, hf, hk⟩
  cases k' <;> simp [receiveTail] at hf
  rw [hf] at hk
  cases hk

section Asleep

variable {j : SemId ChannelId Empty} {rest : List ChannelFrame} {a : Activity}

/-- A thread in `P` inside the channel `k` has nothing of its lock: it waits for the lock, or in a
`Wait`. -/
theorem Doing.of_p (hd : Doing (.p j :: rest) a) (hin : ∃ f ∈ .p j :: rest, channelOf f = some k) :
    phaseOf ChannelCond.channel ChannelCode.use k (.p j :: rest) .out = .out ∧
      (j = .lock k ∨ (∃ m b n, a = .sendWaiting k m b n ∧ j = .sleeper n ∧
        .waitReturn (.send k) n ∈ rest) ∨ ∃ n, a = .receiveWaiting k n) := by
  cases hd with
  | sendAppend he =>
    rename_i k' mensaje
    cases he
    obtain rfl : k' = k := Or.resolve_right
      (by simpa [channelOf, ChannelCode.channel, or_and_right, exists_or] using hin) (channelOf_sendTail k')
    simp [phaseOf, Frame.use]
  | sendWaiting he =>
    rename_i k' m b n
    cases he with
    | sleeping =>
      obtain rfl : k' = k := Or.resolve_right
        (by simpa [channelOf, ChannelCode.channel, ChannelCond.channel, or_and_right, exists_or] using hin) (channelOf_sendTail k')
      simp [phaseOf, Frame.use]
    | entering he =>
      cases he
      obtain rfl : k' = k := Or.resolve_right
        (by simpa [channelOf, ChannelCode.channel, ChannelCond.channel, or_and_right, exists_or] using hin) (channelOf_sendTail k')
      simp [phaseOf, Frame.use]
  | sendReturn he => cases he
  | receiveLoop he =>
    rename_i k'
    cases he
    obtain rfl : k' = k := Or.resolve_right
      (by simpa [channelOf, ChannelCode.channel, ChannelCond.channel, receiveRest, or_and_right, exists_or] using hin) (channelOf_receiveTail k')
    simp [phaseOf, Frame.use]
  | receiveWaiting he =>
    rename_i k' n
    cases he with
    | sleeping =>
      obtain rfl : k' = k := Or.resolve_right
        (by simpa [channelOf, ChannelCode.channel, ChannelCond.channel, receiveRest, or_and_right, exists_or] using hin) (channelOf_receiveTail k')
      simp [phaseOf, Frame.use]
    | entering he =>
      cases he
      obtain rfl : k' = k := Or.resolve_right
        (by simpa [channelOf, ChannelCode.channel, ChannelCond.channel, receiveRest, or_and_right, exists_or] using hin) (channelOf_receiveTail k')
      simp [phaseOf, Frame.use]
  | receiveLeave he =>
    rename_i k'
    generalize hfs : Frame.p j :: rest = fs at he
    cases he with
    | release => cases hfs
    | v => cases hfs
    | outside => cases k' <;> cases hfs

end Asleep

/-- A frame that has to do with a lock belongs to the channel. -/
theorem channelOf_of_use {f : ChannelFrame} {use : Use}
    (h : f.use ChannelCond.channel ChannelCode.use k = some use) : channelOf f = some k := by
  cases f with
  | p j | v j =>
    cases j <;> simp [Frame.use] at h
    simp [channelOf, h.1]
  | acquire l | own l | release l | wait c | waitReturn c n | signal c | broadcast c p =>
    simp only [Frame.use] at h
    split at h
    · rename_i heq
      rw [← heq]
      rfl
    · cases h
  | code code =>
    cases code <;> simp [Frame.use, ChannelCode.use] at h <;> simp [channelOf, ChannelCode.channel, h.1]

/-- A thread that has something of the lock is inside the channel. -/
theorem inside_of_phase {fs : List ChannelFrame}
    (h : phaseOf ChannelCond.channel ChannelCode.use k fs .out ≠ .out) :
    ∃ f ∈ fs, channelOf f = some k := by
  induction fs with
  | nil => exact absurd rfl h
  | cons f fs ih =>
    simp only [phaseOf] at h
    cases huse : f.use ChannelCond.channel ChannelCode.use k with
    | some use => exact ⟨f, List.mem_cons_self .., channelOf_of_use huse⟩
    | none =>
      rw [huse] at h
      obtain ⟨g, hg, hk⟩ := ih h
      exact ⟨g, List.mem_cons_of_mem f hg, hk⟩

/-- In a quiescent state nobody has anything of the lock. -/
theorem phase_of_quiescent (h : ChannelsInv joinable s act) (hq : s.Quiescent k) (u : Tid) :
    s.phase (channelDiscipline joinable) u k = .out := by
  by_contra hne
  have hin : s.Inside u k := inside_of_phase hne
  obtain ⟨init, hok⟩ := h.ok
  obtain ⟨j, rest, hstack⟩ := hok.asleep_head (hq u hin)
  have hd := h.doing u
  rw [ChannelsState.Inside, hstack] at hin
  rw [hstack] at hd
  apply hne
  rw [State.phase, hstack]
  exact (hd.of_p hin).1

/-- In a quiescent state nobody sleeps for the lock. -/
theorem not_asleep_lock (h : ChannelsInv joinable s act) (hq : s.Quiescent k)
    {rest : List ChannelFrame} (hstack : s.stack t = .p (.lock k) :: rest) : s.asleep t = false := by
  by_contra hasleep
  rw [Bool.not_eq_false] at hasleep
  have hphase := phase_of_quiescent h hq
  obtain ⟨init, hok⟩ := h.ok
  have hqueue := (hok.sem.mem_queue (.lock k) t).mpr ⟨hasleep, by rw [hstack]; rfl⟩
  obtain ⟨W, hW, hcard⟩ := hok.sem.woken (.lock k) (List.ne_nil_of_mem hqueue)
  -- the lock is free, so somebody was woken for it
  rcases (hok.locks.lock k).value with ⟨hone, -⟩ | ⟨-, u, hu⟩
  · obtain ⟨u, hu⟩ : W.Nonempty := by
      rw [← Finset.card_pos]
      omega
    obtain ⟨-, hawake, hhead⟩ := hW u hu
    obtain ⟨rest', hrest'⟩ := List.head?_eq_some_iff.mp hhead
    have hin : s.Inside u k := ⟨.p (.lock k), by rw [hrest']; exact List.mem_cons_self .., rfl⟩
    rw [hq u hin] at hawake
    cases hawake
  · exact hu (hphase u)

/-! ## Runs -/

/-- The stack of a sender in its loop. -/
theorem Doing.of_sendLoop {fs : List ChannelFrame} {m : Mensaje} {b : Int}
    (hd : Doing fs (.sendLoop k m b)) : fs = .code (.sendLoop k m b) :: sendTail k := by
  cases hd
  rfl

/-- The invariants along a run whose steps meet the condition. -/
theorem noExcess_step {e : Event ChannelCall}
    (h : ∃ act, ChannelsInv joinable s act ∧ ∀ k, NoExcess (channelView s) act k)
    (hcond : NoRepeat s e) (hs : s.step (channelUsers joinable) e = some s') :
    ∃ act, ChannelsInv joinable s' act ∧ ∀ k, NoExcess (channelView s') act k := by
  obtain ⟨act, h, hn⟩ := h
  cases e with
  | call t i =>
    obtain ⟨r, hr, hstack, hs', h'⟩ := h.call hs
    refine ⟨_, h', fun k => (hn k).same ?_ ?_ (stage_update ?_ (h.not_owner hstack k))⟩
    · rw [hs']
      show r.1.channel k = s.shared.channel k
      rw [(call_doing hr).1]
    · rw [hs']
      rfl
    · rw [hs']
      rfl
  | exec t =>
    obtain ⟨a', hmove, h'⟩ := h.exec hs
    refine ⟨_, h', fun k => (hn k).move (h.channel k) hmove ?_⟩
    intro m first rest hact hbuzon
    by_contra hlt
    have hd := h.doing t
    rw [hact] at hd
    have hmine := (h.channel k).mine t m (by rw [hact]; rfl)
    have hrec := (h.channel k).mem_received hmine (by omega)
    have hgone : m ∉ (s.shared.channel k).buzon := (h.channel k).notMem_buzon hrec
    have hhead : (s.shared.channel k).buzon.head?.map Mensaje.value = some first.value := by
      rw [show (s.shared.channel k).buzon = first :: rest from hbuzon]
      rfl
    rw [NoRepeat, hd.of_sendLoop] at hcond
    simp [repeats, hgone, hhead] at hcond

/-- Who is inside `Send` has a frame of the channel on its stack. -/
theorem inside_of_inSend (h : s.InSend t k) : s.Inside t k := by
  obtain ⟨code, hmem, hsend⟩ := h
  refine ⟨_, hmem, ?_⟩
  cases code <;> simp_all [ChannelCode.IsSend, channelOf, ChannelCode.channel]

/-- A receiver that waits is not inside `Send`. -/
theorem not_inSend_of_receiveWaiting {n : Nat} (hd : Doing (s.stack t) (.receiveWaiting k n)) :
    ¬ s.InSend t k := by
  rintro ⟨code, hmem, hsend⟩
  generalize s.stack t = fs at hd hmem
  have htail : .code code ∉ receiveTail k := by
    cases k <;> simp [receiveTail]
    rintro rfl
    exact hsend
  cases hd with
  | receiveWaiting he =>
    cases he with
    | entering he => cases he <;> simp [receiveRest, htail] at hmem <;> rcases hmem with rfl | rfl <;> exact hsend
    | _ => simp [receiveRest, htail] at hmem <;> rcases hmem with rfl | rfl <;> exact hsend

/-- In a run in which no sender waits again after its message is gone, nobody is left inside `Send` when
the mailbox is empty and no thread inside the routines of the channel can take a step. -/
theorem no_stranded_sender (joinable : Tid → Bool) (priority : Tid → Int)
    {es : List (Event ChannelCall)} {s : ChannelsState}
    (hall : AllSteps (State.step (channelUsers joinable)) NoRepeat (channelsStart priority) es)
    (hrun : runs (State.step (channelUsers joinable)) (channelsStart priority) es = some s)
    (k : ChannelId) (hempty : (s.shared.channel k).buzon = []) (hq : s.Quiescent k) (t : Tid) :
    ¬ s.InSend t k := by
  intro hsend
  have hstart : ∃ act, ChannelsInv joinable (channelsStart priority) act ∧
      ∀ k, NoExcess (channelView (channelsStart priority)) act k :=
    ⟨_, ChannelsInv.start joinable priority, fun k => ⟨Nat.le_refl 0, fun m b hst => by cases hst⟩⟩
  obtain ⟨act, h, hn⟩ := runs_inv (fun _ _ _ hI hP hs => noExcess_step hI hP hs) hstart hall hrun
  have hin := inside_of_inSend hsend
  have hasleep := hq t hin
  have hphase := phase_of_quiescent h hq
  obtain ⟨init, hok⟩ := id h.ok
  have hfree : s.lockOwner k = none := by
    by_contra hne
    obtain ⟨u, hu⟩ := Option.ne_none_iff_exists'.mp hne
    have hheld := ((hok.locks.lock k).owner u).mp hu
    rw [hphase u] at hheld
    cases hheld
  obtain ⟨j, rest, hstack⟩ := hok.asleep_head hasleep
  have hd := h.doing t
  rw [ChannelsState.Inside, hstack] at hin
  have hd' := hd
  rw [hstack] at hd'
  rcases (hd'.of_p hin).2 with rfl | ⟨m, b, n, hact, rfl, hret⟩ | ⟨n, hact⟩
  · rw [not_asleep_lock h hq hstack] at hasleep
    cases hasleep
  · -- a sender that waits: it is queued, and there are no more queued senders than messages
    have hw : s.WaitsOn t (.send k) n :=
      ⟨by rw [hstack]; exact List.mem_cons_self .., by rw [hstack]; exact List.mem_cons_of_mem _ hret⟩
    by_cases hmem : n ∈ s.colaProcesosDormidos (.send k)
    · have ht := (hn k).tight
      rw [stage_none hfree] at ht
      have hlen : (s.colaProcesosDormidos (.send k)).length ≤ (s.shared.channel k).buzon.length := ht
      rw [hempty] at hlen
      rw [List.eq_nil_of_length_eq_zero (Nat.le_zero.mp hlen)] at hmem
      cases hmem
    · rcases hok.selected_cases hw hmem with ⟨u, _, _, _, howner⟩ | ⟨-, hawake⟩
      · rw [show s.lockOwner ((channelUsers joinable).lockOf (.send k)) = s.lockOwner k from rfl,
          hfree] at howner
        cases howner
      · rw [hasleep] at hawake
        cases hawake
  · exact not_inSend_of_receiveWaiting (by rw [← hact]; exact hd) hsend

/-- Two threads send the values `a` and `b`, two others receive, and the first sender takes `n` steps
after the first `Receive`. -/
def twoSends (a b : Int) (n : Nat) : List (Event ChannelCall) :=
  Event.call 0 (ChannelCall.send 0 a) :: List.replicate 11 (Event.exec 0) ++
    Event.call 1 (ChannelCall.send 0 b) :: List.replicate 11 (Event.exec 1) ++
      Event.call 2 (ChannelCall.receive 0) :: List.replicate 9 (Event.exec 2) ++ List.replicate n (Event.exec 0) ++
        Event.call 3 (ChannelCall.receive 0) :: List.replicate 9 (Event.exec 3) ++ List.replicate 9 (Event.exec 1)

theorem lt_four {n : Nat} (h : n < 4) : n = 0 ∨ n = 1 ∨ n = 2 ∨ n = 3 := by omega

/-- All steps are steps of the first four threads. -/
theorem twoSends_thread (a b : Int) (n : Nat) : ∀ e ∈ twoSends a b n, e.thread < 4 := by
  intro e he
  simp only [twoSends, List.cons_append, List.mem_cons, List.mem_append, List.mem_replicate] at he
  rcases he with rfl | ((((⟨-, rfl⟩ | rfl | ⟨-, rfl⟩) | rfl | ⟨-, rfl⟩) | ⟨-, rfl⟩) | rfl | ⟨-, rfl⟩) |
    ⟨-, rfl⟩
  all_goals simp [Event.thread]

theorem no_stranded_sender_twoSends : ∃ s : ChannelsState,
    runs (State.step (channelUsers fun _ => true)) (channelsStart fun _ => 0) (twoSends 5 7 9) =
      some s ∧ (s.shared.channel (.user 0)).received = [⟨0, 5⟩, ⟨1, 7⟩] ∧ ¬ s.InSend 0 (.user 0) := by
  obtain ⟨s, hs⟩ := Option.isSome_iff_exists.mp (show (runs (State.step (channelUsers fun _ => true))
    (channelsStart fun _ => 0) (twoSends 5 7 9)).isSome = true by rfl)
  have hview : (some s).map (fun s => ((s.shared.channel (.user 0)).buzon,
      (s.shared.channel (.user 0)).received, s.stack 0, s.stack 1, s.stack 2, s.stack 3)) =
        some ([], [⟨0, 5⟩, ⟨1, 7⟩], [], [], [], []) := by
    rw [← hs]
    rfl
  simp only [Option.map_some, Option.some.injEq, Prod.mk.injEq] at hview
  obtain ⟨hbuzon, hreceived, h0, h1, h2, h3⟩ := hview
  have hstack : ∀ t, s.stack t = [] := by
    intro t
    by_cases ht : t < 4
    · obtain rfl | rfl | rfl | rfl := lt_four ht
      · exact h0
      · exact h1
      · exact h2
      · exact h3
    · refine runs_stack_other (fun e he heq => ht ?_) hs
      rw [← heq]
      exact twoSends_thread 5 7 9 e he
  refine ⟨s, hs, hreceived, no_stranded_sender (fun _ => true) (fun _ => 0) (by decide +kernel) hs
    (.user 0) hbuzon ?_ 0⟩
  rintro t ⟨f, hf, -⟩
  rw [hstack t] at hf
  cases hf

/-- Two senders of equal values: the first one waits again after its message is gone, and is still
inside `Send` when both messages were received and nobody can take a step. -/
theorem equal_values_strand : ∃ s : ChannelsState,
    runs (State.step (channelUsers fun _ => true)) (channelsStart fun _ => 0) (twoSends 5 5 10) =
      some s ∧ (s.shared.channel (.user 0)).buzon = [] ∧ s.Quiescent (.user 0) ∧
    s.InSend 0 (.user 0) := by
  obtain ⟨s, hs⟩ := Option.isSome_iff_exists.mp (show (runs (State.step (channelUsers fun _ => true))
    (channelsStart fun _ => 0) (twoSends 5 5 10)).isSome = true by rfl)
  have hview : (some s).map (fun s => ((s.shared.channel (.user 0)).buzon, s.asleep 0,
      (s.stack 0).getLast?, s.stack 1, s.stack 2, s.stack 3)) =
        some ([], true, some (.code (.sendLoop (.user 0) ⟨0, 5⟩ 5)), [], [], []) := by
    rw [← hs]
    rfl
  simp only [Option.map_some, Option.some.injEq, Prod.mk.injEq] at hview
  obtain ⟨hbuzon, hasleep, hlast, h1, h2, h3⟩ := hview
  refine ⟨s, hs, hbuzon, ?_, _, List.mem_of_getLast? hlast, rfl⟩
  rintro t ⟨f, hf, -⟩
  by_cases ht : t < 4
  · obtain rfl | rfl | rfl | rfl := lt_four ht
    · exact hasleep
    · rw [h1] at hf
      cases hf
    · rw [h2] at hf
      cases hf
    · rw [h3] at hf
      cases hf
  · have hstack : s.stack t = [] := by
      refine runs_stack_other (fun e he heq => ht ?_) hs
      rw [← heq]
      exact twoSends_thread 5 5 10 e he
    rw [hstack] at hf
    cases hf

end Nachos.Synch
