import Nachos.Threads.Proofs.ChannelProofs

/-!
# Proofs: `Join`

A thread sends its value when it finishes and is destroyed when its `Send` returns, that is, after one
`Receive`. If there is one call of `Join`, it is that `Receive`. A second caller is left behind.
-/

namespace Nachos.Synch

open Foundations

variable {joinable : Tid → Bool} {s s' : ChannelsState} {t u : Tid} {k : ChannelId}
  {w w' : ChannelView} {act : Tid → Activity} {a a' : Activity}

/-! ## What the stacks show -/

theorem joinReturn_notMem_sendTail (k : ChannelId) (t : Tid) :
    .code (.joinReturn t) ∉ sendTail k := by
  cases k <;> simp [sendTail]

theorem destroy_notMem_receiveTail (k : ChannelId) : .code .destroy ∉ receiveTail k := by
  cases k <;> simp [receiveTail]

theorem joinReturn_mem_receiveTail {k : ChannelId} :
    .code (.joinReturn t) ∈ receiveTail k ↔ k = .thread t := by
  cases k <;> simp [receiveTail, eq_comm]

theorem destroy_mem_sendTail {k : ChannelId} : .code .destroy ∈ sendTail k ↔ ∃ t, k = .thread t := by
  cases k <;> simp [sendTail]

/-- The code in front of which a thread enters or leaves a lock, or waits, is on its stack. -/
theorem Entering.code_mem {rest fs : List ChannelFrame} {c : ChannelCode} (h : Entering k rest fs) :
    .code c ∈ fs ↔ .code c ∈ rest := by
  cases h <;> simp

theorem Leaving.code_mem {rest fs : List ChannelFrame} {c : ChannelCode} (h : Leaving k rest fs) :
    .code c ∈ fs ↔ .code c ∈ rest := by
  cases h <;> simp

theorem Waiting.code_mem {n : Nat} {rest fs : List ChannelFrame} {c : ChannelCode}
    (h : Waiting k n rest fs) : .code c ∈ fs ↔ .code c ∈ rest := by
  cases h with
  | entering h => exact h.code_mem
  | _ => simp

/-- A thread inside `Join` is in the `Receive`, before or after it removes the message, or past it. -/
theorem Doing.of_joinReturn {fs : List ChannelFrame} (hd : Doing fs a)
    (hmem : .code (.joinReturn t) ∈ fs) :
    a.receiving = some (.thread t) ∨ a = .receiveSignal (.thread t) ∨ a = .out := by
  have hsend := joinReturn_notMem_sendTail
  cases hd with
  | idle => cases hmem
  | joinReturn => simp
  | destroy => simp at hmem
  | sendAppend h => simp [h.code_mem, hsend] at hmem
  | sendSignal => simp [hsend] at hmem
  | sendRaise => simp [hsend] at hmem
  | sendHead => simp [hsend] at hmem
  | sendLoop => simp [hsend] at hmem
  | sendWait => simp [hsend] at hmem
  | sendWaiting h => simp [h.code_mem, hsend] at hmem
  | sendReturn h => simp [h.code_mem, hsend] at hmem
  | receiveLoop h =>
    simp [h.code_mem, receiveRest, joinReturn_mem_receiveTail] at hmem
    simp [hmem, Activity.receiving]
  | receiveWait =>
    simp [receiveRest, joinReturn_mem_receiveTail] at hmem
    simp [hmem, Activity.receiving]
  | receiveWaiting h =>
    simp [h.code_mem, receiveRest, joinReturn_mem_receiveTail] at hmem
    simp [hmem, Activity.receiving]
  | receivePop =>
    simp [receiveRest, joinReturn_mem_receiveTail] at hmem
    simp [hmem, Activity.receiving]
  | receiveSignal =>
    simp [joinReturn_mem_receiveTail] at hmem
    simp [hmem]
  | receiveRaise => simp
  | receiveLeave h => simp

/-- A thread that has not removed its message is inside `Join`, if the channel is that of a thread. -/
theorem Doing.joinReturn_mem {fs : List ChannelFrame} (hd : Doing fs a)
    (ha : a.receiving = some (.thread t)) : .code (.joinReturn t) ∈ fs := by
  cases hd <;> simp [Activity.receiving] at ha
  all_goals subst ha
  case receiveLoop h => simp [h.code_mem, receiveRest, joinReturn_mem_receiveTail]
  case receiveWaiting h => simp [h.code_mem, receiveRest, joinReturn_mem_receiveTail]
  all_goals simp [receiveRest, joinReturn_mem_receiveTail]

/-- A thread inside `Finish` is in the `Send` on the channel of a thread, or past it. -/
theorem Doing.of_destroy {fs : List ChannelFrame} (hd : Doing fs a) (hmem : .code .destroy ∈ fs) :
    (∃ t, a.sending = some (.thread t)) ∨ a = .out := by
  have hrec := destroy_notMem_receiveTail
  cases hd with
  | receiveLoop h | receiveWaiting h => simp [h.code_mem, receiveRest, hrec] at hmem
  | receiveWait | receivePop => simp [receiveRest, hrec] at hmem
  | receiveSignal => simp [hrec] at hmem
  | sendAppend h | sendWaiting h | sendReturn h =>
    simp [h.code_mem, destroy_mem_sendTail] at hmem
    simpa [Activity.sending] using hmem
  | sendSignal | sendRaise | sendHead | sendLoop | sendWait =>
    simp [destroy_mem_sendTail] at hmem
    simpa [Activity.sending] using hmem
  | _ => simp

/-- At the end of `Join` and of `Finish` a thread is out of the channel. -/
theorem Doing.out_of_end {rest : List ChannelFrame} {c : ChannelCode} (hd : Doing (.code c :: rest) a)
    (hc : c.channel = none) : a = .out := by
  cases hd with
  | sendAppend h | sendReturn h | receiveLoop h =>
    cases h
    cases hc
  | sendWaiting h | receiveWaiting h =>
    cases h with
    | entering h => cases h
  | joinReturn | destroy | receiveLeave => rfl
  | sendHead | sendLoop | receivePop => cases hc

/-- A thread that sleeps inside `Join` has not removed its message. -/
theorem Doing.receiving_of_p {j : SemId ChannelId Empty} {rest : List ChannelFrame}
    (hd : Doing (.p j :: rest) a) (hmem : .code (.joinReturn t) ∈ .p j :: rest) :
    a.receiving = some (.thread t) := by
  rcases hd.of_joinReturn hmem with h | rfl | rfl
  · exact h
  · cases hd
  · cases hd with
    | receiveLeave h =>
      rename_i k'
      generalize hfs : Frame.p j :: rest = fs at h
      cases h with
      | release => cases hfs
      | v => cases hfs
      | outside => cases k' <;> cases hfs

/-! ## What a move means for `Join` -/

/-- What a move of the thread `t` can change of what `Join` and `Finish` are about. -/
structure JoinEffect (w w' : ChannelView) (t : Tid) (a a' : Activity) : Prop where
  finished : w'.shared.finished = w.shared.finished
  joins : w'.shared.joins = w.shared.joins
  mensaje : ∀ u, u ≠ t → w'.shared.mensaje u = w.shared.mensaje u
  /-- A `Send` or `Receive` begins with a call. -/
  sending : ∀ k, a'.sending = some k → a.sending = some k
  receiving : ∀ k, a'.receiving = some k → a.receiving = some k
  append : ∀ k v, a' = .sendAppend k v → a = .sendAppend k v
  sent : ∀ k m, m ∈ (w'.shared.channel k).sent →
    m ∈ (w.shared.channel k).sent ∨ a = .sendAppend k m.value
  /-- A `Send` ends with its return. -/
  left : ∀ k, a.sending = some k →
    a'.sending = some k ∨ (w'.shared.channel k).returned ≠ []
  returned : ∀ k, (w.shared.channel k).returned ≠ [] → (w'.shared.channel k).returned ≠ []
  /-- Only a `Receive` that removes a message stores a value. -/
  popped : ∀ k, a.receiving = some k → a'.receiving = some k ∨
    ∃ m ∈ (w.shared.channel k).sent, w'.shared.mensaje t = m.value
  stored : a.receiving = none → w'.shared.mensaje t = w.shared.mensaje t
  received : ∀ k, (w'.shared.channel k).received ≠ [] →
    (w.shared.channel k).received ≠ [] ∨ (a.receiving = some k ∧ a'.receiving = none)

/-- A move that leaves alone what is shared, and at most goes on with the same `Send` or `Receive`. -/
theorem JoinEffect.same (hshared : w'.shared = w.shared) (hsending : a'.sending = a.sending)
    (hreceiving : a'.receiving = a.receiving)
    (happend : ∀ k v, a' = .sendAppend k v → a = .sendAppend k v) : JoinEffect w w' t a a' where
  finished := by rw [hshared]
  joins := by rw [hshared]
  mensaje := by simp [hshared]
  sending := by simp [hsending]
  receiving := by simp [hreceiving]
  append := happend
  sent := by
    rw [hshared]
    exact fun k m hm => .inl hm
  left := by
    rw [hsending]
    exact fun k hk => .inl hk
  returned := by
    rw [hshared]
    exact fun k hk => hk
  popped := by
    rw [hreceiving]
    exact fun k hk => .inl hk
  stored := by simp [hshared]
  received := by
    rw [hshared]
    exact fun k hk => .inl hk

/-- The effect of every move. -/
theorem ChannelMove.joinEffect (hc : ∀ k, ChannelInv w act k)
    (hmove : ChannelMove w t w' (act t) a') : JoinEffect w w' t (act t) a' := by
  generalize ha : act t = a at hmove
  cases hmove with
  | silent | enter _ _ | leave _ _ => exact .same rfl rfl rfl fun _ _ heq => heq
  | append ho =>
    rename_i k mensaje
    have hch : ∀ k', (((w.shared.append k mensaje).2).channel k').sent =
        (w.shared.channel k').sent ++ (if k' = k then [(w.shared.append k mensaje).1] else []) ∧
        (((w.shared.append k mensaje).2).channel k').received = (w.shared.channel k').received ∧
        (((w.shared.append k mensaje).2).channel k').returned = (w.shared.channel k').returned := by
      intro k'
      by_cases hk : k' = k
      · subst hk
        simp [Channels.append, Channels.setChannel]
      · simp [Channels.append, Channels.setChannel, hk]
    refine ⟨rfl, rfl, fun _ _ => rfl, ?_, ?_, ?_, ?_, ?_, ?_, ?_, fun _ => rfl, ?_⟩
    · simp [Activity.sending]
    · simp [Activity.receiving]
    · simp
    · intro k' m hm
      simp only [(hch k').1] at hm
      rcases List.mem_append.mp hm with hm | hm
      · exact .inl hm
      · by_cases hk : k' = k
        · subst hk
          simp only [if_true, List.mem_singleton] at hm
          rw [hm]
          exact .inr rfl
        · simp [hk] at hm
    · simp [Activity.sending]
    · intro k'
      simp only [(hch k').2.2]
      exact id
    · simp [Activity.receiving]
    · intro k'
      simp only [(hch k').2.1]
      exact .inl
  | signalReceiveNone _ _ | signalReceive _ _ _ | head _ _ | loopWait _ _ | loopExit _ _ | waitSend _ _
  | waitReturnSend _ _ | receiveEmpty _ _ | receiveFound _ _ | waitReceive _ | waitReturnReceive _ _
  | signalSendNone _ _ | signalSend _ _ _ => exact .same rfl rfl rfl fun _ _ heq => by cases heq
  | sendReturn =>
    rename_i k m
    have hch : ∀ k', k' ≠ k → (w.shared.setChannel k { w.shared.channel k with
        returned := (w.shared.channel k).returned ++ [m] }).channel k' = w.shared.channel k' := by
      intro k' hk
      simp [Channels.setChannel, hk]
    refine ⟨rfl, rfl, fun _ _ => rfl, ?_, ?_, ?_, ?_, ?_, ?_, ?_, fun _ => rfl, ?_⟩
    · simp [Activity.sending]
    · simp [Activity.receiving]
    · simp
    · intro k' m' hm
      by_cases hk : k' = k
      · subst hk
        exact .inl (by simpa [Channels.setChannel] using hm)
      · exact .inl (by simpa [hch k' hk] using hm)
    · intro k' hk'
      cases hk'
      exact .inr (by simp [Channels.setChannel])
    · intro k' hk'
      by_cases hk : k' = k
      · subst hk
        simp [Channels.setChannel]
      · simpa [hch k' hk] using hk'
    · simp [Activity.receiving]
    · intro k' hk'
      by_cases hk : k' = k
      · subst hk
        exact .inl (by simpa [Channels.setChannel] using hk')
      · exact .inl (by simpa [hch k' hk] using hk')
  | pop ho =>
    rename_i k
    obtain ⟨m, rest, hbuzon⟩ := List.exists_cons_of_ne_nil ((hc k).found ((stage_owner ho).trans ha))
    have hpop : w.shared.pop k t = { w.shared.setChannel k { w.shared.channel k with
        buzon := rest, received := (w.shared.channel k).received ++ [m] } with
          mensaje := Function.update w.shared.mensaje t m.value } := by
      simp [Channels.pop, hbuzon]
    have hch : ∀ k', ((w.shared.pop k t).channel k').sent = (w.shared.channel k').sent ∧
        ((w.shared.pop k t).channel k').returned = (w.shared.channel k').returned ∧
        (k' ≠ k → ((w.shared.pop k t).channel k').received = (w.shared.channel k').received) := by
      intro k'
      rw [hpop]
      by_cases hk : k' = k
      · subst hk
        simp [Channels.setChannel]
      · simp [Channels.setChannel, hk]
    refine ⟨?_, ?_, ?_, ?_, ?_, ?_, ?_, ?_, ?_, ?_, ?_, ?_⟩
    · simp only [hpop]
      rfl
    · simp only [hpop]
      rfl
    · intro u hu
      simp [hpop, hu]
    · simp [Activity.sending]
    · simp [Activity.receiving]
    · simp
    · intro k' m' hm
      exact .inl (by simpa only [(hch k').1] using hm)
    · simp [Activity.sending]
    · intro k'
      simp only [(hch k').2.1]
      exact id
    · intro k' hk'
      cases hk'
      refine .inr ⟨m, ?_, by simp [hpop]⟩
      rw [(hc k).sent_eq, hbuzon]
      exact List.mem_append_right _ (List.mem_cons_self ..)
    · simp [Activity.receiving]
    · intro k' hk'
      by_cases hk : k' = k
      · subst hk
        exact .inr ⟨rfl, rfl⟩
      · exact .inl (by simpa only [(hch k').2.2 hk] using hk')
  | joinReturn =>
    exact ⟨rfl, rfl, fun _ _ => rfl, by simp, by simp, by simp, fun _ _ hm => .inl hm,
      fun _ hk => .inl hk, fun _ hk => hk, fun _ hk => .inl hk, fun _ => rfl, fun _ hk => .inl hk⟩
  | destroy =>
    exact ⟨rfl, rfl, fun _ _ => rfl, by simp, by simp, by simp, fun _ _ hm => .inl hm,
      fun _ hk => .inl hk, fun _ hk => hk, fun _ hk => .inl hk, fun _ => rfl, fun _ hk => .inl hk⟩

/-! ## What a step does to the ends of `Join` and `Finish` -/

section Ends

variable {f : ChannelFrame} {rest : List ChannelFrame} {c : ChannelCode}

/-- The ends of `Join` and `Finish` come from calls only. -/
theorem exec_channel {c' : ChannelCode} {sh : Channels} {r : Channels × List ChannelFrame}
    (h : Channels.exec c' t sh = some r) (hc : c.channel = none) : .code c ∉ r.2 := by
  cases c'
  all_goals
    simp only [Channels.exec] at h
    repeat' split at h
    all_goals cases h
  all_goals
    simp
    try
      rintro rfl
      cases hc

/-- A step takes the ends of `Join` and `Finish` from the stack only when it executes them. -/
theorem end_mem_iff (hstack : s.stack t = f :: rest)
    (hexec : s.execFrame (channelUsers joinable) t f rest = some s') (hc : c.channel = none) :
    (.code c ∈ s'.stack t → .code c ∈ s.stack t) ∧
      (.code c ∈ s.stack t → f ≠ .code c → .code c ∈ s'.stack t) := by
  rw [hstack]
  rcases execFrame_stack hstack hexec with heq | ⟨frames, heq, hcode⟩
  · rw [heq]
    exact ⟨id, fun hmem _ => hmem⟩
  · rw [heq]
    refine ⟨fun hmem => ?_, fun hmem hne => ?_⟩
    · rcases List.mem_append.mp hmem with hmem | hmem
      · obtain ⟨c', r, -, hr, hmem⟩ := hcode c hmem
        exact absurd hmem (exec_channel hr hc)
      · exact List.mem_cons_of_mem f hmem
    · rcases List.mem_cons.mp hmem with heq | hmem
      · exact absurd heq.symm hne
      · exact List.mem_append_right _ hmem

/-- Only the ends of `Join` and `Finish` log a return and destroy a thread. -/
theorem exec_shared_cases (hexec : s.execFrame (channelUsers joinable) t f rest = some s') :
    (∃ t', f = .code (.joinReturn t') ∧ s'.shared.destroyed = s.shared.destroyed ∧
      s'.shared.joined = s.shared.joined ++ [(t, t', s.shared.mensaje t)]) ∨
    (f = .code .destroy ∧ s'.shared.destroyed = Function.update s.shared.destroyed t true ∧
      s'.shared.joined = s.shared.joined) ∨
    (f ≠ .code .destroy ∧ s'.shared.destroyed = s.shared.destroyed ∧
      s'.shared.joined = s.shared.joined) := by
  by_cases hk : ∃ c, f = .code c
  · obtain ⟨c, rfl⟩ := hk
    simp only [State.execFrame, Option.map_eq_some_iff] at hexec
    obtain ⟨r, hr, rfl⟩ := hexec
    cases c with
    | joinReturn t' =>
      cases hr
      exact .inl ⟨t', rfl, rfl, rfl⟩
    | destroy =>
      cases hr
      exact .inr (.inl ⟨rfl, rfl, rfl⟩)
    | pop k =>
      cases hr
      refine .inr (.inr ⟨by simp, ?_⟩)
      simp only [Channels.pop]
      split <;> exact ⟨rfl, rfl⟩
    | append k v | sendReturn k m =>
      cases hr
      exact .inr (.inr ⟨by simp, rfl, rfl⟩)
    | head k m | sendLoop k m b | receiveLoop k =>
      refine .inr (.inr ⟨by simp, ?_⟩)
      simp only [channelUsers, Channels.exec] at hr
      repeat' split at hr
      all_goals
        cases hr
        try exact ⟨rfl, rfl⟩
  · have hshared := execFrame_shared hexec fun c hc => hk ⟨c, hc⟩
    exact .inr (.inr ⟨fun hf => hk ⟨_, hf⟩, by rw [hshared], by rw [hshared]⟩)

end Ends

/-! ## The invariant -/

/-- The invariant of `Join` and `Finish`, as long as nobody joins a thread that was joined before. -/
structure JoinInv (joinable : Tid → Bool) (s : ChannelsState) (act : Tid → Activity) : Prop where
  /-- A thread that called `Finish` is still in it, or destroyed. -/
  finishing : ∀ t, s.shared.finished t ≠ none →
    .code .destroy ∈ s.stack t ∨ s.shared.destroyed t = true
  /-- Only the thread itself sends on its channel, and only its value. -/
  sender : ∀ u t, (act u).sending = some (.thread t) → u = t
  value : ∀ u t v, act u = .sendAppend (.thread t) v → s.shared.finished t = some v
  sent : ∀ t, ∀ m ∈ (s.shared.channel (.thread t)).sent, s.shared.finished t = some m.value
  /-- A caller of `Join` has not removed a message yet, or has the value. -/
  joining : ∀ u t, s.Joining u t → (u, t) ∈ s.shared.joins ∧ joinable t = true ∧
    ((act u).receiving = some (.thread t) ∨ s.shared.finished t = some (s.shared.mensaje u))
  joined : ∀ u t r, (u, t, r) ∈ s.shared.joined → s.shared.finished t = some r
  once : (s.shared.joins.map Prod.snd).Nodup
  /-- Once a message of a thread was removed, no caller is left. -/
  received : ∀ t, (s.shared.channel (.thread t)).received ≠ [] → t ∈ s.shared.joins.map Prod.snd ∧
    ∀ u, (act u).receiving ≠ some (.thread t)
  /-- At the end of `Finish` the `Send` has returned. -/
  leaving : ∀ t, .code .destroy ∈ s.stack t → joinable t = true →
    (act t).sending = some (.thread t) ∨ (s.shared.channel (.thread t)).returned ≠ []
  destroyed : ∀ t, s.shared.destroyed t = true → joinable t = true →
    (s.shared.channel (.thread t)).returned ≠ []

namespace JoinInv

theorem start (joinable : Tid → Bool) (priority : Tid → Int) :
    JoinInv joinable (channelsStart priority) fun _ => .out := by
  refine ⟨?_, ?_, ?_, ?_, ?_, ?_, ?_, ?_, ?_, ?_⟩
  all_goals simp [channelsStart, State.start, Channels.start, ChannelsState.Joining, Activity.sending]

/-- Two callers of `Join` on one thread are the same. -/
theorem caller_unique {v : Tid} (h : JoinInv joinable s act) (hu : (u, t) ∈ s.shared.joins)
    (hv : (v, t) ∈ s.shared.joins) : u = v := by
  have := List.inj_on_of_nodup_map h.once hu hv rfl
  cases this
  rfl

/-- A step of the thread `t`. -/
theorem exec (hi : ChannelsInv joinable s act) (h : JoinInv joinable s act)
    (hs : s.step (channelUsers joinable) (.exec t) = some s')
    (hmove : ChannelMove (channelView s) t (channelView s') (act t) a') :
    JoinInv joinable s' (Function.update act t a') := by
  obtain ⟨-, f, rest, hstack, hexec⟩ := step_exec_iff.mp hs
  have hother : ∀ u, u ≠ t → s'.stack u = s.stack u := fun u hu => execFrame_stack_other hexec hu
  have heff := hmove.joinEffect hi.channel
  have hfin : s'.shared.finished = s.shared.finished := heff.finished
  have hjoins : s'.shared.joins = s.shared.joins := heff.joins
  have hcases := exec_shared_cases hexec
  have hdestroy := end_mem_iff (c := .destroy) hstack hexec rfl
  have hjoin := fun t' => end_mem_iff (c := .joinReturn t') hstack hexec rfl
  have hsending : ∀ u k, (Function.update act t a' u).sending = some k → (act u).sending = some k := by
    intro u k hk
    by_cases hu : u = t
    · subst hu
      exact heff.sending k (by simpa using hk)
    · simpa [hu] using hk
  have hreceiving : ∀ u k, (Function.update act t a' u).receiving = some k →
      (act u).receiving = some k := by
    intro u k hk
    by_cases hu : u = t
    · subst hu
      exact heff.receiving k (by simpa using hk)
    · simpa [hu] using hk
  have hreturned : ∀ t', (s.shared.channel (.thread t')).returned ≠ [] →
      (s'.shared.channel (.thread t')).returned ≠ [] := fun t' => heff.returned (.thread t')
  have hmono : ∀ u, s.shared.destroyed u = true → s'.shared.destroyed u = true := by
    intro u hu
    rcases hcases with ⟨-, -, hd, -⟩ | ⟨-, hd, -⟩ | ⟨-, hd, -⟩
    · rw [hd]
      exact hu
    · rw [hd]
      by_cases hut : u = t
      · simp [hut]
      · simpa [hut] using hu
    · rw [hd]
      exact hu
  refine ⟨?_, ?_, ?_, ?_, ?_, ?_, ?_, ?_, ?_, ?_⟩
  · intro u hu
    rw [hfin] at hu
    rcases h.finishing u hu with hmem | hd
    · by_cases hut : u = t
      · subst hut
        by_cases hf : f = .code .destroy
        · rcases hcases with ⟨t', hf', -⟩ | ⟨-, hd, -⟩ | ⟨hf', -⟩
          · rw [hf] at hf'
            cases hf'
          · exact .inr (by simp [hd])
          · exact absurd hf hf'
        · exact .inl (hdestroy.2 hmem hf)
      · exact .inl (by rw [hother u hut]; exact hmem)
    · exact .inr (hmono u hd)
  · exact fun u t' hk => h.sender u t' (hsending u _ hk)
  · intro u t' v hv
    rw [hfin]
    by_cases hut : u = t
    · subst hut
      exact h.value u t' v (heff.append _ v (by simpa using hv))
    · exact h.value u t' v (by simpa [hut] using hv)
  · intro t' m hm
    rw [hfin]
    rcases heff.sent _ m hm with hm | ha
    · exact h.sent t' m hm
    · exact h.value t t' m.value ha
  · intro u t' hmem
    rw [hjoins, hfin]
    by_cases hut : u = t
    · subst hut
      have hold := (hjoin t').1 hmem
      obtain ⟨hj, hjoinable, hval⟩ := h.joining u t' hold
      refine ⟨hj, hjoinable, ?_⟩
      rw [Function.update_self]
      rcases (hi.doing u).of_joinReturn hold with hrec | hout
      · rcases heff.popped _ hrec with hrec' | ⟨m, hm, hmens⟩
        · exact .inl hrec'
        · right
          rw [h.sent t' m hm]
          exact congrArg some hmens.symm
      · -- past the `Receive` the thread keeps the value
        have hnone : (act u).receiving = none := by
          rcases hout with heq | heq <;> rw [heq] <;> rfl
        right
        rw [show s'.shared.mensaje u = s.shared.mensaje u from heff.stored hnone]
        exact hval.resolve_left (by rw [hnone]; simp)
    · have hold : s.Joining u t' := by
        rw [ChannelsState.Joining, ← hother u hut]
        exact hmem
      obtain ⟨hj, hjoinable, hval⟩ := h.joining u t' hold
      refine ⟨hj, hjoinable, ?_⟩
      rw [Function.update_of_ne hut, show s'.shared.mensaje u = s.shared.mensaje u from heff.mensaje u hut]
      exact hval
  · intro u t' r hmem
    rw [hfin]
    rcases hcases with ⟨t0, rfl, -, hj⟩ | ⟨-, -, hj⟩ | ⟨-, -, hj⟩
    · rw [hj] at hmem
      rcases List.mem_append.mp hmem with hmem | hmem
      · exact h.joined u t' r hmem
      · cases List.mem_singleton.mp hmem
        have hd := hi.doing t
        rw [hstack] at hd
        have hout := hd.out_of_end rfl
        obtain ⟨-, -, hval⟩ := h.joining t t' (by rw [ChannelsState.Joining, hstack]; simp)
        exact hval.resolve_left (by rw [hout]; simp [Activity.receiving])
    · exact h.joined u t' r (by rw [← hj]; exact hmem)
    · exact h.joined u t' r (by rw [← hj]; exact hmem)
  · rw [hjoins]
    exact h.once
  · intro t' hrec
    rw [hjoins]
    rcases heff.received _ hrec with hold | ⟨hact, hnone⟩
    · obtain ⟨hmem, hno⟩ := h.received t' hold
      exact ⟨hmem, fun u hu => hno u (hreceiving u _ hu)⟩
    · have hj := (h.joining t t' ((hi.doing t).joinReturn_mem hact)).1
      refine ⟨List.mem_map_of_mem hj, fun u hu => ?_⟩
      by_cases hut : u = t
      · subst hut
        rw [Function.update_self, hnone] at hu
        cases hu
      · have hu' := hreceiving u _ hu
        exact hut (h.caller_unique (h.joining u t' ((hi.doing u).joinReturn_mem hu')).1 hj)
  · intro u hmem hjoinable
    by_cases hut : u = t
    · subst hut
      rw [Function.update_self]
      rcases h.leaving u (hdestroy.1 hmem) hjoinable with hsend | hret
      · exact heff.left _ hsend
      · exact .inr (hreturned u hret)
    · rw [Function.update_of_ne hut]
      rw [hother u hut] at hmem
      rcases h.leaving u hmem hjoinable with hsend | hret
      · exact .inl hsend
      · exact .inr (hreturned u hret)
  · intro u hd hjoinable
    apply hreturned
    rcases hcases with ⟨-, -, hd', -⟩ | ⟨rfl, hd', -⟩ | ⟨-, hd', -⟩
    · exact h.destroyed u (by rw [← hd']; exact hd) hjoinable
    · by_cases hut : u = t
      · subst hut
        have hdo := hi.doing u
        rw [hstack] at hdo
        have hout := hdo.out_of_end rfl
        refine (h.leaving u (by rw [hstack]; simp) hjoinable).resolve_left ?_
        rw [hout]
        simp [Activity.sending]
      · rw [hd', Function.update_of_ne hut] at hd
        exact h.destroyed u hd hjoinable
    · exact h.destroyed u (by rw [← hd']; exact hd) hjoinable

/-- A call by a thread `t` that changes nothing of what `Join` and `Finish` are about. -/
theorem call_user (h : JoinInv joinable s act) (hstack : s.stack t = [])
    (hother : ∀ u, u ≠ t → s'.stack u = s.stack u) (hshared : s'.shared = s.shared)
    (hcode : ∀ c, .code c ∈ s'.stack t → c.channel ≠ none)
    (hsending : ∀ t', a'.sending ≠ some (.thread t'))
    (hreceiving : ∀ t', a'.receiving ≠ some (.thread t')) :
    JoinInv joinable s' (Function.update act t a') := by
  have hmem : ∀ u c, c.channel = none → .code c ∈ s'.stack u → u ≠ t ∧ .code c ∈ s.stack u := by
    intro u c hc hm
    have hut : u ≠ t := by
      rintro rfl
      exact hcode c hm hc
    exact ⟨hut, by rw [← hother u hut]; exact hm⟩
  have happ : ∀ u t' v, Function.update act t a' u = .sendAppend (.thread t') v →
      act u = .sendAppend (.thread t') v := by
    intro u t' v hv
    refine (of_update hv ?_).2
    rintro rfl
    exact hsending t' rfl
  refine ⟨?_, ?_, ?_, ?_, ?_, ?_, ?_, ?_, ?_, ?_⟩
  · rw [hshared]
    intro u hu
    rcases h.finishing u hu with hm | hd
    · have hut : u ≠ t := by
        rintro rfl
        rw [hstack] at hm
        cases hm
      exact .inl (by rw [hother u hut]; exact hm)
    · exact .inr hd
  · intro u t' hk
    by_cases hut : u = t
    · subst hut
      exact absurd (by simpa using hk) (hsending t')
    · exact h.sender u t' (by simpa [hut] using hk)
  · rw [hshared]
    exact fun u t' v hv => h.value u t' v (happ u t' v hv)
  · rw [hshared]
    exact h.sent
  · rw [hshared]
    intro u t' hm
    obtain ⟨hut, hold⟩ := hmem u _ rfl hm
    rw [Function.update_of_ne hut]
    exact h.joining u t' hold
  · rw [hshared]
    exact h.joined
  · rw [hshared]
    exact h.once
  · rw [hshared]
    intro t' hrec
    obtain ⟨hj, hno⟩ := h.received t' hrec
    refine ⟨hj, fun u => ?_⟩
    by_cases hut : u = t
    · subst hut
      simpa using hreceiving t'
    · simpa [hut] using hno u
  · rw [hshared]
    intro u hm hjoinable
    obtain ⟨hut, hold⟩ := hmem u _ rfl hm
    rw [Function.update_of_ne hut]
    exact h.leaving u hold hjoinable
  · rw [hshared]
    exact h.destroyed

/-- A thread calls `Join` on a thread that nobody has joined. -/
theorem call_join {t' : Tid} (h : JoinInv joinable s act) (hstack : s.stack t = [])
    (hjoinable : joinable t' = true) (hfirst : t' ∉ s.shared.joins.map Prod.snd) :
    JoinInv joinable { s.setStack t (Channels.receive (.thread t') ++ [.code (.joinReturn t')]) with
        shared := { s.shared with
          mensaje := Function.update s.shared.mensaje t 0
          joins := s.shared.joins ++ [(t, t')] } }
      (Function.update act t (.receiveLoop (.thread t'))) := by
  have hnone : ∀ c, .code c ∉ s.stack t := by simp [hstack]
  refine ⟨?_, ?_, ?_, h.sent, ?_, h.joined, ?_, ?_, ?_, h.destroyed⟩
  · intro u hu
    rcases h.finishing u hu with hm | hd
    · have hut : u ≠ t := by
        rintro rfl
        exact hnone _ hm
      exact .inl (by simpa [State.setStack, hut] using hm)
    · exact .inr hd
  · intro u t'' hk
    by_cases hut : u = t
    · subst hut
      simp [Activity.sending] at hk
    · exact h.sender u t'' (by simpa [hut] using hk)
  · intro u t'' v hv
    exact h.value u t'' v (of_update hv (by simp)).2
  · intro u t'' hm
    by_cases hut : u = t
    · subst hut
      obtain rfl : t'' = t' := by
        simpa [ChannelsState.Joining, State.setStack, Channels.receive] using hm
      exact ⟨by simp, hjoinable, .inl (by simp [Activity.receiving])⟩
    · have hold : s.Joining u t'' := by
        simpa [ChannelsState.Joining, State.setStack, hut] using hm
      obtain ⟨hj, hjoinable', hval⟩ := h.joining u t'' hold
      refine ⟨List.mem_append_left _ hj, hjoinable', ?_⟩
      simpa [hut] using hval
  · simp only [List.map_append, List.map_cons, List.map_nil]
    exact List.nodup_append.mpr ⟨h.once, List.nodup_singleton _, fun a ha b hb hab => hfirst (by
      rw [List.mem_singleton] at hb
      rw [← hb, ← hab]
      exact ha)⟩
  · intro t'' hrec
    obtain ⟨hj, hno⟩ := h.received t'' hrec
    refine ⟨by rw [List.map_append]; exact List.mem_append_left _ hj, fun u => ?_⟩
    by_cases hut : u = t
    · subst hut
      simp only [Function.update_self, Activity.receiving, ne_eq, Option.some.injEq,
        ChannelId.thread.injEq]
      rintro rfl
      exact hfirst hj
    · simpa [hut] using hno u
  · intro u hm hjoinable'
    by_cases hut : u = t
    · subst hut
      simp [State.setStack, Channels.receive] at hm
    · rw [Function.update_of_ne hut]
      exact h.leaving u (by simpa [State.setStack, hut] using hm) hjoinable'

/-- A thread calls `Finish`. -/
theorem call_finish {returnValue : Int} (h : JoinInv joinable s act) (hstack : s.stack t = [])
    (hdestroyed : s.shared.destroyed t = false) :
    JoinInv joinable { s.setStack t ((if joinable t then Channels.send (.thread t) returnValue else []) ++
          [.code .destroy]) with
        shared := { s.shared with
          finished := Function.update s.shared.finished t (some returnValue) } }
      (Function.update act t (ChannelCall.activity joinable t (.finish returnValue))) := by
  have hnone : ∀ c, .code c ∉ s.stack t := by simp [hstack]
  have hnew : s.shared.finished t = none := by
    by_contra hne
    rcases h.finishing t hne with hm | hd
    · exact hnone _ hm
    · rw [hdestroyed] at hd
      cases hd
  -- what other threads and messages say about a value is about another thread
  have hkeep : ∀ t' v, s.shared.finished t' = some v →
      Function.update s.shared.finished t (some returnValue) t' = some v := by
    intro t' v hv
    have : t' ≠ t := by
      rintro rfl
      rw [hnew] at hv
      cases hv
    rw [Function.update_of_ne this]
    exact hv
  have hact : (joinable t = true ∧ ChannelCall.activity joinable t (.finish returnValue) =
      .sendAppend (.thread t) returnValue) ∨
      (joinable t ≠ true ∧ ChannelCall.activity joinable t (.finish returnValue) = .out) := by
    by_cases hj : joinable t = true <;> simp [ChannelCall.activity, hj]
  generalize ChannelCall.activity joinable t (.finish returnValue) = a' at hact
  refine ⟨?_, ?_, ?_, ?_, ?_, ?_, h.once, ?_, ?_, h.destroyed⟩
  · intro u hu
    by_cases hut : u = t
    · subst hut
      exact .inl (by simp [State.setStack])
    · rcases h.finishing u (by simpa [hut] using hu) with hm | hd
      · exact .inl (by simpa [State.setStack, hut] using hm)
      · exact .inr hd
  · intro u t' hk
    by_cases hut : u = t
    · subst hut
      rcases hact with ⟨-, rfl⟩ | ⟨-, rfl⟩
      · simpa [Activity.sending] using hk
      · simp [Activity.sending] at hk
    · exact h.sender u t' (by simpa [hut] using hk)
  · intro u t' v hv
    by_cases hut : u = t
    · subst hut
      rcases hact with ⟨-, rfl⟩ | ⟨-, rfl⟩
      · simp only [Function.update_self, Activity.sendAppend.injEq, ChannelId.thread.injEq] at hv
        obtain ⟨rfl, rfl⟩ := hv
        simp
      · simp at hv
    · exact hkeep t' v (h.value u t' v (by simpa [hut] using hv))
  · exact fun t' m hm => hkeep t' _ (h.sent t' m hm)
  · intro u t' hm
    by_cases hut : u = t
    · subst hut
      by_cases hj : joinable u = true <;>
        simp [ChannelsState.Joining, State.setStack, Channels.send, hj] at hm
    · have hold : s.Joining u t' := by
        simpa [ChannelsState.Joining, State.setStack, hut] using hm
      obtain ⟨hj, hjoinable', hval⟩ := h.joining u t' hold
      refine ⟨hj, hjoinable', ?_⟩
      rw [Function.update_of_ne hut]
      rcases hval with hval | hval
      · exact .inl hval
      · exact .inr (hkeep t' _ hval)
  · exact fun u t' r hm => hkeep t' r (h.joined u t' r hm)
  · intro t' hrec
    obtain ⟨hj, hno⟩ := h.received t' hrec
    refine ⟨hj, fun u => ?_⟩
    by_cases hut : u = t
    · subst hut
      rcases hact with ⟨-, rfl⟩ | ⟨-, rfl⟩ <;> simp [Activity.receiving]
    · simpa [hut] using hno u
  · intro u hm hjoinable'
    by_cases hut : u = t
    · subst hut
      rcases hact with ⟨-, rfl⟩ | ⟨hj, -⟩
      · exact .inl (by simp [Activity.sending])
      · exact absurd hjoinable' hj
    · rw [Function.update_of_ne hut]
      exact h.leaving u (by simpa [State.setStack, hut] using hm) hjoinable'

/-- Every step that meets the condition keeps the invariant. -/
theorem step {e : Event ChannelCall} (h : ∃ act, ChannelsInv joinable s act ∧ JoinInv joinable s act)
    (hcond : OneJoin s e) (hs : s.step (channelUsers joinable) e = some s') :
    ∃ act, ChannelsInv joinable s' act ∧ JoinInv joinable s' act := by
  obtain ⟨act, hi, h⟩ := h
  cases e with
  | exec t =>
    obtain ⟨a', hmove, hi'⟩ := hi.exec hs
    exact ⟨_, hi', exec hi h hs hmove⟩
  | call t i =>
    obtain ⟨r, hr, hstack, hs', hi'⟩ := hi.call hs
    refine ⟨_, hi', ?_⟩
    simp only [Channels.call] at hr
    split at hr
    · cases hr
    · rename_i hdestroyed
      cases i with
      | send n mensaje =>
        cases hr
        subst hs'
        refine h.call_user hstack (fun u hu => by simp [State.setStack, hu]) rfl ?_ ?_ ?_
        · intro c hm
          obtain rfl : c = .append (.user n) mensaje := by
            simpa [State.setStack, Channels.send] using hm
          simp [ChannelCode.channel]
        · simp [ChannelCall.activity, Activity.sending]
        · simp [ChannelCall.activity, Activity.receiving]
      | receive n =>
        cases hr
        subst hs'
        refine h.call_user hstack (fun u hu => by simp [State.setStack, hu]) rfl ?_ ?_ ?_
        · intro c hm
          have : c = .receiveLoop (.user n) ∨ c = .pop (.user n) := by
            simpa [State.setStack, Channels.receive] using hm
          rcases this with rfl | rfl <;> simp [ChannelCode.channel]
        · simp [ChannelCall.activity, Activity.sending]
        · simp [ChannelCall.activity, Activity.receiving]
      | join t' =>
        simp only at hr
        split at hr
        · rename_i hj
          cases hr
          subst hs'
          exact h.call_join hstack hj.1 hcond
        · cases hr
      | finish returnValue =>
        cases hr
        subst hs'
        exact h.call_finish hstack (by simpa using hdestroyed)

end JoinInv

/-- As long as `Join` is called at most once on each thread: a `Join` that returns returns the value with
which the thread called `Finish`, and not before it did so, and when a thread is destroyed nobody sleeps
in a `Join` on it. -/
theorem join_of_run (joinable : Tid → Bool) (priority : Tid → Int) {es : List (Event ChannelCall)}
    {s : ChannelsState}
    (hall : AllSteps (State.step (channelUsers joinable)) OneJoin (channelsStart priority) es)
    (hrun : runs (State.step (channelUsers joinable)) (channelsStart priority) es = some s) :
    (∀ u t r, (u, t, r) ∈ s.shared.joined → s.shared.finished t = some r) ∧
    ∀ t, s.shared.destroyed t = true → ∀ u, s.Joining u t → s.asleep u = false := by
  have hstart : ∃ act, ChannelsInv joinable (channelsStart priority) act ∧
      JoinInv joinable (channelsStart priority) act :=
    ⟨_, ChannelsInv.start joinable priority, JoinInv.start joinable priority⟩
  obtain ⟨act, hi, h⟩ := runs_inv (fun _ _ _ hI hP hs => JoinInv.step hI hP hs) hstart hall hrun
  refine ⟨h.joined, fun t hd u hu => ?_⟩
  by_contra hasleep
  rw [Bool.not_eq_false] at hasleep
  obtain ⟨init, hok⟩ := hi.ok
  obtain ⟨j, rest, hstack⟩ := hok.asleep_head hasleep
  obtain ⟨-, hjoinable, -⟩ := h.joining u t hu
  have hdo := hi.doing u
  rw [ChannelsState.Joining, hstack] at hu
  rw [hstack] at hdo
  have hreceiving := hdo.receiving_of_p hu
  -- the `Send` of `t` has returned, so its message was removed
  obtain ⟨m, hm⟩ := List.exists_mem_of_ne_nil _ (h.destroyed t hd hjoinable)
  have hrec := (hi.channel (.thread t)).returned m hm
  exact (h.received t (List.ne_nil_of_mem hrec)).2 u hreceiving

/-- Thread 0 joins thread 2, which finishes with the value 7; the callers in `others` have called `Join`
in between and sleep. -/
def joinRun (others : List Tid) : List (Event ChannelCall) :=
  Event.call 0 (ChannelCall.join 2) :: List.replicate 8 (Event.exec 0) ++
    others.flatMap (fun u => Event.call u (ChannelCall.join 2) :: List.replicate 8 (Event.exec u)) ++
      Event.call 2 (ChannelCall.finish 7) :: List.replicate 12 (Event.exec 2) ++ List.replicate 12 (Event.exec 0) ++
        List.replicate 10 (Event.exec 2)

theorem join_of_run_oneCaller : ∃ s : ChannelsState,
    runs (State.step (channelUsers fun _ => true)) (channelsStart fun _ => 0) (joinRun []) = some s ∧
    s.shared.joined = [(0, 2, 7)] ∧ s.shared.destroyed 2 = true ∧ s.shared.finished 2 = some 7 := by
  obtain ⟨s, hs⟩ := Option.isSome_iff_exists.mp (show (runs (State.step (channelUsers fun _ => true))
    (channelsStart fun _ => 0) (joinRun [])).isSome = true by rfl)
  have hview : (some s).map (fun s => (s.shared.joined, s.shared.destroyed 2)) =
      some ([(0, 2, 7)], true) := by
    rw [← hs]
    rfl
  simp only [Option.map_some, Option.some.injEq, Prod.mk.injEq] at hview
  obtain ⟨hjoined, hdestroyed⟩ := hview
  refine ⟨s, hs, hjoined, hdestroyed, ?_⟩
  exact (join_of_run (fun _ => true) (fun _ => 0) (by decide) hs).1 0 2 7 (by simp [hjoined])

/-- With a second caller: thread 2 was joined by thread 0 and destroyed while thread 1 sleeps in its
`Join`. -/
theorem second_join_stranded : ∃ s : ChannelsState,
    runs (State.step (channelUsers fun _ => true)) (channelsStart fun _ => 0) (joinRun [1]) = some s ∧
    (0, 2, 7) ∈ s.shared.joined ∧ s.shared.destroyed 2 = true ∧ s.Joining 1 2 ∧ s.asleep 1 = true := by
  obtain ⟨s, hs⟩ := Option.isSome_iff_exists.mp (show (runs (State.step (channelUsers fun _ => true))
    (channelsStart fun _ => 0) (joinRun [1])).isSome = true by rfl)
  have hview : (some s).map (fun s => (s.shared.joined, s.shared.destroyed 2, (s.stack 1).getLast?,
      s.asleep 1)) = some ([(0, 2, 7)], true, some (.code (.joinReturn 2)), true) := by
    rw [← hs]
    rfl
  simp only [Option.map_some, Option.some.injEq, Prod.mk.injEq] at hview
  obtain ⟨hjoined, hdestroyed, hlast, hasleep⟩ := hview
  exact ⟨s, hs, by simp [hjoined], hdestroyed, List.mem_of_getLast? hlast, hasleep⟩

end Nachos.Synch
