import Nachos.Threads.Proofs.ChannelStepProofs

/-!
# Proofs: channels

The invariant counts. A message that is in the mailbox while receivers are queued has a receiver that
was signalled for it, and the senders are queued in the order of their messages, at least as many as
there are messages, so that a sender is signalled only when its message is gone.
-/

namespace Nachos.Synch

open Foundations

variable {joinable : Tid → Bool} {s s' : ChannelsState} {t u : Tid} {k : ChannelId}
  {w w' : ChannelView} {act : Tid → Activity} {a' : Activity}

/-! ## The view after a move -/

namespace ChannelView

variable {c : ChannelCond} {n : Nat} {q : List Nat}

@[simp] theorem select_shared : (w.select c t n q).shared = w.shared := rfl
@[simp] theorem select_sleepers : (w.select c t n q).sleepers = w.sleepers := rfl
@[simp] theorem select_cola : (w.select c t n q).cola = Function.update w.cola c q := rfl
@[simp] theorem select_log :
    (w.select c t n q).log = Function.update w.log c (w.log c ++ [.select t n]) := rfl

@[simp] theorem wait_shared : (w.wait c t).shared = w.shared := rfl
@[simp] theorem wait_sleepers : (w.wait c t).sleepers = w.sleepers + 1 := rfl
@[simp] theorem wait_cola :
    (w.wait c t).cola = Function.update w.cola c (w.cola c ++ [w.sleepers]) := rfl
@[simp] theorem wait_log :
    (w.wait c t).log = Function.update w.log c (w.log c ++ [.wait t w.sleepers]) := rfl

@[simp] theorem waitReturn_shared : (w.waitReturn c t n).shared = w.shared := rfl
@[simp] theorem waitReturn_sleepers : (w.waitReturn c t n).sleepers = w.sleepers := rfl
@[simp] theorem waitReturn_cola : (w.waitReturn c t n).cola = w.cola := rfl
@[simp] theorem waitReturn_log :
    (w.waitReturn c t n).log = Function.update w.log c (w.log c ++ [.waitReturn t n]) := rfl

end ChannelView

/-! ## The activity of the thread that holds the lock -/

theorem stage_owner (h : w.lockOwner k = some t) : w.stage act k = act t := by
  simp [ChannelView.stage, h]

theorem stage_owner_update (h : w.lockOwner k = some t) :
    w.stage (Function.update act t a') k = a' := by
  rw [stage_owner h, Function.update_self]

theorem stage_none (h : w.lockOwner k = none) : w.stage act k = .out := by
  simp [ChannelView.stage, h]

/-- Another activity of a thread that does not hold the lock makes no difference. -/
theorem stage_update (howner : w'.lockOwner k = w.lockOwner k) (h : w.lockOwner k ≠ some t) :
    w'.stage (Function.update act t a') k = w.stage act k := by
  simp only [ChannelView.stage, howner]
  cases ho : w.lockOwner k with
  | none => rfl
  | some u =>
    have hu : u ≠ t := by
      rintro rfl
      exact h ho
    simp [hu]

namespace Activity

theorem popped_of_channel {a : Activity} (h : a.channel ≠ some k) : a.popped k = 0 := by
  cases a <;> simp_all [channel, popped]

theorem appended_of_channel {a : Activity} (h : a.channel ≠ some k) (r : Nat) :
    a.appended k r = 0 := by
  cases a <;> simp_all [channel, appended]

theorem covered_of_channel {a : Activity} (h : a.channel ≠ some k) : a.covered k = 0 := by
  cases a <;> simp_all [channel, covered]

theorem message_of_channel {a : Activity} {m : Mensaje} (h : a.message = some (k, m)) :
    a.channel = some k := by
  cases a <;> simp_all [channel, message]

theorem Calm.weights {a : Activity} (h : a.Calm) (r : Nat) :
    a.popped k = 0 ∧ a.appended k r = 0 ∧ a.covered k = 0 := by
  cases a <;> first | exact h.elim | exact ⟨rfl, rfl, rfl⟩

end Activity

/-! ## The invariant -/

/-- The invariant of the channel `k`. -/
structure ChannelInv (w : ChannelView) (act : Tid → Activity) (k : ChannelId) : Prop where
  sent_eq : (w.shared.channel k).sent = (w.shared.channel k).received ++ (w.shared.channel k).buzon
  ids : ∀ (i : Nat) (m : Mensaje), (w.shared.channel k).sent[i]? = some m → m.id = i
  /-- A sender knows its message. -/
  mine : ∀ t m, (act t).message = some (k, m) → m ∈ (w.shared.channel k).sent
  /-- There are enough queued senders. -/
  balance : (w.shared.channel k).buzon.length + (w.stage act k).popped k ≤
    (w.cola (.send k)).length +
      (w.stage act k).appended k (w.shared.channel k).received.length
  /-- The senders are queued in the order of their messages. -/
  order : ∀ t m b n, act t = .sendWaiting k m b n → ∀ before after,
    w.cola (.send k) = before ++ n :: after →
    m.id + (w.stage act k).popped k ≤ (w.shared.channel k).received.length + before.length
  /-- The message of a sender that was selected is gone. -/
  selected : ∀ t m b n, act t = .sendWaiting k m b n → n ∉ w.cola (.send k) →
    m.id < (w.shared.channel k).received.length
  old : ∀ t m b n, act t = .sendWaiting k m b n → n < w.sleepers
  /-- A sender that looks for the first time remembers the first message. -/
  loop : ∀ m b, w.stage act k = .sendLoop k m b → m.id < (w.shared.channel k).received.length ∨
    ∃ first rest, (w.shared.channel k).buzon = first :: rest ∧ first.value = b
  done : ∀ t m, act t = .sendReturn k m → m.id < (w.shared.channel k).received.length
  returned : ∀ m ∈ (w.shared.channel k).returned, m ∈ (w.shared.channel k).received
  /-- While receivers are queued, others were signalled for the messages. -/
  waiting : w.cola (.receive k) ≠ [] → (w.shared.channel k).buzon.length ≤
    (signalled (w.log (.receive k))).length + (w.stage act k).covered k
  empty : w.stage act k = .receiveWait k → (w.shared.channel k).buzon = []
  found : w.stage act k = .receivePop k → (w.shared.channel k).buzon ≠ []

/-- An activity that is not the new one of `t` is that of another thread. -/
theorem of_update {a : Activity} (h : Function.update act t a' u = a) (hne : a' ≠ a) :
    u ≠ t ∧ act u = a := by
  by_cases hu : u = t
  · subst hu
    exact absurd (by simpa using h) hne
  · exact ⟨hu, by simpa [hu] using h⟩

namespace ChannelInv

/-- A message is gone when its number is below the number of removed messages. -/
theorem mem_received {m : Mensaje} (h : ChannelInv w act k) (hm : m ∈ (w.shared.channel k).sent)
    (hlt : m.id < (w.shared.channel k).received.length) : m ∈ (w.shared.channel k).received := by
  obtain ⟨i, hi⟩ := List.mem_iff_getElem?.mp hm
  have hid := h.ids i m hi
  rw [h.sent_eq, List.getElem?_append_left (by omega)] at hi
  exact List.mem_of_getElem? hi

/-- A message that was removed is not in the mailbox: its two places in `sent` would have the same
number. -/
theorem notMem_buzon {m : Mensaje} (h : ChannelInv w act k)
    (hrec : m ∈ (w.shared.channel k).received) : m ∉ (w.shared.channel k).buzon := by
  intro hbuzon
  obtain ⟨i, hi⟩ := List.mem_iff_getElem?.mp hrec
  obtain ⟨j, hj⟩ := List.mem_iff_getElem?.mp hbuzon
  have hlt := (List.getElem?_eq_some_iff.mp hi).1
  have h1 := h.ids i m (by rw [h.sent_eq, List.getElem?_append_left hlt]; exact hi)
  have h2 := h.ids ((w.shared.channel k).received.length + j) m (by
    rw [h.sent_eq, List.getElem?_append_right (Nat.le_add_right _ _), Nat.add_sub_cancel_left]
    exact hj)
  omega

/-- The number of a message that was sent. -/
theorem id_lt {m : Mensaje} (h : ChannelInv w act k) (hm : m ∈ (w.shared.channel k).sent) :
    m.id < (w.shared.channel k).received.length + (w.shared.channel k).buzon.length := by
  obtain ⟨i, hi⟩ := List.mem_iff_getElem?.mp hm
  have hid := h.ids i m hi
  have hlt := (List.getElem?_eq_some_iff.mp hi).1
  rw [h.sent_eq, List.length_append] at hlt
  omega

/-- A move that changes neither the mailbox nor the queues of the channel. -/
theorem stay (h : ChannelInv w act k) (hch : w'.shared.channel k = w.shared.channel k)
    (hsend : w'.cola (.send k) = w.cola (.send k))
    (hreceive : w'.cola (.receive k) = w.cola (.receive k))
    (hlog : w'.log (.receive k) = w.log (.receive k)) (hsleepers : w.sleepers ≤ w'.sleepers)
    (hpop : (w'.stage (Function.update act t a') k).popped k ≤ (w.stage act k).popped k)
    (happ : (w.stage act k).appended k (w.shared.channel k).received.length ≤
      (w'.stage (Function.update act t a') k).appended k (w.shared.channel k).received.length)
    (hcov : w.cola (.receive k) ≠ [] → (w.shared.channel k).buzon ≠ [] →
      (w.stage act k).covered k ≤ (w'.stage (Function.update act t a') k).covered k)
    (hmsg : ∀ m, a'.message = some (k, m) → m ∈ (w.shared.channel k).sent)
    (hwaiting : ∀ m b n, a' = .sendWaiting k m b n → act t = .sendWaiting k m b n)
    (hdone : ∀ m, a' = .sendReturn k m → m.id < (w.shared.channel k).received.length)
    (hloop : ∀ m b, w'.stage (Function.update act t a') k = .sendLoop k m b →
      m.id < (w.shared.channel k).received.length ∨
        ∃ first rest, (w.shared.channel k).buzon = first :: rest ∧ first.value = b)
    (hempty : w'.stage (Function.update act t a') k = .receiveWait k →
      (w.shared.channel k).buzon = [])
    (hfound : w'.stage (Function.update act t a') k = .receivePop k →
      (w.shared.channel k).buzon ≠ []) :
    ChannelInv w' (Function.update act t a') k := by
  have hwait : ∀ u m b n, Function.update act t a' u = .sendWaiting k m b n →
      act u = .sendWaiting k m b n := by
    intro u m b n hu
    by_cases hut : u = t
    · subst hut
      exact hwaiting m b n (by simpa using hu)
    · simpa [hut] using hu
  refine ⟨?_, ?_, ?_, ?_, ?_, ?_, ?_, ?_, ?_, ?_, ?_, ?_, ?_⟩
  · rw [hch]
    exact h.sent_eq
  · rw [hch]
    exact h.ids
  · rw [hch]
    intro u m hu
    by_cases hut : u = t
    · subst hut
      exact hmsg m (by simpa using hu)
    · exact h.mine u m (by simpa [hut] using hu)
  · rw [hch, hsend]
    have := h.balance
    omega
  · rw [hch, hsend]
    intro u m b n hu before after hcola
    have := h.order u m b n (hwait u m b n hu) before after hcola
    omega
  · rw [hch, hsend]
    intro u m b n hu hn
    exact h.selected u m b n (hwait u m b n hu) hn
  · intro u m b n hu
    have := h.old u m b n (hwait u m b n hu)
    omega
  · rw [hch]
    exact hloop
  · rw [hch]
    intro u m hu
    by_cases hut : u = t
    · subst hut
      exact hdone m (by simpa using hu)
    · exact h.done u m (by simpa [hut] using hu)
  · rw [hch]
    exact h.returned
  · rw [hch, hreceive, hlog]
    intro hq
    by_cases hnil : (w.shared.channel k).buzon = []
    · simp [hnil]
    · have h1 := h.waiting hq
      have h2 := hcov hq hnil
      omega
  · rw [hch]
    exact hempty
  · rw [hch]
    exact hfound

/-- A thread goes from one activity that owes nothing to another. -/
theorem calm (h : ChannelInv w act k) (ha : (act t).Calm) (ha' : a'.Calm)
    (hch : w'.shared.channel k = w.shared.channel k)
    (hsend : w'.cola (.send k) = w.cola (.send k))
    (hreceive : w'.cola (.receive k) = w.cola (.receive k))
    (hlog : w'.log (.receive k) = w.log (.receive k)) (hsleepers : w.sleepers ≤ w'.sleepers)
    (howner : w'.lockOwner k = w.lockOwner k)
    (hmsg : ∀ m, a'.message = some (k, m) → m ∈ (w.shared.channel k).sent)
    (hwaiting : ∀ m b n, a' = .sendWaiting k m b n → act t = .sendWaiting k m b n)
    (hdone : ∀ m, a' = .sendReturn k m → m.id < (w.shared.channel k).received.length) :
    ChannelInv w' (Function.update act t a') k := by
  by_cases ho : w.lockOwner k = some t
  · have hst : w.stage act k = act t := stage_owner ho
    have hst' : w'.stage (Function.update act t a') k = a' := stage_owner_update (howner.trans ho)
    have hz := ha.weights (k := k) (w.shared.channel k).received.length
    have hz' := ha'.weights (k := k) (w.shared.channel k).received.length
    refine h.stay hch hsend hreceive hlog hsleepers ?_ ?_ ?_ hmsg hwaiting hdone ?_ ?_ ?_
    · rw [hst', hz'.1]
      exact Nat.zero_le _
    · rw [hst, hz.2.1]
      exact Nat.zero_le _
    · intro _ _
      rw [hst, hz.2.2]
      exact Nat.zero_le _
    all_goals
      rw [hst']
      intros
      subst a'
      exact ha'.elim
  · have hst : w'.stage (Function.update act t a') k = w.stage act k := stage_update howner ho
    refine h.stay hch hsend hreceive hlog hsleepers ?_ ?_ ?_ hmsg hwaiting hdone ?_ ?_ ?_
    · rw [hst]
    · rw [hst]
    · intro _ _
      rw [hst]
    · rw [hst]
      exact h.loop
    · rw [hst]
      exact h.empty
    · rw [hst]
      exact h.found

/-- A thread that holds the lock goes to another activity, and the mailbox and the queues stay. -/
theorem owned (h : ChannelInv w act k) (ho : w.lockOwner k = some t)
    (hch : w'.shared.channel k = w.shared.channel k) (howner : w'.lockOwner k = w.lockOwner k)
    (hsend : w'.cola (.send k) = w.cola (.send k))
    (hreceive : w'.cola (.receive k) = w.cola (.receive k))
    (hlog : w'.log (.receive k) = w.log (.receive k)) (hsleepers : w.sleepers ≤ w'.sleepers)
    (hpop : a'.popped k ≤ (act t).popped k)
    (happ : (act t).appended k (w.shared.channel k).received.length ≤
      a'.appended k (w.shared.channel k).received.length)
    (hcov : w.cola (.receive k) ≠ [] → (w.shared.channel k).buzon ≠ [] →
      (act t).covered k ≤ a'.covered k)
    (hmsg : ∀ m, a'.message = some (k, m) → m ∈ (w.shared.channel k).sent)
    (hwaiting : ∀ m b n, a' ≠ .sendWaiting k m b n)
    (hdone : ∀ m, a' = .sendReturn k m → m.id < (w.shared.channel k).received.length)
    (hloop : ∀ m b, a' = .sendLoop k m b → m.id < (w.shared.channel k).received.length ∨
      ∃ first rest, (w.shared.channel k).buzon = first :: rest ∧ first.value = b)
    (hempty : a' = .receiveWait k → (w.shared.channel k).buzon = [])
    (hfound : a' = .receivePop k → (w.shared.channel k).buzon ≠ []) :
    ChannelInv w' (Function.update act t a') k := by
  have hst : w.stage act k = act t := stage_owner ho
  have hst' : w'.stage (Function.update act t a') k = a' := stage_owner_update (howner.trans ho)
  refine h.stay hch hsend hreceive hlog hsleepers ?_ ?_ ?_ hmsg
    (fun m b n heq => absurd heq (hwaiting m b n)) hdone ?_ ?_ ?_
  · rw [hst, hst']
    exact hpop
  · rw [hst, hst']
    exact happ
  · rw [hst, hst']
    exact hcov
  · rw [hst']
    exact hloop
  · rw [hst']
    exact hempty
  · rw [hst']
    exact hfound

/-- The activities, the mailbox and the queues stay, and the lock may get another owner. -/
theorem keep (h : ChannelInv w act k) (hch : w'.shared = w.shared) (hcola : w'.cola = w.cola)
    (hlog : w'.log = w.log) (hsleepers : w'.sleepers = w.sleepers)
    (hpop : (w'.stage act k).popped k ≤ (w.stage act k).popped k)
    (happ : (w.stage act k).appended k (w.shared.channel k).received.length ≤
      (w'.stage act k).appended k (w.shared.channel k).received.length)
    (hcov : (w.stage act k).covered k ≤ (w'.stage act k).covered k)
    (hloop : ∀ m b, w'.stage act k = .sendLoop k m b → w.stage act k = .sendLoop k m b)
    (hempty : w'.stage act k = .receiveWait k → w.stage act k = .receiveWait k)
    (hfound : w'.stage act k = .receivePop k → w.stage act k = .receivePop k) :
    ChannelInv w' act k := by
  suffices hs : ChannelInv w' (Function.update act 0 (act 0)) k by
    rwa [Function.update_eq_self] at hs
  refine h.stay (by rw [hch]) (by rw [hcola]) (by rw [hcola]) (by rw [hlog]) hsleepers.ge ?_ ?_ ?_
    (h.mine 0) (fun _ _ _ heq => heq) (h.done 0) ?_ ?_ ?_
  all_goals rw [Function.update_eq_self]
  · exact hpop
  · exact happ
  · exact fun _ _ => hcov
  · exact fun m b heq => h.loop m b (hloop m b heq)
  · exact fun heq => h.empty (hempty heq)
  · exact fun heq => h.found (hfound heq)

/-- A thread gets the lock of `k`. -/
theorem enter (h : ChannelInv w act k) (hcalm : (act t).Calm ∨ act t = .receiveLoop k)
    (hfree : w.lockOwner k = none) : ChannelInv (w.enter k t) act k := by
  have hst : w.stage act k = .out := stage_none hfree
  have hst' : (w.enter k t).stage act k = act t := stage_owner (by simp [ChannelView.enter])
  have hpopped : (act t).popped k = 0 := by
    rcases hcalm with hcalm | heq
    · exact (hcalm.weights 0).1
    · rw [heq]
      rfl
  refine h.keep rfl rfl rfl rfl ?_ ?_ ?_ ?_ ?_ ?_
  all_goals rw [hst, hst']
  · rw [hpopped]
    exact Nat.zero_le _
  · exact Nat.zero_le _
  · exact Nat.zero_le _
  · intro m b heq
    simp [heq, Activity.Calm] at hcalm
  · intro heq
    simp [heq, Activity.Calm] at hcalm
  · intro heq
    simp [heq, Activity.Calm] at hcalm

/-- A thread frees the lock of `k`. -/
theorem leave (h : ChannelInv w act k) (hcalm : (act t).Calm) (ho : w.lockOwner k = some t) :
    ChannelInv (w.leave k) act k := by
  have hst : w.stage act k = act t := stage_owner ho
  have hst' : (w.leave k).stage act k = .out := stage_none (by simp [ChannelView.leave])
  have hz := hcalm.weights (k := k) (w.shared.channel k).received.length
  refine h.keep rfl rfl rfl rfl ?_ ?_ ?_ ?_ ?_ ?_
  all_goals rw [hst, hst']
  · exact Nat.zero_le _
  · rw [hz.2.1]
    exact Nat.zero_le _
  · rw [hz.2.2]
    exact Nat.zero_le _
  all_goals simp

/-- The owner of another lock changes. -/
theorem otherLock (h : ChannelInv w act k) (howner : w'.lockOwner k = w.lockOwner k)
    (hshared : w'.shared = w.shared) (hcola : w'.cola = w.cola) (hlog : w'.log = w.log)
    (hsleepers : w'.sleepers = w.sleepers) : ChannelInv w' act k := by
  have hst : w'.stage act k = w.stage act k := by simp only [ChannelView.stage, howner]
  refine h.keep hshared hcola hlog hsleepers ?_ ?_ ?_ ?_ ?_ ?_
  all_goals simp [hst]

/-- A move on another channel. -/
theorem other (h : ChannelInv w act k) (ha : (act t).channel ≠ some k) (ha' : a'.channel ≠ some k)
    (hch : w'.shared.channel k = w.shared.channel k) (howner : w'.lockOwner k = w.lockOwner k)
    (hsend : w'.cola (.send k) = w.cola (.send k))
    (hreceive : w'.cola (.receive k) = w.cola (.receive k))
    (hlog : w'.log (.receive k) = w.log (.receive k)) (hsleepers : w.sleepers ≤ w'.sleepers) :
    ChannelInv w' (Function.update act t a') k := by
  have hwaiting : ∀ m b n, a' = .sendWaiting k m b n → act t = .sendWaiting k m b n := by
    rintro m b n rfl
    exact absurd rfl ha'
  have hdone : ∀ m, a' = .sendReturn k m → m.id < (w.shared.channel k).received.length := by
    rintro m rfl
    exact absurd rfl ha'
  have hmsg : ∀ m, a'.message = some (k, m) → m ∈ (w.shared.channel k).sent := fun m hm =>
    absurd (Activity.message_of_channel hm) ha'
  by_cases ho : w.lockOwner k = some t
  · have hst : w.stage act k = act t := stage_owner ho
    have hst' : w'.stage (Function.update act t a') k = a' := stage_owner_update (howner.trans ho)
    refine h.stay hch hsend hreceive hlog hsleepers ?_ ?_ ?_ hmsg hwaiting hdone ?_ ?_ ?_
    · rw [hst', Activity.popped_of_channel ha']
      exact Nat.zero_le _
    · rw [hst, Activity.appended_of_channel ha]
      exact Nat.zero_le _
    · intro _ _
      rw [hst, Activity.covered_of_channel ha]
      exact Nat.zero_le _
    all_goals
      rw [hst']
      intros
      subst a'
      exact absurd rfl ha'
  · have hst : w'.stage (Function.update act t a') k = w.stage act k := stage_update howner ho
    refine h.stay hch hsend hreceive hlog hsleepers ?_ ?_ ?_ hmsg hwaiting hdone ?_ ?_ ?_
    · rw [hst]
    · rw [hst]
    · intro _ _
      rw [hst]
    · rw [hst]
      exact h.loop
    · rw [hst]
      exact h.empty
    · rw [hst]
      exact h.found

/-! ## Moves that change the channel -/

/-- `Send` appends its message. -/
theorem append {mensaje : Int} (h : ChannelInv w act k) (ho : w.lockOwner k = some t)
    (ha : act t = .sendAppend k mensaje) :
    ChannelInv { w with shared := (w.shared.append k mensaje).2 }
      (Function.update act t (.sendSignal k (w.shared.append k mensaje).1)) k := by
  set m : Mensaje := (w.shared.append k mensaje).1 with hm
  have hid : m.id = (w.shared.channel k).sent.length := rfl
  have hch : (w.shared.append k mensaje).2.channel k = { w.shared.channel k with
      buzon := (w.shared.channel k).buzon ++ [m], sent := (w.shared.channel k).sent ++ [m] } := by
    simp [Channels.append, Channels.setChannel, hm]
  have hst : w.stage act k = .sendAppend k mensaje := (stage_owner ho).trans ha
  have hst' : ChannelView.stage { w with shared := (w.shared.append k mensaje).2 }
      (Function.update act t (.sendSignal k m)) k = .sendSignal k m := stage_owner_update ho
  have hlen : m.id = (w.shared.channel k).received.length + (w.shared.channel k).buzon.length := by
    rw [hid, h.sent_eq, List.length_append]
  refine ⟨?_, ?_, ?_, ?_, ?_, ?_, ?_, ?_, ?_, ?_, ?_, ?_, ?_⟩
  all_goals simp only [hch, hst']
  · rw [h.sent_eq, List.append_assoc]
  · intro i m' hi
    rcases Nat.lt_or_ge i (w.shared.channel k).sent.length with hlt | hge
    · rw [List.getElem?_append_left hlt] at hi
      exact h.ids i m' hi
    · have hi' := (List.getElem?_eq_some_iff.mp hi).1
      rw [List.length_append, List.length_singleton] at hi'
      obtain rfl : i = (w.shared.channel k).sent.length := by omega
      rw [List.getElem?_concat_length] at hi
      cases hi
      exact hid
  · intro u m' hu
    by_cases hut : u = t
    · subst hut
      simp only [Function.update_self, Activity.message, Option.some.injEq, Prod.mk.injEq,
        true_and] at hu
      simp [hu]
    · rw [Function.update_of_ne hut] at hu
      exact List.mem_append_left _ (h.mine u m' hu)
  · have := h.balance
    simp only [hst, Activity.popped, Activity.appended] at this
    simp only [Activity.popped, Activity.appended, List.length_append, List.length_singleton, true_and]
    rw [if_pos (by omega)]
    omega
  · intro u m' b n hu before after hcola
    obtain ⟨-, hu⟩ := of_update hu (by simp)
    have := h.order u m' b n hu before after hcola
    simpa [hst, Activity.popped] using this
  · intro u m' b n hu hn
    obtain ⟨-, hu⟩ := of_update hu (by simp)
    exact h.selected u m' b n hu hn
  · intro u m' b n hu
    obtain ⟨-, hu⟩ := of_update hu (by simp)
    exact h.old u m' b n hu
  · intro m' b hloop
    cases hloop
  · intro u m' hu
    obtain ⟨-, hu⟩ := of_update hu (by simp)
    exact h.done u m' hu
  · exact h.returned
  · intro hq
    have := h.waiting hq
    simp only [hst, Activity.covered] at this
    simp only [Activity.covered, if_true, List.length_append, List.length_singleton]
    omega
  · intro hempty
    cases hempty
  · intro hfound
    cases hfound

/-- `Send` signals a receiver. -/
theorem signalReceive {m : Mensaje} {n : Nat} {q : List Nat} (h : ChannelInv w act k)
    (ho : w.lockOwner k = some t) (ha : act t = .sendSignal k m)
    (hq : w.cola (.receive k) = n :: q) (hn : n ∉ returns (w.log (.receive k))) :
    ChannelInv (w.select (.receive k) t n q) (Function.update act t (.sendHead k m)) k := by
  have hst : w.stage act k = .sendSignal k m := (stage_owner ho).trans ha
  have hst' : (w.select (.receive k) t n q).stage (Function.update act t (.sendHead k m)) k =
      .sendHead k m := stage_owner_update ho
  refine ⟨h.sent_eq, h.ids, ?_, ?_, ?_, ?_, ?_, ?_, ?_, h.returned, ?_, ?_, ?_⟩
  · intro u m' hu
    by_cases hut : u = t
    · subst hut
      refine h.mine u m' ?_
      rw [ha]
      simpa [Activity.message] using hu
    · rw [Function.update_of_ne hut] at hu
      exact h.mine u m' hu
  · have := h.balance
    simpa [hst, hst', Activity.popped, Activity.appended] using this
  · intro u m' b n' hu before after hcola
    obtain ⟨-, hu⟩ := of_update hu (by simp)
    have := h.order u m' b n' hu before after (by simpa using hcola)
    simpa [hst, hst', Activity.popped] using this
  · intro u m' b n' hu hn'
    obtain ⟨-, hu⟩ := of_update hu (by simp)
    exact h.selected u m' b n' hu (by simpa using hn')
  · intro u m' b n' hu
    obtain ⟨-, hu⟩ := of_update hu (by simp)
    exact h.old u m' b n' hu
  · intro m' b hloop
    rw [hst'] at hloop
    cases hloop
  · intro u m' hu
    obtain ⟨-, hu⟩ := of_update hu (by simp)
    exact h.done u m' hu
  · intro _
    rw [hst']
    have hw := h.waiting (by rw [hq]; simp)
    simp only [hst, Activity.covered, if_true] at hw
    simp only [ChannelView.select_shared, ChannelView.select_log, Function.update_self,
      signalled_select t hn, List.length_append, List.length_singleton, Activity.covered]
    omega
  · intro hempty
    rw [hst'] at hempty
    cases hempty
  · intro hfound
    rw [hst'] at hfound
    cases hfound

/-- `Send` waits. -/
theorem waitSend {m : Mensaje} {b : Int} (h : ChannelInv w act k) (ho : w.lockOwner k = some t)
    (ha : act t = .sendWait k m b) (hfresh : w.sleepers ∉ w.cola (.send k)) :
    ChannelInv (w.wait (.send k) t) (Function.update act t (.sendWaiting k m b w.sleepers)) k := by
  have hst : w.stage act k = .sendWait k m b := (stage_owner ho).trans ha
  have hst' : (w.wait (.send k) t).stage (Function.update act t (.sendWaiting k m b w.sleepers)) k =
      .sendWaiting k m b w.sleepers := stage_owner_update ho
  have hmine : m ∈ (w.shared.channel k).sent := h.mine t m (by rw [ha]; rfl)
  have hbalance := h.balance
  simp only [hst, Activity.popped, Activity.appended, true_and] at hbalance
  have hcola : (w.wait (.send k) t).cola (.send k) = w.cola (.send k) ++ [w.sleepers] := by
    simp [ChannelView.wait]
  refine ⟨h.sent_eq, h.ids, ?_, ?_, ?_, ?_, ?_, ?_, ?_, h.returned, ?_, ?_, ?_⟩
  · intro u m' hu
    by_cases hut : u = t
    · subst hut
      refine h.mine u m' ?_
      rw [ha]
      simpa [Activity.message] using hu
    · rw [Function.update_of_ne hut] at hu
      exact h.mine u m' hu
  · rw [hst', hcola]
    simp only [ChannelView.wait_shared, Activity.popped, Activity.appended, List.length_append,
      List.length_singleton]
    split at hbalance <;> omega
  · intro u m' b' n hu before after heq
    rw [hst']
    rw [hcola] at heq
    by_cases hut : u = t
    · subst hut
      simp only [Function.update_self, Activity.sendWaiting.injEq, true_and] at hu
      obtain ⟨rfl, rfl, rfl⟩ := hu
      have hbefore : before.length = (w.cola (.send k)).length := by
        rcases List.eq_nil_or_concat after with rfl | ⟨after', x, rfl⟩
        · exact congrArg List.length (List.append_inj' heq rfl).1.symm
        · rw [List.concat_eq_append, ← List.cons_append, ← List.append_assoc] at heq
          rw [(List.append_inj' heq rfl).1] at hfresh
          simp at hfresh
      have hlt := h.id_lt hmine
      simp only [Activity.popped, ChannelView.wait_shared]
      split at hbalance <;> omega
    · rw [Function.update_of_ne hut] at hu
      have hold := h.old u m' b' n hu
      rcases List.eq_nil_or_concat after with rfl | ⟨after', x, rfl⟩
      · have := (List.append_inj' heq rfl).2
        simp only [List.cons.injEq, and_true] at this
        omega
      · rw [List.concat_eq_append, ← List.cons_append, ← List.append_assoc] at heq
        have := h.order u m' b' n hu before after' (List.append_inj' heq rfl).1
        simpa [hst, Activity.popped] using this
  · intro u m' b' n hu hn
    rw [hcola] at hn
    by_cases hut : u = t
    · subst hut
      simp only [Function.update_self, Activity.sendWaiting.injEq, true_and] at hu
      obtain ⟨rfl, rfl, rfl⟩ := hu
      simp at hn
    · rw [Function.update_of_ne hut] at hu
      exact h.selected u m' b' n hu fun hmem => hn (List.mem_append_left _ hmem)
  · intro u m' b' n hu
    by_cases hut : u = t
    · subst hut
      simp only [Function.update_self, Activity.sendWaiting.injEq, true_and] at hu
      obtain ⟨rfl, rfl, rfl⟩ := hu
      exact Nat.lt_succ_self _
    · rw [Function.update_of_ne hut] at hu
      exact Nat.lt_succ_of_lt (h.old u m' b' n hu)
  · intro m' b' hloop
    rw [hst'] at hloop
    cases hloop
  · intro u m' hu
    obtain ⟨-, hu⟩ := of_update hu (by simp)
    exact h.done u m' hu
  · intro hq
    have := h.waiting (by simpa using hq)
    simpa [hst, hst', Activity.covered] using this
  · intro hempty
    rw [hst'] at hempty
    cases hempty
  · intro hfound
    rw [hst'] at hfound
    cases hfound

/-- `Send` returns. -/
theorem sendReturn {m : Mensaje} (h : ChannelInv w act k) (ha : act t = .sendReturn k m) :
    ChannelInv { w with shared := w.shared.setChannel k { w.shared.channel k with
      returned := (w.shared.channel k).returned ++ [m] } } (Function.update act t .out) k := by
  have hch : (w.shared.setChannel k { w.shared.channel k with
      returned := (w.shared.channel k).returned ++ [m] }).channel k =
        { w.shared.channel k with returned := (w.shared.channel k).returned ++ [m] } := by
    simp [Channels.setChannel]
  have h' : ChannelInv w (Function.update act t .out) k :=
    h.calm (by rw [ha]; trivial) trivial rfl rfl rfl rfl le_rfl rfl (by simp [Activity.message])
      (by simp) (by simp)
  have hmem : m ∈ (w.shared.channel k).received :=
    h.mem_received (h.mine t m (by rw [ha]; rfl)) (h.done t m ha)
  refine ⟨?_, ?_, ?_, ?_, ?_, ?_, h'.old, ?_, ?_, ?_, ?_, ?_, ?_⟩
  all_goals simp only [hch]
  · exact h'.sent_eq
  · exact h'.ids
  · exact h'.mine
  · exact h'.balance
  · exact h'.order
  · exact h'.selected
  · exact h'.loop
  · exact h'.done
  · intro m' hm'
    rcases List.mem_append.mp hm' with hm' | hm'
    · exact h.returned m' hm'
    · rw [List.mem_singleton.mp hm']
      exact hmem
  · exact h'.waiting
  · exact h'.empty
  · exact h'.found

/-- `Receive` waits. -/
theorem waitReceive (h : ChannelInv w act k) (ho : w.lockOwner k = some t)
    (ha : act t = .receiveWait k) : ChannelInv (w.wait (.receive k) t)
      (Function.update act t (.receiveWaiting k w.sleepers)) k := by
  have hst : w.stage act k = .receiveWait k := (stage_owner ho).trans ha
  have hst' : (w.wait (.receive k) t).stage
      (Function.update act t (.receiveWaiting k w.sleepers)) k = .receiveWaiting k w.sleepers :=
    stage_owner_update ho
  refine ⟨h.sent_eq, h.ids, ?_, ?_, ?_, ?_, ?_, ?_, ?_, h.returned, ?_, ?_, ?_⟩
  · intro u m hu
    by_cases hut : u = t
    · subst hut
      simp [Activity.message] at hu
    · rw [Function.update_of_ne hut] at hu
      exact h.mine u m hu
  · have := h.balance
    simpa [hst, hst', Activity.popped, Activity.appended] using this
  · intro u m b n hu before after hcola
    obtain ⟨-, hu⟩ := of_update hu (by simp)
    have := h.order u m b n hu before after (by simpa using hcola)
    simpa [hst, hst', Activity.popped] using this
  · intro u m b n hu hn
    obtain ⟨-, hu⟩ := of_update hu (by simp)
    exact h.selected u m b n hu (by simpa using hn)
  · intro u m b n hu
    obtain ⟨-, hu⟩ := of_update hu (by simp)
    exact Nat.lt_succ_of_lt (h.old u m b n hu)
  · intro m b hloop
    rw [hst'] at hloop
    cases hloop
  · intro u m hu
    obtain ⟨-, hu⟩ := of_update hu (by simp)
    exact h.done u m hu
  · intro _
    simp [h.empty hst]
  · intro hempty
    rw [hst'] at hempty
    cases hempty
  · intro hfound
    rw [hst'] at hfound
    cases hfound

/-- The `Wait` of a `Receive` returns. -/
theorem waitReturnReceive {n : Nat} (h : ChannelInv w act k) (ho : w.lockOwner k = some t)
    (ha : act t = .receiveWaiting k n) (hnd : (selects (w.log (.receive k))).Nodup) :
    ChannelInv (w.waitReturn (.receive k) t n) (Function.update act t (.receiveLoop k)) k := by
  have hst : w.stage act k = .receiveWaiting k n := (stage_owner ho).trans ha
  have hst' : (w.waitReturn (.receive k) t n).stage (Function.update act t (.receiveLoop k)) k =
      .receiveLoop k := stage_owner_update ho
  refine ⟨h.sent_eq, h.ids, ?_, ?_, ?_, ?_, ?_, ?_, ?_, h.returned, ?_, ?_, ?_⟩
  · intro u m hu
    by_cases hut : u = t
    · subst hut
      simp [Activity.message] at hu
    · rw [Function.update_of_ne hut] at hu
      exact h.mine u m hu
  · have := h.balance
    simpa [hst, hst', Activity.popped, Activity.appended] using this
  · intro u m b n' hu before after hcola
    obtain ⟨-, hu⟩ := of_update hu (by simp)
    have := h.order u m b n' hu before after hcola
    simpa [hst, hst', Activity.popped] using this
  · intro u m b n' hu hn
    obtain ⟨-, hu⟩ := of_update hu (by simp)
    exact h.selected u m b n' hu hn
  · intro u m b n' hu
    obtain ⟨-, hu⟩ := of_update hu (by simp)
    exact h.old u m b n' hu
  · intro m b hloop
    rw [hst'] at hloop
    cases hloop
  · intro u m hu
    obtain ⟨-, hu⟩ := of_update hu (by simp)
    exact h.done u m hu
  · intro hq
    have h1 := h.waiting hq
    have h2 := signalled_return hnd t n
    rw [hst]  at h1
    rw [hst']
    simp only [Activity.covered] at h1
    simp only [ChannelView.waitReturn_shared, ChannelView.waitReturn_log, Function.update_self,
      Activity.covered, if_true]
    omega
  · intro hempty
    rw [hst'] at hempty
    cases hempty
  · intro hfound
    rw [hst'] at hfound
    cases hfound

/-- `Receive` removes the first message. -/
theorem pop (h : ChannelInv w act k) (ho : w.lockOwner k = some t) (ha : act t = .receivePop k) :
    ChannelInv { w with shared := w.shared.pop k t } (Function.update act t (.receiveSignal k)) k := by
  have hst : w.stage act k = .receivePop k := (stage_owner ho).trans ha
  have hst' : ChannelView.stage { w with shared := w.shared.pop k t }
      (Function.update act t (.receiveSignal k)) k = .receiveSignal k := stage_owner_update ho
  obtain ⟨m, rest, hbuzon⟩ := List.exists_cons_of_ne_nil (h.found hst)
  have hch : (w.shared.pop k t).channel k = { w.shared.channel k with
      buzon := rest, received := (w.shared.channel k).received ++ [m] } := by
    simp [Channels.pop, hbuzon, Channels.setChannel]
  refine ⟨?_, ?_, ?_, ?_, ?_, ?_, ?_, ?_, ?_, ?_, ?_, ?_, ?_⟩
  · simp only [hch]
    rw [h.sent_eq, hbuzon]
    simp
  · simp only [hch]
    exact h.ids
  · simp only [hch]
    intro u m' hu
    by_cases hut : u = t
    · subst hut
      simp [Activity.message] at hu
    · rw [Function.update_of_ne hut] at hu
      exact h.mine u m' hu
  · have := h.balance
    rw [hst, hbuzon] at this
    rw [hst']
    simp only [Activity.popped, Activity.appended, List.length_cons] at this
    simp only [hch, Activity.popped, Activity.appended, if_true]
    omega
  · intro u m' b n hu before after hcola
    obtain ⟨-, hu⟩ := of_update hu (by simp)
    have := h.order u m' b n hu before after hcola
    rw [hst] at this
    rw [hst']
    simp only [Activity.popped] at this
    simp only [hch, Activity.popped, if_true, List.length_append, List.length_singleton]
    omega
  · intro u m' b n hu hn
    obtain ⟨-, hu⟩ := of_update hu (by simp)
    have := h.selected u m' b n hu hn
    simp only [hch, List.length_append, List.length_singleton]
    omega
  · intro u m' b n hu
    obtain ⟨-, hu⟩ := of_update hu (by simp)
    exact h.old u m' b n hu
  · intro m' b hloop
    rw [hst'] at hloop
    cases hloop
  · intro u m' hu
    obtain ⟨-, hu⟩ := of_update hu (by simp)
    have := h.done u m' hu
    simp only [hch, List.length_append, List.length_singleton]
    omega
  · simp only [hch]
    exact fun m' hm' => List.mem_append_left _ (h.returned m' hm')
  · intro hq
    have := h.waiting hq
    rw [hst, hbuzon] at this
    rw [hst']
    simp only [Activity.covered, if_true, List.length_cons] at this
    simp only [hch, Activity.covered]
    omega
  · intro hempty
    rw [hst'] at hempty
    cases hempty
  · intro hfound
    rw [hst'] at hfound
    cases hfound

/-- `Receive` signals a sender. -/
theorem signalSend {n : Nat} {q : List Nat} (h : ChannelInv w act k) (ho : w.lockOwner k = some t)
    (ha : act t = .receiveSignal k) (hq : w.cola (.send k) = n :: q) :
    ChannelInv (w.select (.send k) t n q) (Function.update act t .out) k := by
  have hst : w.stage act k = .receiveSignal k := (stage_owner ho).trans ha
  have hst' : (w.select (.send k) t n q).stage (Function.update act t .out) k = .out :=
    stage_owner_update ho
  have hcola : (w.select (.send k) t n q).cola (.send k) = q := by simp
  refine ⟨h.sent_eq, h.ids, ?_, ?_, ?_, ?_, ?_, ?_, ?_, h.returned, ?_, ?_, ?_⟩
  · intro u m hu
    by_cases hut : u = t
    · subst hut
      simp [Activity.message] at hu
    · rw [Function.update_of_ne hut] at hu
      exact h.mine u m hu
  · have := h.balance
    rw [hst, hq] at this
    rw [hst', hcola]
    simp only [Activity.popped, Activity.appended, if_true, List.length_cons] at this
    simp only [ChannelView.select_shared, Activity.popped, Activity.appended]
    omega
  · intro u m b n' hu before after heq
    obtain ⟨-, hu⟩ := of_update hu (by simp)
    rw [hcola] at heq
    have := h.order u m b n' hu (n :: before) after (by rw [hq, heq]; rfl)
    rw [hst] at this
    rw [hst']
    simp only [Activity.popped, if_true, List.length_cons] at this
    simp only [ChannelView.select_shared, Activity.popped]
    omega
  · intro u m b n' hu hn'
    obtain ⟨-, hu⟩ := of_update hu (by simp)
    rw [hcola] at hn'
    by_cases hnn : n' = n
    · subst hnn
      have := h.order u m b n' hu [] q hq
      rw [hst] at this
      simp only [Activity.popped, if_true, List.length_nil, Nat.add_zero] at this
      exact this
    · exact h.selected u m b n' hu (by rw [hq]; simp [hnn, hn'])
  · intro u m b n' hu
    obtain ⟨-, hu⟩ := of_update hu (by simp)
    exact h.old u m b n' hu
  · intro m b hloop
    rw [hst'] at hloop
    cases hloop
  · intro u m hu
    obtain ⟨-, hu⟩ := of_update hu (by simp)
    exact h.done u m hu
  · intro hq'
    have := h.waiting (by simpa using hq')
    simpa [hst, hst', Activity.covered] using this
  · intro hempty
    rw [hst'] at hempty
    cases hempty
  · intro hfound
    rw [hst'] at hfound
    cases hfound

/-- Every move keeps the invariant. -/
theorem move (h : ChannelInv w act k) (hmove : ChannelMove w t w' (act t) a') :
    ChannelInv w' (Function.update act t a') k := by
  generalize ha : act t = a at hmove
  cases hmove with
  | silent =>
    rw [← ha, Function.update_eq_self]
    exact h
  | enter hcalm hfree =>
    rename_i k'
    rw [← ha, Function.update_eq_self]
    by_cases hk : k' = k
    · subst hk
      exact h.enter (by rw [ha]; exact hcalm) hfree
    · exact h.otherLock (by simp [ChannelView.enter, Ne.symm hk]) rfl rfl rfl rfl
  | leave hcalm ho =>
    rename_i k'
    rw [← ha, Function.update_eq_self]
    by_cases hk : k' = k
    · subst hk
      exact h.leave (by rw [ha]; exact hcalm) ho
    · exact h.otherLock (by simp [ChannelView.leave, Ne.symm hk]) rfl rfl rfl rfl
  | append ho =>
    rename_i k' mensaje
    by_cases hk : k' = k
    · subst hk
      exact h.append ho ha
    · refine h.other (by simp [ha, Activity.channel, hk]) (by simp [Activity.channel, hk]) ?_ rfl rfl rfl
        rfl le_rfl
      simp [Channels.append, Channels.setChannel, Ne.symm hk]
  | signalReceiveNone ho hq =>
    rename_i k' m
    by_cases hk : k' = k
    · subst hk
      have hmine := h.mine t m (by rw [ha]; rfl)
      refine h.owned ho rfl rfl rfl rfl rfl le_rfl ?_ ?_ ?_ ?_ ?_ ?_ ?_ ?_ ?_
      all_goals simp [ha, hq, Activity.popped, Activity.appended, Activity.covered, Activity.message]
      exact hmine
    · exact h.other (by simp [ha, Activity.channel, hk]) (by simp [Activity.channel, hk]) rfl rfl rfl rfl
        rfl le_rfl
  | signalReceive ho hq hn =>
    rename_i k' m n q
    by_cases hk : k' = k
    · subst hk
      exact h.signalReceive ho ha hq hn
    · refine h.other (by simp [ha, Activity.channel, hk]) (by simp [Activity.channel, hk]) rfl rfl ?_ ?_
        ?_ le_rfl
      all_goals simp [Ne.symm hk]
  | head ho hbuzon =>
    rename_i k' m first rest
    by_cases hk : k' = k
    · subst hk
      have hmine := h.mine t m (by rw [ha]; rfl)
      refine h.owned ho rfl rfl rfl rfl rfl le_rfl ?_ ?_ ?_ ?_ ?_ ?_ ?_ ?_ ?_
      all_goals simp [ha, hbuzon, Activity.popped, Activity.appended, Activity.covered, Activity.message]
      exact hmine
    · exact h.other (by simp [ha, Activity.channel, hk]) (by simp [Activity.channel, hk]) rfl rfl rfl rfl
        rfl le_rfl
  | loopWait ho hbuzon =>
    rename_i k' m first rest
    by_cases hk : k' = k
    · subst hk
      have hmine := h.mine t m (by rw [ha]; rfl)
      refine h.owned ho rfl rfl rfl rfl rfl le_rfl ?_ ?_ ?_ ?_ ?_ ?_ ?_ ?_ ?_
      all_goals simp [ha, Activity.popped, Activity.appended, Activity.covered, Activity.message]
      exact hmine
    · exact h.other (by simp [ha, Activity.channel, hk]) (by simp [Activity.channel, hk]) rfl rfl rfl rfl
        rfl le_rfl
  | loopExit ho hb =>
    rename_i k' m b
    by_cases hk : k' = k
    · subst hk
      have hmine := h.mine t m (by rw [ha]; rfl)
      -- a sender whose message is still there remembers the first message and does not leave
      have hgone : m.id < (w.shared.channel k').received.length := by
        rcases h.loop m b ((stage_owner ho).trans ha) with hlt | ⟨first, rest, hcons, hval⟩
        · exact hlt
        · exact absurd hval.symm (hb first rest hcons)
      refine h.owned ho rfl rfl rfl rfl rfl le_rfl ?_ ?_ ?_ ?_ ?_ ?_ ?_ ?_ ?_
      all_goals simp [ha, Activity.popped, Activity.appended, Activity.covered, Activity.message]
      · exact hgone
      · exact hmine
      · exact hgone
    · exact h.other (by simp [ha, Activity.channel, hk]) (by simp [Activity.channel, hk]) rfl rfl rfl rfl
        rfl le_rfl
  | waitSend ho hfresh =>
    rename_i k' m b
    by_cases hk : k' = k
    · subst hk
      exact h.waitSend ho ha hfresh
    · refine h.other (by simp [ha, Activity.channel, hk]) (by simp [Activity.channel, hk]) rfl rfl ?_ ?_
        ?_ (Nat.le_succ _)
      all_goals simp [Ne.symm hk]
  | waitReturnSend ho hn =>
    rename_i k' m b n
    by_cases hk : k' = k
    · subst hk
      have hmine := h.mine t m (by rw [ha]; rfl)
      have hgone := h.selected t m b n ha hn
      refine h.owned ho rfl rfl rfl rfl ?_ le_rfl ?_ ?_ ?_ ?_ ?_ ?_ ?_ ?_ ?_
      all_goals simp [ha, Activity.popped, Activity.appended, Activity.covered, Activity.message]
      · exact hmine
      · exact .inl hgone
    · refine h.other (by simp [ha, Activity.channel, hk]) (by simp [Activity.channel, hk]) rfl rfl rfl rfl
        ?_ le_rfl
      simp
  | sendReturn =>
    rename_i k' m
    by_cases hk : k' = k
    · subst hk
      exact h.sendReturn ha
    · refine h.other (by simp [ha, Activity.channel, hk]) (by simp [Activity.channel]) ?_ rfl rfl rfl
        rfl le_rfl
      simp [Channels.setChannel, Ne.symm hk]
  | receiveEmpty ho hbuzon =>
    rename_i k'
    by_cases hk : k' = k
    · subst hk
      refine h.owned ho rfl rfl rfl rfl rfl le_rfl ?_ ?_ ?_ ?_ ?_ ?_ ?_ ?_ ?_
      all_goals simp [ha, hbuzon, Activity.popped, Activity.appended, Activity.covered, Activity.message]
    · exact h.other (by simp [ha, Activity.channel, hk]) (by simp [Activity.channel, hk]) rfl rfl rfl rfl
        rfl le_rfl
  | receiveFound ho hbuzon =>
    rename_i k'
    by_cases hk : k' = k
    · subst hk
      refine h.owned ho rfl rfl rfl rfl rfl le_rfl ?_ ?_ ?_ ?_ ?_ ?_ ?_ ?_ ?_
      all_goals simp [ha, hbuzon, Activity.popped, Activity.appended, Activity.covered, Activity.message]
    · exact h.other (by simp [ha, Activity.channel, hk]) (by simp [Activity.channel, hk]) rfl rfl rfl rfl
        rfl le_rfl
  | waitReceive ho =>
    rename_i k'
    by_cases hk : k' = k
    · subst hk
      exact h.waitReceive ho ha
    · refine h.other (by simp [ha, Activity.channel, hk]) (by simp [Activity.channel, hk]) rfl rfl ?_ ?_
        ?_ (Nat.le_succ _)
      all_goals simp [Ne.symm hk]
  | waitReturnReceive ho hnd =>
    rename_i k' n
    by_cases hk : k' = k
    · subst hk
      exact h.waitReturnReceive ho ha hnd
    · refine h.other (by simp [ha, Activity.channel, hk]) (by simp [Activity.channel, hk]) rfl rfl ?_ ?_
        ?_ le_rfl
      all_goals simp [Ne.symm hk]
  | pop ho =>
    rename_i k'
    by_cases hk : k' = k
    · subst hk
      exact h.pop ho ha
    · refine h.other (by simp [ha, Activity.channel, hk]) (by simp [Activity.channel, hk]) ?_ rfl rfl rfl
        rfl le_rfl
      simp only [Channels.pop]
      split <;> simp [Channels.setChannel, Ne.symm hk]
  | signalSendNone ho hq =>
    rename_i k'
    by_cases hk : k' = k
    · subst hk
      refine h.owned ho rfl rfl rfl rfl rfl le_rfl ?_ ?_ ?_ ?_ ?_ ?_ ?_ ?_ ?_
      all_goals simp [ha, Activity.popped, Activity.appended, Activity.covered, Activity.message]
    · exact h.other (by simp [ha, Activity.channel, hk]) (by simp [Activity.channel]) rfl rfl rfl rfl
        rfl le_rfl
  | signalSend ho hq hn =>
    rename_i k' n q
    by_cases hk : k' = k
    · subst hk
      exact h.signalSend ho ha hq
    · refine h.other (by simp [ha, Activity.channel, hk]) (by simp [Activity.channel]) rfl rfl ?_ ?_
        ?_ le_rfl
      all_goals simp [Ne.symm hk]
  | joinReturn =>
    exact h.calm (by rw [ha]; trivial) trivial rfl rfl rfl rfl le_rfl rfl (by simp [Activity.message])
      (by simp) (by simp)
  | destroy =>
    exact h.calm (by rw [ha]; trivial) trivial rfl rfl rfl rfl le_rfl rfl (by simp [Activity.message])
      (by simp) (by simp)

end ChannelInv

/-! ## Runs -/

/-- The activity after a call by the thread `t`. -/
def ChannelCall.activity (joinable : Tid → Bool) (t : Tid) : ChannelCall → Activity
  | .send n mensaje => .sendAppend (.user n) mensaje
  | .receive n => .receiveLoop (.user n)
  | .join t' => .receiveLoop (.thread t')
  | .finish returnValue => if joinable t then .sendAppend (.thread t) returnValue else .out

/-- A call leaves the channels alone and starts its activity. -/
theorem call_doing {i : ChannelCall} {sh : Channels} {r : Channels × List ChannelFrame}
    (h : Channels.call joinable i t sh = some r) :
    r.1.channel = sh.channel ∧ Doing r.2 (i.activity joinable t) := by
  simp only [Channels.call] at h
  split at h
  · cases h
  · cases i with
    | send n mensaje =>
      cases h
      exact ⟨rfl, .sendAppend .acquire⟩
    | receive n =>
      cases h
      exact ⟨rfl, .receiveLoop .acquire⟩
    | join t' =>
      simp only at h
      split at h
      · cases h
        exact ⟨rfl, .receiveLoop .acquire⟩
      · cases h
    | finish returnValue =>
      cases h
      refine ⟨rfl, ?_⟩
      by_cases hj : joinable t = true
      · simp only [hj, if_true, ChannelCall.activity]
        exact .sendAppend .acquire
      · simp only [hj, ChannelCall.activity]
        exact .destroy

/-- The invariant of the system, with the activities of the threads. -/
structure ChannelsInv (joinable : Tid → Bool) (s : ChannelsState) (act : Tid → Activity) : Prop where
  ok : ChannelsOk joinable s
  doing : ∀ t, Doing (s.stack t) (act t)
  channel : ∀ k, ChannelInv (channelView s) act k

namespace ChannelsInv

theorem start (joinable : Tid → Bool) (priority : Tid → Int) :
    ChannelsInv joinable (channelsStart priority) fun _ => .out where
  ok := ChannelsOk.start joinable priority
  doing := fun _ => .idle
  channel := by
    intro k
    refine ⟨rfl, ?_, ?_, Nat.zero_le _, ?_, ?_, ?_, ?_, ?_, ?_, ?_, ?_, ?_⟩
    all_goals simp [channelsStart, channelView, State.start, Channels.start, Activity.message,
      ChannelView.stage]

/-- The activities after the thread `t` got another one. -/
theorem doing_update (h : ChannelsInv joinable s act) (hother : ∀ u, u ≠ t → s'.stack u = s.stack u)
    (hd : Doing (s'.stack t) a') (u : Tid) : Doing (s'.stack u) (Function.update act t a' u) := by
  by_cases hu : u = t
  · subst hu
    simpa using hd
  · simpa [hu, hother u hu] using h.doing u

/-- A thread executes its first frame: it makes a move. -/
theorem exec (h : ChannelsInv joinable s act)
    (hs : s.step (channelUsers joinable) (.exec t) = some s') :
    ∃ a', ChannelMove (channelView s) t (channelView s') (act t) a' ∧
      ChannelsInv joinable s' (Function.update act t a') := by
  obtain ⟨-, f, rest, hstack, hexec⟩ := step_exec_iff.mp hs
  obtain ⟨a', hd, hmove⟩ := exec_move h.ok (h.doing t) hstack hexec
  exact ⟨a', hmove, h.ok.step hs, h.doing_update (fun u hu => execFrame_stack_other hexec hu) hd,
    fun k => (h.channel k).move hmove⟩

/-- A thread that is in no routine holds no lock. -/
theorem not_owner (h : ChannelsInv joinable s act) (hstack : s.stack t = []) (k : ChannelId) :
    s.lockOwner k ≠ some t := by
  obtain ⟨init, hok⟩ := h.ok
  intro ho
  have hheld := ((hok.locks.lock k).owner t).mp ho
  simp [State.phase, hstack, phaseOf, channelDiscipline] at hheld

/-- A thread makes a call. -/
theorem call {i : ChannelCall} (h : ChannelsInv joinable s act)
    (hs : s.step (channelUsers joinable) (.call t i) = some s') :
    ∃ r, Channels.call joinable i t s.shared = some r ∧ s.stack t = [] ∧
      s' = { s.setStack t r.2 with shared := r.1 } ∧
      ChannelsInv joinable s' (Function.update act t (i.activity joinable t)) := by
  obtain ⟨hstack, -, r, hr, hs'⟩ := step_call_iff.mp hs
  obtain ⟨hch, hd⟩ := call_doing hr
  refine ⟨r, hr, hstack, hs'.symm, h.ok.step hs, h.doing_update ?_ ?_, fun k => ?_⟩
  · intro u hu
    simp [← hs', State.setStack, hu]
  · simpa [← hs', State.setStack] using hd
  · have hst : (channelView s').stage (Function.update act t (i.activity joinable t)) k =
        (channelView s).stage act k := by
      refine stage_update ?_ (h.not_owner hstack k)
      rw [← hs']
      rfl
    have hc := h.channel k
    subst hs'
    refine hc.stay (by simp [channelView, hch]) rfl rfl rfl le_rfl ?_ ?_ ?_ ?_ ?_ ?_ ?_ ?_ ?_
    · rw [hst]
    · rw [hst]
    · intro _ _
      rw [hst]
    · cases i with
      | finish r => by_cases hj : joinable t = true <;> simp [ChannelCall.activity, Activity.message, hj]
      | _ => simp [ChannelCall.activity, Activity.message]
    · cases i with
      | finish r => by_cases hj : joinable t = true <;> simp [ChannelCall.activity, hj]
      | _ => simp [ChannelCall.activity]
    · cases i with
      | finish r => by_cases hj : joinable t = true <;> simp [ChannelCall.activity, hj]
      | _ => simp [ChannelCall.activity]
    · rw [hst]
      exact hc.loop
    · rw [hst]
      exact hc.empty
    · rw [hst]
      exact hc.found

/-- Every step keeps the invariant. -/
theorem step {e : Event ChannelCall} (h : ∃ act, ChannelsInv joinable s act)
    (hs : s.step (channelUsers joinable) e = some s') : ∃ act, ChannelsInv joinable s' act := by
  obtain ⟨act, h⟩ := h
  cases e with
  | call t i =>
    obtain ⟨r, -, -, -, h'⟩ := h.call hs
    exact ⟨_, h'⟩
  | exec t =>
    obtain ⟨a', -, h'⟩ := h.exec hs
    exact ⟨_, h'⟩

/-- The invariant in every reachable state. -/
theorem reachable {priority : Tid → Int}
    (hr : Reachable (channelUsers joinable) (channelsStart priority) s) :
    ∃ act, ChannelsInv joinable s act := by
  obtain ⟨es, hrun⟩ := hr
  exact runs_inv (I := fun s => ∃ act, ChannelsInv joinable s act)
    (fun _ _ _ hI _ hs => step hI hs) ⟨_, start joinable priority⟩ (AllSteps.trivial es _) hrun

end ChannelsInv

/-! ## Delivery and rendezvous -/

/-- What a channel delivers is what was sent, in the same order; what was sent and not delivered is in
the mailbox. While the lock is free and receivers are queued, there are at least as many receivers that
were signalled and have not looked into the mailbox again as there are messages in it. -/
theorem channel_delivery (joinable : Tid → Bool) (priority : Tid → Int) {s : ChannelsState}
    (hr : Reachable (channelUsers joinable) (channelsStart priority) s) (k : ChannelId) :
    ((s.shared.channel k).received.map Mensaje.value <+: (s.shared.channel k).sent.map Mensaje.value) ∧
    (s.shared.channel k).sent = (s.shared.channel k).received ++ (s.shared.channel k).buzon ∧
    (s.lockOwner k = none → (s.shared.channel k).buzon ≠ [] →
      s.colaProcesosDormidos (.receive k) ≠ [] →
      ∃ W : Finset Tid, (∀ t ∈ W, s.Signalled t (.receive k)) ∧
        (s.shared.channel k).buzon.length ≤ W.card) := by
  obtain ⟨act, h⟩ := ChannelsInv.reachable hr
  have hc := h.channel k
  have hsent : (s.shared.channel k).sent =
      (s.shared.channel k).received ++ (s.shared.channel k).buzon := hc.sent_eq
  refine ⟨?_, hsent, fun hfree _ hq => ?_⟩
  · rw [hsent, List.map_append]
    exact List.prefix_append _ _
  · obtain ⟨init, hok⟩ := h.ok
    obtain ⟨role, status, hcond⟩ := hok.cond
    obtain ⟨W, hW, hcard⟩ := hcond.signalled_threads (.receive k)
    refine ⟨W, hW, ?_⟩
    have hw := hc.waiting hq
    rw [stage_none hfree] at hw
    exact hw.trans hcard

/-- Two threads receive and a third one sends, all of them up to the moment when they sleep. -/
def twoReceivers : List (Event ChannelCall) :=
  Event.call 0 (ChannelCall.receive 0) :: List.replicate 8 (Event.exec 0) ++
    Event.call 1 (ChannelCall.receive 0) :: List.replicate 8 (Event.exec 1) ++
      Event.call 2 (ChannelCall.send 0 5) :: List.replicate 12 (Event.exec 2)

theorem channel_delivery_twoReceivers : ∃ s,
    runs (State.step (channelUsers fun _ => true)) (channelsStart fun _ => 0) twoReceivers = some s ∧
    (s.shared.channel (.user 0)).buzon = [⟨0, 5⟩] ∧
    s.colaProcesosDormidos (.receive (.user 0)) = [1] ∧
    ∃ W : Finset Tid, (∀ t ∈ W, s.Signalled t (.receive (.user 0))) ∧ 1 ≤ W.card := by
  obtain ⟨s, hs⟩ := Option.isSome_iff_exists.mp (show (runs (State.step (channelUsers fun _ => true))
    (channelsStart fun _ => 0) twoReceivers).isSome = true by rfl)
  have hview : (some s).map (fun s => (s.lockOwner (.user 0), (s.shared.channel (.user 0)).buzon,
      s.colaProcesosDormidos (.receive (.user 0)))) = some (none, [⟨0, 5⟩], [1]) := by
    rw [← hs]
    rfl
  simp only [Option.map_some, Option.some.injEq, Prod.mk.injEq] at hview
  obtain ⟨hfree, hbuzon, hcola⟩ := hview
  obtain ⟨W, hW, hcard⟩ := (channel_delivery (fun _ => true) (fun _ => 0) ⟨_, hs⟩ (.user 0)).2.2 hfree
    (by simp [hbuzon]) (by simp [hcola])
  exact ⟨s, hs, hbuzon, hcola, W, hW, by simpa [hbuzon] using hcard⟩

/-- When a `Send` has returned, the message that it appended was removed by a `Receive` and is not in the
mailbox any more. -/
theorem channel_rendezvous (joinable : Tid → Bool) (priority : Tid → Int) {s : ChannelsState}
    (hr : Reachable (channelUsers joinable) (channelsStart priority) s) (k : ChannelId) (m : Mensaje)
    (hm : m ∈ (s.shared.channel k).returned) :
    m ∈ (s.shared.channel k).received ∧ m ∉ (s.shared.channel k).buzon := by
  obtain ⟨act, h⟩ := ChannelsInv.reachable hr
  have hrec := (h.channel k).returned m hm
  exact ⟨hrec, (h.channel k).notMem_buzon hrec⟩

/-- A thread receives and another one sends; both return. -/
def sendAndReceive : List (Event ChannelCall) :=
  Event.call 0 (ChannelCall.receive 0) :: List.replicate 8 (Event.exec 0) ++
    Event.call 1 (ChannelCall.send 0 5) :: List.replicate 12 (Event.exec 1) ++ List.replicate 11 (Event.exec 0) ++
      List.replicate 9 (Event.exec 1)

theorem channel_rendezvous_sendAndReceive : ∃ s,
    runs (State.step (channelUsers fun _ => true)) (channelsStart fun _ => 0) sendAndReceive = some s ∧
    ⟨0, 5⟩ ∈ (s.shared.channel (.user 0)).returned ∧ ⟨0, 5⟩ ∈ (s.shared.channel (.user 0)).received := by
  obtain ⟨s, hs⟩ := Option.isSome_iff_exists.mp (show (runs (State.step (channelUsers fun _ => true))
    (channelsStart fun _ => 0) sendAndReceive).isSome = true by rfl)
  have hview : (some s).map (fun s => (s.shared.channel (.user 0)).returned) = some [⟨0, 5⟩] := by
    rw [← hs]
    rfl
  have hreturned : (s.shared.channel (.user 0)).returned = [⟨0, 5⟩] := Option.some.inj hview
  have hmem : ⟨0, 5⟩ ∈ (s.shared.channel (.user 0)).returned := by
    rw [hreturned]
    exact List.mem_singleton.mpr rfl
  exact ⟨s, hs, hmem, (channel_rendezvous (fun _ => true) (fun _ => 0) ⟨_, hs⟩ (.user 0) _ hmem).1⟩

end Nachos.Synch
