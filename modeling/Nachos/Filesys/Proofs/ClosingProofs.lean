import Nachos.Filesys.Closing

/-!
# Proofs: the last close

Where one thread decides, the file is open, or one thread is on its way through the last-close actions,
or they have been done once in the period that has ended.
-/

namespace Nachos.Filesys

open Foundations

namespace Closing

variable {s s' : Closing} {t u : Tid} {p : Place} {e : CloseEvent}

@[simp]
theorem place_setPlace (s : Closing) (t u : Tid) (p : Place) :
    (s.setPlace t p).place u = if u = t then p else s.place u := by
  simp [setPlace, Function.update_apply]

/-- The thread is in the last-close actions. -/
def Acting (s : Closing) (t : Tid) : Prop :=
  s.place t = .sending ∨ s.place t = .sent ∨ s.place t = .deleting

/-- The thread is in `Remove`. -/
def Removes (s : Closing) (t : Tid) : Prop := s.place t = .receiving ∨ s.place t = .removing

theorem place_setPlace_of_ne {q : Place} (hplace : s.place t = q) (hu : s.place u ≠ q) :
    (s.setPlace t p).place u = s.place u := by
  rw [place_setPlace, if_neg]
  rintro rfl
  exact hu hplace

theorem late_of_setPlace (hut : u ≠ t) (hu : (s.setPlace t p).Late u) : s.Late u := by
  rwa [Late, place_setPlace, if_neg hut] at hu

theorem removes_of_setPlace (hp : p ≠ .receiving ∧ p ≠ .removing) (hu : (s.setPlace t p).Removes u) :
    s.Removes u := by
  by_cases hut : u = t
  · rw [Removes, place_setPlace, if_pos hut] at hu
    rcases hu with hu | hu
    · exact absurd hu hp.1
    · exact absurd hu hp.2
  · rwa [Removes, place_setPlace, if_neg hut] at hu

theorem acting_of_setPlace (hp : p ≠ .sending ∧ p ≠ .sent ∧ p ≠ .deleting)
    (hu : (s.setPlace t p).Acting u) : s.Acting u := by
  by_cases hut : u = t
  · rw [Acting, place_setPlace, if_pos hut] at hu
    rcases hu with hu | hu | hu
    · exact absurd hu hp.1
    · exact absurd hu hp.2.1
    · exact absurd hu hp.2.2
  · rwa [Acting, place_setPlace, if_neg hut] at hu

theorem late_ne (hplace : s.place t = .out ∨ s.Removes t) (hu : s.Late u) : u ≠ t := by
  rintro rfl
  rcases hplace with hp | hp | hp <;> simp [Late, hp] at hu

/-- The last-close actions have been done once in the period `n`. -/
def Once (s : Closing) (n : Nat) : Prop :=
  s.deleted.count n = 1 ∧ s.messages.count n ≤ 1 ∧ (n ∈ s.waited → s.messages.count n = 1)

/-- How far the current period is. -/
inductive Stage (s : Closing) : Prop where
  /-- The file is open. -/
  | busy : 0 < s.count → 0 < s.period → s.deleted.count s.period = 0 → s.messages.count s.period = 0 →
    (∀ u, ¬ s.Acting u) → Stage s
  /-- The thread `t` has counted to 0. -/
  | closing (t : Tid) : s.count = 0 → 0 < s.period → s.deleted.count s.period = 0 →
    (∀ u, s.Late u → u = t) → s.Late t →
    (s.messages.count s.period = 0 ∧ s.place t ≠ .sent ∧ s.place t ≠ .deleting ∨
      s.messages.count s.period ≤ 1 ∧ (s.period ∈ s.waited → s.messages.count s.period = 1) ∧
        (s.place t = .sent ∨ s.place t = .deleting)) → Stage s
  /-- The file is closed. -/
  | closed : s.count = 0 → (∀ u, ¬ s.Late u) → (0 < s.period → s.Once s.period) → Stage s

/-- The invariant. -/
structure Inv (s : Closing) : Prop where
  stage : s.Stage
  past : ∀ n, 0 < n → n < s.period → s.Once n
  fresh : ∀ n, n = 0 ∨ s.period < n → n ∉ s.deleted ∧ n ∉ s.messages ∧ n ∉ s.waited
  remover : ∀ t u, s.Removes t → s.Removes u → t = u
  removing : s.removing = false → ∀ t, ¬ s.Removes t
  waiting : s.period ∈ s.waited → s.messages.count s.period = 0 → ∃ t, s.place t = .receiving
  /-- The sender of a message waits until it is taken. -/
  message : 0 < s.removeChannel → ∃ t, s.place t = .sent

private theorem count_concat_self {l : List Nat} {m : Nat} (hl : l.count m = 0) :
    (l ++ [m]).count m = 1 := by
  rw [List.count_append, hl, List.count_singleton_self]

private theorem count_concat_ne {l : List Nat} {m n : Nat} (hn : n ≠ m) :
    (l ++ [m]).count n = l.count n := by
  rw [List.count_append, List.count_singleton, if_neg (by simpa using hn.symm), Nat.add_zero]

/-- Only the places of a thread that is not on its way out may differ: the period stays where it is. -/
theorem Inv.stage_of_place (h : Inv s) (hcount : s'.count = s.count) (hperiod : s'.period = s.period)
    (hdeleted : s'.deleted = s.deleted) (hmessages : s'.messages = s.messages)
    (hwaited : s.period ∈ s'.waited → s.period ∈ s.waited ∨ 0 < s.count)
    (hplace : ∀ u, s.Late u → s'.place u = s.place u) (hlate : ∀ u, s'.Late u → s.Late u) :
    s'.Stage := by
  have hnew : ∀ u, s.Late u → s'.Late u := by
    intro u hu
    rwa [Late, hplace u hu]
  cases h.stage with
  | busy hpos hper hdel hmes hact =>
    refine .busy (by rwa [hcount]) (by rwa [hperiod]) (by rwa [hdeleted, hperiod])
      (by rwa [hmessages, hperiod]) fun u hu => hact u ?_
    rw [Acting, ← hplace u (hlate u (Or.inr (Or.inr hu)))]
    exact hu
  | closing v hzero hper hdel hlone hv hcase =>
    refine .closing v (by rwa [hcount]) (by rwa [hperiod]) (by rwa [hdeleted, hperiod])
      (fun u hu => hlone u (hlate u hu)) (hnew v hv) ?_
    rw [hmessages, hperiod, hplace v hv]
    rcases hcase with hbefore | ⟨hle, hwait, hafter⟩
    · exact Or.inl hbefore
    · refine Or.inr ⟨hle, fun hw => ?_, hafter⟩
      rcases hwaited hw with hw | hpos
      · exact hwait hw
      · exact absurd hzero (Nat.ne_of_gt hpos)
  | closed hzero hnone hdone =>
    refine .closed (by rwa [hcount]) (fun u hu => hnone u (hlate u hu)) ?_
    rw [hperiod]
    intro hper
    obtain ⟨hdel, hle, hwait⟩ := hdone hper
    refine ⟨by rwa [hdeleted], by rwa [hmessages], fun hw => ?_⟩
    rw [hmessages]
    rcases hwaited hw with hw | hpos
    · exact hwait hw
    · exact absurd hzero (Nat.ne_of_gt hpos)

/-- Only the place of the thread `t`, which is not in `Remove` before and after, and the lock may have
changed. -/
structure Moved (s s' : Closing) (t : Tid) : Prop where
  place_eq : ∀ u, u ≠ t → s'.place u = s.place u
  notRemoves : ¬ s.Removes t ∧ ¬ s'.Removes t
  count_eq : s'.count = s.count
  period_eq : s'.period = s.period
  deleted_eq : s'.deleted = s.deleted
  messages_eq : s'.messages = s.messages
  waited_eq : s'.waited = s.waited
  removing_eq : s'.removing = s.removing
  channel_eq : s'.removeChannel = s.removeChannel

namespace Moved

theorem once_iff (h : Moved s s' t) (n : Nat) : s'.Once n ↔ s.Once n := by
  simp only [Once, h.deleted_eq, h.messages_eq, h.waited_eq]

theorem late_iff (h : Moved s s' t) (hu : u ≠ t) : s'.Late u ↔ s.Late u := by
  simp only [Late, h.place_eq u hu]

theorem removes_iff (h : Moved s s' t) (u : Tid) : s'.Removes u ↔ s.Removes u := by
  by_cases hu : u = t
  · subst hu
    exact ⟨fun hr => absurd hr h.notRemoves.2, fun hr => absurd hr h.notRemoves.1⟩
  · simp only [Removes, h.place_eq u hu]

/-- What is left to show after such a step is how far the period is. -/
theorem inv (hm : Moved s s' t) (h : Inv s) (hstage : s'.Stage)
    (hsent : s.place t = .sent → s.removeChannel = 0) : Inv s' where
  stage := hstage
  past := by
    intro n hn hlt
    rw [hm.period_eq] at hlt
    exact (hm.once_iff n).mpr (h.past n hn hlt)
  fresh := by
    rw [hm.period_eq, hm.deleted_eq, hm.messages_eq, hm.waited_eq]
    exact h.fresh
  remover := by
    intro a b ha hb
    exact h.remover a b ((hm.removes_iff a).mp ha) ((hm.removes_iff b).mp hb)
  removing := by
    intro hr a ha
    rw [hm.removing_eq] at hr
    exact h.removing hr a ((hm.removes_iff a).mp ha)
  waiting := by
    rw [hm.period_eq, hm.waited_eq, hm.messages_eq]
    intro hw hmes
    obtain ⟨a, ha⟩ := h.waiting hw hmes
    refine ⟨a, ?_⟩
    rw [hm.place_eq a]
    · exact ha
    · rintro rfl
      exact hm.notRemoves.1 (Or.inl ha)
  message := by
    rw [hm.channel_eq]
    intro hpos
    obtain ⟨a, ha⟩ := h.message hpos
    refine ⟨a, ?_⟩
    rw [hm.place_eq a]
    · exact ha
    · rintro rfl
      rw [hsent ha] at hpos
      exact Nat.lt_irrefl 0 hpos

/-- A step of a thread that is not on its way out before and after. -/
theorem keep (hm : Moved s s' t) (h : Inv s) (hold : ¬ s.Late t) (hnew : ¬ s'.Late t) : Inv s' := by
  have hlate : ∀ u, s'.Late u ↔ s.Late u := by
    intro u
    by_cases hu : u = t
    · subst hu
      exact ⟨fun h => absurd h hnew, fun h => absurd h hold⟩
    · exact hm.late_iff hu
  have hsame : ∀ u, s.Late u → s'.place u = s.place u := by
    intro u hu
    refine hm.place_eq u ?_
    rintro rfl
    exact hold hu
  refine hm.inv h ?_ fun hsent => absurd (Or.inr (Or.inr (Or.inr (Or.inl hsent)))) hold
  refine h.stage_of_place hm.count_eq hm.period_eq hm.deleted_eq hm.messages_eq ?_ hsame
    fun u hu => (hlate u).mp hu
  rw [hm.waited_eq]
  exact Or.inl

/-- A step of the thread that has counted to 0. -/
theorem last (hm : Moved s s' t) (h : Inv s) (hold : s.Late t) (hzero : s.count = 0) (hnew : s'.Late t)
    (hsent : s.place t = .sent → s.removeChannel = 0)
    (hplace : s.messages.count s.period = 0 ∧ s.place t ≠ .sent ∧ s.place t ≠ .deleting →
      s'.place t ≠ .sent ∧ s'.place t ≠ .deleting ∨
        (s.period ∉ s.waited) ∧ s'.place t = .deleting)
    (hplace' : s.place t = .sent ∨ s.place t = .deleting → s'.place t = .deleting) : Inv s' := by
  refine hm.inv h ?_ hsent
  cases h.stage with
  | busy hpos => exact absurd hzero (Nat.ne_of_gt hpos)
  | closing v _ hper hdel hlone hv hcase =>
    have hvt := hlone t hold
    subst hvt
    refine .closing t (by rwa [hm.count_eq]) (by rwa [hm.period_eq])
      (by rwa [hm.deleted_eq, hm.period_eq]) ?_ hnew ?_
    · intro u hu
      by_contra hne
      exact hne (hlone u ((hm.late_iff hne).mp hu))
    · rw [hm.messages_eq, hm.period_eq, hm.waited_eq]
      rcases hcase with hbefore | ⟨hle, hwait, hafter⟩
      · rcases hplace hbefore with hsame | ⟨hnot, hdel⟩
        · exact Or.inl ⟨hbefore.1, hsame⟩
        · refine Or.inr ⟨by rw [hbefore.1]; exact Nat.zero_le 1, fun hw => absurd hw hnot, Or.inr hdel⟩
      · exact Or.inr ⟨hle, hwait, Or.inr (hplace' hafter)⟩
  | closed _ hnone => exact absurd hold (hnone t)

/-- A step of a thread while the file is open. -/
theorem stayOpen (hm : Moved s s' t) (h : Inv s) (hpos : 0 < s.count) (hnew : ¬ s'.Acting t) : Inv s' := by
  cases h.stage with
  | closing _ hz => exact absurd hz (Nat.ne_of_gt hpos)
  | closed hz => exact absurd hz (Nat.ne_of_gt hpos)
  | busy _ hper hdel hmes hnone =>
    refine hm.inv h ?_ fun hsent => absurd (Or.inr (Or.inl hsent)) (hnone t)
    refine .busy (by rwa [hm.count_eq]) (by rwa [hm.period_eq]) (by rwa [hm.deleted_eq, hm.period_eq])
      (by rwa [hm.messages_eq, hm.period_eq]) fun u hu => ?_
    by_cases hut : u = t
    · subst hut
      exact hnew hu
    · rw [Acting, hm.place_eq u hut] at hu
      exact hnone u hu

end Moved

/-! ## Steps -/

section Steps

variable (h : Inv s)

include h

/-- A thread that acts is the last one. -/
theorem Inv.acting (hact : s.Acting t) : s.count = 0 := by
  cases h.stage with
  | busy _ _ _ _ hnone => exact absurd hact (hnone t)
  | closing _ hzero => exact hzero
  | closed hzero => exact hzero

/-- Before the count leaves 0 the period is over. -/
theorem Inv.once_of_zero (hzero : s.count = 0) (hnone : ∀ u, ¬ s.Late u) (hper : 0 < s.period) :
    s.Once s.period := by
  cases h.stage with
  | busy hpos => exact absurd hzero (Nat.ne_of_gt hpos)
  | closing t _ _ _ _ ht => exact absurd ht (hnone t)
  | closed _ _ hdone => exact hdone hper

/-- The constructor counts itself in. -/
theorem Inv.countIn (hplace : s.place t = .opening) (hone : s.count = 0 → ∀ u, ¬ s.Late u) :
    Inv ((s.countIn t).setPlace t .out) := by
  have hrem : ∀ u, ((s.countIn t).setPlace t .out).Removes u → s.Removes u :=
    fun u hu => removes_of_setPlace (s := s) (p := .out) (by decide) hu
  have hact : ∀ u, ((s.countIn t).setPlace t .out).Acting u → s.Acting u :=
    fun u hu => acting_of_setPlace (s := s) (p := .out) (by decide) hu
  have hback : ∀ u, s.place u ≠ .opening → ((s.countIn t).setPlace t .out).place u = s.place u :=
    fun u hu => place_setPlace_of_ne hplace hu
  by_cases hzero : s.count = 0
  · -- the count leaves 0: a new period begins
    have hperiod : ((s.countIn t).setPlace t .out).period = s.period + 1 := if_pos hzero
    have hnew := h.fresh (s.period + 1) (Or.inr (Nat.lt_succ_self s.period))
    exact {
      stage := by
        refine .busy (Nat.succ_pos s.count) ?_ ?_ ?_ ?_
        · rw [hperiod]
          exact Nat.succ_pos s.period
        · rw [hperiod]
          exact List.count_eq_zero.mpr hnew.1
        · rw [hperiod]
          exact List.count_eq_zero.mpr hnew.2.1
        · intro u hu
          exact hone hzero u (Or.inr (Or.inr (hact u hu)))
      past := by
        intro n hn hlt
        rw [hperiod] at hlt
        rcases Nat.lt_or_ge n s.period with hlt' | hge
        · exact h.past n hn hlt'
        · have hn' : n = s.period := Nat.le_antisymm (Nat.le_of_lt_succ hlt) hge
          subst hn'
          exact h.once_of_zero hzero (hone hzero) hn
      fresh := by
        intro n hn
        rw [hperiod] at hn
        refine h.fresh n ?_
        rcases hn with hn | hn
        · exact Or.inl hn
        · exact Or.inr (Nat.lt_of_succ_lt hn)
      remover := fun a b ha hb => h.remover a b (hrem a ha) (hrem b hb)
      removing := fun hr a ha => h.removing hr a (hrem a ha)
      waiting := by
        rw [hperiod]
        intro hw
        exact absurd hw hnew.2.2
      message := by
        intro hpos
        obtain ⟨a, ha⟩ := h.message hpos
        exact ⟨a, by rw [hback a (by simp [ha]), ha]⟩ }
  · have hperiod : ((s.countIn t).setPlace t .out).period = s.period := if_neg hzero
    exact {
      stage := by
        cases h.stage with
        | busy hpos hper hdel hmes hnone =>
          refine .busy (Nat.succ_pos s.count) ?_ ?_ ?_ fun u hu => hnone u (hact u hu)
          · rwa [hperiod]
          · rw [hperiod]
            exact hdel
          · rw [hperiod]
            exact hmes
        | closing _ hz => exact absurd hz hzero
        | closed hz => exact absurd hz hzero
      past := by
        intro n hn hlt
        rw [hperiod] at hlt
        exact h.past n hn hlt
      fresh := by
        intro n hn
        rw [hperiod] at hn
        exact h.fresh n hn
      remover := fun a b ha hb => h.remover a b (hrem a ha) (hrem b hb)
      removing := fun hr a ha => h.removing hr a (hrem a ha)
      waiting := by
        rw [hperiod]
        intro hw hmes
        obtain ⟨a, ha⟩ := h.waiting hw hmes
        exact ⟨a, by rw [hback a (by simp [ha]), ha]⟩
      message := by
        intro hpos
        obtain ⟨a, ha⟩ := h.message hpos
        exact ⟨a, by rw [hback a (by simp [ha]), ha]⟩ }

/-- The destructor counts itself out. -/
theorem Inv.countOut (hplace : s.place t = .locked) (hpos : 0 < s.count)
    (hone : s.count = 1 → ∀ u, ¬ s.Late u) :
    Inv { s.setPlace t .counted with count := s.count - 1 } := by
  have hbusy : 0 < s.period ∧ s.deleted.count s.period = 0 ∧ s.messages.count s.period = 0 ∧
      ∀ u, ¬ s.Acting u := by
    cases h.stage with
    | busy _ hper hdel hmes hnone => exact ⟨hper, hdel, hmes, hnone⟩
    | closing _ hz => exact absurd hz (Nat.ne_of_gt hpos)
    | closed hz => exact absurd hz (Nat.ne_of_gt hpos)
  obtain ⟨hper, hdel, hmes, hnone⟩ := hbusy
  exact {
    stage := by
      by_cases hlast : s.count = 1
      · refine .closing t ?_ hper hdel ?_ (Or.inl (by simp)) (Or.inl ⟨hmes, ?_, ?_⟩)
        · exact Nat.sub_eq_zero_of_le (Nat.le_of_eq hlast)
        · intro u hu
          by_contra hut
          exact hone hlast u (late_of_setPlace hut hu)
        · simp
        · simp
      · refine .busy ?_ hper hdel hmes ?_
        · show 0 < s.count - 1
          omega
        · intro u hu
          exact hnone u (acting_of_setPlace (p := .counted) (by decide) hu)
    past := h.past
    fresh := h.fresh
    remover := fun a b ha hb => h.remover a b (removes_of_setPlace (p := .counted) (by decide) ha)
      (removes_of_setPlace (p := .counted) (by decide) hb)
    removing := fun hr a ha => h.removing hr a (removes_of_setPlace (p := .counted) (by decide) ha)
    waiting := by
      intro hw hmes'
      obtain ⟨a, ha⟩ := h.waiting hw hmes'
      exact ⟨a, (place_setPlace_of_ne hplace (by simp [ha])).trans ha⟩
    message := by
      intro hpos'
      obtain ⟨a, ha⟩ := h.message hpos'
      exact ⟨a, (place_setPlace_of_ne hplace (by simp [ha])).trans ha⟩ }

/-- The last closer sends its message. -/
theorem Inv.send (hplace : s.place t = .sending) :
    Inv { s.setPlace t .sent with
      removeChannel := s.removeChannel + 1
      messages := s.messages ++ [s.period] } := by
  cases h.stage with
  | busy _ _ _ _ hnone => exact absurd (Or.inl hplace) (hnone t)
  | closed _ hnone => exact absurd (Or.inr (Or.inr (Or.inl hplace))) (hnone t)
  | closing v hzero hper hdel hlone hv hcase =>
    have hvt := hlone t (Or.inr (Or.inr (Or.inl hplace)))
    subst hvt
    have hmes : s.messages.count s.period = 0 := by
      rcases hcase with hbefore | ⟨_, _, hafter⟩
      · exact hbefore.1
      · simp [hplace] at hafter
    have hcount := count_concat_self hmes
    exact {
      stage := by
        refine .closing t hzero hper hdel ?_ ?_ (Or.inr ⟨?_, fun _ => hcount, Or.inl ?_⟩)
        · intro u hu
          by_contra hut
          exact hut (hlone u (late_of_setPlace hut hu))
        · exact Or.inr (Or.inr (Or.inr (Or.inl (by simp))))
        · exact Nat.le_of_eq hcount
        · simp
      past := by
        intro n hn hlt
        have hdone := h.past n hn hlt
        have hother : (s.messages ++ [s.period]).count n = s.messages.count n :=
          count_concat_ne (Nat.ne_of_lt hlt)
        exact ⟨hdone.1, by rw [hother]; exact hdone.2.1, fun hw => hother.trans (hdone.2.2 hw)⟩
      fresh := by
        intro n hn
        have hold := h.fresh n hn
        refine ⟨hold.1, ?_, hold.2.2⟩
        intro hin
        rcases List.mem_append.mp hin with hin | hin
        · exact hold.2.1 hin
        · rw [List.mem_singleton] at hin
          have hn' : n = 0 ∨ s.period < n := hn
          omega
      remover := fun a b ha hb => h.remover a b (removes_of_setPlace (p := .sent) (by decide) ha)
        (removes_of_setPlace (p := .sent) (by decide) hb)
      removing := fun hr a ha => h.removing hr a (removes_of_setPlace (p := .sent) (by decide) ha)
      waiting := by
        intro _ hnone
        exact absurd (hcount.symm.trans hnone) Nat.one_ne_zero
      message := fun _ => ⟨t, by simp⟩ }

/-- The last closer deletes the write lock. -/
theorem Inv.delete (hplace : s.place t = .deleting) :
    Inv { s.setPlace t .out with deleted := s.deleted ++ [s.period] } := by
  cases h.stage with
  | busy _ _ _ _ hnone => exact absurd (Or.inr (Or.inr hplace)) (hnone t)
  | closed _ hnone => exact absurd (Or.inr (Or.inr (Or.inr (Or.inr hplace)))) (hnone t)
  | closing v hzero hper hdel hlone hv hcase =>
    have hvt := hlone t (Or.inr (Or.inr (Or.inr (Or.inr hplace))))
    subst hvt
    have hmes : s.messages.count s.period ≤ 1 ∧
        (s.period ∈ s.waited → s.messages.count s.period = 1) := by
      rcases hcase with ⟨_, _, hnot⟩ | ⟨hle, hwait, _⟩
      · exact absurd hplace hnot
      · exact ⟨hle, hwait⟩
    have hcount := count_concat_self hdel
    exact {
      stage := by
        refine .closed hzero ?_ fun _ => ⟨hcount, hmes⟩
        intro u hu
        by_cases hut : u = t
        · subst hut
          simp [Late] at hu
        · exact hut (hlone u (late_of_setPlace hut hu))
      past := by
        intro n hn hlt
        have hdone := h.past n hn hlt
        exact ⟨(count_concat_ne (Nat.ne_of_lt hlt)).trans hdone.1, hdone.2⟩
      fresh := by
        intro n hn
        have hold := h.fresh n hn
        refine ⟨?_, hold.2⟩
        intro hin
        rcases List.mem_append.mp hin with hin | hin
        · exact hold.1 hin
        · rw [List.mem_singleton] at hin
          have hn' : n = 0 ∨ s.period < n := hn
          omega
      remover := fun a b ha hb => h.remover a b (removes_of_setPlace (p := .out) (by decide) ha)
        (removes_of_setPlace (p := .out) (by decide) hb)
      removing := fun hr a ha => h.removing hr a (removes_of_setPlace (p := .out) (by decide) ha)
      waiting := by
        intro hw hnone
        exact absurd ((hmes.2 hw).symm.trans hnone) Nat.one_ne_zero
      message := by
        intro hpos
        -- the sender of an untaken message would be a second thread on its way out
        obtain ⟨a, ha⟩ := h.message hpos
        have hat := hlone a (Or.inr (Or.inr (Or.inr (Or.inl ha))))
        subst hat
        simp [hplace] at ha }

/-- What `Remove` does to the places at its start. -/
theorem Inv.removes_start (hfree : s.removing = false) (hu : (s.setPlace t p).Removes u) : u = t := by
  by_contra hut
  rw [Removes, place_setPlace, if_neg hut] at hu
  exact h.removing hfree u hu

/-- `Remove` begins. -/
theorem Inv.startRemove (hplace : s.place t = .out) (hfree : s.removing = false) :
    Inv (s.startRemove t) := by
  have hsame : ∀ p u, s.Late u → (s.setPlace t p).place u = s.place u := by
    intro p u hu
    rw [place_setPlace, if_neg (late_ne (Or.inl hplace) hu)]
  have hlate : ∀ p u, p = .receiving ∨ p = .removing → (s.setPlace t p).Late u → s.Late u := by
    intro p u hp hu
    refine late_of_setPlace ?_ hu
    rintro rfl
    rcases hp with rfl | rfl <;> simp [Late] at hu
  unfold Closing.startRemove
  split
  next hpos =>
    have hper : 0 < s.period := by
      cases h.stage with
      | busy _ hper => exact hper
      | closing _ hz => exact absurd hz (Nat.ne_of_gt hpos)
      | closed hz => exact absurd hz (Nat.ne_of_gt hpos)
    exact {
      stage := h.stage_of_place rfl rfl rfl rfl (fun _ => Or.inr hpos) (hsame .receiving)
        fun u hu => hlate .receiving u (Or.inl rfl) hu
      past := by
        intro n hn hlt
        obtain ⟨hdel, hle, hwait⟩ := h.past n hn hlt
        refine ⟨hdel, hle, fun hw => ?_⟩
        rcases List.mem_append.mp hw with hw | hw
        · exact hwait hw
        · exact absurd (List.mem_singleton.mp hw) (Nat.ne_of_lt hlt)
      fresh := by
        intro n hn
        obtain ⟨hdel, hmes, hwait⟩ := h.fresh n hn
        refine ⟨hdel, hmes, fun hw => ?_⟩
        rcases List.mem_append.mp hw with hw | hw
        · exact hwait hw
        · rw [List.mem_singleton] at hw
          have hn' : n = 0 ∨ s.period < n := hn
          omega
      remover := fun a b ha hb => (h.removes_start hfree ha).trans (h.removes_start hfree hb).symm
      removing := fun hr => absurd hr (by simp)
      waiting := fun _ _ => ⟨t, by simp⟩
      message := by
        intro hpos'
        obtain ⟨a, ha⟩ := h.message hpos'
        exact ⟨a, (place_setPlace_of_ne hplace (by simp [ha])).trans ha⟩ }
  next =>
    exact {
      stage := h.stage_of_place rfl rfl rfl rfl Or.inl (hsame .removing)
        fun u hu => hlate .removing u (Or.inr rfl) hu
      past := h.past
      fresh := h.fresh
      remover := fun a b ha hb => (h.removes_start hfree ha).trans (h.removes_start hfree hb).symm
      removing := fun hr => absurd hr (by simp)
      waiting := by
        intro hw hmes
        obtain ⟨a, ha⟩ := h.waiting hw hmes
        exact absurd (Or.inl ha) (h.removing hfree a)
      message := by
        intro hpos'
        obtain ⟨a, ha⟩ := h.message hpos'
        exact ⟨a, (place_setPlace_of_ne hplace (by simp [ha])).trans ha⟩ }

/-- `Remove` takes the message. -/
theorem Inv.receive (hplace : s.place t = .receiving) (hpos : 0 < s.removeChannel) :
    Inv { s.setPlace t .removing with removeChannel := s.removeChannel - 1 } := by
  obtain ⟨a, ha⟩ := h.message hpos
  have hold : ∀ u, (s.setPlace t .removing).Removes u → s.Removes u := by
    intro u hu
    by_cases hut : u = t
    · subst hut
      exact Or.inl hplace
    · rwa [Removes, place_setPlace, if_neg hut] at hu
  -- the sender has counted to 0, and a message of the period is there
  have hsent : s.period ∈ s.waited → s.messages.count s.period = 1 := by
    cases h.stage with
    | busy _ _ _ _ hnone => exact absurd (Or.inr (Or.inl ha)) (hnone a)
    | closed _ hnone => exact absurd (Or.inr (Or.inr (Or.inr (Or.inl ha)))) (hnone a)
    | closing v _ _ _ hlone _ hcase =>
      have hav := hlone a (Or.inr (Or.inr (Or.inr (Or.inl ha))))
      subst hav
      rcases hcase with ⟨_, hnot, _⟩ | ⟨_, hwait, _⟩
      · exact absurd ha hnot
      · exact hwait
  exact {
    stage := by
      refine h.stage_of_place rfl rfl rfl rfl Or.inl ?_ ?_
      · intro u hu
        exact (place_setPlace s t u .removing).trans (if_neg (late_ne (Or.inr (Or.inl hplace)) hu))
      · intro u hu
        refine late_of_setPlace (p := .removing) ?_ hu
        rintro rfl
        simp [Late] at hu
    past := h.past
    fresh := h.fresh
    remover := fun b c hb hc => h.remover b c (hold b hb) (hold c hc)
    removing := fun hr b hb => h.removing hr b (hold b hb)
    waiting := by
      intro hw hmes
      exact absurd ((hsent hw).symm.trans hmes) Nat.one_ne_zero
    message := fun _ => ⟨a, (place_setPlace_of_ne hplace (by simp [ha])).trans ha⟩ }

/-- `Remove` ends. -/
theorem Inv.endRemove (hplace : s.place t = .removing) :
    Inv { s.setPlace t .out with removing := false, removed := true } := by
  -- it was the only one
  have hnone : ∀ u, ¬ (s.setPlace t .out).Removes u := by
    intro u hu
    have hut := h.remover u t (removes_of_setPlace (p := .out) (by decide) hu) (Or.inr hplace)
    subst hut
    simp [Removes] at hu
  exact {
    stage := by
      refine h.stage_of_place rfl rfl rfl rfl Or.inl ?_ ?_
      · intro u hu
        exact (place_setPlace s t u .out).trans (if_neg (late_ne (Or.inr (Or.inr hplace)) hu))
      · intro u hu
        refine late_of_setPlace (p := .out) ?_ hu
        rintro rfl
        simp [Late] at hu
    past := h.past
    fresh := h.fresh
    remover := fun a _ ha _ => absurd ha (hnone a)
    removing := fun _ a => hnone a
    waiting := by
      intro hw hmes
      obtain ⟨a, ha⟩ := h.waiting hw hmes
      have hat := h.remover a t (Or.inl ha) (Or.inr hplace)
      subst hat
      simp [hplace] at ha
    message := by
      intro hpos
      obtain ⟨a, ha⟩ := h.message hpos
      exact ⟨a, (place_setPlace_of_ne hplace (by simp [ha])).trans ha⟩ }

/-- A thread on its way out with a positive count has only counted. -/
theorem Inv.testing_of_pos (hpos : 0 < s.count) : ¬ s.Acting t := fun hact =>
  absurd (h.acting hact) (Nat.ne_of_gt hpos)

/-- With no remover, nobody waits for a message of the period. -/
theorem Inv.not_waited (hfree : s.removing = false) (hmes : s.messages.count s.period = 0) :
    s.period ∉ s.waited := by
  intro hw
  obtain ⟨a, ha⟩ := h.waiting hw hmes
  exact h.removing hfree a (Or.inl ha)

/-- A closer that finds the file open, or finds that it has counted to 0, may only move on. -/
theorem Inv.counted (hm : Moved s s' t) (hplace : s.place t = .counted) (hnew : s'.place t = .testing) :
    Inv s' := by
  have hold : s.Late t := Or.inl hplace
  have hlate : s'.Late t := Or.inr (Or.inl hnew)
  rcases Nat.eq_zero_or_pos s.count with hzero | hpos
  · refine hm.last h hold hzero hlate (fun hs => by simp [hplace] at hs) (fun _ => Or.inl ?_) fun hs => ?_
    · simp [hnew]
    · simp [hplace] at hs
  · exact hm.stayOpen h hpos fun hact => by simp [Acting, hnew] at hact

end Steps

/-! ## Runs -/

/-- The record of a step that only moves the thread. -/
theorem moved_setPlace (hold : ¬ s.Removes t) (hp : p ≠ .receiving ∧ p ≠ .removing) :
    Moved s (s.setPlace t p) t where
  place_eq := fun u hu => by rw [place_setPlace, if_neg hu]
  notRemoves := by
    refine ⟨hold, fun h => ?_⟩
    rw [Removes, place_setPlace, if_pos rfl] at h
    rcases h with h | h
    · exact hp.1 h
    · exact hp.2 h
  count_eq := rfl
  period_eq := rfl
  deleted_eq := rfl
  messages_eq := rfl
  waited_eq := rfl
  removing_eq := rfl
  channel_eq := rfl

/-- The lock and the handles are no matter. -/
theorem Moved.other {c : Option Tid} {n : Tid → Nat} (hm : Moved s s' t) :
    Moved s { s' with closeLock := c, handles := n } t :=
  ⟨hm.place_eq, hm.notRemoves, hm.count_eq, hm.period_eq, hm.deleted_eq, hm.messages_eq, hm.waited_eq,
    hm.removing_eq, hm.channel_eq⟩

/-- A thread that goes on keeps the invariant. -/
theorem Inv.go (h : Inv s) (hone : s.OneDecides (.go t)) (hgo : s.go t = some s') : Inv s' := by
  obtain ⟨hout, hin⟩ := hone
  have hnot : ∀ {q}, s.place t = q → q ≠ .receiving ∧ q ≠ .removing → ¬ s.Removes t := by
    rintro q rfl ⟨h1, h2⟩ (h | h)
    · exact h1 h
    · exact h2 h
  unfold Closing.go at hgo
  cases hplace : s.place t with
  | out => simp [hplace] at hgo
  | opening =>
    simp only [hplace, Option.some.injEq] at hgo
    subst hgo
    exact h.countIn hplace (hin hplace)
  | acquiring =>
    simp only [hplace] at hgo
    split at hgo
    · simp only [Option.some.injEq] at hgo
      subst hgo
      have hm := (moved_setPlace (p := .locked) (hnot hplace (by decide)) (by decide)).other
        (c := some t) (n := s.handles)
      exact hm.keep h (by simp [Late, hplace]) (by simp [Late])
    · simp at hgo
  | locked =>
    simp only [hplace] at hgo
    split at hgo
    next hpos =>
      simp only [Option.some.injEq] at hgo
      subst hgo
      exact h.countOut hplace hpos (hout hplace)
    next =>
      simp only [Option.some.injEq] at hgo
      subst hgo
      have hm := moved_setPlace (p := .notCounted) (hnot hplace (by decide)) (by decide)
      exact hm.keep h (by simp [Late, hplace]) (by simp [Late])
  | counted =>
    simp only [hplace, Option.some.injEq] at hgo
    subst hgo
    have hm := (moved_setPlace (p := .testing) (hnot hplace (by decide)) (by decide)).other
      (c := none) (n := s.handles)
    exact h.counted hm hplace (by simp)
  | notCounted =>
    simp only [hplace, Option.some.injEq] at hgo
    subst hgo
    have hm := (moved_setPlace (p := .out) (hnot hplace (by decide)) (by decide)).other
      (c := none) (n := s.handles)
    exact hm.keep h (by simp [Late, hplace]) (by simp [Late])
  | testing =>
    have hold : s.Late t := Or.inr (Or.inl hplace)
    simp only [hplace] at hgo
    split at hgo
    next hzero =>
      split at hgo
      next =>
        simp only [Option.some.injEq] at hgo
        subst hgo
        have hm := moved_setPlace (p := .sending) (hnot hplace (by decide)) (by decide)
        refine hm.last h hold hzero (Or.inr (Or.inr (Or.inl (by simp)))) (fun hs => by simp [hplace] at hs)
          (fun _ => Or.inl (by simp)) fun hs => ?_
        simp [hplace] at hs
      next hfree =>
        simp only [Option.some.injEq] at hgo
        subst hgo
        have hm := moved_setPlace (p := .deleting) (hnot hplace (by decide)) (by decide)
        refine hm.last h hold hzero (Or.inr (Or.inr (Or.inr (Or.inr (by simp)))))
          (fun hs => by simp [hplace] at hs) (fun hbefore => Or.inr ⟨?_, by simp⟩) fun hs => ?_
        · exact h.not_waited (by simpa using hfree) hbefore.1
        · simp
    next hpos =>
      simp only [Option.some.injEq] at hgo
      subst hgo
      have hm := moved_setPlace (p := .out) (hnot hplace (by decide)) (by decide)
      exact hm.stayOpen h (Nat.pos_of_ne_zero hpos) (by simp [Acting])
  | sending =>
    simp only [hplace, Option.some.injEq] at hgo
    subst hgo
    exact h.send hplace
  | sent =>
    simp only [hplace] at hgo
    split at hgo
    next hempty =>
      simp only [Option.some.injEq] at hgo
      subst hgo
      have hm := moved_setPlace (p := .deleting) (hnot hplace (by decide)) (by decide)
      refine hm.last h (Or.inr (Or.inr (Or.inr (Or.inl hplace)))) (h.acting (Or.inr (Or.inl hplace)))
        (Or.inr (Or.inr (Or.inr (Or.inr (by simp))))) (fun _ => hempty) (fun hbefore => ?_) fun _ => ?_
      · exact absurd hplace hbefore.2.1
      · simp
    next => simp at hgo
  | deleting =>
    simp only [hplace, Option.some.injEq] at hgo
    subst hgo
    exact h.delete hplace
  | receiving =>
    simp only [hplace] at hgo
    split at hgo
    next hpos =>
      simp only [Option.some.injEq] at hgo
      subst hgo
      exact h.receive hplace hpos
    next => simp at hgo
  | removing =>
    simp only [hplace, Option.some.injEq] at hgo
    subst hgo
    exact h.endRemove hplace

/-- Every event keeps the invariant. -/
theorem Inv.step (h : Inv s) (hone : s.OneDecides e) (hstep : s.step e = some s') : Inv s' := by
  cases e with
  | «open» t =>
    simp only [Closing.step] at hstep
    split at hstep
    next hc =>
      simp only [Option.some.injEq] at hstep
      subst hstep
      have hm : Moved s (s.setPlace t .opening) t :=
        moved_setPlace (by simp [Removes, hc.1]) (by decide)
      exact hm.keep h (by simp [Late, hc.1]) (by simp [Late])
    next => simp at hstep
  | close t =>
    simp only [Closing.step] at hstep
    split at hstep
    next hc =>
      simp only [Option.some.injEq] at hstep
      subst hstep
      have hm := (moved_setPlace (s := s) (t := t) (p := .acquiring) (by simp [Removes, hc.1])
        (by decide)).other (c := s.closeLock) (n := Function.update s.handles t (s.handles t - 1))
      exact hm.keep h (by simp [Late, hc.1]) (by simp [Late])
    next => simp at hstep
  | remove t =>
    simp only [Closing.step] at hstep
    split at hstep
    next hc =>
      simp only [Option.some.injEq] at hstep
      subst hstep
      exact h.startRemove hc.1 hc.2.1
    next => simp at hstep
  | go t => exact h.go hone hstep

theorem Inv.start : Inv start where
  stage := .closed rfl (by simp [Late, Closing.start]) (by simp [Closing.start])
  past := by simp [Closing.start]
  fresh := by simp [Closing.start]
  remover := by simp [Removes, Closing.start]
  removing := by simp [Removes, Closing.start]
  waiting := by simp [Closing.start]
  message := by simp [Closing.start]

/-- In the period that runs the actions have been done at most once. -/
theorem Inv.current_le_one (h : Inv s) :
    s.deleted.count s.period ≤ 1 ∧ s.messages.count s.period ≤ 1 := by
  rcases Nat.eq_zero_or_pos s.period with hzero | hper
  · obtain ⟨hdel, hmes, _⟩ := h.fresh s.period (Or.inl hzero)
    rw [List.count_eq_zero.mpr hdel, List.count_eq_zero.mpr hmes]
    exact ⟨Nat.zero_le 1, Nat.zero_le 1⟩
  · cases h.stage with
    | busy _ _ hdel hmes _ => omega
    | closing _ _ _ hdel _ _ hcase =>
      rcases hcase with ⟨hmes, _⟩ | ⟨hmes, _⟩
      · omega
      · omega
    | closed _ _ hdone => exact ⟨Nat.le_of_eq (hdone hper).1, (hdone hper).2.1⟩

theorem Inv.oneLastCloser (h : Inv s) : s.OneLastCloser := by
  constructor
  · intro n
    by_cases hn : n = 0 ∨ s.period < n
    · obtain ⟨hdel, hmes, _⟩ := h.fresh n hn
      rw [List.count_eq_zero.mpr hdel, List.count_eq_zero.mpr hmes]
      exact ⟨Nat.zero_le 1, Nat.zero_le 1⟩
    · rcases Nat.lt_or_ge n s.period with hlt | hge
      · have hdone := h.past n (by omega) hlt
        exact ⟨Nat.le_of_eq hdone.1, hdone.2.1⟩
      · have hn' : n = s.period := by omega
        subst hn'
        exact h.current_le_one
  · rintro n ⟨hpos, hlt | ⟨rfl, hzero⟩⟩ hnone
    · exact ⟨(h.past n hpos hlt).1, (h.past n hpos hlt).2.2⟩
    · have hdone := h.once_of_zero hzero hnone hpos
      exact ⟨hdone.1, hdone.2.2⟩

/-- The thread of an event. -/
def thread : CloseEvent → Tid
  | .open t => t
  | .close t => t
  | .remove t => t
  | .go t => t

/-- The steps of the threads `ts`, with the condition for these threads alone. -/
def OneDecidesAmong (ts : List Tid) (s : Closing) (e : CloseEvent) : Prop :=
  thread e ∈ ts ∧
    ((s.place (thread e) = .locked ∧ s.count = 1 ∨ s.place (thread e) = .opening ∧ s.count = 0) →
      ∀ u ∈ ts, ¬ s.Late u)

instance (ts : List Tid) (s : Closing) (e : CloseEvent) : Decidable (OneDecidesAmong ts s e) := by
  unfold OneDecidesAmong Late
  infer_instance

theorem step_place (hstep : s.step e = some s') (hu : u ≠ thread e) : s'.place u = s.place u := by
  have hset : ∀ q, (s.setPlace (thread e) q).place u = s.place u := by
    intro q
    rw [place_setPlace, if_neg hu]
  cases e with
  | «open» t =>
    simp only [Closing.step, Option.ite_none_right_eq_some, Option.some.injEq] at hstep
    rw [← hstep.2]
    exact hset .opening
  | close t =>
    simp only [Closing.step, Option.ite_none_right_eq_some, Option.some.injEq] at hstep
    rw [← hstep.2]
    exact hset .acquiring
  | remove t =>
    simp only [Closing.step, Option.ite_none_right_eq_some, Option.some.injEq, Closing.startRemove] at hstep
    rw [← hstep.2]
    split
    · exact hset .receiving
    · exact hset .removing
  | go t =>
    simp only [Closing.step, Closing.go] at hstep
    repeat' split at hstep
    all_goals first
      | (simp at hstep; done)
      | (simp only [Option.some.injEq] at hstep
         rw [← hstep]
         exact hset _)

theorem oneDecides_of_among (ts : List Tid) {events : List CloseEvent}
    (h : AllSteps Closing.step (OneDecidesAmong ts) Closing.start events) :
    AllSteps Closing.step OneDecides Closing.start events := by
  refine AllSteps.mono (I := fun s => ∀ u, u ∉ ts → s.place u = .out) ?_ ?_ (fun _ _ => rfl) h
  · intro s e hI hP
    have hnone : (∀ u ∈ ts, ¬ s.Late u) → ∀ u, ¬ s.Late u := by
      intro hts u
      by_cases hu : u ∈ ts
      · exact hts u hu
      · simp [Late, hI u hu]
    cases e with
    | go t => exact ⟨fun h1 h2 => hnone (hP.2 (Or.inl ⟨h1, h2⟩)), fun h1 h2 => hnone (hP.2 (Or.inr ⟨h1, h2⟩))⟩
    | _ => exact True.intro
  · intro s e s' hI hP hstep u hu
    rw [step_place hstep]
    · exact hI u hu
    · rintro rfl
      exact hu hP.1

/-- Two threads close the file one after the other, and a third waits to remove it. -/
def oneAfterTheOther : List CloseEvent :=
  ([.open 1, .go 1, .open 2, .go 2, .remove 3] : List CloseEvent) ++
    ([.close 1, .go 1, .go 1, .go 1, .go 1] : List CloseEvent) ++
    ([.close 2, .go 2, .go 2, .go 2, .go 2, .go 2, .go 3, .go 2, .go 2, .go 3] : List CloseEvent)

/-- Both threads count themselves out before either of them tests the count. -/
def bothCount : List CloseEvent :=
  ([.open 1, .go 1, .open 2, .go 2] : List CloseEvent) ++
    ([.close 1, .go 1, .go 1, .go 1, .close 2, .go 2, .go 2, .go 2] : List CloseEvent) ++
    ([.go 1, .go 1, .go 2, .go 2] : List CloseEvent)

end Closing

end Nachos.Filesys
