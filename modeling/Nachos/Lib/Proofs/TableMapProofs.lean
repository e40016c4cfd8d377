import Nachos.Lib.Proofs.TableProofs
import Nachos.Lib.TableMap

/-!
# Proofs: tables as maps

The list `freed` holds the free indices below `current`, each once and in increasing order, and the last
index below `current` is in use. Every call keeps this, so a table behaves like a map.
-/

namespace Nachos.Table

open Foundations

variable {α : Type} {t : Table α} {i j : Nat} {item : α}

/-- The indices of the list are in increasing order, each with itself as its key. -/
structure Ordered (l : List (Nat × Int)) : Prop where
  increasing : l.Pairwise fun a b => a.1 < b.1
  key_eq : ∀ e ∈ l, e.2 = e.1

/-- The table is in order: the free indices are listed, and the last index is in use. -/
structure InOrder (t : Table α) : Prop where
  ordered : Ordered t.freed
  current_le : t.current ≤ size
  freed_lt : ∀ e ∈ t.freed, e.1 + 1 < t.current

/-! ## The list of free indices -/

theorem Ordered.sublist {l l' : List (Nat × Int)} (h : Ordered l) (hl : l'.Sublist l) : Ordered l' :=
  ⟨h.increasing.sublist hl, fun e he => h.key_eq e (hl.subset he)⟩

theorem Ordered.insert {l : List (Nat × Int)} (h : Ordered l) (hi : ∀ e ∈ l, e.1 ≠ i) :
    Ordered (sortedInsert i i l) := by
  refine ⟨?_, fun e he => ?_⟩
  · induction l with
    | nil => exact List.pairwise_singleton _ _
    | cons e l ih =>
      obtain ⟨he, hl⟩ := List.pairwise_cons.mp h.increasing
      have hkey := h.key_eq e List.mem_cons_self
      have hne := hi e List.mem_cons_self
      unfold sortedInsert
      split
      · rename_i hlt
        have hie : i < e.1 := by omega
        refine List.pairwise_cons.mpr ⟨fun b hb => ?_, h.increasing⟩
        rcases List.mem_cons.mp hb with rfl | hb
        · exact hie
        · exact Nat.lt_trans hie (he b hb)
      · rename_i hge
        have hei : e.1 < i := by omega
        refine List.pairwise_cons.mpr ⟨fun b hb => ?_,
          ih (h.sublist (List.sublist_cons_self _ _)) fun b hb => hi b (List.mem_cons_of_mem _ hb)⟩
        rcases List.mem_cons.mp ((sortedInsert_perm i i l).mem_iff.mp hb) with rfl | hb
        · exact hei
        · exact he b hb
  · rcases List.mem_cons.mp ((sortedInsert_perm i i l).mem_iff.mp he) with rfl | he
    · rfl
    · exact h.key_eq e he

/-- An index that is taken out of the list is not on it any more. -/
theorem Ordered.ne_of_mem_eraseP {l : List (Nat × Int)} (h : Ordered l) {e : Nat × Int}
    (he : e ∈ l.eraseP fun e => e.1 == i) : e.1 ≠ i := by
  induction l with
  | nil => cases he
  | cons b l ih =>
    obtain ⟨hb, -⟩ := List.pairwise_cons.mp h.increasing
    by_cases hbi : b.1 = i
    · rw [List.eraseP_cons_of_pos (by simpa using hbi)] at he
      have := hb e he
      omega
    · rw [List.eraseP_cons_of_neg (by simpa using hbi)] at he
      rcases List.mem_cons.mp he with rfl | he
      · exact hbi
      · exact ih (h.sublist (List.sublist_cons_self _ _)) he

/-! ## Adding -/

/-- Every index below the first free one is in use. -/
theorem InOrder.has_of_lt {e : Nat × Int} {l : List (Nat × Int)} (h : InOrder t) (hfreed : t.freed = e :: l)
    (hj : j < e.1) : t.has j = true := by
  have hlt := h.freed_lt e (by rw [hfreed]; exact List.mem_cons_self)
  refine has_iff.mpr ⟨by omega, Bool.eq_false_iff.mpr fun hfree => ?_⟩
  obtain ⟨b, hb, rfl⟩ := isFreed_iff.mp hfree
  have hsorted := h.ordered.increasing
  rw [hfreed] at hb hsorted
  rcases List.mem_cons.mp hb with rfl | hb
  · exact Nat.lt_irrefl _ hj
  · have := (List.pairwise_cons.mp hsorted).1 b hb
    omega

/-- What is stored: the items of the indices in use. -/
def items (t : Table α) (i : Nat) : Option α := if t.has i then some (t.data i) else none

theorem firstFree_items_eq_some (hi : i < size) (hfree : t.has i = false) (hused : ∀ j, j < i → t.has j = true) :
    firstFree t.items = some i := by
  rw [firstFree, List.find?_range_eq_some]
  refine ⟨by simp [items, hfree], List.mem_range.mpr hi, fun j hj => ?_⟩
  simp [items, hused j hj]

theorem items_eq_of_has {t' : Table α} (hhas : ∀ j, t'.has j = (t.has j || decide (j = i)))
    (hdata : t'.data = Function.update t.data i item) : t'.items = Function.update t.items i (some item) := by
  funext j
  by_cases hj : j = i
  · subst hj
    simp [items, hhas, hdata]
  · simp [items, hhas, hdata, hj]

theorem InOrder.add (h : InOrder t) (item : α) :
    InOrder (t.add item).2 ∧ ((∃ i, firstFree t.items = some i ∧ (t.add item).1 = i ∧
        (t.add item).2.items = Function.update t.items i (some item)) ∨
      firstFree t.items = none ∧ t.add item = (-1, t)) := by
  rcases add_cases t item with ⟨e, l, hfreed, hadd⟩ | ⟨hfreed, hlt, hadd⟩ | ⟨hfreed, hge, hadd⟩
  · -- the first free index
    have hordered := h.ordered
    rw [hfreed] at hordered
    have hlt := h.freed_lt e (by rw [hfreed]; exact List.mem_cons_self)
    have hle := h.current_le
    have hmem : ∀ b ∈ l, b ∈ t.freed := fun b hb => by rw [hfreed]; exact List.mem_cons_of_mem _ hb
    rw [hadd]
    refine ⟨⟨hordered.sublist (List.sublist_cons_self _ _), hle, fun b hb => h.freed_lt b (hmem b hb)⟩,
      Or.inl ⟨e.1, firstFree_items_eq_some (by omega) ?_ fun j hj => h.has_of_lt hfreed hj, rfl, ?_⟩⟩
    · simp [has, isFreed, hfreed]
    · refine items_eq_of_has (fun j => ?_) rfl
      have hnot : e.1 = j → (l.any fun b => b.1 == j) = false := by
        rintro rfl
        rw [List.any_eq_false]
        intro b hb
        have := (List.pairwise_cons.mp hordered.increasing).1 b hb
        simp only [beq_iff_eq]
        omega
      show (decide (j < t.current) && !(l.any fun b => b.1 == j)) = _
      rw [has, isFreed, hfreed, List.any_cons]
      by_cases hje : e.1 = j
      · rw [hnot hje]
        simp [hje]
        omega
      · have hne : ¬ j = e.1 := fun heq => hje heq.symm
        have hbeq : (e.1 == j) = false := by simpa using hje
        simp [hbeq, hne]
  · -- the next index
    rw [hadd]
    have hnone : ∀ b, b ∉ t.freed := fun b hb => by rw [hfreed] at hb; cases hb
    refine ⟨⟨h.ordered, hlt, fun b hb => absurd hb (hnone b)⟩,
      Or.inl ⟨t.current, firstFree_items_eq_some hlt ?_ fun j hj => ?_, rfl, items_eq_of_has (fun j => ?_) rfl⟩⟩
    · rw [has_of_freed_nil hfreed]
      simp
    · rw [has_of_freed_nil hfreed]
      simpa using hj
    · show (decide (j < t.current + 1) && !(t.freed.any fun b => b.1 == j)) = _
      rw [has_of_freed_nil hfreed, hfreed]
      simp only [List.any_nil, Bool.not_false, Bool.and_true, ← Bool.decide_or]
      congr 1
      simp only [eq_iff_iff]
      omega
  · -- there is no index left
    rw [hadd]
    refine ⟨h, Or.inr ⟨?_, rfl⟩⟩
    rw [firstFree, List.find?_eq_none]
    intro j hj
    rw [List.mem_range] at hj
    have hhas : t.has j = true := by
      rw [has_of_freed_nil hfreed]
      simpa using Nat.lt_of_lt_of_le hj hge
    simp [items, hhas]

/-! ## Removing -/

/-- The loop of `Remove` returns, and it takes no index out of use. -/
theorem trimLoop_spec (n : Nat) : ∀ {t : Table α}, t.current = n → Ordered t.freed → n ≤ size →
    (∀ e ∈ t.freed, e.1 < n) →
    ∃ t', trimLoop n t = some t' ∧ InOrder t' ∧ t'.data = t.data ∧ ∀ j, t'.has j = t.has j := by
  induction n with
  | zero =>
    intro t hcurrent hordered hsize hlt
    refine ⟨t, rfl, ⟨hordered, by omega, fun e he => ?_⟩, rfl, fun _ => rfl⟩
    exact absurd (hlt e he) (Nat.not_lt_zero _)
  | succ n ih =>
    intro t hcurrent hordered hsize hlt
    rw [trimLoop]
    by_cases hhas : t.has n = true
    · rw [if_pos hhas]
      have hused := (has_iff.mp hhas).2
      refine ⟨t, rfl, ⟨hordered, by omega, fun e he => ?_⟩, rfl, fun _ => rfl⟩
      have hne : e.1 ≠ n := by
        rintro rfl
        rw [isFreed_iff.mpr ⟨e, he, rfl⟩] at hused
        cases hused
      have := hlt e he
      omega
    · rw [if_neg hhas]
      have hfree : t.isFreed n = true := by
        by_contra hnot
        exact hhas (has_iff.mpr ⟨by omega, by simpa using hnot⟩)
      have hlt' : ∀ e ∈ (t.unfree n).freed, e.1 < n := by
        intro e he
        have hne := hordered.ne_of_mem_eraseP he
        have := hlt e (List.mem_of_mem_eraseP he)
        omega
      obtain ⟨t', hloop, hin, hdata, hsame⟩ := ih (t := { t.unfree n with current := t.current - 1 })
        (by show t.current - 1 = n; omega) (hordered.sublist List.eraseP_sublist) (by omega) hlt'
      refine ⟨t', ?_, hin, hdata, fun j => ?_⟩
      · simp only [hfree, guard, if_true, Option.pure_def, Option.bind_eq_bind, Option.bind_some]
        exact hloop
      · rw [hsame j]
        show (decide (j < t.current - 1) && !(t.unfree n).isFreed j) = t.has j
        by_cases hj : j = n
        · rw [hj, Bool.eq_false_iff.mpr hhas]
          simp [hcurrent]
        · rw [isFreed_unfree hj, has]
          congr 1
          rw [decide_eq_decide]
          omega

theorem items_eq_of_not_has {t' : Table α} (hhas : ∀ j, t'.has j = (t.has j && decide (j ≠ i)))
    (hdata : t'.data = t.data) : t'.items = Function.update t.items i none := by
  funext j
  by_cases hj : j = i
  · subst hj
    simp [items, hhas]
  · simp [items, hhas, hdata, hj]

theorem InOrder.removeAsserting [Inhabited α] (h : InOrder t) {i : Int} (hi : 0 ≤ i) :
    ∃ t', t.removeAsserting i = some ((t.items i.toNat).getD default, t') ∧ InOrder t' ∧
      t'.items = Function.update t.items i.toNat none := by
  simp only [Table.removeAsserting, guard, hi, if_true, Option.pure_def, Option.bind_eq_bind, Option.bind_some]
  generalize hn : i.toNat = n
  by_cases hhas : t.has n = true
  · obtain ⟨hlt, hused⟩ := has_iff.mp hhas
    have hnot : ∀ e ∈ t.freed, e.1 ≠ n := by
      rintro e he rfl
      rw [isFreed_iff.mpr ⟨e, he, rfl⟩] at hused
      cases hused
    have hitem : (t.items n).getD default = t.data n := by simp [items, hhas]
    rw [if_pos hhas, hitem]
    by_cases hlast : n + 1 = t.current
    · -- the last index: the free ones before it are given back
      rw [if_pos hlast]
      obtain ⟨t', hloop, hin, hdata, hsame⟩ := trimLoop_spec n (t := { t with current := t.current - 1 })
        (by show t.current - 1 = n; omega) h.ordered (by have := h.current_le; omega) (fun e he => by
          have := h.freed_lt e he
          omega)
      refine ⟨t', by rw [hloop]; rfl, hin, items_eq_of_not_has (fun j => ?_) hdata⟩
      rw [hsame j]
      show (decide (j < t.current - 1) && !t.isFreed j) = (decide (j < t.current) && !t.isFreed j && decide (j ≠ n))
      by_cases hj : j = n
      · simp [hj, ← hlast]
      · have hiff : j < t.current - 1 ↔ j < t.current := by omega
        simp [hj, hiff]
    · -- another index is listed
      rw [if_neg hlast]
      have hint : (n : Int) = i := by omega
      rw [← hint]
      refine ⟨_, rfl, ⟨h.ordered.insert hnot, h.current_le, fun e he => ?_⟩, items_eq_of_not_has (fun j => ?_) rfl⟩
      · rcases List.mem_cons.mp ((sortedInsert_perm n n t.freed).mem_iff.mp he) with rfl | he
        · show n + 1 < t.current
          omega
        · exact h.freed_lt e he
      · show (decide (j < t.current) && !Table.isFreed { t with freed := sortedInsert n n t.freed } j) = _
        rw [isFreed_insert, has, Bool.not_or, ← Bool.and_assoc]
        congr 1
        by_cases hj : n = j
        · simp [hj]
        · simp [hj, Ne.symm hj]
  · have hnone : t.items n = none := by simp [items, hhas]
    rw [if_neg hhas, hnone]
    refine ⟨t, rfl, h, ?_⟩
    rw [← hnone, Function.update_eq_self]

/-! ## Updating -/

theorem update_eq (t : Table α) (i : Int) (item : α) :
    t.update i item = if 0 ≤ i then (t.items i.toNat).map fun a => (a, t.store i.toNat item) else none := by
  by_cases hi : 0 ≤ i
  · by_cases hhas : t.has i.toNat = true
    · obtain ⟨hlt, hused⟩ := has_iff.mp hhas
      have hlt' : i < t.current := by omega
      simp [update, guard, hi, hlt', hused, items, hhas]
    · have hnot : ¬ i < t.current ∨ t.isFreed i.toNat = true := by
        by_contra hcon
        rw [not_or, not_not, Bool.not_eq_true] at hcon
        exact hhas (has_iff.mpr ⟨by omega, hcon.2⟩)
      rcases hnot with hge | hfree
      · simp [update, guard, hi, hge, items, hhas]
      · by_cases hlt : i < t.current
        · simp [update, guard, hi, hlt, hfree, items, hhas]
        · simp [update, guard, hi, hlt, items, hhas]
  · simp [update, guard, hi]

theorem InOrder.store (h : InOrder t) (i : Nat) (item : α) : InOrder (t.store i item) :=
  ⟨h.ordered, h.current_le, h.freed_lt⟩

theorem items_store (hhas : t.has i = true) (item : α) :
    (t.store i item).items = Function.update t.items i (some item) := by
  refine items_eq_of_has (fun j => ?_) rfl
  show t.has j = _
  by_cases hj : j = i
  · rw [hj, hhas]
    rfl
  · simp [hj]

/-! ## Tables are maps -/

/-- The table is in order, and the map holds its items. -/
def Holds (t : Table α) (m : Nat → Option α) : Prop := InOrder t ∧ m = t.items

theorem Holds.isMap [Inhabited α] {m : Nat → Option α} (h : Holds t m) : IsMap t m := by
  obtain ⟨hin, rfl⟩ := h
  refine ⟨fun i => ?_, fun i => ?_, ?_⟩
  · rw [hasKey_natCast]
    by_cases hhas : t.has i = true
    · simp [items, hhas]
    · simp [items, hhas]
  · by_cases hhas : t.has i = true
    · simp [get, items, hhas]
    · simp [get, items, hhas]
  · rw [isEmpty, beq_iff_eq]
    constructor
    · intro hzero i
      simp [items, has, hzero]
    · intro hnone
      by_contra hne
      have hlast := hnone (t.current - 1)
      have hhas : t.has (t.current - 1) = true := by
        refine has_iff.mpr ⟨by omega, Bool.eq_false_iff.mpr fun hfree => ?_⟩
        obtain ⟨e, he, heq⟩ := isFreed_iff.mp hfree
        have := hin.freed_lt e he
        omega
      rw [items, if_pos hhas] at hlast
      cases hlast

theorem Holds.call [Inhabited α] {m : Nat → Option α} (h : Holds t m) (c : Call α) :
    Option.Rel (SameAnswers Holds) (t.call c) (mapCall m c) := by
  obtain ⟨hin, rfl⟩ := h
  cases c with
  | add item =>
    obtain ⟨hin', ⟨i, hfirst, hanswer, hitems⟩ | ⟨hnone, hadd⟩⟩ := hin.add item
    · simp only [Table.call, mapCall, hfirst, hanswer]
      exact Option.Rel.some ⟨rfl, hin', hitems.symm⟩
    · simp only [Table.call, mapCall, hnone, hadd]
      exact Option.Rel.some ⟨rfl, hin, rfl⟩
  | remove i =>
    by_cases hi : 0 ≤ i
    · obtain ⟨t', hremove, hin', hitems⟩ := hin.removeAsserting hi
      simp only [Table.call, mapCall, hremove, hi, guard, if_true, Option.pure_def, Option.bind_eq_bind,
        Option.bind_some]
      exact Option.Rel.some ⟨rfl, hin', hitems.symm⟩
    · simp only [Table.call, mapCall, Table.removeAsserting, guard, hi, if_false]
      exact Option.Rel.none
  | update i item =>
    by_cases hi : 0 ≤ i
    · simp only [Table.call, mapCall, update_eq, hi, guard, if_true, Option.pure_def, Option.bind_eq_bind,
        Option.bind_some]
      by_cases hhas : t.has i.toNat = true
      · simp only [show t.items i.toNat = some (t.data i.toNat) from if_pos hhas, Option.map_some, Option.bind_some]
        exact Option.Rel.some ⟨rfl, hin.store _ _, (items_store hhas item).symm⟩
      · simp only [show t.items i.toNat = none from if_neg hhas, Option.map_none, Option.bind_none]
        exact Option.Rel.none
    · simp only [Table.call, mapCall, update_eq, guard, hi, if_false]
      exact Option.Rel.none

theorem holds_new (data : Nat → α) : Holds (new data) fun _ => none := by
  refine ⟨⟨⟨List.Pairwise.nil, fun e he => absurd he List.not_mem_nil⟩, Nat.zero_le _,
    fun e he => absurd he List.not_mem_nil⟩, ?_⟩
  funext i
  simp [items, has, new]

/-- A table gives the same answers as a map to every sequence of `Add`, `Remove` and `Update`, whatever its
slots held, and it is that map afterwards. In particular the `ASSERT` in `Remove` does not fail. -/
theorem table_is_map [Inhabited α] (data : Nat → α) (calls : List (Call α)) :
    Option.Rel (SameAnswers IsMap) (transcript call (new data) calls) (transcript mapCall (fun _ => none) calls) := by
  have hrun : Option.Rel (SameAnswers Holds) (transcript call (new data) calls)
      (transcript mapCall (fun _ => none) calls) :=
    transcript_rel (fun t m c h => Holds.call h c) (holds_new data)
  generalize transcript call (new data) calls = r at hrun
  generalize transcript mapCall (fun _ => none) calls = r' at hrun
  cases hrun with
  | none => exact Option.Rel.none
  | some h => exact Option.Rel.some ⟨h.1, h.2.isMap⟩

end Nachos.Table
