import Nachos.Lib.Table

/-!
# Proofs: tables

Which indices a table has, and what it holds at them, after an item is added or removed.
-/

namespace Nachos.Table

variable {α : Type} {t t' : Table α} {item : α} {i j : Nat}

/-! ## Looking up -/

@[simp]
theorem hasKey_natCast (t : Table α) (i : Nat) : t.hasKey i = some (t.has i) := by
  simp [hasKey]

theorem hasKey_of_nonneg {i : Int} (hi : 0 ≤ i) : t.hasKey i = some (t.has i.toNat) := by
  simp [hasKey, hi]

theorem hasKey_of_neg {i : Int} (hi : i < 0) : t.hasKey i = none := by
  simp only [hasKey, guard, if_neg (Int.not_le.mpr hi)]
  rfl

theorem hasKey_eq_true {i : Int} : t.hasKey i = some true ↔ 0 ≤ i ∧ t.has i.toNat = true := by
  by_cases hi : 0 ≤ i <;> simp [hasKey, guard, hi]

theorem get_natCast [Inhabited α] (hi : t.has i = true) : t.get i = some (t.data i) := by
  simp [get, hi]

theorem has_iff : t.has i = true ↔ i < t.current ∧ t.isFreed i = false := by
  simp [has]

theorem isFreed_iff : t.isFreed i = true ↔ ∃ e ∈ t.freed, e.1 = i := by
  simp [isFreed]

theorem has_of_freed_nil (hfreed : t.freed = []) (i : Nat) : t.has i = decide (i < t.current) := by
  simp [has, isFreed, hfreed]

/-! ## Adding -/

/-- A table from which nothing has been removed gives the next index, as long as there is one. -/
theorem add_of_lt (hfreed : t.freed = []) (hroom : t.current < size) :
    t.add item = ((t.current : Int), { t.store t.current item with current := t.current + 1 }) := by
  rw [add, hfreed, sortedPop]
  exact if_pos hroom

theorem add_full (hfreed : t.freed = []) (hfull : size ≤ t.current) (item : α) : t.add item = (-1, t) := by
  rw [add, hfreed, sortedPop]
  exact if_neg (Nat.not_lt.mpr hfull)

/-- What `Add` can do: it takes a freed index, or the next one, or nothing. -/
theorem add_cases (t : Table α) (item : α) :
    (∃ e freed, t.freed = e :: freed ∧
        t.add item = ((e.1 : Int), { t.store e.1 item with freed := freed })) ∨
      (t.freed = [] ∧ t.current < size ∧
        t.add item = ((t.current : Int), { t.store t.current item with current := t.current + 1 })) ∨
      (t.freed = [] ∧ size ≤ t.current ∧ t.add item = (-1, t)) := by
  cases hfreed : t.freed with
  | cons e freed => exact Or.inl ⟨e, freed, rfl, by rw [add, hfreed, sortedPop]⟩
  | nil =>
    rcases Nat.lt_or_ge t.current size with hroom | hfull
    · exact Or.inr (Or.inl ⟨rfl, hroom, add_of_lt hfreed hroom⟩)
    · exact Or.inr (Or.inr ⟨rfl, hfull, add_full hfreed hfull item⟩)

/-! ## Removing -/

theorem isFreed_unfree (hj : j ≠ i) : (t.unfree i).isFreed j = t.isFreed j := by
  unfold unfree isFreed
  induction t.freed with
  | nil => rfl
  | cons e l ih =>
    by_cases he : e.1 = i
    · rw [List.eraseP_cons_of_pos (by simpa using he), List.any_cons]
      simp [he, hj.symm]
    · rw [List.eraseP_cons_of_neg (by simpa using he), List.any_cons, List.any_cons, ih]

/-- The loop of `Remove` keeps the items and gives back only indices at the end. -/
theorem trim_spec (n : Nat) (t : Table α) :
    (trim n t).data = t.data ∧ (trim n t).current ≤ n ∧ (∀ e ∈ (trim n t).freed, e ∈ t.freed) ∧
      (∀ j, j < (trim n t).current → (trim n t).isFreed j = t.isFreed j) ∧
      ∀ m, m ≤ n → (∀ j, j < m → t.isFreed j = false) → m ≤ (trim n t).current := by
  induction n generalizing t with
  | zero =>
    refine ⟨rfl, Nat.le_refl 0, fun _ he => he, fun _ hj => absurd hj (Nat.not_lt_zero _), ?_⟩
    intro m hm _
    exact hm
  | succ n ih =>
    unfold trim
    split
    next hn =>
      obtain ⟨hdata, hle, hfreed, hsame, hkeep⟩ := ih (t.unfree n)
      refine ⟨hdata, Nat.le_succ_of_le hle, ?_, ?_, ?_⟩
      · intro e he
        exact List.mem_of_mem_eraseP (hfreed e he)
      · intro j hj
        rw [hsame j hj]
        exact isFreed_unfree (Nat.ne_of_lt (Nat.lt_of_lt_of_le hj hle))
      · intro m hm hnone
        have hmn : m ≤ n := by
          by_contra hlt
          rw [hnone n (Nat.not_le.mp hlt)] at hn
          cases hn
        refine hkeep m hmn fun j hj => ?_
        rw [isFreed_unfree (Nat.ne_of_lt (Nat.lt_of_lt_of_le hj hmn))]
        exact hnone j hj
    next =>
      exact ⟨rfl, Nat.le_refl _, fun _ he => he, fun _ _ => rfl, fun _ hm _ => hm⟩

/-- What `Remove` can do: give back the last index and the freed ones before it, or free the index, or
nothing. -/
theorem remove_cases [Inhabited α] {i : Int} {r : α} (h : t.remove i = some (r, t')) :
    0 ≤ i ∧
      ((t.has i.toNat = true ∧ i.toNat + 1 = t.current ∧ t' = trim i.toNat t) ∨
        (t.has i.toNat = true ∧ t' = { t with freed := sortedInsert i.toNat i t.freed }) ∨
        t' = t) := by
  unfold remove at h
  by_cases hi : 0 ≤ i
  · refine ⟨hi, ?_⟩
    simp only [hi, guard, if_true, Option.pure_def, Option.bind_eq_bind, Option.bind_some] at h
    split at h
    next hhas =>
      split at h
      next hlast =>
        cases h
        exact Or.inl ⟨hhas, hlast, rfl⟩
      next =>
        cases h
        exact Or.inr (Or.inl ⟨hhas, rfl⟩)
    next =>
      cases h
      exact Or.inr (Or.inr rfl)
  · simp [guard, hi] at h

theorem remove_of_nonneg [Inhabited α] {i : Int} (hi : 0 ≤ i) : ∃ r, t.remove i = some r := by
  unfold remove
  simp only [hi, guard, if_true, Option.pure_def, Option.bind_eq_bind, Option.bind_some]
  split
  · split
    · exact ⟨_, rfl⟩
    · exact ⟨_, rfl⟩
  · exact ⟨_, rfl⟩

theorem isFreed_insert {i : Nat} {key : Int} :
    ({ t with freed := sortedInsert i key t.freed } : Table α).isFreed j = (t.isFreed j || i == j) := by
  unfold isFreed
  rw [(sortedInsert_perm i key t.freed).any_eq, List.any_cons, Bool.or_comm]

/-- `Remove` adds no index and changes no item. -/
theorem remove_mono [Inhabited α] {i : Int} {r : α} (h : t.remove i = some (r, t')) :
    t'.data = t.data ∧ ∀ j, t'.has j = true → t.has j = true := by
  obtain ⟨_, ⟨hhas, hlast, rfl⟩ | ⟨_, rfl⟩ | rfl⟩ := remove_cases h
  · obtain ⟨hdata, hle, _, hsame, _⟩ := trim_spec i.toNat t
    refine ⟨hdata, fun j hj => ?_⟩
    obtain ⟨hlt, hfree⟩ := has_iff.mp hj
    rw [hsame j hlt] at hfree
    exact has_iff.mpr ⟨by omega, hfree⟩
  · refine ⟨rfl, fun j hj => ?_⟩
    obtain ⟨hlt, hfree⟩ := has_iff.mp hj
    rw [isFreed_insert, Bool.or_eq_false_iff] at hfree
    exact has_iff.mpr ⟨hlt, hfree.1⟩
  · exact ⟨rfl, fun _ hj => hj⟩

end Nachos.Table
