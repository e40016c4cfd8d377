import Mathlib.Data.List.Induction
import Nachos.Lib.SortedList

/-!
# Proofs: sorted lists

Where `SortedInsert` puts an item, when an item that was popped and put back is where it was, and which
item is the first of a list that was filled by `SortedInsert` alone.
-/

namespace Nachos

variable {α : Type*}

/-- An item goes behind the first items whose keys are not bigger. -/
theorem sortedInsert_eq (item : α) (sortKey : Int) (l : List (α × Int)) :
    sortedInsert item sortKey l =
      l.takeWhile (·.2 ≤ sortKey) ++ (item, sortKey) :: l.dropWhile (·.2 ≤ sortKey) := by
  induction l with
  | nil => rfl
  | cons e l ih =>
    unfold sortedInsert
    by_cases h : sortKey < e.2
    · have hle : ¬e.2 ≤ sortKey := by omega
      simp [h, hle]
    · have hle : e.2 ≤ sortKey := by omega
      simp [h, hle, ih]

/-- An item goes between the elements whose keys are not bigger and the first one with a bigger key. -/
theorem sortedInsert_append (item : α) (sortKey : Int) {before after : List (α × Int)}
    (hbefore : ∀ e ∈ before, e.2 ≤ sortKey) (hafter : ∀ e ∈ after.head?, sortKey < e.2) :
    sortedInsert item sortKey (before ++ after) = before ++ (item, sortKey) :: after := by
  induction before with
  | nil =>
    cases after with
    | nil => rfl
    | cons e after =>
      rw [List.nil_append, sortedInsert, if_pos (hafter e rfl)]
      rfl
  | cons e before ih =>
    have hle := hbefore e List.mem_cons_self
    rw [List.cons_append, sortedInsert, if_neg (Int.not_lt.mpr hle),
      ih fun b hb => hbefore b (List.mem_cons_of_mem e hb)]
    rfl

/-- The keys are in increasing order. -/
def KeySorted (l : List (α × Int)) : Prop := l.Pairwise fun a b => a.2 ≤ b.2

theorem KeySorted.sortedInsert {l : List (α × Int)} (h : KeySorted l) (item : α) (sortKey : Int) :
    KeySorted (sortedInsert item sortKey l) := by
  induction l with
  | nil => exact List.pairwise_singleton _ _
  | cons e l ih =>
    obtain ⟨he, hl⟩ := List.pairwise_cons.mp h
    unfold Nachos.sortedInsert
    split
    · rename_i hlt
      refine List.pairwise_cons.mpr ⟨fun b hb => ?_, h⟩
      rcases List.mem_cons.mp hb with rfl | hb
      · exact Int.le_of_lt hlt
      · have := he b hb
        show sortKey ≤ b.2
        omega
    · rename_i hge
      refine List.pairwise_cons.mpr ⟨fun b hb => ?_, ih hl⟩
      rcases List.mem_cons.mp ((sortedInsert_perm item sortKey l).mem_iff.mp hb) with rfl | hb
      · exact Int.not_lt.mp hge
      · exact he b hb

/-- The items that were inserted one after the other, with their keys. -/
theorem foldl_sortedInsert_perm {β : Type*} (item : β → α) (key : β → Int) (l : List β)
    (acc : List (α × Int)) :
    (l.foldl (fun acc b => sortedInsert (item b) (key b) acc) acc).Perm
      (acc ++ l.map fun b => (item b, key b)) := by
  induction l generalizing acc with
  | nil => simp
  | cons b l ih =>
    rw [List.foldl_cons, List.map_cons]
    refine (ih _).trans (((sortedInsert_perm _ _ acc).append_right _).trans ?_)
    exact List.perm_middle.symm

theorem KeySorted.foldl_sortedInsert {β : Type*} (item : β → α) (key : β → Int) (l : List β)
    {acc : List (α × Int)} (h : KeySorted acc) :
    KeySorted (l.foldl (fun acc b => Nachos.sortedInsert (item b) (key b) acc) acc) := by
  induction l generalizing acc with
  | nil => exact h
  | cons b l ih => exact ih (h.sortedInsert (item b) (key b))

/-- Moving an item behind some others changes nothing only if they are all the same. -/
theorem append_cons_eq_cons_append_iff (a : α) (l1 l2 : List α) :
    l1 ++ a :: l2 = a :: (l1 ++ l2) ↔ ∀ b ∈ l1, b = a := by
  induction l1 with
  | nil => simp
  | cons c l1 ih =>
    constructor
    · intro h b hb
      rw [List.cons_append, List.cons_append, List.cons.injEq] at h
      obtain ⟨rfl, h⟩ := h
      rcases List.mem_cons.mp hb with rfl | hb
      · rfl
      · exact ih.mp h b hb
    · intro h
      have hc : c = a := h c List.mem_cons_self
      subst hc
      rw [List.cons_append, List.cons_append, ih.mpr fun b hb => h b (List.mem_cons_of_mem _ hb)]

/-- The item that was popped is back in its place exactly if the items that it went behind are equal to
it. -/
theorem sortedInsert_eq_cons_iff (item : α) (sortKey : Int) (l : List (α × Int)) :
    sortedInsert item sortKey l = (item, sortKey) :: l ↔
      ∀ e ∈ l.takeWhile (·.2 ≤ sortKey), e = (item, sortKey) := by
  rw [sortedInsert_eq, ← append_cons_eq_cons_append_iff, List.takeWhile_append_dropWhile]

/-- The first item of a list after an insertion. -/
theorem head?_sortedInsert (item : α) (sortKey : Int) (l : List (α × Int)) :
    (sortedInsert item sortKey l).head? =
      match l.head? with
      | none => some (item, sortKey)
      | some e => if sortKey < e.2 then some (item, sortKey) else some e := by
  cases l with
  | nil => rfl
  | cons e l =>
    unfold sortedInsert
    split
    · simp [*]
    · simp [*]

/-- Insert the items of a list, the first one first. -/
def sortedInsertAll (key : α → Int) (l : List α) : List (α × Int) :=
  l.foldl (fun acc item => sortedInsert item (key item) acc) []

theorem sortedInsertAll_append_singleton (key : α → Int) (l : List α) (a : α) :
    sortedInsertAll key (l ++ [a]) = sortedInsert a (key a) (sortedInsertAll key l) := by
  simp [sortedInsertAll]

/-- The item has the least key, and is the first of those with this key. -/
structure FirstLeast (key : α → Int) (l : List α) (a : α) : Prop where
  mem : a ∈ l
  least : ∀ b ∈ l, key a ≤ key b
  first : l.find? (fun b => key b = key a) = some a

/-- The first item of a list that was filled by insertions. -/
theorem head?_sortedInsertAll (key : α → Int) (l : List α) :
    (l = [] ∧ (sortedInsertAll key l).head? = none) ∨
      ∃ a, (sortedInsertAll key l).head? = some (a, key a) ∧ FirstLeast key l a := by
  induction l using List.reverseRecOn with
  | nil => exact Or.inl ⟨rfl, rfl⟩
  | append_singleton l b ih =>
    right
    rw [sortedInsertAll_append_singleton, head?_sortedInsert]
    rcases ih with ⟨rfl, hhead⟩ | ⟨a, hhead, ha⟩
    · rw [hhead]
      exact ⟨b, rfl, by simp, by simp, by simp⟩
    · rw [hhead]
      by_cases hlt : key b < key a
      · refine ⟨b, by simp [hlt], by simp, ?_, ?_⟩
        · intro c hc
          rcases List.mem_append.mp hc with hc | hc
          · have := ha.least c hc
            omega
          · have hcb : c = b := List.mem_singleton.mp hc
            subst hcb
            omega
        · have hnone : l.find? (fun c => key c = key b) = none := by
            rw [List.find?_eq_none]
            intro c hc
            have := ha.least c hc
            simp only [decide_eq_true_eq]
            omega
          rw [List.find?_append, hnone]
          simp
      · refine ⟨a, by simp [hlt], List.mem_append_left _ ha.mem, ?_, ?_⟩
        · intro c hc
          rcases List.mem_append.mp hc with hc | hc
          · exact ha.least c hc
          · have hcb : c = b := List.mem_singleton.mp hc
            subst hcb
            omega
        · rw [List.find?_append, ha.first]
          rfl

end Nachos
