import Mathlib.Algebra.Ring.Int.Defs
import Mathlib.Algebra.Ring.Nat
import Mathlib.Data.List.Basic

/-!
# Byte memories

A memory is a function from addresses to bytes. `blit` copies a list of bytes into it; what a reader
of another range sees does not change, and a reader of the same range sees the bytes.
-/

namespace Foundations

/-- A byte memory. -/
abbrev ByteMemory := Nat → UInt8

/-- Copy the bytes `bs` to the addresses `start, start + 1, ...`. -/
def blit (mem : ByteMemory) (start : Nat) (bs : List UInt8) : ByteMemory := fun a =>
  if start ≤ a ∧ a < start + bs.length then bs.getD (a - start) 0 else mem a

/-- The `n` bytes from `start` on. -/
def slice (mem : ByteMemory) (start n : Nat) : List UInt8 :=
  (List.range n).map fun i => mem (start + i)

@[simp]
theorem length_slice (mem : ByteMemory) (start n : Nat) : (slice mem start n).length = n := by
  simp [slice]

theorem getD_slice {n i : Nat} (mem : ByteMemory) (start : Nat) (d : UInt8) (hi : i < n) :
    (slice mem start n).getD i d = mem (start + i) := by
  simp [slice, hi]

/-- Outside the copied range nothing changes. -/
theorem blit_outside {mem : ByteMemory} {start a : Nat} {bs : List UInt8}
    (h : a < start ∨ start + bs.length ≤ a) : blit mem start bs a = mem a := by
  unfold blit
  rw [if_neg]
  omega

/-- Inside the copied range stand the bytes. -/
theorem blit_inside {mem : ByteMemory} {start i : Nat} {bs : List UInt8} (h : i < bs.length) :
    blit mem start bs (start + i) = bs.getD i 0 := by
  unfold blit
  rw [if_pos (by omega)]
  congr 1
  omega

@[simp]
theorem blit_nil (mem : ByteMemory) (start : Nat) : blit mem start [] = mem := by
  funext a
  exact blit_outside (by simp only [List.length_nil]; omega)

/-- Reading the copied range gives the bytes. -/
theorem slice_blit {n : Nat} (mem : ByteMemory) (start : Nat) {bs : List UInt8} (h : bs.length = n) :
    slice (blit mem start bs) start n = bs := by
  subst h
  refine List.ext_getElem (length_slice ..) fun i hi hi' => ?_
  simp [slice, blit_inside hi', hi']

/-- A byte after a copy depends on the memory before only through that byte. -/
theorem blit_congr {mem mem' : ByteMemory} {start a : Nat} (bs : List UInt8) (h : mem a = mem' a) :
    blit mem start bs a = blit mem' start bs a := by
  unfold blit
  rw [h]

/-- A copy at a shifted range is the copy at the range, read at a shifted address. -/
theorem blit_shift {mem mem' : ByteMemory} {k start a : Nat} {bs : List UInt8}
    (h : mem (k + a) = mem' a) : blit mem (k + start) bs (k + a) = blit mem' start bs a := by
  unfold blit
  rw [h]
  by_cases hc : start ≤ a ∧ a < start + bs.length
  · rw [if_pos (by omega), if_pos hc]
    congr 1
    omega
  · rw [if_neg (by omega), if_neg hc]

/-- Two copies, the second behind the first. -/
theorem blit_append (m : ByteMemory) (a : Nat) (bs cs : List UInt8) :
    blit (blit m a bs) (a + bs.length) cs = blit m a (bs ++ cs) := by
  funext x
  rcases Nat.lt_or_ge x (a + bs.length) with hx | hx
  · rw [blit_outside (Or.inl hx)]
    rcases Nat.lt_or_ge x a with ha | ha
    · rw [blit_outside (Or.inl ha), blit_outside (Or.inl ha)]
    · obtain ⟨i, rfl⟩ := Nat.exists_eq_add_of_le ha
      have hi : i < bs.length := by omega
      have hi' : i < (bs ++ cs).length := by
        rw [List.length_append]
        omega
      rw [blit_inside hi, blit_inside hi', List.getD_eq_getElem?_getD, List.getD_eq_getElem?_getD,
        List.getElem?_append_left hi]
  · obtain ⟨i, rfl⟩ := Nat.exists_eq_add_of_le hx
    rcases Nat.lt_or_ge i cs.length with hi | hi
    · have hi' : bs.length + i < (bs ++ cs).length := by
        rw [List.length_append]
        omega
      rw [blit_inside hi, Nat.add_assoc, blit_inside hi', List.getD_eq_getElem?_getD,
        List.getD_eq_getElem?_getD, List.getElem?_append_right (Nat.le_add_right _ _),
        Nat.add_sub_cancel_left]
    · rw [blit_outside (Or.inr (by omega)), blit_outside (Or.inr (by omega)),
        blit_outside (Or.inr (by rw [List.length_append]; omega))]

/-- A range in two parts. -/
theorem slice_add (m : ByteMemory) (a n k : Nat) : slice m a (n + k) = slice m a n ++ slice m (a + n) k := by
  unfold slice
  rw [List.range_add, List.map_append, List.map_map]
  simp only [Function.comp_def, Nat.add_assoc]

theorem slice_succ (m : ByteMemory) (a n : Nat) : slice m a (n + 1) = slice m a n ++ [m (a + n)] :=
  slice_add m a n 1

/-- A range depends only on its bytes. -/
theorem slice_congr {m m' : ByteMemory} {a n : Nat} (h : ∀ x, a ≤ x → x < a + n → m' x = m x) :
    slice m' a n = slice m a n := by
  unfold slice
  apply List.map_congr_left
  intro i hi
  have hlt : i < n := List.mem_range.mp hi
  exact h _ (Nat.le_add_right _ _) (by omega)

end Foundations
