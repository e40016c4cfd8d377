import Mathlib.Data.List.Nodup
import Mathlib.Logic.Function.Basic

/-!
# Chains of pointers

Nodes in a heap, each of which points to the next one. A chain is stated with the addresses and the values of its
nodes but without their pointers, so that it stays the same list when its end is turned elsewhere.
-/

namespace Foundations

variable {A N V : Type*} {next : N → Option A} {value : N → V}

/-- From the pointer `p` a chain of nodes, with these addresses and values, leads to the pointer `q`. -/
def Chain (next : N → Option A) (value : N → V) (heap : A → Option N) : Option A → List (A × V) → Option A → Prop
  | p, [], q => p = q
  | p, x :: c, q => p = some x.1 ∧ ∃ e, heap x.1 = some e ∧ value e = x.2 ∧ Chain next value heap (next e) c q

/-- The pointer to the first node of a list. -/
def front (c : List (A × V)) : Option A := c.head?.map Prod.fst

/-- The pointer to the last node of a list. -/
def back (c : List (A × V)) : Option A := c.getLast?.map Prod.fst

/-- The addresses of the nodes of a list. -/
def addresses (c : List (A × V)) : List A := c.map Prod.fst

@[simp]
theorem front_nil : front ([] : List (A × V)) = none := rfl

@[simp]
theorem front_cons (x : A × V) (c : List (A × V)) : front (x :: c) = some x.1 := rfl

@[simp]
theorem back_nil : back ([] : List (A × V)) = none := rfl

@[simp]
theorem back_concat (x : A × V) (c : List (A × V)) : back (c ++ [x]) = some x.1 := by simp [back]

@[simp]
theorem addresses_nil : addresses ([] : List (A × V)) = [] := rfl

@[simp]
theorem addresses_cons (x : A × V) (c : List (A × V)) : addresses (x :: c) = x.1 :: addresses c := rfl

@[simp]
theorem addresses_append (c d : List (A × V)) : addresses (c ++ d) = addresses c ++ addresses d :=
  List.map_append

theorem mem_addresses {x : A × V} {c : List (A × V)} (hx : x ∈ c) : x.1 ∈ addresses c :=
  List.mem_map_of_mem hx

/-- The last pointer of a list that goes on is that of its second part. -/
theorem back_append_cons (c d : List (A × V)) (x : A × V) : back (c ++ x :: d) = back (x :: d) := by
  simp [back, List.getLast?_append, List.getLast?_cons]

theorem back_eq_none_iff {c : List (A × V)} : back c = none ↔ c = [] := by simp [back]

theorem front_eq_none_iff {c : List (A × V)} : front c = none ↔ c = [] := by simp [front]

variable {heap heap' : A → Option N} {p q r : Option A} {c d : List (A × V)} {x : A × V} {a : A}

/-- A chain over two lists goes from the one to the other. -/
theorem chain_append : Chain next value heap p (c ++ d) q ↔
    ∃ r, Chain next value heap p c r ∧ Chain next value heap r d q := by
  induction c generalizing p with
  | nil =>
    constructor
    · exact fun h => ⟨p, rfl, h⟩
    · rintro ⟨r, rfl, h⟩
      exact h
  | cons y c ih =>
    constructor
    · rintro ⟨hp, e, he, hval, hrest⟩
      obtain ⟨r, hc, hd⟩ := ih.mp hrest
      exact ⟨r, ⟨hp, e, he, hval, hc⟩, hd⟩
    · rintro ⟨r, ⟨hp, e, he, hval, hc⟩, hd⟩
      exact ⟨hp, e, he, hval, ih.mpr ⟨r, hc, hd⟩⟩

/-- A chain to null starts at its first node. -/
theorem Chain.start (h : Chain next value heap p c none) : p = front c := by
  cases c with
  | nil => exact h
  | cons y c => exact h.1

theorem Chain.congr (h : Chain next value heap p c q) (hsame : ∀ b ∈ addresses c, heap' b = heap b) :
    Chain next value heap' p c q := by
  induction c generalizing p with
  | nil => exact h
  | cons y c ih =>
    obtain ⟨hp, e, he, hval, hrest⟩ := h
    refine ⟨hp, e, ?_, hval, ih hrest fun b hb => hsame b (List.mem_cons_of_mem _ hb)⟩
    rw [hsame y.1 List.mem_cons_self, he]

/-- The nodes of a chain are in the heap. -/
theorem Chain.isSome (h : Chain next value heap p c q) (ha : a ∈ addresses c) : (heap a).isSome := by
  induction c generalizing p with
  | nil => cases ha
  | cons y c ih =>
    obtain ⟨-, e, he, -, hrest⟩ := h
    rcases List.mem_cons.mp ha with rfl | ha
    · rw [he]
      rfl
    · exact ih hrest ha

/-- The last node of a chain. -/
theorem Chain.last (h : Chain next value heap p (c ++ [x]) q) :
    Chain next value heap p c (some x.1) ∧ ∃ e, heap x.1 = some e ∧ value e = x.2 ∧ next e = q := by
  obtain ⟨r, hc, hr, e, he, hval, hnext⟩ := chain_append.mp h
  rw [← hr]
  exact ⟨hc, e, he, hval, hnext⟩

variable [DecidableEq A]

/-- A change at an address that no node of the chain has. -/
theorem Chain.update (h : Chain next value heap p c q) (ha : a ∉ addresses c) (o : Option N) :
    Chain next value (Function.update heap a o) p c q := by
  refine h.congr fun b hb => ?_
  have hne : b ≠ a := by
    rintro rfl
    exact ha hb
  rw [Function.update_of_ne hne]

/-- The end of a chain is turned to another pointer. -/
theorem Chain.redirect {e : N} (h : Chain next value heap p (c ++ [x]) q) (hx : x.1 ∉ addresses c)
    (hval : value e = x.2) : Chain next value (Function.update heap x.1 (some e)) p (c ++ [x]) (next e) :=
  chain_append.mpr ⟨some x.1, h.last.1.update hx _, rfl, e, Function.update_self .., hval, rfl⟩

end Foundations
