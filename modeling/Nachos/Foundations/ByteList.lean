import Mathlib.Algebra.Ring.Int.Defs
import Mathlib.Algebra.Ring.Nat
import Mathlib.Data.List.Basic
import Mathlib.Data.List.TakeDrop

/-!
# Lists of bytes

Little-endian 32-bit words as bytes, and the overlay of one list on another: `splice l pos xs` is `l`
with `xs` written over it from position `pos` on.
-/

namespace Foundations

/-! ## Words -/

/-- The four bytes of a 32-bit word, the least significant one first. -/
def le32 (n : Nat) : List UInt8 :=
  [UInt8.ofNat n, UInt8.ofNat (n / 256), UInt8.ofNat (n / 65536), UInt8.ofNat (n / 16777216)]

/-- The word of four bytes. -/
def ofLe32 (a b c d : UInt8) : Nat :=
  a.toNat + 256 * b.toNat + 65536 * c.toNat + 16777216 * d.toNat

/-- The bytes of a list of words. -/
def packWords (ws : List Nat) : List UInt8 := ws.flatMap le32

/-- The words of a list of bytes; bytes that do not fill a word are dropped. -/
def unpackWords : List UInt8 → List Nat
  | a :: b :: c :: d :: bs => ofLe32 a b c d :: unpackWords bs
  | _ => []

theorem ofLe32_lt (a b c d : UInt8) : ofLe32 a b c d < 2 ^ 32 := by
  have ha := a.toNat_lt
  have hb := b.toNat_lt
  have hc := c.toNat_lt
  have hd := d.toNat_lt
  unfold ofLe32
  omega

/-- The word of the bytes of a word. -/
theorem ofLe32_bytes {n : Nat} (h : n < 2 ^ 32) :
    ofLe32 (UInt8.ofNat n) (UInt8.ofNat (n / 256)) (UInt8.ofNat (n / 65536))
      (UInt8.ofNat (n / 16777216)) = n := by
  simp only [ofLe32, UInt8.toNat_ofNat']
  omega

/-- The bytes of the word of four bytes. -/
theorem le32_ofLe32 (a b c d : UInt8) : le32 (ofLe32 a b c d) = [a, b, c, d] := by
  have ha := a.toNat_lt
  have hb := b.toNat_lt
  have hc := c.toNat_lt
  have hd := d.toNat_lt
  have key (n : Nat) (x : UInt8) (h : n % 256 = x.toNat) : UInt8.ofNat n = x := by
    apply UInt8.toNat_inj.mp
    rw [UInt8.toNat_ofNat']
    exact h
  unfold le32
  rw [key _ a, key _ b, key _ c, key _ d] <;> unfold ofLe32 <;> omega

@[simp]
theorem length_packWords (ws : List Nat) : (packWords ws).length = 4 * ws.length := by
  induction ws with
  | nil => rfl
  | cons w ws ih =>
    simp only [packWords, List.flatMap_cons, List.length_append, List.length_cons] at ih ⊢
    rw [ih]
    simp only [le32, List.length_cons, List.length_nil]
    omega

theorem unpackWords_packWords {ws : List Nat} (h : ∀ w ∈ ws, w < 2 ^ 32) :
    unpackWords (packWords ws) = ws := by
  induction ws with
  | nil => rfl
  | cons w ws ih =>
    have hw := ofLe32_bytes (h w (List.mem_cons_self ..))
    have ih := ih fun v hv => h v (List.mem_cons_of_mem w hv)
    show unpackWords (le32 w ++ packWords ws) = w :: ws
    simp only [le32, List.cons_append, List.nil_append, unpackWords, hw, ih]

/-- Less than four bytes have no word. -/
theorem unpackWords_short {bs : List UInt8} (h : bs.length < 4) : unpackWords bs = [] := by
  match bs, h with
  | [], _ => rfl
  | [_], _ => rfl
  | [_, _], _ => rfl
  | [_, _, _], _ => rfl
  | _ :: _ :: _ :: _ :: _, h => simp only [List.length_cons] at h; omega

theorem length_lt_of_noWord {bs : List UInt8}
    (hno : ∀ (a b c d : UInt8) (bs' : List UInt8), bs = a :: b :: c :: d :: bs' → False) :
    bs.length < 4 := by
  match bs, hno with
  | [], _ => simp
  | [_], _ => simp
  | [_, _], _ => simp
  | [_, _, _], _ => simp
  | a :: b :: c :: d :: bs, hno => exact absurd rfl (hno a b c d bs)

theorem packWords_unpackWords (bs : List UInt8) (h : bs.length % 4 = 0) :
    packWords (unpackWords bs) = bs := by
  induction bs using unpackWords.induct with
  | case1 a b c d bs ih =>
    have ih := ih (by simp only [List.length_cons] at h; omega)
    show le32 (ofLe32 a b c d) ++ packWords (unpackWords bs) = _
    rw [ih, le32_ofLe32]
    rfl
  | case2 bs hno =>
    have hlt := length_lt_of_noWord hno
    have hnil : bs = [] := List.eq_nil_of_length_eq_zero (by omega)
    rw [unpackWords_short hlt, hnil]
    rfl

theorem length_unpackWords (bs : List UInt8) : (unpackWords bs).length = bs.length / 4 := by
  induction bs using unpackWords.induct with
  | case1 a b c d bs ih =>
    simp only [unpackWords, List.length_cons, ih]
    omega
  | case2 bs hno =>
    have hlt := length_lt_of_noWord hno
    rw [unpackWords_short hlt, Nat.div_eq_of_lt hlt]
    rfl

theorem unpackWords_lt (bs : List UInt8) : ∀ w ∈ unpackWords bs, w < 2 ^ 32 := by
  induction bs using unpackWords.induct with
  | case1 a b c d bs ih =>
    intro w hw
    rcases List.mem_cons.mp hw with rfl | hw
    · exact ofLe32_lt a b c d
    · exact ih w hw
  | case2 bs hno =>
    rw [unpackWords_short (length_lt_of_noWord hno)]
    simp

/-! ## Chunks -/

section Chunks

variable {α β : Type*} {g : α → List β} {n : Nat}

/-- To drop whole chunks of a concatenation is to drop their sources. -/
theorem drop_flatMap (h : ∀ x, (g x).length = n) (l : List α) (i : Nat) :
    (l.flatMap g).drop (i * n) = (l.drop i).flatMap g := by
  induction i generalizing l with
  | zero => simp
  | succ i ih =>
    cases l with
    | nil => simp
    | cons x l =>
      rw [List.flatMap_cons, List.drop_succ_cons, ← ih l, Nat.succ_mul, Nat.add_comm,
        ← List.drop_drop, List.drop_left' (h x)]

/-- To take whole chunks of a concatenation is to take their sources. -/
theorem take_flatMap (h : ∀ x, (g x).length = n) (l : List α) (i : Nat) :
    (l.flatMap g).take (i * n) = (l.take i).flatMap g := by
  induction i generalizing l with
  | zero => simp
  | succ i ih =>
    cases l with
    | nil => simp
    | cons x l =>
      have hlen := h x
      rw [List.flatMap_cons, List.take_succ_cons, List.flatMap_cons, ← ih l, Nat.succ_mul,
        List.take_append, hlen, List.take_of_length_le (by omega)]
      congr 2
      omega

end Chunks

/-! ## Overlays -/

section Splice

variable {α : Type*}

/-- `l` with `xs` written over it from position `pos` on. -/
def splice (l : List α) (pos : Nat) (xs : List α) : List α :=
  l.take pos ++ xs ++ l.drop (pos + xs.length)

theorem length_splice {l xs : List α} {pos : Nat} (h : pos + xs.length ≤ l.length) :
    (splice l pos xs).length = l.length := by
  simp only [splice, List.length_append, List.length_take, List.length_drop]
  omega

/-- Inside the overlay stands `xs`, outside it `l`. -/
theorem getElem?_splice {l xs : List α} {pos : Nat} (h : pos ≤ l.length) (i : Nat) :
    (splice l pos xs)[i]? =
      if pos ≤ i ∧ i < pos + xs.length then xs[i - pos]? else l[i]? := by
  have hlen : (l.take pos).length = pos := by rw [List.length_take]; omega
  unfold splice
  by_cases h1 : i < pos
  · rw [if_neg (by omega), List.append_assoc, List.getElem?_append_left (by omega),
      List.getElem?_take_of_lt h1]
  · by_cases h2 : i < pos + xs.length
    · rw [if_pos (by omega), List.append_assoc, List.getElem?_append_right (by omega), hlen,
        List.getElem?_append_left (by omega)]
    · rw [if_neg (by omega), List.getElem?_append_right (by simp [hlen]; omega),
        List.getElem?_drop]
      congr 1
      simp only [List.length_append, hlen]
      omega

@[simp]
theorem splice_nil (l : List α) (pos : Nat) : splice l pos [] = l := by
  simp [splice]

/-- An overlay of the whole list is the overlaid list. -/
theorem splice_of_length_eq {l xs : List α} (h : xs.length = l.length) : splice l 0 xs = xs := by
  simp [splice, h]

/-- `l` with the part of `xs` that fits written over it from position `pos` on. -/
def poke (l : List α) (pos : Nat) (xs : List α) : List α := (splice l pos xs).take l.length

@[simp]
theorem length_poke (l : List α) (pos : Nat) (xs : List α) : (poke l pos xs).length = l.length := by
  simp only [poke, splice, List.length_take, List.length_append, List.length_drop]
  omega

theorem poke_eq_splice {l xs : List α} {pos : Nat} (h : pos + xs.length ≤ l.length) :
    poke l pos xs = splice l pos xs := by
  unfold poke
  rw [List.take_of_length_le (Nat.le_of_eq (length_splice h))]

theorem getElem?_poke (l : List α) (pos : Nat) (xs : List α) (i : Nat) :
    (poke l pos xs)[i]? =
      if i < l.length ∧ pos ≤ i ∧ i < pos + xs.length then xs[i - pos]? else l[i]? := by
  by_cases hi : i < l.length
  · unfold poke
    rw [List.getElem?_take_of_lt hi]
    by_cases hp : pos ≤ l.length
    · rw [getElem?_splice hp]
      simp only [hi, true_and]
    · rw [if_neg (by omega)]
      unfold splice
      rw [List.take_of_length_le (by omega), List.append_assoc, List.getElem?_append_left hi]
  · rw [if_neg (by omega), List.getElem?_eq_none (by rw [length_poke]; omega),
      List.getElem?_eq_none (by omega)]

end Splice

end Foundations
