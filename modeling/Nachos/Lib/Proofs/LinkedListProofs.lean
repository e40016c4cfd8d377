import Nachos.Lib.LinkedList
import Nachos.Lib.Proofs.SortedListProofs
import Nachos.Foundations.Runs

/-!
# Proofs: linked lists

The pointers of a list lead from its first to its last element over the items that the calls on lists of items would
leave, in the same order. Each method is one or two changes of pointers; what such a change makes of a well-formed
list comes first.
-/

namespace Nachos

open Foundations

variable {α : Type}

/-- What an element holds. -/
def ListElement.content (e : ListElement α) : α × Int := (e.item, e.key)

namespace LinkedList

variable {nodes0 : Nat → Option (ListElement α)} {s s' : LinkedList α} {c d : List (Nat × α × Int)}
  {x y : Nat × α × Int} {a n : Nat} {e e' : ListElement α} {item : α} {sortKey : Int}

/-- The elements lead from `first` to null, `last` is the last of them, and the memory that they do not take is as
it was when the list was made. -/
structure WellFormed (nodes0 : Nat → Option (ListElement α)) (s : LinkedList α) (c : List (Nat × α × Int)) : Prop where
  chain : Chain ListElement.next ListElement.content s.nodes s.first c none
  last_eq : s.last = back c
  nodup : (addresses c).Nodup
  apart : ∀ b ∈ addresses c, nodes0 b = none
  others : ∀ b, b ∉ addresses c → s.nodes b = nodes0 b

theorem wellFormed_new (nodes0 : Nat → Option (ListElement α)) : WellFormed nodes0 (new nodes0) [] where
  chain := rfl
  last_eq := rfl
  nodup := List.nodup_nil
  apart := fun _ hb => by cases hb
  others := fun _ _ => rfl

namespace WellFormed

theorem first_eq (h : WellFormed nodes0 s c) : s.first = front c := h.chain.start

theorem not_mem (h : WellFormed nodes0 s c) (ha : s.nodes a = none) : a ∉ addresses c := by
  intro hmem
  have hsome := h.chain.isSome hmem
  rw [ha] at hsome
  cases hsome

/-- The element of a cell. -/
theorem cell (h : WellFormed nodes0 s (c ++ x :: d)) :
    ∃ e, s.nodes x.1 = some e ∧ e.content = x.2 ∧
      Chain ListElement.next ListElement.content s.nodes s.first c (some x.1) ∧
      Chain ListElement.next ListElement.content s.nodes e.next d none := by
  obtain ⟨r, hc, hr, e, he, hcontent, hd⟩ := chain_append.mp h.chain
  rw [hr] at hc
  exact ⟨e, he, hcontent, hc, hd⟩

/-- The addresses of the two parts of a list and that of the cell between them differ. -/
theorem apart_cell (h : WellFormed nodes0 s (c ++ x :: d)) :
    x.1 ∉ addresses c ∧ x.1 ∉ addresses d ∧ ∀ b ∈ addresses c, b ∉ addresses d := by
  have hnodup := h.nodup
  rw [addresses_append, addresses_cons, List.nodup_append] at hnodup
  obtain ⟨-, hxd, hcd⟩ := hnodup
  refine ⟨fun hmem => hcd x.1 hmem x.1 List.mem_cons_self rfl, (List.nodup_cons.mp hxd).1, ?_⟩
  exact fun b hb hbd => hcd b hb b (List.mem_cons_of_mem _ hbd) rfl

/-- A cell at a free address is put between the two parts of a list. -/
theorem insert {v : α × Int} (h : WellFormed nodes0 s (c ++ d)) (ha : s.nodes a = none)
    (hchain : Chain ListElement.next ListElement.content s'.nodes s'.first (c ++ (a, v) :: d) none)
    (hlast : s'.last = back (c ++ (a, v) :: d))
    (hothers : ∀ b, b ∉ addresses (c ++ (a, v) :: d) → s'.nodes b = s.nodes b) :
    WellFormed nodes0 s' (c ++ (a, v) :: d) := by
  have hnot := h.not_mem ha
  have hmem (b : Nat) : b ∈ addresses (c ++ (a, v) :: d) ↔ b = a ∨ b ∈ addresses (c ++ d) := by
    rw [addresses_append, addresses_append, addresses_cons, List.mem_append, List.mem_append, List.mem_cons]
    tauto
  refine ⟨hchain, hlast, ?_, ?_, ?_⟩
  · have hnodup := h.nodup
    rw [addresses_append] at hnodup hnot
    rw [addresses_append, addresses_cons]
    exact List.nodup_middle.mpr (List.nodup_cons.mpr ⟨hnot, hnodup⟩)
  · intro b hb
    rcases (hmem b).mp hb with rfl | hb
    · rw [← h.others b hnot, ha]
    · exact h.apart b hb
  · intro b hb
    rw [hothers b hb]
    exact h.others b fun hbc => hb ((hmem b).mpr (Or.inr hbc))

/-- A cell is taken out of a list, and its element deleted. -/
theorem unlink (h : WellFormed nodes0 s (c ++ x :: d))
    (hchain : Chain ListElement.next ListElement.content s'.nodes s'.first (c ++ d) none)
    (hlast : s'.last = back (c ++ d)) (hx : s'.nodes x.1 = none)
    (hothers : ∀ b, b ∉ addresses (c ++ x :: d) → s'.nodes b = s.nodes b) :
    WellFormed nodes0 s' (c ++ d) := by
  have hmem (b : Nat) : b ∈ addresses (c ++ x :: d) ↔ b = x.1 ∨ b ∈ addresses (c ++ d) := by
    rw [addresses_append, addresses_append, addresses_cons, List.mem_append, List.mem_append, List.mem_cons]
    tauto
  refine ⟨hchain, hlast, ?_, fun b hb => h.apart b ((hmem b).mpr (Or.inr hb)), ?_⟩
  · have hnodup := h.nodup
    rw [addresses_append, addresses_cons] at hnodup
    rw [addresses_append]
    exact (List.nodup_cons.mp (List.nodup_middle.mp hnodup)).2
  · intro b hb
    by_cases hbx : b = x.1
    · rw [hbx, hx]
      exact (h.apart x.1 ((hmem x.1).mpr (Or.inl rfl))).symm
    · have hb' : b ∉ addresses (c ++ x :: d) := fun hbc => ((hmem b).mp hbc).elim hbx hb
      rw [hothers b hb']
      exact h.others b hb'

end WellFormed

/-! ## Changes of pointers -/

theorem setNext_eq {q : Option Nat} (he : s.nodes a = some e) :
    s.setNext (some a) q = some { s with nodes := Function.update s.nodes a (some { e with next := q }) } := by
  simp [setNext, he]

theorem delete_eq (he : s.nodes a = some e) :
    s.delete a = some { s with nodes := Function.update s.nodes a none } := by
  simp [delete, he]

/-- A new element in an empty list. -/
theorem WellFormed.only (h : WellFormed nodes0 s []) (ha : s.nodes a = none) (he : e.next = none) :
    WellFormed nodes0 { nodes := Function.update s.nodes a (some e), first := some a, last := some a }
      [(a, e.content)] := by
  refine h.insert (c := []) (d := []) ha ⟨rfl, e, Function.update_self .., rfl, he⟩ rfl fun b hb => ?_
  exact Function.update_of_ne (fun heq => hb (by simp [heq])) ..

/-- A new element in front of the first one. -/
theorem WellFormed.linkFront (h : WellFormed nodes0 s (x :: d)) (ha : s.nodes a = none) (he : e.next = s.first) :
    WellFormed nodes0 { s with nodes := Function.update s.nodes a (some e), first := some a }
      ((a, e.content) :: x :: d) := by
  refine h.insert (c := []) (d := x :: d) ha ⟨rfl, e, Function.update_self .., rfl, ?_⟩ ?_ fun b hb => ?_
  · rw [he]
    exact h.chain.update (h.not_mem ha) _
  · rw [h.last_eq]
    exact (back_append_cons [(a, e.content)] d x).symm
  · exact Function.update_of_ne (fun heq => hb (by simp [heq])) ..

/-- A new element behind the one of a cell. -/
theorem WellFormed.linkBehind (h : WellFormed nodes0 s (c ++ x :: d)) (ha : s.nodes a = none)
    (hx : s.nodes x.1 = some e') (he : e.next = front d) :
    WellFormed nodes0
      { nodes := Function.update (Function.update s.nodes a (some e)) x.1 (some { e' with next := some a })
        first := s.first
        last := if d = [] then some a else s.last }
      (c ++ x :: (a, e.content) :: d) := by
  obtain ⟨e1, he1, hcontent, hc, hd⟩ := h.cell
  rw [hx] at he1
  cases he1
  obtain ⟨hxc, hxd, -⟩ := h.apart_cell
  have hnot := h.not_mem ha
  rw [addresses_append, addresses_cons, List.mem_append, List.mem_cons, not_or, not_or] at hnot
  obtain ⟨hac, hax, had⟩ := hnot
  have hsplit : c ++ x :: d = (c ++ [x]) ++ d := List.append_cons c x d
  have hsplit' : c ++ x :: (a, e.content) :: d = (c ++ [x]) ++ (a, e.content) :: d := List.append_cons c x _
  rw [hsplit] at h
  rw [hsplit']
  refine h.insert ha (chain_append.mpr ⟨some a, ?_, rfl, e, ?_, rfl, ?_⟩) ?_ fun b hb => ?_
  · exact chain_append.mpr ⟨some x.1, (hc.update hac _).update hxc _, rfl, _, Function.update_self .., hcontent, rfl⟩
  · dsimp only
    rw [Function.update_of_ne hax, Function.update_self]
  · rw [he, ← hd.start]
    exact (hd.update had _).update hxd _
  · dsimp only
    cases d with
    | nil => exact (back_concat (a, e.content) (c ++ [x])).symm
    | cons z d =>
      rw [if_neg (List.cons_ne_nil z d), h.last_eq, back_append_cons]
      exact (back_append_cons (c ++ [x] ++ [(a, e.content)]) d z).symm.trans (by simp)
  · have hbx : b ≠ x.1 := by
      rintro rfl
      exact hb (by simp)
    have hba : b ≠ a := by
      rintro rfl
      exact hb (by simp)
    dsimp only
    rw [Function.update_of_ne hbx, Function.update_of_ne hba]

/-- The first element is deleted. -/
theorem WellFormed.unlinkFront (h : WellFormed nodes0 s (x :: d)) (hx : s.nodes x.1 = some e) :
    WellFormed nodes0
      { nodes := Function.update s.nodes x.1 none
        first := e.next
        last := if d = [] then none else s.last } d := by
  obtain ⟨e1, he1, -, -, hd⟩ := h.cell (c := [])
  rw [hx] at he1
  cases he1
  obtain ⟨-, hxd, -⟩ := h.apart_cell (c := [])
  refine h.unlink (c := []) (hd.update hxd none) ?_ (Function.update_self ..) fun b hb => ?_
  · dsimp only
    cases d with
    | nil => rfl
    | cons z d =>
      rw [if_neg (List.cons_ne_nil z d), h.last_eq]
      exact back_append_cons [x] d z
  · exact Function.update_of_ne (fun heq => hb (by simp [heq])) ..

/-- The element behind the one of a cell is deleted. -/
theorem WellFormed.unlinkBehind (h : WellFormed nodes0 s (c ++ y :: x :: d)) (hy : s.nodes y.1 = some e')
    (hx : s.nodes x.1 = some e) :
    WellFormed nodes0
      { nodes := Function.update (Function.update s.nodes y.1 (some { e' with next := e.next })) x.1 none
        first := s.first
        last := if d = [] then some y.1 else s.last } (c ++ y :: d) := by
  obtain ⟨e1, he1, hcontent, hc, hxchain⟩ := h.cell
  rw [hy] at he1
  cases he1
  obtain ⟨hyc, hyd, -⟩ := h.apart_cell
  have hsplit : c ++ y :: x :: d = (c ++ [y]) ++ x :: d := List.append_cons c y _
  have hsplit' : c ++ y :: d = (c ++ [y]) ++ d := List.append_cons c y d
  rw [hsplit] at h
  rw [hsplit']
  obtain ⟨e2, he2, -, -, hd⟩ := h.cell
  rw [hx] at he2
  cases he2
  obtain ⟨hxc, hxd, -⟩ := h.apart_cell
  rw [addresses_append, List.mem_append, not_or] at hxc
  rw [addresses_cons, List.mem_cons, not_or] at hyd
  refine h.unlink (chain_append.mpr ⟨e.next, ?_, (hd.update hyd.2 _).update hxd none⟩) ?_
    (Function.update_self ..) fun b hb => ?_
  · refine chain_append.mpr ⟨some y.1, (hc.update hyc _).update hxc.1 none, rfl, { e' with next := e.next }, ?_,
      hcontent, rfl⟩
    dsimp only
    rw [Function.update_of_ne hyd.1, Function.update_self]
  · dsimp only
    cases d with
    | nil => simp
    | cons z d =>
      rw [if_neg (List.cons_ne_nil z d), h.last_eq, back_append_cons, back_append_cons]
      exact back_append_cons [x] d z
  · have hbx : b ≠ x.1 := by
      rintro rfl
      exact hb (by simp)
    have hby : b ≠ y.1 := by
      rintro rfl
      exact hb (by simp)
    dsimp only
    rw [Function.update_of_ne hbx, Function.update_of_ne hby]

/-! ## Adding -/

theorem append_spec (h : WellFormed nodes0 s c) (ha : s.nodes a = none) (item : α) :
    ∃ s', s.append a item = some s' ∧ WellFormed nodes0 s' (c ++ [(a, item, 0)]) := by
  rcases List.eq_nil_or_concat c with rfl | ⟨c, x, rfl⟩
  · have hfirst : s.first = none := h.first_eq
    refine ⟨_, ?_, h.only (e := { next := none, key := 0, item := item }) ha rfl⟩
    simp [append, newElement, isEmpty, hfirst]
  · rw [List.concat_eq_append] at h ⊢
    have hfirst : s.first ≠ none := by
      rw [h.first_eq]
      exact fun hnone => by simp [front_eq_none_iff] at hnone
    have hlast : s.last = some x.1 := by rw [h.last_eq, back_concat]
    obtain ⟨e, he, -⟩ := h.cell
    have hax : x.1 ≠ a := by
      intro heq
      rw [heq, ha] at he
      cases he
    rw [List.append_assoc]
    refine ⟨_, ?_, h.linkBehind (e := { next := none, key := 0, item := item }) ha he rfl⟩
    simp [append, newElement, isEmpty, hfirst, hlast, setNext, Function.update_of_ne hax, he]

theorem prepend_spec (h : WellFormed nodes0 s c) (ha : s.nodes a = none) (item : α) :
    ∃ s', s.prepend a item = some s' ∧ WellFormed nodes0 s' ((a, item, 0) :: c) := by
  cases c with
  | nil =>
    have hfirst : s.first = none := h.first_eq
    refine ⟨_, ?_, h.only (e := { next := none, key := 0, item := item }) ha rfl⟩
    simp [prepend, newElement, isEmpty, hfirst]
  | cons x d =>
    have hfirst : s.first = some x.1 := h.first_eq
    refine ⟨_, ?_, h.linkFront (e := { next := s.first, key := 0, item := item }) ha rfl⟩
    simp [prepend, newElement, isEmpty, hfirst, setNext]

/-- The loop of `SortedInsert` passes the elements whose keys are not bigger. -/
theorem insertLoop_spec (item : α) (h : WellFormed nodes0 s (c ++ x :: d)) (ha : s.nodes a = none) (hn : d.length < n)
    (hkeys : ∀ z ∈ c ++ [x], z.2.2 ≤ sortKey) :
    ∃ before after s', c ++ x :: d = before ++ after ∧ (∀ z ∈ before, z.2.2 ≤ sortKey) ∧
      (∀ z ∈ after.head?, sortKey < z.2.2) ∧
      (s.newElement a item sortKey).insertLoop a sortKey n (some x.1) = some s' ∧
      WellFormed nodes0 s' (before ++ (a, item, sortKey) :: after) := by
  induction d generalizing c x n with
  | nil =>
    obtain ⟨n, rfl⟩ := Nat.exists_eq_succ_of_ne_zero (Nat.ne_zero_of_lt hn)
    obtain ⟨e, he, -, -, hnext⟩ := h.cell
    have hnext : e.next = none := hnext
    have hlast : s.last = some x.1 := by rw [h.last_eq, back_concat]
    have hax : x.1 ≠ a := by
      rintro rfl
      rw [ha] at he
      cases he
    refine ⟨c ++ [x], [], _, (List.append_nil _).symm, hkeys, by simp, ?_,
      (List.append_cons c x _) ▸ h.linkBehind (e := { next := none, key := sortKey, item := item }) ha he rfl⟩
    simp [insertLoop, newElement, element, setNext, Function.update_of_ne hax, he, hnext, hlast]
  | cons y d ih =>
    obtain ⟨n, rfl⟩ := Nat.exists_eq_succ_of_ne_zero (Nat.ne_zero_of_lt hn)
    obtain ⟨e, he, -, -, hnext, e', he', hcontent, -⟩ := h.cell
    have hax : x.1 ≠ a := by
      rintro rfl
      rw [ha] at he
      cases he
    have hay : y.1 ≠ a := by
      rintro rfl
      rw [ha] at he'
      cases he'
    have hkey : e'.key = y.2.2 := by rw [← hcontent]; rfl
    by_cases hlt : sortKey < y.2.2
    · refine ⟨c ++ [x], y :: d, _, List.append_cons c x _, hkeys, fun z hz => ?_, ?_,
        (List.append_cons c x _) ▸
          h.linkBehind (e := { next := some y.1, key := sortKey, item := item }) ha he rfl⟩
      · cases hz
        exact hlt
      · simp [insertLoop, newElement, element, setNext, Function.update_of_ne hax, Function.update_of_ne hay, he,
          he', hnext, hkey, hlt]
    · have hsplit : c ++ x :: y :: d = (c ++ [x]) ++ y :: d := List.append_cons c x _
      rw [hsplit] at h ⊢
      have hkeys' : ∀ z ∈ (c ++ [x]) ++ [y], z.2.2 ≤ sortKey := by
        intro z hz
        rcases List.mem_append.mp hz with hz | hz
        · exact hkeys z hz
        · rw [List.mem_singleton.mp hz]
          exact Int.not_lt.mp hlt
      obtain ⟨before, after, s', heq, hbefore, hafter, hloop, hwell⟩ := ih h (Nat.lt_of_succ_lt_succ hn) hkeys'
      refine ⟨before, after, s', heq, hbefore, hafter, ?_, hwell⟩
      rw [← hloop]
      simp [insertLoop, newElement, element, Function.update_of_ne hax, Function.update_of_ne hay, he, he', hnext,
        hkey, hlt]

/-- `SortedInsert` puts the item behind those whose keys are not bigger, and in front of the first bigger one. -/
theorem sortedInsert_spec (h : WellFormed nodes0 s c) (ha : s.nodes a = none) (hn : c.length ≤ n) (item : α)
    (sortKey : Int) :
    ∃ before after s', c = before ++ after ∧ (∀ z ∈ before, z.2.2 ≤ sortKey) ∧
      (∀ z ∈ after.head?, sortKey < z.2.2) ∧ s.sortedInsert n a item sortKey = some s' ∧
      WellFormed nodes0 s' (before ++ (a, item, sortKey) :: after) := by
  cases c with
  | nil =>
    have hfirst : s.first = none := h.first_eq
    refine ⟨[], [], _, rfl, by simp, by simp, ?_,
      h.only (e := { next := none, key := sortKey, item := item }) ha rfl⟩
    simp [LinkedList.sortedInsert, newElement, isEmpty, hfirst]
  | cons x d =>
    have hfirst : s.first = some x.1 := h.first_eq
    obtain ⟨e, he, hcontent, -⟩ := h.cell (c := [])
    have hkey : e.key = x.2.2 := by rw [← hcontent]; rfl
    have hax : x.1 ≠ a := by
      rintro rfl
      rw [ha] at he
      cases he
    by_cases hlt : sortKey < x.2.2
    · refine ⟨[], x :: d, _, rfl, by simp, fun z hz => ?_, ?_,
        h.linkFront (e := { next := s.first, key := sortKey, item := item }) ha rfl⟩
      · cases hz
        exact hlt
      · simp [LinkedList.sortedInsert, newElement, isEmpty, hfirst, element, setNext, Function.update_of_ne hax, he,
          hkey, hlt]
    · have hkeys : ∀ z ∈ ([] : List (Nat × α × Int)) ++ [x], z.2.2 ≤ sortKey := by
        intro z hz
        rw [List.mem_singleton.mp hz]
        exact Int.not_lt.mp hlt
      obtain ⟨before, after, s', heq, hbefore, hafter, hloop, hwell⟩ :=
        insertLoop_spec (c := []) item h ha hn hkeys
      refine ⟨before, after, s', heq, hbefore, hafter, ?_, hwell⟩
      rw [← hloop]
      simp [LinkedList.sortedInsert, newElement, isEmpty, hfirst, element, Function.update_of_ne hax, he, hkey, hlt]

theorem sortedInsert_refines (h : WellFormed nodes0 s c) (ha : s.nodes a = none) (hn : c.length ≤ n) (item : α)
    (sortKey : Int) :
    ∃ s' c', s.sortedInsert n a item sortKey = some s' ∧ WellFormed nodes0 s' c' ∧
      c'.map Prod.snd = Nachos.sortedInsert item sortKey (c.map Prod.snd) := by
  obtain ⟨before, after, s', heq, hbefore, hafter, hs, hwell⟩ := sortedInsert_spec h ha hn item sortKey
  refine ⟨s', _, hs, hwell, ?_⟩
  rw [heq, List.map_append, List.map_append, sortedInsert_append]
  · rfl
  · intro e he
    obtain ⟨z, hz, rfl⟩ := List.mem_map.mp he
    exact hbefore z hz
  · intro e he
    rw [List.head?_map] at he
    obtain ⟨z, hz, rfl⟩ := Option.map_eq_some_iff.mp he
    exact hafter z hz

/-! ## Removing -/

theorem sortedPop_nil [Inhabited α] (h : WellFormed nodes0 s []) : s.sortedPop = some ((default, none), s) := by
  have hfirst : s.first = none := h.first_eq
  simp [LinkedList.sortedPop, hfirst]

/-- `last` is the first element exactly in a list of one element. -/
theorem WellFormed.first_eq_last_iff (h : WellFormed nodes0 s (x :: d)) : s.first = s.last ↔ d = [] := by
  rw [h.first_eq, h.last_eq]
  constructor
  · intro heq
    rcases List.eq_nil_or_concat d with rfl | ⟨d, y, rfl⟩
    · rfl
    · rw [List.concat_eq_append] at h heq
      have heq : some x.1 = some y.1 := heq.trans (back_concat y (x :: d))
      exact absurd (by rw [Option.some.inj heq]; simp) (h.apart_cell (c := [])).2.1
  · rintro rfl
    rfl

theorem sortedPop_cons [Inhabited α] (h : WellFormed nodes0 s (x :: d)) :
    ∃ s', s.sortedPop = some ((x.2.1, some x.2.2), s') ∧ WellFormed nodes0 s' d := by
  have hfirst : s.first = some x.1 := h.first_eq
  obtain ⟨e, he, hcontent, -, hd⟩ := h.cell (c := [])
  have hwell := h.unlinkFront he
  refine ⟨_, ?_, hwell⟩
  have hone := h.first_eq_last_iff
  rw [← hcontent]
  by_cases hd0 : d = []
  · subst hd0
    have hnext : e.next = none := hd
    have hlast : s.last = some x.1 := by rw [← hfirst]; exact (hone.mpr rfl).symm
    simp [LinkedList.sortedPop, hfirst, hlast, he, delete, hnext, ListElement.content]
  · have hne : s.last ≠ some x.1 := by
      rw [← hfirst]
      exact fun heq => hd0 (hone.mp heq.symm)
    simp [LinkedList.sortedPop, hfirst, hne.symm, he, delete, hd0, ListElement.content]

/-- The loop of `Remove` passes the elements with other items. -/
theorem removeLoop_spec [DecidableEq α] (item : α) (h : WellFormed nodes0 s (c ++ d)) (hn : d.length ≤ n) :
    ∃ s' d', s.removeLoop item n (front d) (back c) = some s' ∧ WellFormed nodes0 s' (c ++ d') ∧
      d'.map Prod.snd = (d.map Prod.snd).eraseP fun e => e.1 = item := by
  induction d generalizing c n with
  | nil => exact ⟨s, [], by cases n <;> rfl, h, rfl⟩
  | cons x d ih =>
    obtain ⟨n, rfl⟩ := Nat.exists_eq_succ_of_ne_zero (Nat.ne_zero_of_lt hn)
    obtain ⟨e, he, hcontent, -, hd⟩ := h.cell
    have hitem : e.item = x.2.1 := by rw [← hcontent]; rfl
    have hnext : e.next = front d := hd.start
    by_cases heq : item = x.2.1
    · rw [List.map_cons, List.eraseP_cons_of_pos (by simp [heq])]
      rcases List.eq_nil_or_concat c with rfl | ⟨c, y, rfl⟩
      · -- the first element
        refine ⟨_, d, ?_, h.unlinkFront he, rfl⟩
        have hfirst : s.first = some x.1 := h.first_eq
        have hone := h.first_eq_last_iff
        by_cases hd0 : d = []
        · subst hd0
          have hlast : s.last = some x.1 := by rw [← hfirst]; exact (hone.mpr rfl).symm
          simp [removeLoop, he, hitem, heq, hfirst, hlast, delete]
        · have hne : s.last ≠ some x.1 := by
            rw [← hfirst]
            exact fun hlast => hd0 (hone.mp hlast.symm)
          simp [removeLoop, he, hitem, heq, hfirst, hne, delete, hd0]
      · -- an element behind another one
        rw [List.concat_eq_append] at h ⊢
        have hcell : c ++ [y] ++ x :: d = c ++ y :: x :: d := (List.append_cons c y _).symm
        have hxc := h.apart_cell.1
        rw [hcell] at h
        obtain ⟨e', he', -⟩ := h.cell
        refine ⟨_, d, ?_, (List.append_cons c y d) ▸ h.unlinkBehind he' he, rfl⟩
        have hyx : x.1 ≠ y.1 := by
          intro hxy
          exact hxc (by rw [hxy]; simp)
        have hfirst : s.first ≠ some x.1 := by
          rw [h.first_eq]
          intro hfront
          cases c with
          | nil => exact hyx (Option.some.inj hfront).symm
          | cons z c => exact hxc (by rw [← Option.some.inj hfront]; simp)
        rw [back_concat, front_cons]
        by_cases hd0 : d = []
        · subst hd0
          have hlast : s.last = some x.1 := by rw [h.last_eq, back_append_cons]; rfl
          simp [removeLoop, he, he', hitem, heq, hfirst, hlast, delete, setNext, Function.update_of_ne hyx]
        · have hne : s.last ≠ some x.1 := by
            obtain ⟨d1, z, rfl⟩ := (List.eq_nil_or_concat d).resolve_left hd0
            rw [List.concat_eq_append] at h
            have hxd := (((List.append_cons c y _) ▸ h).apart_cell).2.1
            rw [h.last_eq, back_append_cons]
            intro hlast
            have hz : some z.1 = some x.1 := (back_concat z (y :: x :: d1)).symm.trans hlast
            exact hxd (by rw [← Option.some.inj hz]; simp)
          simp [removeLoop, he, he', hitem, heq, hfirst, hne, delete, setNext, Function.update_of_ne hyx, hd0]
    · have hsplit : c ++ x :: d = (c ++ [x]) ++ d := List.append_cons c x d
      rw [hsplit] at h
      obtain ⟨s', d', hloop, hwell, hmap⟩ := ih h (Nat.le_of_succ_le_succ hn)
      refine ⟨s', x :: d', ?_, (List.append_cons c x d').symm ▸ hwell, ?_⟩
      · rw [← hloop, back_concat, ← hnext]
        simp [removeLoop, he, hitem, heq]
      · rw [List.map_cons, List.map_cons, List.eraseP_cons_of_neg (by simpa using fun h => heq h.symm), hmap]

/-- `Remove` erases the first element with the item. -/
theorem remove_spec [DecidableEq α] (h : WellFormed nodes0 s c) (hn : c.length ≤ n) (item : α) :
    ∃ s' c', s.remove n item = some s' ∧ WellFormed nodes0 s' c' ∧
      c'.map Prod.snd = (c.map Prod.snd).eraseP fun e => e.1 = item := by
  obtain ⟨s', c', hloop, hwell, hmap⟩ := removeLoop_spec (c := []) item h hn
  refine ⟨s', c', ?_, hwell, hmap⟩
  rw [remove, h.first_eq]
  exact hloop

/-! ## Runs -/

/-- The items of the list with their keys, in the order of its elements. -/
def Represents (nodes0 : Nat → Option (ListElement α)) (s : LinkedList α) (l : List (α × Int)) : Prop :=
  ∃ c, WellFormed nodes0 s c ∧ c.map Prod.snd = l

/-- A call does to the elements what it does to the list of their items. -/
theorem step_refines [DecidableEq α] [Inhabited α] (h : WellFormed nodes0 s c) (hn : c.length ≤ n) {call : Call α}
    (hnew : s.NewIsFree call) :
    ∃ s' c', s.step n call = some ((listStep (c.map Prod.snd) call).1, s') ∧ WellFormed nodes0 s' c' ∧
      c'.map Prod.snd = (listStep (c.map Prod.snd) call).2 := by
  cases call with
  | append a item =>
    obtain ⟨s', hs, hwell⟩ := append_spec h (Option.isNone_iff_eq_none.mp hnew) item
    exact ⟨s', _, by rw [step, hs]; rfl, hwell, by simp [listStep]⟩
  | prepend a item =>
    obtain ⟨s', hs, hwell⟩ := prepend_spec h (Option.isNone_iff_eq_none.mp hnew) item
    exact ⟨s', _, by rw [step, hs]; rfl, hwell, rfl⟩
  | sortedInsert a item sortKey =>
    obtain ⟨s', c', hs, hwell, hmap⟩ :=
      sortedInsert_refines h (Option.isNone_iff_eq_none.mp hnew) hn item sortKey
    exact ⟨s', c', by rw [step, hs]; rfl, hwell, hmap⟩
  | pop =>
    cases c with
    | nil => exact ⟨s, [], by rw [step, pop, sortedPop_nil h]; rfl, h, rfl⟩
    | cons x d =>
      obtain ⟨s', hs, hwell⟩ := sortedPop_cons h
      exact ⟨s', d, by rw [step, pop, hs]; rfl, hwell, rfl⟩
  | sortedPop =>
    cases c with
    | nil => exact ⟨s, [], by rw [step, sortedPop_nil h]; rfl, h, rfl⟩
    | cons x d =>
      obtain ⟨s', hs, hwell⟩ := sortedPop_cons h
      exact ⟨s', d, by rw [step, hs]; rfl, hwell, rfl⟩
  | remove item =>
    obtain ⟨s', c', hs, hwell, hmap⟩ := remove_spec h hn item
    exact ⟨s', c', by rw [step, hs]; rfl, hwell, hmap⟩

/-- A call adds at most one item. -/
theorem length_listStep_le [DecidableEq α] [Inhabited α] (l : List (α × Int)) (call : Call α) :
    (listStep l call).2.length ≤ l.length + 1 := by
  cases call with
  | append a item => simp [listStep]
  | prepend a item => simp [listStep]
  | sortedInsert a item sortKey => simp [listStep, (sortedInsert_perm item sortKey l).length_eq]
  | pop => cases l <;> simp [listStep, Nachos.sortedPop]; omega
  | sortedPop => cases l <;> simp [listStep, Nachos.sortedPop]; omega
  | remove item => exact Nat.le_succ_of_le (List.length_eraseP_le ..)

/-- The calls of a run give the answers that they give on the list of items. -/
theorem transcript_refines [DecidableEq α] [Inhabited α] {calls : List (Call α)} (h : WellFormed nodes0 s c)
    (hn : c.length + calls.length ≤ n)
    (hnew : AllSteps (fun s call => (step n s call).map Prod.snd) NewIsFree s calls) :
    ∃ answers s' c', transcript (step n) s calls = some (answers, s') ∧
      transcript (fun l call => some (listStep l call)) (c.map Prod.snd) calls = some (answers, c'.map Prod.snd) ∧
      WellFormed nodes0 s' c' := by
  induction calls generalizing s c with
  | nil => exact ⟨[], s, c, rfl, rfl, h⟩
  | cons call calls ih =>
    rw [List.length_cons] at hn
    have hc : c.length ≤ n := by omega
    obtain ⟨s1, c1, hs1, h1, hmap⟩ := step_refines h hc hnew.1
    have hlen : c1.length ≤ c.length + 1 := by
      have hle := length_listStep_le (c.map Prod.snd) call
      rwa [← hmap, List.length_map, List.length_map] at hle
    obtain ⟨answers, s', c', hs', hl', hwell⟩ := ih h1 (by omega) (hnew.2 s1 (congrArg (Option.map Prod.snd) hs1))
    refine ⟨(listStep (c.map Prod.snd) call).1 :: answers, s', c', ?_, ?_, hwell⟩
    · rw [transcript, hs1, Option.bind_some, hs']
      rfl
    · rw [transcript, Option.bind_some, ← hmap, hl']
      rfl

/-- The second list is the first one without its first element that holds the item, if there is one. -/
def FirstRemoved (item : α) (l l' : List (α × Int)) : Prop :=
  (∃ before key after, l = before ++ (item, key) :: after ∧ (∀ e ∈ before, e.1 ≠ item) ∧ l' = before ++ after) ∨
    (∀ e ∈ l, e.1 ≠ item) ∧ l' = l

/-- The second list is the first one with the item behind all elements whose keys are not bigger and in front of all
others. -/
def PlacedBehind (item : α) (sortKey : Int) (l l' : List (α × Int)) : Prop :=
  ∃ before after, l = before ++ after ∧ l' = before ++ (item, sortKey) :: after ∧ (∀ e ∈ before, e.2 ≤ sortKey) ∧
    ∀ e ∈ after, sortKey < e.2

theorem firstRemoved_eraseP [DecidableEq α] (item : α) (l : List (α × Int)) :
    FirstRemoved item l (l.eraseP fun e => e.1 = item) := by
  by_cases hmem : ∃ e ∈ l, e.1 = item
  · obtain ⟨e, he, hitem⟩ := hmem
    obtain ⟨b, before, after, hbefore, hb, hl, herase⟩ :=
      List.exists_of_eraseP (p := fun e : α × Int => decide (e.1 = item)) he (by simpa using hitem)
    obtain ⟨b, key⟩ := b
    obtain rfl : b = item := by simpa using hb
    exact Or.inl ⟨before, key, after, hl, fun z hz => by simpa using hbefore z hz, herase⟩
  · have hnone : ∀ e ∈ l, e.1 ≠ item := fun e he hitem => hmem ⟨e, he, hitem⟩
    exact Or.inr ⟨hnone, List.eraseP_of_forall_not fun e he => by simpa using hnone e he⟩

theorem placedBehind_sortedInsert (item : α) (sortKey : Int) {l : List (α × Int)} (hsorted : KeySorted l) :
    PlacedBehind item sortKey l (Nachos.sortedInsert item sortKey l) := by
  induction l with
  | nil => exact ⟨[], [], rfl, rfl, by simp, by simp⟩
  | cons e l ih =>
    obtain ⟨he, hl⟩ := List.pairwise_cons.mp hsorted
    rw [Nachos.sortedInsert]
    by_cases hlt : sortKey < e.2
    · rw [if_pos hlt]
      refine ⟨[], e :: l, rfl, rfl, by simp, fun b hb => ?_⟩
      rcases List.mem_cons.mp hb with rfl | hb
      · exact hlt
      · exact Int.lt_of_lt_of_le hlt (he b hb)
    · rw [if_neg hlt]
      obtain ⟨before, after, heq, hinsert, hbefore, hafter⟩ := ih hl
      refine ⟨e :: before, after, by rw [heq]; rfl, by rw [hinsert]; rfl, fun b hb => ?_, hafter⟩
      rcases List.mem_cons.mp hb with rfl | hb
      · exact Int.not_lt.mp hlt
      · exact hbefore b hb

/-- Whatever calls are made on a list, it stands for the list of items that the same calls make, and the answers
are the same. `Remove` then erases the first element with the item and no other; `SortedInsert` into a list that is
sorted leaves it sorted, with the item behind all elements of an equal key. -/
theorem list_refines [DecidableEq α] [Inhabited α] (nodes0 : Nat → Option (ListElement α)) {calls : List (Call α)}
    (hn : calls.length ≤ n)
    (hnew : AllSteps (fun s call => (step n s call).map Prod.snd) NewIsFree (new nodes0) calls) :
    ∃ answers s l, transcript (step n) (new nodes0) calls = some (answers, s) ∧
      transcript (fun l call => some (listStep l call)) [] calls = some (answers, l) ∧
      s.Represents nodes0 l ∧ (s.first = none ↔ l = []) ∧ (s.last = none ↔ l = []) ∧
      (∀ item m, l.length ≤ m →
        ∃ s' l', s.remove m item = some s' ∧ s'.Represents nodes0 l' ∧ FirstRemoved item l l') ∧
      (∀ a item sortKey m, s.nodes a = none → l.length ≤ m → KeySorted l →
        ∃ s' l', s.sortedInsert m a item sortKey = some s' ∧ s'.Represents nodes0 l' ∧ KeySorted l' ∧
          PlacedBehind item sortKey l l') := by
  have hlen : ([] : List (Nat × α × Int)).length + calls.length ≤ n := by simpa using hn
  obtain ⟨answers, s, c, hs, hl, hwell⟩ := transcript_refines (wellFormed_new nodes0) hlen hnew
  have hlength : (c.map Prod.snd).length = c.length := List.length_map ..
  refine ⟨answers, s, c.map Prod.snd, hs, hl, ⟨c, hwell, rfl⟩, ?_, ?_, ?_, ?_⟩
  · rw [hwell.first_eq, front_eq_none_iff, List.map_eq_nil_iff]
  · rw [hwell.last_eq, back_eq_none_iff, List.map_eq_nil_iff]
  · intro item m hm
    obtain ⟨s', c', hremove, hwell', hmap⟩ := remove_spec hwell (hlength ▸ hm) item
    exact ⟨s', _, hremove, ⟨c', hwell', hmap⟩, firstRemoved_eraseP item _⟩
  · intro a item sortKey m ha hm hsorted
    obtain ⟨s', c', hinsert, hwell', hmap⟩ := sortedInsert_refines hwell ha (hlength ▸ hm) item sortKey
    exact ⟨s', _, hinsert, ⟨c', hwell', hmap⟩, hsorted.sortedInsert item sortKey,
      placedBehind_sortedInsert item sortKey hsorted⟩

/-- Five calls, the second of which finds its place behind the element of the first. -/
def fiveCalls : List (Call Nat) := [.append 1 5, .sortedInsert 2 7 3, .prepend 3 5, .remove 5, .sortedPop]

theorem list_refines_fiveCalls :
    ∃ answers s l, transcript (step 5) (new fun _ => none) fiveCalls = some (answers, s) ∧
      transcript (fun l call => some (listStep l call)) [] fiveCalls = some (answers, l) ∧
      s.Represents (fun _ => none) l := by
  have hlen : fiveCalls.length ≤ 5 := by decide
  obtain ⟨answers, s, l, hs, hl, hrep, -⟩ := list_refines (fun _ => none) hlen (by decide)
  exact ⟨answers, s, l, hs, hl, hrep⟩

end LinkedList

end Nachos
