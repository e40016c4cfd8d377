import Mathlib.Data.Option.Basic
import Nachos.Lib.Proofs.BitmapProofs
import Nachos.Userprog.AddressSpace

/-!
# Proofs: page tables and coremap, read and written

What `getEntry` answers after each update of the state, and who owns a frame after each operation of
the coremap.
-/

namespace Nachos

open Foundations

namespace Coremap

/-- The owner of a frame and the virtual page it holds, if the frame is in use. -/
def owner (c : Coremap) (f : Nat) : Option (SpaceId × Nat) :=
  if f < c.size ∧ c.framesMap.test f = true then (c.addrSpaces f).map fun a => (a, c.vpns f) else none

/-- The coremap describes the frames of the machine, and a frame in use has an owner. -/
structure Ok (c : Coremap) : Prop where
  size_eq : c.size = numPhysPages
  numBits_eq : c.framesMap.numBits = numPhysPages
  owned : ∀ f < numPhysPages, c.framesMap.test f = true → (c.addrSpaces f).isSome

theorem Ok.owner_eq_some {c : Coremap} (hc : c.Ok) {f : Nat} {a : SpaceId} {v : Nat} :
    c.owner f = some (a, v) ↔
      f < numPhysPages ∧ c.framesMap.test f = true ∧ c.addrSpaces f = some a ∧ c.vpns f = v := by
  unfold owner
  rw [hc.size_eq]
  split
  · rename_i h
    simp only [Option.map_eq_some_iff, Prod.mk.injEq]
    constructor
    · rintro ⟨x, hx, rfl, rfl⟩
      exact ⟨h.1, h.2, hx, rfl⟩
    · rintro ⟨-, -, hx, hv⟩
      exact ⟨a, hx, rfl, hv⟩
  · rename_i h
    simp only [reduceCtorEq, false_iff]
    rintro ⟨h1, h2, -⟩
    exact h ⟨h1, h2⟩

/-- A frame in use has an owner. -/
theorem Ok.exists_owner {c : Coremap} (hc : c.Ok) {f : Nat} (hf : f < numPhysPages)
    (ht : c.framesMap.test f = true) : ∃ a v, c.owner f = some (a, v) := by
  obtain ⟨a, ha⟩ := Option.isSome_iff_exists.mp (hc.owned f hf ht)
  exact ⟨a, c.vpns f, hc.owner_eq_some.mpr ⟨hf, ht, ha, rfl⟩⟩

/-- The accessors answer for an owned frame. -/
theorem Ok.get_of_owner {c : Coremap} (hc : c.Ok) {f : Nat} {a : SpaceId} {v : Nat}
    (ho : c.owner f = some (a, v)) : c.getVpn f = some v ∧ c.getAddressSpace f = some (some a) := by
  obtain ⟨hf, ht, ha, hv⟩ := hc.owner_eq_some.mp ho
  have htest : c.test f = some true := by
    simp [test, hc.size_eq, hf, ht, ha]
  simp [getVpn, getAddressSpace, htest, ha, hv]

/-- Giving a frame away changes the owner of that frame only. -/
theorem owner_give {c : Coremap} (hc : c.Ok) {f : Nat} (hf : f < numPhysPages) (a : SpaceId)
    (v : Nat) (g : Nat) :
    ({ c with framesMap := c.framesMap.mark f }.setOwner f a v).owner g =
      if g = f then some (a, v) else c.owner g := by
  have hfb : f < c.framesMap.numBits := by rw [hc.numBits_eq]; exact hf
  by_cases hg : g = f
  · subst hg
    simp [owner, setOwner, hc.size_eq, hf, Bitmap.test_mark hfb]
  · have hfg : f ≠ g := fun e => hg e.symm
    simp [owner, setOwner, hg, hfg, Bitmap.test_mark hfb]

theorem ok_give {c : Coremap} (hc : c.Ok) {f : Nat} (hf : f < numPhysPages) (a : SpaceId) (v : Nat) :
    ({ c with framesMap := c.framesMap.mark f }.setOwner f a v).Ok := by
  have hfb : f < c.framesMap.numBits := by rw [hc.numBits_eq]; exact hf
  refine ⟨hc.size_eq, hc.numBits_eq, fun g hg ht => ?_⟩
  by_cases hgf : g = f
  · simp [setOwner, hgf]
  · have hfg : f ≠ g := fun e => hgf e.symm
    simp only [setOwner, Bitmap.test_mark hfb, hfg, decide_false, Bool.false_or] at ht
    simpa [setOwner, hgf] using hc.owned g hg ht

theorem mark_eq {c : Coremap} (hc : c.Ok) {f : Nat} (hf : f < numPhysPages) (a : SpaceId) (v : Nat) :
    c.mark f a v = some ({ c with framesMap := c.framesMap.mark f }.setOwner f a v) := by
  simp [mark, hc.size_eq, hf]

/-- `Find` gives a free frame away, or every frame is owned. -/
theorem find_cases {c : Coremap} (hc : c.Ok) (a : SpaceId) (v : Nat) :
    (∃ f, f < numPhysPages ∧ c.owner f = none ∧
      c.find a v = (some f, { c with framesMap := c.framesMap.mark f }.setOwner f a v)) ∨
    ((c.find a v).1 = none ∧ ∀ f < numPhysPages, ∃ b w, c.owner f = some (b, w)) := by
  unfold find
  cases hfind : c.framesMap.find with
  | mk o b' =>
    cases o with
    | some f =>
      obtain ⟨h1, h2, -, rfl⟩ := Bitmap.find_some hfind
      rw [hc.numBits_eq] at h1
      exact Or.inl ⟨f, h1, by simp [owner, h2], rfl⟩
    | none =>
      obtain ⟨rfl, h⟩ := Bitmap.find_none hfind
      rw [hc.numBits_eq] at h
      exact Or.inr ⟨rfl, fun f hf => hc.exists_owner hf (h f hf)⟩

/-- Freeing a frame changes the owner of that frame only. -/
theorem owner_clear {c c' : Coremap} {f : Nat} (h : c.clear f = some c') (g : Nat) :
    c'.owner g = if g = f then none else c.owner g := by
  simp only [clear, Option.bind_eq_bind, Option.bind_eq_some_iff, Option.guard_eq_some',
    Option.pure_def, Option.some.injEq] at h
  obtain ⟨_, -, rfl⟩ := h
  by_cases hg : g = f
  · subst hg
    simp [owner]
  · have hfg : f ≠ g := fun e => hg e.symm
    simp [owner, hg, hfg, Bitmap.test_clear]

theorem ok_clear {c c' : Coremap} {f : Nat} (hc : c.Ok) (h : c.clear f = some c') : c'.Ok := by
  simp only [clear, Option.bind_eq_bind, Option.bind_eq_some_iff, Option.guard_eq_some',
    Option.pure_def, Option.some.injEq] at h
  obtain ⟨_, -, rfl⟩ := h
  refine ⟨hc.size_eq, hc.numBits_eq, fun g hg ht => ?_⟩
  simp only [Bitmap.test_clear, Bool.and_eq_true, Bool.not_eq_eq_eq_not, Bool.not_true,
    decide_eq_false_iff_not] at ht
  have hgf : g ≠ f := fun e => ht.1 e.symm
  simpa [hgf] using hc.owned g hg ht.2

end Coremap

namespace Vm

variable {vm vm' : Vm} {A B : SpaceId} {v w : Nat} {e : TranslationEntry}

@[simp]
theorem spaces_setSpace (vm : Vm) (A B : SpaceId) (sp : AddressSpace) :
    (vm.setSpace A sp).spaces B = if B = A then some sp else vm.spaces B := by
  simp [setSpace, Function.update_apply]

@[simp]
theorem mmu_setSpace (vm : Vm) (A : SpaceId) (sp : AddressSpace) :
    (vm.setSpace A sp).mmu = vm.mmu := rfl

@[simp]
theorem paginaMapa_setSpace (vm : Vm) (A : SpaceId) (sp : AddressSpace) :
    (vm.setSpace A sp).paginaMapa = vm.paginaMapa := rfl

@[simp]
theorem current_setSpace (vm : Vm) (A : SpaceId) (sp : AddressSpace) :
    (vm.setSpace A sp).current = vm.current := rfl

@[simp]
theorem index_setSpace (vm : Vm) (A : SpaceId) (sp : AddressSpace) :
    (vm.setSpace A sp).index = vm.index := rfl

theorem setPageTable_eq {sp : AddressSpace} (hsp : vm.spaces A = some sp)
    (pt : List TranslationEntry) :
    vm.setPageTable A pt = some (vm.setSpace A { sp with pageTable := pt }) := by
  simp [setPageTable, hsp]

/-- Writing an entry inside the page table replaces one element of it. -/
theorem setEntry_eq {sp : AddressSpace} (hsp : vm.spaces A = some sp) (hv : v < sp.pageTable.length)
    (e : TranslationEntry) :
    vm.setEntry A v e = some (vm.setSpace A { sp with pageTable := sp.pageTable.set v e }) := by
  simp [setEntry, setPageTable, hsp, hv]

theorem getEntry_eq {sp : AddressSpace} (hsp : vm.spaces A = some sp) (v : Nat) :
    vm.getEntry A v = sp.pageTable[v]? := by
  simp [getEntry, hsp]

/-- An entry that exists is an element of the page table of an address space that exists. -/
theorem getEntry_eq_some :
    vm.getEntry A v = some e ↔ ∃ sp, vm.spaces A = some sp ∧ sp.pageTable[v]? = some e := by
  simp [getEntry, Option.bind_eq_some_iff]

/-- What an update of one address space does to the entries. -/
theorem getEntry_setSpace (vm : Vm) (A B : SpaceId) (sp : AddressSpace) (w : Nat) :
    (vm.setSpace A sp).getEntry B w = if B = A then sp.pageTable[w]? else vm.getEntry B w := by
  unfold getEntry
  rw [spaces_setSpace]
  split <;> simp

/-- What writing one entry does to the entries. -/
theorem getEntry_set {sp : AddressSpace} (hsp : vm.spaces A = some sp) (hv : v < sp.pageTable.length)
    (sp' : AddressSpace) (hsp' : sp'.pageTable = sp.pageTable.set v e) :
    (vm.setSpace A sp').getEntry B w = if B = A ∧ w = v then some e else vm.getEntry B w := by
  rw [getEntry_setSpace, hsp']
  by_cases hB : B = A
  · subst hB
    by_cases hw : w = v
    · subst hw
      simp [hv]
    · have hvw : v ≠ w := fun h => hw h.symm
      simp [hw, getEntry_eq hsp, List.getElem?_set_ne hvw]
  · simp [hB]

end Vm

end Nachos
