import Mathlib.Data.List.Nodup
import Nachos.Lib.Proofs.BitmapProofs
import Nachos.Userprog.EagerLoad
import Nachos.Userprog.Proofs.PagingSimProofs
import Nachos.Userprog.Proofs.ShapeProofs

/-!
# Proofs: demand loading and eager loading

Both loaders put the same bytes into a page: code, then initialised data, then zeros. `LoadPage` computes
the part of each segment in the page; the eager loader finds the page of each byte.
-/

namespace Nachos

open Foundations Vm

/-! ## The eager loader -/

section Eager

variable {frames : List Nat} {mem mem' : ByteMemory} {exe : Executable}

/-- The frames are different ones. -/
theorem findFrames_spec (n : Nat) : ∀ {m m' : Bitmap} {frames : List Nat},
    findFrames n m = some (frames, m') → frames.length = n ∧ frames.Nodup ∧
      ∀ f ∈ frames, m.test f = false := by
  induction n with
  | zero =>
    intro m m' frames h
    cases h
    exact ⟨rfl, List.nodup_nil, fun _ hf => absurd hf List.not_mem_nil⟩
  | succ n ih =>
    intro m m' frames h
    simp only [findFrames, Option.bind_eq_bind, Option.bind_eq_some_iff] at h
    obtain ⟨f, hf, ⟨rest, m2⟩, hrest, hret⟩ := h
    cases hret
    obtain ⟨hlt, hclear, -, hmark⟩ := Bitmap.find_some (show m.find = (some f, m.find.2) from Prod.ext hf rfl)
    rw [hmark] at hrest
    obtain ⟨hlen, hnodup, hfree⟩ := ih hrest
    have hne : ∀ g ∈ rest, f ≠ g ∧ m.test g = false := by
      intro g hg
      have := hfree g hg
      rw [Bitmap.test_mark hlt, Bool.or_eq_false_iff] at this
      exact ⟨of_decide_eq_false this.1, this.2⟩
    refine ⟨by rw [List.length_cons, hlen], List.nodup_cons.mpr ⟨fun hmem => (hne f hmem).1 rfl, hnodup⟩, ?_⟩
    intro g hg
    rcases List.mem_cons.mp hg with rfl | hg
    · exact hclear
    · exact (hne g hg).2

/-- With enough free frames every page gets one. -/
theorem findFrames_isSome (n : Nat) : ∀ {m : Bitmap}, n ≤ m.countClear → (findFrames n m).isSome := by
  induction n with
  | zero => exact fun _ => rfl
  | succ n ih =>
    intro m h
    obtain ⟨k, hk, hkc⟩ := Bitmap.exists_clear_of_countClear_pos (Nat.lt_of_lt_of_le (Nat.succ_pos n) h)
    obtain ⟨f, hf⟩ := Bitmap.find_of_clear hk hkc
    obtain ⟨hlt, hclear, -, -⟩ := Bitmap.find_some hf
    have hcount := Bitmap.countClear_mark hlt hclear
    have hrest : (findFrames n (m.mark f)).isSome := ih (by omega)
    obtain ⟨r, hr⟩ := Option.isSome_iff_exists.mp hrest
    simp [findFrames, hf, hr]

/-- The physical address of a virtual one. -/
def physical (frames : List Nat) (a : Nat) : Nat := frames.getD (a / pageSize) 0 * pageSize + a % pageSize

theorem physical_inj (hnodup : frames.Nodup) {a b : Nat} (ha : a < frames.length * pageSize)
    (hb : b < frames.length * pageSize) (h : physical frames a = physical frames b) : a = b := by
  have hpos : 0 < pageSize := by decide
  have hda : a / pageSize < frames.length := Nat.div_lt_of_lt_mul (by rw [Nat.mul_comm]; exact ha)
  have hdb : b / pageSize < frames.length := Nat.div_lt_of_lt_mul (by rw [Nat.mul_comm]; exact hb)
  have hma := Nat.mod_lt a hpos
  have hmb := Nat.mod_lt b hpos
  unfold physical at h
  have hframe : frames.getD (a / pageSize) 0 = frames.getD (b / pageSize) 0 := by
    have := congrArg (· / pageSize) h
    simpa [Vm.page_div, hma, hmb] using this
  have hoff : a % pageSize = b % pageSize := by
    have := congrArg (· % pageSize) h
    simpa [Vm.page_mod, hma, hmb] using this
  have hpage : a / pageSize = b / pageSize := by
    rw [List.getD_eq_getElem?_getD, List.getD_eq_getElem?_getD, List.getElem?_eq_getElem hda,
      List.getElem?_eq_getElem hdb] at hframe
    exact (List.Nodup.getElem_inj_iff hnodup).mp hframe
  rw [← Nat.div_add_mod a pageSize, ← Nat.div_add_mod b pageSize, hpage, hoff]

theorem getD_replicate_zero (n i : Nat) : (List.replicate n (0 : UInt8)).getD i 0 = 0 := by
  rw [List.getD_eq_getElem?_getD, List.getElem?_replicate]
  split <;> rfl

theorem clearPages_cons (f : Nat) (frames : List Nat) (mem : ByteMemory) :
    clearPages (f :: frames) mem =
      clearPages frames (blit mem (f * pageSize) (List.replicate pageSize 0)) := rfl

/-- A byte that is zero stays zero when frames are cleared. -/
theorem clearPages_of_zero {x : Nat} : ∀ {mem : ByteMemory}, mem x = 0 → clearPages frames mem x = 0 := by
  induction frames with
  | nil => exact fun h => h
  | cons f frames ih =>
    intro mem h
    rw [clearPages_cons]
    refine ih ?_
    by_cases hx : f * pageSize ≤ x ∧ x < f * pageSize + pageSize
    · obtain ⟨i, rfl⟩ := Nat.exists_eq_add_of_le hx.1
      rw [blit_inside (by rw [List.length_replicate]; omega), getD_replicate_zero]
    · rw [blit_outside (by rw [List.length_replicate]; omega)]
      exact h

theorem clearPages_inside {f i : Nat} (hf : f ∈ frames) (hi : i < pageSize) :
    ∀ {mem : ByteMemory}, clearPages frames mem (f * pageSize + i) = 0 := by
  induction frames with
  | nil => exact absurd hf List.not_mem_nil
  | cons g frames ih =>
    intro mem
    rcases List.mem_cons.mp hf with rfl | hf
    · have hzero : blit mem (f * pageSize) (List.replicate pageSize 0) (f * pageSize + i) = 0 := by
        rw [blit_inside (by simpa using hi), getD_replicate_zero]
      rw [clearPages_cons]
      exact clearPages_of_zero hzero
    · exact ih hf

/-- The loop puts the bytes of the segment at their addresses and changes nothing else. -/
theorem copySegment_spec (readBlock : UInt32 → UInt32 → Option (List UInt8)) (virtualAddr : UInt32)
    (size : Nat) (byte : Nat → UInt8) (hnodup : frames.Nodup)
    (hread : ∀ i : UInt32, i.toNat < size → readBlock 1 i = some [byte i.toNat])
    (hfits : virtualAddr.toNat + size ≤ frames.length * pageSize)
    (hlt : virtualAddr.toNat + size < 2 ^ 32) (n : Nat) : ∀ (i : UInt32) (mem : ByteMemory), i.toNat + n = size →
    ∃ mem', copySegment frames readBlock virtualAddr n i mem = some mem' ∧
      ∀ a, a < frames.length * pageSize → mem' (physical frames a) =
        if virtualAddr.toNat + i.toNat ≤ a ∧ a < virtualAddr.toNat + size then byte (a - virtualAddr.toNat)
        else mem (physical frames a) := by
  induction n with
  | zero =>
    intro i mem hi
    refine ⟨mem, rfl, fun a _ => ?_⟩
    rw [if_neg (by omega)]
  | succ n ih =>
    intro i mem hi
    have hone : (1 : UInt32).toNat = 1 := rfl
    have hsucc : (i + 1).toNat = i.toNat + 1 := by
      rw [UInt32.toNat_add, hone]
      omega
    have haddr : (virtualAddr + i).toNat = virtualAddr.toNat + i.toNat := by
      rw [UInt32.toNat_add]
      omega
    have hpage : ((virtualAddr + i) / 128).toNat = (virtualAddr.toNat + i.toNat) / pageSize := by
      rw [UInt32.toNat_div, haddr]
      rfl
    have hoff : ((virtualAddr + i) % 128).toNat = (virtualAddr.toNat + i.toNat) % pageSize := by
      rw [UInt32.toNat_mod, haddr]
      rfl
    have hin : virtualAddr.toNat + i.toNat < frames.length * pageSize := by omega
    have hdiv : (virtualAddr.toNat + i.toNat) / pageSize < frames.length :=
      Nat.div_lt_of_lt_mul (by rw [Nat.mul_comm]; exact hin)
    have hframe : frames[((virtualAddr + i) / 128).toNat]? =
        some (frames.getD ((virtualAddr.toNat + i.toNat) / pageSize) 0) := by
      rw [hpage, List.getD_eq_getElem?_getD, List.getElem?_eq_getElem hdiv]
      rfl
    obtain ⟨mem', hrun, hspec⟩ := ih (i + 1)
      (blit mem (physical frames (virtualAddr.toNat + i.toNat)) [byte i.toNat]) (by rw [hsucc]; omega)
    refine ⟨mem', ?_, fun a ha => ?_⟩
    · rw [copySegment, hframe, hread i (by omega), hoff]
      exact hrun
    · rw [hspec a ha, hsucc]
      by_cases hlow : virtualAddr.toNat + (i.toNat + 1) ≤ a ∧ a < virtualAddr.toNat + size
      · rw [if_pos hlow, if_pos (by omega)]
      · rw [if_neg hlow]
        by_cases heq : a = virtualAddr.toNat + i.toNat
        · -- the byte that this iteration has copied
          rw [if_pos (by omega), heq]
          have hbyte : blit mem (physical frames (virtualAddr.toNat + i.toNat)) [byte i.toNat]
              (physical frames (virtualAddr.toNat + i.toNat) + 0) = byte i.toNat :=
            blit_inside Nat.zero_lt_one
          rw [Nat.add_zero] at hbyte
          rw [hbyte, Nat.add_sub_cancel_left]
        · rw [if_neg (by omega), blit_outside]
          have hne : physical frames a ≠ physical frames (virtualAddr.toNat + i.toNat) :=
            fun h => heq (physical_inj hnodup ha hin h)
          rw [List.length_singleton]
          omega

end Eager

/-! ## Pages of an executable -/

section Linked

variable {exe : Executable} {dirVir : UInt32} {v : Nat}

/-- The addresses of the pages do not overflow. -/
theorem Executable.Linked.page_lt (h : exe.Linked) (hv : v < exe.numPages) :
    v * pageSize < exe.header.code.size.toNat + exe.header.initData.size.toNat +
      exe.header.uninitData.size.toNat + userStackSize.toNat := by
  have hsize := h.size_lt
  have hget : (exe.getSize + userStackSize).toNat = exe.header.code.size.toNat +
      exe.header.initData.size.toNat + exe.header.uninitData.size.toNat + userStackSize.toNat := by
    simp only [Executable.getSize, UInt32.toNat_add]
    omega
  rw [← hget]
  unfold Executable.numPages divRoundUp at hv
  have hp : pageSize = 128 := rfl
  rw [hp] at hv ⊢
  split at hv <;> omega

/-- Code and data are below the end of the last page. -/
theorem Executable.Linked.segments_le (h : exe.Linked) :
    exe.header.code.size.toNat + exe.header.initData.size.toNat ≤ exe.numPages * pageSize := by
  by_contra hlt
  have := h.size_lt
  have hget : (exe.getSize + userStackSize).toNat = exe.header.code.size.toNat +
      exe.header.initData.size.toNat + exe.header.uninitData.size.toNat + userStackSize.toNat := by
    simp only [Executable.getSize, UInt32.toNat_add]
    omega
  unfold Executable.numPages divRoundUp at hlt
  have hp : pageSize = 128 := rfl
  rw [hp, hget] at hlt
  split at hlt <;> omega

/-- `ReadAt` of bytes that the file has. -/
theorem readAt_eq {n p : UInt32} (h : p.toNat + n.toNat ≤ exe.file.length) :
    exe.readAt n p = (List.range n.toNat).map fun i => exe.file.getD (p.toNat + i) 0 := by
  unfold Executable.readAt
  refine List.ext_getElem (by simp; omega) fun i hi hi' => ?_
  rw [List.length_map, List.length_range] at hi'
  rw [List.getElem_take, List.getElem_drop, List.getElem_map, List.getElem_range, List.getD_eq_getElem?_getD,
    List.getElem?_eq_getElem (by omega)]
  rfl

/-- A block inside the code segment is read, and no `ASSERT` fails. -/
theorem Executable.Linked.readCodeBlock_eq (h : exe.Linked) {n off : UInt32} (hn : 0 < n.toNat)
    (hle : off.toNat + n.toNat ≤ exe.header.code.size.toNat) :
    exe.readCodeBlock n off = some ((List.range n.toNat).map fun i => exe.byteAt (off.toNat + i)) := by
  obtain ⟨hfile, hlt⟩ := h.code_file (off.toNat + (n.toNat - 1)) (by omega)
  have hpos : (exe.header.code.inFileAddr + off).toNat = exe.header.code.inFileAddr.toNat + off.toNat := by
    rw [UInt32.toNat_add]
    omega
  have hne : n ≠ 0 := fun h0 => by simp [h0] at hn
  have hoff : off < exe.header.code.size := UInt32.lt_iff_toNat_lt.mpr (by omega)
  have hread : exe.readCodeBlock n off = some (exe.readAt n (exe.header.code.inFileAddr + off)) := by
    simp [Executable.readCodeBlock, guard, hne, hoff]
  rw [hread, readAt_eq (by rw [hpos]; omega), hpos]
  congr 1
  refine List.map_congr_left fun i hi => ?_
  have hi := List.mem_range.mp hi
  unfold Executable.byteAt
  rw [if_pos (by omega), Nat.add_assoc]

/-- A block inside the initialised data is read, and no `ASSERT` fails. -/
theorem Executable.Linked.readDataBlock_eq (h : exe.Linked) {n off : UInt32} (hn : 0 < n.toNat)
    (hle : off.toNat + n.toNat ≤ exe.header.initData.size.toNat) :
    exe.readDataBlock n off =
      some ((List.range n.toNat).map fun i => exe.byteAt (exe.header.code.size.toNat + off.toNat + i)) := by
  obtain ⟨hfile, hlt⟩ := h.data_file (off.toNat + (n.toNat - 1)) (by omega)
  have hpos : (exe.header.initData.inFileAddr + off).toNat =
      exe.header.initData.inFileAddr.toNat + off.toNat := by
    rw [UInt32.toNat_add]
    omega
  have hne : n ≠ 0 := fun h0 => by simp [h0] at hn
  have hoff : off < exe.header.initData.size := UInt32.lt_iff_toNat_lt.mpr (by omega)
  have hread : exe.readDataBlock n off = some (exe.readAt n (exe.header.initData.inFileAddr + off)) := by
    simp [Executable.readDataBlock, guard, hne, hoff]
  rw [hread, readAt_eq (by rw [hpos]; omega), hpos]
  congr 1
  refine List.map_congr_left fun i hi => ?_
  have hi := List.mem_range.mp hi
  unfold Executable.byteAt
  rw [if_neg (by omega), if_pos (by omega)]
  congr 1
  omega

/-- The eager loader succeeds when there are frames for all the pages. -/
theorem Executable.Linked.loadEagerly_spec (h : exe.Linked) {paginaMapa : Bitmap}
    (henough : exe.numPages ≤ paginaMapa.countClear) (mem : ByteMemory) :
    ∃ frames mem', AddressSpace.loadEagerly exe paginaMapa mem = some (frames, mem') ∧
      frames.length = exe.numPages ∧
      ∀ a, a < exe.numPages * pageSize → mem' (physical frames a) = exe.byteAt a := by
  obtain ⟨⟨frames, map'⟩, hframes⟩ := Option.isSome_iff_exists.mp (findFrames_isSome _ henough)
  obtain ⟨hlen, hnodup, -⟩ := findFrames_spec _ hframes
  have hseg := h.segments_le
  have hsize := h.size_lt
  have hcode := h.code_addr
  have hdata : exe.header.initData.virtualAddr.toNat = exe.header.code.size.toNat := by rw [h.data_addr]
  have hone : (1 : UInt32).toNat = 1 := rfl
  obtain ⟨mem1, hrun1, hspec1⟩ := copySegment_spec exe.readCodeBlock exe.header.code.virtualAddr
    exe.header.code.size.toNat exe.byteAt hnodup
    (fun i hi => by
      rw [h.readCodeBlock_eq (by decide) (by omega), hone]
      rfl)
    (by rw [hcode, hlen]; simp only [UInt32.toNat_zero]; omega)
    (by rw [hcode]; simp only [UInt32.toNat_zero]; omega)
    exe.header.code.size.toNat 0 (clearPages frames mem) (by simp)
  obtain ⟨mem2, hrun2, hspec2⟩ := copySegment_spec exe.readDataBlock exe.header.initData.virtualAddr
    exe.header.initData.size.toNat (fun i => exe.byteAt (exe.header.code.size.toNat + i)) hnodup
    (fun i hi => by
      rw [h.readDataBlock_eq (by decide) (by omega), hone]
      rfl)
    (by rw [hdata, hlen]; omega)
    (by rw [hdata]; omega)
    exe.header.initData.size.toNat 0 mem1 (by simp)
  refine ⟨frames, mem2, ?_, hlen, fun a ha => ?_⟩
  · simp [AddressSpace.loadEagerly, guard, henough, hframes, hrun1, hrun2]
  · rw [← hlen] at ha
    have hzero : clearPages frames mem (physical frames a) = 0 := by
      have hdiv : a / pageSize < frames.length := Nat.div_lt_of_lt_mul (by rw [Nat.mul_comm]; exact ha)
      refine clearPages_inside ?_ (Nat.mod_lt a (by decide))
      rw [List.getD_eq_getElem?_getD, List.getElem?_eq_getElem hdiv]
      exact List.getElem_mem hdiv
    rw [hspec2 a ha, hdata, hspec1 a ha, hcode, hzero]
    simp only [UInt32.toNat_zero, Nat.add_zero, Nat.zero_add, Nat.zero_le, true_and, Nat.sub_zero]
    by_cases h1 : a < exe.header.code.size.toNat
    · rw [if_neg (by omega), if_pos h1]
    · by_cases h2 : a < exe.header.code.size.toNat + exe.header.initData.size.toNat
      · rw [if_pos (by omega), Nat.add_sub_cancel' (by omega)]
      · rw [if_neg (by omega), if_neg h1]
        unfold Executable.byteAt
        simp only [h1, h2, if_false]

/-- Bytes of code in the page at `dirVir`. -/
theorem toNat_bytesCopyCode (exe : Executable) (dirVir : UInt32) :
    (bytesCopyCode exe dirVir).toNat = min pageSize (exe.header.code.size.toNat - dirVir.toNat) := by
  have hp : pageSize = 128 := rfl
  have h128 : (128 : UInt32).toNat = 128 := rfl
  unfold bytesCopyCode
  simp only [UInt32.lt_iff_toNat_lt, gt_iff_lt, UInt32.toNat_zero, h128]
  by_cases hlt : dirVir.toNat < exe.header.code.size.toNat
  · have hsub : (exe.header.code.size - dirVir).toNat = exe.header.code.size.toNat - dirVir.toNat :=
      UInt32.toNat_sub_of_le _ _ (UInt32.le_iff_toNat_le.mpr (Nat.le_of_lt hlt))
    rw [if_pos ⟨by omega, hlt⟩, hsub]
    split
    · rw [h128]
      omega
    · rw [hsub]
      omega
  · rw [if_neg (by omega), UInt32.toNat_zero]
    omega

/-- The bytes of code in a page. -/
theorem Executable.Linked.codeOfPage_eq (h : exe.Linked) :
    codeOfPage exe dirVir =
      some ((List.range (bytesCopyCode exe dirVir).toNat).map fun i => exe.byteAt (dirVir.toNat + i)) := by
  have hn := toNat_bytesCopyCode exe dirVir
  have hp : pageSize = 128 := rfl
  unfold codeOfPage
  by_cases hlt : dirVir.toNat < exe.header.code.size.toNat
  · rw [if_pos ⟨UInt32.lt_iff_toNat_lt.mpr (by simp only [UInt32.toNat_zero]; omega),
      UInt32.lt_iff_toNat_lt.mpr hlt⟩]
    exact h.readCodeBlock_eq (by omega) (by omega)
  · rw [if_neg fun hc => hlt (UInt32.lt_iff_toNat_lt.mp hc.2), show (bytesCopyCode exe dirVir).toNat = 0 by omega]
    rfl

/-- The bytes of initialised data in a page, behind those of code. -/
theorem Executable.Linked.dataOfPage_eq (h : exe.Linked) :
    dataOfPage exe dirVir = some ((List.range (min (exe.header.code.size.toNat + exe.header.initData.size.toNat -
        (dirVir.toNat + (bytesCopyCode exe dirVir).toNat)) (pageSize - (bytesCopyCode exe dirVir).toNat))).map
      fun i => exe.byteAt (dirVir.toNat + (bytesCopyCode exe dirVir).toNat + i)) := by
  have hn := toNat_bytesCopyCode exe dirVir
  have hp : pageSize = 128 := rfl
  have h128 : (128 : UInt32).toNat = 128 := rfl
  have hsize := h.size_lt
  have hdir := dirVir.toNat_lt
  have haddr : exe.header.initData.virtualAddr.toNat = exe.header.code.size.toNat := by rw [h.data_addr]
  have hend : (exe.header.initData.virtualAddr + exe.header.initData.size).toNat =
      exe.header.code.size.toNat + exe.header.initData.size.toNat := by
    rw [UInt32.toNat_add]
    omega
  have hbeg : (dirVir + bytesCopyCode exe dirVir).toNat =
      dirVir.toNat + (bytesCopyCode exe dirVir).toNat := by
    rw [UInt32.toNat_add]
    omega
  have hroom : (128 - bytesCopyCode exe dirVir).toNat = 128 - (bytesCopyCode exe dirVir).toNat :=
    UInt32.toNat_sub_of_le _ _ (UInt32.le_iff_toNat_le.mpr (by omega))
  simp only [dataOfPage, UInt32.lt_iff_toNat_lt, UInt32.le_iff_toNat_le, gt_iff_lt, UInt32.toNat_zero, h128, hend,
    hbeg, hroom]
  by_cases hc : 0 < exe.header.initData.size.toNat ∧
      dirVir.toNat + (bytesCopyCode exe dirVir).toNat <
        exe.header.code.size.toNat + exe.header.initData.size.toNat ∧
      (bytesCopyCode exe dirVir).toNat < 128
  · rw [if_pos hc]
    -- behind the code, or in the data from the page's start on
    have hoff : (if 0 < (bytesCopyCode exe dirVir).toNat then (0 : UInt32) else dirVir - exe.header.code.size).toNat =
        dirVir.toNat + (bytesCopyCode exe dirVir).toNat - exe.header.code.size.toNat := by
      split
      · rw [UInt32.toNat_zero]
        omega
      · rw [UInt32.toNat_sub_of_le _ _ (UInt32.le_iff_toNat_le.mpr (by omega))]
        omega
    generalize (if 0 < (bytesCopyCode exe dirVir).toNat then (0 : UInt32) else dirVir - exe.header.code.size) =
      offset at hoff ⊢
    have hleft : (exe.header.initData.size - offset).toNat = exe.header.initData.size.toNat - offset.toNat :=
      UInt32.toNat_sub_of_le _ _ (UInt32.le_iff_toNat_le.mpr (by omega))
    rw [hleft]
    have hcount : (if exe.header.initData.size.toNat - offset.toNat < 128 - (bytesCopyCode exe dirVir).toNat then
        exe.header.initData.size - offset else 128 - bytesCopyCode exe dirVir).toNat =
        min (exe.header.code.size.toNat + exe.header.initData.size.toNat -
          (dirVir.toNat + (bytesCopyCode exe dirVir).toNat)) (pageSize - (bytesCopyCode exe dirVir).toNat) := by
      split
      · rw [hleft]
        omega
      · rw [hroom]
        omega
    generalize (if exe.header.initData.size.toNat - offset.toNat < 128 - (bytesCopyCode exe dirVir).toNat then
        exe.header.initData.size - offset else 128 - bytesCopyCode exe dirVir) = count at hcount ⊢
    have hsum : (bytesCopyCode exe dirVir + count).toNat ≤ 128 := by
      rw [UInt32.toNat_add]
      omega
    rw [h.readDataBlock_eq (by omega) (by omega), ← hcount]
    simp only [guard, hsum, if_true, Option.bind_eq_bind, Option.bind_some, Option.pure_def]
    congr 1
    refine List.map_congr_left fun i _ => ?_
    congr 1
    omega
  · rw [if_neg hc, show min (exe.header.code.size.toNat + exe.header.initData.size.toNat -
        (dirVir.toNat + (bytesCopyCode exe dirVir).toNat)) (pageSize - (bytesCopyCode exe dirVir).toNat) = 0 by
      omega]
    rfl

/-- The bytes that `LoadPage` copies over a page of zeros. -/
theorem Executable.Linked.copyFromExe_spec (h : exe.Linked) (hv : v < exe.numPages) {k : Nat} {mem : ByteMemory}
    (hzero : ∀ i < pageSize, mem (k + i) = 0) :
    ∃ mem', copyFromExe exe v k mem = some mem' ∧
      ∀ i < pageSize, mem' (k + i) = exe.byteAt (v * pageSize + i) := by
  have hp : pageSize = 128 := rfl
  have hpage := h.page_lt hv
  have hsize := h.size_lt
  have hdir : (UInt32.ofNat v * 128).toNat = v * pageSize := by
    have h128 : (128 : UInt32).toNat = 128 := rfl
    rw [hp] at hpage ⊢
    rw [UInt32.toNat_mul, UInt32.toNat_ofNat', h128]
    omega
  have hcode := toNat_bytesCopyCode exe (UInt32.ofNat v * 128)
  simp only [copyFromExe]
  rw [h.codeOfPage_eq, h.dataOfPage_eq]
  refine ⟨_, rfl, fun i hi => ?_⟩
  rw [hdir] at hcode ⊢
  generalize (bytesCopyCode exe (UInt32.ofNat v * 128)).toNat = b at hcode ⊢
  have hget : ∀ (n j : Nat) (f : Nat → UInt8), j < n → ((List.range n).map f).getD j 0 = f j := by
    intro n j f hj
    simp [hj]
  by_cases hib : i < b
  · -- code
    rw [blit_outside (by omega), blit_inside (by simpa using hib), hget _ _ _ hib]
  · obtain ⟨j, rfl⟩ := Nat.exists_eq_add_of_le (Nat.le_of_not_lt hib)
    by_cases hj : j < min (exe.header.code.size.toNat + exe.header.initData.size.toNat - (v * pageSize + b))
        (pageSize - b)
    · -- initialised data
      rw [← Nat.add_assoc, blit_inside (by simpa using hj), hget _ _ _ hj, Nat.add_assoc]
    · -- zeros
      rw [blit_outside, blit_outside, hzero _ hi]
      · unfold Executable.byteAt
        rw [if_neg (by omega), if_neg (by omega)]
      · rw [List.length_map, List.length_range]
        omega
      · rw [List.length_map, List.length_range]
        omega

/-- `LoadPage` puts the page of the executable into the frame. -/
theorem Executable.Linked.fillFrame_spec (h : exe.Linked) (hv : v < exe.numPages) (sp : AddressSpace)
    (hexe : sp.exe = exe) (hbits : v < sp.swapMap.numBits) (hswap : sp.swapMap.test v = false) (k : Nat)
    (mem : ByteMemory) : ∃ mem', fillFrame sp v k mem = some mem' ∧ slice mem' k pageSize = exe.page v := by
  have hzero : ∀ i < pageSize, blit mem k (List.replicate pageSize 0) (k + i) = (0 : UInt8) := by
    intro i hi
    rw [blit_inside (by simpa using hi), getD_replicate_zero]
  obtain ⟨mem', hcopy, hbytes⟩ := h.copyFromExe_spec hv hzero
  refine ⟨mem', ?_, ?_⟩
  · unfold fillFrame
    simp only [hbits, if_true, hswap, hexe, Bool.false_eq_true, if_false]
    exact hcopy
  · exact List.map_congr_left fun i hi => hbytes i (List.mem_range.mp hi)

/-- The page of the eager loader. -/
theorem slice_physical {frames : List Nat} {mem : ByteMemory}
    (hmem : ∀ a, a < exe.numPages * pageSize → mem (physical frames a) = exe.byteAt a) (hv : v < exe.numPages) :
    slice mem (frames.getD v 0 * pageSize) pageSize = exe.page v := by
  refine List.map_congr_left fun i hi => ?_
  have hi := List.mem_range.mp hi
  rw [← hmem (v * pageSize + i)]
  · unfold physical
    rw [page_div v hi, page_mod v hi]
  · calc v * pageSize + i < v * pageSize + pageSize := Nat.add_lt_add_left hi _
      _ = (v + 1) * pageSize := by rw [Nat.add_mul, Nat.one_mul]
      _ ≤ exe.numPages * pageSize := Nat.mul_le_mul_right _ hv

end Linked

/-! ## Both loaders -/

/-- Demand loading of a page that was never swapped gives the bytes that eager loading gives: code, then
initialised data, then zeros. -/
theorem loadPage_eq_loadEagerly {exe : Executable} {v : Nat} (hlinked : exe.Linked) (hv : v < exe.numPages) :
    (∀ policy choice this frame vm vm1, Vm.FirstLoad policy choice exe this v frame vm vm1 →
      ∃ vm', vm.loadPage policy this v choice = some vm' ∧ vm'.Maps this v frame ∧
        slice vm'.mmu.mainMemory (frame * pageSize) pageSize = exe.page v) ∧
    ∀ paginaMapa mem, exe.numPages ≤ paginaMapa.countClear →
      ∃ frames mem', AddressSpace.loadEagerly exe paginaMapa mem = some (frames, mem') ∧
        frames.length = exe.numPages ∧ slice mem' (frames.getD v 0 * pageSize) pageSize = exe.page v := by
  constructor
  · intro policy choice this frame vm vm1 h
    obtain ⟨sp, hsp, hexe, htable, hbits⟩ := h.space
    obtain ⟨e, he, hvalid⟩ := h.invalid
    obtain ⟨sp1, hsp1, hshape⟩ := (sameShapes_obtainFrame h.obtained).exists_space hsp
    simp only [AddressSpace.shape, Prod.mk.injEq] at hshape
    obtain ⟨hexe1, -, htable1, hbits1⟩ := hshape
    have hlt : v < sp1.pageTable.length := by
      rw [htable1, htable]
      exact hv
    obtain ⟨e1, he1⟩ : ∃ e1, vm1.getEntry this v = some e1 :=
      ⟨_, (getEntry_eq hsp1 v).trans (List.getElem?_eq_getElem hlt)⟩
    let e2 : TranslationEntry := { e1 with physicalPage := frame, valid := true }
    let sp2 : AddressSpace := { sp1 with pageTable := sp1.pageTable.set v e2 }
    obtain ⟨mem', hfill, hpage⟩ := hlinked.fillFrame_spec hv sp2 (hexe1.trans hexe)
      (by show v < sp1.swapMap.numBits; rw [hbits1, hbits]; exact hv) (h.unswapped sp1 hsp1) (frame * pageSize)
      vm1.mmu.mainMemory
    have hset : vm1.setEntry this v e2 = some (vm1.setSpace this sp2) := setEntry_eq hsp1 hlt e2
    have hentry : (vm1.setSpace this sp2).getEntry this v = some e2 := by
      rw [getEntry_set hsp1 hlt sp2 rfl, if_pos ⟨rfl, rfl⟩]
    have hget2 : (vm1.setSpace this sp2).spaces this = some sp2 := by
      rw [spaces_setSpace, if_pos rfl]
    refine ⟨{ vm1.setSpace this sp2 with mmu := { vm1.mmu with mainMemory := mem' } }, ?_, ?_, hpage⟩
    · simp only [loadPage, he, Option.bind_eq_bind, Option.bind_some, hvalid, guard, if_true, Option.pure_def,
        h.obtained, he1, hget2, mmu_setSpace]
      rw [hset]
      simp only [Option.bind_some, hget2, mmu_setSpace, hfill]
    · exact ⟨e2, hentry, rfl, rfl⟩
  · intro paginaMapa mem henough
    obtain ⟨frames, mem', hload, hlen, hbytes⟩ := hlinked.loadEagerly_spec henough mem
    exact ⟨frames, mem', hload, hlen, slice_physical hbytes hv⟩

/-- Two bytes of code and two of data, at the end of the file. -/
def smallExe : Executable where
  header := ⟨⟨0, 40, 2⟩, ⟨2, 42, 2⟩, ⟨4, 0, 3⟩⟩
  file := List.replicate 40 0 ++ [1, 2, 3, 4]

theorem smallExe_linked : smallExe.Linked where
  code_addr := rfl
  data_addr := rfl
  size_lt := by decide
  code_file := by
    intro i hi
    have hsize : i < 2 := hi
    have hlen : smallExe.file.length = 44 := rfl
    have haddr : smallExe.header.code.inFileAddr.toNat = 40 := rfl
    omega
  data_file := by
    intro i hi
    have hsize : i < 2 := hi
    have hlen : smallExe.file.length = 44 := rfl
    have haddr : smallExe.header.initData.inFileAddr.toNat = 42 := rfl
    omega

/-- A process that has not run yet. -/
def smallVm : Vm :=
  (boot (fun _ => 0) (fun _ => none) (fun _ => 0) fun _ => ⟨0, 0, false, false, false, false⟩).setSpace 0
    (AddressSpace.new smallExe (fun _ => 0) fun _ => 0)

theorem smallVm_firstLoad : ∃ vm1, FirstLoad .fifo 0 smallExe 0 0 0 smallVm vm1 := by
  have hfind : (smallVm.paginaMapa.find 0 0).1 = some 0 := by decide
  refine ⟨{ smallVm with paginaMapa := (smallVm.paginaMapa.find 0 0).2 }, ⟨_, rfl, rfl, ?_, rfl⟩, ⟨_, rfl, rfl⟩, ?_, ?_⟩
  · decide
  · unfold obtainFrame
    rw [show smallVm.paginaMapa.find 0 0 = (some 0, (smallVm.paginaMapa.find 0 0).2) from Prod.ext hfind rfl]
  · intro sp hsp
    cases hsp
    decide

theorem loadPage_eq_loadEagerly_small : smallExe.Linked ∧ 0 < smallExe.numPages ∧
    smallExe.page 0 = [1, 2, 3, 4] ++ List.replicate 124 0 ∧
    ∃ vm' frames mem', smallVm.loadPage .fifo 0 0 0 = some vm' ∧
      slice vm'.mmu.mainMemory 0 pageSize = smallExe.page 0 ∧
      AddressSpace.loadEagerly smallExe (Bitmap.new numPhysPages fun _ => 0) (fun _ => 7) = some (frames, mem') ∧
      slice mem' (frames.getD 0 0 * pageSize) pageSize = smallExe.page 0 := by
  have hpages : 0 < smallExe.numPages := by decide
  obtain ⟨hdemand, heager⟩ := loadPage_eq_loadEagerly smallExe_linked hpages
  obtain ⟨vm1, hfirst⟩ := smallVm_firstLoad
  obtain ⟨vm', hload, -, hpage⟩ := hdemand _ _ _ _ _ _ hfirst
  obtain ⟨frames, mem', heq, -, hpage'⟩ := heager (Bitmap.new numPhysPages fun _ => 0) (fun _ => 7) (by decide)
  rw [Nat.zero_mul] at hpage
  exact ⟨smallExe_linked, hpages, by decide, vm', frames, mem', hload, hpage, heq, hpage'⟩

end Nachos
