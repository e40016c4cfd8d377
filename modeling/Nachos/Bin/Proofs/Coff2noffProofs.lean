import Nachos.Bin.Coff2noff

/-!
# The memory image of a NOFF file

The `.bss` and `.sbss` sections only change the segment of the uninitialized data, and the others do not
read it. So the loop is two loops: one over the sections that are copied, which keeps the segments of the
code and of the initialized data right, and one that merges ranges. The second rejects a section that
starts where the range so far ends.
-/

namespace Nachos.Bin

open Foundations

variable {bytes : List UInt8} {st st' : Translation} {sc : CoffSection} {l : List CoffSection}
  {u u' : NoffSegment}

/-! ## A round of the loop -/

/-- The names of the segments are different. -/
theorem names_ne : textName ≠ dataName ∧ textName ≠ rdataName ∧ bssName ≠ textName ∧
    bssName ≠ dataName ∧ bssName ≠ rdataName ∧ sbssName ≠ textName ∧ sbssName ≠ dataName ∧
    sbssName ≠ rdataName := by decide

theorem IsSection.not_text (h : IsSection [dataName, rdataName] sc) : ¬ IsSection [textName] sc := by
  obtain ⟨hd, hr, -⟩ := names_ne
  rintro ⟨-, hn⟩
  rw [List.mem_singleton] at hn
  rcases h with ⟨-, hm⟩
  rw [hn] at hm
  rcases List.mem_pair.mp hm with h | h
  · exact hd h
  · exact hr h

theorem IsSection.not_copied (h : IsSection [bssName, sbssName] sc) :
    ¬ IsSection [textName] sc ∧ ¬ IsSection [dataName, rdataName] sc := by
  obtain ⟨-, -, h1, h2, h3, h4, h5, h6⟩ := names_ne
  rcases h with ⟨-, hm⟩
  constructor
  · rintro ⟨-, hn⟩
    rw [List.mem_singleton] at hn
    rcases List.mem_pair.mp hm with h | h
    · exact h1 (h.symm.trans hn)
    · exact h4 (h.symm.trans hn)
  · rintro ⟨-, hn⟩
    rcases List.mem_pair.mp hm with h | h <;> rcases List.mem_pair.mp hn with hn | hn
    · exact h2 (h.symm.trans hn)
    · exact h3 (h.symm.trans hn)
    · exact h5 (h.symm.trans hn)
    · exact h6 (h.symm.trans hn)

theorem translateSection_text (h : IsSection [textName] sc) :
    translateSection bytes st sc = st.copy bytes sc { st.header with code := st.segment sc } := by
  rcases h with ⟨he, hn⟩
  rw [List.mem_singleton] at hn
  unfold translateSection
  rw [if_neg (by rw [he]; exact Bool.false_ne_true), if_pos hn]

theorem translateSection_data (h : IsSection [dataName, rdataName] sc) :
    translateSection bytes st sc =
      if st.header.initData.size ≠ 0 then .error .dataAndRdata
      else st.copy bytes sc { st.header with initData := st.segment sc } := by
  have ht := h.not_text
  rcases h with ⟨he, hn⟩
  unfold translateSection
  rw [if_neg (by rw [he]; exact Bool.false_ne_true), if_neg fun hc => ht ⟨he, by simp [hc]⟩,
    if_pos (List.mem_pair.mp hn)]

theorem translateSection_bss (h : IsSection [bssName, sbssName] sc) :
    translateSection bytes st sc =
      (mergeBss st.header.uninitData sc).map
        fun u => { st with header := { st.header with uninitData := u } } := by
  obtain ⟨ht, hd⟩ := h.not_copied
  rcases h with ⟨he, hn⟩
  unfold translateSection
  rw [if_neg (by rw [he]; exact Bool.false_ne_true), if_neg fun hc => ht ⟨he, by simp [hc]⟩,
    if_neg fun hc => hd ⟨he, List.mem_pair.mpr hc⟩, if_pos (List.mem_pair.mp hn)]
  cases mergeBss st.header.uninitData sc <;> rfl

/-- An empty section and one with another name are skipped. -/
theorem translateSection_other (ht : ¬ IsSection [textName] sc) (hd : ¬ IsSection [dataName, rdataName] sc)
    (hb : ¬ IsSection [bssName, sbssName] sc) : translateSection bytes st sc = .ok st := by
  unfold translateSection
  by_cases he : coffSectionEmpty sc
  · rw [if_pos he]
  · have hf : coffSectionEmpty sc = false := Bool.eq_false_iff.mpr he
    rw [if_neg he, if_neg fun hc => ht ⟨hf, by simp [hc]⟩,
      if_neg fun hc => hd ⟨hf, List.mem_pair.mpr hc⟩, if_neg fun hc => hb ⟨hf, List.mem_pair.mpr hc⟩]

/-- A copy that succeeds has read the whole section. -/
theorem copy_ok {header : NoffHeader} (h : st.copy bytes sc header = .ok st') :
    ((bytes.drop sc.sectionPtr.toNat).take sc.size.toNat).length = sc.size.toNat ∧
      st' = { header := header
              inNoffFile := st.inNoffFile + sc.size
              out := st.out ++ (bytes.drop sc.sectionPtr.toNat).take sc.size.toNat } := by
  unfold Translation.copy coffSectionRead at h
  by_cases hl : ((bytes.drop sc.sectionPtr.toNat).take sc.size.toNat).length = sc.size.toNat
  · simp only [hl, if_true] at h
    exact ⟨hl, (Except.ok.inj h).symm⟩
  · simp only [hl, if_false] at h
    nomatch h

/-! ## Two loops -/

/-- The state with another segment of uninitialized data. -/
def Translation.withUninit (st : Translation) (u : NoffSegment) : Translation :=
  { st with header := { st.header with uninitData := u } }

/-- The sections that are copied do not look at the uninitialized data. -/
theorem translateSection_withUninit (hb : ¬ IsSection [bssName, sbssName] sc) :
    translateSection bytes (st.withUninit u) sc =
      (translateSection bytes st sc).map (·.withUninit u) := by
  by_cases ht : IsSection [textName] sc
  · rw [translateSection_text ht, translateSection_text ht]
    unfold Translation.copy
    cases coffSectionRead bytes sc <;> rfl
  by_cases hd : IsSection [dataName, rdataName] sc
  · rw [translateSection_data hd, translateSection_data hd]
    by_cases hi : st.header.initData.size ≠ 0
    · rw [if_pos hi, if_pos (show (st.withUninit u).header.initData.size ≠ 0 from hi)]
      rfl
    · rw [if_neg hi, if_neg (show ¬ (st.withUninit u).header.initData.size ≠ 0 from hi)]
      unfold Translation.copy
      cases coffSectionRead bytes sc <;> rfl
  · rw [translateSection_other ht hd hb, translateSection_other ht hd hb]
    rfl

theorem foldlM_withUninit (hl : ∀ sc ∈ l, ¬ IsSection [bssName, sbssName] sc) :
    l.foldlM (translateSection bytes) (st.withUninit u) =
      (l.foldlM (translateSection bytes) st).map (·.withUninit u) := by
  induction l generalizing st with
  | nil => rfl
  | cons sc l ih =>
    have hr : ∀ sc ∈ l, ¬ IsSection [bssName, sbssName] sc := fun x hx => hl x (List.mem_cons_of_mem sc hx)
    rw [List.foldlM_cons, List.foldlM_cons, translateSection_withUninit (hl sc (List.mem_cons_self ..))]
    cases translateSection bytes st sc with
    | error e => rfl
    | ok st1 => exact ih hr

theorem withUninit_self : st.withUninit st.header.uninitData = st := rfl

theorem uninitData_eq (hb : ¬ IsSection [bssName, sbssName] sc) (h : translateSection bytes st sc = .ok st') :
    st'.header.uninitData = st.header.uninitData := by
  have hw : translateSection bytes (st.withUninit st.header.uninitData) sc =
      (translateSection bytes st sc).map (·.withUninit st.header.uninitData) :=
    translateSection_withUninit hb
  rw [withUninit_self, h] at hw
  exact congrArg (·.header.uninitData) (Except.ok.inj hw)

/-- The loop over the sections is a loop over those that are not merged, and one over those that are. -/
theorem foldlM_split : l.foldlM (translateSection bytes) st = .ok st' ↔
    ∃ st1 u, (l.filter fun sc => ¬ IsSection [bssName, sbssName] sc).foldlM (translateSection bytes) st =
        .ok st1 ∧
      (l.filter (IsSection [bssName, sbssName])).foldlM mergeBss st.header.uninitData = .ok u ∧
      st' = st1.withUninit u := by
  induction l generalizing st with
  | nil =>
    constructor
    · intro h
      exact ⟨st, st.header.uninitData, rfl, rfl, (Except.ok.inj h).symm⟩
    · rintro ⟨st1, u, h1, hu, rfl⟩
      rw [← Except.ok.inj h1, ← Except.ok.inj hu]
      rfl
  | cons sc l ih =>
    have hrest : ∀ x ∈ l.filter fun sc => ¬ IsSection [bssName, sbssName] sc,
        ¬ IsSection [bssName, sbssName] x := fun x hx => of_decide_eq_true (List.mem_filter.mp hx).2
    by_cases hb : IsSection [bssName, sbssName] sc
    · rw [List.filter_cons_of_neg (by simp [hb]), List.filter_cons_of_pos (by simp [hb]), List.foldlM_cons,
        List.foldlM_cons, translateSection_bss hb]
      cases mergeBss st.header.uninitData sc with
      | error e =>
        constructor
        · intro h
          nomatch h
        · rintro ⟨st1, u, -, hu, -⟩
          nomatch hu
      | ok u1 =>
        have step : (Except.ok u1).map (fun u => st.withUninit u) >>=
            (fun st => l.foldlM (translateSection bytes) st) =
              (l.foldlM (translateSection bytes) (st.withUninit u1) : Except DieMessage Translation) := rfl
        refine Iff.trans (Eq.to_iff (congrArg (· = Except.ok st') step)) ?_
        rw [ih, foldlM_withUninit hrest]
        constructor
        · rintro ⟨st2, u, h2, hu, rfl⟩
          cases h1 : (l.filter fun sc => ¬ IsSection [bssName, sbssName] sc).foldlM
              (translateSection bytes) st with
          | error e =>
            rw [h1] at h2
            nomatch h2
          | ok st1 =>
            rw [h1] at h2
            rw [← Except.ok.inj h2]
            exact ⟨st1, u, rfl, hu, rfl⟩
        · rintro ⟨st1, u, h1, hu, rfl⟩
          rw [h1]
          exact ⟨st1.withUninit u1, u, rfl, hu, rfl⟩
    · rw [List.filter_cons_of_pos (by simp [hb]), List.filter_cons_of_neg (by simp [hb]), List.foldlM_cons,
        List.foldlM_cons]
      cases h1 : translateSection bytes st sc with
      | error e =>
        constructor
        · intro h
          nomatch h
        · rintro ⟨st1, u, hc, -⟩
          nomatch hc
      | ok st1 =>
        rw [← uninitData_eq hb h1]
        exact ih

/-! ## The sections that are copied -/

/-- The segment is a copy of the section in the bytes behind the header. -/
structure Copied (bytes out : List UInt8) (s : NoffSegment) (sc : CoffSection) : Prop where
  virtualAddr : s.virtualAddr = sc.physAddr
  size : s.size = sc.size
  data : ∃ k, s.inFileAddr.toNat = noffHeaderSize + k ∧
    (out.drop k).take s.size.toNat = (bytes.drop sc.sectionPtr.toNat).take sc.size.toNat ∧
    ((out.drop k).take s.size.toNat).length = s.size.toNat

theorem Copied.append {out : List UInt8} {s : NoffSegment} (h : Copied bytes out s sc) (more : List UInt8) :
    Copied bytes (out ++ more) s sc := by
  obtain ⟨k, hk, hd, hl⟩ := h.data
  have hle : s.size.toNat ≤ (out.drop k).length := by
    rw [List.length_take] at hl
    omega
  have he : ((out ++ more).drop k).take s.size.toNat = (out.drop k).take s.size.toNat := by
    by_cases hko : k ≤ out.length
    · rw [List.drop_append_of_le_length hko, List.take_append_of_le_length hle]
    · have hz : s.size.toNat = 0 := by
        rw [List.length_drop] at hle
        omega
      rw [hz, List.take_zero, List.take_zero]
  exact ⟨h.virtualAddr, h.size, k, hk, by rw [he, hd], by rw [he, hl]⟩

/-- What has been copied of the sections that the loop has seen. -/
structure Placed (bytes : List UInt8) (seen : List CoffSection) (st : Translation) : Prop where
  position : st.inNoffFile = UInt32.ofNat (noffHeaderSize + st.out.length)
  length : st.out.length = st.header.code.size.toNat + st.header.initData.size.toNat
  code_le : st.header.code.size.toNat ≤ bytes.length
  initData_le : st.header.initData.size.toNat ≤ bytes.length
  code : ∀ sc ∈ seen.filter (IsSection [textName]), Copied bytes st.out st.header.code sc
  no_code : seen.filter (IsSection [textName]) = [] → st.header.code.size = 0
  initData : ∀ sc ∈ seen.filter (IsSection [dataName, rdataName]), Copied bytes st.out st.header.initData sc
  no_initData : seen.filter (IsSection [dataName, rdataName]) = [] → st.header.initData.size = 0

/-- The current position is where the next section is copied to. -/
theorem Placed.copied {seen : List CoffSection} (h : Placed bytes seen st) (hb : bytes.length < 2 ^ 31)
    (hs : st.out.length ≤ bytes.length)
    (hl : ((bytes.drop sc.sectionPtr.toNat).take sc.size.toNat).length = sc.size.toNat) :
    Copied bytes (st.out ++ (bytes.drop sc.sectionPtr.toNat).take sc.size.toNat) (st.segment sc) sc := by
  refine ⟨rfl, rfl, st.out.length, ?_, ?_, ?_⟩
  · show st.inNoffFile.toNat = _
    rw [h.position, UInt32.toNat_ofNat']
    unfold noffHeaderSize
    omega
  · show ((st.out ++ _).drop st.out.length).take sc.size.toNat = _
    rw [List.drop_left, List.take_of_length_le (by omega)]
  · show (((st.out ++ _).drop st.out.length).take sc.size.toNat).length = sc.size.toNat
    rw [List.drop_left, List.take_of_length_le (by omega), hl]

theorem position_add {n : Nat} (size : UInt32) :
    UInt32.ofNat n + size = UInt32.ofNat (n + size.toNat) := by
  rw [UInt32.ofNat_add, UInt32.ofNat_toNat]

/-- A section that is neither copied nor merged leaves what has been copied. -/
theorem Placed.skip {seen : List CoffSection} (h : Placed bytes seen st) (ht : ¬ IsSection [textName] sc)
    (hd : ¬ IsSection [dataName, rdataName] sc) : Placed bytes (seen ++ [sc]) st := by
  have h1 : (seen ++ [sc]).filter (IsSection [textName]) = seen.filter (IsSection [textName]) := by
    rw [List.filter_append, List.filter_cons_of_neg (by simp [ht]), List.filter_nil, List.append_nil]
  have h2 : (seen ++ [sc]).filter (IsSection [dataName, rdataName]) =
      seen.filter (IsSection [dataName, rdataName]) := by
    rw [List.filter_append, List.filter_cons_of_neg (by simp [hd]), List.filter_nil, List.append_nil]
  exact { h with
    code := h1 ▸ h.code
    no_code := h1 ▸ h.no_code
    initData := h2 ▸ h.initData
    no_initData := h2 ▸ h.no_initData }

theorem read_le (hl : ((bytes.drop sc.sectionPtr.toNat).take sc.size.toNat).length = sc.size.toNat) :
    sc.size.toNat ≤ bytes.length := by
  rw [List.length_take, List.length_drop] at hl
  omega

/-- The first text section is copied. -/
theorem Placed.text {seen : List CoffSection} (h : Placed bytes seen st) (hb : bytes.length < 2 ^ 31)
    (hn : seen.filter (IsSection [textName]) = []) (hs : IsSection [textName] sc)
    (hr : translateSection bytes st sc = .ok st') : Placed bytes (seen ++ [sc]) st' := by
  have hz := h.no_code hn
  have hd : ¬ IsSection [dataName, rdataName] sc := fun hc => hc.not_text hs
  rw [translateSection_text hs] at hr
  obtain ⟨hl, rfl⟩ := copy_ok hr
  have hout : st.out.length = st.header.initData.size.toNat := by
    rw [h.length, hz]
    exact Nat.zero_add _
  have h1 : (seen ++ [sc]).filter (IsSection [textName]) = [sc] := by
    rw [List.filter_append, hn, List.filter_cons_of_pos (by simp [hs]), List.filter_nil, List.nil_append]
  have h2 : (seen ++ [sc]).filter (IsSection [dataName, rdataName]) =
      seen.filter (IsSection [dataName, rdataName]) := by
    rw [List.filter_append, List.filter_cons_of_neg (by simp [hd]), List.filter_nil, List.append_nil]
  have hcopied := h.copied hb (hout ▸ h.initData_le) hl
  constructor
  · show st.inNoffFile + sc.size = _
    rw [h.position, position_add, List.length_append, hl, Nat.add_assoc]
  · show (st.out ++ _).length = sc.size.toNat + st.header.initData.size.toNat
    rw [List.length_append, hl, hout]
    exact Nat.add_comm _ _
  · exact read_le hl
  · exact h.initData_le
  · rw [h1]
    intro x hx
    rw [List.mem_singleton.mp hx]
    exact hcopied
  · rw [h1]
    intro hc
    nomatch hc
  · rw [h2]
    exact fun x hx => (h.initData x hx).append _
  · rw [h2]
    exact h.no_initData

/-- A data section is copied if it is the first one. -/
theorem Placed.data {seen : List CoffSection} (h : Placed bytes seen st) (hb : bytes.length < 2 ^ 31)
    (hs : IsSection [dataName, rdataName] sc) (hr : translateSection bytes st sc = .ok st') :
    Placed bytes (seen ++ [sc]) st' := by
  have ht := hs.not_text
  rw [translateSection_data hs] at hr
  by_cases hz : st.header.initData.size ≠ 0
  · rw [if_pos hz] at hr
    nomatch hr
  rw [if_neg hz] at hr
  obtain ⟨hl, rfl⟩ := copy_ok hr
  have hz : st.header.initData.size = 0 := of_not_not hz
  have hn : seen.filter (IsSection [dataName, rdataName]) = [] := by
    rw [List.eq_nil_iff_forall_not_mem]
    intro x hx
    have hc := (h.initData x hx).size
    rw [hz] at hc
    have he : coffSectionEmpty x = false := (of_decide_eq_true (List.mem_filter.mp hx).2).1
    unfold coffSectionEmpty at he
    rw [← hc] at he
    nomatch he
  have hout : st.out.length = st.header.code.size.toNat := by
    rw [h.length, hz]
    rfl
  have h1 : (seen ++ [sc]).filter (IsSection [textName]) = seen.filter (IsSection [textName]) := by
    rw [List.filter_append, List.filter_cons_of_neg (by simp [ht]), List.filter_nil, List.append_nil]
  have h2 : (seen ++ [sc]).filter (IsSection [dataName, rdataName]) = [sc] := by
    rw [List.filter_append, hn, List.filter_cons_of_pos (by simp [hs]), List.filter_nil, List.nil_append]
  have hcopied := h.copied hb (hout ▸ h.code_le) hl
  constructor
  · show st.inNoffFile + sc.size = _
    rw [h.position, position_add, List.length_append, hl, Nat.add_assoc]
  · show (st.out ++ _).length = st.header.code.size.toNat + sc.size.toNat
    rw [List.length_append, hl, hout]
  · exact h.code_le
  · exact read_le hl
  · rw [h1]
    exact fun x hx => (h.code x hx).append _
  · rw [h1]
    exact h.no_code
  · rw [h2]
    intro x hx
    rw [List.mem_singleton.mp hx]
    exact hcopied
  · rw [h2]
    intro hc
    nomatch hc

/-- A round keeps what has been copied, if there is one text section at most. -/
theorem Placed.step {seen : List CoffSection} (h : Placed bytes seen st) (hb : bytes.length < 2 ^ 31)
    (hn : ((seen ++ [sc]).filter (IsSection [textName])).length ≤ 1)
    (hr : translateSection bytes st sc = .ok st') : Placed bytes (seen ++ [sc]) st' := by
  by_cases ht : IsSection [textName] sc
  · refine h.text hb ?_ ht hr
    rw [List.filter_append, List.filter_cons_of_pos (by simp [ht]), List.length_append] at hn
    exact List.length_eq_zero_iff.mp (by simp at hn ⊢; omega)
  by_cases hd : IsSection [dataName, rdataName] sc
  · exact h.data hb hd hr
  by_cases hs : IsSection [bssName, sbssName] sc
  · rw [translateSection_bss hs] at hr
    cases hm : mergeBss st.header.uninitData sc with
    | error e =>
      rw [hm] at hr
      nomatch hr
    | ok u =>
      rw [hm] at hr
      rw [← Except.ok.inj hr]
      have hk := h.skip ht hd
      exact { hk with }
  · rw [translateSection_other ht hd hs] at hr
    rw [← Except.ok.inj hr]
    exact h.skip ht hd

/-- The loop keeps it. -/
theorem Placed.run {seen : List CoffSection} (h : Placed bytes seen st) (hb : bytes.length < 2 ^ 31)
    (hn : ((seen ++ l).filter (IsSection [textName])).length ≤ 1)
    (hr : l.foldlM (translateSection bytes) st = .ok st') : Placed bytes (seen ++ l) st' := by
  induction l generalizing seen st with
  | nil =>
    rw [← Except.ok.inj hr, List.append_nil]
    exact h
  | cons sc l ih =>
    rw [List.foldlM_cons] at hr
    have hassoc : seen ++ sc :: l = seen ++ [sc] ++ l := by rw [List.append_assoc, List.singleton_append]
    cases h1 : translateSection bytes st sc with
    | error e =>
      rw [h1] at hr
      nomatch hr
    | ok st1 =>
      rw [h1] at hr
      rw [hassoc] at hn ⊢
      have hle : ((seen ++ [sc]).filter (IsSection [textName])).length ≤ 1 := by
        rw [List.filter_append, List.length_append] at hn
        omega
      exact ih (h.step hb hle h1) hn hr

/-- Before the loop. -/
theorem Placed.start (bytes : List UInt8) (garbage : NoffHeader) :
    Placed bytes [] (Translation.start garbage) := by
  constructor
  · rfl
  · rfl
  · exact Nat.zero_le _
  · exact Nat.zero_le _
  · intro sc h
    nomatch h
  · exact fun _ => rfl
  · intro sc h
    nomatch h
  · exact fun _ => rfl

/-! ## The sections that are merged -/

/-- A section is merged unless it starts where the range ends. -/
theorem mergeBss_eq (u : NoffSegment) (sc : CoffSection) :
    mergeBss u sc =
      if u.size ≠ 0 ∧ sc.physAddr = u.virtualAddr + u.size then .error .bssAndSbss
      else .ok (mergedRange u sc) := by
  unfold mergeBss mergedRange
  by_cases hz : u.size ≠ 0
  · by_cases ha : sc.physAddr = u.virtualAddr + u.size
    · rw [if_pos hz, if_pos ha, if_pos ⟨hz, ha⟩]
    · rw [if_pos hz, if_neg ha, if_neg fun hc => ha hc.2, if_pos hz]
  · rw [if_neg hz, if_neg fun hc => hz hc.1, if_neg hz]

theorem meetsEnd_nil : ¬ MeetsEnd u [] := by
  rintro ⟨pre, sc, post, h, -⟩
  cases pre <;> nomatch h

theorem meetsEnd_cons : MeetsEnd u (sc :: l) ↔
    (u.size ≠ 0 ∧ sc.physAddr = u.virtualAddr + u.size) ∨ MeetsEnd (mergedRange u sc) l := by
  constructor
  · rintro ⟨pre, x, post, h, hz, ha⟩
    cases pre with
    | nil =>
      left
      rw [List.nil_append, List.cons.injEq] at h
      rw [h.1]
      exact ⟨hz, ha⟩
    | cons y pre =>
      right
      rw [List.cons_append, List.cons.injEq] at h
      rw [h.1]
      exact ⟨pre, x, post, h.2, hz, ha⟩
  · rintro (⟨hz, ha⟩ | ⟨pre, x, post, rfl, hz, ha⟩)
    · exact ⟨[], sc, l, rfl, hz, ha⟩
    · exact ⟨sc :: pre, x, post, rfl, hz, ha⟩

/-- The second loop fails if a section starts where the range so far ends, and gives the range else. -/
theorem foldlM_mergeBss : l.foldlM mergeBss u = .ok u' ↔ ¬ MeetsEnd u l ∧ u' = l.foldl mergedRange u := by
  induction l generalizing u with
  | nil =>
    constructor
    · intro h
      exact ⟨meetsEnd_nil, (Except.ok.inj h).symm⟩
    · rintro ⟨-, rfl⟩
      rfl
  | cons sc l ih =>
    rw [List.foldlM_cons, List.foldl_cons, meetsEnd_cons, mergeBss_eq]
    by_cases hm : u.size ≠ 0 ∧ sc.physAddr = u.virtualAddr + u.size
    · rw [if_pos hm]
      constructor
      · intro h
        nomatch h
      · rintro ⟨h, -⟩
        exact absurd (Or.inl hm) h
    · rw [if_neg hm]
      refine Iff.trans ih ?_
      constructor
      · rintro ⟨h, rfl⟩
        exact ⟨fun hc => hc.elim hm h, rfl⟩
      · rintro ⟨h, rfl⟩
        exact ⟨fun hc => h (Or.inr hc), rfl⟩

/-! ## The conversion of a file -/

/-- The segment of uninitialized data before the loop, which is empty. -/
def startRange (garbage : NoffHeader) : NoffSegment := (Translation.start garbage).header.uninitData

section

variable {garbage : NoffHeader} {file : CoffFile} {noff : NoffFile}

theorem coff2noff_ok : coff2noff garbage file = .ok noff ↔
    ∃ st, file.sections.foldlM (translateSection file.bytes) (Translation.start garbage) = .ok st ∧
      noff = { header := st.header, bytes := st.header.bytes ++ st.out } := by
  unfold coff2noff
  cases file.sections.foldlM (translateSection file.bytes) (Translation.start garbage) with
  | error e =>
    constructor
    · intro h
      nomatch h
    · rintro ⟨st, h, -⟩
      nomatch h
  | ok st =>
    constructor
    · intro h
      exact ⟨st, rfl, (Except.ok.inj h).symm⟩
    · rintro ⟨st', h, rfl⟩
      rw [← Except.ok.inj h]
      rfl

/-- A file is accepted unless something else is wrong with it, or a section that is merged starts where the
range so far ends. -/
theorem accepts_iff : Accepts garbage file ↔
    Accepts garbage file.withoutBss ∧ ¬ MeetsEnd (startRange garbage) file.bss := by
  constructor
  · rintro ⟨noff, h⟩
    obtain ⟨st, hst, -⟩ := coff2noff_ok.mp h
    obtain ⟨st1, u, h1, hu, -⟩ := foldlM_split.mp hst
    constructor
    · exact ⟨_, coff2noff_ok.mpr ⟨st1, h1, rfl⟩⟩
    · exact (foldlM_mergeBss.mp hu).1
  · rintro ⟨⟨noff, h⟩, hm⟩
    obtain ⟨st1, h1, -⟩ := coff2noff_ok.mp h
    exact ⟨_, coff2noff_ok.mpr ⟨_, foldlM_split.mpr ⟨st1, _, h1, foldlM_mergeBss.mpr ⟨hm, rfl⟩, rfl⟩, rfl⟩⟩

/-- The range of the uninitialized data is the one into which the sections are merged. -/
theorem uninitData_of_ok (h : coff2noff garbage file = .ok noff) :
    noff.header.uninitData = file.bss.foldl mergedRange (startRange garbage) := by
  obtain ⟨st, hst, rfl⟩ := coff2noff_ok.mp h
  obtain ⟨st1, u, -, hu, rfl⟩ := foldlM_split.mp hst
  exact (foldlM_mergeBss.mp hu).2

@[simp]
theorem length_headerBytes (h : NoffHeader) : h.bytes.length = noffHeaderSize := by
  unfold NoffHeader.bytes
  rw [length_packWords]
  rfl

/-- What is copied behind the header is in the NOFF file. -/
theorem segmentOf_of_copied {names : List (List UInt8)} {h : NoffHeader} {out : List UInt8} {s : NoffSegment}
    (hno : file.sectionsNamed names = [] → s.size = 0)
    (hc : ∀ sc ∈ file.sectionsNamed names, Copied file.bytes out s sc) :
    SegmentOf file { header := h, bytes := h.bytes ++ out } names s := by
  refine ⟨hno, fun sc hsc => ?_⟩
  obtain ⟨hv, hs, k, hk, hd, hl⟩ := hc sc hsc
  have hdrop : (h.bytes ++ out).drop s.inFileAddr.toNat = out.drop k := by
    rw [hk, ← List.drop_drop, ← length_headerBytes h, List.drop_left]
  refine ⟨hv, hs, ?_, ?_⟩
  · show ((h.bytes ++ out).drop s.inFileAddr.toNat).take _ = _
    rw [hdrop, hd]
  · show (((h.bytes ++ out).drop s.inFileAddr.toNat).take _).length = _
    rw [hdrop, hl]

/-- What is copied is always right, so the memory image is kept if the ranges are. -/
theorem keepsImage_iff (hn : (file.sectionsNamed [textName]).length ≤ 1)
    (h : coff2noff garbage file = .ok noff) :
    KeepsImage file noff ↔ Fills (startRange garbage) file.bss := by
  have hu := uninitData_of_ok h
  obtain ⟨st, hst, rfl⟩ := coff2noff_ok.mp h
  have hp := (Placed.start file.bytes garbage).run file.length_lt hn hst
  constructor
  · intro hk a
    rw [← hu]
    exact hk.uninitData a
  · intro hf
    constructor
    · exact segmentOf_of_copied hp.no_code hp.code
    · exact segmentOf_of_copied hp.no_initData hp.initData
    · intro a
      rw [hu]
      exact hf a

theorem size_ne_zero (h : sc ∈ file.bss) : sc.size ≠ 0 := by
  have he : coffSectionEmpty sc = false := (of_decide_eq_true (List.mem_filter.mp h).2).1
  intro hz
  unfold coffSectionEmpty at he
  rw [hz] at he
  nomatch he

theorem mergedRange_start (garbage : NoffHeader) (sc : CoffSection) :
    mergedRange (startRange garbage) sc =
      { startRange garbage with virtualAddr := sc.physAddr, size := sc.size } := by
  have hz : ¬ (startRange garbage).size ≠ 0 := not_not_intro rfl
  unfold mergedRange
  rw [if_neg hz]

/-- One section is merged as it is. -/
theorem merges_one (hb : file.bss.length ≤ 1) :
    ¬ MeetsEnd (startRange garbage) file.bss ∧ Fills (startRange garbage) file.bss := by
  cases hl : file.bss with
  | nil =>
    refine ⟨meetsEnd_nil, fun a => ?_⟩
    constructor
    · rintro ⟨h1, h2⟩
      change a < (startRange garbage).virtualAddr.toNat + 0 at h2
      change (startRange garbage).virtualAddr.toNat ≤ a at h1
      omega
    · rintro ⟨sc, hsc, -⟩
      nomatch hsc
  | cons sc l =>
    have hnil : l = [] := by
      rw [hl, List.length_cons] at hb
      exact List.length_eq_zero_iff.mp (by omega)
    rw [hnil]
    constructor
    · rw [meetsEnd_cons]
      rintro (⟨h, -⟩ | h)
      · exact h rfl
      · exact meetsEnd_nil h
    · intro a
      rw [List.foldl_cons, List.foldl_nil, mergedRange_start]
      constructor
      · exact fun h => ⟨sc, List.mem_singleton_self sc, h⟩
      · rintro ⟨x, hx, h⟩
        rw [← List.mem_singleton.mp hx]
        exact h

/-- Of two sections that are contiguous the second starts where the first ends. -/
theorem meetsEnd_of_contiguous (hb : 1 < file.bss.length) (hc : Contiguous file.bss) :
    MeetsEnd (startRange garbage) file.bss := by
  have hz : ∀ sc ∈ file.bss, sc.size ≠ 0 := fun sc hsc => size_ne_zero hsc
  cases hl : file.bss with
  | nil =>
    rw [hl] at hb
    nomatch hb
  | cons a l =>
    cases l with
    | nil =>
      rw [hl] at hb
      exact absurd hb (lt_irrefl 1)
    | cons b l =>
      rw [hl] at hc hz
      have hab : b.physAddr.toNat = a.physAddr.toNat + a.size.toNat := (List.isChain_cons_cons.mp hc).1
      rw [meetsEnd_cons, meetsEnd_cons, mergedRange_start]
      refine Or.inr (Or.inl ⟨hz a (List.mem_cons_self ..), ?_⟩)
      apply UInt32.toNat_inj.mp
      have hlt := b.physAddr.toNat_lt
      rw [UInt32.toNat_add, ← hab]
      omega

end

/-- A section of `size` bytes at `addr`, with the data at `ptr`. -/
def sampleSection (name : List UInt8) (addr size ptr : UInt32) : CoffSection where
  name := name
  physAddr := addr
  size := size
  sectionPtr := ptr

/-- A text section, a data section and a `.bss` section. -/
def sampleFile : CoffFile where
  bytes := [1, 2, 3, 4, 5]
  sections := [sampleSection textName 0 2 0, sampleSection dataName 128 3 2, sampleSection bssName 256 16 0]
  length_lt := by decide

/-- A `.bss` section, and a `.sbss` section behind it. -/
def contiguousFile : CoffFile where
  bytes := []
  sections := [sampleSection bssName 256 16 0, sampleSection sbssName 272 8 0]
  length_lt := by decide

/-- A header with nothing in it. -/
def zeroHeader : NoffHeader where
  code := { virtualAddr := 0, inFileAddr := 0, size := 0 }
  initData := { virtualAddr := 0, inFileAddr := 0, size := 0 }
  uninitData := { virtualAddr := 0, inFileAddr := 0, size := 0 }

end Nachos.Bin
