import Mathlib.Data.List.TakeWhile
import Nachos.Userland.Shell

/-!
# Proofs about the arguments of a command

The loop goes over what is left of the line. At the first space of a run it writes a zero and skips the run;
the word behind it is an argument. At the end of the line there is no word, and the loop goes on behind the
terminator. At its beginning the first word is an argument too.
-/

namespace Nachos.Userland

variable {w t l : List UInt8} {c : UInt8}

/-! ## Words -/

theorem words_nil : words [] = [] := rfl

/-- A word, a space and more words. -/
theorem words_append_space (hw : argSeparator ∉ w) :
    words (w ++ argSeparator :: t) = if w = [] then words t else w :: words t := by
  unfold words
  rw [List.splitOn_append_cons_self_of_not_mem hw, List.filter_cons]
  by_cases h : w = [] <;> simp [h]

theorem words_space : words (argSeparator :: t) = words t := by
  have h := words_append_space (t := t) (List.not_mem_nil (a := argSeparator))
  rwa [List.nil_append, if_pos rfl] at h

theorem words_spaces (hl : ∀ x ∈ l, x = argSeparator) : words (l ++ t) = words t := by
  induction l with
  | nil => rfl
  | cons x l ih =>
    rw [hl x (List.mem_cons_self ..), List.cons_append, words_space]
    exact ih fun y hy => hl y (List.mem_cons_of_mem x hy)

/-- One word. -/
theorem words_word (hw : argSeparator ∉ w) (hne : w ≠ []) : words w = [w] := by
  unfold words
  rw [List.splitOn_eq_singleton hw]
  simp [hne]

/-- The words of what follows a byte of a word: those behind the next space. -/
def laterWords (t : List UInt8) : List (List UInt8) := words (t.dropWhile (· ≠ argSeparator))

theorem not_mem_takeWhile (t : List UInt8) : argSeparator ∉ t.takeWhile (· ≠ argSeparator) := by
  intro h
  have hne := List.mem_takeWhile_imp h
  exact of_decide_eq_true hne rfl

/-- The first word goes up to the next space. -/
theorem words_cons (hc : c ≠ argSeparator) :
    words (c :: t) = (c :: t.takeWhile (· ≠ argSeparator)) :: laterWords t := by
  have hw : argSeparator ∉ c :: t.takeWhile (· ≠ argSeparator) := by
    rw [List.mem_cons]
    rintro (h | h)
    · exact hc h.symm
    · exact not_mem_takeWhile t h
  have ht : c :: t = c :: t.takeWhile (· ≠ argSeparator) ++ t.dropWhile (· ≠ argSeparator) := by
    rw [List.cons_append, List.takeWhile_append_dropWhile]
  rw [ht]
  unfold laterWords
  cases hd : t.dropWhile (· ≠ argSeparator) with
  | nil => rw [List.append_nil, words_word hw (List.cons_ne_nil _ _), words_nil]
  | cons d r =>
    have hsep : d = argSeparator := by
      have h := List.head?_dropWhile_not (fun x => decide (x ≠ argSeparator)) t
      rw [hd] at h
      simpa using h
    rw [hsep, words_append_space hw, if_neg (List.cons_ne_nil _ _), words_space]

theorem laterWords_cons (hc : c ≠ argSeparator) : laterWords (c :: t) = laterWords t := by
  unfold laterWords
  rw [List.dropWhile_cons_of_pos (by simp [hc])]

theorem laterWords_space : laterWords (argSeparator :: t) = words t := by
  unfold laterWords
  rw [List.dropWhile_cons_of_neg (by simp), words_space]

/-! ## Reading the line -/

variable {fuel argvSize : Nat} {s s1 : Splitting} {p tail post rest : List UInt8} {x d : UInt8}

theorem read_at (hline : s.line = p ++ c :: rest) (hi : s.i = p.length) : s.line[s.i]? = some c := by
  rw [hline, hi, List.getElem?_append_right (Nat.le_refl _), Nat.sub_self]
  rfl

theorem read_next (hline : s.line = p ++ x :: c :: rest) (hi : s.i = p.length) :
    s.line[s.i + 1]? = some c := by
  have hone : p.length + 1 - p.length = 1 := Nat.add_sub_cancel_left ..
  rw [hline, hi, List.getElem?_append_right (Nat.le_add_right _ _), hone]
  rfl

/-- The next byte has been read. -/
def Splitting.readNext (s : Splitting) : Splitting := { s with i := s.i + 1, reads := s.reads ++ [s.i + 1] }

theorem skipSeparators_succ (h : s.line[s.i + 1]? = some c) :
    skipSeparators (fuel + 1) s = if c = argSeparator then skipSeparators fuel s.readNext else some s.readNext := by
  show Option.bind s.line[s.i + 1]? _ = _
  rw [h]
  rfl

/-- The skip ends at the first byte that is no space. -/
theorem skipSeparators_eq (hl : ∀ y ∈ l, y = argSeparator) (hd : d ≠ argSeparator) (hfuel : l.length < fuel)
    (hline : s.line = p ++ x :: (l ++ d :: rest)) (hi : s.i = p.length) :
    ∃ reads, skipSeparators fuel s =
        some { s with i := p.length + 1 + l.length, reads := s.reads ++ reads } ∧
      ∀ r ∈ reads, r ≤ p.length + 1 + l.length := by
  induction l generalizing p x s fuel with
  | nil =>
    obtain ⟨fuel, rfl⟩ := Nat.exists_eq_add_one_of_ne_zero (Nat.ne_of_gt hfuel)
    rw [skipSeparators_succ (read_next hline hi), if_neg hd]
    refine ⟨[s.i + 1], ?_, ?_⟩
    · unfold Splitting.readNext
      rw [hi]
      rfl
    · intro r hr
      rw [List.mem_singleton.mp hr, hi]
      exact Nat.le_refl _
  | cons y l ih =>
    obtain ⟨fuel, rfl⟩ := Nat.exists_eq_add_one_of_ne_zero (Nat.ne_of_gt (Nat.zero_lt_of_lt hfuel))
    have hy : y = argSeparator := hl y (List.mem_cons_self ..)
    rw [skipSeparators_succ (read_next hline hi), if_pos hy]
    have hrest := ih (fun z hz => hl z (List.mem_cons_of_mem y hz)) (Nat.lt_of_succ_lt_succ hfuel)
      (s := s.readNext) (p := p ++ [x]) (x := y)
      (by rw [List.append_assoc]; exact hline)
      (by rw [List.length_append]; exact congrArg (· + 1) hi)
    obtain ⟨reads, heq, hle⟩ := hrest
    have hlen : (p ++ [x]).length + 1 + l.length = p.length + 1 + (y :: l).length := by
      rw [List.length_append, List.length_singleton, List.length_cons]
      omega
    rw [hlen] at heq hle
    refine ⟨(s.i + 1) :: reads, ?_, ?_⟩
    · rw [heq]
      unfold Splitting.readNext
      rw [List.append_assoc]
      rfl
    · intro r hr
      rcases List.mem_cons.mp hr with h | h
      · rw [h, hi]
        exact Nat.le_add_right _ _
      · exact hle r h

/-! ## A round of the loop -/

theorem splitLoop_end (h : s.line[s.i]? = some 0) :
    splitLoop argvSize (fuel + 1) s =
      some (0, { s.noteRead with argv := s.argv.set s.argCount none }) := by
  show Option.bind s.line[s.i]? _ = _
  rw [h]
  rfl

theorem splitLoop_byte (h : s.line[s.i]? = some c) (h0 : c ≠ 0) (hc : c ≠ argSeparator) :
    splitLoop argvSize (fuel + 1) s = splitLoop argvSize fuel { s.noteRead with i := s.i + 1 } := by
  show Option.bind s.line[s.i]? _ = _
  rw [h]
  show (if c = 0 then _ else if c = argSeparator then _ else _) = _
  rw [if_neg h0, if_neg hc]
  rfl

/-- At a space a zero is written and the run is skipped. -/
theorem splitLoop_space (h : s.line[s.i]? = some argSeparator) (hcount : s.argCount ≠ argvSize - 1)
    (hskip : skipSeparators fuel { s.noteRead with line := s.line.set s.i 0 } = some s1)
    (hd : s1.line[s1.i]? = some d) :
    splitLoop argvSize (fuel + 1) s =
      splitLoop argvSize fuel { s1.noteRead.addArgument d with i := (s1.noteRead.addArgument d).i + 1 } := by
  show Option.bind s.line[s.i]? _ = _
  rw [h]
  show (if s.argCount = argvSize - 1 then _ else Option.bind (skipSeparators fuel _) _) = _
  rw [if_neg hcount]
  show Option.bind (skipSeparators fuel { s.noteRead with line := s.line.set s.i 0 }) _ = _
  rw [hskip]
  show Option.bind s1.line[s1.i]? _ = _
  rw [hd]
  rfl

/-- A round at a run of spaces: the next one starts behind the first byte `d` after the run. -/
theorem splitLoop_spaces (hline : s.line = p ++ argSeparator :: (l ++ d :: rest)) (hi : s.i = p.length)
    (hl : ∀ y ∈ l, y = argSeparator) (hd : d ≠ argSeparator) (hcount : s.argCount ≠ argvSize - 1)
    (hfuel : l.length < fuel) :
    ∃ reads, (∀ r ∈ reads, r ≤ p.length + 1 + l.length) ∧
      splitLoop argvSize (fuel + 1) s = splitLoop argvSize fuel
        { Splitting.addArgument
            { s with
              line := p ++ 0 :: (l ++ d :: rest)
              i := p.length + 1 + l.length
              reads := s.reads ++ reads } d with
          i := p.length + 1 + l.length + 1 } := by
  have hset : s.line.set s.i 0 = p ++ 0 :: (l ++ d :: rest) := by
    rw [hline, hi, List.set_append_right _ _ (Nat.le_refl _), Nat.sub_self, List.set_cons_zero]
  obtain ⟨reads, hskip, hle⟩ := skipSeparators_eq
    (s := { s.noteRead with line := s.line.set s.i 0 }) hl hd hfuel hset hi
  have hread : (p ++ 0 :: (l ++ d :: rest))[p.length + 1 + l.length]? = some d := by
    have hassoc : p ++ 0 :: (l ++ d :: rest) = (p ++ 0 :: l) ++ d :: rest := by simp
    have hlen : p.length + 1 + l.length = (p ++ 0 :: l).length := by
      rw [List.length_append, List.length_cons]
      omega
    rw [hassoc, hlen, List.getElem?_append_right (Nat.le_refl _), Nat.sub_self]
    rfl
  have hloop := splitLoop_space (read_at hline hi) hcount hskip (d := d) (by
    show (s.line.set s.i 0)[p.length + 1 + l.length]? = some d
    rw [hset]
    exact hread)
  refine ⟨s.i :: reads ++ [p.length + 1 + l.length], ?_, ?_⟩
  · intro r hr
    rcases List.mem_append.mp hr with h | h
    · rcases List.mem_cons.mp h with h | h
      · rw [h, hi]
        omega
      · exact hle r h
    · rw [List.mem_singleton.mp h]
  · rw [hloop]
    unfold Splitting.addArgument Splitting.noteRead
    by_cases h0 : d ≠ 0
    · rw [if_pos h0, if_pos h0, hset]
      simp
    · rw [if_neg h0, if_neg h0, hset]
      simp

/-- A run of spaces, and what follows it. -/
theorem spaces_then (t : List UInt8) :
    ∃ l r, t = l ++ r ∧ (∀ y ∈ l, y = argSeparator) ∧ r.head? ≠ some argSeparator := by
  induction t with
  | nil => exact ⟨[], [], rfl, by simp, by simp⟩
  | cons c t ih =>
    by_cases hc : c = argSeparator
    · obtain ⟨l, r, rfl, hl, hr⟩ := ih
      refine ⟨c :: l, r, rfl, ?_, hr⟩
      intro y hy
      rcases List.mem_cons.mp hy with h | h
      · exact h.trans hc
      · exact hl y h
    · refine ⟨[], c :: t, rfl, by simp, ?_⟩
      intro h
      exact hc (Option.some.inj h)

/-! ## A line that does not end with a space -/

/-- What the loop does from a byte of a word on: the word gets its terminator, and the words behind it are
arguments. -/
structure SplitFrom (s s' : Splitting) (p tail : List UInt8) : Prop where
  line : ∃ more, s'.line = p ++ (tail.takeWhile (· ≠ argSeparator) ++ 0 :: more)
  argv : ∃ starts more, s'.argv = s.argv.take s.argCount ++ (List.map some starts ++ none :: more) ∧
    List.Forall₂ (IsString s'.line) starts (laterWords tail)
  reads : ∀ r ∈ s'.reads, r ∈ s.reads ∨ r ≤ p.length + tail.length

theorem SplitFrom.end (hline : s.line = p ++ 0 :: post) (hi : s.i = p.length)
    (hargv : s.argCount < s.argv.length) :
    SplitFrom s { s.noteRead with argv := s.argv.set s.argCount none } p [] := by
  refine ⟨⟨post, hline⟩, ⟨[], s.argv.drop (s.argCount + 1), ?_, List.Forall₂.nil⟩, ?_⟩
  · show s.argv.set s.argCount none = _
    rw [List.set_eq_take_append_cons_drop, if_pos hargv]
    rfl
  · intro r hr
    rcases List.mem_append.mp hr with h | h
    · exact Or.inl h
    · right
      rw [List.mem_singleton.mp h, hi]
      exact Nat.le_add_right _ _

theorem SplitFrom.byte {s' : Splitting} (hi : s.i = p.length) (hc : c ≠ argSeparator)
    (h : SplitFrom { s.noteRead with i := s.i + 1 } s' (p ++ [c]) t) : SplitFrom s s' p (c :: t) := by
  obtain ⟨⟨more, hm⟩, hargv, hreads⟩ := h
  refine ⟨⟨more, ?_⟩, ?_, ?_⟩
  · rw [hm, List.takeWhile_cons_of_pos (by simp [hc])]
    simp
  · rw [laterWords_cons hc]
    exact hargv
  · intro r hr
    have hlen : (p ++ [c]).length + t.length = p.length + (c :: t).length := by
      rw [List.length_append, List.length_singleton, List.length_cons]
      omega
    rcases hreads r hr with h | h
    · rcases List.mem_append.mp h with h | h
      · exact Or.inl h
      · right
        rw [List.mem_singleton.mp h, hi]
        exact Nat.le_add_right _ _
    · right
      rw [← hlen]
      exact h

/-- The state behind a run of spaces and the first byte of a word. -/
def Splitting.afterSpaces (s : Splitting) (p l : List UInt8) (d : UInt8) (rest : List UInt8) (reads : List Nat) :
    Splitting :=
  { s with
    line := p ++ 0 :: (l ++ d :: rest)
    argv := s.argv.set s.argCount (some (p.length + 1 + l.length))
    argCount := s.argCount + 1
    i := p.length + 1 + l.length + 1
    reads := s.reads ++ reads }

theorem SplitFrom.spaces {s' : Splitting} {reads : List Nat} (hl : ∀ y ∈ l, y = argSeparator)
    (hd : d ≠ argSeparator) (hargv : s.argCount < s.argv.length)
    (hreads : ∀ r ∈ reads, r ≤ p.length + 1 + l.length)
    (h : SplitFrom (s.afterSpaces p l d rest reads) s' (p ++ 0 :: (l ++ [d])) t) :
    SplitFrom s s' p (argSeparator :: (l ++ d :: t)) := by
  obtain ⟨⟨more, hm⟩, ⟨starts, after, ha, hs⟩, hr⟩ := h
  have hassoc : s'.line = (p ++ 0 :: l) ++ ((d :: t.takeWhile (· ≠ argSeparator)) ++ 0 :: more) := by
    rw [hm]
    simp
  refine ⟨⟨l ++ d :: (t.takeWhile (· ≠ argSeparator) ++ 0 :: more), ?_⟩,
    ⟨(p.length + 1 + l.length) :: starts, after, ?_, ?_⟩, ?_⟩
  · rw [hm, List.takeWhile_cons_of_neg (by simp)]
    simp
  · rw [ha]
    have htake : (s.argv.set s.argCount (some (p.length + 1 + l.length))).take (s.argCount + 1) =
        s.argv.take s.argCount ++ [some (p.length + 1 + l.length)] := by
      rw [List.set_eq_take_append_cons_drop, if_pos hargv, List.take_append, List.take_take,
        List.length_take, Nat.min_eq_left (Nat.le_of_lt hargv), Nat.add_sub_cancel_left,
        Nat.min_eq_right (Nat.le_succ _)]
      rfl
    show (s.argv.set s.argCount (some (p.length + 1 + l.length))).take (s.argCount + 1) ++ _ = _
    rw [htake]
    simp
  · rw [laterWords_space, words_spaces hl, words_cons hd]
    refine List.Forall₂.cons ⟨more, ?_⟩ hs
    have hlen : p.length + 1 + l.length = (p ++ 0 :: l).length := by
      rw [List.length_append, List.length_cons]
      omega
    rw [hassoc, hlen, List.drop_left]
  · intro r hr'
    have hlen : (p ++ 0 :: (l ++ [d])).length + t.length =
        p.length + (argSeparator :: (l ++ d :: t)).length := by
      simp only [List.length_append, List.length_cons, List.length_nil]
      omega
    rcases hr r hr' with h | h
    · rcases List.mem_append.mp h with h | h
      · exact Or.inl h
      · right
        have hle := hreads r h
        rw [← hlen]
        simp only [List.length_append, List.length_cons, List.length_nil]
        omega
    · right
      rw [← hlen]
      exact h

theorem getLast?_of_spaces (hl : ∀ y ∈ l, y = argSeparator) (hne : l ≠ []) :
    l.getLast? = some argSeparator := by
  rw [List.getLast?_eq_some_getLast hne]
  exact congrArg some (hl _ (List.getLast_mem hne))

theorem getLast?_of_append (h : (l ++ t).getLast? ≠ some c) : t.getLast? ≠ some c := by
  intro ht
  apply h
  rw [List.getLast?_append, ht]
  rfl

theorem getLast?_behind (h : (l ++ d :: t).getLast? = some x) (hd : d ≠ x) : t.getLast? = some x := by
  have hassoc : l ++ d :: t = (l ++ [d]) ++ t := by rw [List.append_assoc, List.singleton_append]
  rw [hassoc, List.getLast?_append, List.getLast?_concat] at h
  cases ht : t.getLast? with
  | none =>
    rw [ht] at h
    exact absurd (Option.some.inj h) hd
  | some y =>
    rw [ht] at h
    exact h

/-- The state behind the first byte of an argument. -/
theorem splitLoop_argument (hline : s.line = p ++ argSeparator :: (l ++ d :: rest)) (hi : s.i = p.length)
    (hl : ∀ y ∈ l, y = argSeparator) (hd : d ≠ argSeparator) (hd0 : d ≠ 0)
    (hcount : s.argCount ≠ argvSize - 1) (hfuel : l.length < fuel) :
    ∃ reads, (∀ r ∈ reads, r ≤ p.length + 1 + l.length) ∧
      splitLoop argvSize (fuel + 1) s = splitLoop argvSize fuel (s.afterSpaces p l d rest reads) := by
  obtain ⟨reads, hreads, hloop⟩ := splitLoop_spaces hline hi hl hd hcount hfuel
  have hadd (a : Splitting) : a.addArgument d =
      { a with argv := a.argv.set a.argCount (some a.i), argCount := a.argCount + 1 } := if_pos hd0
  rw [hadd] at hloop
  exact ⟨reads, hreads, hloop⟩

/-- The loop on a line that does not end with a space. -/
theorem splitLoop_ok (hline : s.line = p ++ (t ++ 0 :: post)) (hi : s.i = p.length) (h0 : 0 ∉ t)
    (hlast : t.getLast? ≠ some argSeparator) (hfuel : t.length < fuel)
    (hcount : 2 * s.argCount + t.length < 2 * (argvSize - 1)) (hargv : s.argv.length = argvSize) :
    ∃ s', splitLoop argvSize fuel s = some (0, s') ∧ SplitFrom s s' p t := by
  induction fuel generalizing s p t with
  | zero => nomatch hfuel
  | succ fuel ih =>
    have hlt : s.argCount < s.argv.length := by omega
    cases t with
    | nil => exact ⟨_, splitLoop_end (read_at hline hi), SplitFrom.end hline hi hlt⟩
    | cons c u =>
      rw [List.mem_cons, not_or] at h0
      obtain ⟨hc0, hu0⟩ := h0
      by_cases hc : c = argSeparator
      · obtain ⟨l, r, rfl, hl, hr⟩ := spaces_then u
        cases r with
        | nil =>
          rw [List.append_nil] at hlast
          refine absurd (getLast?_of_spaces ?_ (List.cons_ne_nil c l)) hlast
          intro y hy
          rcases List.mem_cons.mp hy with h | h
          · exact h.trans hc
          · exact hl y h
        | cons d v =>
          have hd : d ≠ argSeparator := fun h => hr (by rw [h]; rfl)
          have hd0 : d ≠ 0 := fun h => hu0 (by rw [h]; simp)
          have hlen : (p ++ 0 :: (l ++ [d])).length = p.length + 1 + l.length + 1 := by
            simp only [List.length_append, List.length_cons, List.length_nil]
            omega
          have hlast' : v.getLast? ≠ some argSeparator := by
            apply getLast?_of_append (l := c :: (l ++ [d]))
            simpa using hlast
          simp only [List.length_cons, List.length_append] at hfuel hcount
          have hline' : s.line = p ++ argSeparator :: (l ++ d :: (v ++ 0 :: post)) := by
            rw [hline, hc]
            simp
          obtain ⟨reads, hreads, hloop⟩ := splitLoop_argument hline' hi hl hd hd0
            (show s.argCount ≠ argvSize - 1 by omega) (show l.length < fuel by omega)
          have hnext := ih (s := s.afterSpaces p l d (v ++ 0 :: post) reads) (p := p ++ 0 :: (l ++ [d]))
            (t := v) (by simp [Splitting.afterSpaces]) hlen.symm (fun h => hu0 (by simp [h])) hlast' (by omega)
            (by simp only [Splitting.afterSpaces]; omega)
            (by simp only [Splitting.afterSpaces, List.length_set]; exact hargv)
          obtain ⟨s', hs', hsplit⟩ := hnext
          rw [hc]
          exact ⟨s', hloop.trans hs', hsplit.spaces hl hd hlt hreads⟩
      · have hline' : s.line = p ++ [c] ++ (u ++ 0 :: post) := by
          rw [hline, List.append_assoc]
          rfl
        have hi' : s.i + 1 = (p ++ [c]).length := by
          rw [List.length_append, hi]
          rfl
        rw [splitLoop_byte (read_at hline hi) (Ne.symm hc0) hc]
        rw [List.length_cons] at hfuel hcount
        obtain ⟨s', hs', hsplit⟩ := ih (s := { s.noteRead with i := s.i + 1 }) hline' hi' hu0
          (getLast?_of_append (l := [c]) hlast) (by omega) (by show 2 * s.argCount + _ < _; omega) hargv
        exact ⟨s', hs', hsplit.byte hi hc⟩

/-! ## A line that ends with a space -/

theorem skipSeparators_reads {s' : Splitting} {r : Nat} (h : skipSeparators fuel s = some s')
    (hr : r ∈ s.reads) : r ∈ s'.reads := by
  induction fuel generalizing s with
  | zero => nomatch h
  | succ fuel ih =>
    cases hc : s.line[s.i + 1]? with
    | none =>
      change Option.bind s.line[s.i + 1]? _ = _ at h
      rw [hc] at h
      nomatch h
    | some c =>
      have hnext : r ∈ s.readNext.reads := List.mem_append_left _ hr
      rw [skipSeparators_succ hc] at h
      by_cases hsep : c = argSeparator
      · rw [if_pos hsep] at h
        exact ih h hnext
      · rw [if_neg hsep] at h
        rw [← Option.some.inj h]
        exact hnext

theorem addArgument_reads (s : Splitting) (c : UInt8) : (s.addArgument c).reads = s.reads := by
  unfold Splitting.addArgument
  by_cases h : c ≠ 0
  · rw [if_pos h]
  · rw [if_neg h]

/-- The loop does not forget what has been read, and it reads the current byte. -/
theorem splitLoop_reads {v r : Nat} {s' : Splitting} (h : splitLoop argvSize fuel s = some (v, s'))
    (hr : r = s.i ∨ r ∈ s.reads) : r ∈ s'.reads := by
  induction fuel generalizing s with
  | zero => nomatch h
  | succ fuel ih =>
    have hnote : r ∈ s.noteRead.reads := by
      rcases hr with h | h
      · exact List.mem_append_right _ (List.mem_singleton.mpr h)
      · exact List.mem_append_left _ h
    change Option.bind s.line[s.i]? _ = _ at h
    cases hc : s.line[s.i]? with
    | none =>
      rw [hc] at h
      nomatch h
    | some c =>
      rw [hc] at h
      change (if c = 0 then _ else if c = argSeparator then _ else _) = _ at h
      by_cases h0 : c = 0
      · rw [if_pos h0] at h
        rw [← (Prod.mk.inj (Option.some.inj h)).2]
        exact hnote
      rw [if_neg h0] at h
      by_cases hsep : c = argSeparator
      · rw [if_pos hsep] at h
        change (if s.argCount = argvSize - 1 then _ else Option.bind (skipSeparators fuel _) _) = _ at h
        by_cases hcount : s.argCount = argvSize - 1
        · rw [if_pos hcount] at h
          rw [← (Prod.mk.inj (Option.some.inj h)).2]
          exact hnote
        rw [if_neg hcount] at h
        obtain ⟨s1, hskip, h⟩ := Option.bind_eq_some_iff.mp h
        obtain ⟨d, -, h⟩ := Option.bind_eq_some_iff.mp h
        refine ih h (Or.inr ?_)
        show r ∈ (s1.noteRead.addArgument d).reads
        rw [addArgument_reads]
        exact List.mem_append_left _ (skipSeparators_reads hskip hnote)
      · rw [if_neg hsep] at h
        exact ih h (Or.inr hnote)

/-- The loop on a line that ends with a space reads behind the terminator. -/
theorem splitLoop_over {v : Nat} {s' : Splitting} (hline : s.line = p ++ (t ++ 0 :: post))
    (hi : s.i = p.length) (h0 : 0 ∉ t) (hlast : t.getLast? = some argSeparator)
    (hcount : 2 * s.argCount + t.length < 2 * (argvSize - 1)) (hfuel : t.length < fuel)
    (h : splitLoop argvSize fuel s = some (v, s')) : p.length + t.length + 1 ∈ s'.reads := by
  induction fuel generalizing s p t with
  | zero => nomatch h
  | succ fuel ih =>
    cases t with
    | nil => nomatch hlast
    | cons c u =>
      rw [List.mem_cons, not_or] at h0
      obtain ⟨hc0, hu0⟩ := h0
      by_cases hc : c = argSeparator
      · obtain ⟨l, r, rfl, hl, hr⟩ := spaces_then u
        simp only [List.length_cons, List.length_append] at hfuel hcount
        have hlt : s.argCount ≠ argvSize - 1 := by omega
        have hf : l.length < fuel := by omega
        cases r with
        | nil =>
          have hline' : s.line = p ++ argSeparator :: (l ++ 0 :: post) := by
            rw [hline, hc]
            simp
          obtain ⟨reads, -, hloop⟩ := splitLoop_spaces hline' hi hl (by decide) hlt hf
          rw [hloop] at h
          refine splitLoop_reads h (Or.inl ?_)
          simp only [List.append_nil, List.length_cons]
          omega
        | cons d v =>
          have hd : d ≠ argSeparator := fun h => hr (by rw [h]; rfl)
          have hd0 : d ≠ 0 := fun h => hu0 (by rw [h]; simp)
          have hlen : (p ++ 0 :: (l ++ [d])).length = p.length + 1 + l.length + 1 := by
            simp only [List.length_append, List.length_cons, List.length_nil]
            omega
          have hlast' : v.getLast? = some argSeparator := by
            apply getLast?_behind (l := c :: l) (d := d) _ hd
            rw [← hlast]
            simp
          have hline' : s.line = p ++ argSeparator :: (l ++ d :: (v ++ 0 :: post)) := by
            rw [hline, hc]
            simp
          obtain ⟨reads, -, hloop⟩ := splitLoop_argument hline' hi hl hd hd0 hlt hf
          rw [hloop] at h
          simp only [List.length_cons] at hfuel hcount
          have hnext := ih (p := p ++ 0 :: (l ++ [d])) (t := v) (by simp [Splitting.afterSpaces]) hlen.symm
            (fun h => hu0 (by simp [h])) hlast' (by simp only [Splitting.afterSpaces]; omega) (by omega) h
          have hsum : (p ++ 0 :: (l ++ [d])).length + v.length + 1 = p.length + (c :: (l ++ d :: v)).length + 1 := by
            simp only [List.length_append, List.length_cons, List.length_nil]
            omega
          rwa [hsum] at hnext
      · have hline' : s.line = p ++ [c] ++ (u ++ 0 :: post) := by
          rw [hline, List.append_assoc]
          rfl
        have hi' : s.i + 1 = (p ++ [c]).length := by
          rw [List.length_append, hi]
          rfl
        have hlast' : u.getLast? = some argSeparator := getLast?_behind (l := []) hlast hc
        rw [splitLoop_byte (read_at hline hi) (Ne.symm hc0) hc] at h
        rw [List.length_cons] at hfuel hcount
        have hnext := ih (s := { s.noteRead with i := s.i + 1 }) hline' hi' hu0 hlast' (by show 2 * s.argCount + _ < _; omega) (by omega) h
        have hsum : (p ++ [c]).length + u.length + 1 = p.length + (c :: u).length + 1 := by
          rw [List.length_append, List.length_singleton, List.length_cons]
          omega
        rwa [hsum] at hnext

/-! ## The arguments -/

variable {line : List UInt8} {argv : List (Option Nat)}

theorem count_lt (hlen : line.length < maxLineSize) : 2 * 0 + line.length < 2 * (maxArgCount - 1) := by
  unfold maxLineSize at hlen
  unfold maxArgCount
  omega

/-- What `prepareArguments` does on a line that does not end with a space. -/
theorem prepareArguments_ok (rest : List UInt8) (hargv : argv.length = maxArgCount) (h0 : 0 ∉ line)
    (hlen : line.length < maxLineSize) (hlast : line.getLast? ≠ some argSeparator) :
    ∃ s, prepareArguments (line ++ 0 :: rest) argv maxArgCount = some (0, s) ∧
      (∀ r ∈ s.reads, r ≤ line.length) ∧ HoldsArguments s (laterWords line) := by
  have hfuel : line.length < (line ++ 0 :: rest).length := by simp
  obtain ⟨s, hs, hsplit⟩ := splitLoop_ok (p := []) (t := line)
    (s := { line := line ++ 0 :: rest, argv := argv, argCount := 0, i := 0, reads := [] }) rfl rfl h0 hlast
    hfuel (count_lt hlen) hargv
  refine ⟨s, hs, ?_, hsplit.argv⟩
  intro r hr
  rcases hsplit.reads r hr with h | h
  · nomatch h
  · rwa [List.length_nil, Nat.zero_add] at h

/-- On a line that ends with a space `prepareArguments` reads behind the terminator. -/
theorem prepareArguments_over {v : Nat} (h0 : 0 ∉ line) (hlen : line.length < maxLineSize)
    (hlast : line.getLast? = some argSeparator)
    (h : prepareArguments (line ++ 0 :: rest) argv maxArgCount = some (v, s)) : line.length + 1 ∈ s.reads := by
  have hover := splitLoop_over (p := []) (t := line)
    (s := { line := line ++ 0 :: rest, argv := argv, argCount := 0, i := 0, reads := [] }) rfl rfl h0 hlast
    (count_lt hlen) (by simp) h
  rwa [List.length_nil, Nat.zero_add] at hover

/-- The words behind the first byte of a line are its arguments, unless it begins with a space. -/
theorem laterWords_eq (hfirst : line.head? ≠ some argSeparator) : laterWords line = (words line).tail := by
  cases line with
  | nil => rfl
  | cons c t =>
    have hc : c ≠ argSeparator := fun h => hfirst (congrArg some h)
    rw [laterWords_cons hc, words_cons hc, List.tail_cons]

theorem laterWords_of_space (hfirst : line.head? = some argSeparator) : laterWords line = words line := by
  cases line with
  | nil => nomatch hfirst
  | cons c t => rw [Option.some.inj hfirst, laterWords_space, words_space]

/-- A line that does not end with a space has a word. -/
theorem words_ne_nil (hne : line ≠ []) (hlast : line.getLast? ≠ some argSeparator) : words line ≠ [] := by
  obtain ⟨l, r, rfl, hl, hr⟩ := spaces_then line
  cases r with
  | nil =>
    rw [List.append_nil] at hlast hne
    exact absurd (getLast?_of_spaces hl hne) hlast
  | cons d t =>
    have hd : d ≠ argSeparator := fun h => hr (congrArg some h)
    rw [words_spaces hl, words_cons hd]
    exact List.cons_ne_nil _ _

/-- The number of arguments in an array is determined. -/
theorem HoldsArguments.length_unique {us ws : List (List UInt8)} (hu : HoldsArguments s us)
    (hw : HoldsArguments s ws) : us.length = ws.length := by
  obtain ⟨ps, more, hp, hps⟩ := hu
  obtain ⟨qs, more', hq, hqs⟩ := hw
  have hlen (ps : List Nat) (more : List (Option Nat)) :
      (List.map some ps ++ none :: more).findIdx (· == none) = ps.length := by
    induction ps with
    | nil => rfl
    | cons p ps ih =>
      rw [List.map_cons, List.cons_append, List.findIdx_cons, ih]
      rfl
  rw [← hps.length_eq, ← hqs.length_eq, ← hlen ps more, ← hlen qs more', ← hp, ← hq]

/-- `PrepareArguments` splits a line exactly if the line neither begins nor ends with a space. -/
theorem splitsArguments_iff (line rest : List UInt8) (argv : List (Option Nat))
    (hargv : argv.length = maxArgCount) (h0 : 0 ∉ line) (hlen : line.length < maxLineSize) :
    SplitsArguments line rest argv ↔
      line.head? ≠ some argSeparator ∧ line.getLast? ≠ some argSeparator := by
  constructor
  · rintro ⟨v, s, hs, hreads, hresult⟩
    have hlast : line.getLast? ≠ some argSeparator := by
      intro hl
      have hle := hreads _ (prepareArguments_over h0 hlen hl hs)
      omega
    refine ⟨fun hfirst => ?_, hlast⟩
    obtain ⟨s', hs', -, hargs⟩ := prepareArguments_ok rest hargv h0 hlen hlast
    rw [hs] at hs'
    obtain ⟨rfl, rfl⟩ := Prod.mk.inj (Option.some.inj hs')
    rcases hresult with ⟨h, -⟩ | ⟨-, h⟩
    · nomatch h
    · have hn := hargs.length_unique h
      have hne : line ≠ [] := fun h => by rw [h] at hfirst; nomatch hfirst
      have hpos := List.length_pos_iff.mpr (words_ne_nil hne hlast)
      rw [laterWords_of_space hfirst, List.length_tail] at hn
      omega
  · rintro ⟨hfirst, hlast⟩
    obtain ⟨s, hs, hreads, hargs⟩ := prepareArguments_ok rest hargv h0 hlen hlast
    rw [laterWords_eq hfirst] at hargs
    exact ⟨0, s, hs, hreads, Or.inr ⟨rfl, hargs⟩⟩

/-- `cp a b` is split, with other bytes behind it. -/
theorem splitsArguments_iff_sample :
    SplitsArguments [99, 112, 32, 97, 32, 98] [32, 120, 0] (List.replicate maxArgCount none) :=
  (splitsArguments_iff _ _ _ List.length_replicate (by decide) (by decide)).mpr (by decide)

/-- In `ls ` the terminator is skipped, and what an earlier line has left behind it is read. -/
theorem trailing_space_overreads : 0 ∉ [108, 115, argSeparator] ∧
    [108, 115, argSeparator].length < maxLineSize ∧
    ¬ SplitsArguments [108, 115, argSeparator] ([97, 32, 98, 0] ++ List.replicate 52 0)
      (List.replicate maxArgCount none) := by
  refine ⟨by decide, by decide, ?_⟩
  rintro ⟨v, s, hs, hreads, -⟩
  have hover := hreads _ (prepareArguments_over (by decide) (by decide) rfl hs)
  exact absurd hover (by decide)

end Nachos.Userland
