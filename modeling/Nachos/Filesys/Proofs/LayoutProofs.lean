import Mathlib.Data.List.Nodup
import Nachos.Filesys.Layout

/-!
# Proofs: the layout of the disk

Chains, sectors and contents under changes of the disk. Each change that the file system makes (write
data, extend a header, append a header, make a file, remove a file) keeps the layout in order and
leaves the other files as they were.
-/

namespace Nachos.Filesys

open Foundations

/-! ## Chains -/

theorem Follows.congr {d d' : Disk} {s : Nat} {l : List Nat} (h : Follows d s l)
    (heq : ∀ x ∈ l, (hdrAt d' x).nextFileHeader = (hdrAt d x).nextFileHeader) : Follows d' s l := by
  induction l generalizing s with
  | nil => exact h
  | cons x l ih =>
    obtain ⟨hs, rfl, hf⟩ := h
    refine ⟨hs, rfl, ?_⟩
    rw [heq x (List.mem_cons_self ..)]
    exact ih hf fun y hy => heq y (List.mem_cons_of_mem x hy)

theorem Follows.unique {d : Disk} {s : Nat} {l l' : List Nat} (h : Follows d s l)
    (h' : Follows d s l') : l = l' := by
  induction l generalizing s l' with
  | nil =>
    cases l' with
    | nil => rfl
    | cons y l' => exact absurd h h'.1
  | cons x l ih =>
    cases l' with
    | nil => exact absurd h' h.1
    | cons y l' =>
      obtain ⟨-, rfl, hf⟩ := h
      obtain ⟨-, rfl, hf'⟩ := h'
      rw [ih hf hf']

/-- Appending a header: the next header of the last one becomes `new`. -/
theorem Follows.append {d d' : Disk} {s last new : Nat} {l : List Nat}
    (h : Follows d s (l ++ [last])) (hl : ∀ x ∈ l, hdrAt d' x = hdrAt d x)
    (hlast : (hdrAt d' last).nextFileHeader = new) (hne : new ≠ 0)
    (hnew : (hdrAt d' new).nextFileHeader = 0) : Follows d' s (l ++ [last, new]) := by
  induction l generalizing s with
  | nil =>
    obtain ⟨hs, rfl, -⟩ := h
    refine ⟨hs, rfl, ?_⟩
    rw [hlast]
    exact ⟨hne, rfl, hnew⟩
  | cons x l ih =>
    obtain ⟨hs, rfl, hf⟩ := h
    refine ⟨hs, rfl, ?_⟩
    rw [hl x (List.mem_cons_self ..)]
    exact ih hf fun y hy => hl y (List.mem_cons_of_mem x hy)

/-- The next header of a header inside a chain is the next one of the list. -/
theorem Follows.next_of_append {d : Disk} {s x : Nat} {pre post : List Nat}
    (h : Follows d s (pre ++ x :: post)) : Follows d (hdrAt d x).nextFileHeader post := by
  induction pre generalizing s with
  | nil =>
    obtain ⟨-, rfl, hf⟩ := h
    exact hf
  | cons y pre ih =>
    obtain ⟨-, -, hf⟩ := h
    exact ih hf

theorem Follows.ne_zero {d : Disk} {s : Nat} {l : List Nat} (h : Follows d s l) :
    ∀ x ∈ l, x ≠ 0 := by
  induction l generalizing s with
  | nil => simp
  | cons y l ih =>
    obtain ⟨hs, rfl, hf⟩ := h
    intro x hx
    rcases List.mem_cons.mp hx with rfl | hx
    · exact hs
    · exact ih hf x hx

theorem HeaderChain.unique {d : Disk} {s : Nat} {c c' : List Nat} (h : HeaderChain d s c)
    (h' : HeaderChain d s c') : c = c' := by
  obtain ⟨l, rfl, hf⟩ := h
  obtain ⟨l', rfl, hf'⟩ := h'
  rw [hf.unique hf']

theorem HeaderChain.congr {d d' : Disk} {s : Nat} {c : List Nat} (h : HeaderChain d s c)
    (heq : ∀ x ∈ c, (hdrAt d' x).nextFileHeader = (hdrAt d x).nextFileHeader) :
    HeaderChain d' s c := by
  obtain ⟨l, rfl, hf⟩ := h
  refine ⟨l, rfl, ?_⟩
  rw [heq s (List.mem_cons_self ..)]
  exact hf.congr fun x hx => heq x (List.mem_cons_of_mem s hx)

theorem HeaderChain.next_of_append {d : Disk} {s x : Nat} {c pre post : List Nat}
    (h : HeaderChain d s c) (hc : c = pre ++ x :: post) :
    Follows d (hdrAt d x).nextFileHeader post := by
  obtain ⟨l, rfl, hf⟩ := h
  cases pre with
  | nil =>
    obtain ⟨rfl, rfl⟩ := List.cons.inj hc
    exact hf
  | cons y pre =>
    obtain ⟨rfl, rfl⟩ := List.cons.inj hc
    exact hf.next_of_append

theorem HeaderChain.start_mem {d : Disk} {s : Nat} {c : List Nat} (h : HeaderChain d s c) : s ∈ c := by
  obtain ⟨l, rfl, -⟩ := h
  exact List.mem_cons_self ..

/-- Behind a header that is not the last one stands its next header. -/
theorem HeaderChain.append {d d' : Disk} {s last new : Nat} {c pre : List Nat}
    (h : HeaderChain d s c) (hc : c = pre ++ [last]) (hpre : ∀ x ∈ pre, hdrAt d' x = hdrAt d x)
    (hlast : (hdrAt d' last).nextFileHeader = new) (hne : new ≠ 0)
    (hnew : (hdrAt d' new).nextFileHeader = 0) : HeaderChain d' s (c ++ [new]) := by
  obtain ⟨l, rfl, hf⟩ := h
  cases pre with
  | nil =>
    obtain ⟨rfl, rfl⟩ := List.cons.inj hc
    refine ⟨[new], rfl, ?_⟩
    rw [hlast]
    exact ⟨hne, rfl, hnew⟩
  | cons y pre =>
    obtain ⟨rfl, rfl⟩ := List.cons.inj hc
    refine ⟨pre ++ [last, new], by simp, ?_⟩
    rw [hpre s (List.mem_cons_self ..)]
    exact hf.append (fun x hx => hpre x (List.mem_cons_of_mem s hx)) hlast hne hnew

/-! ## Sectors -/

theorem sectorsOf_append (d : Disk) (c c' : List Nat) :
    sectorsOf d (c ++ c') = sectorsOf d c ++ sectorsOf d c' := List.flatMap_append

theorem sectorsOf_cons (d : Disk) (x : Nat) (c : List Nat) :
    sectorsOf d (x :: c) = x :: (hdrAt d x).dataOf ++ sectorsOf d c := List.flatMap_cons

theorem sectorsOf_congr {d d' : Disk} {c : List Nat}
    (h : ∀ x ∈ c, (hdrAt d' x).dataOf = (hdrAt d x).dataOf) : sectorsOf d' c = sectorsOf d c := by
  unfold sectorsOf
  exact List.flatMap_congr fun x hx => by rw [h x hx]

theorem mem_sectorsOf_of_mem {d : Disk} {c : List Nat} {x : Nat} (h : x ∈ c) : x ∈ sectorsOf d c :=
  List.mem_flatMap.mpr ⟨x, h, List.mem_cons_self ..⟩

theorem mem_sectorsOf_of_data {d : Disk} {c : List Nat} {x y : Nat} (h : x ∈ c)
    (hy : y ∈ (hdrAt d x).dataOf) : y ∈ sectorsOf d c :=
  List.mem_flatMap.mpr ⟨x, h, List.mem_cons_of_mem x hy⟩

theorem sublist_sectorsOf (d : Disk) (c : List Nat) : c.Sublist (sectorsOf d c) := by
  induction c with
  | nil => exact List.Sublist.slnil
  | cons x c ih =>
    rw [sectorsOf_cons]
    exact List.Sublist.cons_cons x (ih.trans (List.sublist_append_right _ _))

theorem content_append (d : Disk) (c c' : List Nat) :
    content d (c ++ c') = content d c ++ content d c' := List.flatMap_append

theorem content_cons (d : Disk) (x : Nat) (c : List Nat) :
    content d (x :: c) = dataBytes d (hdrAt d x) ++ content d c := List.flatMap_cons

theorem dataBytes_congr {d d' : Disk} {h : RawFileHeader} (heq : ∀ x ∈ h.dataOf, d' x = d x) :
    dataBytes d' h = dataBytes d h := by
  unfold dataBytes
  rw [List.flatMap_congr fun x hx => by rw [heq x hx]]

theorem hdrAt_congr {d d' : Disk} {x : Nat} (h : d' x = d x) : hdrAt d' x = hdrAt d x := by
  unfold hdrAt
  rw [h]

/-- The content of a file depends on the sectors of the file only. -/
theorem content_congr {d d' : Disk} {c : List Nat} (h : ∀ x ∈ sectorsOf d c, d' x = d x) :
    content d' c = content d c := by
  unfold content
  apply List.flatMap_congr
  intro x hx
  rw [hdrAt_congr (h x (mem_sectorsOf_of_mem hx))]
  exact dataBytes_congr fun y hy => h y (mem_sectorsOf_of_data hx hy)

theorem length_flatMap_bytes (d : Disk) (l : List Nat) :
    (l.flatMap fun s => (d s).bytes).length = l.length * sectorSize := by
  induction l with
  | nil => simp
  | cons x l ih =>
    rw [List.flatMap_cons, List.length_append, ih, (d x).length_bytes, List.length_cons,
      Nat.succ_mul, Nat.add_comm]

theorem length_dataBytes {d : Disk} {h : RawFileHeader} (hok : h.Ok) :
    (dataBytes d h).length = h.numBytes := by
  have := le_divRoundUp_mul h.numBytes
  rw [← hok.numSectors_eq] at this
  rw [dataBytes, List.length_take, length_flatMap_bytes, hok.length_dataOf]
  omega

/-! ## Files -/

namespace FileOk

variable {d d' : Disk} {own own' : Nat → Option Nat} {s : Nat} {c : List Nat}

theorem own_start (h : FileOk d own s c) : own s = some s :=
  (h.own_iff s).mpr (mem_sectorsOf_of_mem h.chain.start_mem)

theorem own_of_mem (h : FileOk d own s c) {x : Nat} (hx : x ∈ c) : own x = some s :=
  (h.own_iff x).mpr (mem_sectorsOf_of_mem hx)

theorem own_of_data (h : FileOk d own s c) {x y : Nat} (hx : x ∈ c) (hy : y ∈ (hdrAt d x).dataOf) :
    own y = some s :=
  (h.own_iff y).mpr (mem_sectorsOf_of_data hx hy)

theorem unique (h : FileOk d own s c) {c' : List Nat} (h' : FileOk d own' s c') : c = c' :=
  h.chain.unique h'.chain

/-- The structure of a file depends on its header sectors only. -/
theorem congr (h : FileOk d own s c) (heq : ∀ x ∈ c, d' x = d x)
    (hown : ∀ x, own' x = some s ↔ own x = some s) : FileOk d' own' s c := by
  have hh : ∀ x ∈ c, hdrAt d' x = hdrAt d x := fun x hx => hdrAt_congr (heq x hx)
  have hs : sectorsOf d' c = sectorsOf d c := sectorsOf_congr fun x hx => by rw [hh x hx]
  refine ⟨h.chain.congr fun x hx => by rw [hh x hx], ?_, ?_, ?_⟩
  · intro x hx
    rw [hh x hx]
    exact h.ok x hx
  · rw [hs]
    exact h.nodup
  · intro x
    rw [hs, hown]
    exact h.own_iff x

/-- The headers of a file are distinct. -/
theorem nodup_headers (h : FileOk d own s c) : c.Nodup := (sublist_sectorsOf d c).nodup h.nodup

/-- A header sector is not a data sector. -/
theorem header_notMem_data (h : FileOk d own s c) {x y : Nat} (hx : x ∈ c) (hy : y ∈ c) :
    x ∉ (hdrAt d y).dataOf := by
  obtain ⟨pre, post, rfl⟩ := List.append_of_mem hy
  have hnd := h.nodup
  rw [sectorsOf_append, sectorsOf_cons] at hnd
  obtain ⟨-, hnd2, hdisj⟩ := List.nodup_append.mp hnd
  obtain ⟨hnd3, -, hdisj2⟩ := List.nodup_append.mp hnd2
  intro hmem
  rcases List.mem_append.mp hx with hx | hx
  · exact hdisj x (mem_sectorsOf_of_mem hx) x
      (List.mem_append_left _ (List.mem_cons_of_mem y hmem)) rfl
  · rcases List.mem_cons.mp hx with rfl | hx
    · exact (List.nodup_cons.mp hnd3).1 hmem
    · exact hdisj2 x (List.mem_cons_of_mem y hmem) x (mem_sectorsOf_of_mem hx) rfl

/-- The data sectors of a header are distinct. -/
theorem nodup_data (h : FileOk d own s c) {x : Nat} (hx : x ∈ c) : (hdrAt d x).dataOf.Nodup := by
  obtain ⟨pre, post, rfl⟩ := List.append_of_mem hx
  have hnd := h.nodup
  rw [sectorsOf_append, sectorsOf_cons] at hnd
  obtain ⟨-, hnd2, -⟩ := List.nodup_append.mp hnd
  exact (List.nodup_cons.mp (List.nodup_append.mp hnd2).1).2

/-- Two headers share no data sector. -/
theorem data_disjoint (h : FileOk d own s c) {x y z : Nat} (hx : x ∈ c) (hy : y ∈ c) (hne : x ≠ y)
    (hz : z ∈ (hdrAt d x).dataOf) : z ∉ (hdrAt d y).dataOf := by
  obtain ⟨pre, post, rfl⟩ := List.append_of_mem hy
  have hnd := h.nodup
  rw [sectorsOf_append, sectorsOf_cons] at hnd
  obtain ⟨-, hnd2, hdisj⟩ := List.nodup_append.mp hnd
  obtain ⟨-, -, hdisj2⟩ := List.nodup_append.mp hnd2
  intro hmem
  rcases List.mem_append.mp hx with hx | hx
  · exact hdisj z (mem_sectorsOf_of_data hx hz) z
      (List.mem_append_left _ (List.mem_cons_of_mem y hmem)) rfl
  · rcases List.mem_cons.mp hx with rfl | hx
    · exact hne rfl
    · exact hdisj2 z (List.mem_cons_of_mem y hmem) z (mem_sectorsOf_of_data hx hz) rfl

/-- Data written to data sectors of a file leaves the structure of the file as it was. -/
theorem writeData (h : FileOk d own s c)
    (hd : ∀ x, d' x ≠ d x → ∃ y ∈ c, x ∈ (hdrAt d y).dataOf) : FileOk d' own s c := by
  refine h.congr (fun x hx => ?_) fun x => Iff.rfl
  by_contra hne
  obtain ⟨y, hy, hmem⟩ := hd x hne
  exact h.header_notMem_data hx hy hmem

end FileOk

/-- The ownership map with the sectors `l` given to the file `s`. -/
def extendOwn (own : Nat → Option Nat) (l : List Nat) (s : Nat) : Nat → Option Nat :=
  fun x => if x ∈ l then some s else own x

theorem extendOwn_of_mem {own : Nat → Option Nat} {l : List Nat} {s x : Nat} (h : x ∈ l) :
    extendOwn own l s x = some s := if_pos h

theorem extendOwn_of_notMem {own : Nat → Option Nat} {l : List Nat} {s x : Nat} (h : x ∉ l) :
    extendOwn own l s x = own x := if_neg h

/-- Free sectors given to `s` do not change what another file owns. -/
theorem extendOwn_eq_iff {own : Nat → Option Nat} {l : List Nat} {s t : Nat}
    (hfree : ∀ y ∈ l, own y = none) (ht : t ≠ s) (x : Nat) :
    extendOwn own l s x = some t ↔ own x = some t := by
  by_cases hx : x ∈ l
  · rw [extendOwn_of_mem hx, hfree x hx]
    simp [ht.symm]
  · rw [extendOwn_of_notMem hx]

theorem extendOwn_self_iff {own : Nat → Option Nat} {l : List Nat} {s : Nat} (x : Nat) :
    extendOwn own l s x = some s ↔ own x = some s ∨ x ∈ l := by
  by_cases hx : x ∈ l
  · simp [extendOwn_of_mem hx, hx]
  · simp [extendOwn_of_notMem hx, hx]

namespace FileOk

variable {d d' : Disk} {own : Nat → Option Nat} {s : Nat} {c : List Nat}

/-- Given the sectors of the new chain as a permutation of the old ones and free sectors, the file
owns exactly the sectors of its new chain. -/
theorem of_perm {c' news : List Nat} (h : FileOk d own s c) (hchain : HeaderChain d' s c')
    (hok : ∀ x ∈ c', (hdrAt d' x).Ok) (hperm : (sectorsOf d' c').Perm (sectorsOf d c ++ news))
    (hnd : news.Nodup) (hfree : ∀ y ∈ news, own y = none) :
    FileOk d' (extendOwn own news s) s c' := by
  refine ⟨hchain, hok, ?_, ?_⟩
  · refine hperm.nodup_iff.mpr (List.nodup_append.mpr ⟨h.nodup, hnd, ?_⟩)
    intro x hx y hy hxy
    subst hxy
    have hfx := hfree x hy
    rw [(h.own_iff x).mpr hx] at hfx
    cases hfx
  · intro x
    rw [extendOwn_self_iff, hperm.mem_iff, List.mem_append, h.own_iff]

/-- A header of the file is extended by the data sectors `news`. -/
theorem extend {x : Nat} {news : List Nat} (h : FileOk d own s c) (hx : x ∈ c)
    (hok : (hdrAt d' x).Ok) (hnext : (hdrAt d' x).nextFileHeader = (hdrAt d x).nextFileHeader)
    (hdata : (hdrAt d' x).dataOf = (hdrAt d x).dataOf ++ news)
    (hrest : ∀ y ∈ c, y ≠ x → d' y = d y) (hnd : news.Nodup) (hfree : ∀ y ∈ news, own y = none) :
    FileOk d' (extendOwn own news s) s c := by
  have hrest' : ∀ y ∈ c, y ≠ x → hdrAt d' y = hdrAt d y := fun y hy hne => hdrAt_congr (hrest y hy hne)
  refine h.of_perm (h.chain.congr fun y hy => ?_) (fun y hy => ?_) ?_ hnd hfree
  · by_cases hyx : y = x
    · rw [hyx, hnext]
    · rw [hrest' y hy hyx]
  · by_cases hyx : y = x
    · rw [hyx]
      exact hok
    · rw [hrest' y hy hyx]
      exact h.ok y hy
  · obtain ⟨pre, post, rfl⟩ := List.append_of_mem hx
    have hndc := h.nodup_headers
    obtain ⟨-, hnd2, hdisj⟩ := List.nodup_append.mp hndc
    have hpre : sectorsOf d' pre = sectorsOf d pre := sectorsOf_congr fun y hy => by
      rw [hrest' y (List.mem_append_left _ hy) (hdisj y hy x (List.mem_cons_self ..))]
    have hpost : sectorsOf d' post = sectorsOf d post := sectorsOf_congr fun y hy => by
      have hne : y ≠ x := fun e => (List.nodup_cons.mp hnd2).1 (e ▸ hy)
      rw [hrest' y (List.mem_append_right _ (List.mem_cons_of_mem x hy)) hne]
    rw [sectorsOf_append, sectorsOf_cons, sectorsOf_append, sectorsOf_cons, hpre, hpost, hdata]
    simp only [List.append_assoc, List.cons_append]
    refine List.Perm.append_left _ (List.Perm.cons x (List.Perm.append_left _ ?_))
    exact List.perm_append_comm

/-- A new header with the data sectors `news` is appended to the file. -/
theorem link {pre : List Nat} {last new : Nat} {news : List Nat} (h : FileOk d own s c)
    (hc : c = pre ++ [last]) (hpre : ∀ y ∈ pre, d' y = d y)
    (hlast : hdrAt d' last = { hdrAt d last with nextFileHeader := new }) (hnew0 : new ≠ 0)
    (hok : (hdrAt d' new).Ok) (hnext : (hdrAt d' new).nextFileHeader = 0)
    (hdata : (hdrAt d' new).dataOf = news) (hnd : (new :: news).Nodup)
    (hfree : ∀ y ∈ new :: news, own y = none) :
    FileOk d' (extendOwn own (new :: news) s) s (c ++ [new]) := by
  have hpre' : ∀ y ∈ pre, hdrAt d' y = hdrAt d y := fun y hy => hdrAt_congr (hpre y hy)
  have hlastd : (hdrAt d' last).dataOf = (hdrAt d last).dataOf := by rw [hlast]; rfl
  refine h.of_perm (h.chain.append hc hpre' (by rw [hlast]) hnew0 hnext) ?_ ?_ hnd hfree
  · intro y hy
    rcases List.mem_append.mp hy with hy | hy
    · rw [hc] at hy
      rcases List.mem_append.mp hy with hy' | hy'
      · rw [hpre' y hy']
        exact h.ok y (hc ▸ hy)
      · rw [List.mem_singleton] at hy'
        subst hy'
        have := h.ok y (hc ▸ hy)
        rw [hlast]
        exact ⟨this.numSectors_eq, this.numBytes_le⟩
    · rw [List.mem_singleton] at hy
      subst hy
      exact hok
  · have hsame : sectorsOf d' c = sectorsOf d c := sectorsOf_congr fun y hy => by
      rw [hc] at hy
      rcases List.mem_append.mp hy with hy' | hy'
      · rw [hpre' y hy']
      · rw [List.mem_singleton] at hy'
        rw [hy', hlastd]
    rw [sectorsOf_append, hsame, sectorsOf_cons, hdata]
    simp [sectorsOf]

/-- A new file with one header and the data sectors `news`. -/
theorem single {news : List Nat} (hown : ∀ x, own x ≠ some s) (hok : (hdrAt d s).Ok)
    (hnext : (hdrAt d s).nextFileHeader = 0) (hdata : (hdrAt d s).dataOf = news)
    (hnd : (s :: news).Nodup) : FileOk d (extendOwn own (s :: news) s) s [s] := by
  have hsec : sectorsOf d [s] = s :: news := by rw [sectorsOf_cons, hdata]; simp [sectorsOf]
  refine ⟨⟨[], rfl, hnext⟩, ?_, ?_, ?_⟩
  · intro x hx
    rw [List.mem_singleton] at hx
    subst hx
    exact hok
  · rw [hsec]
    exact hnd
  · intro x
    rw [hsec, extendOwn_self_iff]
    simp [hown x]

end FileOk

/-! ## The whole disk -/

namespace Layout

variable {d d' : Disk} {own own' : Nat → Option Nat} {s t : Nat} {c : List Nat}

/-- The free-map file has one header. -/
theorem mapFile (h : Layout d own) : FileOk d own 0 [0] := by
  obtain ⟨c, hc⟩ := h.files 0 0 h.own_zero
  obtain ⟨l, rfl, hf⟩ := hc.chain
  have : l = [] := by
    rw [h.mapHeader.next_eq] at hf
    cases l with
    | nil => rfl
    | cons x l => exact absurd rfl hf.1
  rw [this] at hc
  exact hc

theorem own_map_iff (h : Layout d own) (x : Nat) :
    own x = some 0 ↔ x = 0 ∨ x = freeMapDataSector := by
  rw [h.mapFile.own_iff, sectorsOf_cons, h.mapHeader.dataOf_eq]
  simp [sectorsOf]

theorem own_mapData (h : Layout d own) : own freeMapDataSector = some 0 :=
  (h.own_map_iff _).mpr (Or.inr rfl)

/-- A file that is not the free map does not own the data sector of the free map. -/
theorem ne_mapData (h : Layout d own) (ht : t ≠ 0) {x : Nat} (hx : own x = some t) :
    x ≠ freeMapDataSector := by
  rintro rfl
  rw [h.own_mapData] at hx
  exact ht (Option.some.inj hx).symm

theorem own_start (h : Layout d own) {x : Nat} (hx : own x = some s) : own s = some s := by
  obtain ⟨c, hc⟩ := h.files x s hx
  exact hc.own_start

theorem fileOk (h : Layout d own) (hs : own s = some s) : ∃ c, FileOk d own s c := h.files s s hs

/-- The headers of a file are not changed by what happens to sectors of other files and to the data
sector of the free map. -/
theorem header_eq (h : Layout d own) (hf : FileOk d own t c)
    (hd : ∀ x, own x = some t → x ≠ freeMapDataSector → d' x = d x) : ∀ x ∈ c, d' x = d x := by
  intro x hx
  refine hd x (hf.own_of_mem hx) ?_
  by_cases ht : t = 0
  · subst ht
    rw [hf.unique h.mapFile, List.mem_singleton] at hx
    rw [hx]
    decide
  · exact h.ne_mapData ht (hf.own_of_mem hx)

/-- The layout after a change of one file: what the other files own and hold stays, and the changed
file is in order or gone. -/
theorem update (h : Layout d own) (hs : s ≠ 0)
    (hown : ∀ x t, t ≠ s → (own' x = some t ↔ own x = some t))
    (hd : ∀ x t, t ≠ s → own x = some t → x ≠ freeMapDataSector → d' x = d x)
    (hlt : ∀ x, own' x = some s → x < numSectors)
    (hfile : (∃ c, FileOk d' own' s c) ∨ ∀ x, own' x ≠ some s) : Layout d' own' := by
  refine ⟨?_, ?_, (hown 0 0 hs.symm).mpr h.own_zero, ?_⟩
  · intro x t hx
    by_cases ht : t = s
    · subst ht
      rcases hfile with hfile | hnone
      · exact hfile
      · exact absurd hx (hnone x)
    · obtain ⟨c, hc⟩ := h.files x t ((hown x t ht).mp hx)
      exact ⟨c, hc.congr (h.header_eq hc fun x => hd x t ht) fun x => hown x t ht⟩
  · intro x t hx
    by_cases ht : t = s
    · subst ht
      exact hlt x hx
    · exact h.lt x t ((hown x t ht).mp hx)
  · have : hdrAt d' 0 = hdrAt d 0 := hdrAt_congr (hd 0 0 hs.symm h.own_zero (by decide))
    rw [this]
    exact h.mapHeader

/-- The other files keep structure and content. -/
theorem other_file (h : Layout d own) (ht : t ≠ 0) (hf : FileOk d own t c)
    (hown : ∀ x, own' x = some t ↔ own x = some t)
    (hd : ∀ x, own x = some t → x ≠ freeMapDataSector → d' x = d x) :
    FileOk d' own' t c ∧ content d' c = content d c := by
  refine ⟨hf.congr (h.header_eq hf hd) hown, content_congr fun x hx => ?_⟩
  have hx := (hf.own_iff x).mpr hx
  exact hd x hx (h.ne_mapData ht hx)

end Layout

end Nachos.Filesys
