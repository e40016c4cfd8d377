import Nachos.Filesys.CachedHeader
import Nachos.Filesys.Proofs.ReadProofs

/-!
# Proofs: headers in memory

What `Read` returns through an `OpenFile` whose header in memory may be an earlier version of that on disk: a
beginning of what the file has from the position on.
-/

namespace Nachos.Filesys

open Foundations Resumption

variable {w : World} {f : FileId} {d : Disk} {c pre post : List Nat} {x n : Nat} {file : OpenFile}
  {old new : RawFileHeader}

/-- The bytes of an earlier version are the first bytes of the header. -/
theorem Earlier.dataBytes_eq (h : Earlier old new) (hok : old.Ok) (hnew : new.Ok) :
    dataBytes d old = (dataBytes d new).take old.numBytes := by
  rcases h with rfl | ⟨-, hle, news, hnews⟩
  · rw [← length_dataBytes (d := d) hok, List.take_length]
  · exact (dataBytes_take_extend hok hle hnews.symm fun _ _ => rfl).symm

/-- What the object can find is a beginning of what the file has from there on. -/
theorem Viewing.visible_prefix (h : Viewing f w c pre x post file) (hx : (hdrAt w.disk x).Ok) :
    visible w.disk file post <+: bytesFrom w.disk x post file.seekPosition := by
  unfold visible bytesFrom
  rcases h.earlier with heq | ⟨hnext, hle, -⟩
  · rw [heq]
    split
    · rw [List.append_nil]
      exact List.prefix_append _ _
    · exact List.prefix_rfl
  · rw [if_pos hnext, List.append_nil, h.earlier.dataBytes_eq h.ok hx, List.drop_take]
    exact (List.take_prefix _ _).trans (List.prefix_append _ _)

/-- `Read` where the header in memory has no header behind it: it reads that header to its end. -/
theorem run_read_last (hf : w.files f = some file) (hr : Readable file) (hnext : file.hdr.nextFileHeader = 0)
    (hn : 0 < n) (hlt : file.seekPosition + n < 2 ^ 32) :
    (read f n false).run w = some (((dataBytes w.disk file.hdr).drop file.seekPosition).take n, { w with
      files := Function.update w.files f (some { file with
        seekPosition := file.seekPosition + min n (file.hdr.numBytes - file.seekPosition) }) }) := by
  have hlen := length_dataBytes (d := w.disk) hr.ok
  have hread := run_readAt hf hr n file.seekPosition hn hlt
  have hcount : (((dataBytes w.disk file.hdr).drop file.seekPosition).take n).length =
      min n (file.hdr.numBytes - file.seekPosition) := by
    rw [List.length_take, List.length_drop, hlen]
  have hadv : (advanceSeek f (min n (file.hdr.numBytes - file.seekPosition))).run w = some ((), { w with
      files := Function.update w.files f (some { file with
        seekPosition := file.seekPosition + min n (file.hdr.numBytes - file.seekPosition) }) }) := by
    rw [advanceSeek, run_modifyFile hf, u32_of_lt (by omega)]
  generalize hw1 : ({ w with files := Function.update w.files f (some { file with
    seekPosition := file.seekPosition + min n (file.hdr.numBytes - file.seekPosition) }) } : World) = w1 at hadv ⊢
  have hf1 : w1.files f = some { file with
      seekPosition := file.seekPosition + min n (file.hdr.numBytes - file.seekPosition) } := by
    rw [← hw1]
    exact Function.update_self ..
  have hstop : ∀ bs k, (readNext f (readFuel n) 0 k bs).run w1 = some (bs, w1) := by
    intro bs k
    have hfuel : 0 < readFuel n := Nat.mul_pos (Nat.succ_pos n) (Nat.succ_pos numSectors)
    obtain ⟨fuel, hfuel⟩ := Nat.exists_eq_succ_of_ne_zero (Nat.ne_of_gt hfuel)
    rw [hfuel, readNext, if_neg (by simp)]
    rfl
  simp only [read, run_bind, run_assert, decide_eq_true hn, if_true, Option.bind_some, rewindRead,
    Bool.false_eq_true, if_false, run_pure, run_getFile hf]
  split
  · simp only [run_bind, hread, Option.bind_some, hcount, hadv]
    rw [run_getFile hf1]
    simp only [Option.bind_some, hnext, hstop]
  · simp only [run_bind, hread, Option.bind_some, hcount, hadv, run_pure]

/-- A `Read` leaves the header in memory as it is, or passes to another one. -/
structure ReadThrough (d : Disk) (file file' : OpenFile) (pre : List Nat) (x : Nat) (pre' : List Nat) (x' : Nat) :
    Prop where
  sector_eq : file'.sector = file.sector
  current_eq : file'.currentSector = file.currentSector
  isPrefix : pre <+: pre'
  hdr_eq : file'.hdr = file.hdr ∧ x' = x ∨ file'.hdr = hdrAt d x'

/-- `Read` returns what the object can find, as far as `n` bytes reach. -/
theorem Viewing.run_read (h : Viewing f w c pre x post file) (hchain : ReadableChain w.disk c) (hn : 0 < n)
    (hlt : file.seekPosition + n < 2 ^ 32) :
    ∃ pre' x' post' file', (read f n false).run w = some ((visible w.disk file post).take n, { w with
        files := Function.update w.files f (some file') }) ∧
      Viewing f { w with files := Function.update w.files f (some file') } c pre' x' post' file' ∧
      ReadThrough w.disk file file' pre x pre' x' := by
  have hx : x ∈ c := by
    rw [h.chain_eq]
    simp
  have hok := hchain.ok x hx
  have hseek := h.seek_le
  rcases h.earlier with heq | ⟨hnext, hbytes, hdata⟩
  · obtain ⟨pre', x', post', seek', hrun, hto⟩ := Filesys.run_read hchain h.chain_eq h.file_eq heq
      ⟨rfl, rfl, by rw [← heq]; exact hseek⟩ hn hlt
    have hvisible : visible w.disk file post =
        (dataBytes w.disk (hdrAt w.disk x)).drop file.seekPosition ++ content w.disk post := by
      unfold visible
      rw [heq]
      split
      · rename_i hzero
        have hfollows := hchain.next pre x post h.chain_eq
        rw [hzero] at hfollows
        cases post with
        | nil => rfl
        | cons y post => exact absurd rfl hfollows.1
      · rfl
    rw [hvisible]
    have hok' := hchain.ok x' (by rw [hto.chain_eq]; simp)
    exact ⟨pre', x', post', _, hrun, ⟨Function.update_self .., hto.chain_eq, hok', Or.inl rfl, hto.cursor.le⟩,
      rfl, rfl, hto.isPrefix, Or.inr rfl⟩
  · have hreadable : Readable file := ⟨h.ok, fun y hy => hchain.data_lt x hx y (hdata.subset hy)⟩
    have hvisible : visible w.disk file post = (dataBytes w.disk file.hdr).drop file.seekPosition := by
      unfold visible
      rw [if_pos hnext, List.append_nil]
    rw [hvisible]
    refine ⟨pre, x, post, _, run_read_last h.file_eq hreadable hnext hn hlt,
      ⟨Function.update_self .., h.chain_eq, h.ok, h.earlier, ?_⟩, rfl, rfl, List.prefix_rfl, Or.inl ⟨rfl, rfl⟩⟩
    show file.seekPosition + min n (file.hdr.numBytes - file.seekPosition) ≤ file.hdr.numBytes
    omega

end Nachos.Filesys
