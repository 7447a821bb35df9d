import Librespot.Audio.ChunkedReader

/-! # Reads of a file that is fetched in chunks -/

open List Option

namespace Librespot.Audio

theorem defaultChunkSize_pos : 0 < defaultChunkSize := by decide

structure File where
  size : Nat
  byte : Nat → UInt8

namespace File

def slice (file : File) (pos n : Nat) : Bytes := (List.range n).map fun i => file.byte (pos + i)

theorem length_slice (file : File) (pos n : Nat) : (file.slice pos n).length = n := by
  simp [slice]

theorem slice_zero (file : File) (pos : Nat) : file.slice pos 0 = [] := rfl

theorem slice_add (file : File) (pos n k : Nat) :
    file.slice pos (n + k) = file.slice pos n ++ file.slice (pos + n) k := by
  simp only [slice, range_add, map_append, List.map_map]
  congr 1
  exact map_congr_left fun i _ => by simp [Nat.add_assoc]

theorem drop_slice (file : File) (pos n k : Nat) :
    (file.slice pos n).drop k = file.slice (pos + k) (n - k) := by
  rcases Nat.le_total k n with h | h
  · obtain ⟨j, rfl⟩ := Nat.exists_eq_add_of_le h
    rw [slice_add, Nat.add_sub_cancel_left]
    exact drop_left' (file.length_slice pos k)
  · rw [drop_eq_nil_of_le (by rwa [length_slice]), Nat.sub_eq_zero_of_le h, slice_zero]

theorem take_slice (file : File) (pos : Nat) {n k : Nat} (h : k ≤ n) :
    (file.slice pos n).take k = file.slice pos k := by
  obtain ⟨j, rfl⟩ := Nat.exists_eq_add_of_le h
  rw [slice_add]
  exact take_left' (file.length_slice pos k)

def inRange (file : File) (range : Nat × Nat) : Bytes :=
  file.slice range.1 (min (range.2 + 1) file.size - range.1)

def chunk (file : File) (idx : Nat) : Bytes :=
  file.inRange (HttpChunkedReader.requestedRange file.size idx)

def totalChunks (file : File) : Nat := (file.size + defaultChunkSize - 1) / defaultChunkSize

theorem lt_totalChunks (file : File) (idx : Nat) :
    idx < file.totalChunks ↔ idx * defaultChunkSize < file.size := by
  have hpos := defaultChunkSize_pos
  rw [totalChunks, Nat.lt_iff_add_one_le, Nat.le_div_iff_mul_le hpos, Nat.add_one_mul]
  generalize defaultChunkSize = cs at *
  omega

theorem size_le (file : File) : file.size ≤ file.totalChunks * defaultChunkSize :=
  Nat.le_of_not_lt ((file.lt_totalChunks file.totalChunks).not.mp (Nat.lt_irrefl _))

theorem chunk_eq (file : File) (idx : Nat) :
    file.chunk idx = file.slice (idx * defaultChunkSize)
      (min ((idx + 1) * defaultChunkSize) file.size - idx * defaultChunkSize) := by
  have hpos : 0 < (idx + 1) * defaultChunkSize := Nat.mul_pos (Nat.succ_pos _) defaultChunkSize_pos
  unfold chunk inRange HttpChunkedReader.requestedRange
  congr 1
  generalize (idx + 1) * defaultChunkSize = stop at *
  generalize idx * defaultChunkSize = start
  have := defaultChunkSize_pos
  generalize defaultChunkSize = cs at *
  omega

end File

/-! ## The loop of `ReadAt` -/

/-- What a read may return: bytes of the file at its position, all of them unless there is an
error, and `io.EOF` only at the end of the file. -/
structure ReadRight (file : File) (len pos : Nat) (out : Bytes) (err : Option Err) : Prop where
  bytes : out = file.slice pos out.length
  within : out.length ≤ min len (file.size - pos)
  full : err = none → out.length = len
  atEnd : err = some ioEOF → out.length = file.size - pos ∧
    (out.length < len ∨ file.totalChunks * defaultChunkSize ≤ pos)

variable {file : File}

theorem ReadRight.of_slice {len pos n : Nat} {err : Option Err}
    (hle : n ≤ min len (file.size - pos)) (hfull : err = none → n = len)
    (hend : err = some ioEOF → n = file.size - pos ∧
      (n < len ∨ file.totalChunks * defaultChunkSize ≤ pos)) :
    ReadRight file len pos (file.slice pos n) err := by
  refine ⟨?_, ?_, ?_, ?_⟩ <;> rw [File.length_slice] <;> assumption

structure Reads (file : File) (len pos : Nat) (rd : Reading) : Prop where
  bytes : rd.out = file.slice pos rd.out.length
  within : rd.out.length ≤ file.size - pos
  want : rd.out.length + rd.want = len
  idx : rd.chunkIdx < file.totalChunks
  place : pos + rd.out.length = rd.chunkIdx * defaultChunkSize + rd.off
  off : rd.off < defaultChunkSize

def Progress.Right (file : File) (len pos : Nat) : Progress → Prop
  | .needs rd => Reads file len pos rd
  | .returns out err => ReadRight file len pos out err

variable {rd : Reading} {r : HttpChunkedReader}

theorem Reads.next {len pos : Nat} (h : Reads file len pos rd) :
    (rd.next file.totalChunks).Right file len pos := by
  have hidx := h.idx
  unfold Reading.next
  split_ifs with hwant htotal
  · have hlen := h.want
    exact ⟨h.bytes, by have := h.within; omega, fun _ => by omega, by simp⟩
  · omega
  · exact h

theorem Reads.rest {len pos : Nat} (h : Reads file len pos rd) :
    (file.chunk rd.chunkIdx).drop (min rd.off (file.chunk rd.chunkIdx).length) =
      file.slice (pos + rd.out.length)
        (min ((rd.chunkIdx + 1) * defaultChunkSize) file.size - (pos + rd.out.length)) := by
  have hplace := h.place
  rw [file.chunk_eq, File.length_slice, File.drop_slice]
  generalize (rd.chunkIdx + 1) * defaultChunkSize = stop
  generalize rd.chunkIdx * defaultChunkSize = start at *
  generalize hn : min stop file.size - start = n
  rcases Nat.le_total rd.off n with hoff | hoff
  · rw [min_eq_left hoff, ← hplace]
    congr 1
    omega
  · rw [min_eq_right hoff, Nat.sub_self, File.slice_zero, Nat.sub_eq_zero_of_le, File.slice_zero]
    omega

theorem Reads.append {len pos : Nat} (h : Reads file len pos rd) (n : Nat) :
    rd.out ++ file.slice (pos + rd.out.length) n = file.slice pos (rd.out.length + n) := by
  rw [File.slice_add, ← h.bytes]

theorem Reads.lt_stop {len pos : Nat} (h : Reads file len pos rd) :
    pos + rd.out.length < (rd.chunkIdx + 1) * defaultChunkSize := by
  rw [h.place, Nat.add_one_mul]
  exact Nat.add_lt_add_left h.off _

theorem Reads.take {len pos : Nat} (h : Reads file len pos rd) :
    (rd.take file.totalChunks (file.chunk rd.chunkIdx)).Right file len pos := by
  have hstop := h.lt_stop
  have hlast := file.lt_totalChunks (rd.chunkIdx + 1)
  have hwant := h.want
  have hwithin := h.within
  unfold Reading.take
  rw [h.rest]
  obtain ⟨stop, heq⟩ : ∃ stop, (rd.chunkIdx + 1) * defaultChunkSize = stop := ⟨_, rfl⟩
  rw [heq] at hstop hlast ⊢
  generalize hn : min stop file.size - (pos + rd.out.length) = n
  simp only [File.length_slice]
  split_ifs with hbig
  · rw [File.take_slice _ _ (Nat.le_of_lt hbig), h.append]
    exact .of_slice (by omega) (fun _ => hwant) (by simp)
  · rw [h.append]
    unfold Reading.next
    simp only
    split_ifs with h0 htotal
    · exact .of_slice (by omega) (fun _ => by omega) (by simp)
    · exact .of_slice (by omega) (by simp) fun _ => ⟨by omega, .inl (by omega)⟩
    · -- The chunk was not the last one, so it was read to its end.
      refine ⟨?_, ?_, ?_, Nat.lt_of_not_ge htotal, ?_, defaultChunkSize_pos⟩
      · rw [File.length_slice]
      · rw [File.length_slice]
        omega
      · show (file.slice _ _).length + (rd.want - n) = len
        rw [File.length_slice]
        omega
      · show pos + (file.slice _ _).length = (rd.chunkIdx + 1) * defaultChunkSize + 0
        rw [File.length_slice, heq]
        omega

theorem Reading.take_cases (total : Nat) (chunk : Bytes) (rd : Reading) :
    (∃ rd', rd.take total chunk = .needs rd' ∧ rd'.chunkIdx = rd.chunkIdx + 1 ∧
      rd'.chunkIdx < total) ∨
    ∃ out err, rd.take total chunk = .returns out err ∧ (err = none ∨ err = some ioEOF) := by
  unfold Reading.take Reading.next
  simp only
  split_ifs with hbig h0 htotal
  · exact .inr ⟨_, _, rfl, .inl rfl⟩
  · exact .inr ⟨_, _, rfl, .inl rfl⟩
  · exact .inr ⟨_, _, rfl, .inr rfl⟩
  · exact .inl ⟨_, rfl, rfl, by simpa using htotal⟩

theorem wrap_ne_eof (idx : Nat) (err : Err) :
    err.wrap ("failed reading chunk " ++ toString idx ++ ": ") ≠ ioEOF := by
  intro h
  have htext := congrArg (fun e : Err => e.text.toList.head?) h
  simp [Err.wrap, ioEOF] at htext

theorem Reads.fail {len pos : Nat} (h : Reads file len pos rd) (err : Err) :
    (rd.fail err).Right file len pos := by
  have hwithin := h.within
  have hwant := h.want
  exact ⟨h.bytes, by omega, by simp, fun herr =>
    absurd (some.inj herr) (wrap_ne_eof rd.chunkIdx err)⟩

/-! ## A reader that holds the file -/

namespace HttpChunkedReader

theorem maybeFireComplete_keeps (r : HttpChunkedReader) :
    r.maybeFireComplete.chunks = r.chunks ∧ r.maybeFireComplete.len = r.len ∧
    r.maybeFireComplete.pos = r.pos ∧ r.maybeFireComplete.closed = r.closed := by
  unfold maybeFireComplete
  split
  · exact ⟨rfl, rfl, rfl, rfl⟩
  · split
    · exact ⟨rfl, rfl, rfl, rfl⟩
    · split_ifs <;> exact ⟨rfl, rfl, rfl, rfl⟩

theorem markChunkComplete_keeps (r : HttpChunkedReader) :
    r.markChunkComplete.chunks = r.chunks ∧ r.markChunkComplete.len = r.len ∧
    r.markChunkComplete.pos = r.pos ∧ r.markChunkComplete.closed = r.closed :=
  maybeFireComplete_keeps { r with completedChunks := r.completedChunks + 1 }

structure Holds (file : File) (r : HttpChunkedReader) : Prop where
  len : r.len = file.size
  total : r.chunks.length = file.totalChunks
  data : ∀ idx chunk data, r.chunks[idx]? = some chunk → chunk.data = some data →
    data = file.chunk idx

structure Alone (r : HttpChunkedReader) : Prop where
  idle : ∀ (idx : Nat) (chunk : ChunkItem), r.chunks[idx]? = some chunk → chunk.fetching = false
  isOpen : r.closed = false

variable {r : HttpChunkedReader}

theorem Holds.startRead (h : Holds file r) (len pos : Nat) :
    (r.startRead len pos).Right file len pos := by
  have htotal := h.total
  unfold HttpChunkedReader.startRead
  split_ifs with hclosed hend
  · exact ⟨rfl, Nat.zero_le _, by simp, by simp [errClosed, ioEOF]⟩
  · refine .of_slice (Nat.zero_le _) (by simp) fun _ => ?_
    have hpast := (Nat.le_div_iff_mul_le defaultChunkSize_pos).mp (htotal ▸ hend)
    have := file.size_le
    omega
  · rw [htotal] at hend
    refine ⟨rfl, Nat.zero_le _, Nat.zero_add _, Nat.lt_of_not_ge hend, ?_, ?_⟩
    · exact (Nat.div_add_mod' pos defaultChunkSize).symm
    · exact Nat.mod_lt _ defaultChunkSize_pos

theorem updateChunk_chunks (idx i : Nat) (f : ChunkItem → ChunkItem) (r : HttpChunkedReader) :
    (r.updateChunk idx f).chunks[i]? =
      if idx = i then r.chunks[i]?.map f else r.chunks[i]? := by
  simp only [updateChunk, getElem?_modify]
  split_ifs with h
  · rfl
  · cases r.chunks[i]? <;> rfl

theorem Holds.updateChunk (h : Holds file r) {idx : Nat} {f : ChunkItem → ChunkItem}
    (hf : ∀ chunk data, r.chunks[idx]? = some chunk → (f chunk).data = some data →
      data = file.chunk idx) : Holds file (r.updateChunk idx f) := by
  refine ⟨h.len, (length_modify _ _ _).trans h.total, fun i chunk data hi hd => ?_⟩
  rw [updateChunk_chunks] at hi
  split_ifs at hi with heq
  · subst heq
    obtain ⟨old, hold, rfl⟩ := map_eq_some_iff.mp hi
    exact hf old data hold hd
  · exact h.data i chunk data hi hd

theorem Holds.fetching (h : Holds file r) (idx : Nat) (fetching : Bool) :
    Holds file (r.updateChunk idx fun chunk => { chunk with fetching }) :=
  h.updateChunk fun chunk data hc hd => h.data idx chunk data hc hd

theorem Holds.storeChunk (h : Holds file r) (idx : Nat) :
    Holds file (r.storeChunk idx (file.chunk idx)) :=
  h.updateChunk fun _ _ _ hd => (some.inj hd).symm

theorem Holds.marked (h : Holds file r) : Holds file r.markChunkComplete := by
  obtain ⟨hchunks, hlen, -, -⟩ := r.markChunkComplete_keeps
  exact ⟨hlen.trans h.len, by rw [hchunks]; exact h.total, by rw [hchunks]; exact h.data⟩

def served (file : File) (idx : Nat) : Response := .partialContent (file.chunk idx)

theorem fetchChunk_served (h : Holds file r) (ha : r.Alone) {idx : Nat}
    (hidx : idx < file.totalChunks) :
    ∃ r', r.fetchChunk (served file idx) idx = some (.ok (file.chunk idx), r') ∧ Holds file r' ∧
      r'.Alone ∧ r'.pos = r.pos := by
  obtain ⟨chunk, hchunk⟩ : ∃ chunk, r.chunks[idx]? = some chunk :=
    ⟨_, getElem?_eq_getElem (h.total ▸ hidx)⟩
  rcases hdata : chunk.data with _ | data
  · have hlock : r.lockChunk idx =
        some (.fetch, r.updateChunk idx fun chunk => { chunk with fetching := true }) := by
      simp [lockChunk, hchunk, ha.isOpen, hdata, ha.idle idx chunk hchunk]
    have hstored := (h.fetching idx true).storeChunk idx
    obtain ⟨hchunks, -, hpos, hclosed⟩ := markChunkComplete_keeps
      ((r.updateChunk idx fun chunk => { chunk with fetching := true }).storeChunk idx
        (file.chunk idx))
    have hopen := hclosed.trans ha.isOpen
    refine ⟨_, ?_, hstored.marked, ⟨fun i c hc => ?_, hopen⟩, hpos⟩
    · simp [fetchChunk, hlock, served, downloadAndRead, checkOpen, hopen]
    · rw [hchunks, storeChunk, updateChunk_chunks, updateChunk_chunks] at hc
      split_ifs at hc with heq
      · obtain ⟨-, -, rfl⟩ := map_eq_some_iff.mp hc
        rfl
      · exact ha.idle i c hc
  · refine ⟨r, ?_, h, ha, rfl⟩
    have := h.data idx chunk data hchunk hdata
    simp [fetchChunk, lockChunk, hchunk, ha.isOpen, hdata, this]

theorem readLoop_returns (download : Nat → Response) (k : Nat) (out : Bytes) (err : Option Err)
    (r : HttpChunkedReader) : readLoop download k (.returns out err) r = some ((out, err), r) := by
  cases k <;> rfl

theorem readLoop_served {len pos : Nat} {rd : Reading} {k : Nat} (h : Holds file r)
    (ha : r.Alone) (hrd : Reads file len pos rd) (hk : file.totalChunks ≤ rd.chunkIdx + k) :
    ∃ out err r', readLoop (served file) k (.needs rd) r = some ((out, err), r') ∧
      ReadRight file len pos out err ∧ (err = none ∨ err = some ioEOF) ∧
      Holds file r' ∧ r'.Alone ∧ r'.pos = r.pos := by
  induction k generalizing rd r with
  | zero =>
    have := hrd.idx
    omega
  | succ k ih =>
    obtain ⟨r', hfetch, h', ha', hpos⟩ := fetchChunk_served h ha hrd.idx
    have htake := hrd.take
    have hstep : readLoop (served file) (k + 1) (.needs rd) r =
        readLoop (served file) k (rd.take file.totalChunks (file.chunk rd.chunkIdx)) r' := by
      simp [readLoop, hfetch, h'.total]
    rw [hstep]
    rcases rd.take_cases file.totalChunks (file.chunk rd.chunkIdx) with
      ⟨rd', hrd', hidx, -⟩ | ⟨out, err, hout, herr⟩
    · rw [hrd'] at htake ⊢
      obtain ⟨out, err, r'', hrun, hright, herr, h'', ha'', hpos'⟩ := ih h' ha' htake (by omega)
      exact ⟨out, err, r'', hrun, hright, herr, h'', ha'', hpos'.trans hpos⟩
    · rw [hout] at htake ⊢
      exact ⟨out, err, r', readLoop_returns _ _ _ _ _, htake, herr, h', ha', hpos⟩

theorem readAt_served (h : Holds file r) (ha : r.Alone) (len pos : Nat) :
    ∃ out err r', r.readAt (served file) len pos = some ((out, err), r') ∧
      ReadRight file len pos out err ∧ (err = none ∨ err = some ioEOF) ∧
      Holds file r' ∧ r'.Alone ∧ r'.pos = r.pos := by
  have hstart := h.startRead len pos
  unfold HttpChunkedReader.readAt
  rcases hs : r.startRead len pos with rd | ⟨out, err⟩
  · rw [hs] at hstart
    simp only [h.total]
    have hnext := hstart.next
    unfold Reading.next at hnext ⊢
    split_ifs at hnext ⊢
    · exact ⟨_, _, r, readLoop_returns _ _ _ _ _, hnext, .inl rfl, h, ha, rfl⟩
    · exact ⟨_, _, r, readLoop_returns _ _ _ _ _, hnext, .inr rfl, h, ha, rfl⟩
    · exact readLoop_served h ha hnext (by omega)
  · rw [hs] at hstart
    refine ⟨out, err, r, rfl, hstart, ?_, h, ha, rfl⟩
    unfold HttpChunkedReader.startRead at hs
    rw [ha.isOpen] at hs
    simp only [Bool.false_eq_true, if_false] at hs
    split_ifs at hs
    simp only [Progress.returns.injEq] at hs
    exact .inr hs.2.symm

theorem new_served (file : File) (h : 0 < file.size) :
    ∃ r, newHttpChunkedReader file.size (served file 0) = some (.ok r) ∧ Holds file r ∧ r.Alone ∧
      r.pos = 0 := by
  have htotal : ¬ (file.size + defaultChunkSize - 1) / defaultChunkSize = 0 :=
    Nat.pos_iff_ne_zero.mp ((file.lt_totalChunks 0).mpr (by omega))
  refine ⟨_, if_neg htotal, ⟨rfl, ?_, ?_⟩, ⟨?_, rfl⟩, rfl⟩
  · rw [length_cons, length_replicate, Nat.sub_add_cancel (Nat.pos_of_ne_zero htotal),
      File.totalChunks]
  · intro idx chunk data hc hd
    rcases idx with _ | idx
    · simp only [getElem?_cons_zero, some.injEq] at hc
      rw [← hc] at hd
      exact (some.inj hd).symm
    · rw [getElem?_cons_succ] at hc
      rw [eq_of_mem_replicate (mem_of_getElem? hc)] at hd
      simp at hd
  · intro idx chunk hc
    rcases mem_cons.mp (mem_of_getElem? hc) with rfl | hmem
    · rfl
    · rw [eq_of_mem_replicate hmem]

end HttpChunkedReader

theorem ReadRight.eq {len pos : Nat} {out : Bytes} {err : Option Err}
    (h : ReadRight file len pos out err) (herr : err = none ∨ err = some ioEOF) :
    out = file.slice pos (min len (file.size - pos)) ∧ (out.length < len → err = some ioEOF) ∧
    (out.length = len → pos < file.totalChunks * defaultChunkSize → err = none) := by
  have hbytes := h.bytes
  have hwithin := h.within
  rcases herr with rfl | rfl
  · have hfull := h.full rfl
    refine ⟨?_, fun hlt => absurd hfull hlt.ne, fun _ _ => rfl⟩
    rw [min_eq_left (by omega), ← hfull]
    exact hbytes
  · obtain ⟨hend, hlt⟩ := h.atEnd rfl
    refine ⟨?_, fun _ => rfl, fun heq hpos => by omega⟩
    rw [min_eq_right (by omega), ← hend]
    exact hbytes

/-! ## A plain file in memory -/

inductive Call where
  | read (len : Nat)
  | seek (offset : Int) (whence : Nat)
  | fetch (idx : Nat)
deriving DecidableEq, Repr

inductive Answer where
  | read (len : Nat) (out : Bytes) (err : Option Err)
  | sought (res : Except Err Int)
  | fetched
deriving Repr

def Call.Valid (file : File) : Call → Prop
  | .read _ => True
  | .seek _ whence => whence ≤ 2
  | .fetch idx => idx < file.totalChunks

def HttpChunkedReader.call (file : File) (r : HttpChunkedReader) :
    Call → Option (Answer × HttpChunkedReader)
  | .read len => do
    let ((out, err), r) ← r.read (served file) len
    some (.read len out err, r)
  | .seek offset whence => do
    let (res, r) ← r.seek offset whence
    some (.sought res, r)
  | .fetch idx => do
    let (_, r) ← r.fetchChunk (served file idx) idx
    some (.fetched, r)

def HttpChunkedReader.run (file : File) : List Call → HttpChunkedReader →
    Option (List Answer × HttpChunkedReader)
  | [], r => some ([], r)
  | c :: calls, r => do
    let (answer, r) ← r.call file c
    let (answers, r) ← HttpChunkedReader.run file calls r
    some (answer :: answers, r)

structure PlainFile where
  file : File
  pos : Nat

namespace PlainFile

def target (f : PlainFile) (offset : Int) (whence : Nat) : Int :=
  (if whence = 0 then 0 else if whence = 1 then (f.pos : Int) else f.file.size) + offset

def call (f : PlainFile) : Call → Answer × PlainFile
  | .read len =>
    let out := f.file.slice f.pos (min len (f.file.size - f.pos))
    (.read len out (if out.length < len then some ioEOF else none),
      { f with pos := f.pos + out.length })
  | .seek offset whence =>
    (.sought (.ok (f.target offset whence)), { f with pos := (f.target offset whence).toNat })
  | .fetch _ => (.fetched, f)

def run : List Call → PlainFile → List Answer × PlainFile
  | [], f => ([], f)
  | c :: calls, f =>
    let (answer, f) := f.call c
    let (answers, f) := run calls f
    (answer :: answers, f)

end PlainFile

/-- The same answer. Whether an empty buffer at the end of the file gives `io.EOF` is left open. -/
inductive Agree : Answer → Answer → Prop
  | read {len : Nat} {out : Bytes} {err err' : Option Err} (h : 0 < len → err = err') :
    Agree (.read len out err) (.read len out err')
  | sought (res : Except Err Int) : Agree (.sought res) (.sought res)
  | fetched : Agree .fetched .fetched

def Answer.Refused (a : Answer) : Prop := ∃ err, a = .sought (.error err)

open HttpChunkedReader

theorem HttpChunkedReader.seekTo_keeps (target : Int) (r : HttpChunkedReader) :
    (r.seekTo target).2.chunks = r.chunks ∧ (r.seekTo target).2.len = r.len ∧
    (r.seekTo target).2.closed = r.closed := by
  unfold HttpChunkedReader.seekTo
  split_ifs <;> exact ⟨rfl, rfl, rfl⟩

theorem HttpChunkedReader.Holds.seekTo (h : Holds file r) (target : Int) :
    Holds file (r.seekTo target).2 := by
  obtain ⟨hchunks, hlen, -⟩ := r.seekTo_keeps target
  exact ⟨hlen.trans h.len, by rw [hchunks]; exact h.total, by rw [hchunks]; exact h.data⟩

theorem HttpChunkedReader.Alone.seekTo (h : r.Alone) (target : Int) :
    (r.seekTo target).2.Alone := by
  obtain ⟨hchunks, -, hclosed⟩ := r.seekTo_keeps target
  exact ⟨by rw [hchunks]; exact h.idle, hclosed.trans h.isOpen⟩

theorem call_agrees (h : Holds file r) (ha : r.Alone) {c : Call} (hc : c.Valid file) :
    ∃ answer r', r.call file c = some (answer, r') ∧ Holds file r' ∧ r'.Alone ∧
      (¬ answer.Refused → Agree answer (PlainFile.call ⟨file, r.pos⟩ c).1 ∧
        (PlainFile.call ⟨file, r.pos⟩ c).2 = ⟨file, r'.pos⟩) := by
  cases c with
  | read len =>
    obtain ⟨out, err, r', hread, hright, herr, h', ha', hpos⟩ := readAt_served h ha len r.pos
    obtain ⟨hout, hshort, hfull⟩ := hright.eq herr
    refine ⟨.read len out err, { r' with pos := r'.pos + out.length }, ?_, ⟨h'.len, h'.total, h'.data⟩,
      ⟨ha'.idle, ha'.isOpen⟩, fun _ => ⟨?_, ?_⟩⟩
    · simp [HttpChunkedReader.call, HttpChunkedReader.read, hread]
    · simp only [PlainFile.call, ← hout]
      refine .read fun hlen => ?_
      split_ifs with hlt
      · exact hshort hlt
      · have hwithin := hright.within
        have := file.size_le
        exact hfull (by omega) (by omega)
    · simp only [PlainFile.call, ← hout, hpos]
  | seek offset whence =>
    have hseek : r.seek offset whence =
        some (r.seekTo (PlainFile.target ⟨file, r.pos⟩ offset whence)) := by
      have hle : whence ≤ 2 := hc
      obtain rfl | rfl | rfl : whence = 0 ∨ whence = 1 ∨ whence = 2 := by omega
      · simp [HttpChunkedReader.seek, PlainFile.target]
      · simp [HttpChunkedReader.seek, PlainFile.target]
      · simp [HttpChunkedReader.seek, PlainFile.target, h.len]
    simp only [HttpChunkedReader.call, hseek, bind_eq_bind, bind_some, PlainFile.call]
    generalize PlainFile.target ⟨file, r.pos⟩ offset whence = target
    refine ⟨_, _, rfl, h.seekTo target, ha.seekTo target, fun hok => ?_⟩
    unfold HttpChunkedReader.seekTo at hok ⊢
    split_ifs at hok ⊢ with hout
    · exact absurd ⟨_, rfl⟩ hok
    · exact ⟨.sought _, rfl⟩
  | fetch =>
    obtain ⟨r', hfetch, h', ha', hpos⟩ := fetchChunk_served h ha hc
    refine ⟨.fetched, r', by simp [HttpChunkedReader.call, hfetch], h', ha', fun _ => ⟨.fetched, ?_⟩⟩
    simp only [PlainFile.call, hpos]

theorem run_agrees {calls : List Call} (h : Holds file r) (ha : r.Alone)
    (hvalid : ∀ c ∈ calls, c.Valid file) :
    ∃ answers r', r.run file calls = some (answers, r') ∧ Holds file r' ∧ r'.Alone ∧
      ((∀ a ∈ answers, ¬ a.Refused) →
        List.Forall₂ Agree answers (PlainFile.run calls ⟨file, r.pos⟩).1 ∧
        (PlainFile.run calls ⟨file, r.pos⟩).2 = ⟨file, r'.pos⟩) := by
  induction calls generalizing r with
  | nil => exact ⟨[], r, rfl, h, ha, fun _ => ⟨.nil, rfl⟩⟩
  | cons c _ ih =>
    obtain ⟨answer, r₁, hcall, h₁, ha₁, hone⟩ := call_agrees h ha (hvalid c mem_cons_self)
    obtain ⟨answers, r', hrun, h', ha', hrest⟩ :=
      ih h₁ ha₁ fun c' hc' => hvalid c' (mem_cons_of_mem _ hc')
    refine ⟨answer :: answers, r', by simp [HttpChunkedReader.run, hcall, hrun], h', ha', ?_⟩
    intro hok
    obtain ⟨hagree, hpos⟩ := hone (hok answer mem_cons_self)
    obtain ⟨hagrees, hpos'⟩ := hrest fun a hmem => hok a (mem_cons_of_mem _ hmem)
    simp only [PlainFile.run, hpos]
    exact ⟨.cons hagree hagrees, hpos'⟩

/-- While every download returns the range it was asked for, the reader is the file: each `ReadAt`
gives the bytes at its position, and reads and successful seeks give what they give on a file in
memory, whatever other goroutines fetch in between. -/
theorem reader_refines_plainFile (file : File) (hsize : 0 < file.size) (calls : List Call)
    (hvalid : ∀ c ∈ calls, c.Valid file) :
    ∃ r₀ answers r, newHttpChunkedReader file.size (served file 0) = some (.ok r₀) ∧
      r₀.run file calls = some (answers, r) ∧
      ((∀ a ∈ answers, ¬ a.Refused) →
        List.Forall₂ Agree answers (PlainFile.run calls ⟨file, 0⟩).1 ∧
        (PlainFile.run calls ⟨file, 0⟩).2 = ⟨file, r.pos⟩) ∧
      ∀ len pos, ∃ out err r', r.readAt (served file) len pos = some ((out, err), r') ∧
        out = file.slice pos (min len (file.size - pos)) ∧
        (out.length < len → err = some ioEOF) ∧
        (out.length = len → pos < file.totalChunks * defaultChunkSize → err = none) := by
  obtain ⟨r₀, hnew, h₀, ha₀, hpos₀⟩ := new_served file hsize
  obtain ⟨answers, r, hrun, h, ha, hagrees⟩ := run_agrees h₀ ha₀ hvalid
  refine ⟨r₀, answers, r, hnew, hrun, hpos₀ ▸ hagrees, fun len pos => ?_⟩
  obtain ⟨out, err, r', hread, hright, herr, -⟩ := readAt_served h ha len pos
  exact ⟨out, err, r', hread, hright.eq herr⟩

def threeBytes : File := ⟨3, fun i => UInt8.ofNat (10 + i)⟩

theorem reader_refines_plainFile_threeBytes :
    0 < threeBytes.size ∧ (∀ c ∈ [Call.read 2, .seek (-1) 2, .read 4], c.Valid threeBytes) ∧
    ∃ r₀ answers r, newHttpChunkedReader threeBytes.size (served threeBytes 0) = some (.ok r₀) ∧
      r₀.run threeBytes [.read 2, .seek (-1) 2, .read 4] = some (answers, r) := by
  have hvalid : ∀ c ∈ [Call.read 2, .seek (-1) 2, .read 4], c.Valid threeBytes := by
    simp [Call.Valid]
  obtain ⟨r₀, answers, r, hnew, hrun, -⟩ :=
    reader_refines_plainFile threeBytes (by decide) [.read 2, .seek (-1) 2, .read 4] hvalid
  exact ⟨by decide, hvalid, r₀, answers, r, hnew, hrun⟩

end Librespot.Audio
