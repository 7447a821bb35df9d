import Librespot.Audio.Fetching

/-! # What a reader holds when its callback fires -/

open Base Base.Run List Option

namespace Librespot.Audio

open HttpChunkedReader

/-! ## Reading from a reader that has every chunk -/

namespace HttpChunkedReader

structure Full (file : File) (r : HttpChunkedReader) : Prop where
  holds : Holds file r
  present : ∀ chunk ∈ r.chunks, chunk.present
  isOpen : r.closed = false

variable {file : File} {r : HttpChunkedReader}

theorem Full.fetchChunk (h : Full file r) (response : Response) {idx : Nat}
    (hidx : idx < file.totalChunks) :
    r.fetchChunk response idx = some (.ok (file.chunk idx), r) := by
  obtain ⟨chunk, hchunk⟩ : ∃ chunk, r.chunks[idx]? = some chunk :=
    ⟨_, getElem?_eq_getElem (h.holds.total ▸ hidx)⟩
  obtain ⟨data, hdata⟩ :=
    isSome_iff_exists.mp (h.present chunk (mem_of_getElem? hchunk))
  have := h.holds.data idx chunk data hchunk hdata
  simp [HttpChunkedReader.fetchChunk, lockChunk, hchunk, h.isOpen, hdata, this]

theorem Full.readLoop (h : Full file r) (download : Nat → Response) {len pos k : Nat}
    {rd : Reading} (hrd : Reads file len pos rd) (hk : file.totalChunks ≤ rd.chunkIdx + k) :
    ∃ out err, readLoop download k (.needs rd) r = some ((out, err), r) ∧
      ReadRight file len pos out err ∧ (err = none ∨ err = some ioEOF) := by
  induction k generalizing rd with
  | zero =>
    have := hrd.idx
    omega
  | succ k ih =>
    have htake := hrd.take
    have hstep : HttpChunkedReader.readLoop download (k + 1) (.needs rd) r =
        HttpChunkedReader.readLoop download k
          (rd.take file.totalChunks (file.chunk rd.chunkIdx)) r := by
      simp [HttpChunkedReader.readLoop, h.fetchChunk _ hrd.idx, h.holds.total]
    rw [hstep]
    rcases rd.take_cases file.totalChunks (file.chunk rd.chunkIdx) with
      ⟨rd', hrd', hidx, -⟩ | ⟨out, err, hout, herr⟩
    · rw [hrd'] at htake ⊢
      exact ih htake (by omega)
    · rw [hout] at htake ⊢
      exact ⟨out, err, readLoop_returns _ _ _ _ _, htake, herr⟩

theorem Full.readAt (h : Full file r) (download : Nat → Response) (len pos : Nat) :
    ∃ out err, r.readAt download len pos = some ((out, err), r) ∧
      ReadRight file len pos out err ∧ (err = none ∨ err = some ioEOF) := by
  have hstart := h.holds.startRead len pos
  unfold HttpChunkedReader.readAt
  rcases hs : r.startRead len pos with rd | ⟨out, err⟩
  · rw [hs] at hstart
    simp only [h.holds.total]
    have hnext := hstart.next
    unfold Reading.next at hnext ⊢
    split_ifs at hnext ⊢
    · exact ⟨_, _, readLoop_returns _ _ _ _ _, hnext, .inl rfl⟩
    · exact ⟨_, _, readLoop_returns _ _ _ _ _, hnext, .inr rfl⟩
    · exact h.readLoop download hnext (by omega)
  · rw [hs] at hstart
    refine ⟨out, err, rfl, hstart, ?_⟩
    unfold HttpChunkedReader.startRead at hs
    rw [h.isOpen] at hs
    simp only [Bool.false_eq_true, if_false] at hs
    split_ifs at hs
    simp only [Progress.returns.injEq] at hs
    exact .inr hs.2.symm

theorem Full.copySection (h : Full file r) (download : Nat → Response) {buf : Nat} (hbuf : 0 < buf)
    {k off : Nat} (hoff : off ≤ file.size) (hk : file.size - off < k) :
    copySection download buf file.size k off r =
      some ((file.slice off (file.size - off), none), r) := by
  induction k generalizing off with
  | zero => omega
  | succ k ih =>
    rcases Nat.eq_or_lt_of_le hoff with rfl | hlt
    · simp [HttpChunkedReader.copySection, File.slice_zero]
    · obtain ⟨out, err, hread, hright, herr⟩ :=
        h.readAt download (min buf (file.size - off)) off
      have hbytes := hright.bytes
      have hwithin := hright.within
      unfold HttpChunkedReader.copySection
      rw [if_neg (Nat.not_le_of_lt hlt), hread]
      rcases herr with rfl | rfl
      · have hfull := hright.full rfl
        simp only [bind_eq_bind, bind_some]
        rw [ih (by omega) (by omega)]
        simp only [bind_some]
        rw [hbytes, File.length_slice, ← File.slice_add]
        congr 4
        omega
      · obtain ⟨hend, -⟩ := hright.atEnd rfl
        simp only [bind_eq_bind, bind_some, if_true]
        rw [hbytes, hend]

theorem Full.saved (h : Full file r) (download : Nat → Response) {buf : Nat} (hbuf : 0 < buf) :
    r.saved download buf = some ((file.slice 0 file.size, none), r) := by
  unfold HttpChunkedReader.saved
  rw [h.holds.len]
  exact h.copySection download hbuf (Nat.zero_le _) (Nat.lt_succ_self _)

end HttpChunkedReader

/-! ## Goroutines that read the file -/

structure Goroutine.Right (file : File) (g : Goroutine) : Prop where
  call : ∀ call, g.call = some call → Reads file call.len call.pos call.rd ∧
    g.idx = call.rd.chunkIdx
  marking : ∀ data, g.stage = .marking data → data = file.chunk g.idx
  checking : ∀ data, g.stage = .checking data → data = file.chunk g.idx

def ReadDone.Right (file : File) (read : ReadDone) : Prop :=
  ReadRight file read.len read.pos read.out read.err

structure Outcome.Right (file : File) (o : Outcome) : Prop where
  self : o.self.Right file
  spawned : ∀ g ∈ o.spawned, g.Right file
  reads : ∀ read ∈ o.reads, read.Right file

variable {o : Outcome}

namespace Goroutine

variable {file : File} {r : HttpChunkedReader} {g : Goroutine}

theorem Right.stage (h : g.Right file) {stage : Stage} (hmarking : ∀ data, stage ≠ .marking data)
    (hchecking : ∀ data, stage ≠ .checking data) : ({ g with stage } : Goroutine).Right file :=
  ⟨h.call, fun data hs => absurd hs (hmarking data), fun data hs => absurd hs (hchecking data)⟩

theorem Right.wake (h : g.Right file) (idx : Nat) : (g.wake idx).Right file := by
  unfold Goroutine.wake
  split_ifs
  · exact h.stage (by simp) (by simp)
  · exact h

theorem follow_right {call : ReadCall} {p : Progress} (h : p.Right file call.len call.pos) :
    (follow r call p).Right file := by
  cases p with
  | needs =>
    refine ⟨⟨?_, by simp [follow], by simp [follow]⟩, by simp [follow], by simp [follow]⟩
    intro call' hcall
    cases hcall
    exact ⟨h, rfl⟩
  | returns =>
    refine ⟨⟨by simp [follow], by simp [follow], by simp [follow]⟩, by simp [follow], ?_⟩
    intro read hread
    rw [mem_singleton.mp hread]
    exact h

theorem receive_right (h : g.Right file) (htotal : r.chunks.length = file.totalChunks)
    {res : Except Err Bytes} (hres : ∀ data, res = .ok data → data = file.chunk g.idx) :
    (g.receive r res).Right file := by
  unfold receive
  rcases hcall : g.call with _ | call
  · refine ⟨?_, by simp, by simp⟩
    have hdone : ({ g with stage := .done } : Goroutine).Right file := h.stage (by simp) (by simp)
    simpa [hcall] using hdone
  · obtain ⟨hreads, hidx⟩ := h.call call hcall
    cases res with
    | error err => exact follow_right (hreads.fail err)
    | ok data =>
      refine follow_right ?_
      rw [htotal, hres data rfl, hidx]
      exact hreads.take

theorem lock_right (h : g.Right file) (hholds : HttpChunkedReader.Holds file r)
    (hact : g.act r .lock = some o) : o.Right file := by
  simp only [act] at hact
  split at hact
  · simp only [run_eq_some, Prod.exists] at hact
    obtain ⟨found, r', hlock, hact⟩ := hact
    obtain ⟨chunk, hchunk, ⟨rfl, rfl⟩ | ⟨data, rfl, hdata, rfl⟩ | ⟨rfl, rfl⟩ | ⟨rfl, -, -, rfl⟩⟩ :=
      lockChunk_cases hlock
    · cases hact
      exact receive_right h hholds.total (by simp)
    · cases hact
      refine receive_right h hholds.total fun data' hok => ?_
      obtain rfl : data = data' := by simpa using hok
      exact hholds.data g.idx chunk data hchunk hdata
    · cases hact
      exact ⟨h.stage (by simp) (by simp), by simp, by simp⟩
    · cases hact
      exact ⟨h.stage (by simp) (by simp), by simp, by simp⟩
  · simp at hact

theorem downloaded_right {response : Response} (h : g.Right file)
    (hholds : HttpChunkedReader.Holds file r)
    (hbody : ∀ body, response = .partialContent body → body = file.chunk g.idx)
    (hact : g.act r (.downloaded response) = some o) : o.Right file := by
  simp only [act] at hact
  split at hact
  · split at hact
    · rename_i err _
      cases hact
      have hreceived : (g.receive (r.giveUp g.idx) (.error err)).Right file :=
        receive_right h (hholds.fetching g.idx false).total (by simp)
      exact ⟨hreceived.self, hreceived.spawned, hreceived.reads⟩
    · rename_i data hdata
      cases hact
      have hright : data = file.chunk g.idx := by
        cases response with
        | partialContent body =>
          obtain rfl : body = data := by simpa [downloadAndRead] using hdata
          exact hbody body rfl
        | failed | broken => simp [downloadAndRead] at hdata
      refine ⟨⟨h.call, ?_, by simp⟩, by simp, by simp⟩
      intro data' hs
      obtain rfl : data = data' := by simpa using hs
      exact hright
  · simp at hact

theorem act_right {a : Act} (h : g.Right file) (hholds : HttpChunkedReader.Holds file r)
    (hbody : ∀ body, a = .downloaded (.partialContent body) → body = file.chunk g.idx)
    (hact : g.act r a = some o) : o.Right file := by
  cases a with
  | prefetch =>
    simp only [act] at hact
    split at hact
    · rename_i next call hs hcall
      split_ifs at hact
      · cases hact
        rw [hholds.total]
        exact follow_right (h.call call hcall).1.next
      · cases hact
        refine ⟨h.stage (by simp) (by simp), ?_, by simp⟩
        intro s hmem
        rw [mem_singleton.mp hmem]
        exact ⟨by simp, by simp, by simp⟩
    · simp at hact
  | lock => exact lock_right h hholds hact
  | downloaded => exact downloaded_right h hholds (by simpa using hbody) hact
  | mark =>
    simp only [act] at hact
    split at hact
    · rename_i data hs
      cases hact
      refine ⟨⟨h.call, by simp, ?_⟩, by simp, by simp⟩
      intro data' hs'
      obtain rfl : data = data' := by simpa using hs'
      exact h.marking data hs
    · simp at hact
  | check =>
    simp only [act] at hact
    split at hact
    · rename_i data hs
      cases hact
      refine receive_right h hholds.total fun data' hok => ?_
      unfold checkOpen at hok
      split_ifs at hok
      obtain rfl : data = data' := by simpa using hok
      exact h.checking data hs
    · simp at hact

end Goroutine

namespace World

variable {file : File} {w : World} {r : HttpChunkedReader}

def FullBody (file : File) (w : World) (l : Label) : Prop :=
  ∀ i body, l = .act i (.downloaded (.partialContent body)) →
    ∀ g, w.goroutines[i]? = some g → body = file.chunk g.idx

structure RightInv (file : File) (w : World) : Prop where
  inv : w.Inv
  holds : HttpChunkedReader.Holds file w.reader
  sizes : ∀ fired ∈ w.reader.fired, fired.2 = file.size
  goroutines : ∀ g ∈ w.goroutines, g.Right file
  reads : ∀ read ∈ w.reads, read.Right file

theorem mem_apply {i : Nat} {g : Goroutine} (h : g ∈ (w.apply i o).goroutines) :
    g = o.self ∨ g ∈ o.spawned ∨ g ∈ w.goroutines ∨ ∃ g' ∈ w.goroutines, ∃ idx, g'.wake idx = g := by
  unfold apply at h
  rcases mem_append.mp h with h | h
  · rcases mem_or_eq_of_mem_set h with h | h
    · rcases hwakes : o.wakes with _ | idx
      · rw [hwakes] at h
        exact .inr (.inr (.inl h))
      · rw [hwakes] at h
        obtain ⟨g', hmem, hg⟩ := List.mem_map.mp h
        exact .inr (.inr (.inr ⟨g', hmem, idx, hg⟩))
    · exact .inl h
  · exact .inr (.inl h)

theorem maybeFireComplete_sizes (hlen : r.len = file.size)
    (h : ∀ fired ∈ r.fired, fired.2 = file.size) :
    ∀ fired ∈ r.maybeFireComplete.fired, fired.2 = file.size := by
  unfold maybeFireComplete
  split
  · exact h
  · split
    · exact h
    · split_ifs
      · exact h
      · intro fired hmem
        rcases mem_append.mp hmem with hmem | hmem
        · exact h fired hmem
        · rw [mem_singleton.mp hmem]
          exact hlen

theorem act_holds {g : Goroutine} (hholds : HttpChunkedReader.Holds file w.reader)
    (hsizes : ∀ fired ∈ w.reader.fired, fired.2 = file.size) (heffect : Effect w.reader g o)
    (hright : o.Right file) :
    HttpChunkedReader.Holds file o.reader ∧ ∀ fired ∈ o.reader.fired, fired.2 = file.size := by
  cases heffect with
  | none _ _ hreader =>
    rw [hreader]
    exact ⟨hholds, hsizes⟩
  | begins _ _ _ _ _ _ hreader =>
    rw [hreader]
    exact ⟨hholds.fetching g.idx true, hsizes⟩
  | fails _ _ hreader =>
    rw [hreader]
    exact ⟨hholds.fetching g.idx false, hsizes⟩
  | stores data _ hself hreader =>
    have hdata := hright.self.marking data (by rw [hself])
    rw [hself] at hdata
    rw [hreader, hdata]
    exact ⟨hholds.storeChunk g.idx, hsizes⟩
  | marks _ _ _ hreader =>
    rw [hreader]
    exact ⟨hholds.marked, maybeFireComplete_sizes hholds.len hsizes⟩

theorem RightInv.step {w' : World} {l : Label} (h : w.RightInv file) (hfull : FullBody file w l)
    (hstep : w.step l = some w') : w'.RightInv file := by
  have hinv := step_inv h.inv hstep
  cases l with
  | readAt len pos =>
    have hstart := h.holds.startRead len pos
    simp only [World.step] at hstep
    split at hstep
    · rename_i out err hreturns
      cases hstep
      refine ⟨hinv, h.holds, h.sizes, h.goroutines, ?_⟩
      intro read hread
      rcases mem_append.mp hread with hread | hread
      · exact h.reads read hread
      · rw [mem_singleton.mp hread]
        rwa [hreturns] at hstart
    · rename_i rd hneeds
      cases hstep
      refine ⟨hinv, h.holds, h.sizes, ?_, h.reads⟩
      intro g hg
      rcases mem_append.mp hg with hg | hg
      · exact h.goroutines g hg
      · rw [mem_singleton.mp hg]
        rw [hneeds] at hstart
        refine ⟨?_, by simp, by simp⟩
        intro call hcall
        obtain rfl : _ = call := by simpa using hcall
        exact ⟨hstart, rfl⟩
  | act i =>
    simp only [World.step, run_eq_some, some.injEq] at hstep
    obtain ⟨g, hg, o, hact, rfl⟩ := hstep
    have hg' := h.goroutines g (mem_of_getElem? hg)
    have hright := Goroutine.act_right hg' h.holds
      (fun body ha => hfull i body (by rw [ha]) g hg) hact
    obtain ⟨hholds, hsizes⟩ :=
      act_holds h.holds h.sizes (Goroutine.act_effect hact).1 hright
    refine ⟨hinv, hholds, hsizes, ?_, ?_⟩
    · intro g' hmem
      rcases mem_apply hmem with rfl | hspawned | hold | ⟨g'', hold, idx, rfl⟩
      · exact hright.self
      · exact hright.spawned g' hspawned
      · exact h.goroutines g' hold
      · exact (h.goroutines g'' hold).wake idx
    · intro read hread
      rcases mem_append.mp hread with hread | hread
      · exact h.reads read hread
      · exact hright.reads read hread
  | onComplete cb =>
    cases hstep
    obtain ⟨hchunks, hlen, -, -⟩ :=
      maybeFireComplete_keeps { w.reader with onComplete := cb }
    refine ⟨hinv, ⟨hlen.trans h.holds.len, ?_, ?_⟩,
      maybeFireComplete_sizes h.holds.len h.sizes, h.goroutines, h.reads⟩
    · rw [registerOnComplete, hchunks]
      exact h.holds.total
    · rw [registerOnComplete, hchunks]
      exact h.holds.data
  | cancel =>
    cases hstep
    exact ⟨hinv, ⟨h.holds.len, h.holds.total, h.holds.data⟩, h.sizes, h.goroutines, h.reads⟩
  | broadcast idx =>
    cases hstep
    refine ⟨hinv, h.holds, h.sizes, ?_, h.reads⟩
    intro g hg
    obtain ⟨g', hmem, rfl⟩ := List.mem_map.mp hg
    exact (h.goroutines g' hmem).wake idx

/-- Every read has returned bytes of the file at its position, and once the callback has been
started, the cache saves the file. -/
structure ReadsFile (file : File) (w : World) : Prop where
  reads : ∀ read ∈ w.reads, read.Right file
  sizes : ∀ fired ∈ w.reader.fired, fired.2 = file.size
  saves : w.reader.fired ≠ [] → w.reader.closed = false → ∀ download buf, 0 < buf →
    (w.reader.saved download buf).map Prod.fst = some (file.slice 0 file.size, none)

theorem RightInv.readsFile (h : w.RightInv file) : w.ReadsFile file := by
  refine ⟨h.reads, h.sizes, ?_⟩
  intro hfired hopen download buf hbuf
  have hfull : HttpChunkedReader.Full file w.reader :=
    ⟨h.holds, h.inv.fetchedOnce.complete hfired, hopen⟩
  rw [hfull.saved download hbuf, map_some]

theorem start_right (hnew : HttpChunkedReader.newHttpChunkedReader file.size
      (HttpChunkedReader.served file 0) = some (.ok r)) :
    ({ reader := r } : World).RightInv file := by
  have hinv := start_inv hnew
  have hpos : 0 < file.size := by
    by_contra hzero
    rw [Nat.eq_zero_of_not_pos hzero] at hnew
    exact absurd hnew (by simp [newHttpChunkedReader, served,
      defaultChunkSize])
  obtain ⟨r', hr', hholds, -, -⟩ := new_served file hpos
  obtain rfl : r = r' := by simpa using hnew.symm.trans hr'
  obtain ⟨body, n, -, -, rfl⟩ := new_ok hnew
  exact ⟨hinv, hholds, by simp, by simp, by simp⟩

/-- As long as no body is shorter than the range it was asked for, whatever the goroutines do. -/
theorem reads_of_full_bodies {ls : List Label}
    (hnew : HttpChunkedReader.newHttpChunkedReader file.size
      (HttpChunkedReader.served file 0) = some (.ok r))
    (hfull : Meets step (FullBody file) { reader := r } ls)
    (hrun : exec step { reader := r } ls = some w) : w.ReadsFile file := by
  refine RightInv.readsFile ?_
  have halways := always_of_meets (fun _ _ _ h hfull hstep => RightInv.step h hfull hstep)
    (start_right hnew) hfull
  exact halways.last hrun

def onesThenTwo : File where
  size := 524289
  byte i := if i < 524288 then 1 else 2

instance (file : File) (w : World) (l : Label) : Decidable (FullBody file w l) :=
  match l with
  | .act i (.downloaded (.partialContent body)) =>
    decidable_of_iff (∀ g ∈ w.goroutines[i]?, body = file.chunk g.idx) (by simp [FullBody])
  | .act _ (.downloaded (.failed _)) | .act _ (.downloaded (.broken _)) | .act _ .prefetch
  | .act _ .lock | .act _ .mark | .act _ .check | .readAt .. | .onComplete _ | .cancel
  | .broadcast _ => .isTrue nofun

def lastByteRun : List Label :=
  [.readAt 1 524288, .act 0 .prefetch, .act 0 .lock, .act 0 (.downloaded (.partialContent [2])),
    .act 0 .mark, .act 0 .check, .onComplete (some 7)]

theorem reads_of_full_bodies_lastByteRun :
    ∃ r w, HttpChunkedReader.newHttpChunkedReader onesThenTwo.size
        (HttpChunkedReader.served onesThenTwo 0) = some (.ok r) ∧
      exec step { reader := r } lastByteRun = some w ∧
      w.reads = [{ len := 1, pos := 524288, out := [2], err := none }] ∧
      w.reader.fired = [(7, 524289)] ∧ w.ReadsFile onesThenTwo := by
  obtain ⟨r, hnew, -, -, -⟩ := new_served onesThenTwo (by decide)
  obtain ⟨body, n, hbody, htotal, hr⟩ := new_ok hnew
  obtain rfl : n = 1 := Nat.succ.inj (htotal.trans (by decide))
  obtain rfl : onesThenTwo.chunk 0 = body := by injection hbody
  have hmeets : Meets step (FullBody onesThenTwo) { reader := r } lastByteRun := by
    rw [hr]
    decide +kernel
  have hrun : (exec step { reader := r } lastByteRun).map (fun w => (w.reads, w.reader.fired)) =
      some ([{ len := 1, pos := 524288, out := [2], err := none }], [(7, 524289)]) := by
    rw [hr]
    decide +kernel
  obtain ⟨w, hw, hout⟩ := map_eq_some_iff.mp hrun
  obtain ⟨hreads, hfired⟩ := Prod.mk.inj hout
  exact ⟨r, w, hnew, hw, hreads, hfired,
    reads_of_full_bodies hnew hmeets hw⟩

/-! ## A short body -/

/-- The first body has one byte. The second byte of the read is the last byte of the file. -/
def shortBodyRun : List Label :=
  [.onComplete (some 7), .readAt 2 0, .act 0 .prefetch, .act 0 .prefetch, .act 0 .lock,
    .act 0 .lock, .act 0 (.downloaded (.partialContent [2])), .act 0 .mark, .act 0 .check]

def shortBodyWorld : World where
  reader :=
    { chunks := [{ data := some [1] }, { data := some [2] }]
      len := 524289
      completedChunks := 2
      onComplete := some 7
      onCompleteFired := true
      fired := [(7, 524289)] }
  goroutines := [{ idx := 1, stage := .done }, { idx := 1, stage := .locking }]
  reads := [{ len := 2, pos := 0, out := [1, 2], err := none }]

/-- The read returns the last byte of the file as its second, and the cache saves two bytes. -/
theorem short_body_shifts_file :
    [1] <+: onesThenTwo.chunk 0 ∧ [2] <+: onesThenTwo.chunk 1 ∧
    (∃ r, HttpChunkedReader.newHttpChunkedReader 524289 (.partialContent [1]) = some (.ok r) ∧
      exec step { reader := r } shortBodyRun = some shortBodyWorld) ∧
    (¬ ∀ read ∈ shortBodyWorld.reads, read.Right onesThenTwo) ∧
    (shortBodyWorld.reader.saved (fun _ => .broken ioEOF) 32768).map Prod.fst =
      some ([1, 2], none) := by
  refine ⟨?_, ?_, ⟨{ chunks := [{ data := some [1] }, {}], len := 524289, completedChunks := 1 },
    rfl, by decide +kernel⟩, ?_, by decide +kernel⟩
  · rw [File.chunk_eq, show min ((0 + 1) * defaultChunkSize) onesThenTwo.size -
      0 * defaultChunkSize = 1 + 524287 by decide, File.slice_add]
    exact prefix_append _ _
  · have hchunk : onesThenTwo.chunk 1 = [2] := by decide +kernel
    exact hchunk ▸ prefix_rfl
  · intro h
    have hright := h _ (mem_singleton_self _)
    exact absurd hright.bytes (by decide)

end World

end Librespot.Audio
