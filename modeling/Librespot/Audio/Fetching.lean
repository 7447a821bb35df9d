import Librespot.Base.Count
import Librespot.Audio.Goroutines
import Librespot.Audio.ReadAt

/-! # Every chunk is fetched once -/

open Base Base.Run List Option

namespace Librespot.Audio

open HttpChunkedReader

/-! ## What a goroutine can do -/

variable {r : HttpChunkedReader}

theorem HttpChunkedReader.lockChunk_cases {r' : HttpChunkedReader} {idx : Nat} {found : Locked}
    (h : r.lockChunk idx = some (found, r')) : ∃ chunk, r.chunks[idx]? = some chunk ∧
      (found = .closed ∧ r' = r ∨
        (∃ data, found = .present data ∧ chunk.data = some data ∧ r' = r) ∨
        found = .wait ∧ r' = r ∨
        found = .fetch ∧ chunk.data = none ∧ chunk.fetching = false ∧
          r' = r.updateChunk idx fun chunk => { chunk with fetching := true }) := by
  simp only [lockChunk, run_eq_some] at h
  obtain ⟨chunk, hchunk, h⟩ := h
  refine ⟨chunk, hchunk, ?_⟩
  by_cases hclosed : r.closed = true
  · rw [if_pos hclosed, some.injEq, Prod.mk.injEq] at h
    exact .inl ⟨h.1.symm, h.2.symm⟩
  · rw [if_neg hclosed] at h
    rcases hdata : chunk.data with _ | data
    · simp only [hdata] at h
      by_cases hfetching : chunk.fetching = true
      · rw [if_pos hfetching, some.injEq, Prod.mk.injEq] at h
        exact .inr (.inr (.inl ⟨h.1.symm, h.2.symm⟩))
      · rw [if_neg hfetching, some.injEq, Prod.mk.injEq] at h
        exact .inr (.inr (.inr ⟨h.1.symm, rfl, by simpa using hfetching, h.2.symm⟩))
    · simp only [hdata, some.injEq, Prod.mk.injEq] at h
      exact .inr (.inl ⟨data, h.1.symm, rfl, h.2.symm⟩)

def Goroutine.downloads (idx : Nat) (g : Goroutine) : Bool := g.stage = .downloading ∧ g.idx = idx

def Goroutine.marks (g : Goroutine) : Bool :=
  match g.stage with
  | .marking _ => true
  | _ => false

def Goroutine.fetches (g : Goroutine) : Bool :=
  match g.stage with
  | .prefetching _ | .done => false
  | _ => true

def Goroutine.Quiet (g : Goroutine) : Prop := g.stage ≠ .downloading ∧ g.marks = false

inductive Effect (r : HttpChunkedReader) (g : Goroutine) (o : Outcome) : Prop
  | none (hg : g.Quiet) (hself : o.self.Quiet) (hreader : o.reader = r)
  | begins (chunk : ChunkItem) (hg : g.Quiet) (hself : o.self = { g with stage := .downloading })
    (hchunk : r.chunks[g.idx]? = some chunk) (hdata : chunk.data = .none)
    (hfetching : chunk.fetching = false)
    (hreader : o.reader = r.updateChunk g.idx fun chunk => { chunk with fetching := true })
  | fails (hg : g.stage = .downloading) (hself : o.self.Quiet)
    (hreader : o.reader = r.giveUp g.idx)
  | stores (data : Bytes) (hg : g.stage = .downloading)
    (hself : o.self = { g with stage := .marking data })
    (hreader : o.reader = r.storeChunk g.idx data)
  | marks (data : Bytes) (hg : g.stage = .marking data)
    (hself : o.self = { g with stage := .checking data }) (hreader : o.reader = r.markChunkComplete)

namespace Goroutine

theorem follow_quiet (r : HttpChunkedReader) (call : ReadCall) (p : Progress) :
    (follow r call p).self.Quiet ∧ (follow r call p).reader = r ∧
    (follow r call p).spawned = [] := by
  cases p with
  | needs | returns => exact ⟨⟨by simp [follow], rfl⟩, rfl, rfl⟩

theorem receive_quiet (r : HttpChunkedReader) (res : Except Err Bytes) (g : Goroutine) :
    (g.receive r res).self.Quiet ∧ (g.receive r res).reader = r ∧
    (g.receive r res).spawned = [] := by
  unfold receive
  split
  · exact ⟨⟨by simp, rfl⟩, rfl, rfl⟩
  · cases res with
    | error | ok => exact follow_quiet r _ _

variable {r : HttpChunkedReader} {g : Goroutine} {o : Outcome}

theorem lock_effect (h : g.act r .lock = some o) : Effect r g o ∧ o.spawned = [] := by
  simp only [act] at h
  split at h
  · rename_i hs
    have hg : g.Quiet := ⟨by simp [hs], by simp [marks, hs]⟩
    simp only [run_eq_some, Prod.exists] at h
    obtain ⟨found, r', hlock, h⟩ := h
    obtain ⟨chunk, hchunk, ⟨rfl, rfl⟩ | ⟨data, rfl, -, rfl⟩ | ⟨rfl, rfl⟩ |
      ⟨rfl, hdata, hfetching, rfl⟩⟩ := lockChunk_cases hlock
    · cases h
      obtain ⟨hself, hreader, hspawned⟩ := g.receive_quiet r' (.error errClosed)
      exact ⟨.none hg hself hreader, hspawned⟩
    · cases h
      obtain ⟨hself, hreader, hspawned⟩ := g.receive_quiet r' (.ok data)
      exact ⟨.none hg hself hreader, hspawned⟩
    · cases h
      exact ⟨.none hg ⟨by simp, rfl⟩ rfl, rfl⟩
    · cases h
      exact ⟨.begins chunk hg rfl hchunk hdata hfetching rfl, rfl⟩
  · simp at h

theorem downloaded_effect {response : Response} (h : g.act r (.downloaded response) = some o) :
    Effect r g o ∧ o.spawned = [] := by
  simp only [act] at h
  split at h
  · rename_i hs
    split at h
    · rename_i err _
      cases h
      obtain ⟨hself, hreader, hspawned⟩ := g.receive_quiet (r.giveUp g.idx) (.error err)
      exact ⟨.fails hs hself hreader, hspawned⟩
    · rename_i data _
      cases h
      exact ⟨.stores data hs rfl rfl, rfl⟩
  · simp at h

theorem act_effect {a : Act} (h : g.act r a = some o) :
    Effect r g o ∧ ∀ s ∈ o.spawned, s.Quiet := by
  cases a with
  | prefetch =>
    simp only [act] at h
    split at h
    · rename_i next call hs _
      have hg : g.Quiet := ⟨by simp [hs], by simp [marks, hs]⟩
      split_ifs at h
      · cases h
        obtain ⟨hself, hreader, hspawned⟩ := follow_quiet r call (call.rd.next r.chunks.length)
        exact ⟨.none hg hself hreader, by simp [hspawned]⟩
      · cases h
        refine ⟨.none hg ⟨by simp, rfl⟩ rfl, ?_⟩
        intro s hs
        rw [mem_singleton.mp hs]
        exact ⟨by simp, rfl⟩
    · simp at h
  | lock =>
    obtain ⟨heffect, hspawned⟩ := lock_effect h
    exact ⟨heffect, by simp [hspawned]⟩
  | downloaded =>
    obtain ⟨heffect, hspawned⟩ := downloaded_effect h
    exact ⟨heffect, by simp [hspawned]⟩
  | mark =>
    simp only [act] at h
    split at h
    · rename_i data hs
      cases h
      exact ⟨.marks data hs rfl rfl, by simp⟩
    · simp at h
  | check =>
    simp only [act] at h
    split at h
    · rename_i data hs
      cases h
      obtain ⟨hself, hreader, hspawned⟩ := g.receive_quiet r (r.checkOpen data)
      exact ⟨.none ⟨by simp [hs], by simp [marks, hs]⟩ hself hreader, by simp [hspawned]⟩
    · simp at h

end Goroutine

def ChunkItem.present (chunk : ChunkItem) : Bool := chunk.data.isSome

variable {first : Response} {size : Nat}

namespace HttpChunkedReader

def fetchingAt (r : HttpChunkedReader) (idx : Nat) : Bool := r.chunks[idx]?.any ChunkItem.fetching

theorem fetchingAt_update (r : HttpChunkedReader) (j idx : Nat) (f : ChunkItem → ChunkItem) :
    (r.updateChunk j f).fetchingAt idx =
      if j = idx then r.chunks[idx]?.any fun chunk => (f chunk).fetching else r.fetchingAt idx := by
  unfold fetchingAt
  rw [updateChunk_chunks]
  split_ifs
  · cases r.chunks[idx]? <;> rfl
  · rfl

variable {r : HttpChunkedReader}

theorem new_ok
    (h : newHttpChunkedReader size first = some (.ok r)) :
    ∃ body n, first = .partialContent body ∧
      n + 1 = (size + defaultChunkSize - 1) / defaultChunkSize ∧
      r = { chunks := { data := some body } :: List.replicate n {}
            len := size
            completedChunks := 1 } := by
  unfold newHttpChunkedReader at h
  generalize defaultChunkSize = cs at h ⊢
  cases first with
  | failed => simp at h
  | broken =>
    simp only at h
    split_ifs at h
    simp at h
  | partialContent body =>
    simp only at h
    split_ifs at h with htotal
    simp only [some.injEq, Except.ok.injEq] at h
    exact ⟨body, (size + cs - 1) / cs - 1, rfl, Nat.succ_pred htotal, h.symm⟩

structure Announces (r : HttpChunkedReader) : Prop where
  once : r.fired.length = r.onCompleteFired.toNat
  full : r.onCompleteFired = true → r.chunks.length ≤ r.completedChunks
  told : r.onComplete.isSome → r.chunks.length ≤ r.completedChunks → r.onCompleteFired = true

theorem maybeFireComplete_announces (honce : r.fired.length = r.onCompleteFired.toNat)
    (hfull : r.onCompleteFired = true → r.chunks.length ≤ r.completedChunks) :
    r.maybeFireComplete.Announces ∧
    r.maybeFireComplete.completedChunks = r.completedChunks := by
  unfold maybeFireComplete
  by_cases hfired : r.onCompleteFired = true
  · rw [if_pos hfired]
    exact ⟨⟨honce, hfull, fun _ _ => hfired⟩, rfl⟩
  · rw [if_neg hfired]
    rcases hcb : r.onComplete with _ | cb
    · exact ⟨⟨honce, hfull, by simp [hcb]⟩, rfl⟩
    · simp only
      split_ifs with hlt
      · exact ⟨⟨honce, hfull, fun _ hle => by omega⟩, rfl⟩
      · refine ⟨⟨?_, fun _ => Nat.le_of_not_lt hlt, fun _ _ => rfl⟩, rfl⟩
        simpa [hfired] using honce

theorem Announces.keeps {r' : HttpChunkedReader} (h : r.Announces) (hfired : r'.fired = r.fired)
    (honce : r'.onCompleteFired = r.onCompleteFired) (hcb : r'.onComplete = r.onComplete)
    (hlen : r'.chunks.length = r.chunks.length)
    (hcompleted : r'.completedChunks = r.completedChunks) : r'.Announces := by
  refine ⟨?_, ?_, ?_⟩
  · rw [hfired, honce]
    exact h.once
  · rw [honce, hlen, hcompleted]
    exact h.full
  · rw [honce, hlen, hcompleted, hcb]
    exact h.told

theorem Announces.updateChunk (h : r.Announces) (idx : Nat) (f : ChunkItem → ChunkItem) :
    (r.updateChunk idx f).Announces :=
  h.keeps rfl rfl rfl (length_modify _ _ _) rfl

end HttpChunkedReader

/-! ## The invariant -/

namespace World

structure Inv (w : World) : Prop where
  counted : w.reader.completedChunks + w.goroutines.countP Goroutine.marks =
    w.reader.chunks.countP ChunkItem.present
  flight : ∀ idx, w.goroutines.countP (Goroutine.downloads idx) = (w.reader.fetchingAt idx).toNat
  bare : ∀ (idx : Nat) (chunk : ChunkItem), w.reader.chunks[idx]? = some chunk →
    chunk.fetching = true → chunk.data = none
  announces : w.reader.Announces

variable {w : World} {p : Goroutine → Bool} {o : Outcome}

theorem countP_wake (hp : ∀ idx g, p (Goroutine.wake idx g) = p g) (idx : Nat)
    (gs : List Goroutine) : (gs.map (Goroutine.wake idx)).countP p = gs.countP p := by
  rw [countP_map]
  exact countP_congr fun g _ => by simp [hp]

theorem countP_apply (hp : ∀ idx g, p (Goroutine.wake idx g) = p g) {i : Nat} {g : Goroutine}
    (hg : w.goroutines[i]? = some g) (hspawned : ∀ s ∈ o.spawned, p s = false) :
    (w.apply i o).goroutines.countP p + (p g).toNat =
      w.goroutines.countP p + (p o.self).toNat := by
  have hzero : o.spawned.countP p = 0 := countP_eq_zero.mpr (by simpa using hspawned)
  unfold apply
  simp only [countP_append, hzero, Nat.add_zero]
  rcases o.wakes with _ | idx
  · exact Count.countP_set o.self hg
  · have hwoken : (w.goroutines.map (Goroutine.wake idx))[i]? = some (Goroutine.wake idx g) := by
      rw [getElem?_map, hg, map_some]
    have := Count.countP_set (p := p) o.self hwoken
    rwa [hp, countP_wake hp] at this

theorem marks_wake (idx : Nat) (g : Goroutine) : (Goroutine.wake idx g).marks = g.marks := by
  unfold Goroutine.wake
  split_ifs with h
  · simp [Goroutine.marks, h.1]
  · rfl

theorem downloads_wake (j idx : Nat) (g : Goroutine) :
    (Goroutine.wake idx g).downloads j = g.downloads j := by
  unfold Goroutine.wake
  split_ifs with h
  · simp [Goroutine.downloads, h.1]
  · rfl

theorem downloads_of_quiet {g : Goroutine} (h : g.Quiet) (idx : Nat) : g.downloads idx = false := by
  simp [Goroutine.downloads, h.1]

namespace Inv

theorem of_counts {w' : World} (h : w.Inv) (hreader : w'.reader = w.reader)
    (hmarks : w'.goroutines.countP Goroutine.marks = w.goroutines.countP Goroutine.marks)
    (hdownloads : ∀ idx, w'.goroutines.countP (Goroutine.downloads idx) =
      w.goroutines.countP (Goroutine.downloads idx)) : w'.Inv := by
  refine ⟨?_, ?_, ?_, ?_⟩
  · rw [hreader, hmarks]
    exact h.counted
  · intro idx
    rw [hreader, hdownloads]
    exact h.flight idx
  · rw [hreader]
    exact h.bare
  · rw [hreader]
    exact h.announces

variable {g : Goroutine}

theorem downloading (h : w.Inv) (hg : g ∈ w.goroutines) (hstage : g.stage = .downloading) :
    ∃ chunk, w.reader.chunks[g.idx]? = some chunk ∧
      chunk.fetching = true ∧ chunk.data = none := by
  have hpos : 0 < w.goroutines.countP (Goroutine.downloads g.idx) :=
    countP_pos_iff.mpr ⟨g, hg, by simp [Goroutine.downloads, hstage]⟩
  rw [h.flight] at hpos
  rcases hchunk : w.reader.chunks[g.idx]? with _ | chunk
  · simp [fetchingAt, hchunk] at hpos
  · have hfetching : chunk.fetching = true := by
      cases hf : chunk.fetching with
      | true => rfl
      | false => simp [fetchingAt, hchunk, hf] at hpos
    exact ⟨chunk, rfl, hfetching, h.bare g.idx chunk hchunk hfetching⟩

theorem updates {i : Nat} {chunk : ChunkItem} (h : w.Inv) (f : ChunkItem → ChunkItem)
    (hmarks : (w.apply i o).goroutines.countP Goroutine.marks + g.marks.toNat =
      w.goroutines.countP Goroutine.marks + o.self.marks.toNat)
    (hdownloads : ∀ idx, (w.apply i o).goroutines.countP (Goroutine.downloads idx) +
      (g.downloads idx).toNat =
        w.goroutines.countP (Goroutine.downloads idx) + (o.self.downloads idx).toNat)
    (hreader : o.reader = w.reader.updateChunk g.idx f)
    (hchunk : w.reader.chunks[g.idx]? = some chunk)
    (hmark : o.self.marks.toNat + chunk.present.toNat = (f chunk).present.toNat + g.marks.toNat)
    (hdownload : (o.self.downloads g.idx).toNat + chunk.fetching.toNat =
      (f chunk).fetching.toNat + (g.downloads g.idx).toNat)
    (hself : ∀ idx, g.idx ≠ idx → o.self.downloads idx = false)
    (hbare : (f chunk).fetching = true → (f chunk).data = none) : (w.apply i o).Inv := by
  have hworld : (w.apply i o).reader = w.reader.updateChunk g.idx f := hreader
  refine ⟨?_, ?_, ?_, ?_⟩
  · have hcounted := h.counted
    have hpresent := Count.countP_modify (p := ChunkItem.present) f hchunk
    rw [hworld]
    simp only [updateChunk]
    omega
  · intro idx
    have hflight := h.flight idx
    have hcount := hdownloads idx
    rw [hworld, fetchingAt_update]
    by_cases hidx : g.idx = idx
    · subst hidx
      rw [if_pos rfl, hchunk, any_some]
      simp only [fetchingAt, hchunk, any_some] at hflight
      omega
    · rw [if_neg hidx, ← hflight]
      rw [hself idx hidx] at hcount
      simpa [Goroutine.downloads, hidx] using hcount
  · intro idx chunk' hat hfetching
    rw [hworld, updateChunk_chunks] at hat
    split_ifs at hat with hidx
    · subst hidx
      rw [hchunk, map_some, some.injEq] at hat
      rw [← hat] at hfetching ⊢
      exact hbare hfetching
    · exact h.bare idx chunk' hat hfetching
  · rw [hworld]
    exact h.announces.updateChunk _ _

theorem act {i : Nat} {a : Act} (h : w.Inv) (hg : w.goroutines[i]? = some g)
    (hact : g.act w.reader a = some o) : (w.apply i o).Inv := by
  obtain ⟨heffect, hspawned⟩ := Goroutine.act_effect hact
  have hmarks := countP_apply marks_wake hg fun s hs => (hspawned s hs).2
  have hdownloads := fun idx =>
    countP_apply (downloads_wake idx) hg fun s hs => downloads_of_quiet (hspawned s hs) idx
  cases heffect with
  | none hquiet hself hreader =>
    refine h.of_counts hreader ?_ ?_
    · simpa [hquiet.2, hself.2] using hmarks
    · intro idx
      simpa [downloads_of_quiet hquiet, downloads_of_quiet hself] using hdownloads idx
  | begins _ hquiet hself hchunk hdata hfetching hreader =>
    refine h.updates _ hmarks hdownloads hreader hchunk ?_ ?_ ?_ fun _ => hdata
    · rw [hself, hquiet.2]
      exact Nat.zero_add _
    · simp [hself, Goroutine.downloads, hquiet.1, hfetching]
    · intro idx hidx
      simp [hself, Goroutine.downloads, hidx]
  | fails hstage hself hreader =>
    obtain ⟨chunk, hchunk, hfetching, hdata⟩ := h.downloading (mem_of_getElem? hg) hstage
    refine h.updates _ hmarks hdownloads hreader hchunk ?_ ?_ ?_ (by simp)
    · rw [hself.2, show g.marks = false by simp [Goroutine.marks, hstage]]
      exact Nat.zero_add _
    · rw [downloads_of_quiet hself]
      simp [Goroutine.downloads, hstage, hfetching]
    · exact fun idx _ => downloads_of_quiet hself idx
  | stores _ hstage hself hreader =>
    obtain ⟨chunk, hchunk, hfetching, hdata⟩ := h.downloading (mem_of_getElem? hg) hstage
    refine h.updates _ hmarks hdownloads hreader hchunk ?_ ?_ ?_ (by simp)
    · simp [hself, Goroutine.marks, hstage, ChunkItem.present, hdata]
    · simp [hself, Goroutine.downloads, hstage, hfetching]
    · intro idx _
      simp [hself, Goroutine.downloads]
  | marks _ hstage hself hreader =>
    obtain ⟨hchunks, -, -, -⟩ := w.reader.markChunkComplete_keeps
    obtain ⟨hannounces, hcompleted⟩ := maybeFireComplete_announces
      (r := { w.reader with completedChunks := w.reader.completedChunks + 1 })
      h.announces.once fun hfired => Nat.le_succ_of_le (h.announces.full hfired)
    have hworld : (w.apply i o).reader = w.reader.markChunkComplete := hreader
    refine ⟨?_, ?_, ?_, ?_⟩
    · have hcounted := h.counted
      rw [hself, show g.marks = true by simp [Goroutine.marks, hstage]] at hmarks
      simp only [Goroutine.marks, Bool.toNat_true, Bool.toNat_false] at hmarks
      rw [hworld, hchunks, ← hcounted, markChunkComplete, hcompleted]
      simp only
      omega
    · intro idx
      have hcount := hdownloads idx
      rw [hself] at hcount
      rw [hworld, fetchingAt, hchunks, ← fetchingAt, ← h.flight idx]
      simpa [Goroutine.downloads, hstage] using hcount
    · rw [hworld, hchunks]
      exact h.bare
    · rw [hworld]
      exact hannounces

end Inv

variable {w' : World}

theorem step_inv {l : Label} (h : w.Inv) (hstep : w.step l = some w') : w'.Inv := by
  cases l with
  | readAt =>
    simp only [step] at hstep
    split at hstep
    · cases hstep
      exact h.of_counts rfl rfl fun _ => rfl
    · cases hstep
      exact h.of_counts rfl (by simp [Goroutine.marks]) (by simp [Goroutine.downloads])
  | act =>
    simp only [step, run_eq_some, some.injEq] at hstep
    obtain ⟨g, hg, o, hact, rfl⟩ := hstep
    exact h.act hg hact
  | onComplete cb =>
    cases hstep
    obtain ⟨hchunks, -, -, -⟩ :=
      maybeFireComplete_keeps { w.reader with onComplete := cb }
    obtain ⟨hannounces, hcompleted⟩ := maybeFireComplete_announces
      (r := { w.reader with onComplete := cb }) h.announces.once h.announces.full
    refine ⟨?_, ?_, ?_, hannounces⟩
    · rw [registerOnComplete, hchunks, hcompleted]
      exact h.counted
    · intro idx
      rw [registerOnComplete, fetchingAt, hchunks]
      exact h.flight idx
    · rw [registerOnComplete, hchunks]
      exact h.bare
  | cancel =>
    cases hstep
    exact ⟨h.counted, h.flight, h.bare, h.announces.keeps rfl rfl rfl rfl rfl⟩
  | broadcast idx =>
    cases hstep
    exact h.of_counts rfl (countP_wake marks_wake idx _)
      fun j => countP_wake (downloads_wake j) idx _

theorem start_inv (h : HttpChunkedReader.newHttpChunkedReader size first = some (.ok r)) :
    ({ reader := r } : World).Inv := by
  obtain ⟨body, n, -, -, rfl⟩ := new_ok h
  have habsent : (List.replicate n ({} : ChunkItem)).countP ChunkItem.present = 0 := by
    simp [countP_eq_zero, ChunkItem.present]
  have hidle : ∀ (idx : Nat) (chunk : ChunkItem),
      ({ data := some body } :: List.replicate n {})[idx]? = some chunk →
      chunk.fetching = false := by
    intro idx chunk hchunk
    rcases mem_cons.mp (mem_of_getElem? hchunk) with rfl | hmem
    · rfl
    · rw [(mem_replicate.mp hmem).2]
  refine ⟨?_, ?_, ?_, ⟨rfl, by simp, by simp⟩⟩
  · rw [countP_cons, habsent]
    rfl
  · intro idx
    rcases hchunk : ({ data := some body } :: List.replicate n ({} : ChunkItem))[idx]? with _ | chunk
    · simp [fetchingAt, hchunk]
    · simp [fetchingAt, hchunk, hidle idx chunk hchunk]
  · intro idx chunk hchunk hfetching
    rw [hidle idx chunk hchunk] at hfetching
    simp at hfetching

structure FetchedOnce (w : World) : Prop where
  counted : w.reader.completedChunks ≤ w.reader.chunks.countP ChunkItem.present
  absent : ∀ g ∈ w.goroutines, g.stage = .downloading →
    ∃ chunk, w.reader.chunks[g.idx]? = some chunk ∧ chunk.data = none
  single : ∀ idx, w.goroutines.countP (Goroutine.downloads idx) ≤ 1
  once : w.reader.fired.length ≤ 1
  complete : w.reader.fired ≠ [] → ∀ chunk ∈ w.reader.chunks, chunk.present
  fires : w.reader.onComplete.isSome → (∀ chunk ∈ w.reader.chunks, chunk.present) →
    (∀ g ∈ w.goroutines, g.fetches = false) → w.reader.fired ≠ []

theorem Inv.fetchedOnce (h : w.Inv) : w.FetchedOnce := by
  have hcounted := h.counted
  refine ⟨by omega, ?_, ?_, ?_, ?_, ?_⟩
  · intro g hg hstage
    obtain ⟨chunk, hchunk, -, hdata⟩ := h.downloading hg hstage
    exact ⟨chunk, hchunk, hdata⟩
  · intro idx
    rw [h.flight]
    exact Bool.toNat_le _
  · rw [h.announces.once]
    exact Bool.toNat_le _
  · intro hfired
    have honce : w.reader.onCompleteFired = true := by
      have hlen := h.announces.once
      have hpos := length_pos_iff.mpr hfired
      cases hflag : w.reader.onCompleteFired with
      | true => rfl
      | false =>
        rw [hflag, Bool.toNat_false] at hlen
        omega
    have hfull := h.announces.full honce
    have hle := countP_le_length (p := ChunkItem.present) (l := w.reader.chunks)
    exact countP_eq_length.mp (by omega)
  · intro hcb hall hidle hnone
    have hmarks : w.goroutines.countP Goroutine.marks = 0 := by
      rw [countP_eq_zero]
      intro g hg hmarks
      have := hidle g hg
      unfold Goroutine.marks at hmarks
      unfold Goroutine.fetches at this
      split at hmarks <;> simp_all
    have hpresent := countP_eq_length.mpr hall
    have honce := h.announces.told hcb (by omega)
    have hlen := h.announces.once
    rw [hnone, honce] at hlen
    simp at hlen

def Keeps (w w' : World) : Prop :=
  ∀ (idx : Nat) (chunk : ChunkItem) (data : Bytes), w.reader.chunks[idx]? = some chunk →
    chunk.data = some data → ∃ chunk', w'.reader.chunks[idx]? = some chunk' ∧
      chunk'.data = some data

theorem Keeps.of_chunks (h : w'.reader.chunks = w.reader.chunks) : w.Keeps w' := by
  intro idx chunk data hchunk hdata
  exact ⟨chunk, h ▸ hchunk, hdata⟩

theorem Keeps.of_update {j : Nat} {f : ChunkItem → ChunkItem}
    (h : w'.reader = w.reader.updateChunk j f)
    (hf : ∀ chunk, w.reader.chunks[j]? = some chunk → chunk.data.isSome →
      (f chunk).data = chunk.data) : w.Keeps w' := by
  intro idx chunk data hchunk hdata
  rw [h, updateChunk_chunks]
  split_ifs with hidx
  · subst hidx
    refine ⟨f chunk, by rw [hchunk, map_some], ?_⟩
    rw [hf chunk hchunk (by simp [hdata]), hdata]
  · exact ⟨chunk, hchunk, hdata⟩

theorem Inv.keeps {l : Label} (h : w.Inv) (hstep : w.step l = some w') : w.Keeps w' := by
  cases l with
  | readAt =>
    simp only [step] at hstep
    split at hstep
    all_goals
      cases hstep
      exact Keeps.of_chunks rfl
  | act i =>
    simp only [step, run_eq_some, some.injEq] at hstep
    obtain ⟨g, hg, o, hact, rfl⟩ := hstep
    cases (Goroutine.act_effect hact).1 with
    | none _ _ hreader =>
      exact Keeps.of_chunks (congrArg chunks hreader)
    | begins _ _ _ _ _ _ hreader => exact Keeps.of_update hreader fun _ _ _ => rfl
    | fails _ _ hreader => exact Keeps.of_update hreader fun _ _ _ => rfl
    | stores _ hstage _ hreader =>
      obtain ⟨chunk, hchunk, -, hdata⟩ := h.downloading (mem_of_getElem? hg) hstage
      refine Keeps.of_update hreader fun chunk' hchunk' hsome => ?_
      obtain rfl : chunk = chunk' := some.inj (hchunk.symm.trans hchunk')
      simp [hdata] at hsome
    | marks _ _ _ hreader =>
      refine Keeps.of_chunks ?_
      rw [show (w.apply i o).reader = w.reader.markChunkComplete from hreader]
      exact w.reader.markChunkComplete_keeps.1
  | onComplete cb =>
    cases hstep
    exact Keeps.of_chunks
      (maybeFireComplete_keeps { w.reader with onComplete := cb }).1
  | cancel | broadcast =>
    cases hstep
    exact Keeps.of_chunks rfl

theorem Keeps.trans {w₁ w₂ w₃ : World} (h₁ : w₁.Keeps w₂) (h₂ : w₂.Keeps w₃) : w₁.Keeps w₃ := by
  intro idx chunk data hchunk hdata
  obtain ⟨chunk₂, hchunk₂, hdata₂⟩ := h₁ idx chunk data hchunk hdata
  exact h₂ idx chunk₂ data hchunk₂ hdata₂

theorem Inv.run_keeps {ls : List Label} (h : w.Inv) (hrun : exec step w ls = some w') :
    w.Keeps w' := by
  refine (exec_invariant (I := fun u => u.Inv ∧ w.Keeps u) ?_ ⟨h, Keeps.of_chunks rfl⟩ hrun).2
  rintro u l u' ⟨hu, hkeeps⟩ hstep
  exact ⟨step_inv hu hstep, hkeeps.trans (hu.keeps hstep)⟩

/-- However the fetches of a reader interleave, each chunk is downloaded and counted once, and the
callback is told once and only when the file is there. -/
theorem chunks_fetched_once
    (hnew : HttpChunkedReader.newHttpChunkedReader size first = some (.ok r))
    {ls ls' : List Label} {w' : World} (hrun : exec step { reader := r } ls = some w)
    (hrun' : exec step w ls' = some w') : w.FetchedOnce ∧ w.Keeps w' := by
  have hinv : w.Inv := exec_invariant (fun _ _ _ => step_inv) (start_inv hnew) hrun
  exact ⟨hinv.fetchedOnce, hinv.run_keeps hrun'⟩

def twoChunks : HttpChunkedReader where
  chunks := [{ data := some [1] }, {}]
  len := 600000
  completedChunks := 1

def retriedRun : List Label :=
  [.readAt 2 0, .act 0 .prefetch, .act 1 .lock, .readAt 1 524288, .act 2 .prefetch, .act 2 .lock,
    .act 1 (.downloaded (.failed { text := "timeout" })), .act 2 .lock, .onComplete (some 7),
    .act 2 (.downloaded (.partialContent [9])), .act 2 .mark, .act 2 .check]

theorem chunks_fetched_once_retriedRun :
    ∃ w, exec step { reader := twoChunks } retriedRun = some w ∧
      w.reader.fired = [(7, 600000)] ∧ w.FetchedOnce ∧ w.Keeps w := by
  have hnew : newHttpChunkedReader 600000 (.partialContent [1]) = some (.ok twoChunks) := rfl
  exact ⟨Option.get _ (by decide +kernel), exec_get _, by decide +kernel,
    chunks_fetched_once hnew (exec_get _) (exec_nil _)⟩

end World

end Librespot.Audio
