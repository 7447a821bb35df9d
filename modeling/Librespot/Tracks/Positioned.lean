import Librespot.Tracks.Toggle

/-! # A list that was positioned stays positioned -/

open Base.Exchange Base.Run List Option

namespace Librespot.Tracks.TrackList

/-- What the accessors rely on: they read `queue[0]` and `list[pos]` without looking. -/
structure Positioned (tl : TrackList) : Prop where
  queued : tl.playingQueue = true → tl.queue ≠ []
  nonneg : 0 ≤ tl.tracks.pos
  lt : tl.tracks.pos < tl.tracks.list.length

namespace Positioned

variable {tl tl' : TrackList}

theorem valid (h : tl.Positioned) : tl.tracks.Valid := ⟨by have := h.nonneg; omega, h.lt⟩

theorem of_valid (hq : tl.playingQueue = true → tl.queue ≠ []) (hv : tl.tracks.Valid)
    (h0 : 0 ≤ tl.tracks.pos) : tl.Positioned :=
  ⟨hq, h0, hv.lt⟩

theorem here_eq (h : tl.Positioned) : Iter.here tl.tracks = some { pos := tl.tracks.pos } := by
  unfold Iter.here
  rw [if_neg (by have := h.nonneg; omega)]

theorem not_stuck (h : tl.Positioned) : ¬ (tl.playingQueue = true ∧ tl.queue = []) :=
  fun hs => h.queued hs.1 hs.2

end Positioned

variable {f : Int → ContextTrack → Option Bool} {track : ContextTrack} {more : Bool}

section Queue

variable {tl tl' : TrackList}

def SameQueue (tl tl' : TrackList) : Prop :=
  tl'.queue = tl.queue ∧ tl'.playingQueue = tl.playingQueue

variable {page : Pages ContextTrack} {err : Option Err}

theorem seek_sameQueue (h : tl.seek page f = some (err, tl')) : SameQueue tl tl' := by
  obtain ⟨m, -, ⟨p, -, -, rfl⟩ | ⟨-, rfl⟩⟩ := seek_spec h <;> exact ⟨rfl, rfl⟩

theorem trySeek_sameQueue {retry : Pages ContextTrack}
    (h : tl.trySeek page retry f = some (err, tl')) : SameQueue tl tl' := by
  unfold trySeek at h
  simp only [run_eq_some] at h
  obtain ⟨⟨serr, mid⟩, hs, h⟩ := h
  have hmid := seek_sameQueue hs
  rcases serr with _ | e
  · simp only [some.injEq, Prod.mk.injEq] at h
    exact h.2 ▸ hmid
  · simp only [some.injEq, Prod.mk.injEq] at h
    exact h.2 ▸ hmid

theorem trySeekTo_queue (h : tl.trySeekTo page track = some (err, tl')) :
    (∃ queue, queue ≠ [] ∧ queue <:+ tl.waiting ∧ tl' = { tl with queue, playingQueue := true }) ∨
    tl'.playingQueue = false ∧ tl'.queue = tl.waiting := by
  unfold trySeekTo at h
  simp only [Option.bind_eq_bind, Option.bind_eq_some_iff] at h
  obtain ⟨⟨found, mid⟩, hq, h⟩ := h
  rcases seekQueue_cases hq with ⟨rfl, hfound⟩ | ⟨rfl, rfl⟩
  · simp only [Option.some.injEq, Prod.mk.injEq] at h
    exact .inl (h.2 ▸ hfound)
  · right
    by_cases hp : mid.playingQueue ∧ mid.queue = []
    · simp [hp] at h
    simp only [if_neg hp, Option.bind_eq_some_iff] at h
    obtain ⟨isTarget, -, ⟨serr, last⟩, hs, h⟩ := h
    have hlast : last.playingQueue = false ∧ last.queue = mid.waiting := by
      rw [(seek_sameQueue hs).1, (seek_sameQueue hs).2, waiting]
      cases hpq : mid.playingQueue <;> simp [hpq]
    rcases serr with _ | e
    all_goals
      simp only [Option.some.injEq, Prod.mk.injEq] at h
      simp [← h.2, hlast]

end Queue

section Moves

variable {tl tl' : TrackList} {page : Pages ContextTrack}

theorem upcomingQueue_eq (h : tl.playingQueue = true → tl.queue ≠ []) :
    tl.upcomingQueue = some tl.waiting := by
  unfold upcomingQueue waiting
  cases hp : tl.playingQueue with
  | true => simp [h hp]
  | false => simp

theorem goNext_queued (page : Pages ContextTrack) (h : tl.Positioned) (hne : tl.waiting ≠ []) :
    tl.goNext page = some (true, { tl with queue := tl.waiting, playingQueue := true }) := by
  have hlen := length_pos_of_ne_nil hne
  unfold goNext
  rw [if_neg h.not_stuck]
  unfold waiting at hlen ⊢
  cases hp : tl.playingQueue with
  | true =>
    simp only [hp, if_true] at hlen
    simp only [if_true, gt_iff_lt, if_pos hlen]
  | false =>
    simp only [hp, Bool.false_eq_true, if_false] at hlen
    simp [hlen]

theorem goNext_context (h : tl.Positioned) (hnil : tl.waiting = []) {iter : Iter}
    {l : PagedList ContextTrack}
    (hn : Iter.next page { pos := tl.tracks.pos } tl.tracks = (more, iter, l)) :
    tl.goNext page = some (more, { tl with
      queue := [], playingQueue := false
      tracks := if more then ⟨l.list, iter.pos⟩ else l }) := by
  have hdrop : (if tl.playingQueue then { tl with queue := tl.queue.tail } else tl) =
      { tl with queue := [] } := by
    unfold waiting at hnil
    cases hp : tl.playingQueue with
    | true => simp only [hp, if_true] at hnil ⊢; rw [hnil]
    | false =>
      simp only [hp, Bool.false_eq_true, if_false] at hnil ⊢
      rw [← hnil, ← hp]
  unfold goNext
  rw [if_neg h.not_stuck]
  simp only [hdrop, length_nil, gt_iff_lt, lt_irrefl, if_false, bind_eq_bind, h.here_eq,
    bind_some, hn]
  cases more <;> simp

variable {moved : Bool}

theorem goNext_queue (hg : tl.goNext page = some (moved, tl')) :
    tl'.queue = tl.waiting ∧ (tl'.playingQueue = true ↔ tl'.queue ≠ []) := by
  unfold goNext at hg
  by_cases hs : tl.playingQueue ∧ tl.queue = []
  · simp [hs] at hg
  rw [if_neg hs] at hg
  have hmid : (if tl.playingQueue then { tl with queue := tl.queue.tail } else tl).queue =
      tl.waiting := by
    unfold waiting
    split <;> rfl
  generalize (if tl.playingQueue then { tl with queue := tl.queue.tail } else tl) = mid at hg hmid
  by_cases hq : mid.queue.length > 0
  · simp only [if_pos hq, some.injEq, Prod.mk.injEq] at hg
    rw [← hg.2]
    exact ⟨hmid, by simp [ne_nil_of_length_pos hq]⟩
  · have hnil : mid.queue = [] := by simpa using hq
    simp only [if_neg hq, run_eq_some] at hg
    obtain ⟨iter, -, hg⟩ := hg
    rcases hn : iter.next page mid.tracks with ⟨_ | _, iter', l⟩
    all_goals
      simp only [hn, some.injEq, Prod.mk.injEq] at hg
      simp [← hg.2, hmid, ← hnil]

theorem goNext_pos (h : tl.Positioned) (hg : tl.goNext page = some (moved, tl')) :
    0 ≤ tl'.tracks.pos := by
  have hle : tl.tracks.pos + 1 ≤ tl.tracks.list.length := by have := h.lt; omega
  have h0 := h.nonneg
  by_cases hw : tl.waiting = []
  · rcases Iter.next_cases page { pos := tl.tracks.pos } tl.tracks hle with
      ⟨-, he⟩ | ⟨-, l', -, he⟩ | ⟨-, err, e, -, he⟩
    all_goals
      rw [goNext_context h hw he, some.injEq, Prod.mk.injEq] at hg
      rw [← hg.2]
    · simp only [if_true]
      omega
    · simp only [if_true]
      omega
    · exact h0
  · rw [goNext_queued page h hw, some.injEq, Prod.mk.injEq] at hg
    rw [← hg.2]
    exact h0

theorem goNext_positioned (h : tl.Positioned) (hg : tl.goNext page = some (moved, tl')) :
    tl'.Positioned :=
  .of_valid (goNext_queue hg).2.mp (goNext_moved h.valid hg).valid (goNext_pos h hg)

theorem goPrev_eq (h : tl.Positioned) :
    tl.goPrev = some (decide (0 < tl.tracks.pos), { tl with
      playingQueue := false
      tracks := if 0 < tl.tracks.pos then ⟨tl.tracks.list, tl.tracks.pos - 1⟩ else tl.tracks }) := by
  have h0 := h.nonneg
  simp only [goPrev, bind_eq_bind, h.here_eq, bind_some, Iter.prev]
  rw [if_neg (by omega)]
  by_cases hz : tl.tracks.pos = 0
  · simp [hz]
  · have hlt : 0 < tl.tracks.pos := by omega
    simp [hz, hlt]

theorem goPrev_pos (hg : tl.goPrev = some (moved, tl')) :
    tl'.queue = tl.queue ∧ tl'.playingQueue = false ∧ 0 ≤ tl'.tracks.pos := by
  unfold goPrev at hg
  simp only [run_eq_some] at hg
  obtain ⟨iter, hiter, ⟨more, iter'⟩, hprev, hg⟩ := hg
  obtain ⟨h0, rfl⟩ := here_eq_some hiter
  simp only [Iter.prev] at hprev h0
  rw [if_neg (by omega)] at hprev
  by_cases hz : tl.tracks.pos = 0
  · rw [if_pos hz, some.injEq, Prod.mk.injEq] at hprev
    obtain ⟨rfl, rfl⟩ := hprev
    simp only [some.injEq, Prod.mk.injEq] at hg
    rw [← hg.2]
    exact ⟨rfl, rfl, h0⟩
  · rw [if_neg hz, some.injEq, Prod.mk.injEq] at hprev
    obtain ⟨rfl, rfl⟩ := hprev
    simp only [some.injEq, Prod.mk.injEq] at hg
    rw [← hg.2]
    exact ⟨rfl, rfl, by simp only; omega⟩

theorem goPrev_positioned (h : tl.Positioned) (hg : tl.goPrev = some (moved, tl')) :
    tl'.Positioned :=
  .of_valid (by simp [(goPrev_pos hg).2.1]) (goPrev_moved h.valid hg).valid (goPrev_pos hg).2.2

end Moves

/-! ## Every operation -/

section Steps

variable {tl tl' : TrackList} {page retry : Pages ContextTrack}

theorem SameQueue.queued (hq : SameQueue tl tl') (h : tl.playingQueue = true → tl.queue ≠ []) :
    tl'.playingQueue = true → tl'.queue ≠ [] := by
  rw [hq.1, hq.2]
  exact h

variable {err : Option Err} {l l' : PagedList ContextTrack} {iter : Iter} {g : Rand} {op : Op}

theorem seek_pos (hs : tl.seek page f = some (err, tl')) :
    0 ≤ tl'.tracks.pos ∨ tl'.tracks.pos = tl.tracks.pos ∧ ∃ e, err = some e := by
  obtain ⟨m, hr, ⟨p, -, -, rfl⟩ | ⟨he, rfl⟩⟩ := seek_spec hs
  · exact .inl (Int.natCast_nonneg p)
  · exact .inr ⟨hr.fetched.pos_eq, he⟩

theorem moveStart_pos (h : l.moveStart page = (err, l')) :
    l'.pos = 0 ∨ l' = l ∧ ∃ e, err = some e := by
  rcases moveStart_cases h with ⟨-, m, -, -, rfl⟩ | ⟨he, -, rfl, -⟩
  · exact .inl rfl
  · exact .inr ⟨rfl, he⟩

theorem trySeek_pos (h : tl.trySeek page retry f = some (err, tl')) :
    0 ≤ tl'.tracks.pos ∨ tl'.tracks.pos = tl.tracks.pos ∧ ∃ e, err = some e := by
  unfold trySeek at h
  simp only [run_eq_some] at h
  obtain ⟨⟨_ | e, mid⟩, hs, h⟩ := h
  · cases h
    rcases seek_pos hs with hp | ⟨-, e, he⟩
    · exact .inl hp
    · cases he
  · rcases hms : mid.tracks.moveStart retry with ⟨merr, l⟩
    simp only [hms, some.injEq, Prod.mk.injEq] at h
    obtain ⟨rfl, rfl⟩ := h
    rcases moveStart_pos hms with hp | ⟨rfl, he⟩
    · exact .inl hp.ge
    · rcases seek_pos hs with hp | ⟨hp, -⟩
      · exact .inl hp
      · exact .inr ⟨hp, he⟩

theorem trySeekTo_pos (h : tl.trySeekTo page track = some (err, tl')) :
    0 ≤ tl'.tracks.pos ∨
    tl'.tracks.pos = tl.tracks.pos ∧ ∃ mid, tl.seekQueue track = some (true, mid) := by
  unfold trySeekTo at h
  simp only [Option.bind_eq_bind, Option.bind_eq_some_iff] at h
  obtain ⟨⟨found, mid⟩, hq, h⟩ := h
  rcases seekQueue_cases hq with ⟨rfl, queue, -, -, hmid⟩ | ⟨rfl, -⟩
  · simp only [Option.some.injEq, Prod.mk.injEq] at h
    exact .inr ⟨by rw [← h.2, hmid], _, hq⟩
  · left
    by_cases hp : mid.playingQueue ∧ mid.queue = []
    · simp [hp] at h
    simp only [if_neg hp, Option.bind_eq_some_iff] at h
    obtain ⟨isTarget, -, ⟨_ | e, last⟩, hs, h⟩ := h
    · cases h
      rcases seek_pos hs with hp | ⟨-, e, he⟩
      · exact hp
      · cases he
    · simp only [Option.some.injEq, Prod.mk.injEq] at h
      simp [← h.2, PagedList.moveInjected]

theorem goStart_pos (tl : TrackList) (page : Pages ContextTrack) :
    0 ≤ (tl.goStart page).2.tracks.pos ∨
    (tl.goStart page).2 = tl ∧ (tl.goStart page).1 = false := by
  unfold goStart
  rcases hms : tl.tracks.moveStart page with ⟨_ | e, l⟩
  · rcases moveStart_pos hms with hp | ⟨-, e, he⟩
    · exact .inl hp.ge
    · cases he
  · rcases moveStart_pos hms with hp | ⟨rfl, -⟩
    · exact .inl hp.ge
    · exact .inr ⟨rfl, rfl⟩

theorem goStart_sameQueue : SameQueue tl (tl.goStart page).2 := by
  unfold goStart
  rcases tl.tracks.moveStart page with ⟨_ | e, l⟩ <;> exact ⟨rfl, rfl⟩

theorem peekNext_queued {rest : List ContextTrack}
    (hw : tl.waiting = track :: rest) : tl.peekNext page = some (some track, tl) := by
  unfold waiting at hw
  unfold peekNext
  cases hp : tl.playingQueue with
  | true =>
    simp only [hp, if_true] at hw
    rcases hq : tl.queue with _ | ⟨first, queue⟩
    · simp [hq] at hw
    · rw [hq, tail_cons] at hw
      simp [hw]
  | false =>
    simp only [hp, Bool.false_eq_true, if_false] at hw
    simp [hw]

theorem not_queued (hw : tl.waiting = []) : ¬ (tl.playingQueue ∧ tl.queue.length > 1) ∧
    ¬ (¬ tl.playingQueue ∧ tl.queue.length > 0) := by
  unfold waiting at hw
  cases hp : tl.playingQueue with
  | true =>
    have hlen := congrArg List.length hw
    simp only [hp, if_true, length_tail, length_nil] at hlen
    simp
    omega
  | false => simpa [hp] using hw

theorem peekNext_context (h : tl.Positioned) (hw : tl.waiting = [])
    (hn : Iter.next page { pos := tl.tracks.pos } tl.tracks = (more, iter, l)) :
    tl.peekNext page =
      if more then (iter.get l).map fun curr => (some curr.item, { tl with tracks := l })
      else some (none, { tl with tracks := l }) := by
  have hnone := not_queued hw
  unfold peekNext
  rw [if_neg hnone.1, if_neg hnone.2]
  simp only [bind_eq_bind, h.here_eq, bind_some, hn]
  cases more with
  | true => rcases hg : iter.get l with _ | curr <;> simp [hg]
  | false => simp

theorem fetchNextPage_pos (page : Pages ContextTrack) (l : PagedList ContextTrack) :
    (l.fetchNextPage page).2.pos = l.pos := by
  unfold PagedList.fetchNextPage
  split <;> rfl

theorem next_pos {iter' : Iter} (h : iter.next page l = (more, iter', l')) : l'.pos = l.pos := by
  unfold Iter.next at h
  generalize (iter.pos + 2 - l.list.length).toNat = n at h
  induction n generalizing l with
  | zero =>
    simp only [Iter.nextLoop, Prod.mk.injEq] at h
    rw [h.2.2]
  | succ _ ih =>
    unfold Iter.nextLoop at h
    by_cases hend : iter.pos + 1 ≥ l.list.length
    · rw [if_pos hend] at h
      have hpos := fetchNextPage_pos page l
      rcases hf : l.fetchNextPage page with ⟨_ | err, m⟩
      · simp only [hf] at h hpos
        rw [ih h, hpos]
      · simp only [hf] at h hpos
        split at h
        all_goals
          simp only [Prod.mk.injEq] at h
          rw [← h.2.2, hpos]
    · simp only [if_neg hend, Prod.mk.injEq] at h
      rw [h.2.2]

theorem nextLoop_pos {typ : SpotifyIdType} {n : Nat} {tracks : List ProvidedTrack}
    (h : nextLoop typ page n iter l = some (tracks, l')) : l'.pos = l.pos := by
  induction n generalizing iter l tracks with
  | zero =>
    simp only [nextLoop, some.injEq, Prod.mk.injEq] at h
    rw [h.2]
  | succ _ ih =>
    unfold nextLoop at h
    rcases hn : iter.next page l with ⟨_ | _, iter', m⟩
    · simp only [hn, some.injEq, Prod.mk.injEq] at h
      rw [← h.2, next_pos hn]
    · simp only [hn, run_eq_some, Prod.exists, some.injEq, Prod.mk.injEq] at h
      obtain ⟨-, -, -, -, rest, l'', hrest, -, rfl⟩ := h
      rw [ih hrest, next_pos hn]

theorem peekNext_loads {next : Option ContextTrack} (h : tl.peekNext page = some (next, tl')) :
    SameQueue tl tl' ∧ tl'.tracks.pos = tl.tracks.pos := by
  unfold peekNext at h
  by_cases h1 : tl.playingQueue ∧ tl.queue.length > 1
  · rw [if_pos h1, Option.some.injEq, Prod.mk.injEq] at h
    exact h.2 ▸ ⟨⟨rfl, rfl⟩, rfl⟩
  by_cases h2 : ¬ tl.playingQueue ∧ tl.queue.length > 0
  · rw [if_neg h1, if_pos h2, Option.some.injEq, Prod.mk.injEq] at h
    exact h.2 ▸ ⟨⟨rfl, rfl⟩, rfl⟩
  rw [if_neg h1, if_neg h2] at h
  simp only [Option.bind_eq_bind, Option.bind_eq_some_iff] at h
  obtain ⟨iter, -, h⟩ := h
  rcases hn : iter.next page tl.tracks with ⟨_ | _, iter', l⟩
  · simp only [hn, Option.some.injEq, Prod.mk.injEq] at h
    exact h.2 ▸ ⟨⟨rfl, rfl⟩, next_pos hn⟩
  · simp only [hn, Option.bind_eq_some_iff, Option.some.injEq, Prod.mk.injEq] at h
    obtain ⟨curr, -, -, rfl⟩ := h
    exact ⟨⟨rfl, rfl⟩, next_pos hn⟩

theorem nextTracks_loads {nextHint : Option (List ContextTrack)} {next : List ProvidedTrack}
    (h : tl.nextTracks page nextHint = some (next, tl')) :
    SameQueue tl tl' ∧ tl'.tracks.pos = tl.tracks.pos := by
  unfold nextTracks at h
  simp only [Option.bind_eq_bind, Option.bind_eq_some_iff] at h
  obtain ⟨tracks, -, h⟩ := h
  cases nextHint with
  | some =>
    simp only [Option.bind_eq_some_iff, Option.some.injEq, Prod.mk.injEq] at h
    obtain ⟨-, -, -, rfl⟩ := h
    exact ⟨⟨rfl, rfl⟩, rfl⟩
  | none =>
    simp only [Option.bind_eq_some_iff, Prod.exists, Option.some.injEq, Prod.mk.injEq] at h
    obtain ⟨iter, -, rest, l, hloop, -, rfl⟩ := h
    exact ⟨⟨rfl, rfl⟩, nextLoop_pos hloop⟩

theorem setQueue_queue {next : List ContextTrack} (h : tl.setQueue next = some tl') :
    tl'.playingQueue = true → tl'.queue ≠ [] := by
  unfold setQueue at h
  by_cases hs : tl.playingQueue ∧ tl.queue = []
  · simp [hs] at h
  rw [if_neg hs, some.injEq] at h
  subst h
  intro hp
  rcases hq : tl.queue with _ | ⟨first, queue⟩
  · exact absurd ⟨hp, hq⟩ hs
  · simp only at hp
    simp [hp]

theorem toggleShuffle_keeps {draw : UInt64} {shuffle : Bool} (hv : tl.tracks.Valid)
    (h : tl.toggleShuffle g page draw shuffle = some (err, tl')) :
    SameQueue tl tl' ∧ (0 ≤ tl.tracks.pos → 0 ≤ tl'.tracks.pos) := by
  rcases toggleShuffle_cases hv h with ⟨-, -, rfl⟩ | ⟨-, -, -, m, hm, rfl⟩ |
    ⟨-, -, -, -, -, rfl⟩ | ⟨-, -, -, ⟨-, rfl⟩ | ⟨-, hre⟩⟩
  · exact ⟨⟨rfl, rfl⟩, id⟩
  · have hpos := (fetchAll_reads hm).fetched.pos_eq
    exact ⟨⟨rfl, rfl⟩, fun h0 => le_pos_exchanges m _ le_rfl (by rwa [hpos])⟩
  · exact ⟨⟨rfl, rfl⟩, fun h0 => le_pos_exchanges tl.tracks _ le_rfl h0⟩
  · exact ⟨⟨rfl, rfl⟩, id⟩
  · obtain ⟨track, isCurrent, m, p, -, -, -, -, rfl⟩ := hre.hit
    exact ⟨⟨rfl, rfl⟩, fun _ => Int.natCast_nonneg p⟩

theorem step_queued (hv : tl.tracks.Valid) (hq : tl.playingQueue = true → tl.queue ≠ [])
    (hs : step g tl op = some tl') : tl'.playingQueue = true → tl'.queue ≠ [] := by
  cases op with
  | seek =>
    obtain ⟨err, hs⟩ := map_snd_eq_some.mp hs
    exact (seek_sameQueue hs).queued hq
  | trySeek =>
    obtain ⟨err, hs⟩ := map_snd_eq_some.mp hs
    exact (trySeek_sameQueue hs).queued hq
  | trySeekTo =>
    obtain ⟨err, hs⟩ := map_snd_eq_some.mp hs
    rcases trySeekTo_queue hs with ⟨queue, hne, -, rfl⟩ | ⟨hp, -⟩
    · exact fun _ => hne
    · simp [hp]
  | goStart =>
    cases hs
    exact goStart_sameQueue.queued hq
  | goNext =>
    obtain ⟨moved, hs⟩ := map_snd_eq_some.mp hs
    exact (goNext_queue hs).2.mp
  | goPrev =>
    obtain ⟨moved, hs⟩ := map_snd_eq_some.mp hs
    simp [(goPrev_pos hs).2.1]
  | peekNext =>
    obtain ⟨next, hs⟩ := map_snd_eq_some.mp hs
    exact (peekNext_loads hs).1.queued hq
  | nextTracks =>
    obtain ⟨next, hs⟩ := map_snd_eq_some.mp hs
    exact (nextTracks_loads hs).1.queued hq
  | addToQueue =>
    cases hs
    simp [addToQueue]
  | setQueue => exact setQueue_queue hs
  | setPlayingQueue =>
    cases hs
    intro hp
    simp only [setPlayingQueue, Bool.and_eq_true, decide_eq_true_eq] at hp
    exact ne_nil_of_length_pos hp.1
  | toggleShuffle =>
    obtain ⟨err, hs⟩ := map_snd_eq_some.mp hs
    exact (toggleShuffle_keeps hv hs).1.queued hq

theorem step_pos (h : tl.Positioned) (hs : step g tl op = some tl') : 0 ≤ tl'.tracks.pos := by
  have h0 := h.nonneg
  cases op with
  | seek =>
    obtain ⟨err, hs⟩ := map_snd_eq_some.mp hs
    rcases seek_pos hs with hp | ⟨hp, -⟩ <;> omega
  | trySeek =>
    obtain ⟨err, hs⟩ := map_snd_eq_some.mp hs
    rcases trySeek_pos hs with hp | ⟨hp, -⟩ <;> omega
  | trySeekTo =>
    obtain ⟨err, hs⟩ := map_snd_eq_some.mp hs
    rcases trySeekTo_pos hs with hp | ⟨hp, -⟩ <;> omega
  | goStart page =>
    cases hs
    rcases goStart_pos tl page with hp | ⟨hp, -⟩
    · exact hp
    · rw [hp]
      exact h0
  | goNext =>
    obtain ⟨moved, hs⟩ := map_snd_eq_some.mp hs
    exact goNext_pos h hs
  | goPrev =>
    obtain ⟨moved, hs⟩ := map_snd_eq_some.mp hs
    exact (goPrev_pos hs).2.2
  | peekNext =>
    obtain ⟨next, hs⟩ := map_snd_eq_some.mp hs
    rw [(peekNext_loads hs).2]
    exact h0
  | nextTracks =>
    obtain ⟨next, hs⟩ := map_snd_eq_some.mp hs
    rw [(nextTracks_loads hs).2]
    exact h0
  | addToQueue =>
    cases hs
    exact h0
  | setQueue =>
    simp only [step, setQueue, if_neg h.not_stuck, some.injEq] at hs
    subst hs
    exact h0
  | setPlayingQueue =>
    cases hs
    exact h0
  | toggleShuffle =>
    obtain ⟨err, hs⟩ := map_snd_eq_some.mp hs
    exact (toggleShuffle_keeps h.valid hs).2 h0

theorem step_positioned (h : tl.Positioned) (hs : step g tl op = some tl') : tl'.Positioned :=
  .of_valid (step_queued h.valid h.queued hs) (step_valid h.valid hs) (step_pos h hs)

end Steps

/-! ## What turning shuffle off exchanges -/

def KeepFits (tl : TrackList) : Prop := 0 < tl.shuffleKeep → tl.shuffleKeep < tl.shuffleLen

variable {g : Rand} {tl : TrackList} {typ : SpotifyIdType} {ops : List Op}

theorem step_keepFits {tl' : TrackList} {op : Op} (hv : tl.tracks.Valid) (hk : tl.KeepFits)
    (hs : step g tl op = some tl') : tl'.KeepFits := by
  by_cases hop : op.isToggle = false
  · have hsame := (step_moved hop hv hs).same
    unfold KeepFits
    rw [hsame.shuffleKeep, hsame.shuffleLen]
    exact hk
  · cases op with
    | toggleShuffle =>
      obtain ⟨err, ht⟩ := map_snd_eq_some.mp hs
      rcases toggleShuffle_cases hv ht with ⟨-, -, rfl⟩ | ⟨-, -, -, m, hm, rfl⟩ |
        ⟨-, -, -, -, -, rfl⟩ | ⟨-, -, -, ⟨-, rfl⟩ | ⟨-, hre⟩⟩
      · exact hk
      · exact fun _ => keepOf_lt g _ (hv.fetched (fetchAll_reads hm).fetched)
      · exact hk
      · exact hk
      · obtain ⟨track, isCurrent, m, p, -, -, -, -, rfl⟩ := hre.hit
        exact hk
    | _ => exact absurd rfl hop

theorem reachable_keepFits (hrun : exec (step g) (newTrackList typ) ops = some tl) :
    tl.KeepFits := by
  have hinv : tl.tracks.Valid ∧ tl.KeepFits :=
    exec_invariant (I := fun tl => tl.tracks.Valid ∧ tl.KeepFits)
      (fun _ _ _ hi hs => ⟨step_valid hi.1 hs, step_keepFits hi.1 hi.2 hs⟩)
      ⟨valid_new, by simp [KeepFits, newTrackList]⟩ hrun
  exact hinv.2

/-! ## The first positioning -/

/-- Whether the call puts a list on one of its tracks: a search that reports no error, or a start
that succeeds. -/
def Op.positions (tl : TrackList) : Op → Bool
  | .seek page f => (tl.seek page f).any (·.1.isNone)
  | .trySeek page retry f => (tl.trySeek page retry f).any (·.1.isNone)
  | .trySeekTo page track => (tl.trySeekTo page track).any (·.1.isNone)
  | .goStart page => (tl.goStart page).1
  | _ => false

theorem SameQueue.of_new (h : SameQueue (newTrackList typ) tl) :
    tl.playingQueue = true → tl.queue ≠ [] := by
  rw [h.2]
  simp [newTrackList]

theorem seekQueue_new (typ : SpotifyIdType) (track : ContextTrack) {found : Bool}
    (h : (newTrackList typ).seekQueue track = some (found, tl)) : found = false := by
  cases found with
  | false => rfl
  | true =>
    exfalso
    unfold seekQueue at h
    by_cases hu : track.uid = ""
    · simp only [bind_eq_bind, hu, if_true, bind_eq_some_iff] at h
      obtain ⟨isTarget, -, h⟩ := h
      simp [newTrackList, dropUntil] at h
    · simp [newTrackList, dropUntil, hu] at h

theorem positioned_of_positions {op : Op} (hop : op.positions (newTrackList typ) = true)
    (hs : step g (newTrackList typ) op = some tl) : tl.Positioned := by
  have hv := step_valid valid_new hs
  cases op with
  | seek =>
    obtain ⟨err, hs⟩ := map_snd_eq_some.mp hs
    simp only [Op.positions, hs, any_some] at hop
    refine .of_valid (seek_sameQueue hs).of_new hv ?_
    rcases seek_pos hs with hp | ⟨-, e, rfl⟩
    · exact hp
    · simp at hop
  | trySeek =>
    obtain ⟨err, hs⟩ := map_snd_eq_some.mp hs
    simp only [Op.positions, hs, any_some] at hop
    refine .of_valid (trySeek_sameQueue hs).of_new hv ?_
    rcases trySeek_pos hs with hp | ⟨-, e, rfl⟩
    · exact hp
    · simp at hop
  | trySeekTo _ track =>
    obtain ⟨err, hs⟩ := map_snd_eq_some.mp hs
    refine .of_valid ?_ hv ?_
    · rcases trySeekTo_queue hs with ⟨queue, hne, -, rfl⟩ | ⟨hp, -⟩
      · exact fun _ => hne
      · simp [hp]
    · rcases trySeekTo_pos hs with hp | ⟨-, mid, hq⟩
      · exact hp
      · cases seekQueue_new typ track hq
  | goStart page =>
    cases hs
    refine .of_valid goStart_sameQueue.of_new hv ?_
    rcases goStart_pos (newTrackList typ) page with hp | ⟨-, hp⟩
    · exact hp
    · simp [Op.positions, hp] at hop
  | _ => simp [Op.positions] at hop

theorem reachable_queued (hrun : exec (step g) (newTrackList typ) ops = some tl) :
    tl.playingQueue = true → tl.queue ≠ [] := by
  refine (exec_invariant
    (I := fun tl => tl.tracks.Valid ∧ (tl.playingQueue = true → tl.queue ≠ [])) ?_
    ⟨valid_new, by simp [newTrackList]⟩ hrun).2
  intro tl op tl' htl hs
  exact ⟨step_valid htl.1 hs, step_queued htl.1 htl.2 hs⟩

theorem reachable_positioned (hrun : exec (step g) (newTrackList typ) ops = some tl)
    (h0 : 0 ≤ tl.tracks.pos) : tl.Positioned :=
  .of_valid (reachable_queued hrun) (reachable_valid hrun) h0

theorem run_positioned {tl' : TrackList} (h : tl.Positioned)
    (hrun : exec (step g) tl ops = some tl') : tl'.Positioned :=
  exec_invariant (I := Positioned) (fun _ _ _ hp hs => step_positioned hp hs) h hrun

end Librespot.Tracks.TrackList
