import Librespot.Tracks.Window

/-! # What the accessors read, and what can still panic -/

open Base.Exchange Base.Run List Option

namespace Librespot.Tracks.TrackList

variable {tl : TrackList} {page : Pages ContextTrack}

/-! ## The accessors -/

theorem Positioned.get_eq (h : tl.Positioned) : ∃ curr, tl.tracks.get = some curr := by
  obtain ⟨curr, hcurr, -⟩ := Iter.get_of_lt { pos := tl.tracks.pos } tl.tracks h.nonneg h.lt
  exact ⟨curr, hcurr⟩

theorem current_eq (h : tl.Positioned) : ∃ track, tl.current = some track := by
  unfold current
  cases hp : tl.playingQueue with
  | true =>
    obtain ⟨track, rest, hq⟩ := exists_cons_of_ne_nil (h.queued hp)
    exact ⟨track, by simp [hq]⟩
  | false =>
    obtain ⟨curr, hcurr⟩ := h.get_eq
    exact ⟨curr.item, by simp [hcurr]⟩

theorem index_eq (h : tl.Positioned) : ∃ index, tl.index = some index := by
  obtain ⟨curr, hcurr⟩ := h.get_eq
  simp only [index, hcurr, bind_eq_bind, bind_some]
  split
  · exact ⟨_, rfl⟩
  · split <;> exact ⟨_, rfl⟩

variable {nextHint : Option (List ContextTrack)} {tl' : TrackList} {track : ContextTrack}
  {f : Int → ContextTrack → Option Bool} {next : List ProvidedTrack} {queue : List ContextTrack}

theorem nextTracks_fetched (hv : tl.tracks.Valid)
    (hn : tl.nextTracks page nextHint = some (next, tl')) :
    ∃ l, Fetched page tl.tracks l ∧ tl' = { tl with tracks := l } := by
  unfold nextTracks at hn
  simp only [Option.bind_eq_bind, Option.bind_eq_some_iff] at hn
  obtain ⟨tracks, -, hn⟩ := hn
  cases nextHint with
  | some =>
    simp only [Option.bind_eq_some_iff, Option.some.injEq, Prod.mk.injEq] at hn
    obtain ⟨-, -, -, rfl⟩ := hn
    exact ⟨tl.tracks, .refl _, rfl⟩
  | none =>
    simp only [Option.bind_eq_some_iff, Prod.exists, Option.some.injEq, Prod.mk.injEq] at hn
    obtain ⟨iter, hiter, rest, l, hloop, -, rfl⟩ := hn
    obtain ⟨hpos, rfl⟩ := here_eq_some hiter
    have hle : tl.tracks.pos + 1 ≤ tl.tracks.list.length := by have := hv.lt; omega
    exact ⟨l, (nextLoop_reads hle hloop).fetched, rfl⟩

theorem nextTracks_index (h : tl.Positioned)
    (hn : tl.nextTracks page nextHint = some (next, tl')) : tl'.index = tl.index := by
  obtain ⟨l, hf, rfl⟩ := nextTracks_fetched h.valid hn
  have hget : l.get = tl.tracks.get := hf.entry_eq h.valid
  simp only [index, hget]

theorem snapshot_fetched (hv : tl.tracks.Valid) {snap : Snapshot}
    (h : tl.snapshot page nextHint = some (snap, tl')) :
    (∃ l, Fetched page tl.tracks l ∧ tl' = { tl with tracks := l }) ∧
      tl'.currentTrack = some snap.current := by
  simp only [snapshot, run_eq_some, some.injEq, Prod.mk.injEq, Prod.exists] at h
  obtain ⟨current, hcurrent, prev, -, next, _, hnext, index, -, rfl, rfl⟩ := h
  obtain ⟨l, hf, rfl⟩ := nextTracks_fetched hv hnext
  have hget : l.get = tl.tracks.get := hf.entry_eq hv
  refine ⟨⟨l, hf, rfl⟩, ?_⟩
  rw [← hcurrent]
  simp only [currentTrack, TrackList.current, hget]

theorem snapshot_eq (h : tl.Positioned) (nextHint : Option (List ContextTrack)) :
    (tl.snapshot page nextHint).map (·.1) = tl.currentTrack.bind fun current =>
      tl.prevTracks.bind fun prev => ((tl.nextTracks page nextHint).map (·.1)).bind fun next =>
        tl.index.map fun index => { current, prev, next, index } := by
  simp only [snapshot, bind_eq_bind]
  rcases tl.currentTrack with _ | current
  · rfl
  rcases tl.prevTracks with _ | prev
  · rfl
  rcases hn : tl.nextTracks page nextHint with _ | ⟨next, tl'⟩
  · rfl
  simp only [bind_some, nextTracks_index h hn, map_some]
  rcases tl.index with _ | index <;> rfl

/-! ## What can still panic -/

/-- A loop over the list gets past some entries and comes to one. -/
def Reaches {α : Type} (passed here : α → Prop) (l : List α) : Prop :=
  ∃ before a after, l = before ++ a :: after ∧ (∀ b ∈ before, passed b) ∧ here a

theorem reaches_nil {α : Type} {passed here : α → Prop} : ¬ Reaches passed here [] := by
  rintro ⟨before, a, after, heq, -⟩
  simp at heq

theorem reaches_cons {α : Type} {passed here : α → Prop} {a : α} {l : List α} :
    Reaches passed here (a :: l) ↔ here a ∨ passed a ∧ Reaches passed here l := by
  constructor
  · rintro ⟨_ | ⟨b, before⟩, c, after, heq, hpassed, hhere⟩
    · cases heq
      exact .inl hhere
    · cases heq
      obtain ⟨hfirst, hrest⟩ := forall_mem_cons.mp hpassed
      exact .inr ⟨hfirst, before, c, after, rfl, hrest, hhere⟩
  · rintro (hhere | ⟨hfirst, before, c, after, rfl, hrest, hhere⟩)
    · exact ⟨[], a, l, rfl, by simp, hhere⟩
    · exact ⟨a :: before, c, after, rfl, forall_mem_cons.mpr ⟨hfirst, hrest⟩, hhere⟩

/-- The search panics in its callback, at the first of the tracks that it does not pass over. -/
def SearchPanics (page : Pages ContextTrack) (f : Int → ContextTrack → Option Bool)
    (l : PagedList ContextTrack) : Prop :=
  ∃ (m : PagedList ContextTrack) (p : Nat) (x : PagedListItem ContextTrack),
    Fetched page l m ∧ m.list[p]? = some x ∧ f p x.item = none ∧
      ∀ i < p, ∀ y, m.list[i]? = some y → seekBody f i y = some none

/-- The search for a track panics: at the track itself, or at one of those it is compared with. -/
def ComparePanics (page : Pages ContextTrack) (typ : SpotifyIdType) (track : ContextTrack)
    (l : PagedList ContextTrack) : Prop :=
  contextTrackComparator typ track = none ∨
  ∃ isTarget, contextTrackComparator typ track = some isTarget ∧
    SearchPanics page (fun _ => isTarget) l

/-- The look into the queue panics, at the track or at the first entry that it does not pass. -/
def QueuePanics (typ : SpotifyIdType) (track : ContextTrack) (waiting : List ContextTrack) : Prop :=
  queueTest typ track = none ∨ ∃ isTarget, queueTest typ track = some isTarget ∧
    Reaches (isTarget · = some false) (isTarget · = none) waiting

def NotQueued (typ : SpotifyIdType) (track : ContextTrack) (waiting : List ContextTrack) : Prop :=
  ∃ isTarget, queueTest typ track = some isTarget ∧
    ∀ queued ∈ waiting, isTarget queued = some false

def Op.CallPanics (tl : TrackList) : Op → Prop
  | .seek page f => SearchPanics page f tl.tracks
  | .trySeek page _ f => SearchPanics page f tl.tracks
  | .trySeekTo page track => QueuePanics tl.typ track tl.waiting ∨
      NotQueued tl.typ track tl.waiting ∧ ComparePanics page tl.typ track tl.tracks
  | .nextTracks page nextHint => provide tl.typ (tl.shown page nextHint) = none
  | .toggleShuffle page _ shuffle => (shuffle = false ∧ tl.shuffled = true ∧ ¬ tl.canReplay) ∧
      ∃ track, tl.current = some track ∧ ComparePanics page tl.typ track PagedList.new
  | _ => False

theorem seek_none (h : tl.seek page f = none) : SearchPanics page f tl.tracks := by
  have hwalk : walk page (seekBody f) (walkFuel page tl.tracks) Iter.start tl.tracks = none := by
    rcases hw : walk page (seekBody f) (walkFuel page tl.tracks) Iter.start tl.tracks with
      _ | ⟨stop, iter, m⟩
    · rfl
    · simp only [seek, bind_eq_bind, hw, bind_some] at h
      rcases stop with (_ | pageIdx) | _ | _
      · simp at h
      · simp at h
      all_goals rcases he : iter.err with _ | e <;> simp [he] at h
  obtain ⟨m, p, x, hf, hp, hx, hb, hpass⟩ :=
    walk_none (by simp [Iter.start]) (by simp [Iter.start]) hwalk
  simp only [Iter.start] at hp hpass
  refine ⟨m, p.toNat, x, hf, hx, ?_, fun i hi y hy => hpass i y (by omega) (by omega) hy⟩
  rw [show ((p.toNat : Nat) : Int) = p by omega]
  unfold seekBody at hb
  rcases hfx : f p x.item with _ | found
  · rfl
  · simp only [bind_eq_bind, hfx, bind_some] at hb
    cases found with
    | true => simp at hb
    | false =>
      simp only [Bool.false_eq_true, if_false] at hb
      split at hb <;> simp at hb

theorem dropUntil_none {f : ContextTrack → Option Bool} :
    dropUntil f queue = none ↔ Reaches (f · = some false) (f · = none) queue := by
  induction queue with
  | nil => simp [dropUntil, reaches_nil]
  | cons queued rest ih =>
    rw [reaches_cons, ← ih]
    rcases hq : f queued with _ | _ | _ <;> simp [dropUntil, hq]

theorem dropUntil_passed {f : ContextTrack → Option Bool}
    (h : ∀ track ∈ queue, f track = some false) : dropUntil f queue = some none := by
  induction queue with
  | nil => rfl
  | cons _ _ ih =>
    obtain ⟨hhead, htail⟩ := forall_mem_cons.mp h
    simp [dropUntil, hhead, ih htail]

theorem seekQueue_none : tl.seekQueue track = none ↔ QueuePanics tl.typ track tl.waiting := by
  unfold QueuePanics
  rw [seekQueue_eq_test]
  rcases queueTest tl.typ track with _ | isTarget
  · simp
  · simp only [bind_some, map_eq_none_iff, reduceCtorEq, false_or, some.injEq, exists_eq_left',
      dropUntil_none]

theorem seekQueue_false :
    tl.seekQueue track = some (false, tl) ↔ NotQueued tl.typ track tl.waiting := by
  simp only [NotQueued, seekQueue_eq_test, bind_eq_some_iff, map_eq_some_iff]
  refine exists_congr fun isTarget => and_congr_right fun _ => ⟨?_, fun hpassed => ?_⟩
  · rintro ⟨rest, hdrop, hrest⟩
    rcases dropUntil_cases hdrop with ⟨-, hpassed⟩ | ⟨before, hit, after, -, rfl, -⟩
    · exact hpassed
    · simp at hrest
  · exact ⟨none, dropUntil_passed hpassed, rfl⟩

theorem trySeekTo_none (h : tl.playingQueue = true → tl.queue ≠ [])
    (hs : tl.trySeekTo page track = none) : (Op.trySeekTo page track).CallPanics tl := by
  rcases hq : tl.seekQueue track with _ | ⟨found, mid⟩
  · exact .inl (seekQueue_none.mp hq)
  simp only [trySeekTo, bind_eq_bind, hq, bind_some] at hs
  rcases seekQueue_cases hq with ⟨rfl, queue, -, -, rfl⟩ | ⟨rfl, rfl⟩
  · simp at hs
  refine .inr ⟨seekQueue_false.mp hq, ?_⟩
  simp only [if_neg fun hstuck : mid.playingQueue = true ∧ mid.queue = [] => h hstuck.1 hstuck.2]
    at hs
  -- Leaving the queue keeps the context and the type, and those are all that the search reads.
  have hleft : ∃ queue playingQueue, (if mid.playingQueue then
      { mid with queue := mid.queue.tail, playingQueue := false } else mid) =
      { mid with queue, playingQueue } := by
    split <;> exact ⟨_, _, rfl⟩
  obtain ⟨queue, playingQueue, hleft⟩ := hleft
  simp only [hleft] at hs
  rcases hcmp : contextTrackComparator mid.typ track with _ | isTarget
  · exact .inl hcmp
  · simp only [hcmp, bind_some] at hs
    rcases hseek : { mid with queue, playingQueue }.seek page fun _ => isTarget with
      _ | ⟨_ | e, last⟩
    · have hsearch := seek_none hseek
      exact .inr ⟨isTarget, hcmp, hsearch⟩
    · simp [hseek] at hs
    · simp [hseek] at hs

theorem refetch_none (h : tl.Positioned) (hs : tl.refetch page = none) :
    ∃ track, tl.current = some track ∧ ComparePanics page tl.typ track PagedList.new := by
  obtain ⟨track, hcur⟩ := current_eq h
  refine ⟨track, hcur, ?_⟩
  simp only [refetch, bind_eq_bind, hcur, bind_some] at hs
  rcases hcmp : contextTrackComparator tl.typ track with _ | isCurrent
  · exact .inl hcmp
  · simp only [hcmp, bind_some] at hs
    rcases hseek : { tl with tracks := tl.tracks.clear }.seek page fun _ => isCurrent with
      _ | ⟨_ | e, last⟩
    · exact .inr ⟨isCurrent, hcmp, seek_none hseek⟩
    · simp [hseek] at hs
    · simp [hseek] at hs

theorem toggleShuffle_none {g : Rand} {draw : UInt64} {shuffle : Bool} (h : tl.Positioned)
    (hk : tl.KeepFits) (hs : tl.toggleShuffle g page draw shuffle = none) :
    (Op.toggleShuffle page draw shuffle).CallPanics tl := by
  unfold toggleShuffle at hs
  split at hs
  · simp at hs
  rename_i hchange
  split at hs
  · obtain ⟨m, hm⟩ := fetchAll_isSome page tl.tracks
    simp [shuffleOn_eq h.valid hm] at hs
  split at hs
  · rename_i hreplay
    have hlt : 0 < tl.shuffleKeep → tl.shuffleKeep < tl.tracks.list.length := by
      rw [hreplay.2]
      exact hk
    simp [shuffleOff_eq g hlt] at hs
  · rename_i hoff hreplay
    refine ⟨⟨by simpa using hoff, ?_, hreplay⟩, refetch_none h hs⟩
    cases hshuffled : tl.shuffled with
    | true => rfl
    | false => simp_all

theorem trySeek_none {page retry : Pages ContextTrack}
    (hs : tl.trySeek page retry f = none) : SearchPanics page f tl.tracks := by
  rcases hseek : tl.seek page f with _ | ⟨_ | e, mid⟩
  · exact seek_none hseek
  · simp [trySeek, hseek] at hs
  · simp [trySeek, hseek] at hs

theorem step_none {g : Rand} {op : Op} (h : tl.Positioned) (hk : tl.KeepFits)
    (hs : step g tl op = none) : op.CallPanics tl := by
  cases op with
  | seek => exact seek_none (by simpa [step] using hs)
  | trySeek => exact trySeek_none (by simpa [step] using hs)
  | trySeekTo => exact trySeekTo_none h.queued (by simpa [step] using hs)
  | goStart => simp [step] at hs
  | goNext page =>
    obtain ⟨next, mid, moved, tl', -, hgo, -⟩ := peekNext_eq page h
    simp [step, hgo] at hs
  | goPrev => simp [step, goPrev_eq h] at hs
  | peekNext page =>
    obtain ⟨next, mid, moved, tl', hpeek, -⟩ := peekNext_eq page h
    simp [step, hpeek] at hs
  | nextTracks page nextHint =>
    simp only [step, map_eq_none_iff] at hs
    have heq : (tl.nextTracks page nextHint).map (·.1) = provide tl.typ (tl.shown page nextHint) :=
      nextTracks_eq h nextHint
    rw [hs] at heq
    exact heq.symm
  | addToQueue => simp [step] at hs
  | setQueue => simp [step, setQueue, h.not_stuck] at hs
  | setPlayingQueue => simp [step] at hs
  | toggleShuffle => exact toggleShuffle_none h hk (by simpa [step] using hs)

/-- After a first positioning no accessor reads past the queue or the list, whatever was called and
however the fetches went: all that can still panic is the conversion of a track. Nor does the next
operation, whichever it is. -/
theorem accessors_safe (g : Rand) (typ : SpotifyIdType) (first : Op) (ops : List Op)
    (tl : TrackList) (hfirst : first.positions (newTrackList typ) = true)
    (hrun : exec (step g) (newTrackList typ) (first :: ops) = some tl)
    (page : Pages ContextTrack) (nextHint : Option (List ContextTrack)) :
    ((tl.playingQueue = true → tl.queue ≠ []) ∧
      0 ≤ tl.tracks.pos ∧ tl.tracks.pos < tl.tracks.list.length) ∧
    ∃ current index next mid, tl.current = some current ∧
      tl.currentTrack = contextTrackToProvidedTrack tl.typ current ∧
      tl.index = some index ∧
      tl.peekNext page = some (next, mid) ∧
      tl.prevTracks = (provide tl.typ (behind maxTracksInContext tl.tracks)).map List.reverse ∧
      (tl.nextTracks page nextHint).map (·.1) = provide tl.typ (tl.shown page nextHint) ∧
      (tl.snapshot page nextHint).map (·.1) =
        ((contextTrackToProvidedTrack tl.typ current).bind fun current =>
          (provide tl.typ (behind maxTracksInContext tl.tracks)).bind fun prev =>
            (provide tl.typ (tl.shown page nextHint)).map fun next =>
              { current, prev := prev.reverse, next, index }) ∧
      ∀ op, step g tl op = none → op.CallPanics tl := by
  obtain ⟨mid, hstep, hrest⟩ := exec_cons_eq_some.mp hrun
  have h := run_positioned (positioned_of_positions hfirst hstep) hrest
  obtain ⟨current, hcur⟩ := current_eq h
  obtain ⟨index, hidx⟩ := index_eq h
  obtain ⟨next, mid, moved, tl', hpeek, -⟩ := peekNext_eq page h
  have hct : tl.currentTrack = contextTrackToProvidedTrack tl.typ current := by
    simp [currentTrack, hcur]
  refine ⟨⟨h.queued, h.nonneg, h.lt⟩, current, index, next, mid, hcur, hct, hidx, hpeek,
    prevTracks_eq h, nextTracks_eq h nextHint, ?_, fun op => step_none h (reachable_keepFits hrun)⟩
  rw [snapshot_eq h, hct, prevTracks_eq h, nextTracks_eq h nextHint, hidx]
  rcases contextTrackToProvidedTrack tl.typ current with _ | current
  · rfl
  rcases provide tl.typ (behind maxTracksInContext tl.tracks) with _ | prev
  · rfl
  rcases provide tl.typ (tl.shown page nextHint) with _ | next <;> rfl

theorem accessors_safe_queuedStart :
    (Op.goStart twoPages).positions (newTrackList "track") = true ∧
    exec (step drawZero) (newTrackList "track") [.goStart twoPages, .addToQueue trackB] =
      some queuedStart ∧
    (queuedStart.playingQueue = true → queuedStart.queue ≠ []) ∧
    0 ≤ queuedStart.tracks.pos := by
  have hfirst : (Op.goStart twoPages).positions (newTrackList "track") = true := by decide +kernel
  have hrun : exec (step drawZero) (newTrackList "track")
      [.goStart twoPages, .addToQueue trackB] = some queuedStart := by decide +kernel
  have hsafe := (accessors_safe drawZero "track" _ _ queuedStart hfirst hrun twoPages none).1
  exact ⟨hfirst, hrun, hsafe.1, hsafe.2.1⟩

end Librespot.Tracks.TrackList
