import Librespot.Daemon.Callbacks

/-!
# What plays and what comes next

The part of the player that decides about both, and what the handlers make of it that skips,
loads and prefetches go through. Beside it stands a small state that few handlers change.
-/

open Librespot.Tracks Option

namespace Librespot.Daemon

/-- What plays, what is fetched to play next, and the jobs that are to change it. -/
structure PlayPlan where
  loader : LoaderLane Work
  worker : Worker
  results : List LoaderResult
  lists : List TrackList
  tracks : Option ListId
  track : Option ProvidedTrack
  options : Option ContextPlayerOptions
  contextUri : String
  loadGen : Nat
  prefetchGen : Nat
  primary : Option Stream
  secondary : Option Stream

/-- Which list is current, the number of the last track queued in it, and whether to sleep after it.
-/
structure QueueState where
  sleepAtEndOfTrack : Bool
  queueID : Nat
  tracks : Option ListId

/-- A load takes the place of what plays and of what was prefetched. -/
def PlayPlan.load (job : LoaderJob Work) (r : PlayPlan) : PlayPlan :=
  { r with
    loader := (r.loader.submit job).2
    loadGen := r.loadGen + 1, prefetchGen := r.prefetchGen + 1
    primary := none, secondary := none }

/-- A step of navigation has gone to the lane, and what plays goes on. -/
def PlayPlan.press (job : LoaderJob Work) (r : PlayPlan) : PlayPlan :=
  { r with loader := (r.loader.submit job).2, loadGen := r.loadGen + 1 }

namespace AppPlayer

variable {cfg : Config} {m : Moment} {p p' : AppPlayer} {k : Then}

def plan (p : AppPlayer) : PlayPlan where
  loader := p.loader
  worker := p.worker
  results := p.results
  lists := p.lists
  tracks := p.state.tracks
  track := p.state.player.track
  options := p.state.player.options
  contextUri := p.state.player.contextUri
  loadGen := p.loadGen
  prefetchGen := p.prefetchGen
  primary := p.primaryStream
  secondary := p.secondaryStream

def queueState (p : AppPlayer) : QueueState where
  sleepAtEndOfTrack := p.sleepAtEndOfTrack
  queueID := p.state.queueID
  tracks := p.state.tracks

/-! ## Handlers that leave both as they are -/

/-- The handler changes neither. -/
structure Unmoved (p p' : AppPlayer) : Prop where
  plan : p'.plan = p.plan
  queueState : p'.queueState = p.queueState

theorem Unmoved.refl (p : AppPlayer) : Unmoved p p := ⟨rfl, rfl⟩

theorem play_unmoved (m : Moment) (p : AppPlayer) : Unmoved p (p.play m) := by
  unfold play
  split
  · split <;> exact ⟨rfl, rfl⟩
  · split <;> exact ⟨rfl, rfl⟩

theorem seek_unmoved (m : Moment) (position : Int) (p : AppPlayer) :
    Unmoved p (p.seek m position) := by
  unfold seek
  split
  · exact .refl p
  · split <;> exact ⟨rfl, rfl⟩

theorem pause_unmoved (m : Moment) (p : AppPlayer) : Unmoved p (p.pause m) := by
  unfold pause
  split
  · split <;> exact ⟨rfl, rfl⟩
  · split <;> exact ⟨rfl, rfl⟩

theorem settle_unmoved {hasNext : Bool} {err : Option LoadErr}
    (h : p.settle m k hasNext err = some p') : Unmoved p p' := by
  induction k generalizing hasNext err p with
  | log | skipNext => exact some.inj h ▸ .refl p
  | apiPlay position =>
    cases err with
    | some => exact some.inj h ▸ .refl p
    | none =>
      have hseek := seek_unmoved m position p
      simp only [settle] at h
      split at h
      · exact some.inj h ▸ .refl p
      · split at h
        · exact some.inj h ▸ hseek
        · have hplay := play_unmoved m (p.seek m position)
          exact some.inj h ▸ ⟨hplay.plan.trans hseek.plan, hplay.queueState.trans hseek.queueState⟩
  | autoplayLoaded k ih | orSkip drop k ih | orSkipped k ih => exact ih h
  | advanced _ _ _ ih =>
    have hstill := ih h
    exact ⟨hstill.plan, hstill.queueState⟩
  | playerEnd =>
    simp only [settle] at h
    split at h
    · exact some.inj h ▸ .refl p
    · exact emitMprisUpdate_eq h ▸ .refl p

theorem discard_unmoved (c : Commit) (p : AppPlayer) : Unmoved p (p.discard c) := by
  unfold discard
  split
  · split <;> exact ⟨rfl, rfl⟩
  · exact .refl p

theorem handlePlayerEvent_unmoved {ev : PlayerEvent} (hev : ev.type ≠ .notPlaying)
    (h : p.handlePlayerEvent cfg m ev = some p') : Unmoved p p' := by
  unfold handlePlayerEvent at h
  split at h
  · exact emitMprisUpdate_eq h ▸ ⟨rfl, rfl⟩
  · exact emitMprisUpdate_eq h ▸ ⟨rfl, rfl⟩
  · exact emitMprisUpdate_eq h ▸ ⟨rfl, rfl⟩
  · rename_i hnot
    exact absurd hnot hev
  · exact emitMprisUpdate_eq h ▸ ⟨rfl, rfl⟩

theorem receivePlayerEvent_unmoved {ev : PlayerEvent} (hev : ev.type ≠ .notPlaying)
    (h : p.receivePlayerEvent cfg m ev = some p') : Unmoved p p' := by
  unfold receivePlayerEvent at h
  split at h
  · split at h
    · exact some.inj h ▸ ⟨rfl, rfl⟩
    · exact some.inj h ▸ ⟨rfl, rfl⟩
  · exact handlePlayerEvent_unmoved hev h

theorem applyPaused_unmoved (m : Moment) (paused : Bool) (p : AppPlayer) :
    Unmoved p (p.applyPaused m paused) := by
  unfold applyPaused
  split
  · split <;> exact ⟨rfl, rfl⟩
  · split <;> exact ⟨rfl, rfl⟩

theorem commitLoad_plan (m : Moment) (stream : Stream) (paused : Bool) (position : Int)
    (p : AppPlayer) :
    (p.commitLoad m stream paused position).plan = { p.plan with primary := some stream } ∧
      (p.commitLoad m stream paused position).queueState = p.queueState := by
  unfold commitLoad
  by_cases hasked : p.state.player.isPaused = paused
  · simp only [if_pos hasked]
    exact ⟨rfl, rfl⟩
  · simp only [if_neg hasked]
    have hstill := applyPaused_unmoved m p.state.player.isPaused p
    exact ⟨congrArg (fun r : PlayPlan => { r with primary := some stream }) hstill.plan,
      hstill.queueState⟩

theorem commitPrefetch_plan (stream : Stream) (p : AppPlayer) :
    (p.commitPrefetch stream).plan = { p.plan with secondary := some stream } := rfl

/-- The load job asks for the track at `uri`, with a prefetched stream only if it is of that track.
-/
structure Fetches (uri : String) (r : PlayPlan) (job : LoaderJob Work) (load : LoadJob) : Prop where
  cls : job.cls = .load
  gen : job.gen = r.loadGen + 1
  run : job.run = .load load
  uri : spotifyIdFromUri uri = some (.ok load.spotId)
  prefetched : ∀ stream, load.prefetched = some stream → stream.is load.spotId = true

variable {drop : Bool} {delay : Int} {snap : TrackList.Snapshot} {id : ListId}
  {job : LoaderJob Work}

theorem loadCurrentTrack_plan {paused resume : Bool} (hplayable : Playable p.state.player.trackUri)
    (h : p.loadCurrentTrack m paused drop resume delay k = some p') :
    ∃ job load, Fetches p.state.player.trackUri p.plan job load ∧ p'.plan = p.plan.load job := by
  obtain ⟨id, hid, htyp⟩ := hplayable
  simp only [loadCurrentTrack, bind_eq_bind, hid, bind_some] at h
  rw [if_neg (by rcases htyp with htyp | htyp <;> simp [htyp])] at h
  cases h
  refine ⟨_, _, ⟨rfl, rfl, rfl, hid, ?_⟩, rfl⟩
  intro stream hstream
  exact (filter_eq_some_iff.mp hstream).2

/-- The snapshot's track is published and loaded. -/
def Shows (snap : TrackList.Snapshot) (p p' : AppPlayer) : Prop :=
  ∃ job load, Fetches snap.current.uri p.plan job load ∧
    p'.plan = { p.plan with track := some snap.current }.load job

theorem Shows.of_plan {q : AppPlayer} {paused resume : Bool}
    (hq : q.plan = { p.plan with track := some snap.current })
    (hplayable : Playable snap.current.uri)
    (h : q.loadCurrentTrack m paused drop resume delay k = some p') : Shows snap p p' := by
  have huri : q.state.player.trackUri = snap.current.uri := by
    have htrack : q.state.player.track = some snap.current := congrArg PlayPlan.track hq
    simp [PlayerState.trackUri, htrack]
  have hgen : q.plan.loadGen = p.plan.loadGen := by rw [hq]
  obtain ⟨job, load, hload, hplan⟩ := loadCurrentTrack_plan (huri ▸ hplayable) h
  rw [huri] at hload
  exact ⟨job, load, ⟨hload.cls, hgen ▸ hload.gen, hload.run, hload.uri, hload.prefetched⟩,
    hq ▸ hplan⟩

theorem skipLanded_shows (hplayable : Playable snap.current.uri)
    (h : p.skipLanded m snap delay = some p') : Shows snap p p' :=
  .of_plan rfl hplayable h

theorem advance_shows {repeating : Bool} {res : Walked} (hplayable : Playable snap.current.uri)
    (hnext : res.hasNextTrack = true ∨ p.autoplays cfg = false)
    (h : p.listWalked cfg m (.advance repeating drop delay k) res snap = some p') :
    Shows snap p p' := by
  simp only [listWalked, advanceTo] at h
  rw [if_neg ?_] at h
  · refine .of_plan ?_ hplayable h
    cases res.hasNextTrack <;> rfl
  · rintro ⟨hno, hauto⟩
    rcases hnext with hnext | hnext
    · exact hno hnext
    · exact absurd hauto (by rwa [Bool.not_eq_true])

theorem skipPrev_plan {allowSeeking : Bool} (htracks : p.state.tracks = some id)
    (hskips : ¬ (allowSeeking ∧ ¬ p.loadInFlight ∧ m.positionMs > 3000)) :
    ∃ delay, (p.skipPrev cfg m allowSeeking).plan = p.plan.press
      { cls := .nav, gen := p.loadGen + 1, run := .list id (.skipPrev delay) } := by
  unfold skipPrev
  rw [if_neg hskips]
  simp only [htracks]
  exact ⟨_, rfl⟩

theorem skipNext_plan (htracks : p.state.tracks = some id) (h : p.skipNext cfg m none = some p') :
    ∃ repeating delay, p'.plan = p.plan.press
      { cls := .nav, gen := p.loadGen + 1,
        run := .list id (.advance repeating true delay .skipNext) } := by
  simp only [skipNext, advanceNext, htracks, run_eq_some] at h
  obtain ⟨options, -, h⟩ := h
  rw [if_neg (by simp)] at h
  cases h
  exact ⟨_, _, rfl⟩

theorem skipTo_plan {track : ContextTrack} (htracks : p.state.tracks = some id)
    (h : p.skipNext cfg m (some track) = some p') :
    ∃ delay, p'.plan = p.plan.press
      { cls := .load, gen := p.loadGen + 1, run := .list id (.skipTo track delay) } := by
  simp only [skipNext, htracks] at h
  cases h
  exact ⟨_, rfl⟩

theorem addToQueue_plan (track : ContextTrack) (htracks : p.state.tracks = some id) :
    ∃ track', (p.addToQueue track).plan = { p.plan with
      loader := (p.loader.submit
        { cls := .mutate, gen := p.loadGen, run := .list id (.addToQueue track') }).2 } := by
  unfold addToQueue
  split
  · rename_i hnone
    simp [htracks] at hnone
  · rename_i list hlist
    obtain rfl : id = list := some.inj (htracks.symm.trans hlist)
    split <;> exact ⟨_, rfl⟩

theorem setQueue_plan (next : Option (List ContextTrack)) (htracks : p.state.tracks = some id) :
    (p.setQueue next).plan = { p.plan with
      loader := (p.loader.submit
        { cls := .mutate, gen := p.loadGen, run := .list id (.setQueue next) }).2 } := by
  simp only [setQueue, htracks]
  rfl

theorem setOptions_plan {repeatingContext repeatingTrack shufflingContext : Option Bool}
    (htracks : p.state.tracks = some id)
    (h : p.setOptions repeatingContext repeatingTrack shufflingContext = some p') :
    ∃ options,
      (p'.plan = { p.plan with options } ∧
        options.map (·.repeatingTrack) = p.state.player.options.map (·.repeatingTrack)) ∨
      p'.plan = { p.plan with options, prefetchGen := p.prefetchGen + 1, secondary := none } ∨
      ∃ val, p'.plan = { p.plan with
        options, prefetchGen := p.prefetchGen + 1, secondary := none
        loader := (p.loader.submit
          { cls := .mutate, gen := p.loadGen, run := .list id (.shuffle val) }).2 } := by
  unfold setOptions at h
  split at h
  · split at h
    · simp at h
    · cases h
      exact ⟨_, .inl ⟨rfl, rfl⟩⟩
  · rename_i options hoptions
    simp only [htracks] at h
    split at h
    · rename_i list shuffle hlist _
      obtain rfl : id = list := some.inj hlist
      cases h
      exact ⟨_, .inr (.inr ⟨_, rfl⟩)⟩
    · split at h
      · cases h
        exact ⟨_, .inr (.inl rfl)⟩
      · rename_i hsame
        cases h
        refine ⟨_, .inl ⟨rfl, ?_⟩⟩
        rw [hoptions]
        cases repeatingTrack with
        | none => rfl
        | some val =>
          have hval : val = options.repeatingTrack := by
            by_contra hne
            exact hsame (by simp [setOption, hne])
          exact congrArg some hval

theorem submitPrefetch_plan {uri : String} (h : p.submitPrefetch uri = some p') :
    p'.plan = p.plan ∨ ∃ spotId, spotifyIdFromUri uri = some (.ok spotId) ∧
      p'.plan = { p.plan with
        loader := (p.loader.submit
          { cls := .prefetch, gen := p.prefetchGen, run := .prefetch spotId }).2 } := by
  simp only [submitPrefetch, bind_eq_bind] at h
  split at h
  · exact .inl (some.inj h ▸ rfl)
  · obtain ⟨found, hfound, h⟩ := bind_eq_some_iff.mp h
    cases found with
    | error => exact .inl (some.inj h ▸ rfl)
    | ok spotId =>
      simp only at h
      split at h
      · exact .inl (some.inj h ▸ rfl)
      · exact .inr ⟨spotId, hfound, some.inj h ▸ rfl⟩

theorem stale_iff_of_loads (h : job.cls.loads = true) :
    p.stale job = true ↔ job.gen ≠ p.loadGen := by
  cases hcls : job.cls <;> simp_all [stale, generation, LoaderClass.loads]

theorem current_of_loads (hloads : job.cls.loads = true) (h : p.stale job = false) :
    job.gen = p.loadGen := by
  by_contra hne
  rw [(stale_iff_of_loads hloads).mpr hne] at h
  simp at h

theorem current_of_prefetch (hcls : job.cls = .prefetch) (h : p.stale job = false) :
    job.gen = p.prefetchGen := by
  simpa [stale, generation, hcls] using h

theorem loaded_plan {load : LoadJob} {stream : Stream} {streamGen : Nat} {position : Int}
    (h : p.commit cfg m (.loaded load stream streamGen position) = some p') :
    p'.plan = { p.plan with primary := some stream } := by
  rw [(settle_unmoved h).plan, (commitLoad_plan ..).1]
  rfl

theorem receive_cases {res : LoaderResult} {rest : List LoaderResult}
    (hresults : p.results = res :: rest) (h : p.handle cfg (.receive m) = some p') :
    (p.stale res.job = true ∧ p'.plan = { p.plan with results := rest }) ∨
    (p.stale res.job = false ∧ ∃ q q' : AppPlayer, q.plan = { p.plan with results := rest } ∧
      q.commit cfg m res.commit = some q' ∧ p'.plan = q'.plan) := by
  simp only [handle, hresults, applyLoaderResult] at h
  split at h
  · rename_i hcurrent
    obtain ⟨q', hq', rfl⟩ := map_eq_some_iff.mp h
    refine .inr ⟨?_, _, q', ?_, hq', rfl⟩
    · have hgen : res.job.gen = p.loadGen := hcurrent.2
      simp [stale, generation, hcurrent.1, hgen]
    · rfl
  · have hstale : ({ p with results := rest } : AppPlayer).stale res.job = p.stale res.job := rfl
    split at h
    · rename_i hs
      refine .inl ⟨hstale ▸ hs, ?_⟩
      rw [← some.inj h, (discard_unmoved ..).plan]
      rfl
    · rename_i hs
      exact .inr ⟨by simpa [hstale] using hs, _, p', rfl, h, rfl⟩

end AppPlayer

end Librespot.Daemon
