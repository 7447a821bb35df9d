import Librespot.Daemon.Requests

/-!
# The jobs that the handlers submit

The work of a job says which class it has and what its callback can be. Of the
callbacks only that of an advance moves the counter of refused tracks.
-/

open Librespot.Tracks List Option

namespace Librespot.Daemon

def playable (uri : String) : Bool := decide (Playable uri)

theorem playable_iff {uri : String} : playable uri = true ↔ Playable uri := decide_eq_true_iff

def Then.Flat : Then → Prop
  | .log | .apiPlay .. | .playerEnd | .skipNext => True
  | .autoplayLoaded k | .orSkipped k => k.Flat
  | .orSkip .. | .advanced .. => False

def Then.Tame : Then → Prop
  | .orSkip _ k | .advanced _ _ k => k.Flat
  | k => k.Flat

def Then.isAdvance : Then → Bool
  | .advanced .. => true
  | _ => false

def ListWork.Tame : ListWork → Prop
  | .advance _ _ _ k => k.Flat
  | _ => True

def Work.Tame : Work → Prop
  | .resolve job => job.k.Flat
  | .list _ work => work.Tame
  | .load job => job.k.Tame
  | .station _ _ _ k => k.Flat
  | _ => True

def ListWork.cls : ListWork → LoaderClass
  | .peekNext => .prefetch
  | .shuffle _ | .addToQueue _ | .setQueue _ => .mutate
  | .skipPrev _ | .advance .. => .nav
  | .skipTo .. => .load

def Work.cls : Work → LoaderClass
  | .list _ work => work.cls
  | .prefetch _ => .prefetch
  | _ => .load

structure LoaderJob.Lawful (job : LoaderJob Work) : Prop where
  tame : job.run.Tame
  cls : job.cls = job.run.cls

def Work.special : Work → Bool
  | .resolve _ | .list _ (.addToQueue _) | .list _ (.setQueue _) => true
  | _ => false

def Command.special : Command → Bool
  | .play _ | .addToQueue _ | .setQueue _ => true
  | _ => false

/-- What has been done to the lane: at most one job was submitted, or the loads were dropped. -/
inductive Hands (extra : Bool) (l : LoaderLane Work) : LoaderLane Work → Prop
  | kept : Hands extra l l
  | submitted (job : LoaderJob Work) (hjob : job.Lawful)
      (hextra : job.run.special = true → extra = true) : Hands extra l (l.submit job).2
  | dropped : Hands extra l l.dropLoads.2

theorem Hands.mem_queue {extra : Bool} {l l' : LoaderLane Work} (h : Hands extra l l')
    {q : LoaderJob Work} (hq : q ∈ l'.queue) :
    q ∈ l.queue ∨ q.Lawful ∧ (q.run.special = true → extra = true) := by
  cases h with
  | kept => exact .inl hq
  | submitted _ hjob hextra =>
    rcases LoaderLane.mem_submit hq with hq | rfl
    · exact .inl hq
    · exact .inr ⟨hjob, hextra⟩
  | dropped =>
    left
    unfold LoaderLane.dropLoads at hq
    split at hq
    · exact hq
    · exact mem_of_mem_filter hq

def Commit.Tame (ofLoad : Bool) : Commit → Prop
  | .call k _ => if ofLoad then k.Tame else k.Flat
  | .noStation k | .station _ _ k => k.Flat
  | .resolved job _ _ => job.k.Flat
  | .walkFailed work _ | .walked _ work _ _ => work.Tame
  | .loaded job _ _ _ => ofLoad = true ∧ job.k.Tame
  | _ => True

theorem runWork_tame {g : Rand} {a : Answers} {lists lists' : List TrackList} {work : Work}
    {commit : Commit} (hwork : work.Tame) (h : runWork g a lists work = some (commit, lists')) :
    commit.Tame work.isLoad := by
  cases ends_of_runWork h with
  | loaded => exact ⟨rfl, hwork⟩
  | unfollowed | abandoned | transferred | unanswered | apiPlay | unfetched | prefetched => trivial
  | _ => exact hwork

namespace AppPlayer

variable {cfg : Config} {g : Rand} {m : Moment} {p q p' : AppPlayer} {k : Then}
  {extra : Bool}

def Keeps (p p' : AppPlayer) : Prop :=
  p'.consecutiveUnplayableSkips = p.consecutiveUnplayableSkips ∨
    p'.consecutiveUnplayableSkips = 0 ∧ ¬ Playable p'.state.player.trackUri

structure Upholds (extra : Bool) (p p' : AppPlayer) : Prop where
  skips : Keeps p p'
  lane : Hands extra p.loader p'.loader

theorem Upholds.of_eq (hskips : p'.consecutiveUnplayableSkips = p.consecutiveUnplayableSkips)
    (hloader : p'.loader = p.loader) : Upholds extra p p' :=
  ⟨.inl hskips, hloader ▸ .kept⟩

theorem Upholds.after (h : Upholds extra q p')
    (hskips : q.consecutiveUnplayableSkips = p.consecutiveUnplayableSkips)
    (hloader : q.loader = p.loader) : Upholds extra p p' := by
  obtain ⟨hs, hlane⟩ := h
  rw [Keeps, hskips] at hs
  rw [hloader] at hlane
  exact ⟨hs, hlane⟩

theorem submit_upholds {job : LoaderJob Work} (hjob : job.Lawful)
    (hextra : job.run.special = true → extra = true) (p : AppPlayer) :
    Upholds extra p (p.submit job) :=
  ⟨.inl rfl, .submitted job hjob hextra⟩

structure Rests (p p' : AppPlayer) : Prop where
  skips : p'.consecutiveUnplayableSkips = p.consecutiveUnplayableSkips
  loadGen : p'.loadGen = p.loadGen
  loader : p'.loader = p.loader
  track : p'.state.player.track = p.state.player.track

theorem Rests.upholds (h : Rests p p') : Upholds extra p p' := .of_eq h.skips h.loader

theorem Upholds.rests (h : Upholds extra p q) (h' : Rests q p') : Upholds extra p p' := by
  obtain ⟨hskips, hlane⟩ := h
  rw [Keeps, PlayerState.trackUri, ← h'.track, ← h'.skips] at hskips
  rw [← h'.loader] at hlane
  exact ⟨hskips, hlane⟩

theorem Rests.trans (h : Rests p q) (h' : Rests q p') : Rests p p' :=
  ⟨h'.skips.trans h.skips, h'.loadGen.trans h.loadGen, h'.loader.trans h.loader,
    h'.track.trans h.track⟩

theorem play_rests (m : Moment) (p : AppPlayer) : Rests p (p.play m) := by
  unfold play
  split
  · split <;> exact ⟨rfl, rfl, rfl, rfl⟩
  · split <;> exact ⟨rfl, rfl, rfl, rfl⟩

theorem pause_rests (m : Moment) (p : AppPlayer) : Rests p (p.pause m) := by
  unfold pause
  split
  · split <;> exact ⟨rfl, rfl, rfl, rfl⟩
  · split <;> exact ⟨rfl, rfl, rfl, rfl⟩

theorem seek_rests (m : Moment) (position : Int) (p : AppPlayer) : Rests p (p.seek m position) := by
  unfold seek
  split
  · exact ⟨rfl, rfl, rfl, rfl⟩
  · split <;> exact ⟨rfl, rfl, rfl, rfl⟩

theorem emitMprisUpdate_rests (h : p.emitMprisUpdate = some p') : Rests p p' := by
  rw [emitMprisUpdate_eq h]
  exact ⟨rfl, rfl, rfl, rfl⟩

variable {drop hasNext : Bool} {delay : Int}

theorem settle_rests (hk : k.Flat) {err : Option LoadErr} (h : p.settle m k hasNext err = some p') :
    Rests p p' := by
  induction k generalizing hasNext err with
  | log | skipNext => exact some.inj h ▸ ⟨rfl, rfl, rfl, rfl⟩
  | apiPlay position =>
    cases err with
    | some => exact some.inj h ▸ ⟨rfl, rfl, rfl, rfl⟩
    | none =>
      simp only [settle] at h
      split at h
      · exact some.inj h ▸ ⟨rfl, rfl, rfl, rfl⟩
      · split at h
        · exact some.inj h ▸ seek_rests m position p
        · exact some.inj h ▸ (seek_rests m position p).trans (play_rests m _)
  | autoplayLoaded k ih | orSkipped k ih => exact ih hk h
  | orSkip | advanced => exact absurd hk id
  | playerEnd =>
    simp only [settle] at h
    split at h
    · exact some.inj h ▸ ⟨rfl, rfl, rfl, rfl⟩
    · exact emitMprisUpdate_rests h

theorem settle_tame (hk : k.Tame) {err : Option LoadErr} (h : p.settle m k hasNext err = some p') :
    p'.loader = p.loader ∧ p'.state.player.track = p.state.player.track ∧
      p'.consecutiveUnplayableSkips = if k.isAdvance then 0 else p.consecutiveUnplayableSkips := by
  cases k with
  | orSkip _ k | advanced _ _ k =>
    obtain ⟨hskips, -, hloader, htrack⟩ := settle_rests (k := k) hk h
    exact ⟨hloader, htrack, hskips⟩
  | _ =>
    obtain ⟨hskips, -, hloader, htrack⟩ := settle_rests hk h
    exact ⟨hloader, htrack, hskips⟩

theorem loadCurrentTrack_upholds {paused resume : Bool} (hk : k.Tame)
    (h : p.loadCurrentTrack m paused drop resume delay k = some p') : Upholds extra p p' := by
  -- A track that cannot be asked for ends the load, and an advance forgets what it has counted.
  have hfails (err : LoadErr) (hno : ¬ Playable p.state.player.trackUri)
      (h : { p with primaryStream := none }.settle m k false (some err) = some p') :
      Upholds extra p p' := by
    obtain ⟨hloader, htrack, hskips⟩ := settle_tame hk h
    refine ⟨?_, hloader ▸ .kept⟩
    split at hskips
    · refine .inr ⟨hskips, ?_⟩
      rw [PlayerState.trackUri, htrack]
      exact hno
    · exact .inl hskips
  simp only [loadCurrentTrack, run_eq_some] at h
  obtain ⟨res, hid, h⟩ := h
  cases res with
  | error =>
    refine hfails _ ?_ h
    rintro ⟨id, hok, -⟩
    rw [hok] at hid
    simp at hid
  | ok id =>
    simp only at h
    split at h
    · rename_i htyp
      refine hfails _ ?_ h
      rintro ⟨id', hok, hor⟩
      rw [hok] at hid
      obtain rfl : id' = id := by simpa using hid
      tauto
    · cases h
      exact (submit_upholds (by exact ⟨hk, rfl⟩) (by simp [Work.special]) _).after rfl rfl

theorem startAutoplay_upholds {seed : List String} (hk : k.Flat)
    (h : p.startAutoplay m seed drop k = some p') : Upholds extra p p' := by
  unfold startAutoplay at h
  split at h
  · exact (settle_rests hk h).upholds
  · cases h
    exact (submit_upholds (by exact ⟨hk, rfl⟩) (by simp [Work.special]) _).after rfl rfl

theorem advanceTo_upholds {seed : List String} (hk : k.Flat)
    (h : p.advanceTo cfg m hasNext seed drop delay k = some p') : Upholds extra p p' := by
  simp only [advanceTo] at h
  split at h
  · exact (startAutoplay_upholds hk h).after rfl rfl
  · exact (loadCurrentTrack_upholds (k := .advanced hasNext drop k) hk h).after rfl rfl

theorem listJob_upholds {cls : LoaderClass} {list : ListId} {work : ListWork} (hwork : work.Tame)
    (hcls : cls = work.cls) (hextra : (Work.list list work).special = true → extra = true)
    (p : AppPlayer) : Upholds extra p (p.listJob cls list work) := by
  have hjob : LoaderJob.Lawful { cls, gen := p.generation cls, run := .list list work } :=
    ⟨hwork, hcls⟩
  exact submit_upholds hjob hextra p

theorem advanceNext_upholds {forceNext : Bool} (hk : k.Flat)
    (h : p.advanceNext cfg m forceNext drop delay k = some p') : Upholds extra p p' := by
  simp only [advanceNext] at h
  split at h
  · exact advanceTo_upholds hk h
  · simp only [run_eq_some] at h
    obtain ⟨options, -, h⟩ := h
    split at h
    · exact (advanceTo_upholds hk h).after rfl rfl
    · cases h
      exact (listJob_upholds (by exact hk) (by rfl) (by simp [Work.special]) _).after rfl rfl

theorem skipPrev_upholds (m : Moment) (allowSeeking : Bool) (p : AppPlayer) :
    Upholds extra p (p.skipPrev cfg m allowSeeking) := by
  unfold skipPrev
  split
  · exact (seek_rests m 0 p).upholds
  · split
    · exact .of_eq rfl rfl
    · exact (listJob_upholds (by trivial) (by rfl) (by simp [Work.special]) _).after rfl rfl

theorem skipNext_upholds {track : Option ContextTrack} (h : p.skipNext cfg m track = some p') :
    Upholds extra p p' := by
  simp only [skipNext] at h
  cases track with
  | none => exact (advanceNext_upholds (by trivial) h).after rfl rfl
  | some =>
    simp only at h
    split at h
    · exact some.inj h ▸ .of_eq rfl rfl
    · cases h
      exact (listJob_upholds (by trivial) (by rfl) (by simp [Work.special]) _).after rfl rfl

theorem loadContext_upholds {context : Context} {skipTo : Option SkipTo} {paused : Bool}
    (hk : k.Flat) (h : p.loadContext m context skipTo paused drop k = some p') :
    Upholds true p p' := by
  simp only [loadContext, run_eq_some] at h
  obtain ⟨options, -, queued, -, h⟩ := h
  cases h
  exact (submit_upholds (by exact ⟨hk, rfl⟩) (fun _ => rfl) _).after rfl rfl

theorem submitPrefetch_upholds {uri : String} (h : p.submitPrefetch uri = some p') :
    Upholds extra p p' := by
  unfold submitPrefetch at h
  split at h
  · exact some.inj h ▸ .of_eq rfl rfl
  · simp only [run_eq_some] at h
    obtain ⟨res, -, h⟩ := h
    cases res with
    | error => exact some.inj h ▸ .of_eq rfl rfl
    | ok =>
      simp only at h
      split at h
      · exact some.inj h ▸ .of_eq rfl rfl
      · exact some.inj h ▸ submit_upholds (by exact ⟨trivial, rfl⟩) (by simp [Work.special]) p

theorem prefetchNext_upholds (h : p.prefetchNext = some p') : Upholds extra p p' := by
  simp only [prefetchNext, run_eq_some] at h
  obtain ⟨options, -, h⟩ := h
  split at h
  · exact submitPrefetch_upholds h
  · split at h
    · exact some.inj h ▸ .of_eq rfl rfl
    · exact some.inj h ▸ listJob_upholds (by trivial) (by rfl) (by simp [Work.special]) p

theorem handlePlayerEvent_upholds {ev : PlayerEvent}
    (h : p.handlePlayerEvent cfg m ev = some p') : Upholds extra p p' := by
  have hchanged (paused : Bool) (h : p.playbackChanged paused = some p') : Upholds extra p p' :=
    (emitMprisUpdate_rests h).upholds.after rfl rfl
  unfold handlePlayerEvent at h
  split at h
  · exact hchanged false h
  · exact hchanged false h
  · exact hchanged true h
  · split at h
    · exact some.inj h ▸ (pause_rests m _).upholds.after rfl rfl
    · exact advanceNext_upholds (by trivial) h
  · exact (emitMprisUpdate_rests h).upholds

theorem abandonTransfer_upholds (h : p.abandonTransfer m = some p') : Upholds extra p p' := by
  simp only [abandonTransfer, run_eq_some] at h
  obtain ⟨q, hq, h⟩ := h
  cases h
  unfold dropStream at hq
  split at hq
  · cases hq
    exact .of_eq rfl rfl
  · rw [emitMprisUpdate_eq hq]
    exact .of_eq rfl rfl

theorem takeTransfer_upholds {req : TransferCommand} (h : p.takeTransfer req = some p') :
    Upholds extra p p' := by
  simp only [takeTransfer, Option.bind_eq_bind, Option.bind_eq_some_iff] at h
  obtain ⟨continues, -, h⟩ := h
  split at h
  · cases h
    exact (submit_upholds (by exact ⟨trivial, rfl⟩) (by simp [Work.special]) _).after rfl rfl
  · simp only [Option.bind_eq_some_iff] at h
    obtain ⟨track, -, h⟩ := h
    cases h
    exact (submit_upholds (by exact ⟨trivial, rfl⟩) (by simp [Work.special]) _).after rfl rfl

theorem transfer_upholds {req : TransferCommand} (h : p.transfer m req = some p') :
    Upholds extra p p' := by
  simp only [transfer, bind_eq_bind] at h
  split at h
  · simp only [bind_eq_some_iff] at h
    obtain ⟨context, -, h⟩ := h
    cases context with
    | some => exact (takeTransfer_upholds h).after rfl rfl
    | none =>
      simp only at h
      split at h
      · exact (abandonTransfer_upholds h).after rfl rfl
      · exact some.inj h ▸ .of_eq rfl rfl
  · exact (takeTransfer_upholds h).after rfl rfl

theorem followPosition_rests (want : Int) (p : AppPlayer) : Rests p (p.followPosition m want) := by
  unfold followPosition
  split
  · exact seek_rests m want p
  · exact ⟨rfl, rfl, rfl, rfl⟩

theorem followPaused_rests (paused : Bool) (p : AppPlayer) : Rests p (p.followPaused m paused) := by
  unfold followPaused
  split
  · exact pause_rests m p
  · split
    · exact play_rests m p
    · exact ⟨rfl, rfl, rfl, rfl⟩

theorem continuePlayback_rests (playback : Playback) (paused : Bool) (p : AppPlayer) :
    Rests p (p.continuePlayback m playback paused) := by
  unfold continuePlayback
  have hwant := followPosition_rests (m := m) (wantedPosition m.now playback) p.invalidateUpcoming
  have hfirst : Rests p p.invalidateUpcoming := ⟨rfl, rfl, rfl, rfl⟩
  refine (hfirst.trans hwant).trans (Rests.trans ?_ (followPaused_rests paused _))
  exact ⟨rfl, rfl, rfl, rfl⟩

theorem transferred_upholds {job : TransferJob} {list : ListId} {snap : TrackList.Snapshot}
    {played : Option Context} (h : p.transferred m job list snap played = some p') :
    Upholds extra p p' := by
  have hskips : (p.installTransfer job list snap played).consecutiveUnplayableSkips =
      p.consecutiveUnplayableSkips := by
    unfold installTransfer
    split <;> split <;> rfl
  have hloader : (p.installTransfer job list snap played).loader = p.loader :=
    (installTransfer_quiet job list snap played p).loader
  unfold transferred at h
  split at h
  · exact some.inj h ▸ (continuePlayback_rests ..).upholds.after hskips hloader
  · exact (loadCurrentTrack_upholds (k := .orSkip true .log) (by trivial) h).after hskips hloader

theorem setOptions_upholds {repeatingContext repeatingTrack shuffle : Option Bool}
    (h : p.setOptions repeatingContext repeatingTrack shuffle = some p') : Upholds extra p p' := by
  simp only [setOptions] at h
  split at h
  · split at h
    · simp at h
    · exact some.inj h ▸ .of_eq rfl rfl
  · split at h
    · cases h
      exact ((listJob_upholds (by trivial) (by rfl) (by simp [Work.special]) _).after rfl rfl).rests
        ⟨rfl, rfl, rfl, rfl⟩
    · cases h
      split <;> exact .of_eq rfl rfl

theorem addToQueue_upholds (track : ContextTrack) (p : AppPlayer) :
    Upholds true p (p.addToQueue track) := by
  unfold addToQueue
  split
  · exact .of_eq rfl rfl
  · split
    · exact (listJob_upholds (by trivial) (by rfl) (fun _ => rfl) _).after rfl rfl
    · exact listJob_upholds (by trivial) (by rfl) (fun _ => rfl) p

theorem setQueue_upholds (next : Option (List ContextTrack)) (p : AppPlayer) :
    Upholds true p (p.setQueue next) := by
  unfold setQueue
  split
  · exact .of_eq rfl rfl
  · exact listJob_upholds (by trivial) (by rfl) (fun _ => rfl) p

theorem playCommand_upholds {req : PlayCommand} (h : p.playCommand m req = some p') :
    Upholds true p p' := by
  simp only [playCommand, run_eq_some] at h
  obtain ⟨origin, -, options, -, h⟩ := h
  exact (loadContext_upholds (by trivial) h).after rfl rfl

theorem stopPlayback_upholds (p : AppPlayer) : Upholds extra p p.stopPlayback :=
  ⟨.inl rfl, .dropped⟩

theorem handleCommand_upholds {cmd : Command} (h : p.handleCommand cfg m cmd = some p') :
    Upholds cmd.special p p' := by
  cases cmd with
  | transfer => exact transfer_upholds h
  | play => exact playCommand_upholds h
  | apiPlay =>
    simp only [handleCommand, apiPlay, run_eq_some] at h
    obtain ⟨skipTo, -, h⟩ := h
    exact some.inj h ▸ (submit_upholds (by exact ⟨trivial, rfl⟩) (by simp [Work.special]) _).after
      rfl rfl
  | resume => exact some.inj h ▸ (play_rests m p).upholds
  | pause => exact some.inj h ▸ (pause_rests m p).upholds
  | seek position => exact some.inj h ▸ (seek_rests m position p).upholds
  | skipPrev allowSeeking => exact some.inj h ▸ skipPrev_upholds m allowSeeking p
  | skipNext => exact skipNext_upholds h
  | setOptions =>
    simp only [handleCommand, run_eq_some] at h
    obtain ⟨q, hq, h⟩ := h
    have hsets : Upholds false p q := setOptions_upholds hq
    cases h
    split
    · exact hsets.rests ⟨rfl, rfl, rfl, rfl⟩
    · exact hsets
  | setQueue next => exact some.inj h ▸ setQueue_upholds next p
  | addToQueue track => exact some.inj h ▸ addToQueue_upholds track p
  | setSleepTimer => exact some.inj h ▸ .of_eq rfl rfl
  | stop => exact some.inj h ▸ stopPlayback_upholds p

end AppPlayer

end Librespot.Daemon
