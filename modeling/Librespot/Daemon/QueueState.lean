import Librespot.Daemon.PlayPlan

/-!
# What few steps change

The sleep at the end of the track, the number of the last track that was queued without an id,
which list is the current one, and the prefetch counter.
-/

open Librespot.Tracks List Option

namespace Librespot.Daemon

/-- What a commit makes of it: only a transfer starts the numbers again. -/
def QueueState.commit (n : QueueState) : Commit → QueueState
  | .resolved _ list _ => { n with tracks := some list }
  | .abandonTransfer => { n with queueID := 0, tracks := none }
  | .transferred job list _ _ =>
    { n with queueID := highestQueueID job.state.queue, tracks := some list }
  | _ => n

namespace AppPlayer

variable {cfg : Config} {g : Rand} {m : Moment} {p q p' : AppPlayer} {k : Then} {n : QueueState}

/-- The prefetch counter does not go back, and no job that comes in is ahead of it. -/
structure PrefetchGrows (p p' : AppPlayer) : Prop where
  gen : p.prefetchGen ≤ p'.prefetchGen
  queue : ∀ q ∈ p'.loader.queue, q.cls = .prefetch →
    q ∈ p.loader.queue ∨ q.gen ≤ p'.prefetchGen

theorem PrefetchGrows.of_eq (hloader : p'.loader = p.loader) (hgen : p.prefetchGen ≤ p'.prefetchGen) :
    PrefetchGrows p p' :=
  ⟨hgen, fun _ hq _ => .inl (hloader ▸ hq)⟩

theorem PrefetchGrows.trans (h : PrefetchGrows p q) (h' : PrefetchGrows q p') :
    PrefetchGrows p p' where
  gen := h.gen.trans h'.gen
  queue job hjob hcls := by
    rcases h'.queue job hjob hcls with hjob | hgen
    · exact (h.queue job hjob hcls).imp_right fun hgen => hgen.trans h'.gen
    · exact .inr hgen

/-- The handler ends with `n`, and its prefetches are numbered as they should be. -/
structure LeavesState (n : QueueState) (p p' : AppPlayer) : Prop where
  grows : PrefetchGrows p p'
  queueState : p'.queueState = n

theorem Unmoved.leaves (h : Unmoved p p') : LeavesState p.queueState p p' :=
  ⟨.of_eq (congrArg PlayPlan.loader h.plan) (congrArg PlayPlan.prefetchGen h.plan).ge, h.queueState⟩

theorem LeavesState.of_eq (hloader : p'.loader = p.loader) (hgen : p.prefetchGen ≤ p'.prefetchGen)
    (hstate : p'.queueState = n) : LeavesState n p p' :=
  ⟨.of_eq hloader hgen, hstate⟩

theorem LeavesState.after {n' : QueueState} (h : LeavesState n q p') (hloader : q.loader = p.loader)
    (hgen : p.prefetchGen ≤ q.prefetchGen) (hstate : n = n') : LeavesState n' p p' :=
  ⟨(PrefetchGrows.of_eq hloader hgen).trans h.grows, h.queueState.trans hstate⟩

theorem submit_leaves {job : LoaderJob Work}
    (hjob : job.cls = .prefetch → job.gen ≤ p.prefetchGen) :
    LeavesState p.queueState p (p.submit job) where
  grows.gen := le_rfl
  grows.queue q hq hcls := by
    rcases LoaderLane.mem_submit hq with hq | rfl
    · exact .inl hq
    · exact .inr (hjob hcls)
  queueState := rfl

theorem submitLoad_leaves (work : Work) (p : AppPlayer) :
    LeavesState p.queueState p (p.submitLoad work) :=
  (submit_leaves (by simp)).after rfl le_rfl rfl

theorem listJob_leaves (cls : LoaderClass) (list : ListId) (work : ListWork) (p : AppPlayer) :
    LeavesState p.queueState p (p.listJob cls list work) := by
  refine submit_leaves fun hcls => ?_
  simp [generation, show cls = .prefetch from hcls]

variable {drop : Bool} {delay : Int} {err : LoadErr} {op : Op} {snap : TrackList.Snapshot}

theorem loadCurrentTrack_leaves {paused resume : Bool}
    (h : p.loadCurrentTrack m paused drop resume delay k = some p') :
    LeavesState p.queueState p p' := by
  have hfails (err : LoadErr)
      (h : { p with primaryStream := none }.settle m k false (some err) = some p') :
      LeavesState p.queueState p p' := by
    have hleaves := (settle_unmoved h).leaves
    exact hleaves.after rfl le_rfl rfl
  simp only [loadCurrentTrack, run_eq_some] at h
  obtain ⟨res, -, h⟩ := h
  cases res with
  | error => exact hfails _ h
  | ok =>
    simp only at h
    split at h
    · exact hfails _ h
    · cases h
      exact (submit_leaves (by simp)).after rfl (Nat.le_succ _) rfl

theorem startAutoplay_leaves {seed : List String} (h : p.startAutoplay m seed drop k = some p') :
    LeavesState p.queueState p p' := by
  unfold startAutoplay at h
  split at h
  · exact (settle_unmoved h).leaves
  · exact some.inj h ▸ submitLoad_leaves _ p

theorem advanceTo_leaves {hasNext : Bool} {seed : List String}
    (h : p.advanceTo cfg m hasNext seed drop delay k = some p') :
    LeavesState p.queueState p p' := by
  simp only [advanceTo] at h
  split at h
  · exact (startAutoplay_leaves h).after rfl le_rfl rfl
  · exact (loadCurrentTrack_leaves h).after rfl le_rfl rfl

theorem advanceNext_leaves {forceNext : Bool}
    (h : p.advanceNext cfg m forceNext drop delay k = some p') : LeavesState p.queueState p p' := by
  simp only [advanceNext] at h
  split at h
  · exact advanceTo_leaves h
  · simp only [run_eq_some] at h
    obtain ⟨options, -, h⟩ := h
    split at h
    · exact (advanceTo_leaves h).after rfl le_rfl rfl
    · exact some.inj h ▸ (listJob_leaves ..).after rfl le_rfl rfl

theorem land_leaves (h : p.land cfg m k err = some p') : LeavesState p.queueState p p' := by
  induction k generalizing p with
  | log | apiPlay | playerEnd | skipNext | autoplayLoaded => exact (settle_unmoved h).leaves
  | orSkip => exact advanceNext_leaves h
  | orSkipped _ ih => exact ih h
  | advanced _ _ _ ih =>
    simp only [land] at h
    split at h
    · exact (ih h).after rfl le_rfl rfl
    · exact (advanceNext_leaves h).after rfl le_rfl rfl

theorem call_leaves (h : p.call cfg m k err = some p') : LeavesState p.queueState p p' := by
  unfold call at h
  split at h
  · exact land_leaves h
  · exact (settle_unmoved h).leaves

theorem loadContext_leaves {context : Context} {skipTo : Option SkipTo} {paused : Bool}
    (h : p.loadContext m context skipTo paused drop k = some p') :
    LeavesState p.queueState p p' := by
  simp only [loadContext, run_eq_some] at h
  obtain ⟨options, -, queued, -, h⟩ := h
  exact some.inj h ▸ (submitLoad_leaves ..).after rfl le_rfl rfl

theorem submitPrefetch_leaves {uri : String} (h : p.submitPrefetch uri = some p') :
    LeavesState p.queueState p p' := by
  unfold submitPrefetch at h
  split at h
  · exact some.inj h ▸ (Unmoved.refl p).leaves
  · simp only [run_eq_some] at h
    obtain ⟨res, -, h⟩ := h
    cases res with
    | error => exact some.inj h ▸ (Unmoved.refl p).leaves
    | ok =>
      simp only at h
      split at h
      · exact some.inj h ▸ (Unmoved.refl p).leaves
      · exact some.inj h ▸ submit_leaves fun _ => le_rfl

theorem prefetchNext_leaves (h : p.prefetchNext = some p') : LeavesState p.queueState p p' := by
  simp only [prefetchNext, run_eq_some] at h
  obtain ⟨options, -, h⟩ := h
  split at h
  · exact submitPrefetch_leaves h
  · split at h
    · exact some.inj h ▸ (Unmoved.refl p).leaves
    · exact some.inj h ▸ listJob_leaves _ _ _ p

/-! ## Events and commands -/

theorem handlePlayerEvent_leaves {ev : PlayerEvent} (h : p.handlePlayerEvent cfg m ev = some p') :
    LeavesState p.queueState p p' ∨
      p.sleepAtEndOfTrack = true ∧
        LeavesState { p.queueState with sleepAtEndOfTrack := false } p p' := by
  by_cases hev : ev.type = .notPlaying
  · simp only [handlePlayerEvent, hev] at h
    split at h
    · rename_i hsleep
      have hpause := pause_unmoved m { p with sleepAtEndOfTrack := false }
      exact some.inj h ▸ .inr ⟨hsleep, hpause.leaves.after rfl le_rfl rfl⟩
    · exact .inl (advanceNext_leaves h)
  · exact .inl (handlePlayerEvent_unmoved hev h).leaves

theorem skipPrev_leaves (m : Moment) (allowSeeking : Bool) (p : AppPlayer) :
    LeavesState p.queueState p (p.skipPrev cfg m allowSeeking) := by
  unfold skipPrev
  split
  · exact (seek_unmoved m 0 p).leaves
  · split
    · exact (Unmoved.refl p).leaves
    · exact (listJob_leaves ..).after rfl le_rfl rfl

theorem skipNext_leaves {track : Option ContextTrack} (h : p.skipNext cfg m track = some p') :
    LeavesState p.queueState p p' := by
  simp only [skipNext] at h
  cases track with
  | none => exact (advanceNext_leaves h).after rfl le_rfl rfl
  | some =>
    simp only at h
    split at h
    · exact some.inj h ▸ .of_eq rfl le_rfl rfl
    · exact some.inj h ▸ (listJob_leaves ..).after rfl le_rfl rfl

theorem abandonTransfer_leaves (h : p.abandonTransfer m = some p') :
    LeavesState { p.queueState with queueID := 0, tracks := none } p p' := by
  simp only [abandonTransfer, run_eq_some] at h
  obtain ⟨q, hq, h⟩ := h
  cases h
  unfold dropStream at hq
  split at hq
  · cases hq
    exact .of_eq rfl (Nat.le_succ _) rfl
  · rw [emitMprisUpdate_eq hq]
    exact .of_eq rfl le_rfl rfl

theorem takeTransfer_leaves {req : TransferCommand} (h : p.takeTransfer req = some p') :
    LeavesState p.queueState p p' := by
  simp only [takeTransfer, Option.bind_eq_bind, Option.bind_eq_some_iff] at h
  obtain ⟨continues, -, h⟩ := h
  split at h
  · exact Option.some.inj h ▸ submitLoad_leaves _ p
  · simp only [Option.bind_eq_some_iff] at h
    obtain ⟨track, -, h⟩ := h
    exact Option.some.inj h ▸ (submitLoad_leaves ..).after rfl le_rfl rfl

theorem transfer_leaves {req : TransferCommand} (h : p.transfer m req = some p') :
    LeavesState p.queueState p p' ∨
      req.state.Bare ∧ LeavesState { p.queueState with queueID := 0, tracks := none } p p' := by
  simp only [transfer, bind_eq_bind] at h
  split at h
  · rename_i hempty
    simp only [bind_eq_some_iff] at h
    obtain ⟨context, hcontext, h⟩ := h
    cases context with
    | some => exact .inl ((takeTransfer_leaves h).after rfl le_rfl rfl)
    | none =>
      simp only at h
      split at h
      · exact .inr ⟨⟨hempty, hcontext⟩, (abandonTransfer_leaves h).after rfl le_rfl rfl⟩
      · exact .inl (some.inj h ▸ .of_eq rfl le_rfl rfl)
  · exact .inl ((takeTransfer_leaves h).after rfl le_rfl rfl)

theorem setOptions_leaves {repeatingContext repeatingTrack shuffle : Option Bool}
    (h : p.setOptions repeatingContext repeatingTrack shuffle = some p') :
    LeavesState p.queueState p p' := by
  simp only [setOptions] at h
  split at h
  · split at h
    · simp at h
    · exact some.inj h ▸ (Unmoved.refl p).leaves
  · split at h
    · cases h
      have hjob := fun list work q => listJob_leaves .mutate list work q
      exact ⟨((hjob ..).after rfl le_rfl rfl).grows.trans (.of_eq rfl (Nat.le_succ _)), rfl⟩
    · cases h
      split
      · exact .of_eq rfl (Nat.le_succ _) rfl
      · exact .of_eq rfl le_rfl rfl

theorem setQueue_leaves (next : Option (List ContextTrack)) (p : AppPlayer) :
    LeavesState p.queueState p (p.setQueue next) := by
  unfold setQueue
  split
  · exact (Unmoved.refl p).leaves
  · exact listJob_leaves _ _ _ p

theorem dropLoads_sublist (l : LoaderLane Work) : l.dropLoads.2.queue.Sublist l.queue := by
  unfold LoaderLane.dropLoads
  split
  · exact List.Sublist.refl _
  · exact filter_sublist

theorem stopPlayback_leaves (p : AppPlayer) : LeavesState p.queueState p p.stopPlayback :=
  ⟨⟨Nat.le_succ _, fun _ hq _ => .inl ((dropLoads_sublist p.loader).subset hq)⟩, rfl⟩

theorem takeOver_queueState (p : AppPlayer) : p.tookOver.queueState = p.queueState := by
  unfold tookOver State.takeOver
  split <;> rfl

theorem continuePlayback_leaves (playback : Playback) (paused : Bool) (p : AppPlayer) :
    LeavesState p.queueState p (p.continuePlayback m playback paused) := by
  have hwant (want : Int) :
      LeavesState p.queueState p (p.invalidateUpcoming.followPosition m want) := by
    unfold followPosition
    split
    · exact (seek_unmoved m _ _).leaves.after rfl (Nat.le_succ _) rfl
    · exact .of_eq rfl (Nat.le_succ _) rfl
  have hpaused (q : AppPlayer) : LeavesState q.queueState q (q.followPaused m paused) := by
    unfold followPaused
    split
    · exact (pause_unmoved m q).leaves
    · split
      · exact (play_unmoved m q).leaves
      · exact .of_eq rfl le_rfl rfl
  have hlast := hwant (wantedPosition m.now playback)
  have hplaying : LeavesState p.queueState p
      ((p.invalidateUpcoming.followPosition m (wantedPosition m.now playback)).updatePlayer fun s =>
        { s with isPlaying := true, isBuffering := false }) :=
    ⟨hlast.grows.trans (.of_eq rfl le_rfl), hlast.queueState⟩
  exact ⟨hplaying.grows.trans (hpaused _).grows, (hpaused _).queueState.trans hplaying.queueState⟩

theorem transferred_leaves {job : TransferJob} {list : ListId}
    {played : Option Context} (h : p.transferred m job list snap played = some p') :
    LeavesState { p.queueState with queueID := highestQueueID job.state.queue, tracks := some list }
      p p' := by
  obtain ⟨hgen, hstate⟩ :
      p.prefetchGen ≤ (p.installTransfer job list snap played).prefetchGen ∧
      (p.installTransfer job list snap played).queueState = { p.queueState with
        queueID := highestQueueID job.state.queue, tracks := some list } := by
    unfold installTransfer
    split <;> split <;> exact ⟨le_rfl, rfl⟩
  have hloader : (p.installTransfer job list snap played).loader = p.loader :=
    (installTransfer_quiet job list snap played p).loader
  unfold transferred at h
  split at h
  · exact some.inj h ▸ (continuePlayback_leaves ..).after hloader hgen hstate
  · exact (loadCurrentTrack_leaves h).after hloader hgen hstate

theorem listFailed_leaves {work : ListWork} (h : p.listFailed m work err = some p') :
    LeavesState p.queueState p p' := by
  cases work with
  | shuffle =>
    simp only [listFailed, run_eq_some] at h
    obtain ⟨options, -, h⟩ := h
    exact some.inj h ▸ .of_eq rfl le_rfl rfl
  | advance => exact (settle_unmoved h).leaves
  | _ => exact some.inj h ▸ (Unmoved.refl p).leaves

theorem listWalked_leaves {work : ListWork} {res : Walked}
    (h : p.listWalked cfg m work res snap = some p') : LeavesState p.queueState p p' := by
  cases work with
  | peekNext => exact submitPrefetch_leaves h
  | shuffle | addToQueue | setQueue => exact some.inj h ▸ .of_eq rfl (Nat.le_succ _) rfl
  | skipPrev | skipTo => exact (loadCurrentTrack_leaves h).after rfl le_rfl rfl
  | advance => exact (advanceTo_leaves h).after rfl le_rfl rfl

theorem commit_leaves {c : Commit} (h : p.commit cfg m c = some p') :
    LeavesState (p.queueState.commit c) p p' := by
  cases c with
  | nothing => exact some.inj h ▸ (Unmoved.refl p).leaves
  | prefetched => exact some.inj h ▸ .of_eq rfl le_rfl rfl
  | call => exact call_leaves h
  | noStation => exact (settle_unmoved h).leaves
  | resolved => exact (loadCurrentTrack_leaves h).after rfl le_rfl rfl
  | abandonTransfer => exact abandonTransfer_leaves h
  | transferred => exact transferred_leaves h
  | walkFailed => exact listFailed_leaves h
  | walked =>
    simp only [commit] at h
    split at h
    · exact listWalked_leaves h
    · exact listFailed_leaves h
  | loaded job stream streamGen position =>
    have hload := commitLoad_plan m stream job.paused position (p.forgetReplacedStreamEvents streamGen)
    exact (settle_unmoved h).leaves.after (congrArg PlayPlan.loader hload.1)
      (congrArg PlayPlan.prefetchGen hload.1).ge hload.2
  | station => exact loadContext_leaves h
  | apiPlay => exact (loadContext_leaves h).after rfl le_rfl (takeOver_queueState p)

theorem applyLoaderResult_leaves {res : LoaderResult}
    (h : p.applyLoaderResult cfg m res = some p') :
    LeavesState p.queueState p p' ∨ p.stale res.job = false ∧
      LeavesState (p.queueState.commit res.commit) p p' := by
  unfold applyLoaderResult at h
  split at h
  · rename_i hcurrent
    obtain ⟨q, hq, rfl⟩ := map_eq_some_iff.mp h
    have hcommit := (commit_leaves hq).after (p := p) rfl le_rfl rfl
    exact .inr ⟨by simp [stale, generation, hcurrent.1, hcurrent.2],
      hcommit.grows.trans (.of_eq rfl le_rfl), hcommit.queueState⟩
  · split at h
    · exact .inl (some.inj h ▸ (discard_unmoved res.commit p).leaves)
    · rename_i hstale
      exact .inr ⟨by simpa using hstale, commit_leaves h⟩

/-- All that a step can do to it. -/
inductive Noted (p : AppPlayer) : Op → QueueState → Prop
  | kept (op : Op) : Noted p op p.queueState
  | timed (m : Moment) (endOfTrack : Bool) :
      Noted p (.command m (.setSleepTimer endOfTrack))
        { p.queueState with sleepAtEndOfTrack := endOfTrack }
  | slept (op : Op) (hsleep : p.sleepAtEndOfTrack = true) :
      Noted p op { p.queueState with sleepAtEndOfTrack := false }
  | numbered (m : Moment) (track : ContextTrack) (huid : track.uid = "") :
      Noted p (.command m (.addToQueue track))
        { p.queueState with queueID := (p.state.queueID + 1) % 2 ^ 64 }
  | abandoned (m : Moment) (req : TransferCommand) (hbare : req.state.Bare) :
      Noted p (.command m (.transfer req)) { p.queueState with queueID := 0, tracks := none }
  | committed (m : Moment) (res : LoaderResult) (hres : p.results.head? = some res)
      (hcurrent : p.stale res.job = false) :
      Noted p (.receive m) (p.queueState.commit res.commit)

theorem LeavesState.kept (h : LeavesState p.queueState p p') :
    ∃ n, Noted p op n ∧ LeavesState n p p' :=
  ⟨_, .kept op, h⟩

theorem handleCommand_leaves {cmd : Command} (h : p.handleCommand cfg m cmd = some p') :
    ∃ n, Noted p (.command m cmd) n ∧ LeavesState n p p' := by
  cases cmd with
  | transfer req =>
    rcases transfer_leaves h with hsame | ⟨hbare, hdropped⟩
    · exact hsame.kept
    · exact ⟨_, .abandoned m req hbare, hdropped⟩
  | play =>
    simp only [handleCommand, playCommand, run_eq_some] at h
    obtain ⟨origin, -, options, -, h⟩ := h
    exact ⟨_, .kept _, (loadContext_leaves h).after rfl le_rfl (takeOver_queueState p)⟩
  | apiPlay =>
    simp only [handleCommand, apiPlay, run_eq_some] at h
    obtain ⟨skipTo, -, h⟩ := h
    exact some.inj h ▸ (submitLoad_leaves _ p).kept
  | resume => exact some.inj h ▸ (play_unmoved m p).leaves.kept
  | pause => exact some.inj h ▸ (pause_unmoved m p).leaves.kept
  | seek position => exact some.inj h ▸ (seek_unmoved m position p).leaves.kept
  | skipPrev allowSeeking => exact some.inj h ▸ (skipPrev_leaves m allowSeeking p).kept
  | skipNext => exact (skipNext_leaves h).kept
  | setOptions =>
    simp only [handleCommand, run_eq_some] at h
    obtain ⟨q, hq, h⟩ := h
    have hset := setOptions_leaves hq
    cases h
    split
    · exact LeavesState.kept ⟨hset.grows.trans (.of_eq rfl le_rfl), hset.queueState⟩
    · exact hset.kept
  | setQueue next => exact some.inj h ▸ (setQueue_leaves next p).kept
  | addToQueue track =>
    cases h
    unfold addToQueue
    split
    · exact (Unmoved.refl p).leaves.kept
    · split
      · rename_i huid
        exact ⟨_, .numbered m track huid, (listJob_leaves ..).after rfl le_rfl rfl⟩
      · exact (listJob_leaves _ _ _ p).kept
  | setSleepTimer endOfTrack =>
    exact some.inj h ▸ ⟨_, .timed m endOfTrack, .of_eq rfl le_rfl rfl⟩
  | stop => exact some.inj h ▸ (stopPlayback_leaves p).kept

theorem event_leaves {ev : PlayerEvent} {draining : List PlayerEvent}
    (h : { p with draining }.handlePlayerEvent cfg m ev = some p') :
    ∃ n, Noted p op n ∧ LeavesState n p p' := by
  rcases handlePlayerEvent_leaves h with hsame | ⟨hsleep, hslept⟩
  · exact ⟨_, .kept _, hsame.after rfl le_rfl rfl⟩
  · exact ⟨_, .slept op hsleep, hslept.after rfl le_rfl rfl⟩

theorem handle_leaves (h : p.handle cfg op = some p') : ∃ n, Noted p op n ∧ LeavesState n p p' := by
  cases op with
  | command => exact handleCommand_leaves h
  | event =>
    simp only [handle, receivePlayerEvent] at h
    split at h
    · split at h <;> exact some.inj h ▸ LeavesState.kept (.of_eq rfl le_rfl rfl)
    · exact event_leaves h
  | cluster =>
    cases handleCluster_hears h with
    | kept h => exact h ▸ (Unmoved.refl p).leaves.kept
    | stopped h => exact h ▸ (stopPlayback_leaves p).kept
    | noted _ h => exact h ▸ LeavesState.kept (.of_eq rfl le_rfl rfl)
  | prefetchTimer => exact (prefetchNext_leaves h).kept
  | sleepTimer m => exact some.inj h ▸ (pause_unmoved m p).leaves.kept
  | receive m =>
    simp only [handle] at h
    split at h
    · simp at h
    · rename_i res results hresults
      rcases applyLoaderResult_leaves h with hsame | ⟨hcurrent, hcommit⟩
      · exact ⟨_, .kept _, hsame.after rfl le_rfl rfl⟩
      · exact ⟨_, .committed m res (by rw [hresults]; rfl) hcurrent, hcommit.after rfl le_rfl rfl⟩
  | _ => simp [handle] at h

theorem step_leaves (hlane : op.isLane = false) (h : p.step cfg g op = some p') :
    ∃ n, Noted p op n ∧ LeavesState n p p' := by
  cases op with
  | take | finish | deliver => simp [Op.isLane] at hlane
  | drain =>
    simp only [step] at h
    split at h
    · simp at h
    · exact event_leaves h
  | _ => exact handle_leaves (handle_of_step rfl h)

theorem step_queueState (h : p.step cfg g op = some p') : Noted p op p'.queueState := by
  cases hlane : op.isLane with
  | false =>
    obtain ⟨n, hnoted, hleaves⟩ := step_leaves hlane h
    exact hleaves.queueState ▸ hnoted
  | true =>
    rw [lane_eq hlane h]
    exact .kept op

end AppPlayer

end Librespot.Daemon
