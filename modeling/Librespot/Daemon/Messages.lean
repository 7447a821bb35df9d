import Librespot.Daemon.Effects

/-!
# What the messages of the player loop can do

The handlers that change more than playback: those that load a context, take a
transfer over, set the options or stop.
-/

open Librespot.Tracks
open Librespot.Player.ManageLoop (stop_raises)

namespace Librespot.Daemon

def TransferState.Bare (state : TransferState) : Prop :=
  emptyContext state.context = true ∧ singleTrackContext state.playback.currentTrack = some none

namespace AppPlayer

variable {cfg : Config} {m : Moment} {p p' : AppPlayer}

def withTracks (tracks : Option ListId) (p : AppPlayer) : AppPlayer :=
  { p with state.tracks := tracks }

def tookOver (p : AppPlayer) : AppPlayer := { p with state := p.state.takeOver }

theorem Quiet.options (h : Quiet p p') : p'.state.player.options = p.state.player.options :=
  congrArg Frame.options h.frame

theorem Quiet.withOptions (h : Quiet p p') (options : Option ContextPlayerOptions) :
    Quiet (p.withOptions options) (p'.withOptions options) := by
  refine ⟨?_, h.loadGen, h.loadInFlight, h.loader, h.steady, h.origin, h.audioState⟩
  have := h.frame
  simp only [AppPlayer.frame, Frame.mk.injEq] at this
  simp [AppPlayer.frame, AppPlayer.withOptions, updatePlayer, this]

theorem withOrigin_quiet (origin : PlayOrigin) (p : AppPlayer) :
    Quiet p (p.updatePlayer fun s => { s with playOrigin := some origin }) :=
  ⟨rfl, rfl, rfl, rfl, id, fun _ => rfl, .refl _⟩

def resolveJob (job : ResolveJob) (p : AppPlayer) : LoaderJob Work :=
  { cls := .load, gen := p.loadGen + 1, run := .resolve job }

def LoadsContext (context : Context) (p p' : AppPlayer) : Prop :=
  ∃ options restricted job, p.state.player.options = some options ∧
    restricted = restrict context.restrictions options ∧
    job.shuffle = restricted.shufflingContext ∧
    Submits (p.resolveJob job) (p.withOptions (some restricted)) p'

theorem loadContext_loads {context : Context} {skipTo : Option SkipTo} {paused drop : Bool}
    {k : Then} (h : p.loadContext m context skipTo paused drop k = some p') :
    LoadsContext context p p' := by
  simp only [loadContext, Option.bind_eq_bind, Option.bind_eq_some_iff] at h
  obtain ⟨options, hoptions, queued, -, h⟩ := h
  cases h
  generalize hrestricted : restrict context.restrictions options = restricted
  have hs := submitLoad_submits
    (.resolve ⟨context, skipTo, restricted.shufflingContext, queued, paused, drop, k⟩)
    (p.updatePlayer (claimContext m.now context.uri restricted paused))
  refine ⟨options, restricted, _, hoptions, hrestricted.symm, rfl, Quiet.submits ?_ hs⟩
  exact ⟨rfl, rfl, rfl, rfl, fun _ => .inl rfl, id, .refl _⟩

theorem Quiet.loadsContext {q : AppPlayer} {context : Context} (h : Quiet p q)
    (h' : LoadsContext context q p') : LoadsContext context p p' := by
  obtain ⟨options, restricted, job, hoptions, hrestricted, hshuffle, hs⟩ := h'
  refine ⟨options, restricted, job, h.options ▸ hoptions, hrestricted, hshuffle, ?_⟩
  unfold resolveJob at hs ⊢
  rw [h.loadGen] at hs
  exact (h.withOptions _).submits hs

def Reverted (work : ListWork) (p p' : AppPlayer) : Prop :=
  match work with
  | .shuffle val => ∃ options, p.state.player.options = some options ∧
      Quiet (p.withOptions (some { options with shufflingContext := !val })) p'
  | _ => Quiet p p'

variable {work : ListWork} {snap : TrackList.Snapshot}

theorem listFailed_reverted {err : LoadErr} (h : p.listFailed m work err = some p') :
    Reverted work p p' := by
  cases work with
  | shuffle =>
    simp only [listFailed, Option.bind_eq_bind, Option.bind_eq_some_iff] at h
    obtain ⟨options, hoptions, h⟩ := h
    cases h
    exact ⟨options, hoptions, Quiet.refl _⟩
  | advance _ _ _ k => exact settle_quiet m k _ _ h
  | _ =>
    cases h
    exact Quiet.refl p

theorem skipLanded_acts {delay : Int} (h : p.skipLanded m snap delay = some p') : Acts p p' :=
  ((publishSnapshot_quiet snap p).trans (moveTo_quiet m.now 0 _)).acts (loadCurrentTrack_acts h)

def Walks (work : ListWork) (p p' : AppPlayer) : Prop :=
  match work with
  | .shuffle _ => Quiet p p'
  | _ => Acts p p'

theorem Walks.acts (h : Walks work p p') : Acts p p' := by
  cases work with
  | shuffle => exact .inl h
  | _ => exact h

theorem listWalked_walks {res : Walked} (h : p.listWalked cfg m work res snap = some p') :
    Walks work p p' := by
  cases work with
  | peekNext => exact submitPrefetch_acts h
  | shuffle =>
    cases h
    exact (publishSnapshot_quiet snap p).trans (invalidateUpcoming_quiet _)
  | addToQueue track | setQueue next =>
    cases h
    exact .inl (invalidateUpcoming_quiet p)
  | skipPrev delay | skipTo track delay => exact skipLanded_acts h
  | advance =>
    refine Quiet.acts (Quiet.trans ?_ (publishSnapshot_quiet snap _)) (advanceTo_acts h)
    exact updatePlayer_quiet rfl id rfl

theorem abandonTransfer_quiet (h : p.abandonTransfer m = some p') :
    Quiet (p.withTracks none) p' := by
  simp only [abandonTransfer, Option.bind_eq_bind, Option.bind_eq_some_iff] at h
  obtain ⟨q, hq, h⟩ := h
  have hq' : Quiet p q := by
    unfold dropStream at hq
    split at hq
    · cases hq
      refine (withAudio_quiet (stop_raises _)).trans ?_
      exact ⟨rfl, rfl, rfl, rfl, id, id, .refl _⟩
    · exact emitMprisUpdate_eq hq ▸ Quiet.refl _
  cases h
  refine ⟨?_, hq'.loadGen, hq'.loadInFlight, hq'.loader, ?_, hq'.origin, hq'.audioState⟩
  · have := hq'.frame
    simp only [frame, Frame.mk.injEq] at this
    simp [frame, updatePlayer, withTracks, PlayerState.setPaused, PlayerState.moveTo, this]
  · intro _
    exact .inr rfl

def Commit.Effect (p p' : AppPlayer) : Commit → Prop
  | .nothing | .noStation _ | .loaded .. | .prefetched _ => Quiet p p'
  | .call _ _ => Acts p p'
  | .resolved _ list _ => Acts (p.withTracks (some list)) p'
  | .abandonTransfer => Quiet (p.withTracks none) p'
  | .transferred job list _ _ =>
    Acts ((p.withTracks (some list)).withOptions
      (if job.continuation then job.state.options else p.state.player.options)) p'
  | .walkFailed work _ => Reverted work p p'
  | .walked list work _ _ => if p.state.tracks = some list then Walks work p p' else Reverted work p p'
  | .station context _ _ => LoadsContext context p p'
  | .apiPlay context _ => LoadsContext context p.tookOver p'

theorem installTransfer_quiet (job : TransferJob) (list : ListId) (snap : TrackList.Snapshot)
    (played : Option Context) (p : AppPlayer) :
    Quiet ((p.withTracks (some list)).withOptions
        (if job.continuation then job.state.options else p.state.player.options))
      (p.installTransfer job list snap played) := by
  unfold installTransfer
  generalize p.keepsStream job = keep
  cases job.continuation with
  | false => exact ⟨rfl, rfl, rfl, rfl, id, id, .refl _⟩
  | true =>
    cases keep with
    | false =>
      refine ⟨rfl, rfl, rfl, rfl, ?_, fun _ => rfl, .refl _⟩
      exact fun _ => PlayerState.setPaused_steady job.paused p.state.player
    | true => exact ⟨rfl, rfl, rfl, rfl, id, fun _ => rfl, .refl _⟩

theorem transferred_acts {job : TransferJob} {list : ListId} {played : Option Context}
    (h : p.transferred m job list snap played = some p') :
    Acts ((p.withTracks (some list)).withOptions
      (if job.continuation then job.state.options else p.state.player.options)) p' := by
  have hq := installTransfer_quiet job list snap played p
  unfold transferred at h
  split at h
  · cases h
    exact .inl (hq.trans (continuePlayback_quiet ..))
  · exact hq.acts (loadCurrentTrack_acts h)

theorem commit_effect {c : Commit} (h : p.commit cfg m c = some p') : Commit.Effect p p' c := by
  cases c with
  | nothing =>
    cases h
    exact Quiet.refl p
  | call => exact call_acts h
  | noStation k => exact settle_quiet m k _ _ h
  | resolved _ list snap =>
    exact (publishSnapshot_quiet snap (p.withTracks (some list))).acts
      (loadCurrentTrack_acts h)
  | abandonTransfer => exact abandonTransfer_quiet h
  | transferred => exact transferred_acts h
  | walkFailed => exact listFailed_reverted h
  | walked =>
    simp only [commit] at h
    simp only [Commit.Effect]
    split at h
    · rename_i hlist
      rw [if_pos hlist]
      exact listWalked_walks h
    · rename_i hlist
      rw [if_neg hlist]
      exact listFailed_reverted h
  | loaded job _ streamGen =>
    refine Quiet.trans ?_ (settle_quiet m job.k _ _ h)
    exact (forgetReplacedStreamEvents_quiet streamGen p).trans (commitLoad_quiet ..)
  | station => exact loadContext_loads h
  | apiPlay _ data =>
    refine ((setPaused_quiet data.paused p.tookOver).trans ?_).loadsContext (loadContext_loads h)
    exact withOrigin_quiet _ _
  | prefetched =>
    cases h
    exact ⟨rfl, rfl, rfl, rfl, id, id, .refl _⟩

def stamped (timestamp : Int) (p : AppPlayer) : AppPlayer :=
  { p with state.activationTimestamp := timestamp }

def activated (p : AppPlayer) : AppPlayer := { p with state := p.state.setActive true }

inductive Takes (req : TransferCommand) (p p' : AppPlayer) : Prop
  | refused (h : p' = p)
  | idle (h : Quiet (p.activated.withTracks none) p')
  | continued (job : TransferJob) (hbare : ¬ req.state.Bare)
      (hoptions : job.state.options = req.state.options)
      (h : Submits { cls := .load, gen := p.loadGen + 1, run := .transfer job } p p')
  | claimed (job : TransferJob) (hbare : ¬ req.state.Bare)
      (hoptions : job.state.options = req.state.options)
      (h : Submits { cls := .load, gen := p.loadGen + 1, run := .transfer job }
        (p.activated.withOptions job.state.options) p')

theorem transferContext_submits (state : TransferState) (sentBy : String) (paused continuation : Bool)
    (p : AppPlayer) :
    Submits
      { cls := .load, gen := p.loadGen + 1
        run := .transfer { state, sentBy, paused, continuation, stream := p.primaryStream } }
      p (p.transferContext state sentBy paused continuation) :=
  submitLoad_submits _ p

theorem takeTransfer_takes {req req' : TransferCommand} (h : p.takeTransfer req = some p')
    (hbare : ¬ req'.state.Bare) (hoptions : req.state.options = req'.state.options) :
    Takes req' p p' := by
  simp only [takeTransfer, Option.bind_eq_bind, Option.bind_eq_some_iff] at h
  obtain ⟨continues, -, h⟩ := h
  split at h
  · cases h
    exact .continued _ hbare hoptions (transferContext_submits ..)
  · simp only [Option.bind_eq_some_iff] at h
    obtain ⟨track, -, h⟩ := h
    cases h
    generalize (req.state.playback.isPaused && decide (req.restorePaused ≠ "resume")) = pause
    have hs := transferContext_submits req.state req.sentBy pause false
      ((p.activated.applyTransferSession req.state req.sentBy).updatePlayer
        (claimTransfer req.state.playback pause track))
    refine .claimed _ hbare hoptions (Quiet.submits ?_ hs)
    exact ⟨rfl, rfl, rfl, rfl, fun _ => .inl rfl, fun _ => rfl, .refl _⟩

theorem transfer_takes {req : TransferCommand} (h : p.transfer m req = some p') :
    Takes req (p.stamped req.state.playback.timestamp) p' := by
  unfold transfer at h
  simp only [Option.bind_eq_bind] at h
  split at h
  · simp only [Option.bind_eq_some_iff] at h
    obtain ⟨context, hcontext, h⟩ := h
    cases context with
    | some =>
      refine takeTransfer_takes h ?_ rfl
      rintro ⟨-, hnone⟩
      simp [hnone] at hcontext
    | none =>
      simp only at h
      split at h
      · exact .idle (abandonTransfer_quiet h)
      · exact .refused (Option.some.inj h).symm
  · rename_i hempty
    exact takeTransfer_takes h (fun hbare => hempty hbare.1) rfl

inductive SetsOptions (shuffle : Option Bool) (p p' : AppPlayer) : Prop
  | kept (options : Option ContextPlayerOptions)
      (hshuffle : ∀ o, p.state.player.options = some o →
        ∃ o', options = some o' ∧ o'.shufflingContext = o.shufflingContext)
      (h : Quiet (p.withOptions options) p')
  | toggled (list : ListId) (old options : ContextPlayerOptions) (val : Bool)
      (htracks : p.state.tracks = some list) (hold : p.state.player.options = some old)
      (hval : shuffle = some val) (hne : val ≠ old.shufflingContext)
      (hoptions : options.shufflingContext = val)
      (h : Submits { cls := .mutate, gen := p.loadGen, run := .list list (.shuffle val) }
        (p.withOptions (some options)) p')

theorem setOption_changed {val : Option Bool} {old new : Bool}
    (h : setOption val old = (new, true)) : val = some new ∧ new ≠ old := by
  cases val with
  | none => simp [setOption] at h
  | some =>
    simp only [setOption, Prod.mk.injEq, decide_eq_true_eq] at h
    exact ⟨congrArg some h.1, h.1 ▸ h.2⟩

theorem setOptions_sets {repeatingContext repeatingTrack shuffle : Option Bool}
    (h : p.setOptions repeatingContext repeatingTrack shuffle = some p') :
    SetsOptions shuffle p p' := by
  simp only [setOptions] at h
  split at h
  · rename_i hnone
    split at h
    · simp at h
    · cases h
      refine .kept none ?_ ?_
      · intro o ho
        rw [hnone] at ho
        simp at ho
      · refine ⟨?_, rfl, rfl, rfl, id, id, .refl _⟩
        simp [frame, withOptions, updatePlayer, hnone]
  · rename_i old hold
    generalize setOption repeatingContext old.repeatingContext = context at h
    generalize setOption repeatingTrack old.repeatingTrack = track at h
    split at h
    · rename_i list val htracks hval
      cases h
      obtain ⟨hshuffle, hne⟩ := setOption_changed hval
      have hminor : (Work.list list (.shuffle val)).Minor := trivial
      have hs := listJob_submits .mutate rfl list hminor
        (p.withOptions (some ⟨val, context.1, track.1⟩))
      exact .toggled list old _ val htracks hold hshuffle hne rfl
        (hs.quiet (invalidateUpcoming_quiet _))
    · cases h
      refine .kept (some ⟨old.shufflingContext, context.1, track.1⟩) ?_ ?_
      · intro o ho
        obtain rfl : old = o := Option.some.inj (hold.symm.trans ho)
        exact ⟨_, rfl, rfl⟩
      · split
        · exact invalidateUpcoming_quiet _
        · exact Quiet.refl _

theorem setModes_quiet {options : ContextPlayerOptions}
    (h : p.state.player.options = some options) : Quiet p p.setModes := by
  unfold setModes withOptions
  apply updatePlayer_quiet
  · rw [h]
    rfl
  · exact id
  · rfl

theorem setModes_sets {shuffle : Option Bool} (h : SetsOptions shuffle p p') :
    SetsOptions shuffle p p'.setModes := by
  cases h with
  | kept options hshuffle h =>
    have hp' : p'.state.player.options = options := h.options
    refine .kept (some (options.getD {})) ?_ ?_
    · intro o ho
      obtain ⟨o', rfl, ho'⟩ := hshuffle o ho
      exact ⟨o', rfl, ho'⟩
    · have := h.withOptions (some (options.getD {}))
      rw [setModes, hp']
      exact this
  | toggled list old options val htracks hold hval hne hoptions h =>
    have hp' : p'.state.player.options = some options := congrArg Frame.options h.frame
    exact .toggled list old options val htracks hold hval hne hoptions (h.quiet (setModes_quiet hp'))

def Command.Effect (p p' : AppPlayer) : Command → Prop
  | .transfer req => Takes req (p.stamped req.state.playback.timestamp) p'
  | .play req => ∃ old, p.state.player.options = some old ∧
      LoadsContext req.context
        (p.tookOver.withOptions (some (req.playerOptionsOverride.getD old))) p'
  | .setOptions _ _ shuffle _ => SetsOptions shuffle p p'
  | .stop => p' = p.stopPlayback
  | _ => Acts p p'

theorem handleCommand_effect {cmd : Command} (h : p.handleCommand cfg m cmd = some p') :
    Command.Effect p p' cmd := by
  cases cmd with
  | transfer => exact transfer_takes h
  | play req =>
    simp only [handleCommand, playCommand, Option.bind_eq_bind, Option.bind_eq_some_iff] at h
    obtain ⟨origin, -, old, hold, h⟩ := h
    have hold : p.tookOver.state.player.options = some old := hold
    rw [tookOver, State.takeOver_player] at hold
    have hq := (withOrigin_quiet { origin with deviceIdentifier := req.sentBy } p.tookOver)
    exact ⟨old, hold, (hq.withOptions _).loadsContext (loadContext_loads h)⟩
  | apiPlay =>
    simp only [handleCommand, apiPlay, Option.bind_eq_bind, Option.bind_eq_some_iff] at h
    obtain ⟨skipTo, -, h⟩ := h
    cases h
    exact .inr ⟨_, by trivial, submitLoad_submits _ p⟩
  | resume => exact Option.some.inj h ▸ .inl (play_quiet m p)
  | pause => exact Option.some.inj h ▸ .inl (pause_quiet m p)
  | seek position => exact Option.some.inj h ▸ .inl (seek_quiet m position p)
  | skipPrev allowSeeking => exact Option.some.inj h ▸ skipPrev_acts m allowSeeking p
  | skipNext => exact skipNext_acts h
  | setOptions _ _ _ modes =>
    simp only [handleCommand, Option.bind_eq_bind, Option.bind_eq_some_iff] at h
    obtain ⟨q, hq, h⟩ := h
    cases h
    have hsets := setOptions_sets hq
    cases modes with
    | false => exact hsets
    | true => exact setModes_sets hsets
  | setQueue next => exact Option.some.inj h ▸ setQueue_acts next p
  | addToQueue track => exact Option.some.inj h ▸ addToQueue_acts track p
  | setSleepTimer => exact Option.some.inj h ▸ .inl ⟨rfl, rfl, rfl, rfl, id, id, .refl _⟩
  | stop => exact (Option.some.inj h).symm

end AppPlayer

end Librespot.Daemon
