import Librespot.Daemon.LoaderOrder
import Librespot.Daemon.PlayerLoop

/-!
# What the handlers of the player loop can do

Most handlers only touch what is playing and where. Apart from that a handler hands
at most one job to the loader lane.
-/

open Librespot.Tracks
open Librespot.Player.ManageLoop (closeOutput_raises play_raises pause_raises seek_raises stop_raises)

namespace Librespot.Daemon

def PlayerState.Steady (s : PlayerState) : Prop := s.playbackSpeed = 0 ∨ s.playbackSpeed = 1

theorem PlayerState.setPaused_steady (val : Bool) (s : PlayerState) : (s.setPaused val).Steady := by
  cases val
  · exact .inr rfl
  · exact .inl rfl

def Work.Plain (tracks : Option ListId) : Work → Prop
  | .resolve _ | .transfer _ | .list _ (.shuffle _) => False
  | .list id _ => tracks = some id
  | _ => True

def Work.Minor : Work → Prop
  | .prefetch _ => True
  | .list _ (.peekNext) | .list _ (.shuffle _) => True
  | .list _ (.addToQueue _) | .list _ (.setQueue _) => True
  | _ => False

def Work.isLoad : Work → Bool
  | .load _ => true
  | _ => false

def Playable (uri : String) : Prop :=
  ∃ id : SpotifyId, spotifyIdFromUri uri = some (.ok id) ∧ (id.typ = "track" ∨ id.typ = "episode")

instance (uri : String) : Decidable (Playable uri) :=
  match h : spotifyIdFromUri uri with
  | some (.ok id) =>
    decidable_of_iff (id.typ = "track" ∨ id.typ = "episode") (by simp [Playable, h])
  | none | some (.error _) => .isFalse (by simp [Playable, h])

/-- The audio player and the events of it that the daemon holds back. -/
structure AudioState where
  audio : Player.ManageLoop
  held : List PlayerEvent

namespace AudioState

variable {d d' d'' : AudioState}

def events (d : AudioState) : List PlayerEvent := d.held ++ d.audio.ev

structure Follows (d d' : AudioState) : Prop where
  streamGen : d'.audio.streamGen = d.audio.streamGen
  events : ∀ ev ∈ d'.events, ev ∈ d.events ∨ ev.streamGen = d.audio.streamGen

theorem Follows.refl (d : AudioState) : Follows d d := ⟨rfl, fun _ => .inl⟩

theorem Follows.trans (h : Follows d d') (h' : Follows d' d'') : Follows d d'' where
  streamGen := h'.streamGen.trans h.streamGen
  events ev hev := by
    rcases h'.events ev hev with hev | hgen
    · exact h.events ev hev
    · exact .inr (hgen.trans h.streamGen)

theorem Follows.of_raises {audio : Player.ManageLoop} {held : List PlayerEvent}
    (h : d.audio.Raises audio) (hheld : held ⊆ d.held) : Follows d ⟨audio, held⟩ where
  streamGen := h.streamGen
  events ev hev := by
    obtain ⟨new, heq, hnew⟩ := h.ev
    simp only [AudioState.events, heq, List.mem_append] at hev ⊢
    rcases hev with hev | hev | hev
    · exact .inl (.inl (hheld hev))
    · exact .inl (.inr hev)
    · exact .inr (hnew ev hev)

end AudioState

structure Transport where
  isPaused : Bool
  stream : Option Stream
  loadInFlight : Bool
  pending : List PlayerEvent
  draining : List PlayerEvent
  audio : Player.ManageLoop

def Transport.loading (paused : Bool) (t : Transport) : Transport :=
  { t with isPaused := paused, stream := none, loadInFlight := true }

namespace AppPlayer

def audioState (p : AppPlayer) : AudioState := ⟨p.audio, p.draining ++ p.pendingPlayerEvents⟩

def transport (p : AppPlayer) : Transport where
  isPaused := p.state.player.isPaused
  stream := p.primaryStream
  loadInFlight := p.loadInFlight
  pending := p.pendingPlayerEvents
  draining := p.draining
  audio := p.audio

structure Frame where
  active : Bool
  activationTimestamp : Int
  lastClusterTimestamp : Int
  options : Option ContextPlayerOptions
  tracks : Option ListId
  worker : Worker
  results : List LoaderResult
  lists : List TrackList

def frame (p : AppPlayer) : Frame where
  active := p.state.active
  activationTimestamp := p.state.activationTimestamp
  lastClusterTimestamp := p.state.lastClusterTimestamp
  options := p.state.player.options
  tracks := p.state.tracks
  worker := p.worker
  results := p.results
  lists := p.lists

def HasOrigin (p : AppPlayer) : Prop := p.state.player.playOrigin.isSome = true

structure Quiet (p p' : AppPlayer) : Prop where
  frame : p'.frame = p.frame
  loadGen : p'.loadGen = p.loadGen
  loadInFlight : p'.loadInFlight = p.loadInFlight
  loader : p'.loader = p.loader
  steady : p.state.player.Steady → p'.state.player.Steady
  origin : p.HasOrigin → p'.HasOrigin
  audioState : p.audioState.Follows p'.audioState

/-- The job has gone to the loader. A load or a step of navigation has moved the load counter on,
and only such a job can put a load in flight. -/
structure Submits (job : LoaderJob Work) (p p' : AppPlayer) : Prop where
  frame : p'.frame = p.frame
  loader : p'.loader = (p.loader.submit job).2
  loads : job.cls.loads = true → p'.loadGen = p.loadGen + 1 ∧ job.gen = p'.loadGen
  keeps : job.cls.loads = false → p'.loadGen = p.loadGen
  loadInFlight : p'.loadInFlight = p.loadInFlight ∨ job.cls.loads = true ∧ p'.loadInFlight = true
  lawful : job.notBefore ≠ none → job.cls = .load
  minor : job.cls.loads = false → job.run.Minor
  fetch : job.run.isLoad = true → job.cls = .load
  steady : p.state.player.Steady → p'.state.player.Steady
  origin : p.HasOrigin → p'.HasOrigin
  audioState : p.audioState.Follows p'.audioState

def Acts (p p' : AppPlayer) : Prop :=
  Quiet p p' ∨ ∃ job : LoaderJob Work, job.run.Plain p.state.tracks ∧ Submits job p p'

theorem Quiet.refl (p : AppPlayer) : Quiet p p := ⟨rfl, rfl, rfl, rfl, id, id, .refl _⟩

variable {p p' q r : AppPlayer} {job : LoaderJob Work} {m : Moment} {drop : Bool} {delay : Int}
  {k : Then} {seed : List String}

theorem Quiet.trans (h : Quiet p q) (h' : Quiet q r) : Quiet p r :=
  ⟨h'.frame.trans h.frame, h'.loadGen.trans h.loadGen, h'.loadInFlight.trans h.loadInFlight,
    h'.loader.trans h.loader, fun hs => h'.steady (h.steady hs), fun ho => h'.origin (h.origin ho),
    h.audioState.trans h'.audioState⟩

theorem Quiet.submits (h : Quiet p q) (h' : Submits job q r) : Submits job p r where
  frame := h'.frame.trans h.frame
  loader := by rw [h'.loader, h.loader]
  loads hl := by
    rw [← h.loadGen]
    exact h'.loads hl
  keeps hl := (h'.keeps hl).trans h.loadGen
  loadInFlight := by
    rw [← h.loadInFlight]
    exact h'.loadInFlight
  lawful := h'.lawful
  minor := h'.minor
  fetch := h'.fetch
  steady hs := h'.steady (h.steady hs)
  origin ho := h'.origin (h.origin ho)
  audioState := h.audioState.trans h'.audioState

theorem Submits.quiet (h : Submits job p q) (h' : Quiet q r) : Submits job p r where
  frame := h'.frame.trans h.frame
  loader := h'.loader.trans h.loader
  loads hl := by
    rw [h'.loadGen]
    exact h.loads hl
  keeps hl := h'.loadGen.trans (h.keeps hl)
  loadInFlight := by
    rw [h'.loadInFlight]
    exact h.loadInFlight
  lawful := h.lawful
  minor := h.minor
  fetch := h.fetch
  steady hs := h'.steady (h.steady hs)
  origin ho := h'.origin (h.origin ho)
  audioState := h.audioState.trans h'.audioState

theorem Quiet.tracks (h : Quiet p q) : q.state.tracks = p.state.tracks :=
  congrArg Frame.tracks h.frame

theorem Quiet.acts (h : Quiet p q) (h' : Acts q r) : Acts p r := by
  rcases h' with h' | ⟨job, hplain, h'⟩
  · exact .inl (h.trans h')
  · exact .inr ⟨job, h.tracks ▸ hplain, h.submits h'⟩

/-! ## Handlers that leave the loader alone -/

theorem updatePlayer_quiet {f : PlayerState → PlayerState}
    (hoptions : (f p.state.player).options = p.state.player.options)
    (hsteady : p.state.player.Steady → (f p.state.player).Steady)
    (horigin : (f p.state.player).playOrigin = p.state.player.playOrigin) :
    Quiet p (p.updatePlayer f) where
  frame := by simp only [frame, updatePlayer, hoptions]
  loadGen := rfl
  loadInFlight := rfl
  loader := rfl
  steady := hsteady
  origin ho := (congrArg Option.isSome horigin).trans ho
  audioState := .refl _

theorem setPaused_quiet (val : Bool) (p : AppPlayer) : Quiet p (p.setPaused val) :=
  updatePlayer_quiet rfl (fun _ => PlayerState.setPaused_steady val _) rfl

theorem moveTo_quiet (now position : Int) (p : AppPlayer) :
    Quiet p (p.updatePlayer (.moveTo now position)) :=
  updatePlayer_quiet rfl id rfl

theorem publishSnapshot_quiet (snap : TrackList.Snapshot) (p : AppPlayer) :
    Quiet p (p.publishSnapshot snap) :=
  updatePlayer_quiet rfl id rfl

theorem withAudio_quiet {f : Player.ManageLoop → Player.ManageLoop}
    (hf : p.audio.Raises (f p.audio)) : Quiet p (p.withAudio f) :=
  ⟨rfl, rfl, rfl, rfl, id, id, .of_raises hf fun _ => id⟩

theorem failed_quiet (m : Moment) (p : AppPlayer) : Quiet p (p.failed m) := by
  apply withAudio_quiet
  split
  · exact closeOutput_raises _
  · exact .refl _

theorem invalidateUpcoming_quiet (p : AppPlayer) : Quiet p p.invalidateUpcoming :=
  ⟨rfl, rfl, rfl, rfl, id, id, .refl _⟩

theorem emitMprisUpdate_eq (h : p.emitMprisUpdate = some p') : p' = p := by
  simp only [emitMprisUpdate, Option.map_eq_some_iff] at h
  obtain ⟨_, _, rfl⟩ := h
  rfl

theorem play_quiet (m : Moment) (p : AppPlayer) : Quiet p (p.play m) := by
  unfold play
  split
  · split
    · exact setPaused_quiet false p
    · exact Quiet.refl p
  · split
    · exact failed_quiet m p
    · refine Quiet.trans (withAudio_quiet ((seek_raises _).trans (play_raises _)))
        (updatePlayer_quiet rfl (fun _ => PlayerState.setPaused_steady false _) rfl)

theorem pause_quiet (m : Moment) (p : AppPlayer) : Quiet p (p.pause m) := by
  unfold pause
  split
  · split
    · exact setPaused_quiet true p
    · exact Quiet.refl p
  · split
    · exact failed_quiet m p
    · refine Quiet.trans (withAudio_quiet (pause_raises _))
        (updatePlayer_quiet rfl (fun _ => PlayerState.setPaused_steady true _) rfl)

theorem seek_quiet (m : Moment) (position : Int) (p : AppPlayer) : Quiet p (p.seek m position) := by
  unfold seek
  split
  · exact Quiet.refl p
  · split
    · exact failed_quiet m p
    · exact (withAudio_quiet (seek_raises _)).trans (moveTo_quiet _ _ _)

theorem followPosition_quiet (m : Moment) (want : Int) (p : AppPlayer) :
    Quiet p (p.followPosition m want) := by
  unfold followPosition
  split
  · exact seek_quiet m want p
  · exact Quiet.refl p

theorem followPaused_quiet (m : Moment) (paused : Bool) (p : AppPlayer) :
    Quiet p (p.followPaused m paused) := by
  unfold followPaused
  split
  · exact pause_quiet m p
  · split
    · exact play_quiet m p
    · exact setPaused_quiet paused p

theorem continuePlayback_quiet (m : Moment) (playback : Playback) (paused : Bool) (p : AppPlayer) :
    Quiet p (p.continuePlayback m playback paused) := by
  unfold continuePlayback
  have hwant := followPosition_quiet m (wantedPosition m.now playback) p.invalidateUpcoming
  refine ((invalidateUpcoming_quiet p).trans hwant).trans (Quiet.trans ?_ (followPaused_quiet ..))
  exact updatePlayer_quiet rfl id rfl

theorem applyPaused_quiet (m : Moment) (paused : Bool) (p : AppPlayer) :
    Quiet p (p.applyPaused m paused) := by
  unfold applyPaused
  split
  · split
    · exact failed_quiet m p
    · exact withAudio_quiet (pause_raises _)
  · split
    · exact failed_quiet m p
    · exact withAudio_quiet (play_raises _)

theorem commitLoad_quiet (m : Moment) (stream : Stream) (paused : Bool) (position : Int)
    (p : AppPlayer) : Quiet p (p.commitLoad m stream paused position) := by
  have hasked (q : AppPlayer) (hq : Quiet p q) : Quiet p { q with primaryStream := some stream } :=
    hq.trans ⟨rfl, rfl, rfl, rfl, id, id, .refl _⟩
  unfold commitLoad
  refine (hasked _ ?_).trans (updatePlayer_quiet rfl (fun _ => PlayerState.setPaused_steady _ _) rfl)
  split
  · exact Quiet.refl p
  · exact applyPaused_quiet m _ p

theorem forgetReplacedStreamEvents_quiet (gen : Nat) (p : AppPlayer) :
    Quiet p (p.forgetReplacedStreamEvents gen) := by
  refine ⟨rfl, rfl, rfl, rfl, id, id, .of_raises (.refl _) ?_⟩
  intro ev hev
  simp only [audioState, List.mem_append] at hev ⊢
  exact hev.imp_right List.mem_of_mem_filter

theorem drainPendingPlayerEvents_quiet (p : AppPlayer) : Quiet p p.drainPendingPlayerEvents := by
  refine ⟨rfl, rfl, rfl, rfl, id, id, .of_raises (.refl _) ?_⟩
  intro ev hev
  simp only [audioState, drainPendingPlayerEvents, List.mem_append, List.not_mem_nil,
    or_false] at hev ⊢
  exact .inr hev

theorem settle_quiet (m : Moment) (k : Then) (hasNext : Bool) (err : Option LoadErr)
    (h : p.settle m k hasNext err = some p') : Quiet p p' := by
  induction k generalizing hasNext err p with
  | log | skipNext =>
    simp only [settle, Option.some.injEq] at h
    exact h ▸ Quiet.refl p
  | apiPlay position =>
    cases err with
    | some =>
      simp only [settle, Option.some.injEq] at h
      exact h ▸ Quiet.refl p
    | none =>
      simp only [settle] at h
      split at h
      · exact Option.some.inj h ▸ Quiet.refl p
      · split at h
        · exact Option.some.inj h ▸ seek_quiet m position p
        · exact Option.some.inj h ▸ (seek_quiet m position p).trans (play_quiet m _)
  | autoplayLoaded k ih | orSkip drop k ih | orSkipped k ih => exact ih _ _ h
  | advanced _ _ _ ih =>
    refine Quiet.trans (q := { p with consecutiveUnplayableSkips := 0 }) ?_ (ih _ _ h)
    exact ⟨rfl, rfl, rfl, rfl, id, id, .refl _⟩
  | playerEnd =>
    simp only [settle] at h
    split at h
    · exact Option.some.inj h ▸ Quiet.refl p
    · exact emitMprisUpdate_eq h ▸ Quiet.refl p

/-! ## Handlers that may submit a job -/

theorem submit_submits (p : AppPlayer) (hcls : job.cls.loads = false)
    (hlaw : job.notBefore ≠ none → job.cls = .load) (hminor : job.run.Minor) :
    Submits job p (p.submit job) where
  frame := rfl
  loader := rfl
  loads hl := by simp [hcls] at hl
  keeps _ := rfl
  loadInFlight := .inl rfl
  lawful := hlaw
  minor _ := hminor
  fetch hload := by
    cases hrun : job.run <;> simp [hrun, Work.isLoad, Work.Minor] at hload hminor
  steady := id
  origin := id
  audioState := .refl _

theorem submitLoad_submits (work : Work) (p : AppPlayer) :
    Submits { cls := .load, gen := p.loadGen + 1, run := work } p (p.submitLoad work) where
  frame := rfl
  loader := rfl
  loads _ := ⟨rfl, rfl⟩
  keeps hl := by simp [LoaderClass.loads] at hl
  loadInFlight := .inl rfl
  lawful h := absurd rfl h
  minor hl := by simp [LoaderClass.loads] at hl
  fetch _ := rfl
  steady := id
  origin := id
  audioState := .refl _

theorem loadCurrentTrack_cases {paused resume : Bool}
    (h : p.loadCurrentTrack m paused drop resume delay k = some p') :
    (¬ Playable p.state.player.trackUri ∧ Quiet p p') ∨
    (Playable p.state.player.trackUri ∧ p'.transport = p.transport.loading paused ∧
      ∃ job : LoaderJob Work, Submits job p p' ∧ job.cls = .load ∧
        ∃ load, job.run = .load load ∧ load.position = p.state.player.trackPosition m.now ∧
          load.k = k) := by
  have hq : Quiet p { p with primaryStream := none } := ⟨rfl, rfl, rfl, rfl, id, id, .refl _⟩
  simp only [loadCurrentTrack, Option.bind_eq_bind, Option.bind_eq_some_iff] at h
  obtain ⟨res, hid, h⟩ := h
  cases res with
  | error =>
    left
    refine ⟨?_, hq.trans (settle_quiet m k _ _ h)⟩
    rintro ⟨id, hok, -⟩
    rw [hok] at hid
    simp at hid
  | ok id =>
    simp only at h
    split at h
    · left
      rename_i htyp
      refine ⟨?_, hq.trans (settle_quiet m k _ _ h)⟩
      rintro ⟨id', hok, hor⟩
      rw [hok] at hid
      obtain rfl : id' = id := by simpa using hid
      tauto
    · right
      rename_i htyp
      have hp : Playable p.state.player.trackUri := ⟨id, hid, by tauto⟩
      cases h
      have hkeeps : LoaderClass.loads .load = false → False := by simp [LoaderClass.loads]
      exact ⟨hp, rfl, _, ⟨rfl, rfl, fun _ => ⟨rfl, rfl⟩, fun hl => (hkeeps hl).elim,
        .inr ⟨rfl, rfl⟩, fun _ => rfl, fun hl => (hkeeps hl).elim, fun _ => rfl,
        fun _ => .inl rfl, fun ho => ho, .refl _⟩, rfl, _, rfl, rfl, rfl⟩

theorem loadCurrentTrack_acts {paused resume : Bool}
    (h : p.loadCurrentTrack m paused drop resume delay k = some p') : Acts p p' := by
  rcases loadCurrentTrack_cases h with ⟨-, h⟩ | ⟨-, -, job, h, -, load, hrun, -⟩
  · exact .inl h
  · exact .inr ⟨job, by simp [hrun, Work.Plain], h⟩

theorem startAutoplay_cases (h : p.startAutoplay m seed drop k = some p') :
    (seed = [] ∧ Quiet p p') ∨
    (seed ≠ [] ∧ ∃ job : LoaderJob Work, job.run.Plain p.state.tracks ∧ job.cls.loads = true ∧
      Submits job p p') := by
  unfold startAutoplay at h
  split at h
  · exact .inl ⟨‹_›, settle_quiet m k _ _ h⟩
  · cases h
    have hs := submitLoad_submits (.station p.state.player.contextUri seed drop k) p
    exact .inr ⟨‹_›, _, by trivial, rfl, hs⟩

variable {cfg : Config}

theorem stopUnless_quiet (hasNext : Bool) (p : AppPlayer) : Quiet p (p.stopUnless hasNext) := by
  apply updatePlayer_quiet
  · split <;> rfl
  · intro hs
    split <;> exact hs
  · split <;> rfl

theorem stopUnless_trackUri (hasNext : Bool) (p : AppPlayer) :
    (p.stopUnless hasNext).state.player.trackUri = p.state.player.trackUri := by
  simp only [stopUnless, updatePlayer]
  split <;> rfl

def TakenOver (cfg : Config) (cluster : Option Cluster) (p : AppPlayer) : Prop :=
  p.state.active = true ∧ ∃ c timestamp, cluster = some c ∧ c.activeDeviceId ≠ cfg.deviceId ∧
    c.playerState = some timestamp ∧ p.state.activationTimestamp < timestamp

instance (cfg : Config) (cluster : Option Cluster) (p : AppPlayer) :
    Decidable (p.TakenOver cfg cluster) :=
  decidable_of_iff (p.state.active = true ∧ ∃ c ∈ cluster, ∃ timestamp ∈ c.playerState,
    c.activeDeviceId ≠ cfg.deviceId ∧ p.state.activationTimestamp < timestamp)
    (by simp only [TakenOver, Option.mem_def]; grind)

theorem cluster_noted {cluster : Option Cluster} (h : p.handleCluster cfg cluster = some p')
    (hcluster : ¬ p.TakenOver cfg cluster) :
    ∃ timestamp, p' = { p with state.lastClusterTimestamp := timestamp } := by
  unfold handleCluster at h
  split at h
  · rename_i hactive
    simp only [Option.bind_eq_bind, Option.bind_eq_some_iff] at h
    obtain ⟨c, hc, h⟩ := h
    split at h
    · exact ⟨_, (Option.some.inj h).symm⟩
    · rename_i hother
      simp only [Option.bind_eq_some_iff] at h
      obtain ⟨timestamp, htimestamp, h⟩ := h
      rw [if_neg fun hlt => hcluster ⟨hactive, c, timestamp, hc, hother, htimestamp, hlt⟩] at h
      exact ⟨_, (Option.some.inj h).symm⟩
  · exact ⟨_, (Option.some.inj h).symm⟩

def GoesOn (cfg : Config) (hasNext : Bool) (seed : List String) (p : AppPlayer) : Prop :=
  if hasNext = false ∧ p.autoplays cfg = true then seed ≠ [] else Playable p.state.player.trackUri

theorem advanceTo_cases {hasNext : Bool}
    (h : p.advanceTo cfg m hasNext seed drop delay k = some p') :
    (¬ GoesOn cfg hasNext seed p ∧ Quiet p p') ∨
    (GoesOn cfg hasNext seed p ∧
      ∃ job : LoaderJob Work, job.run.Plain p.state.tracks ∧ job.cls.loads = true ∧
        Submits job p p') := by
  have hq := moveTo_quiet m.now 0 p
  have hauto : (p.updatePlayer (.moveTo m.now 0)).autoplays cfg = p.autoplays cfg := rfl
  simp only [advanceTo, hauto, Bool.not_eq_true] at h
  unfold GoesOn
  split at h
  · rename_i hc
    rw [if_pos hc]
    rcases startAutoplay_cases h with ⟨hs, h⟩ | ⟨hs, job, hplain, hcls, h⟩
    · exact .inl ⟨by simp [hs], hq.trans h⟩
    · exact .inr ⟨hs, job, hplain, hcls, hq.submits h⟩
  · rename_i hc
    rw [if_neg hc]
    have hstop := hq.trans (stopUnless_quiet hasNext (p.updatePlayer (.moveTo m.now 0)))
    rcases loadCurrentTrack_cases h with ⟨hno, h⟩ | ⟨hyes, -, job, h, hcls, load, hrun, -⟩
    · rw [stopUnless_trackUri] at hno
      exact .inl ⟨hno, hstop.trans h⟩
    · rw [stopUnless_trackUri] at hyes
      exact .inr ⟨hyes, job, by simp [hrun, Work.Plain], by simp [hcls, LoaderClass.loads],
        hstop.submits h⟩

theorem advanceTo_acts {hasNext : Bool}
    (h : p.advanceTo cfg m hasNext seed drop delay k = some p') : Acts p p' := by
  rcases advanceTo_cases h with ⟨-, h⟩ | ⟨-, job, hplain, -, h⟩
  · exact .inl h
  · exact .inr ⟨job, hplain, h⟩

theorem bumped_submits (cls : LoaderClass) (hcls : cls.loads = true) (list : ListId)
    (work : ListWork) (p : AppPlayer) :
    Submits { cls, gen := p.loadGen + 1, run := .list list work } p
      ({ p with loadGen := p.loadGen + 1 }.listJob cls list work) := by
  have hgen : ({ p with loadGen := p.loadGen + 1 } : AppPlayer).generation cls = p.loadGen + 1 := by
    cases cls <;> first | rfl | simp [LoaderClass.loads] at hcls
  unfold listJob
  rw [hgen]
  exact ⟨rfl, rfl, fun _ => ⟨rfl, rfl⟩, fun hl => by simp [hcls] at hl, .inl rfl,
    fun hn => absurd rfl hn, fun hl => by simp [hcls] at hl,
    fun hload => by simp [Work.isLoad] at hload, id, id, .refl _⟩

theorem listJob_submits (cls : LoaderClass) (hcls : cls.loads = false) (list : ListId)
    {work : ListWork} (hwork : (Work.list list work).Minor) (p : AppPlayer) :
    Submits { cls, gen := p.generation cls, run := .list list work } p (p.listJob cls list work) :=
  submit_submits p hcls (fun hn => absurd rfl hn) hwork

theorem advanceNext_acts {forceNext : Bool}
    (h : p.advanceNext cfg m forceNext drop delay k = some p') : Acts p p' := by
  simp only [advanceNext] at h
  split at h
  · exact advanceTo_acts h
  · rename_i list htracks
    simp only [Option.bind_eq_bind, Option.bind_eq_some_iff] at h
    obtain ⟨options, -, h⟩ := h
    split at h
    · refine Quiet.acts ?_ (advanceTo_acts h)
      exact updatePlayer_quiet rfl id rfl
    · cases h
      exact .inr ⟨_, by exact htracks, bumped_submits .nav rfl list _ p⟩

theorem skipPrev_acts (m : Moment) (allowSeeking : Bool) (p : AppPlayer) :
    Acts p (p.skipPrev cfg m allowSeeking) := by
  unfold skipPrev
  split
  · exact .inl (seek_quiet m 0 p)
  · split
    · exact .inl (Quiet.refl p)
    · rename_i list htracks
      have hq : Quiet p { p with lastSkipAt := some m.now } := ⟨rfl, rfl, rfl, rfl, id, id, .refl _⟩
      have hs := bumped_submits .nav rfl list (.skipPrev (skipDelay cfg m.now p.lastSkipAt))
        { p with lastSkipAt := some m.now }
      exact .inr ⟨_, by exact htracks, hq.submits hs⟩

theorem skipNext_acts {track : Option ContextTrack} (h : p.skipNext cfg m track = some p') :
    Acts p p' := by
  have hq : Quiet p { p with lastSkipAt := some m.now } := ⟨rfl, rfl, rfl, rfl, id, id, .refl _⟩
  simp only [skipNext] at h
  cases track with
  | none => exact hq.acts (advanceNext_acts h)
  | some track =>
    simp only at h
    split at h
    · exact Option.some.inj h ▸ .inl hq
    · rename_i list htracks
      cases h
      have hs := bumped_submits .load rfl list (.skipTo track (skipDelay cfg m.now p.lastSkipAt))
        { p with lastSkipAt := some m.now }
      exact .inr ⟨_, by exact htracks, hq.submits hs⟩

theorem land_acts (m : Moment) (k : Then) (err : LoadErr) (h : p.land cfg m k err = some p') :
    Acts p p' := by
  induction k generalizing p with
  | log | apiPlay | playerEnd | skipNext => exact .inl (settle_quiet m _ _ _ h)
  | autoplayLoaded k => exact .inl (settle_quiet m k _ _ h)
  | orSkip => exact advanceNext_acts h
  | orSkipped _ ih => exact ih h
  | advanced _ _ _ ih =>
    have hq (n : Nat) : Quiet p { p with consecutiveUnplayableSkips := n } :=
      ⟨rfl, rfl, rfl, rfl, id, id, .refl _⟩
    simp only [land] at h
    split at h
    · exact (hq 0).acts (ih h)
    · exact (hq _).acts (advanceNext_acts h)

theorem call_acts {err : LoadErr} (h : p.call cfg m k err = some p') : Acts p p' := by
  unfold call at h
  split at h
  · exact land_acts m k err h
  · exact .inl (settle_quiet m k _ _ h)

theorem submitPrefetch_acts {uri : String} (h : p.submitPrefetch uri = some p') : Acts p p' := by
  unfold submitPrefetch at h
  split at h
  · exact Option.some.inj h ▸ .inl (Quiet.refl p)
  · simp only [Option.bind_eq_bind, Option.bind_eq_some_iff] at h
    obtain ⟨res, -, h⟩ := h
    cases res with
    | error => exact Option.some.inj h ▸ .inl (Quiet.refl p)
    | ok =>
      simp only at h
      split at h
      · exact Option.some.inj h ▸ .inl (Quiet.refl p)
      · cases h
        exact .inr ⟨_, by trivial, submit_submits p rfl (fun hn => absurd rfl hn) trivial⟩

theorem prefetchNext_acts (h : p.prefetchNext = some p') : Acts p p' := by
  simp only [prefetchNext, Option.bind_eq_bind, Option.bind_eq_some_iff] at h
  obtain ⟨options, -, h⟩ := h
  split at h
  · exact submitPrefetch_acts h
  · split at h
    · exact Option.some.inj h ▸ .inl (Quiet.refl p)
    · rename_i list htracks
      cases h
      exact .inr ⟨_, by exact htracks, listJob_submits .prefetch rfl list (by trivial) p⟩

theorem handlePlayerEvent_acts {ev : PlayerEvent} (h : p.handlePlayerEvent cfg m ev = some p') :
    Acts p p' := by
  have hchanged (paused : Bool) (h : p.playbackChanged paused = some p') : Acts p p' := by
    rw [emitMprisUpdate_eq h]
    refine .inl (updatePlayer_quiet rfl (fun _ => ?_) rfl)
    exact PlayerState.setPaused_steady paused { p.state.player with isPlaying := true }
  unfold handlePlayerEvent at h
  split at h
  · exact hchanged false h
  · exact hchanged false h
  · exact hchanged true h
  · split at h
    · refine Option.some.inj h ▸ .inl (Quiet.trans ?_ (pause_quiet m _))
      exact ⟨rfl, rfl, rfl, rfl, id, id, .refl _⟩
    · exact advanceNext_acts h
  · rw [emitMprisUpdate_eq h]
    exact .inl (Quiet.refl p)

theorem addToQueue_acts (track : ContextTrack) (p : AppPlayer) : Acts p (p.addToQueue track) := by
  unfold addToQueue
  split
  · exact .inl (Quiet.refl p)
  · rename_i list htracks
    split
    · refine Quiet.acts (q := { p with state.queueID := (p.state.queueID + 1) % 2 ^ 64 })
        ⟨rfl, rfl, rfl, rfl, id, id, .refl _⟩
          (.inr ⟨_, ?_, listJob_submits .mutate rfl list (by trivial) _⟩)
      exact htracks
    · exact .inr ⟨_, by exact htracks, listJob_submits .mutate rfl list (by trivial) p⟩

theorem setQueue_acts (next : Option (List ContextTrack)) (p : AppPlayer) :
    Acts p (p.setQueue next) := by
  unfold setQueue
  split
  · exact .inl (Quiet.refl p)
  · rename_i list htracks
    exact .inr ⟨_, by exact htracks, listJob_submits .mutate rfl list (by trivial) p⟩

end AppPlayer

end Librespot.Daemon
