import Librespot.Daemon.LoadInFlight

/-!
# The position that is published

Controllers work the position out from the timestamp and the playback speed. The daemon's own
`trackPosition` goes by `IsPlaying` and `IsPaused` instead. The two part ways while a track is
buffering, and in an idle state that was never paused.
-/

open Base.Run
open Librespot.Tracks

namespace Librespot.Daemon

namespace PlayerState

variable {now : Int} {s : PlayerState}

def published (now : Int) (s : PlayerState) : Int :=
  s.positionAsOfTimestamp + s.playbackSpeed * (now - s.timestamp)

def Advances (now : Int) (s : PlayerState) : Prop :=
  s.isPlaying = true ∧ s.isPaused = false ∧ 0 ≤ s.positionAsOfTimestamp + (now - s.timestamp)

def Recent (now : Int) (s : PlayerState) : Prop :=
  0 ≤ now - s.timestamp ∧ now - s.timestamp ≤ maxReasonableElapsed

instance (now : Int) (s : PlayerState) : Decidable (Recent now s) :=
  inferInstanceAs (Decidable (_ ∧ _))

theorem trackPosition_of_advances (hrecent : Recent now s) (h : Advances now s) :
    s.trackPosition now = s.positionAsOfTimestamp + (now - s.timestamp) := by
  obtain ⟨hplaying, hpaused, hnonneg⟩ := h
  obtain ⟨h0, hmax⟩ := hrecent
  have hwindow : ¬ (now - s.timestamp > maxReasonableElapsed ∨ now - s.timestamp < 0) := by omega
  simp only [trackPosition]
  rw [if_neg (by simp [hplaying, hpaused]), if_neg hwindow, if_neg (not_lt.mpr hnonneg)]

theorem trackPosition_of_not_advances (h : ¬ Advances now s) :
    s.trackPosition now = s.positionAsOfTimestamp := by
  simp only [trackPosition]
  split
  · rfl
  · split
    · rfl
    · split
      · rfl
      · rename_i hplay _ hneg
        obtain ⟨hpaused, hplaying⟩ := not_or.mp hplay
        exact absurd ⟨by simpa using hplaying, by simpa using hpaused, not_lt.mp hneg⟩ h

/-- The two positions agree when no time has passed, or when the speed says what `trackPosition`
does. -/
theorem trackPosition_eq_published_iff (hsteady : s.Steady) (hrecent : Recent now s) :
    s.trackPosition now = s.published now ↔
      now = s.timestamp ∨ (s.playbackSpeed = 1 ↔ Advances now s) := by
  by_cases hadv : Advances now s
  · rw [trackPosition_of_advances hrecent hadv, published]
    rcases hsteady with hspeed | hspeed
    · have hne : ¬ (s.playbackSpeed = 1 ↔ Advances now s) := by simp [hspeed, hadv]
      rw [or_iff_left hne, hspeed]
      constructor <;> intro h <;> omega
    · simp [hspeed, hadv]
  · rw [trackPosition_of_not_advances hadv, published]
    rcases hsteady with hspeed | hspeed
    · simp [hspeed, hadv]
    · have hne : ¬ (s.playbackSpeed = 1 ↔ Advances now s) := by simp [hspeed, hadv]
      rw [or_iff_left hne, hspeed]
      constructor <;> intro h <;> omega

end PlayerState

namespace AppPlayer

variable {cfg : Config} {g : Rand} {m : Moment} {p p' : AppPlayer}

/-! ## The speed is 0 or 1 -/

def SteadySpeed (p : AppPlayer) : Prop := p.state.player.Steady

theorem steady_lasting : Lasting PlayerState.Steady where
  fresh := .inr rfl
  quiet h := h.steady
  submits h := h.steady
  options _ _ := id

theorem step_steady {op : Op} (hp : SteadySpeed p) (h : p.step cfg g op = some p') :
    SteadySpeed p' :=
  steady_lasting.step hp h

theorem reachable_steady {ops : List Op} (h : exec (step cfg g) {} ops = some p) : SteadySpeed p :=
  exec_invariant (fun _ _ _ hs hstep => step_steady hs hstep) (.inr rfl) h

/-! ## Where a context starts -/

theorem loadContext_player {context : Context} {skipTo : Option SkipTo} {paused drop : Bool}
    {k : Then} (h : p.loadContext m context skipTo paused drop k = some p') :
    ∃ options, p'.state.player = claimContext m.now context.uri options paused p.state.player := by
  simp only [loadContext, Option.bind_eq_bind, Option.bind_eq_some_iff] at h
  obtain ⟨options, -, queued, -, h⟩ := h
  cases h
  exact ⟨_, rfl⟩

theorem trackPosition_claimContext (now now' : Int) (uri : String) (options : ContextPlayerOptions)
    (s : PlayerState) :
    (claimContext now uri options false s).trackPosition now' = 0 ↔
      now' = now ∨ ¬ (claimContext now uri options false s).Recent now' := by
  generalize hs : claimContext now uri options false s = claimed
  have hts : claimed.timestamp = now := hs ▸ rfl
  have hpos : claimed.positionAsOfTimestamp = 0 := hs ▸ rfl
  have hplaying : claimed.isPlaying = true ∧ claimed.isPaused = false := hs ▸ ⟨rfl, rfl⟩
  by_cases hrecent : claimed.Recent now'
  · have hadv : claimed.Advances now' := by
      refine ⟨hplaying.1, hplaying.2, ?_⟩
      rw [hpos]
      have := hrecent.1
      omega
    rw [PlayerState.trackPosition_of_advances hrecent hadv, hpos, hts]
    simp only [hrecent, not_true_eq_false, or_false]
    omega
  · simp only [hrecent, not_false_eq_true, or_true, iff_true]
    unfold PlayerState.Recent at hrecent
    simp only [PlayerState.trackPosition, hplaying, Bool.false_eq_true, not_true_eq_false, or_self,
      if_false, hpos]
    rw [if_pos (by omega)]

theorem start_of_no_resume {job : LoadJob} {a : Answers}
    (h : lookupResumePosition a job.spotId = none) : job.start a = job.position := by
  simp [LoadJob.start, h]

theorem resolved_submits {job : ResolveJob} {list : ListId} {snap : TrackList.Snapshot}
    (hplayable : Playable snap.current.uri)
    (h : p.commit cfg m (.resolved job list snap) = some p') :
    ∃ loaded load, Submits loaded (p.withTracks (some list)) p' ∧ loaded.run = .load load ∧
      load.position = p.state.player.trackPosition m.now := by
  have hq := publishSnapshot_quiet snap (p.withTracks (some list))
  rcases loadCurrentTrack_cases h with ⟨hno, -⟩ | ⟨-, -, loaded, hs, -, load, hrun, hposition, -⟩
  · exact absurd hplayable hno
  · exact ⟨loaded, load, hq.submits hs, hrun, hposition⟩

/-- What is published agrees with `trackPosition` exactly where the speed does, and a context that
is resolved while nothing else happens starts at 0 exactly if that took no time. -/
theorem positions_agree_iff (cfg : Config) (g : Rand) :
    (∀ ops p now, exec (step cfg g) {} ops = some p → p.state.player.Recent now →
      (p.state.player.trackPosition now = p.state.player.published now ↔
        now = p.state.player.timestamp ∨
          (p.state.player.playbackSpeed = 1 ↔ p.state.player.Advances now))) ∧
    (∀ (m m' : Moment) (p q p' q' : AppPlayer) (context : Context) (skipTo : Option SkipTo)
        (drop : Bool) (k : Then) (job : ResolveJob) (list : ListId) (snap : TrackList.Snapshot),
      p.loadContext m context skipTo false drop k = some p' →
      q.state.player = p'.state.player → Playable snap.current.uri →
      q.commit cfg m' (.resolved job list snap) = some q' →
      ∃ loaded load, Submits loaded (q.withTracks (some list)) q' ∧ loaded.run = .load load ∧
        ∀ a, lookupResumePosition a load.spotId = none →
          (load.start a = 0 ↔ m'.now = m.now ∨ ¬ p'.state.player.Recent m'.now)) := by
  constructor
  · intro ops p now h hrecent
    exact PlayerState.trackPosition_eq_published_iff (reachable_steady h) hrecent
  · intro m m' p q p' q' context skipTo drop k job list snap hload hsame hplayable hcommit
    obtain ⟨loaded, load, hs, hrun, hposition⟩ := resolved_submits hplayable hcommit
    obtain ⟨options, hclaim⟩ := loadContext_player hload
    refine ⟨loaded, load, hs, hrun, fun a ha => ?_⟩
    rw [start_of_no_resume ha, hposition, hsame, hclaim]
    exact trackPosition_claimContext ..

def slowRun : List Op :=
  .command { now := 0 } (.play { context := {} }) :: roundTrip 5000 (served [knownTrack])

/-- One second into the resolve nothing has played, and the first track is loaded to start where
five seconds would have brought it. -/
theorem positions_disagree_while_buffering :
    (¬ ∀ ops p now, exec (step here drawZero) {} ops = some p → p.state.player.Recent now →
      p.state.player.trackPosition now = p.state.player.published now) ∧
    (exec (step here drawZero) {} slowRun).map (fun p => p.loader.queue.map fun job =>
      match job.run with
      | .load load => some (load.start (served [knownTrack]))
      | _ => none) = some [some 5000] := by
  refine ⟨fun h => ?_, by decide +kernel⟩
  exact absurd (h (slowRun.take 1) _ 1000 (exec_get (by decide +kernel)) (by decide +kernel))
    (by decide +kernel)

def knownSnapshot : TrackList.Snapshot where
  current := ⟨knownTrack.uri, "", [], "", "", ""⟩
  prev := []
  next := []
  index := {}

theorem knownSnapshot_playable : Playable knownSnapshot.current.uri := by
  have hid : spotifyIdFromUri knownSnapshot.current.uri =
      some (.ok ⟨"track", List.replicate 15 0 ++ [1]⟩) := by
    decide +kernel
  exact ⟨_, hid, .inl rfl⟩

def resolvedJob : ResolveJob where
  context := {}
  skipTo := none
  shuffle := false
  queued := []
  paused := false
  drop := true
  k := .log

theorem positions_agree_at_once :
    (∃ p, exec (step here drawZero) {} (slowRun.take 1) = some p ∧
      p.state.player.trackPosition 0 = p.state.player.published 0) ∧
    ∃ p q, ({} : AppPlayer).loadContext { now := 0 } {} none false true .log = some p ∧
      p.commit here { now := 0 } (.resolved resolvedJob 0 knownSnapshot) = some q ∧
      ∃ loaded load, Submits loaded (p.withTracks (some 0)) q ∧ loaded.run = .load load ∧
        ∀ a, lookupResumePosition a load.spotId = none → load.start a = 0 := by
  obtain ⟨hagree, hstart⟩ := positions_agree_iff here drawZero
  have hp : exec (step here drawZero) {} (slowRun.take 1) = some _ := exec_get (by decide +kernel)
  have hload : ∃ p, ({} : AppPlayer).loadContext { now := 0 } {} none false true .log = some p ∧
      (p.commit here { now := 0 } (.resolved resolvedJob 0 knownSnapshot)).isSome := by
    exact ⟨_, rfl, by decide +kernel⟩
  obtain ⟨p', hp', hcommit⟩ := hload
  obtain ⟨q, hq⟩ := Option.isSome_iff_exists.mp hcommit
  obtain ⟨loaded, load, hs, hrun, hzero⟩ :=
    hstart _ _ _ _ _ _ _ _ _ _ _ _ _ hp' rfl knownSnapshot_playable hq
  refine ⟨⟨_, hp, (hagree _ _ 0 hp (by decide +kernel)).mpr (.inl (by decide +kernel))⟩, p', q, hp',
    hq, loaded, load,
    hs, hrun, fun a ha => (hzero a ha).mpr (.inl rfl)⟩

end AppPlayer

end Librespot.Daemon
