import Librespot.Daemon.QueueState

/-!
# The sleep timer

A `set_sleep_timer` command arms a timer or a flag that the end of the track looks at. What is
published of them belongs to the player state, which a stop replaces.
-/

open Base.Run
open Librespot.Tracks Option

namespace Librespot.Daemon

open AppPlayer

inductive SleepTimer
  | timestamp
  | endOfTrack
deriving DecidableEq, Repr

def SleepTimer.ofCommand : Option TimerType → Option SleepTimer
  | none => none
  | some tt =>
    if tt.type = "duration" ∧ tt.durationS > 0 then some .timestamp
    else if tt.type = "end_of_track" then some .endOfTrack
    else none

def AppPlayer.resets (cfg : Config) (p : AppPlayer) : Op → Bool
  | .command _ .stop => true
  | .cluster (some cluster) =>
    p.state.active && cluster.activeDeviceId ≠ cfg.deviceId &&
      cluster.playerState.any (· > p.state.activationTimestamp)
  | _ => false

variable {op : Op}

theorem AppPlayer.step_resets {cfg : Config} {g : Rand} {p p' : AppPlayer}
    (hop : p.resets cfg op = true) (h : p.step cfg g op = some p') : p' = p.stopPlayback := by
  unfold resets at hop
  split at hop
  · exact (some.inj (handle_of_step rfl h)).symm
  · rename_i cluster
    simp only [Bool.and_eq_true, decide_eq_true_eq, Option.any_eq_true] at hop
    obtain ⟨⟨hactive, hother⟩, timestamp, hstate, hlater⟩ := hop
    have h := handle_of_step rfl h
    simp only [handle, handleCluster, hactive, if_true, bind_eq_bind, bind_some,
      if_neg hother, hstate, some.injEq] at h
    rw [← h, if_pos hlater]
  · simp at hop

structure Sleeper where
  player : AppPlayer := {}
  /-- The timer runs, or it has fired and the loop has not received that. -/
  timer : Bool := false
  shown : Option SleepTimer := none

inductive SleepOp
  | set (m : Moment) (tt : Option TimerType)
  | loop (op : Op)

def Op.isSetTimer : Op → Bool
  | .command _ (.setSleepTimer _) => true
  | _ => false

namespace Sleeper

variable (cfg : Config) (g : Rand)

def step (s : Sleeper) : SleepOp → Option Sleeper
  | .set m tt =>
    let set := SleepTimer.ofCommand tt
    (s.player.step cfg g (.command m (.setSleepTimer (set = some .endOfTrack)))).map fun player =>
      { player, timer := set = some .timestamp, shown := set }
  -- When the timer fires is left open.
  | .loop (.sleepTimer m) =>
    if s.timer then
      (s.player.step cfg g (.sleepTimer m)).map fun player =>
        { player, timer := false, shown := none }
    else none
  | .loop op =>
    if op.isSetTimer then none
    else
      (s.player.step cfg g op).map fun player =>
        -- The end of a track clears the flag and what is shown together.
        let slept := s.player.sleepAtEndOfTrack && !player.sleepAtEndOfTrack
        { s with player, shown := if s.player.resets cfg op || slept then none else s.shown }

def armed (s : Sleeper) : Bool := s.timer || s.player.sleepAtEndOfTrack

def dozes (s : Sleeper) : SleepOp → Bool
  | .set .. => false
  | .loop (.sleepTimer _) => s.timer
  | .loop op =>
    s.player.sleepAtEndOfTrack && (s.player.step cfg g op).any (!·.sleepAtEndOfTrack)

def AtMostOne (s : Sleeper) : Prop := ¬ (s.timer = true ∧ s.player.sleepAtEndOfTrack = true)

def Agrees (s : Sleeper) : Prop := s.shown.isSome = true ↔ s.armed = true

def Awake (s : Sleeper) : SleepOp → Prop
  | .set .. => True
  | .loop op => s.player.resets cfg op = true → s.armed = false

variable {cfg : Config} {g : Rand} {s s' : Sleeper}

theorem step_sleep {p p' : AppPlayer} (hop : op.isSetTimer = false)
    (h : p.step cfg g op = some p') :
    p'.sleepAtEndOfTrack = p.sleepAtEndOfTrack ∨
      p.sleepAtEndOfTrack = true ∧ p'.sleepAtEndOfTrack = false := by
  have hnoted := step_queueState h
  generalize hn : p'.queueState = n at hnoted
  have hflag : p'.sleepAtEndOfTrack = n.sleepAtEndOfTrack := hn ▸ rfl
  rw [hflag]
  cases hnoted with
  | kept | numbered | abandoned => exact .inl rfl
  | timed => simp [Op.isSetTimer] at hop
  | slept _ hsleep => exact .inr ⟨hsleep, rfl⟩
  | committed _ res => cases res.commit <;> exact .inl rfl

theorem sleeps_of_step {p p' : AppPlayer} (hop : op.isSetTimer = false)
    (h : p.step cfg g op = some p') (hsleeps : p'.sleepAtEndOfTrack = true) :
    p.sleepAtEndOfTrack = true := by
  rcases step_sleep hop h with hsame | ⟨hbefore, -⟩
  · rw [← hsame, hsleeps]
  · exact hbefore

theorem step_set {m : Moment} {tt : Option TimerType} (h : s.step cfg g (.set m tt) = some s') :
    s'.timer = decide (SleepTimer.ofCommand tt = some .timestamp) ∧
      s'.player.sleepAtEndOfTrack = decide (SleepTimer.ofCommand tt = some .endOfTrack) ∧
      s'.shown = SleepTimer.ofCommand tt := by
  simp only [step, map_eq_some_iff] at h
  obtain ⟨player, hplayer, rfl⟩ := h
  obtain rfl := some.inj (handle_of_step rfl hplayer)
  exact ⟨rfl, rfl, rfl⟩

inductive Looped (cfg : Config) (s : Sleeper) (op : Op) (s' : Sleeper) : Prop
  | fired (hfires : s.timer = true) (hresets : s.player.resets cfg op = false)
      (htimer : s'.timer = false) (hshown : s'.shown = none)
  | passed (htimer : s'.timer = s.timer)
      (hshown : s'.shown = if s.player.resets cfg op || (s.player.sleepAtEndOfTrack &&
        !s'.player.sleepAtEndOfTrack) then none else s.shown)

theorem step_loop (h : s.step cfg g (.loop op) = some s') :
    op.isSetTimer = false ∧ s.player.step cfg g op = some s'.player ∧ Looped cfg s op s' := by
  unfold step at h
  split at h
  · simp at *
  · rename_i m heq
    obtain rfl := SleepOp.loop.inj heq
    split at h
    · rename_i htimer
      obtain ⟨player, hplayer, rfl⟩ := map_eq_some_iff.mp h
      exact ⟨rfl, hplayer, .fired htimer rfl rfl rfl⟩
    · simp at h
  · rename_i heq
    obtain rfl := SleepOp.loop.inj heq
    split at h
    · simp at h
    · rename_i hset
      obtain ⟨player, hplayer, rfl⟩ := map_eq_some_iff.mp h
      exact ⟨by simpa using hset, hplayer, .passed rfl rfl⟩

/-! ## What holds in every run -/

structure Inv (s : Sleeper) : Prop where
  one : s.AtMostOne
  shown : s.shown.isSome = true → s.armed = true

theorem inv_new : Inv {} := ⟨by simp [AtMostOne], by simp⟩

theorem set_agrees {m : Moment} {tt : Option TimerType} (h : s.step cfg g (.set m tt) = some s') :
    s'.AtMostOne ∧ s'.Agrees := by
  obtain ⟨htimer, hflag, hshown⟩ := step_set h
  unfold AtMostOne Agrees armed
  rw [htimer, hflag, hshown]
  rcases SleepTimer.ofCommand tt with _ | _ | _ <;> simp

theorem loop_inv (hs : Inv s) (h : s.step cfg g (.loop op) = some s') : Inv s' := by
  obtain ⟨hop, hplayer, hlooped⟩ := step_loop h
  cases hlooped with
  | fired _ _ htimer hshown => exact ⟨by simp [AtMostOne, htimer], by simp [hshown]⟩
  | passed htimer hshown =>
    constructor
    · rintro ⟨htimer', hsleeps⟩
      exact hs.one ⟨htimer ▸ htimer', sleeps_of_step hop hplayer hsleeps⟩
    · intro hsome
      rw [hshown] at hsome
      split at hsome
      · simp at hsome
      · rename_i hkept
        have harmed := hs.shown hsome
        simp only [armed, htimer, Bool.or_eq_true] at harmed ⊢
        refine harmed.imp_right fun hsleeps => ?_
        simp only [hsleeps, Bool.true_and, Bool.or_eq_true, not_or] at hkept
        simpa using hkept.2

theorem step_inv {op : SleepOp} (hs : Inv s) (h : s.step cfg g op = some s') : Inv s' := by
  cases op with
  | set =>
    obtain ⟨hone, hagrees⟩ := set_agrees h
    exact ⟨hone, hagrees.mp⟩
  | loop => exact loop_inv hs h

theorem agrees_of_awake {op : SleepOp} (hs : Inv s) (hagrees : s.Agrees) (hawake : Awake cfg s op)
    (h : s.step cfg g op = some s') : s'.Agrees := by
  cases op with
  | set => exact (set_agrees h).2
  | loop op =>
    refine ⟨(loop_inv hs h).shown, fun harmed => ?_⟩
    obtain ⟨hop, hplayer, hlooped⟩ := step_loop h
    have hflag := sleeps_of_step hop hplayer
    simp only [armed, Bool.or_eq_true] at harmed
    cases hlooped with
    | fired hfires _ htimer =>
      have hsleeps := harmed.resolve_left (by simp [htimer])
      exact absurd ⟨hfires, hflag hsleeps⟩ hs.one
    | passed htimer hshown =>
      have hbefore : s.armed = true := by
        simpa [armed] using harmed.imp (htimer ▸ ·) hflag
      have hresets : s.player.resets cfg op = false := by
        by_contra hne
        simp [hawake (by simpa using hne)] at hbefore
      have hslept : (s.player.sleepAtEndOfTrack && !s'.player.sleepAtEndOfTrack) = false := by
        by_contra hne
        simp only [Bool.not_eq_false, Bool.and_eq_true, Bool.not_eq_true'] at hne
        have htimer' := harmed.resolve_right (by simp [hne.2])
        exact hs.one ⟨htimer ▸ htimer', hne.1⟩
      rw [hshown, hresets, hslept]
      exact hagrees.mpr hbefore

theorem awake_of_agrees {op : SleepOp} (h : s.step cfg g op = some s') (hagrees : s'.Agrees) :
    Awake cfg s op := by
  cases op with
  | set => trivial
  | loop =>
    intro hresets
    obtain ⟨-, hplayer, hlooped⟩ := step_loop h
    cases hlooped with
    | fired _ hnot => simp [hnot] at hresets
    | passed htimer hshown =>
      have hplayer' := step_resets hresets hplayer
      have harmed : s'.armed = s.armed := by rw [armed, armed, htimer, hplayer']; rfl
      rw [← harmed]
      rw [hresets, Bool.true_or, if_pos rfl] at hshown
      by_contra hne
      have := hagrees.mpr (by simpa using hne)
      simp [hshown] at this

def Seen (cfg : Config) (g : Rand) (s : Sleeper) (op : SleepOp) : Prop :=
  s.dozes cfg g op = true → s.shown.isSome = true

theorem seen_of_agrees (hagrees : s.Agrees) (op : SleepOp) : Seen cfg g s op := by
  intro hdozes
  apply hagrees.mpr
  unfold dozes at hdozes
  split at hdozes
  · simp at hdozes
  · simp [armed, hdozes]
  · simp only [Bool.and_eq_true] at hdozes
    simp [armed, hdozes.1]

/-- In every run at most one of the two is armed. What is shown agrees with what is armed exactly as
long as playback is not stopped while one of them is, and up to then a timer only ever pauses
while it is shown. -/
theorem sleep_timer_agrees (cfg : Config) (g : Rand) (ops : List SleepOp) :
    Always (step cfg g) AtMostOne {} ops ∧
      (Always (step cfg g) Agrees {} ops ↔ Meets (step cfg g) (Awake cfg) {} ops) ∧
      (Meets (step cfg g) (Awake cfg) {} ops → Meets (step cfg g) (Seen cfg g) {} ops) := by
  have hnew : Agrees {} := by simp [Agrees, armed]
  have hkeep (s : Sleeper) (op : SleepOp) (s' : Sleeper) (hs : Inv s ∧ s.Agrees)
      (hawake : Awake cfg s op) (h : s.step cfg g op = some s') : Inv s' ∧ s'.Agrees :=
    ⟨step_inv hs.1 h, agrees_of_awake hs.1 hs.2 hawake h⟩
  refine ⟨?_, ?_, ?_⟩
  · have halways : Always (step cfg g) Inv {} ops :=
      always_of_meets (fun _ _ _ hs _ h => step_inv hs h) inv_new
        (meets_of_labels (L := fun _ => True) fun op _ => trivial)
    exact halways.imp fun s hs => hs.one
  · exact always_iff_meets (L := fun _ => True) (fun s hs => hs.2)
      (fun s op s' hs _ => hkeep s op s' hs) (fun s op s' _ _ h => awake_of_agrees h)
      ⟨inv_new, hnew⟩ fun op _ => trivial
  · exact meets_of_invariant hkeep (fun s op s' hs _ _ => seen_of_agrees hs.2 op) ⟨inv_new, hnew⟩

open AppPlayer (here playingRun)

/-- A timer is set for a minute, playback is stopped, and a context is played again. -/
def stoppedOps : List SleepOp :=
  playingRun.map .loop ++
    [.set { now := 1000 } (some { type := "duration", durationS := 60 }),
      .loop (.command { now := 2000 } .stop)] ++
    playingRun.map .loop

/-- Nothing shows the timer any more, and it pauses what was played after the stop. -/
theorem unseen_timer_pauses : ∃ s s', exec (step here drawZero) {} stoppedOps = some s ∧
    s.step here drawZero (.loop (.sleepTimer { now := 61000 })) = some s' ∧
    s.timer = true ∧ s.shown = none ∧ ¬ s.Agrees ∧ s.player.state.player.isPaused = false ∧
    s'.player.state.player.isPaused = true := by
  refine ⟨Option.get _ (by decide +kernel), Option.get _ (by decide +kernel), exec_get _,
    (some_get _).symm, ?_⟩
  unfold Agrees
  decide +kernel

end Sleeper

end Librespot.Daemon
