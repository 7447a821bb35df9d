import Librespot.Daemon.Outstanding

/-!
# When another device takes playback over

A cluster update that names another device is only believed when it is newer than
the state that this device took over from. For a play that is the latest update
that was seen while inactive. The update that ends the activity is never remembered.
-/

open Base.Run
open Librespot.Tracks Option

namespace Librespot.Daemon

open AppPlayer

structure Activation where
  active : Bool := false
  activationTimestamp : Int := 0
  lastClusterTimestamp : Int := 0
deriving DecidableEq

def AppPlayer.activation (p : AppPlayer) : Activation :=
  ⟨p.state.active, p.state.activationTimestamp, p.state.lastClusterTimestamp⟩

namespace Activation

def takeOver (s : Activation) : Activation :=
  { s with
    active := true
    activationTimestamp := if s.active then s.activationTimestamp else s.lastClusterTimestamp }

theorem takeOver_of_active {s : Activation} (h : s.active = true) : s.takeOver = s := by
  obtain ⟨active, activationTimestamp, lastClusterTimestamp⟩ := s
  subst h
  rfl

def stop (s : Activation) : Activation := { s with active := false }

end Activation

def carried (cluster : Option Cluster) : Int := (cluster.bind Cluster.playerState).getD 0

def Op.isTransfer : Op → Bool
  | .command _ (.transfer _) => true
  | _ => false

namespace AppPlayer

variable {cfg : Config} {g : Rand} {m : Moment} {p p' : AppPlayer}

/-! ## What the handlers do to the activation -/

theorem Quiet.activation (h : Quiet p p') : p'.activation = p.activation := by
  have := h.frame
  simp only [AppPlayer.frame, Frame.mk.injEq] at this
  simp [AppPlayer.activation, this]

theorem Submits.activation {job : LoaderJob Work} (h : Submits job p p') :
    p'.activation = p.activation := by
  have := h.frame
  simp only [AppPlayer.frame, Frame.mk.injEq] at this
  simp [AppPlayer.activation, this]

theorem Acts.activation (h : Acts p p') : p'.activation = p.activation := by
  rcases h with h | ⟨job, -, h⟩
  · exact h.activation
  · exact h.activation

theorem tookOver_activation (p : AppPlayer) : p.tookOver.activation = p.activation.takeOver := by
  rcases h : p.state.active with _ | _ <;>
    simp [activation, tookOver, State.takeOver, Activation.takeOver, State.setActive, h]

theorem LoadsContext.activation {context : Context} (h : LoadsContext context p p') :
    p'.activation = p.activation := by
  obtain ⟨options, restricted, job, -, -, -, h⟩ := h
  exact h.activation

theorem Reverted.activation {work : ListWork} (h : Reverted work p p') :
    p'.activation = p.activation := by
  cases work with
  | shuffle =>
    obtain ⟨options, -, h⟩ := h
    exact h.activation
  | _ => exact Quiet.activation h

theorem commit_activation {c : Commit} (h : Commit.Effect p p' c) :
    p'.activation = p.activation ∨ p'.activation = p.activation.takeOver := by
  cases c with
  | nothing | noStation k | loaded job stream streamGen position | prefetched stream =>
    exact .inl (Quiet.activation h)
  | call => exact .inl (Acts.activation h)
  | resolved _ list => exact .inl (Acts.activation (p := p.withTracks (some list)) h)
  | abandonTransfer => exact .inl (Quiet.activation (p := p.withTracks none) h)
  | transferred _ list =>
    exact .inl (Acts.activation (p := (p.withTracks (some list)).withOptions _) h)
  | walkFailed => exact .inl (Reverted.activation h)
  | walked =>
    simp only [Commit.Effect] at h
    split at h
    · exact .inl (Walks.acts h).activation
    · exact .inl (Reverted.activation h)
  | station => exact .inl (LoadsContext.activation h)
  | apiPlay =>
    right
    rw [← tookOver_activation]
    exact LoadsContext.activation h

inductive Activates (s s' : Activation) : Prop
  | same (h : s' = s)
  | tookOver (h : s' = s.takeOver)
  | stopped (h : s' = s.stop)

theorem command_activates {cmd : Command} (he : Command.Effect p p' cmd)
    (hcmd : (Op.command m cmd).isTransfer = false) : Activates p.activation p'.activation := by
  cases cmd with
  | transfer => simp [Op.isTransfer] at hcmd
  | play =>
    obtain ⟨old, -, he⟩ := he
    apply Activates.tookOver
    rw [← tookOver_activation]
    exact he.activation
  | setOptions =>
    cases he with
    | kept _ _ h | toggled _ _ _ _ _ _ _ _ _ h => exact .same h.activation
  | stop => exact .stopped (congrArg activation he)
  | _ => exact .same (Acts.activation he)

theorem transfer_activation {req : TransferCommand} (h : p.transfer m req = some p') :
    p'.activation.activationTimestamp = req.state.playback.timestamp ∧
      p'.activation.lastClusterTimestamp = p.activation.lastClusterTimestamp ∧
      (p'.activation.active = p.activation.active ∨ p'.activation.active = true) := by
  cases transfer_takes h with
  | refused h =>
    rw [h]
    exact ⟨rfl, rfl, .inl rfl⟩
  | idle h =>
    rw [h.activation]
    exact ⟨rfl, rfl, .inr rfl⟩
  | continued _ _ _ h =>
    rw [h.activation]
    exact ⟨rfl, rfl, .inl rfl⟩
  | claimed _ _ _ h =>
    rw [h.activation]
    exact ⟨rfl, rfl, .inr rfl⟩

def Deactivates (cfg : Config) (other : String) (timestamp : Int) (p : AppPlayer) : Prop :=
  (p.handleCluster cfg (some ⟨other, some timestamp⟩)).map (fun p => p.state.active) = some false

theorem deactivates_iff {other : String} {timestamp : Int} (hactive : p.activation.active = true)
    (hother : other ≠ cfg.deviceId) :
    Deactivates cfg other timestamp p ↔ p.activation.activationTimestamp < timestamp := by
  have hactive : p.state.active = true := hactive
  simp only [Deactivates, handleCluster, hactive, if_true, bind_eq_bind, bind_some,
    hother, if_false, map_some, some.injEq]
  split
  · rename_i h
    simpa [stopPlayback, State.reset, activation] using h
  · rename_i h
    simpa [hactive, activation] using h

theorem cluster_activation {cluster : Option Cluster} (h : p.handleCluster cfg cluster = some p') :
    (p.activation.active = true ∧
      (p'.activation = p.activation ∨ p'.activation = p.activation.stop)) ∨
    (p.activation.active = false ∧
      p'.activation = { p.activation with lastClusterTimestamp := carried cluster }) := by
  unfold handleCluster at h
  split at h
  · rename_i hactive
    simp only [Option.bind_eq_bind, Option.bind_eq_some_iff] at h
    obtain ⟨cluster, -, h⟩ := h
    refine .inl ⟨hactive, ?_⟩
    split at h
    · exact .inl (congrArg activation (Option.some.inj h).symm)
    · simp only [Option.bind_eq_some_iff] at h
      obtain ⟨timestamp, -, h⟩ := h
      cases h
      split
      · exact .inr rfl
      · exact .inl rfl
  · rename_i hactive
    cases h
    exact .inr ⟨by simpa [activation] using hactive, rfl⟩

theorem step_activates {op : Op} (h : p.step cfg g op = some p') (hop : op.isTransfer = false)
    (hcluster : ∀ cluster, op ≠ .cluster cluster) : Activates p.activation p'.activation := by
  have he := step_effect h
  cases op with
  | take clock | finish a | deliver =>
    rw [lane_eq rfl h]
    exact .same rfl
  | command => exact command_activates he hop
  | cluster cluster => exact absurd rfl (hcluster cluster)
  | receive =>
    obtain ⟨res, rest, -, he⟩ := he
    cases he with
    | stale _ h => exact .same h.activation
    | applied _ _ h hq =>
      rcases commit_activation h with h | h
      · exact .same (hq.activation.trans h)
      · exact .tookOver (hq.activation.trans h)
  | event m ev | drain m =>
    obtain ⟨pending, draining, he⟩ := he
    exact .same he.activation
  | prefetchTimer | sleepTimer m => exact .same (Acts.activation he)

end AppPlayer

structure PlayGate where
  latest : Int
  transferred : Bool := false

structure Watch where
  player : AppPlayer := {}
  latest : Option Int := none
  gate : Option PlayGate := none

namespace Watch

variable {cfg : Config} {g : Rand} {w w' : Watch} {op : Op} {p : AppPlayer}

def gateAfter (op : Op) (w : Watch) (p : AppPlayer) : Option PlayGate :=
  if p.state.active = false then none
  else if w.player.state.active = true then
    w.gate.map fun γ => { γ with transferred := γ.transferred || op.isTransfer }
  else if op.isTransfer then none
  else w.latest.map fun latest => { latest }

def latestAfter (op : Op) (w : Watch) : Option Int :=
  match op with
  | .cluster cluster => some (carried cluster)
  | _ => w.latest

def step (cfg : Config) (g : Rand) (w : Watch) (op : Op) : Option Watch :=
  (w.player.step cfg g op).map fun player =>
    { player, latest := w.latestAfter op, gate := w.gateAfter op player }

/-- An update that names another device is believed only if it is newer than the latest one before
the play, and is believed then as long as no transfer has come in between. -/
def Gated (cfg : Config) (w : Watch) : Prop :=
  ∀ γ other timestamp, w.gate = some γ → other ≠ cfg.deviceId →
    (w.player.Deactivates cfg other timestamp → γ.latest < timestamp) ∧
    (γ.transferred = false → γ.latest < timestamp → w.player.Deactivates cfg other timestamp)

/-- A step that makes this device active without a transfer finds the latest update remembered, and
no transfer comes with an older playback than the latest update before the play. -/
def Remembers (cfg : Config) (g : Rand) (w : Watch) (op : Op) : Prop :=
  match op with
  | .command _ (.transfer req) =>
    ∀ γ, w.gate = some γ → γ.latest ≤ req.state.playback.timestamp
  | op => w.player.state.active = false →
    (w.player.step cfg g op).any (fun p => p.state.active) = true →
      ∀ latest, w.latest = some latest → w.player.state.lastClusterTimestamp = latest

def Holds (w : Watch) : Prop :=
  ∀ γ, w.gate = some γ → w.player.activation.active = true ∧
    γ.latest ≤ w.player.activation.activationTimestamp ∧
    (γ.transferred = false → w.player.activation.activationTimestamp = γ.latest)

theorem Holds.gated (h : Holds w) : Gated cfg w := by
  intro γ other timestamp hγ hother
  obtain ⟨hactive, hle, heq⟩ := h γ hγ
  rw [deactivates_iff hactive hother]
  refine ⟨fun hlt => by omega, fun ht hlt => ?_⟩
  rw [heq ht]
  exact hlt

theorem Gated.holds (h : Gated cfg w)
    (hactive : w.gate.isSome = true → w.player.activation.active = true) : Holds w := by
  intro γ hγ
  have hactive := hactive (by simp [hγ])
  have hother : cfg.deviceId ++ "'" ≠ cfg.deviceId := by
    intro heq
    have := congrArg String.length heq
    simp at this
  have hiff {timestamp : Int} :
      AppPlayer.Deactivates cfg (cfg.deviceId ++ "'") timestamp w.player ↔
        w.player.activation.activationTimestamp < timestamp :=
    deactivates_iff hactive hother
  refine ⟨hactive, ?_, ?_⟩
  · have := (h γ _ _ hγ hother).1 (hiff.mpr (Int.lt_succ _))
    omega
  · intro ht
    have h1 := (h γ _ _ hγ hother).1 (hiff.mpr (Int.lt_succ _))
    have h2 := hiff.mp ((h γ _ _ hγ hother).2 ht (Int.lt_succ _))
    omega

theorem step_eq_some (h : w.step cfg g op = some w') :
    w.player.step cfg g op = some w'.player ∧ w'.gate = w.gateAfter op w'.player := by
  simp only [step, map_eq_some_iff] at h
  obtain ⟨player, hstep, rfl⟩ := h
  exact ⟨hstep, rfl⟩

theorem gate_active (h : w.step cfg g op = some w') (hgate : w'.gate.isSome = true) :
    w'.player.activation.active = true := by
  rw [(step_eq_some h).2, gateAfter] at hgate
  split at hgate
  · simp at hgate
  · rename_i hactive
    simpa [activation] using hactive

theorem gateAfter_inactive (h : p.activation.active = false) :
    w.gateAfter op p = none := if_pos h

theorem gateAfter_active (hw : w.player.activation.active = true)
    (h : p.activation.active = true) :
    w.gateAfter op p = w.gate.map fun γ =>
      { γ with transferred := γ.transferred || op.isTransfer } := by
  have hw : w.player.state.active = true := hw
  have h : p.state.active = true := h
  simp [gateAfter, hw, h]

theorem gateAfter_activated (hw : w.player.activation.active = false)
    (h : p.activation.active = true) :
    w.gateAfter op p = if op.isTransfer then none else w.latest.map fun latest => { latest } := by
  have hw : w.player.state.active = false := hw
  have h : p.state.active = true := h
  simp [gateAfter, hw, h]

theorem holds_of_gate_none (h : w.gate = none) : Holds w := by
  intro γ hγ
  rw [h] at hγ
  simp at hγ

theorem holds_of_same (h : w.step cfg g op = some w') (hw : Holds w) (hop : op.isTransfer = false)
    (hsame : w'.player.activation = w.player.activation) : Holds w' := by
  rcases hactive : w.player.activation.active with _ | _
  · apply holds_of_gate_none
    rw [(step_eq_some h).2, gateAfter_inactive (hsame ▸ hactive)]
  · intro γ hγ
    rw [(step_eq_some h).2, gateAfter_active hactive (hsame ▸ hactive)] at hγ
    rw [hsame]
    simpa [hop] using hw γ (by simpa [hop] using hγ)

theorem transfer_holds_iff {m : Moment} {req : TransferCommand}
    (h : w.step cfg g (.command m (.transfer req)) = some w') (hw : Holds w) :
    Holds w' ↔ ∀ γ, w.gate = some γ → γ.latest ≤ req.state.playback.timestamp := by
  obtain ⟨hstep, hgate⟩ := step_eq_some h
  obtain ⟨hstamp, -, hactive'⟩ := transfer_activation (handle_of_step rfl hstep)
  rcases hactive : w.player.activation.active with _ | _
  · have hnone : w.gate = none := by
      by_contra hne
      obtain ⟨γ, hγ⟩ := ne_none_iff_exists'.mp hne
      have := (hw γ hγ).1
      rw [hactive] at this
      simp at this
    have hnone' : w'.gate = none := by
      rcases h' : w'.player.activation.active with _ | _
      · rw [hgate, gateAfter_inactive h']
      · rw [hgate, gateAfter_activated hactive h']
        rfl
    simp [hnone, holds_of_gate_none hnone']
  · have h' : w'.player.activation.active = true := by
      rcases hactive' with h' | h'
      · exact h'.trans hactive
      · exact h'
    rw [gateAfter_active hactive h'] at hgate
    constructor
    · intro hh γ hγ
      have hγ' : w'.gate = some { γ with transferred := γ.transferred || true } := by
        rw [hgate, hγ]
        rfl
      rw [← hstamp]
      exact (hh _ hγ').2.1
    · intro hle γ' hγ'
      rw [hgate, map_eq_some_iff] at hγ'
      obtain ⟨γ, hγ, rfl⟩ := hγ'
      refine ⟨h', ?_, ?_⟩
      · rw [hstamp]
        exact hle γ hγ
      · simp [Op.isTransfer]

theorem remembers_iff (hop : op.isTransfer = false)
    (hstep : w.player.step cfg g op = some w'.player) :
    Remembers cfg g w op ↔ (w.player.activation.active = false →
      w'.player.activation.active = true → ∀ latest, w.latest = some latest →
        w.player.activation.lastClusterTimestamp = latest) := by
  unfold Remembers
  split
  · simp [Op.isTransfer] at hop
  · rw [hstep]
    rfl

theorem play_holds_iff (h : w.step cfg g op = some w') (hop : op.isTransfer = false)
    (hactive : w.player.activation.active = false)
    (htook : w'.player.activation = w.player.activation.takeOver) :
    Holds w' ↔ ∀ latest, w.latest = some latest →
      w.player.activation.lastClusterTimestamp = latest := by
  have hgate := (step_eq_some h).2
  have h' : w'.player.activation.active = true := by rw [htook]; rfl
  have hstamp : w'.player.activation.activationTimestamp =
      w.player.activation.lastClusterTimestamp := by
    rw [htook]
    simp [Activation.takeOver, hactive]
  rw [gateAfter_activated hactive h', if_neg (by simp [hop])] at hgate
  constructor
  · intro hh latest hlatest
    have hγ : w'.gate = some { latest } := by
      rw [hgate, hlatest]
      rfl
    rw [← hstamp]
    exact (hh _ hγ).2.2 rfl
  · intro heq γ hγ
    rw [hgate, map_eq_some_iff] at hγ
    obtain ⟨latest, hlatest, rfl⟩ := hγ
    have := heq latest hlatest
    refine ⟨h', ?_, fun _ => ?_⟩
    · rw [hstamp, this]
    · rw [hstamp, this]

theorem holds_iff_remembers (h : w.step cfg g op = some w') (hw : Holds w) :
    Holds w' ↔ Remembers cfg g w op := by
  obtain ⟨hstep, hgate⟩ := step_eq_some h
  rcases hop : op.isTransfer with _ | _
  · rw [remembers_iff hop hstep]
    have hsame (hs : w'.player.activation = w.player.activation) : Holds w' ↔
        (w.player.activation.active = false → w'.player.activation.active = true →
          ∀ latest, w.latest = some latest →
            w.player.activation.lastClusterTimestamp = latest) := by
      refine iff_of_true (holds_of_same h hw hop hs) fun h1 h2 => ?_
      rw [hs, h1] at h2
      simp at h2
    have hidle (hs : w'.player.activation.active = false) : Holds w' ↔
        (w.player.activation.active = false → w'.player.activation.active = true →
          ∀ latest, w.latest = some latest →
            w.player.activation.lastClusterTimestamp = latest) := by
      refine iff_of_true (holds_of_gate_none ?_) fun _ h2 => ?_
      · rw [hgate, gateAfter_inactive hs]
      · rw [hs] at h2
        simp at h2
    by_cases hcluster : ∃ cluster, op = .cluster cluster
    · obtain ⟨cluster, rfl⟩ := hcluster
      rcases cluster_activation (handle_of_step rfl hstep) with
        ⟨-, hs | hs⟩ | ⟨hi, hs⟩
      · exact hsame hs
      · exact hidle (by rw [hs]; rfl)
      · exact hidle (by rwa [hs])
    · cases step_activates hstep hop (by simpa using hcluster) with
      | same hs => exact hsame hs
      | stopped hs => exact hidle (by rw [hs]; rfl)
      | tookOver hs =>
        by_cases hactive : w.player.activation.active = true
        · exact hsame (hs.trans (Activation.takeOver_of_active hactive))
        · rw [Bool.not_eq_true] at hactive
          have h' : w'.player.activation.active = true := by rw [hs]; rfl
          rw [play_holds_iff h hop hactive hs]
          simp [h', hactive]
  · cases op with
    | command _ cmd =>
      cases cmd with
      | transfer => exact transfer_holds_iff h hw
      | _ => simp [Op.isTransfer] at hop
    | _ => simp [Op.isTransfer] at hop

theorem gated_iff_remembers (cfg : Config) (g : Rand) (ops : List Op) :
    Always (step cfg g) (Gated cfg) {} ops ↔ Meets (step cfg g) (Remembers cfg g) {} ops := by
  refine always_iff_meets (I := Holds) (L := fun _ => True) ?_ ?_ ?_ ?_ fun _ _ => trivial
  · intro w hw
    exact hw.gated
  · intro w op w' hw _ hc h
    exact (holds_iff_remembers h hw).mpr hc
  · intro w op w' hw _ h hgated
    exact (holds_iff_remembers h hw).mp (hgated.holds (gate_active h))
  · intro γ hγ
    simp at hγ

/-- Another device reports 1000. A play takes over from it. It takes playback back with 2000, and
another play takes over again. -/
def takenBackRun : List Op :=
  [.cluster (some ⟨"there", some 1000⟩), .command { now := 0 } (.play { context := {} }),
    .cluster (some ⟨"there", some 2000⟩), .command { now := 0 } (.play { context := {} })]

theorem gated_fails_when_taken_back :
    ¬ Always (step { deviceId := "here" } drawZero) (Gated { deviceId := "here" }) {}
      takenBackRun := by
  intro h
  have hrun : (exec (step { deviceId := "here" } drawZero) {} takenBackRun).map (fun w =>
      (w.gate.map PlayGate.latest, w.player.activation)) = some (some 2000, ⟨true, 1000, 1000⟩) := by
    decide +kernel
  obtain ⟨w, hw, hend⟩ := map_eq_some_iff.mp hrun
  simp only [Prod.mk.injEq, map_eq_some_iff] at hend
  obtain ⟨⟨γ, hγ, hlatest⟩, hactivation⟩ := hend
  -- The other device repeats its state.
  have hgated := (h.last hw γ "there" 2000 hγ (by decide)).1
  rw [deactivates_iff (by rw [hactivation]) (by decide), hactivation, hlatest] at hgated
  exact absurd (hgated (by decide)) (by decide)

end Watch

end Librespot.Daemon
