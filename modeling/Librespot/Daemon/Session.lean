import Librespot.Daemon.ListFlags
import Librespot.Daemon.LoadInFlight

/-!
# The options and the origin of a session

Half of the handlers read the player options or the play origin without looking
whether they are there. A transfer brings a session of its own: where it has no origin
an empty one is put instead, but its options are taken as they are.
-/

open Base.Run
open Librespot.Tracks List Option

namespace Librespot.Daemon

def Work.HasOptions : Work → Prop
  | .transfer job => job.state.options.isSome = true
  | _ => True

theorem Work.hasOptions_of_plain {tracks : Option ListId} {work : Work} (h : work.Plain tracks) :
    work.HasOptions := by
  cases work with
  | transfer => exact h.elim
  | _ => trivial

namespace AppPlayer

variable {cfg : Config} {g : Rand} {p p' : AppPlayer}

def HasSession (p : AppPlayer) : Prop :=
  p.state.player.options.isSome = true ∧ p.state.player.playOrigin.isSome = true

def BringsOptions : Op → Prop
  | .command _ (.transfer req) => req.state.Bare ∨ req.state.options.isSome = true
  | _ => True

theorem origin_lasting : Lasting fun s => s.playOrigin.isSome = true where
  fresh := rfl
  quiet h := h.origin
  submits h := h.origin
  options _ _ := id

structure Optioned (p : AppPlayer) : Prop where
  options : p.state.player.options.isSome = true
  jobs : ∀ job ∈ p.jobs, job.run.HasOptions

theorem Quiet.optioned (h : Quiet p p') (hp : Optioned p) : Optioned p' :=
  ⟨h.options ▸ hp.options, h.jobs ▸ hp.jobs⟩

theorem Submits.optioned {job : LoaderJob Work} (h : Submits job p p') (hp : Optioned p)
    (hjob : job.run.HasOptions) : Optioned p' := by
  have hoptions : p'.state.player.options = p.state.player.options := congrArg Frame.options h.frame
  refine ⟨hoptions ▸ hp.options, ?_⟩
  intro q hq
  rcases h.mem_jobs hq with hq | rfl
  · exact hp.jobs q hq
  · exact hjob

theorem Acts.optioned (h : Acts p p') (hp : Optioned p) : Optioned p' := by
  rcases h with h | ⟨job, hplain, h⟩
  · exact h.optioned hp
  · exact h.optioned hp (Work.hasOptions_of_plain hplain)

theorem Optioned.withOptions (hp : Optioned p) {options : Option ContextPlayerOptions}
    (h : options.isSome = true) : Optioned (p.withOptions options) :=
  ⟨h, hp.jobs⟩

theorem Optioned.tookOver (hp : Optioned p) : Optioned p.tookOver := by
  refine ⟨?_, hp.jobs⟩
  rw [AppPlayer.tookOver, State.takeOver_player]
  exact hp.options

theorem Reverted.optioned {work : ListWork} (h : Reverted work p p') (hp : Optioned p) :
    Optioned p' := by
  cases work with
  | shuffle =>
    obtain ⟨options, -, h⟩ := h
    exact h.optioned (hp.withOptions rfl)
  | _ => exact Quiet.optioned h hp

theorem LoadsContext.optioned {context : Context} (h : LoadsContext context p p')
    (hp : Optioned p) : Optioned p' := by
  obtain ⟨options, restricted, job, -, -, -, h⟩ := h
  exact h.optioned (hp.withOptions rfl) trivial

theorem Takes.optioned {req : TransferCommand} (h : Takes req p p') (hp : Optioned p)
    (hreq : req.state.Bare ∨ req.state.options.isSome = true) : Optioned p' := by
  cases h with
  | refused h => exact h ▸ hp
  | idle h => exact h.optioned ⟨hp.options, hp.jobs⟩
  | continued job hbare hoptions h =>
    have hjob : job.state.options.isSome = true := hoptions ▸ hreq.resolve_left hbare
    exact h.optioned hp hjob
  | claimed job hbare hoptions h =>
    have hjob : job.state.options.isSome = true := hoptions ▸ hreq.resolve_left hbare
    exact h.optioned ⟨hjob, hp.jobs⟩ hjob

theorem stopPlayback_optioned (hlane : LaneOk p) (hp : Optioned p) : Optioned p.stopPlayback := by
  refine ⟨rfl, ?_⟩
  intro job hjob
  rw [stopPlayback_jobs hlane] at hjob
  apply hp.jobs
  simp only [jobs, mem_append] at hjob ⊢
  exact hjob.imp_right fun h => h.imp_right mem_of_mem_filter

theorem command_optioned {cmd : Command} (he : Command.Effect p p' cmd) (hlane : LaneOk p)
    (hp : Optioned p)
    (hcmd : ∀ req, cmd = .transfer req → req.state.Bare ∨ req.state.options.isSome = true) :
    Optioned p' := by
  cases cmd with
  | transfer req => exact Takes.optioned he ⟨hp.options, hp.jobs⟩ (hcmd req rfl)
  | play =>
    obtain ⟨old, -, he⟩ := he
    exact he.optioned (hp.tookOver.withOptions rfl)
  | setOptions =>
    cases he with
    | kept options hshuffle h =>
      obtain ⟨old, hold⟩ := isSome_iff_exists.mp hp.options
      obtain ⟨new, rfl, -⟩ := hshuffle old hold
      exact h.optioned (hp.withOptions rfl)
    | toggled _ _ _ _ _ _ _ _ _ h => exact h.optioned (hp.withOptions rfl) trivial
  | stop =>
    rw [he]
    exact stopPlayback_optioned hlane hp
  | _ => exact Acts.optioned he hp

theorem commit_optioned {c : Commit} (h : Commit.Effect p p' c) (hp : Optioned p)
    (hc : ∀ job list snap played, c = .transferred job list snap played →
      job.state.options.isSome = true) : Optioned p' := by
  cases c with
  | nothing | noStation k | loaded job stream streamGen position | prefetched stream =>
    exact Quiet.optioned h hp
  | call => exact Acts.optioned h hp
  | resolved => exact Acts.optioned h ⟨hp.options, hp.jobs⟩
  | abandonTransfer => exact Quiet.optioned h ⟨hp.options, hp.jobs⟩
  | transferred job list snap played =>
    refine Acts.optioned h ⟨?_, hp.jobs⟩
    have hjob := hc job list snap played rfl
    cases job.continuation with
    | false => exact hp.options
    | true => exact hjob
  | walkFailed => exact Reverted.optioned h hp
  | walked =>
    simp only [Commit.Effect] at h
    split at h
    · exact (Walks.acts h).optioned hp
    · exact Reverted.optioned h hp
  | station => exact LoadsContext.optioned h hp
  | apiPlay => exact LoadsContext.optioned h hp.tookOver

theorem receive_optioned {res : LoaderResult} {rest : List LoaderResult}
    (hres : p.results = res :: rest) (h : Receives res rest p p') (hsound : Sound p)
    (hp : Optioned p) : Optioned p' := by
  have hreceived (flight : Bool) : Optioned (p.received rest flight) := by
    refine ⟨hp.options, fun job hjob => hp.jobs job ?_⟩
    rw [jobs_received flight hres]
    exact mem_cons_of_mem _ hjob
  cases h with
  | stale _ h => exact h.optioned (hreceived p.loadInFlight)
  | applied flight _ h hq =>
    refine hq.optioned (commit_optioned h (hreceived flight) ?_)
    intro job list snap played hc
    -- The result is that of the transfer's job, which was outstanding until now.
    have hmem : res ∈ p.finished := by simp [finished, hres]
    have hgives := hsound.gives res hmem
    have hjob := hp.jobs _ (finished_mem_jobs hmem)
    rw [hc] at hgives
    generalize res.job.run = work at hgives hjob
    cases hgives
    exact hjob

theorem step_optioned {op : Op} (h : p.step cfg g op = some p') (hsound : Sound p)
    (hp : Optioned p) (hop : BringsOptions op) : Optioned p' := by
  have he := step_effect h
  cases op with
  | command =>
    refine command_optioned he hsound.lane hp ?_
    rintro req rfl
    exact hop
  | cluster =>
    cases he with
    | kept h => exact h ▸ hp
    | stopped h => exact h ▸ stopPlayback_optioned hsound.lane hp
    | noted _ h => exact h ▸ ⟨hp.options, hp.jobs⟩
  | receive =>
    obtain ⟨res, rest, hres, he⟩ := he
    exact receive_optioned hres he hsound hp
  | take clock | finish a | deliver =>
    have hjobs := lane_jobs rfl hsound.lane h
    refine ⟨?_, fun job hjob => hp.jobs job (hjobs.subset hjob)⟩
    rw [lane_eq rfl h]
    exact hp.options
  | event m ev | drain m =>
    obtain ⟨pending, draining, he⟩ := he
    exact he.optioned ⟨hp.options, hp.jobs⟩
  | prefetchTimer | sleepTimer m => exact Acts.optioned he hp

structure Provided (p : AppPlayer) : Prop where
  sound : Sound p
  optioned : Optioned p
  origin : p.state.player.playOrigin.isSome = true

theorem step_provided {op : Op} (hp : Provided p) (hop : BringsOptions op)
    (h : p.step cfg g op = some p') : Provided p' where
  sound := step_sound hp.sound h
  optioned := step_optioned h hp.sound hp.optioned hop
  origin := origin_lasting.step hp.origin h

theorem provided_new : Provided {} where
  sound := sound_new
  optioned := ⟨rfl, by simp [jobs, Worker.jobs]⟩
  origin := rfl

/-- As long as every transfer that names something to play brings its options, there are always
options and an origin. -/
theorem session_of_options (cfg : Config) (g : Rand) (ops : List Op)
    (h : ∀ op ∈ ops, BringsOptions op) : Always (step cfg g) HasSession {} ops := by
  have hstep : ∀ (p : AppPlayer) (op : Op) (p' : AppPlayer), Provided p → BringsOptions op →
      p.step cfg g op = some p' → Provided p' := fun _ _ _ => step_provided
  have halways := always_of_meets hstep provided_new (meets_of_labels h)
  exact halways.imp fun p hp => ⟨hp.optioned.options, hp.origin⟩

/-- Another device hands over the track it plays, on its own and without a context. -/
def handedOver (options : Option ContextPlayerOptions) : Op :=
  .command { now := 0 }
    (.transfer { state := { options, playback := { currentTrack := some knownTrack } } })

theorem session_of_options_handedOver :
    (exec (step here drawZero) {} (handedOver (some {}) :: roundTrip 0 (served [knownTrack]))).isSome
        = true ∧
      Always (step here drawZero) HasSession {}
        (handedOver (some {}) :: roundTrip 0 (served [knownTrack])) := by
  refine ⟨by decide +kernel, session_of_options here drawZero _ ?_⟩
  intro op hop
  simp only [handedOver, roundTrip, mem_cons, not_mem_nil, or_false] at hop
  rcases hop with rfl | rfl | rfl | rfl | rfl
  · exact .inr rfl
  all_goals trivial

theorem options_lost_in_transfer :
    ¬ Always (step here drawZero) HasSession {} [handedOver none] := fun h =>
  absurd (h.last (exec_get (by decide +kernel))).1 (by decide +kernel)

end AppPlayer

end Librespot.Daemon
