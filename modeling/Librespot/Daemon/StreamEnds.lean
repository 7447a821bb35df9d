import Librespot.Daemon.Follows
import Librespot.Daemon.Requests

/-!
# Whose end an event reports

The audio player stamps its events with the generation of the stream that is set. The
ones that come while a track loads are held, and the ends of older streams among them
are forgotten when the new stream is committed.
-/

open Base.Run
open Librespot.Tracks
open Librespot.Daemon.AppPlayer (here served roundTrip knownTrack knownStream playingRun)

namespace Librespot.Daemon

open AppPlayer

variable {stream : Stream} {streamGen : Nat} {position : Int} {job : LoadJob}
  {rest : List LoaderResult}

theorem runWork_streamGen {g : Rand} {a : Answers} {lists lists' : List TrackList} {work : Work}
    {commit : Commit} (h : runWork g a lists work = some (commit, lists'))
    (hcommit : commit = .loaded job stream streamGen position) : streamGen = a.streamGen := by
  subst hcommit
  cases ends_of_runWork h
  rfl

namespace AppPlayer

variable {cfg : Config} {g : Rand} {m : Moment} {p p' : AppPlayer}

theorem turn_eq_step {op : Op} (hevent : ∀ m ev, op ≠ .event m ev) (hfinish : ∀ a, op ≠ .finish a) :
    p.turn cfg g (.loop op) = p.step cfg g op := by
  cases op with
  | event m ev => exact absurd rfl (hevent m ev)
  | finish a => exact absurd rfl (hfinish a)
  | _ => rfl

theorem handOver_raises (a : Answers) (work : Work) (audio : Player.ManageLoop) :
    ∃ gen, audio.streamGen ≤ gen ∧
      Player.ManageLoop.Raises { audio with streamGen := gen } (handOver a work audio) := by
  unfold handOver
  split
  · rename_i job stream hstream
    have h := @Player.ManageLoop.setPrimary_raises true { works := !a.outputLost } job.paused
      { audio with out := true }
    exact ⟨audio.streamGen + 1, Nat.le_succ _, h.streamGen, h.ev⟩
  · split
    · exact ⟨audio.streamGen + 1, Nat.le_succ _, .silent rfl rfl⟩
    · exact ⟨audio.streamGen, le_rfl, .refl _⟩
  · exact ⟨audio.streamGen, le_rfl, .refl _⟩

def commits (p : AppPlayer) : Turn → Option Nat
  | .loop (.receive _) =>
    match p.results with
    | [] => none
    | res :: _ =>
      match res.commit with
      | .loaded _ _ streamGen _ => if p.stale res.job then none else some streamGen
      | _ => none
  | _ => none

theorem committed_quiet {res : LoaderResult}
    (hres : res.commit = .loaded job stream streamGen position) (hstale : p.stale res.job = false)
    (h : { p with results := rest }.applyLoaderResult cfg m res = some p') :
    ∃ flight, Quiet ((p.received rest flight).forgetReplacedStreamEvents streamGen) p' := by
  have hcommit (q q' : AppPlayer) (h : q.commit cfg m res.commit = some q') :
      Quiet (q.forgetReplacedStreamEvents streamGen) q' := by
    rw [hres] at h
    exact (commitLoad_quiet ..).trans (settle_quiet m job.k _ _ h)
  unfold applyLoaderResult at h
  split at h
  · obtain ⟨q, hq, rfl⟩ := Option.map_eq_some_iff.mp h
    exact ⟨false, (hcommit _ _ hq).trans (drainPendingPlayerEvents_quiet q)⟩
  · have hfresh : ({ p with results := rest } : AppPlayer).stale res.job = false := hstale
    rw [if_neg (by simp [hfresh])] at h
    exact ⟨p.loadInFlight, hcommit _ _ h⟩

end AppPlayer

/-- The player and the number of streams that it has committed. -/
structure CountedPlayer where
  player : AppPlayer := {}
  committed : Nat := 0

namespace CountedPlayer

variable {cfg : Config} {g : Rand} {s s' : CountedPlayer}

def step (cfg : Config) (g : Rand) (s : CountedPlayer) (turn : Turn) : Option CountedPlayer :=
  (s.player.turn cfg g turn).map fun player =>
    { player, committed := (s.player.commits turn).getD s.committed }

/-- The end of a stream is handled only if it is not that of an older stream than the last one
committed. -/
def Faithful (s : CountedPlayer) : Turn → Prop
  | .loop op => ∀ ev, s.player.handled op = some ev → ev.isEnd = true → s.committed ≤ ev.streamGen
  | _ => True

/-- When a stream is committed, the end of no older one waits to be received. -/
def Caught (s : CountedPlayer) (turn : Turn) : Prop :=
  ∀ gen, s.player.commits turn = some gen → ∀ ev ∈ s.player.audio.ev, ev.isEnd = true →
    gen ≤ ev.streamGen

structure Inv (inputs : Inputs) (committed : Nat) : Prop where
  ends : ∀ ev ∈ inputs.audioState.events, ev.isEnd = true → committed ≤ ev.streamGen
  isSet : committed ≤ inputs.audioState.audio.streamGen
  fetched : ∀ res ∈ inputs.finished, ∀ job stream streamGen position,
    res.commit = .loaded job stream streamGen position → streamGen ≤ inputs.audioState.audio.streamGen

theorem Inv.follows {b b' : Inputs} {committed : Nat} (h : Inv b committed) (hb : b.Follows b') :
    Inv b' committed where
  ends ev hev hend := by
    rcases hb.audioState.events ev hev with hev | hgen
    · exact h.ends ev hev hend
    · exact hgen ▸ h.isSet
  isSet := hb.audioState.streamGen ▸ h.isSet
  fetched res hres := by
    rw [hb.audioState.streamGen]
    exact h.fetched res (hb.finished res hres)

variable {p p' : AppPlayer} {turn : Turn}

theorem Inv.finish {a : Answers} {committed : Nat} (h : Inv p.inputs committed)
    (hp : p.finish g a = some p') (hgen : a.streamGen = p'.audio.streamGen) :
    Inv p'.inputs committed := by
  obtain ⟨gen, hle, hraises⟩ : ∃ gen, p.audio.streamGen ≤ gen ∧
      Player.ManageLoop.Raises { p.audio with streamGen := gen } p'.audio := by
    obtain ⟨job, commit, lists, -, -, rfl⟩ := finish_spec hp
    exact handOver_raises a job.run p.audio
  have hset : p.audio.streamGen ≤ p'.audio.streamGen := hraises.streamGen ▸ hle
  have haudio : AudioState.Follows ⟨{ p.audio with streamGen := gen }, p.audioState.held⟩
    p'.audioState := by
    obtain ⟨job, commit, lists, -, -, rfl⟩ := finish_spec hp
    exact .of_raises hraises fun _ => id
  refine ⟨?_, h.isSet.trans hset, ?_⟩
  · intro ev hev hend
    rcases haudio.events ev hev with hev | hev
    · exact h.ends ev hev hend
    · exact hev ▸ h.isSet.trans hle
  · obtain ⟨-, job, commit, -, hrun, hfinished⟩ := finish_finished hp
    intro res hres load stream streamGen position hcommit
    have hres : res ∈ p.finished ++ [⟨job, commit⟩] := hfinished ▸ hres
    rcases List.mem_append.mp hres with hres | hres
    · exact (h.fetched res hres load stream streamGen position hcommit).trans hset
    · obtain rfl := List.mem_singleton.mp hres
      rw [runWork_streamGen hrun hcommit, hgen]
      exact le_rfl

theorem Inv.event {m : Moment} {ev : PlayerEvent} {rest : List PlayerEvent} {committed : Nat}
    (h : Inv p.inputs committed) (hev : p.audio.ev = ev :: rest)
    (hp : ({ p with audio.ev := rest } : AppPlayer).step cfg g (.event m ev) = some p') :
    Inv p'.inputs committed := by
  have hrest : Inv ({ p with audio.ev := rest } : AppPlayer).inputs committed := by
    refine ⟨fun e he => h.ends e ?_, h.isSet, h.fetched⟩
    simp only [inputs, audioState, AudioState.events, hev, List.mem_append,
      List.mem_cons] at he ⊢
    tauto
  have hp := handle_of_step rfl hp
  simp only [handle, receivePlayerEvent] at hp
  split at hp
  · split at hp
    · exact Option.some.inj hp ▸ hrest
    · cases hp
      refine ⟨fun e he => h.ends e ?_, h.isSet, h.fetched⟩
      simp only [inputs, audioState, AudioState.events, hev, List.mem_append,
        List.mem_cons, List.not_mem_nil, or_false] at he ⊢
      tauto
  · exact hrest.follows (handlePlayerEvent_acts hp).ends.follows

theorem Inv.commits {res : LoaderResult} {committed : Nat} {flight : Bool}
    (h : Inv p.inputs committed) (hres : p.results = res :: rest)
    (hcommit : res.commit = .loaded job stream streamGen position) (hdraining : p.draining = [])
    (hcaught : ∀ ev ∈ p.audio.ev, ev.isEnd = true → streamGen ≤ ev.streamGen)
    (hp : AppPlayer.Quiet ((p.received rest flight).forgetReplacedStreamEvents streamGen) p') :
    Inv p'.inputs streamGen := by
  have hmem : res ∈ p.inputs.finished := by simp [inputs, finished, hres]
  have hset := h.fetched res hmem job stream streamGen position hcommit
  have hforgets :
      Inv ((p.received rest flight).forgetReplacedStreamEvents streamGen).inputs streamGen := by
    refine ⟨?_, hset, ?_⟩
    · intro ev hev hend
      simp only [inputs, audioState, AudioState.events, received, hdraining,
        forgetReplacedStreamEvents, List.nil_append, List.mem_append, List.mem_filter] at hev
      rcases hev with ⟨-, hkept⟩ | hev
      · have hend : (decide (ev.type = .notPlaying) || decide (ev.type = .stop)) = true := hend
        simpa [hend] using hkept
      · exact hcaught ev hev hend
    · intro r hr
      apply h.fetched r
      show r ∈ p.finished
      rw [finished_received flight hres]
      exact List.mem_cons_of_mem _ hr
  exact hforgets.follows hp.follows

theorem Inv.receive {m : Moment} {committed : Nat} (h : Inv p.inputs committed)
    (hp : p.step cfg g (.receive m) = some p')
    (hcaught : Caught ⟨p, committed⟩ (.loop (.receive m))) :
    Inv p'.inputs ((p.commits (.loop (.receive m))).getD committed) := by
  rcases hcommits : p.commits (.loop (.receive m)) with _ | gen
  · exact h.follows (AppPlayer.step_follows hp (by simp) (by simp))
  · have hcaught := hcaught gen hcommits
    have hdraining := AppPlayer.draining_of_step rfl hp
    have hp := AppPlayer.handle_of_step rfl hp
    simp only [AppPlayer.commits] at hcommits
    simp only [AppPlayer.handle] at hp
    split at hp
    · simp at hp
    · rename_i res rest hres
      simp only [hres] at hcommits
      split at hcommits
      · rename_i job stream streamGen position hcommit
        split at hcommits
        · simp at hcommits
        · rename_i hstale
          cases hcommits
          obtain ⟨flight, hq⟩ := AppPlayer.committed_quiet hcommit (by simpa using hstale) hp
          exact h.commits hres hcommit hdraining hcaught hq
      · simp at hcommits

theorem step_inv (h : Inv s.player.inputs s.committed) (hcaught : Caught s turn)
    (hs : s.step cfg g turn = some s') : Inv s'.player.inputs s'.committed := by
  obtain ⟨p', hp, rfl⟩ := Option.map_eq_some_iff.mp hs
  have hraise (l : Player.ManageLoop) (hl : s.player.audio.Raises l) :
      Inv (s.player.withAudio fun _ => l).inputs s.committed :=
    h.follows (withAudio_quiet hl).follows
  cases turn with
  | ended => exact Option.some.inj hp ▸ hraise _ (.raised .notPlaying rfl rfl)
  | outputFailed =>
    simp only [turn] at hp
    split at hp
    · exact Option.some.inj hp ▸ hraise _ (.raised .stop rfl rfl)
    · simp at hp
  | loop op =>
    cases op with
    | event =>
      simp only [turn] at hp
      split at hp
      · simp at hp
      · rename_i next rest hev
        split at hp
        · rename_i heq
          exact h.event (heq ▸ hev) hp
        · simp at hp
    | finish =>
      obtain ⟨hfinish, hgen⟩ := Option.filter_eq_some_iff.mp hp
      exact h.finish hfinish (by simpa using hgen)
    | receive m =>
      have hp : s.player.step cfg g (.receive m) = some p' := hp
      exact h.receive hp hcaught
    | _ =>
      rw [turn_eq_step (by simp) (by simp)] at hp
      exact h.follows (step_follows hp (by simp) (by simp))

theorem faithful_of_inv (h : Inv s.player.inputs s.committed) (hs : s.step cfg g turn = some s') :
    Faithful s turn := by
  obtain ⟨p', hp, rfl⟩ := Option.map_eq_some_iff.mp hs
  cases turn with
  | ended | outputFailed => trivial
  | loop op =>
    intro ev hev
    apply h.ends ev
    cases op with
    | event =>
      simp only [handled] at hev
      simp only [turn] at hp
      split at hev
      · simp at hev
      · split at hp
        · simp at hp
        · rename_i next rest hrest
          split at hp
          · rename_i heq
            cases hev
            simp [inputs, audioState, AudioState.events, hrest, heq]
          · simp at hp
    | drain =>
      have hev : s.player.draining.head? = some ev := hev
      have hmem := List.mem_of_mem_head? hev
      simp only [inputs, audioState, AudioState.events, List.mem_append]
      exact .inl (.inl hmem)
    | _ => simp [handled] at hev

theorem inv_new : Inv ({} : AppPlayer).inputs 0 := by
  refine ⟨?_, le_rfl, ?_⟩
  · intro ev _ _
    exact Nat.zero_le _
  · intro res hres
    simp [inputs, finished, Worker.finished] at hres

/-- No handled end is that of a stream older than the last one committed, as long as every end of an
older stream has been received by the time a stream is committed. -/
theorem ends_of_current_stream (cfg : Config) (g : Rand) (turns : List Turn)
    (h : Meets (step cfg g) Caught {} turns) : Meets (step cfg g) Faithful {} turns :=
  meets_of_invariant (I := fun s => Inv s.player.inputs s.committed)
    (fun _ _ _ hs hc hstep => step_inv hs hc hstep)
    (fun _ _ _ hs _ hstep => faithful_of_inv hs hstep) inv_new h

def playingTurns : List Turn :=
  playingRun.map .loop ++ [.loop (.event { now := 0 } { type := .play, streamGen := 1 })]

def skippedTurns : List Turn :=
  .loop (.command { now := 1000 } (.skipNext none)) ::
    (roundTrip 1000 { served [knownTrack, knownTrack] with streamGen := 1 }).map .loop ++
    [.loop (.take fun _ => 1000)]

def landedTurns : List Turn :=
  [.loop (.finish { served [] with stream := .ok knownStream, streamGen := 2 }), .loop .deliver,
    .loop (.receive { now := 2000 })]

def lateEnd : Turn := .loop (.event { now := 3000 } { type := .notPlaying, streamGen := 1 })

/-- The first track ends while the next one loads. Its end waits in the channel when the next track
is committed, and then makes the player skip that one. -/
theorem late_end_skips_the_next_track : ¬ Meets (step here drawZero) Faithful {}
    (playingTurns ++ skippedTurns ++ .ended :: landedTurns ++ [lateEnd]) := by
  intro h
  have hrun : ((exec (step here drawZero) {}
      (playingTurns ++ skippedTurns ++ .ended :: landedTurns)).bind fun s =>
        (s.step here drawZero lateEnd).map fun s' =>
          (s.committed, s.player.loadInFlight, s'.player.loadGen - s.player.loadGen)) =
      some (2, false, 1) := by
    decide +kernel
  simp only [Option.bind_eq_some_iff, Option.map_eq_some_iff, Prod.mk.injEq] at hrun
  obtain ⟨s, hs, s', hs', hcommitted, hflight, -⟩ := hrun
  have hfaithful := h.last hs hs' { type := .notPlaying, streamGen := 1 }
  have hle := hfaithful (by simp [handled, hflight]) rfl
  simp [hcommitted] at hle

instance (s : CountedPlayer) (turn : Turn) : Decidable (s.Caught turn) :=
  inferInstanceAs (Decidable (∀ gen ∈ s.player.commits turn, ∀ ev ∈ s.player.audio.ev,
    ev.isEnd = true → gen ≤ ev.streamGen))

def heldEndTurns : List Turn := playingTurns ++ skippedTurns ++ .ended :: lateEnd :: landedTurns

theorem ends_of_current_stream_heldEnd :
    (exec (step here drawZero) {} heldEndTurns).map committed = some 2 ∧
      Meets (step here drawZero) Faithful {} heldEndTurns := by
  exact ⟨by decide +kernel, ends_of_current_stream here drawZero _ (by decide +kernel)⟩

end CountedPlayer

end Librespot.Daemon
