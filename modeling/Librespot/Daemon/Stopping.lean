import Librespot.Daemon.Prefetches
import Librespot.Daemon.StreamEnds

/-!
# What comes after a stop

A stop outdates every job there is, and it forgets the events that the loop holds. It keeps the
track list, and it does not look at the events that the loop has yet to receive.
-/

open Base.Run
open Librespot.Tracks List Option

namespace Librespot.Daemon

open AppPlayer

def Commit.isLoaded : Commit → Bool
  | .loaded .. => true
  | _ => false

namespace AppPlayer

variable {cfg : Config} {g : Rand} {m : Moment} {p p' : AppPlayer}

variable {ev : PlayerEvent} {res : LoaderResult} {rest : List LoaderResult}
  {audio : Player.ManageLoop}

theorem turn_event (h : p.turn cfg g (.loop (.event m ev)) = some p') :
    ∃ rest, p.audio.ev = ev :: rest ∧
      { p with audio.ev := rest }.step cfg g (.event m ev) = some p' := by
  simp only [turn] at h
  split at h
  · simp at h
  · rename_i next rest hev
    split at h
    · rename_i heq
      exact ⟨rest, heq ▸ hev, h⟩
    · simp at h

theorem turn_cases {turn : Turn} (h : p.turn cfg g turn = some p') :
    (∃ m ev rest, turn = .loop (.event m ev) ∧
      { p with audio.ev := rest }.step cfg g (.event m ev) = some p') ∨
    (∃ op, turn = .loop op ∧ (∀ m ev, op ≠ .event m ev) ∧ p.step cfg g op = some p') ∨
    ∃ audio, p' = { p with audio } ∧ (audio.out = true → p.audio.out = true) := by
  cases turn with
  | ended => exact .inr (.inr ⟨_, (some.inj h).symm, id⟩)
  | outputFailed =>
    simp only [turn] at h
    split at h
    · refine .inr (.inr ⟨_, (some.inj h).symm, fun hout => ?_⟩)
      simp [Player.ManageLoop.outputFailed, Player.ManageLoop.closeOutput,
        Player.ManageLoop.raise] at hout
    · simp at h
  | loop op =>
    cases op with
    | event m ev =>
      obtain ⟨rest, -, hstep⟩ := turn_event h
      exact .inl ⟨m, ev, rest, rfl, hstep⟩
    | finish =>
      exact .inr (.inl ⟨_, rfl, by simp, (filter_eq_some_iff.mp h).1⟩)
    | _ =>
      rw [turn_eq_step (by simp) (by simp)] at h
      exact .inr (.inl ⟨_, rfl, by simp, h⟩)

theorem Grounded.withAudio (hp : Grounded g p) (audio : Player.ManageLoop) :
    Grounded g { p with audio } := by
  obtain ⟨hsound, hledger, htame, hbuilt⟩ := hp
  have hlane : LaneOk { p with audio } := ⟨hsound.lane.isOpen, hsound.lane.shape⟩
  have hbelow (n : ListId) (hn : n ∈ p.ahead) : AppPlayer.Below n { p with audio } :=
    ⟨(hsound.below n hn).tracks, (hsound.below n hn).jobs⟩
  exact ⟨⟨hlane, hsound.valid, hsound.mutates, hsound.gives, hsound.order, hbelow, hsound.built,
    hsound.shuffled⟩, hledger, ⟨htame.jobs, htame.delivering, htame.results⟩, hbuilt⟩

structure Founded (g : Rand) (p : AppPlayer) : Prop where
  grounded : Grounded g p
  punctual : Punctual p

theorem Founded.withAudio (hp : Founded g p) (audio : Player.ManageLoop) :
    Founded g { p with audio } :=
  ⟨hp.grounded.withAudio audio, hp.punctual⟩

theorem Founded.step {op : Op} (hp : Founded g p) (h : p.step cfg g op = some p') : Founded g p' :=
  ⟨step_grounded hp.grounded h, step_punctual hp.grounded.sound.lane hp.punctual h⟩

theorem turn_founded {turn : Turn} (hp : Founded g p) (h : p.turn cfg g turn = some p') :
    Founded g p' := by
  rcases turn_cases h with ⟨m, ev, rest, -, h⟩ | ⟨op, -, -, h⟩ | ⟨audio, rfl, -⟩
  · exact (hp.withAudio _).step h
  · exact hp.step h
  · exact hp.withAudio audio

theorem reachable_founded {turns : List Turn} (h : exec (AppPlayer.turn cfg g) {} turns = some p) :
    Founded g p :=
  exec_invariant (fun _ _ _ hp hturn => turn_founded hp hturn) ⟨grounded_new, punctual_new⟩ h

/-! ## The stopped player -/

structure Halted (p : AppPlayer) : Prop where
  inactive : p.state.active = false
  draining : p.draining = []
  primary : p.primaryStream = none
  flight : p.loadInFlight = false
  outdated : ∀ q ∈ p.jobs, q.cls ≠ .mutate → q.gen < p.generation q.cls
  out : p.audio.out = true → ∃ res ∈ p.finished, res.commit.isLoaded = true
  track : p.state.tracks = none → p.state.player.track = none
  repeats : ∀ options, p.state.player.options = some options → options.repeatingTrack = false

theorem halted_stopPlayback (hp : Founded g p) (hdraining : p.draining = []) :
    Halted p.stopPlayback where
  inactive := rfl
  draining := hdraining
  primary := rfl
  flight := rfl
  outdated q hq hcls := by
    have hq : q ∈ p.jobs := by
      simp only [jobs, mem_append] at hq ⊢
      exact hq.imp_right fun hq => hq.imp_right fun hq => (dropLoads_sublist p.loader).subset hq
    unfold generation
    split
    · rename_i hprefetch
      exact Nat.lt_succ_of_le (hp.punctual q hq hprefetch)
    · rename_i hprefetch
      have hloads : q.cls.loads = true := by
        cases hc : q.cls <;> simp_all [LoaderClass.loads]
      exact Nat.lt_succ_of_le (hp.grounded.ledger.current q hq hloads)
  out hout := by simp [stopPlayback, Player.ManageLoop.stop, Player.ManageLoop.closeOutput,
    Player.ManageLoop.raise] at hout
  track _ := rfl
  repeats options h := by
    cases h
    rfl

theorem Halted.withAudio (hp : Halted p)
    (hout : audio.out = true → p.audio.out = true) : Halted { p with audio } :=
  ⟨hp.inactive, hp.draining, hp.primary, hp.flight, hp.outdated, fun h => hp.out (hout h),
    hp.track, hp.repeats⟩

theorem Halted.moved (hp : Halted p) {loader : LoaderLane Work} {worker : Worker}
    {results : List LoaderResult} {lists : List TrackList}
    (hjobs : ({ p with loader, worker, results, lists, audio } : AppPlayer).jobs ⊆ p.jobs)
    (hout : audio.out = true →
      ∃ res ∈ ({ p with loader, worker, results, lists, audio } : AppPlayer).finished,
        res.commit.isLoaded = true) : Halted { p with loader, worker, results, lists, audio } :=
  ⟨hp.inactive, hp.draining, hp.primary, hp.flight, fun q hq => hp.outdated q (hjobs hq), hout,
    hp.track, hp.repeats⟩

structure Dozes (p p' : AppPlayer) : Prop where
  active : p'.state.active = p.state.active
  draining : p'.draining = p.draining
  primary : p'.primaryStream = p.primaryStream
  flight : p'.loadInFlight = p.loadInFlight
  loader : p'.loader = p.loader
  worker : p'.worker = p.worker
  results : p'.results = p.results
  audio : p'.audio = p.audio
  loadGen : p'.loadGen = p.loadGen
  prefetchGen : p.prefetchGen ≤ p'.prefetchGen
  tracks : p'.state.tracks = p.state.tracks
  track : p.state.tracks = none → p'.state.player.track = p.state.player.track
  repeats : p'.state.player.options.map (·.repeatingTrack) =
    p.state.player.options.map (·.repeatingTrack)

theorem dozes_player (p : AppPlayer) {player : PlayerState} {sleep : Bool}
    (htrack : player.track = p.state.player.track)
    (hrepeats : player.options.map (·.repeatingTrack) =
      p.state.player.options.map (·.repeatingTrack)) :
    Dozes p { p with state.player := player, sleepAtEndOfTrack := sleep } :=
  ⟨rfl, rfl, rfl, rfl, rfl, rfl, rfl, rfl, rfl, le_rfl, rfl, fun _ => htrack, hrepeats⟩

theorem Dozes.refl (p : AppPlayer) : Dozes p p := dozes_player p rfl rfl

theorem Halted.dozes (hp : Halted p) (h : Dozes p p') : Halted p' where
  inactive := h.active.trans hp.inactive
  draining := h.draining.trans hp.draining
  primary := h.primary.trans hp.primary
  flight := h.flight.trans hp.flight
  outdated q hq hcls := by
    have hjobs : p'.jobs = p.jobs := by rw [jobs, jobs, h.results, h.worker, h.loader]
    have hgen := hp.outdated q (hjobs ▸ hq) hcls
    have hle : p.generation q.cls ≤ p'.generation q.cls := by
      unfold generation
      split
      · exact h.prefetchGen
      · exact h.loadGen.ge
    exact hgen.trans_le hle
  out hout := by
    rw [finished, h.results, h.worker]
    exact hp.out (h.audio ▸ hout)
  track htracks := by
    have htracks : p.state.tracks = none := h.tracks ▸ htracks
    exact (h.track htracks).trans (hp.track htracks)
  repeats options hoptions := by
    have hmap := h.repeats
    rw [hoptions, map_some] at hmap
    obtain ⟨old, hold, hrepeats⟩ := map_eq_some_iff.mp hmap.symm
    exact hrepeats ▸ hp.repeats old hold

/-! ## Events, timers and results -/

theorem pause_halted (hp : Halted p) (m : Moment) : p.pause m = p := by
  simp [pause, hp.primary, hp.flight]

theorem playbackChanged_dozes {paused : Bool} (h : p.playbackChanged paused = some p') :
    Dozes p p' := by
  obtain rfl := emitMprisUpdate_eq h
  exact dozes_player p rfl rfl

theorem emitMprisUpdate_dozes (h : p.emitMprisUpdate = some p') : Dozes p p' := by
  obtain rfl := emitMprisUpdate_eq h
  exact .refl _

theorem advanceNext_dozes (hp : Halted p) (htracks : p.state.tracks = none)
    (h : p.advanceNext cfg m false false 0 .playerEnd = some p') : Dozes p p' := by
  simp only [advanceNext, htracks, advanceTo] at h
  split at h
  · have h : (p.updatePlayer (.moveTo m.now 0)).emitMprisUpdate = some p' := h
    obtain rfl := emitMprisUpdate_eq h
    exact dozes_player p rfl rfl
  · have huri : ((p.updatePlayer (.moveTo m.now 0)).stopUnless false).state.player.trackUri = "" := by
      have htrack : ((p.updatePlayer (.moveTo m.now 0)).stopUnless false).state.player.track =
        p.state.player.track := rfl
      rw [PlayerState.trackUri, htrack, hp.track htracks]
      rfl
    have hparse : spotifyIdFromUri "" = some (.error { text := "invalid uri: " }) := by decide +kernel
    simp only [loadCurrentTrack, huri, hparse, bind_eq_bind, bind_some, settle,
      Bool.false_and, Bool.false_eq_true, if_false] at h
    obtain rfl := emitMprisUpdate_eq h
    exact ⟨rfl, rfl, hp.primary.symm, rfl, rfl, rfl, rfl, rfl, rfl, le_rfl, rfl, fun _ => rfl, rfl⟩

theorem handlePlayerEvent_dozes (hp : Halted p)
    (hend : ev.type = .notPlaying → p.sleepAtEndOfTrack = true ∨ p.state.tracks = none)
    (h : p.handlePlayerEvent cfg m ev = some p') : Dozes p p' := by
  unfold handlePlayerEvent at h
  split at h
  · exact playbackChanged_dozes h
  · exact playbackChanged_dozes h
  · exact playbackChanged_dozes h
  · rename_i hev
    split at h
    · have hpause : { p with sleepAtEndOfTrack := false }.pause m =
          { p with sleepAtEndOfTrack := false } := by simp [pause, hp.primary, hp.flight]
      rw [hpause] at h
      cases h
      exact dozes_player p rfl rfl
    · rename_i hsleep
      exact advanceNext_dozes hp ((hend hev).resolve_left (by simpa using hsleep)) h
  · exact emitMprisUpdate_dozes h

theorem listFailed_dozes {work : ListWork} {err : LoadErr} (hwork : work.cls = .mutate)
    (h : p.listFailed m work err = some p') : Dozes p p' := by
  cases work with
  | shuffle =>
    simp only [listFailed, run_eq_some] at h
    obtain ⟨options, hoptions, h⟩ := h
    cases h
    refine dozes_player p rfl ?_
    simp [hoptions]
  | addToQueue track | setQueue next => exact some.inj h ▸ .refl p
  | _ => simp [ListWork.cls] at hwork

theorem listWalked_dozes {id : ListId} {work : ListWork} {walked : Walked}
    {snap : TrackList.Snapshot} (hwork : work.cls = .mutate) (htracks : p.state.tracks = some id)
    (h : p.listWalked cfg m work walked snap = some p') : Dozes p p' := by
  cases work with
  | shuffle =>
    cases h
    refine ⟨rfl, rfl, rfl, rfl, rfl, rfl, rfl, rfl, rfl, Nat.le_succ _, rfl, fun hnone => ?_, rfl⟩
    simp [htracks] at hnone
  | addToQueue track | setQueue next =>
    cases h
    exact ⟨rfl, rfl, rfl, rfl, rfl, rfl, rfl, rfl, rfl, Nat.le_succ _, rfl, fun _ => rfl, rfl⟩
  | _ => simp [ListWork.cls] at hwork

theorem commit_dozes {work : Work} {c : Commit} (hcls : work.cls = .mutate) (hgives : work.Gives c)
    (h : p.commit cfg m c = some p') : c.isLoaded = false ∧ Dozes p p' := by
  cases hgives with
  | walkFailed => exact ⟨rfl, listFailed_dozes hcls h⟩
  | walked =>
    refine ⟨rfl, ?_⟩
    simp only [commit] at h
    split at h
    · rename_i htracks
      exact listWalked_dozes hcls htracks h
    · exact listFailed_dozes hcls h
  | _ => simp [Work.cls] at hcls

theorem jobs_drop (hresults : p.results = res :: rest) :
    ({ p with results := rest } : AppPlayer).jobs ⊆ p.jobs := by
  rw [jobs, jobs, hresults]
  exact subset_cons_self _ _

theorem Halted.drop (hp : Halted p) (hresults : p.results = res :: rest)
    (hno : res.commit.isLoaded = false) : Halted { p with results := rest } := by
  refine hp.moved (jobs_drop hresults) fun hout => ?_
  obtain ⟨r, hr, hloaded⟩ := hp.out hout
  rw [finished, hresults, cons_append, mem_cons] at hr
  rcases hr with rfl | hr
  · simp [hno] at hloaded
  · exact ⟨r, hr, hloaded⟩

theorem discard_halted (hp : Halted p) (hresults : p.results = res :: rest) :
    Halted ({ p with results := rest }.discard res.commit) := by
  by_cases hloaded : res.commit.isLoaded = true
  · have hstop : { p with results := rest }.discard res.commit =
        { p with results := rest, audio := p.audio.stop } := by
      cases hc : res.commit with
      | loaded => simp [discard, hp.flight, hp.primary, withAudio]
      | _ => simp [hc, Commit.isLoaded] at hloaded
    rw [hstop]
    refine hp.moved (jobs_drop hresults) fun hout => ?_
    simp [Player.ManageLoop.stop, Player.ManageLoop.closeOutput, Player.ManageLoop.raise] at hout
  · have hkept : { p with results := rest }.discard res.commit = { p with results := rest } := by
      cases hc : res.commit with
      | loaded => simp [hc, Commit.isLoaded] at hloaded
      | _ => rfl
    rw [hkept]
    exact hp.drop hresults (by simpa using hloaded)

structure Winds (p p' : AppPlayer) : Prop where
  halted : Halted p'
  loadGen : p'.loadGen = p.loadGen
  queue : p'.loader.queue.Sublist p.loader.queue

theorem Halted.winds (hp : Halted p) (h : Dozes p p') : Winds p p' :=
  ⟨hp.dozes h, h.loadGen, h.loader ▸ List.Sublist.refl _⟩

theorem receive_winds (hf : Founded g p) (hp : Halted p) (hresults : p.results = res :: rest)
    (h : { p with results := rest }.applyLoaderResult cfg m res = some p') : Winds p p' := by
  have hmem : res.job ∈ p.jobs := by simp [jobs, hresults]
  have hfinished : res ∈ p.finished := by simp [finished, hresults]
  unfold applyLoaderResult at h
  by_cases hcls : res.job.cls = .mutate
  · rw [if_neg (by simp [hcls]), if_neg (by simp [stale, hcls])] at h
    have hlaw := hf.grounded.cls hmem
    obtain ⟨hno, hdozes⟩ := commit_dozes (hlaw ▸ hcls) (hf.grounded.sound.gives res hfinished) h
    have hwinds := (hp.drop hresults hno).winds hdozes
    exact ⟨hwinds.halted, hwinds.loadGen, hwinds.queue⟩
  · have hold := hp.outdated res.job hmem hcls
    have hstale : ({ p with results := rest } : AppPlayer).stale res.job = true := by
      rw [stale, Bool.and_eq_true, decide_eq_true_eq, decide_eq_true_eq]
      exact ⟨hcls, hold.ne⟩
    have hnot : ¬ (res.job.cls = .load ∧ res.job.gen = p.loadGen) := by
      rintro ⟨hload, hgen⟩
      simp [hload, generation, hgen] at hold
    rw [if_neg hnot, if_pos hstale] at h
    cases h
    have hplan := (discard_unmoved res.commit { p with results := rest }).plan
    refine ⟨discard_halted hp hresults, congrArg PlayPlan.loadGen hplan, ?_⟩
    have hloader : ({ p with results := rest }.discard res.commit).loader = p.loader :=
      congrArg PlayPlan.loader hplan
    rw [hloader]

theorem take_sublist {clock : Nat → Int} (hok : LaneOk p) (h : p.take clock = some p') :
    p'.loader.queue.Sublist p.loader.queue := by
  unfold take at h
  split at h
  · rename_i job loader hw hnext
    cases h
    rcases LoaderLane.next_cases clock hok.isOpen hok.shape with ⟨head, rest, hq, -, h2, -⟩ |
      ⟨held, head, rest, hq, -, -, -, h2, -⟩ | ⟨hnone, -⟩
    · rw [hnext] at h2
      rw [hq, show loader.queue = rest from h2]
      exact sublist_cons_self _ _
    · rw [hnext] at h2
      rw [hq, show loader.queue = held :: rest from h2]
      exact (sublist_cons_self _ _).cons_cons _
    · rw [hnext] at hnone
      simp at hnone
  · simp at h

theorem take_winds {clock : Nat → Int} (hok : LaneOk p) (hp : Halted p)
    (h : p.take clock = some p') : Winds p p' := by
  have hqueue := take_sublist hok h
  obtain ⟨-, hperm, -, hidle, loader, job, rfl⟩ := take_spec hok h
  refine ⟨hp.moved hperm.subset fun hout => ?_, rfl, hqueue⟩
  have hfinished : ({ p with loader, worker := .running job } : AppPlayer).finished =
      p.finished := by
    simp [finished, hidle, Worker.finished]
  rw [hfinished]
  exact hp.out hout

theorem handOver_out {a : Answers} {lists lists' : List TrackList} {work : Work} {commit : Commit}
    (hrun : runWork g a lists work = some (commit, lists'))
    (hout : (handOver a work audio).out = true) : audio.out = true ∨ commit.isLoaded = true := by
  unfold handOver at hout
  split at hout
  · rename_i job stream hstream
    right
    simp only [runWork, fetchTrack, hstream, Except.map, some.injEq, Prod.mk.injEq] at hrun
    rw [← hrun.1]
    rfl
  · split at hout
    · simp at hout
    · exact .inl hout
  · exact .inl hout

theorem finish_winds {a : Answers} (hp : Halted p) (h : p.finish g a = some p') : Winds p p' := by
  have hjobs := finish_jobs h
  obtain ⟨job, commit, lists, hw, hrun, rfl⟩ := finish_spec h
  refine ⟨hp.moved (fun _ hq => hjobs ▸ hq) fun hout => ?_, rfl, List.Sublist.refl _⟩
  have hmem (res : LoaderResult) (hres : res = ⟨job, commit⟩ ∨ res ∈ p.finished) :
      res ∈ ({ p with
        lists, loader := p.loader.finished, worker := .delivering { job, commit }
        audio := handOver a job.run p.audio } : AppPlayer).finished := by
    simp only [finished, hw, Worker.finished, append_nil] at hres ⊢
    exact mem_append.mpr (hres.symm.imp_right mem_singleton.mpr)
  rcases handOver_out hrun hout with hout | hloaded
  · obtain ⟨res, hres, hloaded⟩ := hp.out hout
    exact ⟨res, hmem res (.inr hres), hloaded⟩
  · exact ⟨⟨job, commit⟩, hmem _ (.inl rfl), hloaded⟩

theorem deliver_winds (hp : Halted p) (h : p.deliver = some p') : Winds p p' := by
  have hjobs := deliver_jobs h
  obtain ⟨res, hw, rfl⟩ := deliver_spec h
  refine ⟨hp.moved (fun _ hq => hjobs ▸ hq) fun hout => ?_, rfl, List.Sublist.refl _⟩
  have hfinished : ({ p with results := p.results ++ [res], worker := .idle } : AppPlayer).finished =
      p.finished := by
    simp [finished, hw, Worker.finished]
  rw [hfinished]
  exact hp.out hout

theorem event_winds (hp : Halted p)
    (hend : ev.type = .notPlaying → p.sleepAtEndOfTrack = true ∨ p.state.tracks = none)
    (h : p.handle cfg (.event m ev) = some p') : Winds p p' := by
  simp only [handle, receivePlayerEvent, hp.flight, Bool.false_eq_true, if_false] at h
  exact hp.winds (handlePlayerEvent_dozes hp hend h)

theorem step_winds {op : Op} (hf : Founded g p) (hp : Halted p)
    (hcommand : ∀ m cmd, op ≠ .command m cmd) (htimer : op ≠ .prefetchTimer)
    (hevent : ∀ m ev, op ≠ .event m ev) (h : p.step cfg g op = some p') : Winds p p' := by
  cases op with
  | command m cmd => exact absurd rfl (hcommand m cmd)
  | prefetchTimer => exact absurd rfl htimer
  | event m ev => exact absurd rfl (hevent m ev)
  | cluster =>
    have h := handle_of_step rfl h
    simp only [handle, handleCluster, hp.inactive, Bool.false_eq_true, if_false] at h
    cases h
    exact hp.winds ⟨hp.inactive.symm, rfl, rfl, rfl, rfl, rfl, rfl, rfl, rfl, le_rfl, rfl,
      fun _ => rfl, rfl⟩
  | sleepTimer m =>
    have h := handle_of_step rfl h
    rw [handle, pause_halted hp m] at h
    exact some.inj h ▸ hp.winds (.refl p)
  | receive =>
    have h := handle_of_step rfl h
    simp only [handle] at h
    split at h
    · simp at h
    · rename_i res rest hresults
      exact receive_winds hf hp hresults h
  | drain => simp [step, hp.draining] at h
  | take => exact take_winds hf.grounded.sound.lane hp h
  | finish => exact finish_winds hp h
  | deliver => exact deliver_winds hp h

theorem notPlaying_advances {id : ListId} (hp : Halted p) (hev : ev.type = .notPlaying)
    (hsleep : p.sleepAtEndOfTrack = false) (htracks : p.state.tracks = some id)
    (h : p.handle cfg (.event m ev) = some p') : p'.loadGen = p.loadGen + 1 := by
  simp only [handle, receivePlayerEvent, hp.flight, Bool.false_eq_true, if_false,
    handlePlayerEvent, hev, hsleep, advanceNext, htracks, run_eq_some] at h
  obtain ⟨options, hoptions, h⟩ := h
  rw [if_neg (by simp [hp.repeats options hoptions])] at h
  exact some.inj h ▸ rfl

end AppPlayer

structure Timed where
  player : AppPlayer
  armed : Bool

def Turn.isCommand : Turn → Bool
  | .loop (.command ..) => true
  | _ => false

def Turn.isPrefetchTimer : Turn → Bool
  | .loop .prefetchTimer => true
  | _ => false

namespace Timed

variable {cfg : Config} {g : Rand} {t t' : Timed} {p : AppPlayer}

/-- `schedulePrefetchNext` arms the timer for a stream and stops it where there is none. Which steps
call it is left open: any may have that finds or leaves a stream. -/
def turn (cfg : Config) (g : Rand) (t : Timed) (turn : Turn) : Option Timed :=
  if turn.isPrefetchTimer && !t.armed then none
  else (t.player.turn cfg g turn).map fun player =>
    { player, armed := t.armed || t.player.primaryStream.isSome || player.primaryStream.isSome }

def stopped (p : AppPlayer) : Timed := { player := p.stopPlayback, armed := false }

/-- Nothing has been submitted since the stop, the device is inactive, and once all results have
been heard of there is no stream that plays. -/
structure Stays (p : AppPlayer) (t : Timed) : Prop where
  inactive : t.player.state.active = false
  loadGen : t.player.loadGen = p.stopPlayback.loadGen
  queue : t.player.loader.queue.Sublist p.stopPlayback.loader.queue
  silent : t.player.worker = .idle → t.player.results = [] →
    t.player.audio.out = false ∧ t.player.primaryStream = none

/-- The end of a stream comes only where the player sleeps at it, or where there is no list. -/
def Unended (t : Timed) : Turn → Prop
  | .loop (.event _ ev) => ev.type = .notPlaying →
    t.player.sleepAtEndOfTrack = true ∨ t.player.state.tracks = none
  | _ => True

structure Inv (g : Rand) (p : AppPlayer) (t : Timed) : Prop where
  founded : t.player.Founded g
  halted : t.player.Halted
  armed : t.armed = false
  loadGen : t.player.loadGen = p.stopPlayback.loadGen
  queue : t.player.loader.queue.Sublist p.stopPlayback.loader.queue

theorem Inv.stays (h : Inv g p t) : Stays p t := by
  refine ⟨h.halted.inactive, h.loadGen, h.queue, fun hidle hresults => ⟨?_, h.halted.primary⟩⟩
  by_contra hout
  obtain ⟨res, hres, -⟩ := h.halted.out (by simpa using hout)
  simp [finished, hidle, hresults, Worker.finished] at hres

theorem turn_winds {turn : Turn} {q : AppPlayer} (h : Inv g p t) (hcommand : turn.isCommand = false)
    (htimer : turn.isPrefetchTimer = false) (hend : Unended t turn)
    (hq : t.player.turn cfg g turn = some q) : AppPlayer.Winds t.player q := by
  rcases turn_cases hq with ⟨m, ev, rest, rfl, hstep⟩ | ⟨op, rfl, hevent, hstep⟩ |
    ⟨audio, rfl, hout⟩
  · have hhalted : AppPlayer.Halted { t.player with audio.ev := rest } := h.halted.withAudio id
    have hwinds := event_winds hhalted hend (handle_of_step rfl hstep)
    exact ⟨hwinds.halted, hwinds.loadGen, hwinds.queue⟩
  · refine step_winds h.founded h.halted ?_ ?_ hevent hstep
    · rintro m cmd rfl
      simp [Turn.isCommand] at hcommand
    · rintro rfl
      simp [Turn.isPrefetchTimer] at htimer
  · exact ⟨h.halted.withAudio hout, rfl, List.Sublist.refl _⟩

theorem turn_inv {turn : Turn} (h : Inv g p t) (hcommand : turn.isCommand = false)
    (hend : Unended t turn) (ht : t.turn cfg g turn = some t') : Inv g p t' := by
  unfold Timed.turn at ht
  split at ht
  · simp at ht
  · rename_i htimer
    obtain ⟨q, hq, rfl⟩ := map_eq_some_iff.mp ht
    have htimer : turn.isPrefetchTimer = false := by simpa [h.armed] using htimer
    have hwinds := turn_winds h hcommand htimer hend hq
    have harmed : (t.armed || t.player.primaryStream.isSome || q.primaryStream.isSome) = false := by
      rw [h.armed, h.halted.primary, hwinds.halted.primary]
      rfl
    exact ⟨turn_founded h.founded hq, hwinds.halted, harmed,
      hwinds.loadGen.trans h.loadGen, hwinds.queue.trans h.queue⟩

theorem unended_of_stays {turn : Turn} (h : Inv g p t) (ht : t.turn cfg g turn = some t')
    (hstays : Stays p t') : Unended t turn := by
  unfold Timed.turn at ht
  split at ht
  · simp at ht
  · obtain ⟨q, hq, rfl⟩ := map_eq_some_iff.mp ht
    unfold Unended
    split
    · rename_i m ev
      intro hev
      by_contra hnot
      obtain ⟨hsleep, htracks⟩ := not_or.mp hnot
      obtain ⟨list, htracks⟩ := ne_none_iff_exists'.mp htracks
      obtain ⟨rest, -, hstep⟩ := turn_event hq
      have hhalted : AppPlayer.Halted { t.player with audio.ev := rest } := h.halted.withAudio id
      have hgen := notPlaying_advances hhalted hev (by simpa using hsleep) htracks
        (handle_of_step rfl hstep)
      have hsame : q.loadGen = t.player.loadGen := hstays.loadGen.trans h.loadGen.symm
      simp [hsame] at hgen
    · trivial

/-- After a stop, and until a command comes, the player stays stopped exactly if the end of no
stream is received that would have it advance. -/
theorem stays_iff {before rest : List Turn} (hbefore : exec (AppPlayer.turn cfg g) {} before = some p)
    (hdraining : p.draining = []) (hcommands : ∀ turn ∈ rest, turn.isCommand = false) :
    Always (turn cfg g) (Stays p) (stopped p) rest ↔ Meets (turn cfg g) Unended (stopped p) rest := by
  have hfounded := reachable_founded hbefore
  have hstart : Inv g p (stopped p) := by
    have hstop : p.step cfg g (.command { now := 0 } .stop) = some p.stopPlayback := by
      simp [step, hdraining, handle, handleCommand]
    exact ⟨hfounded.step hstop, halted_stopPlayback hfounded hdraining, rfl, rfl,
      List.Sublist.refl _⟩
  exact always_iff_meets (fun _ h => h.stays)
    (fun _ _ _ h hcommand hend ht => turn_inv h hcommand hend ht)
    (fun _ _ _ h _ ht hstays => unended_of_stays h ht hstays) hstart hcommands

open AppPlayer (here served roundTrip knownTrack knownStream)

/-- The end of the track that was stopped is received, and the next one loads. -/
def endedTurns : List Turn :=
  .loop (.event { now := 1000 } { type := .notPlaying, streamGen := 1 }) ::
    (roundTrip 1000 { served [knownTrack, knownTrack] with streamGen := 1 }).map .loop ++
    (roundTrip 1000 { served [] with stream := .ok knownStream, streamGen := 2 }).map .loop

/-- The track has ended when the stop comes, but the loop has not heard of that yet. So the next
track starts on the inactive device. -/
theorem next_track_starts_after_stop : ∃ p t,
    exec (AppPlayer.turn here drawZero) {} (CountedPlayer.playingTurns ++ [.ended]) = some p ∧
    p.draining = [] ∧ (∀ turn ∈ endedTurns, turn.isCommand = false) ∧
    exec (turn here drawZero) (stopped p) endedTurns = some t ∧
    t.player.state.active = false ∧ t.player.audio.out = true ∧ t.player.primaryStream.isSome ∧
    ¬ Always (turn here drawZero) (Stays p) (stopped p) endedTurns := by
  refine ⟨Option.get _ (by decide +kernel), Option.get _ (by decide +kernel), exec_get _,
    by decide +kernel, by decide, exec_get _, by decide +kernel, by decide +kernel,
    by decide +kernel, fun halways => ?_⟩
  exact absurd (halways.last (exec_get (by decide +kernel))).loadGen (by decide +kernel)

instance (t : Timed) (turn : Turn) : Decidable (Unended t turn) := by
  delta Unended
  rcases turn with (_ | _) | _ <;> infer_instance

def discardedTurns : List Turn :=
  [.loop (.finish { served [] with stream := .ok knownStream, streamGen := 2 }), .loop .deliver,
    .loop (.event { now := 2000 } { type := .stop, streamGen := 1 }),
    .loop (.event { now := 2000 } { type := .play, streamGen := 2 }),
    .loop (.receive { now := 2000 }),
    .loop (.event { now := 2000 } { type := .stop, streamGen := 2 })]

theorem stays_iff_discarded : ∃ p t,
    exec (AppPlayer.turn here drawZero) {}
      (CountedPlayer.playingTurns ++ CountedPlayer.skippedTurns) = some p ∧
    exec (turn here drawZero) (stopped p) discardedTurns = some t ∧
    Always (turn here drawZero) (Stays p) (stopped p) discardedTurns ∧ t.player.audio.ev = [] := by
  refine ⟨Option.get _ (by decide +kernel), Option.get _ (by decide +kernel), exec_get _, exec_get _,
    ?_, by decide +kernel⟩
  exact (stays_iff (exec_get _) (by decide +kernel) (by decide)).mpr (by decide +kernel)

end Timed

end Librespot.Daemon
