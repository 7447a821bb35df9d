import Librespot.Daemon.PauseRuns

/-!
# From a skip to the track that it leads to

After a skip or a play the player navigates, then loads a track, and then the track has
landed. In each of these phases the flags show what the user asked for last.
-/

open Base.Run
open Librespot.Tracks
open Librespot.Daemon.LoaderLane (HasRoom)

namespace Librespot.Daemon

open AppPlayer

namespace AppPlayer

variable {cfg : Config} {g : Rand} {m : Moment} {p p' : AppPlayer} {job : LoaderJob Work}
  {wanted : Option Bool}

inductive Phase (wanted : Option Bool) (p : AppPlayer) : Prop
  | navigating (job : LoaderJob Work) (hp : Pending job p) (hloads : job.cls.loads = true)
      (hrun : job.run.isLoad = false)
      (hasked : ∀ b, wanted = some b → job.run.keepsPaused = true ∧
        (p.transport.InFlight ∧ p.transport.Shows b ∨
          p.transport.Settled ∧ p.transport.audio.paused = b ∧ Clear p))
  | loading (job : LoaderJob Work) (load : LoadJob) (hp : Pending job p) (hcls : job.cls = .load)
      (hrun : job.run = .load load) (hflight : p.transport.InFlight)
      (hshows : ∀ b, wanted = some b → p.transport.Shows b)
      (hresumes : wanted = some true → load.k.resumes = false)
      (hstage : Ahead job p ∨ Clear p ∧ p.transport.Fetched load.paused)
  | landed (hsettled : p.transport.Settled)
      (hpaused : ∀ b, wanted = some b → p.transport.audio.paused = b) (hclear : Clear p)
      (hspent : Spent p)

/-! ## Turns on the way -/

theorem keepsPaused_of_heeds {paused : Bool} (hrun : job.run.isLoad = false)
    (h : Heeds paused p job.run) :
    job.run.keepsPaused = true ∧ (p.transport.InFlight ∨ Still p) := by
  cases hwork : job.run with
  | list _ work =>
    rw [hwork] at h
    cases work with
    | skipPrev delay | skipTo track delay => exact ⟨rfl, h⟩
    | _ => exact h.elim
  | load => simp [hwork, Work.isLoad] at hrun
  | _ =>
    rw [hwork] at h
    exact h.elim

variable {turn : Turn} {a : Answers} {q : AppPlayer} {rest : List LoaderResult}

theorem navigating_asked {paused : Bool} (h : p.turn cfg g turn = some p')
    (hasks : turn.asks = some paused) (hworks : turn.Works) (honward : Onward turn p p')
    (hstill : p.transport.InFlight ∨ Still p) :
    p'.transport.InFlight ∧ p'.transport.Shows paused ∨
      p'.transport.Settled ∧ p'.transport.audio.paused = paused ∧ Clear p' := by
  obtain ⟨hdraining, hasked⟩ := turn_asked h hasks hworks
  rcases hstill with hflight | hstill
  · have ht := hasked (Transport.out_of_stream (.inl hflight))
    rw [hflight.asked] at ht
    rw [ht]
    exact .inl ⟨⟨hflight.flight, hflight.noStream⟩, rfl, by simp [transport, hdraining]⟩
  · have ht := hasked fun _ => hstill.out
    have hsettled : (p.transport.asked paused).Settled :=
      Transport.settled_asked paused hstill.stream hstill.out hstill.landed hstill.released
    have hpaused : (p.transport.asked paused).audio.paused = paused :=
      Transport.asked_paused paused hstill.stream
    rw [ht]
    exact .inr ⟨hsettled, hpaused, honward.clear hstill.clear⟩

theorem phase_passes (hphase : Phase wanted p) (h : p.turn cfg g turn = some p')
    (hcalm : Calm cfg ⟨p, wanted⟩ turn) (honward : Onward turn p p')
    (hfinish : ∀ a, turn ≠ .loop (.finish a))
    (hkeeps : Transport.Keeps wanted (turn.asks.or wanted) p.transport p'.transport) :
    Phase (turn.asks.or wanted) p' := by
  cases hphase with
  | navigating job hp hloads hrun hasked =>
    refine .navigating job (honward.pending job hloads hp) hloads hrun ?_
    rcases hasks : turn.asks with _ | paused
    · rw [hasks] at hkeeps
      intro b hb
      have hb : wanted = some b := hb
      subst hb
      obtain ⟨hkept, hshown⟩ := hasked b rfl
      refine ⟨hkept, hshown.imp ?_ ?_⟩
      · rintro ⟨hflight, hshows⟩
        obtain ⟨hflight', hshows'⟩ := hkeeps.flight hflight (by rintro c ⟨⟩; exact hshows)
        exact ⟨hflight', hshows' b rfl⟩
      · rintro ⟨hsettled, hpaused, hclear⟩
        obtain ⟨hsettled', hpaused'⟩ := hkeeps.settled hsettled (by rintro c ⟨⟩; exact hpaused)
        exact ⟨hsettled', hpaused' b rfl, honward.clear hclear⟩
    · rintro b ⟨⟩
      obtain ⟨hkept, hstill⟩ := keepsPaused_of_heeds hrun (hcalm.timely paused hasks job hp hloads)
      exact ⟨hkept, navigating_asked h hasks hcalm.works honward hstill⟩
  | loading job load hp hcls hrun hflight hshows hresumes hstage =>
    have hloads : job.cls.loads = true := by simp [hcls, LoaderClass.loads]
    obtain ⟨hflight', hshows'⟩ := hkeeps.flight hflight hshows
    refine .loading job load (honward.pending job hloads hp) hcls hrun hflight' hshows' ?_ ?_
    · intro hwanted
      rcases hasks : turn.asks with _ | paused
      · rw [hasks] at hwanted
        exact hresumes hwanted
      · have hheeds := hcalm.timely paused hasks job hp hloads
        rw [hrun] at hheeds
        rw [hasks] at hwanted
        exact hheeds (Option.some.inj hwanted)
    · refine hstage.imp (honward.ahead hfinish job hcls) ?_
      rintro ⟨hclear, hfetched⟩
      exact ⟨honward.clear hclear, hkeeps.fetched load.paused hflight hfetched⟩
  | landed hsettled hpaused hclear hspent =>
    obtain ⟨hsettled', hpaused'⟩ := hkeeps.settled hsettled hpaused
    exact .landed hsettled' hpaused' (honward.clear hclear) (honward.spent hspent)

/-! ## The lane has run a job -/

theorem handOver_eq {work : Work} (hwork : work.isLoad = false) (audio : Player.ManageLoop) :
    handOver a work audio = audio := by
  cases work with
  | load => simp [Work.isLoad] at hwork
  | _ => rfl

theorem handOver_fetched {stream : Stream} (load : LoadJob) (hstream : a.stream = .ok stream)
    (hworks : a.outputLost = false) (t : Transport) :
    Transport.Fetched load.paused { t with audio := handOver a (.load load) t.audio } := by
  have haudio : handOver a (.load load) t.audio =
      ({ t.audio with out := true, streamGen := t.audio.streamGen + 1, paused := load.paused } :
        Player.ManageLoop).raise (if load.paused then .pause else .play) := by
    simp [handOver, hstream, hworks, Player.ManageLoop.setPrimary, Player.ManageLoop.runOutputOp]
  rw [haudio]
  refine ⟨rfl, rfl, fun b => ?_⟩
  simp only [Player.ManageLoop.raise, ← List.append_assoc]
  rw [pausedAfter_append]
  cases load.paused <;> rfl

theorem phase_finish (hphase : Phase wanted p) (h : p.finish g a = some p')
    (hcalm : Calm cfg ⟨p, wanted⟩ (.loop (.finish a))) (honward : Onward (.loop (.finish a)) p p') :
    Phase wanted p' := by
  obtain ⟨next, commit, lists, hworker, -, rfl⟩ := finish_spec h
  -- The audio player is handed a stream only by a load, and there is none if the lane is clear.
  have haudio (hclear : Clear p) : handOver a next.run p.audio = p.audio :=
    handOver_eq (hclear.running next hworker) p.audio
  cases hphase with
  | navigating job hp hloads hrun hasked =>
    refine .navigating job (honward.pending job hloads hp) hloads hrun fun b hb => ?_
    obtain ⟨hkept, hshown⟩ := hasked b hb
    refine ⟨hkept, hshown.imp ?_ ?_⟩
    · rintro ⟨hflight, hshows⟩
      exact ⟨⟨hflight.flight, hflight.noStream⟩, hshows.isPaused, hshows.draining⟩
    · rintro ⟨hsettled, hpaused, hclear⟩
      refine ⟨?_, ?_, honward.clear hclear⟩ <;> simp only [transport, haudio hclear]
      · exact hsettled
      · exact hpaused
  | loading job load hp hcls hrun hflight hshows hresumes hstage =>
    have hloads : job.cls.loads = true := by simp [hcls, LoaderClass.loads]
    refine .loading job load (honward.pending job hloads hp) hcls hrun
      ⟨hflight.flight, hflight.noStream⟩
      (fun b hb => ⟨(hshows b hb).isPaused, (hshows b hb).draining⟩) hresumes ?_
    rcases hstage with (hq | ⟨hrunning, hqueue⟩) | ⟨hclear, hfetched⟩
    · exact .inl (.inl hq)
    · obtain rfl : next = job := Worker.running.inj (hworker.symm.trans hrunning)
      obtain ⟨stream, hstream⟩ :=
        hcalm.fetches a next rfl hworker hp.2 (by simp [hrun, Work.isLoad])
      refine .inr ⟨⟨fun q hq => by simp at hq, hqueue⟩, ?_⟩
      have hfetched := handOver_fetched load hstream hcalm.works p.transport
      rwa [← hrun] at hfetched
    · refine .inr ⟨honward.clear hclear, ?_⟩
      simp only [transport, haudio hclear]
      exact hfetched
  | landed hsettled hpaused hclear hspent =>
    refine .landed ?_ ?_ (honward.clear hclear) (honward.spent hspent) <;>
      simp only [transport, haudio hclear]
    · exact hsettled
    · exact hpaused

/-! ## The current result -/

theorem current_applied {res : LoaderResult}
    (hloads : res.job.cls.loads = true) (hgen : res.job.gen = p.loadGen)
    (h : { p with results := rest }.applyLoaderResult cfg m res = some p') :
    ∃ flight q, (p.received rest flight).commit cfg m res.commit = some q ∧
      (flight = p.loadInFlight ∧ res.job.cls ≠ .load ∧ p' = q ∨
        flight = false ∧ p' = q.drainPendingPlayerEvents) := by
  unfold applyLoaderResult at h
  split at h
  · obtain ⟨q, hq, rfl⟩ := Option.map_eq_some_iff.mp h
    exact ⟨false, q, hq, .inr ⟨rfl, rfl⟩⟩
  · rename_i hload
    have hfresh : ¬ ({ p with results := rest } : AppPlayer).stale res.job = true := by
      rw [stale_of_loads hloads]
      exact fun hne => hne hgen
    rw [if_neg hfresh] at h
    exact ⟨p.loadInFlight, p', h, .inl ⟨rfl, fun hcls => hload ⟨hcls, hgen⟩, rfl⟩⟩

theorem leadsOn_received {c : Commit} (rest : List LoaderResult) (flight : Bool)
    (h : LeadsOn cfg p c) : LeadsOn cfg (p.received rest flight) c := by
  cases c with
  | walked _ work => cases work <;> exact h
  | _ => exact h

section Accepted

variable {state : State} {q : AppPlayer} (hlane : LaneOk p) (hroom : HasRoom p.loader)
  (h : Submits job { p with state } q) (hloads : job.cls.loads = true)
include hlane hroom h hloads

theorem Submits.queued : job ∈ q.loader.queue := by
  rw [h.loader]
  exact LoaderLane.self_mem_submit ((LoaderLane.accepts_of_loads hloads hlane.isOpen).mpr hroom)

theorem Submits.isPending : Pending job q := by
  have hq := h.queued hlane hroom hloads
  exact ⟨by simp [jobs, hq], (h.loads hloads).2⟩

end Accepted

theorem phase_of_starts (hstarts : StartsFrom p q) (hlane : LaneOk p) (hroom : HasRoom p.loader)
    (hp' : p' = q ∨ p' = q.drainPendingPlayerEvents) : Phase none p' := by
  obtain ⟨state, hstarts⟩ := hstarts
  cases hstarts with
  | loads job load h hcls hrun hflight =>
    have hloads : job.cls.loads = true := by simp [hcls, LoaderClass.loads]
    have hq := h.queued hlane hroom hloads
    have hp := h.isPending hlane hroom hloads
    rcases hp' with rfl | rfl
    · exact .loading job load hp hcls hrun hflight (by simp) (by simp) (.inl (.inl hq))
    · exact .loading job load hp hcls hrun ⟨hflight.flight, hflight.noStream⟩ (by simp) (by simp)
        (.inl (.inl hq))
  | navigates job h hloads hrun =>
    have hp := h.isPending hlane hroom hloads
    rcases hp' with rfl | rfl
    · exact .navigating job hp hloads hrun (by simp)
    · exact .navigating job hp hloads hrun (by simp)

theorem phase_of_skip {list : ListId} {work : ListWork} {walked : Walked}
    {snap : TrackList.Snapshot} {b : Bool} (hkept : (Work.list list work).keepsPaused = true)
    (hleads : LeadsOn cfg p (.walked list work walked snap)) (hlane : LaneOk p)
    (hroom : HasRoom p.loader) (hpaused : p.state.player.isPaused = b) (hdraining : p.draining = [])
    (hpending : ∀ ev ∈ p.pendingPlayerEvents, ∀ c, ev.paused = some c → c = b)
    (h : p.commit cfg m (.walked list work walked snap) = some q)
    (hp' : p' = q ∨ p' = q.drainPendingPlayerEvents) : Phase (some b) p' := by
  obtain ⟨state, job, load, hs, hcls, hrun, hk, ht⟩ := skip_loads hkept hleads h
  have hloads : job.cls.loads = true := by simp [hcls, LoaderClass.loads]
  have hq := hs.queued hlane hroom hloads
  have hp := hs.isPending hlane hroom hloads
  have hresumes : load.k.resumes = false := by simp [hk, Then.resumes]
  have hflight : q.transport.InFlight := ht ▸ ⟨rfl, rfl⟩
  rcases hp' with rfl | rfl
  · refine .loading job load hp hcls hrun hflight ?_ (fun _ => hresumes) (.inl (.inl hq))
    rintro c ⟨⟩
    rw [ht]
    exact ⟨hpaused, by simp [Transport.loading, transport, hdraining]⟩
  · refine .loading job load hp hcls hrun ⟨hflight.flight, hflight.noStream⟩ ?_ (fun _ => hresumes)
      (.inl (.inl hq))
    rintro c ⟨⟩
    show q.transport.drained.Shows b
    rw [ht]
    exact ⟨hpaused, hpending⟩

theorem phase_of_loaded {load : LoadJob} {stream : Stream} {streamGen : Nat} {position : Int}
    (hm : m.Works) (hfetched : p.transport.Fetched load.paused) (hdraining : p.draining = [])
    (hshows : ∀ b, wanted = some b → p.state.player.isPaused = b)
    (hresumes : wanted = some true → load.k.resumes = false) (hclear : Clear p) (hspent : Spent p)
    (h : ({ p with loadInFlight := false } : AppPlayer).commit cfg m
      (.loaded load stream streamGen position) = some q) :
    Phase wanted q.drainPendingPlayerEvents := by
  obtain ⟨hsettled, hflag⟩ := loaded_settled hm hfetched hdraining h
  have hquiet : Quiet ({ p with loadInFlight := false } : AppPlayer) q := commit_effect h
  have hworker : q.worker = p.worker := congrArg Frame.worker hquiet.frame
  have hloader : q.loader = p.loader := hquiet.loader
  refine .landed hsettled ?_ ⟨?_, ?_⟩ ?_
  · intro b hb
    rcases hflag with hflag | ⟨hk, hflag⟩
    · exact hflag.trans (hshows b hb)
    · cases b with
      | false => exact hflag
      | true => simp [hresumes hb] at hk
  · intro r hr
    exact hclear.running r (hworker ▸ hr)
  · intro r hr
    exact hclear.queued r (hloader ▸ hr)
  · intro r hr
    have hr : r ∈ q.jobs := hr
    rw [hquiet.jobs] at hr
    have hgen : q.loadGen = p.loadGen := hquiet.loadGen
    show r.cls.loads = true → r.gen ≠ q.loadGen
    rw [hgen]
    exact hspent r hr

theorem phase_receive {res : LoaderResult} (hphase : Phase wanted p)
    (hsound : Sound p) (htallied : p.ledger.Tallied) (hres : p.results = res :: rest)
    (hloads : res.job.cls.loads = true) (hgen : res.job.gen = p.loadGen)
    (hdraining : p.draining = []) (hcalm : Calm cfg ⟨p, wanted⟩ (.loop (.receive m)))
    (h : { p with results := rest }.applyLoaderResult cfg m res = some p') : Phase wanted p' := by
  have hmem : res.job ∈ p.jobs := by simp [jobs, hres]
  have hgives := hsound.gives res (by simp [finished, hres])
  obtain ⟨hleads, hroom, hcaught⟩ := hcalm.lands m res rest rfl hres hloads hgen
  obtain ⟨flight, q, hq, hp'⟩ := current_applied hloads hgen h
  have hlane : LaneOk (p.received rest flight) := ⟨hsound.lane.isOpen, hsound.lane.shape⟩
  have hleads' := leadsOn_received rest flight hleads
  have hspent := spent_received flight hres htallied hloads hgen
  cases hphase with
  | landed _ _ _ hspent => exact absurd hgen (hspent res.job hmem hloads)
  | navigating job hp hloads' hrun hasked =>
    obtain rfl := htallied.eq_of_gen hmem hp.1 hloads hloads' (hgen.trans hp.2.symm)
    have hp' : p' = q ∨ p' = q.drainPendingPlayerEvents := hp'.imp (·.2.2) (·.2)
    cases wanted with
    | none =>
      refine phase_of_starts (commit_starts ?_ hleads' hq) hlane hroom hp'
      intro load stream gen position hcommit
      rw [hcommit] at hgives
      cases hwork : res.job.run <;> rw [hwork] at hgives hrun <;> cases hgives
      simp [Work.isLoad] at hrun
    | some b =>
      obtain ⟨hkept, hshown⟩ := hasked b rfl
      have hcaught := hcaught (by simp) hrun
      have hpaused : p.state.player.isPaused = b := by
        rcases hshown with ⟨-, hshows⟩ | ⟨hsettled, hpaused, -⟩
        · exact hshows.isPaused
        · exact (hsettled.isPaused_of_caught hcaught).trans hpaused
      have hpending : ∀ ev ∈ p.pendingPlayerEvents, ∀ c, ev.paused = some c → c = b := by
        intro ev hev c hc
        refine (hcaught ev ?_ c hc).trans hpaused
        simp [Transport.events, transport, hev]
      cases hwork : res.job.run with
      | list =>
        rw [hwork] at hgives hkept
        generalize hcommit : res.commit = commit at hgives hleads hleads' hq
        cases hgives with
        | walkFailed => exact hleads.elim
        | walked =>
          exact phase_of_skip hkept hleads' hlane hroom hpaused hdraining hpending hq hp'
      | _ => simp [hwork, Work.keepsPaused] at hkept
  | loading job _ hp hcls hrun _ hshows hresumes hstage =>
    have hloads' : job.cls.loads = true := by simp [hcls, LoaderClass.loads]
    obtain rfl := htallied.eq_of_gen hmem hp.1 hloads hloads' (hgen.trans hp.2.symm)
    rcases hstage with hahead | ⟨hclear, hfetched⟩
    · -- Its result has come, so the job can be nowhere else.
      refine absurd hgen (hspent res.job ?_ hloads)
      rcases hahead with hqueue | ⟨hworker, -⟩
      · simp [jobs, received, hqueue]
      · simp [jobs, received, hworker, Worker.jobs]
    · obtain ⟨rfl, rfl⟩ : flight = false ∧ p' = q.drainPendingPlayerEvents := by
        rcases hp' with ⟨-, hne, -⟩ | hp'
        · exact absurd hcls hne
        · exact hp'
      rw [hrun] at hgives
      generalize hcommit : res.commit = commit at hgives hleads hq
      cases hgives with
      | unloaded => exact hleads.elim
      | loaded =>
        exact phase_of_loaded (p := { p with results := rest }) hcalm.works hfetched hdraining
          (fun b hb => (hshows b hb).isPaused) hresumes ⟨hclear.running, hclear.queued⟩ hspent hq

theorem phase_turn (hphase : Phase wanted p) (hsound : Sound p) (htallied : p.ledger.Tallied)
    (hcalm : Calm cfg ⟨p, wanted⟩ turn) (h : p.turn cfg g turn = some p') :
    Phase (turn.asks.or wanted) p' := by
  by_cases hcurrent : ∃ op, turn = .loop op ∧ p.ReceivesCurrent op
  · obtain ⟨op, rfl, hcurrent⟩ := hcurrent
    cases op with
    | receive m =>
      obtain ⟨res, rest, hres, hloads, hgen⟩ := hcurrent
      have h : p.step cfg g (.receive m) = some p' := h
      have hdraining := draining_of_step rfl h
      have h := handle_of_step rfl h
      simp only [handle, hres] at h
      exact phase_receive hphase hsound htallied hres hloads hgen hdraining hcalm h
    | _ => exact hcurrent.elim
  have hother : ∀ op, turn = .loop op → ¬ p.ReceivesCurrent op :=
    fun op hop hc => hcurrent ⟨op, hop, hc⟩
  have honward := turn_onward h hsound htallied hcalm hother
  by_cases hfinish : ∃ a, turn = .loop (.finish a)
  · obtain ⟨a, rfl⟩ := hfinish
    obtain ⟨h, -⟩ := Option.filter_eq_some_iff.mp h
    exact phase_finish hphase h hcalm honward
  have hfinish : ∀ a, turn ≠ .loop (.finish a) := fun a ha => hfinish ⟨a, ha⟩
  have hpasses : p.Passes turn := by
    cases turn with
    | ended | outputFailed => trivial
    | loop op =>
      cases op with
      | finish a => exact absurd rfl (hfinish a)
      | _ => exact hother _ rfl
  exact phase_passes hphase h hcalm honward hfinish (turn_keeps h hsound htallied hcalm hpasses)

theorem phase_of_command {cmd : Command} (hcmd : cmd.skipsOrPlays = true)
    (h : p.handleCommand cfg m cmd = some p') (hnew : job ∉ p.jobs) (hmem : job ∈ p'.jobs) :
    Phase none p' := by
  rcases command_starts hcmd h with hq | ⟨state, hstarts⟩
  · exact absurd (hq.jobs ▸ hmem) hnew
  -- What was not there before can only be in the queue.
  have hfound {q : LoaderJob Work} (hs : Submits q { p with state } p') :
      q = job ∧ job ∈ p'.loader.queue := by
    have hresults : p'.results = p.results := congrArg Frame.results hs.frame
    have hworker : p'.worker = p.worker := congrArg Frame.worker hs.frame
    refine ⟨((hs.mem_jobs hmem).resolve_left hnew).symm, ?_⟩
    simp only [jobs, hresults, hworker, List.mem_append] at hmem hnew
    tauto
  cases hstarts with
  | loads q load hs hcls hrun hflight =>
    obtain ⟨rfl, hq⟩ := hfound hs
    have hp : Pending q p' := ⟨hmem, (hs.loads (by simp [hcls, LoaderClass.loads])).2⟩
    exact .loading q load hp hcls hrun hflight (by simp) (by simp) (.inl (.inl hq))
  | navigates q hs hloads hrun =>
    obtain ⟨rfl, hq⟩ := hfound hs
    exact .navigating q ⟨hmem, (hs.loads hloads).2⟩ hloads hrun (by simp)

end AppPlayer

namespace Watched

open AppPlayer (Sound Phase here served roundTrip knownTrack)

variable {cfg : Config} {g : Rand} {w w' : Watched}

def step (cfg : Config) (g : Rand) (w : Watched) (turn : Turn) : Option Watched :=
  (w.player.turn cfg g turn).map fun player => { player, wanted := turn.asks.or w.wanted }

/-- With no job outstanding and no event left the flags agree, and they are what was asked for
last. -/
def Agrees (w : Watched) : Prop :=
  w.player.jobs = [] → w.player.transport.events = [] →
    w.player.state.player.isPaused = w.player.audio.paused ∧
      ∀ b, w.wanted = some b → w.player.audio.paused = b

structure Inv (w : Watched) : Prop where
  sound : Sound w.player
  tallied : w.player.ledger.Tallied
  phase : Phase w.wanted w.player

variable {turn : Turn} {p : AppPlayer}

theorem step_inv (hw : Inv w) (hcalm : Calm cfg w turn) (h : w.step cfg g turn = some w') :
    Inv w' := by
  obtain ⟨p', hp, rfl⟩ := Option.map_eq_some_iff.mp h
  exact ⟨turn_sound hp hw.sound, turn_tallied hp hw.sound hw.tallied,
    phase_turn hw.phase hw.sound hw.tallied hcalm hp⟩

theorem agrees_of_inv (hw : Inv w) : Agrees w := by
  intro hjobs hevents
  cases hw.phase with
  | navigating _ hp | loading _ _ hp => simp [AppPlayer.Pending, hjobs] at hp
  | landed hsettled hpaused =>
    have hagrees := hsettled.agrees
    rw [hevents] at hagrees
    exact ⟨hagrees, hpaused⟩

theorem reachable_inv {before : List Turn} (hp : exec (AppPlayer.turn cfg g) {} before = some p) :
    Sound p ∧ p.ledger.Tallied := by
  refine exec_invariant (I := fun p : AppPlayer => Sound p ∧ p.ledger.Tallied) ?_
    ⟨sound_new, tallied_new⟩ hp
  intro p turn p' hp h
  exact ⟨turn_sound h hp.1, turn_tallied h hp.1 hp.2⟩

/-- From a skip or a play on that has handed a job to the lane, and as long as the turns are calm:
once nothing is outstanding, the flags agree and are what was asked for last. -/
theorem flags_reflect_last_command (cfg : Config) (g : Rand) (before after : List Turn)
    (m : Moment) (cmd : Command) (job : LoaderJob Work) {p p' : AppPlayer}
    (hp : exec (AppPlayer.turn cfg g) {} before = some p) (hcmd : cmd.skipsOrPlays = true)
    (h : p.turn cfg g (.loop (.command m cmd)) = some p') (hnew : job ∉ p.jobs)
    (hmem : job ∈ p'.jobs) (hafter : Meets (step cfg g) (Calm cfg) { player := p' } after) :
    Always (step cfg g) Agrees { player := p' } after := by
  obtain ⟨hsound, htallied⟩ := reachable_inv hp
  have hstep : p.step cfg g (.command m cmd) = some p' := h
  have hphase := phase_of_command hcmd (handle_of_step rfl hstep) hnew hmem
  have hstart : Inv { player := p' } :=
    ⟨turn_sound h hsound, turn_tallied h hsound htallied, hphase⟩
  have halways := always_of_meets (I := Inv) (fun _ _ _ hw hc hs => step_inv hw hc hs) hstart hafter
  exact halways.imp fun _ => agrees_of_inv

def skipped : Turn := .loop (.command { now := 1000 } (.skipNext none))

def pausedAt (now : Int) : Turn := .loop (.command { now } .pause)

def foundTurns : List Turn :=
  (roundTrip 1000 { served [knownTrack, knownTrack] with streamGen := 1 }).map .loop

def fetchedTurns : List Turn :=
  .loop (.take fun _ => 1000) :: CountedPlayer.landedTurns

def heard (type : Player.EventType) (streamGen : Nat) : Turn :=
  .loop (.event { now := 3000 } { type, streamGen })

/-- The pause comes before the lane has found the next track. -/
def lostPauseTurns : List Turn :=
  pausedAt 1000 :: foundTurns ++ fetchedTurns ++ [heard .pause 1, heard .play 2]

def keptPauseTurns : List Turn :=
  foundTurns ++ pausedAt 1000 :: fetchedTurns ++ [heard .play 2, heard .pause 2]

structure Outcome where
  jobs : Nat
  events : Nat
  isPaused : Bool
  audio : Bool
  wanted : Option Bool
deriving DecidableEq

def outcome (w : Watched) : Outcome where
  jobs := w.player.jobs.length
  events := w.player.transport.events.length
  isPaused := w.player.state.player.isPaused
  audio := w.player.audio.paused
  wanted := w.wanted

theorem skipped_new : ∃ p p' job,
    exec (AppPlayer.turn here drawZero) {} CountedPlayer.playingTurns = some p ∧
    p.turn here drawZero skipped = some p' ∧ job ∉ p.jobs ∧ job ∈ p'.jobs ∧
    (exec (step here drawZero) { player := p' } lostPauseTurns).map outcome =
      some ⟨0, 0, false, false, some true⟩ ∧
    (exec (step here drawZero) { player := p' } keptPauseTurns).map outcome =
      some ⟨0, 0, true, true, some true⟩ := by
  refine ⟨Option.get _ (by decide +kernel), Option.get _ (by decide +kernel),
    List.head _ (by decide +kernel), exec_get _, (Option.some_get _).symm, fun hjob => ?_,
    List.head_mem _, by decide +kernel, by decide +kernel⟩
  exact (List.eq_nil_iff_forall_not_mem.mp (by decide +kernel) _ hjob).elim

theorem works_at (now : Int) : Moment.Works { now } := ⟨rfl, rfl, rfl, rfl⟩

/-- The pause is lost: the next track plays. -/
theorem pause_lost_before_advance : ∃ p p' job,
    exec (AppPlayer.turn here drawZero) {} CountedPlayer.playingTurns = some p ∧
    p.turn here drawZero skipped = some p' ∧ job ∉ p.jobs ∧ job ∈ p'.jobs ∧
    (∀ turn ∈ lostPauseTurns, turn.Works) ∧
    ¬ Always (step here drawZero) Agrees { player := p' } lostPauseTurns := by
  obtain ⟨p, p', job, hp, hp', hnew, hmem, hlost, -⟩ := skipped_new
  refine ⟨p, p', job, hp, hp', hnew, hmem, ?_, ?_⟩
  · simp [lostPauseTurns, foundTurns, fetchedTurns, CountedPlayer.landedTurns, roundTrip, pausedAt,
      heard, Turn.Works, served, works_at]
  · intro h
    obtain ⟨w, hw, hend⟩ := Option.map_eq_some_iff.mp hlost
    simp only [outcome, Outcome.mk.injEq, List.length_eq_zero_iff] at hend
    obtain ⟨hjobs, hevents, -, hpaused, hwanted⟩ := hend
    have hagrees := h.last hw hjobs hevents
    have := hagrees.2 true hwanted
    simp [hpaused] at this

/-! ### A run that is calm -/

section

open AppPlayer

instance (cfg : Config) (p : AppPlayer) (op : Op) : Decidable (Replaces cfg p op) := by
  delta Replaces
  rcases op with ⟨_, _ | _⟩ | _ <;> infer_instance

instance (cfg : Config) (p : AppPlayer) (c : Commit) : Decidable (LeadsOn cfg p c) := by
  delta LeadsOn
  rcases c with _ | _ | _ | _ | _ | _ | _ | ⟨_, _ | _⟩ <;> infer_instance

instance (p : AppPlayer) : Decidable (Still p) :=
  decidable_of_iff (_ ∧ _ ∧ _ ∧ _ ∧ (∀ q, p.worker = .running q → _) ∧ ∀ q ∈ p.loader.queue, _)
    ((still_iff p).trans (by rw [clear_iff])).symm

instance (paused : Bool) (p : AppPlayer) (work : Work) : Decidable (Heeds paused p work) :=
  have : Decidable p.transport.InFlight :=
    decidable_of_iff (_ ∧ _) (Transport.inFlight_iff p.transport).symm
  by
    delta Heeds
    rcases work with _ | _ | ⟨_, _ | _⟩ <;> infer_instance

instance (turn : Turn) : Decidable turn.Works :=
  have (m : Moment) : Decidable m.Works := decidable_of_iff (_ ∧ _) m.works_iff.symm
  by
    delta Turn.Works
    rcases turn with (_ | _) | _ <;> infer_instance

instance (t : Transport) : Decidable t.Caught :=
  inferInstanceAs (Decidable (∀ ev ∈ t.events, ∀ b ∈ ev.paused, b = t.isPaused))

set_option synthInstance.maxSize 256 in
instance (cfg : Config) (w : Watched) (turn : Turn) : Decidable (Calm cfg w turn) :=
  match turn with
  | .outputFailed => .isFalse fun h => h.works
  | .ended => .isTrue (by simp [calm_iff, Turn.Works, Turn.asks])
  | .loop op => decidable_of_iff (Turn.Works (.loop op) ∧ ¬ Replaces cfg w.player op ∧
      (∀ ev ∈ w.player.handled op, ev.type ≠ .notPlaying) ∧
      (∀ m ev, op = .event m ev → w.player.loadInFlight = true →
        w.player.pendingPlayerEvents.length < maxPendingPlayerEvents) ∧
      (∀ paused ∈ (Turn.loop op).asks, ∀ job ∈ w.player.jobs, job.gen = w.player.loadGen →
        job.cls.loads = true → Heeds paused w.player job.run) ∧
      (∀ a, op = .finish a → ∀ job, w.player.worker = .running job → job.gen = w.player.loadGen →
        job.run.isLoad = true → ∃ stream, a.stream = .ok stream) ∧
      ∀ m res rest, op = .receive m → w.player.results = res :: rest →
        res.job.cls.loads = true → res.job.gen = w.player.loadGen →
          LeadsOn cfg w.player res.commit ∧ w.player.loader.HasRoom ∧
            (w.wanted ≠ none → res.job.run.isLoad = false → w.player.transport.Caught))
      (by
        simp only [calm_iff, Turn.loop.injEq, forall_eq', Pending, and_imp, Option.mem_def]
        grind)

end

theorem flags_reflect_last_command_keptPause : ∃ p',
    (exec (step here drawZero) { player := p' } keptPauseTurns).map outcome =
      some ⟨0, 0, true, true, some true⟩ ∧
    Always (step here drawZero) Agrees { player := p' } keptPauseTurns := by
  obtain ⟨p, p', job, hp, hp', hnew, hmem, -, hkept⟩ := skipped_new
  refine ⟨p', hkept, ?_⟩
  apply flags_reflect_last_command here drawZero CountedPlayer.playingTurns keptPauseTurns
    { now := 1000 }
    (.skipNext none) job hp rfl hp' hnew hmem
  have hcalm : ((exec (turn here drawZero) {} CountedPlayer.playingTurns).bind fun p =>
      (p.turn here drawZero skipped).map fun p' =>
        decide (Meets (step here drawZero) (Calm here) { player := p' } keptPauseTurns)) =
      some true := by
    decide +kernel
  rw [hp, Option.bind_some, hp', Option.map_some] at hcalm
  exact of_decide_eq_true (Option.some.inj hcalm)

end Watched

end Librespot.Daemon
