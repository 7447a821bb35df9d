import Librespot.Daemon.PauseFlags

/-!
# Pausing while the next track is on its way

What the user asks for during the load of a track is made good when the track lands. What they
ask for before, while the lane navigates, is kept only by the skips that leave the flag alone.
-/

open Base.Run
open Librespot.Tracks
open Librespot.Daemon.LoaderLane (HasRoom)

namespace Librespot.Daemon

def Work.keepsPaused : Work → Bool
  | .list _ (.skipPrev _) | .list _ (.skipTo ..) => true
  | _ => false

def Command.skipsOrPlays : Command → Bool
  | .play _ | .apiPlay _ | .skipPrev _ | .skipNext _ => true
  | _ => false

variable {paused : Bool}

namespace AppPlayer

variable {cfg : Config} {g : Rand} {m : Moment} {p p' : AppPlayer} {job : LoaderJob Work}

/-! ## What leads to a track -/

inductive Starts (p p' : AppPlayer) : Prop
  | loads (job : LoaderJob Work) (load : LoadJob) (h : Submits job p p') (hcls : job.cls = .load)
      (hrun : job.run = .load load) (hflight : p'.transport.InFlight)
  | navigates (job : LoaderJob Work) (h : Submits job p p') (hloads : job.cls.loads = true)
      (hrun : job.run.isLoad = false)

def StartsFrom (p p' : AppPlayer) : Prop := ∃ state, Starts { p with state } p'

def LeadsOn (cfg : Config) (p : AppPlayer) : Commit → Prop
  | .loaded .. | .station .. | .apiPlay .. => True
  | .resolved _ _ snap => Playable snap.current.uri
  | .walked list (.skipTo ..) _ snap => p.state.tracks = some list ∧ Playable snap.current.uri
  | c => Lands cfg p c

variable {drop : Bool} {k : Then} {op : Op} {clock : Nat → Int}

theorem loadCurrentTrack_starts {resume : Bool} {delay : Int}
    (h : p.loadCurrentTrack m paused drop resume delay k = some p')
    (hplayable : Playable p.state.player.trackUri) : Starts p p' := by
  rcases loadCurrentTrack_cases h with ⟨hno, -⟩ | ⟨-, ht, job, hs, hcls, load, hrun, -⟩
  · exact absurd hplayable hno
  · exact .loads job load hs hcls hrun (ht ▸ ⟨rfl, rfl⟩)

theorem advanceTo_starts {hasNext : Bool} {seed : List String} {delay : Int}
    (hgoes : GoesOn cfg hasNext seed p)
    (h : p.advanceTo cfg m hasNext seed drop delay k = some p') : StartsFrom p p' := by
  have hauto : (p.updatePlayer (.moveTo m.now 0)).autoplays cfg = p.autoplays cfg := rfl
  simp only [advanceTo, hauto, Bool.not_eq_true] at h
  unfold GoesOn at hgoes
  split at h
  · rw [if_pos ‹_›] at hgoes
    rw [startAutoplay, if_neg hgoes] at h
    exact ⟨_, .navigates _ (Option.some.inj h ▸ submitLoad_submits _ _) rfl rfl⟩
  · rw [if_neg ‹_›] at hgoes
    have hstarts := loadCurrentTrack_starts h (by rwa [stopUnless_trackUri])
    exact ⟨_, hstarts⟩

theorem loadContext_starts {context : Context} {skipTo : Option SkipTo}
    (h : p.loadContext m context skipTo paused drop k = some p') : StartsFrom p p' := by
  simp only [loadContext, Option.bind_eq_bind, Option.bind_eq_some_iff] at h
  obtain ⟨options, -, queued, -, h⟩ := h
  exact ⟨_, .navigates _ (Option.some.inj h ▸ submitLoad_submits _ _) rfl rfl⟩

theorem Quiet.starts {q : AppPlayer} (h : Quiet p q) (hstarts : Starts q p') : Starts p p' := by
  cases hstarts with
  | loads job load hs hcls hrun hflight => exact .loads job load (h.submits hs) hcls hrun hflight
  | navigates job hs hloads hrun => exact .navigates job (h.submits hs) hloads hrun

theorem skipNext_starts {track : Option ContextTrack} (h : p.skipNext cfg m track = some p') :
    Quiet p p' ∨ StartsFrom p p' := by
  have hq : Quiet p { p with lastSkipAt := some m.now } := ⟨rfl, rfl, rfl, rfl, id, id, .refl _⟩
  have hfrom (hstarts : StartsFrom { p with lastSkipAt := some m.now } p') : StartsFrom p p' := by
    obtain ⟨state, hstarts⟩ := hstarts
    have hq : Quiet { p with state } { p with state, lastSkipAt := some m.now } :=
      ⟨rfl, rfl, rfl, rfl, id, id, .refl _⟩
    exact ⟨state, hq.starts hstarts⟩
  simp only [skipNext] at h
  cases track with
  | none =>
    simp only [advanceNext] at h
    split at h
    · rcases advanceTo_cases h with ⟨-, h⟩ | ⟨hgoes, -⟩
      · exact .inl (hq.trans h)
      · exact .inr (hfrom (advanceTo_starts hgoes h))
    · rename_i list htracks
      simp only [Option.bind_eq_bind, Option.bind_eq_some_iff] at h
      obtain ⟨options, -, h⟩ := h
      rw [if_neg (by simp)] at h
      cases h
      have hs := bumped_submits .nav rfl list (.advance options.repeatingContext true
        (skipDelay cfg m.now p.lastSkipAt) .skipNext) { p with lastSkipAt := some m.now }
      exact .inr (hfrom ⟨_, .navigates _ hs rfl rfl⟩)
  | some track =>
    simp only at h
    split at h
    · exact Option.some.inj h ▸ .inl hq
    · rename_i list htracks
      cases h
      have hs := bumped_submits .load rfl list (.skipTo track (skipDelay cfg m.now p.lastSkipAt))
        { p with lastSkipAt := some m.now }
      exact .inr (hfrom ⟨_, .navigates _ hs rfl rfl⟩)

theorem skipPrev_starts (m : Moment) (allowSeeking : Bool) (p : AppPlayer) :
    Quiet p (p.skipPrev cfg m allowSeeking) ∨ StartsFrom p (p.skipPrev cfg m allowSeeking) := by
  unfold skipPrev
  split
  · exact .inl (seek_quiet m 0 p)
  · split
    · exact .inl (Quiet.refl p)
    · rename_i list htracks
      have hq : Quiet p { p with lastSkipAt := some m.now } := ⟨rfl, rfl, rfl, rfl, id, id, .refl _⟩
      have hs := bumped_submits .nav rfl list (.skipPrev (skipDelay cfg m.now p.lastSkipAt))
        { p with lastSkipAt := some m.now }
      exact .inr ⟨p.state, .navigates _ (hq.submits hs) rfl rfl⟩

theorem command_starts {cmd : Command} (hcmd : cmd.skipsOrPlays = true)
    (h : p.handleCommand cfg m cmd = some p') : Quiet p p' ∨ StartsFrom p p' := by
  cases cmd with
  | play =>
    simp only [handleCommand, playCommand, Option.bind_eq_bind, Option.bind_eq_some_iff] at h
    obtain ⟨origin, -, options, -, h⟩ := h
    obtain ⟨state, hstarts⟩ := loadContext_starts h
    exact .inr ⟨state, hstarts⟩
  | apiPlay =>
    simp only [handleCommand, apiPlay, Option.bind_eq_bind, Option.bind_eq_some_iff] at h
    obtain ⟨skipTo, -, h⟩ := h
    exact .inr ⟨p.state, .navigates _ (Option.some.inj h ▸ submitLoad_submits _ p) rfl rfl⟩
  | skipPrev allowSeeking => exact Option.some.inj h ▸ skipPrev_starts m allowSeeking p
  | skipNext => exact skipNext_starts h
  | _ => simp [Command.skipsOrPlays] at hcmd

theorem commit_starts {c : Commit} (hc : ∀ load stream gen position,
    c ≠ .loaded load stream gen position) (hleads : LeadsOn cfg p c)
    (h : p.commit cfg m c = some p') : StartsFrom p p' := by
  cases c with
  | loaded load stream gen position => exact absurd rfl (hc load stream gen position)
  | resolved =>
    have hstarts := loadCurrentTrack_starts h hleads
    exact ⟨_, hstarts⟩
  | station => exact loadContext_starts h
  | apiPlay =>
    obtain ⟨state, h⟩ := loadContext_starts h
    exact ⟨state, h⟩
  | walked _ work res snap =>
    cases work with
    | skipPrev delay | skipTo track delay =>
      obtain ⟨htracks, hplayable⟩ := hleads
      rw [commit, if_pos htracks] at h
      have hstarts := loadCurrentTrack_starts h hplayable
      exact ⟨_, hstarts⟩
    | advance =>
      obtain ⟨htracks, hgoes⟩ := hleads
      rw [commit, if_pos htracks] at h
      obtain ⟨state, h⟩ := advanceTo_starts (p := (p.updatePlayer fun s =>
        { s with isPaused := !res.hasNextTrack }).publishSnapshot snap) hgoes h
      exact ⟨state, h⟩
    | _ => exact hleads.elim
  | _ => exact hleads.elim

theorem skip_loads {list : ListId} {work : ListWork} {res : Walked} {snap : TrackList.Snapshot}
    (hkeeps : (Work.list list work).keepsPaused = true)
    (hleads : LeadsOn cfg p (.walked list work res snap))
    (h : p.commit cfg m (.walked list work res snap) = some p') :
    ∃ state job load, Submits job { p with state } p' ∧ job.cls = .load ∧ job.run = .load load ∧
      load.k = .log ∧ p'.transport = p.transport.loading p.state.player.isPaused := by
  have hskip (delay : Int) (hplayable : Playable snap.current.uri)
      (h : p.skipLanded m snap delay = some p') :
      ∃ state job load, Submits job { p with state } p' ∧ job.cls = .load ∧ job.run = .load load ∧
        load.k = .log ∧ p'.transport = p.transport.loading p.state.player.isPaused := by
    rcases loadCurrentTrack_cases h with ⟨hno, -⟩ | ⟨-, ht, job, hs, hcls, load, hrun, -, hk⟩
    · exact absurd hplayable hno
    · exact ⟨_, job, load, hs, hcls, hrun, hk, ht⟩
  cases work with
  | skipPrev delay | skipTo track delay =>
    obtain ⟨htracks, hplayable⟩ := hleads
    rw [commit, if_pos htracks] at h
    exact hskip delay hplayable h
  | _ => simp [Work.keepsPaused] at hkeeps

/-! ## Where the load is -/

@[mk_iff clear_iff]
structure Clear (p : AppPlayer) : Prop where
  running : ∀ q, p.worker = .running q → q.run.isLoad = false
  queued : ∀ q ∈ p.loader.queue, q.run.isLoad = false

def Ahead (job : LoaderJob Work) (p : AppPlayer) : Prop :=
  job ∈ p.loader.queue ∨ p.worker = .running job ∧ ∀ q ∈ p.loader.queue, q.run.isLoad = false

def Spent (p : AppPlayer) : Prop := ∀ q ∈ p.jobs, q.cls.loads = true → q.gen ≠ p.loadGen

theorem Clear.idles (hclear : Clear p) (h : Idles op p p') : Clear p' where
  running q hq := hclear.running q (h.worker ▸ hq)
  queued q hq := (h.came q hq).elim (hclear.queued q) id

theorem Ahead.idles (hahead : Ahead job p) (hloads : job.cls.loads = true) (h : Idles op p p') :
    Ahead job p' := by
  rcases hahead with hq | ⟨hworker, hqueue⟩
  · exact .inl (h.stayed job hq hloads)
  · exact .inr ⟨h.worker.trans hworker, fun q hq => (h.came q hq).elim (hqueue q) id⟩

theorem take_queue (hlane : LaneOk p) (h : p.take clock = some p') :
    p.worker = .idle ∧ ∃ loader next, p' = { p with loader, worker := .running next } ∧
      (next :: loader.queue).Perm p.loader.queue := by
  obtain ⟨-, hperm, -, hidle, loader, next, rfl⟩ := take_spec hlane h
  refine ⟨hidle, loader, next, rfl, ?_⟩
  simpa [jobs, Worker.jobs, hidle, List.perm_append_left_iff] using hperm

theorem Clear.take (hclear : Clear p) (hlane : LaneOk p) (h : p.take clock = some p') :
    Clear p' := by
  obtain ⟨-, loader, next, rfl, hperm⟩ := take_queue hlane h
  refine ⟨fun q hq => ?_, fun q hq => ?_⟩
  · obtain rfl := Worker.running.inj hq
    exact hclear.queued _ (hperm.subset List.mem_cons_self)
  · exact hclear.queued q (hperm.subset (List.mem_cons_of_mem _ hq))

theorem Ahead.take (hahead : Ahead job p) (hcls : job.cls = .load) (hlane : LaneOk p)
    (htallied : p.ledger.Tallied) (h : p.take clock = some p') : Ahead job p' := by
  obtain ⟨hidle, loader, next, rfl, hperm⟩ := take_queue hlane h
  rcases hahead with hq | ⟨hworker, -⟩
  · rcases List.mem_cons.mp (hperm.mem_iff.mpr hq) with rfl | hq
    · refine .inr ⟨rfl, fun q hq => Bool.eq_false_iff.mpr fun hload => ?_⟩
      have hmem : q ∈ p.jobs := by
        simp only [jobs, List.mem_append]
        exact .inr (.inr (hperm.subset (List.mem_cons_of_mem _ hq)))
      have hfetches (r : LoaderJob Work) (hr : r.cls = .load) : r.cls.fetches = true := by
        rw [hr]
        rfl
      have hlen : ((job :: loader.queue).filter fun q => q.cls.fetches).length ≤ 1 := by
        rw [(hperm.filter _).length_eq]
        exact hlane.shape.atMostOne
      simp only [List.filter_cons, hfetches job hcls, if_true, List.length_cons] at hlen
      have hpos : 0 < (loader.queue.filter fun q => q.cls.fetches).length :=
        List.length_pos_of_mem
          (List.mem_filter.mpr ⟨hq, hfetches q (htallied.fetch q hmem hload)⟩)
      omega
    · exact .inl hq
  · simp [hidle] at hworker

theorem Clear.deliver (hclear : Clear p) (h : p.deliver = some p') : Clear p' := by
  obtain ⟨res, -, rfl⟩ := deliver_spec h
  exact ⟨fun q hq => by simp at hq, hclear.queued⟩

theorem Ahead.deliver (hahead : Ahead job p) (h : p.deliver = some p') : Ahead job p' := by
  obtain ⟨res, hworker, rfl⟩ := deliver_spec h
  refine hahead.imp id fun hrunning => ?_
  simp [hworker] at hrunning

theorem Clear.finish {a : Answers} (hclear : Clear p) (h : p.finish g a = some p') : Clear p' := by
  obtain ⟨next, commit, lists, -, -, rfl⟩ := finish_spec h
  exact ⟨fun q hq => by simp at hq, hclear.queued⟩

theorem Spent.step (hspent : Spent p) (hlane : LaneOk p) (h : p.step cfg g op = some p')
    (hgen : p'.loadGen = p.loadGen) : Spent p' := by
  obtain ⟨new, hadds⟩ := step_adds hlane h
  intro q hq hloads
  rw [hgen]
  rcases hadds.mem hq with hq | hnew
  · exact hspent q hq hloads
  · have hlt : p.loadGen < p'.loadGen := (hadds.loads q hnew hloads).2
    omega

theorem spent_received {res : LoaderResult} {rest : List LoaderResult} (flight : Bool)
    (hres : p.results = res :: rest) (htallied : p.ledger.Tallied)
    (hloads : res.job.cls.loads = true) (hgen : res.job.gen = p.loadGen) :
    Spent (p.received rest flight) := by
  have hdistinct : p.jobs.Pairwise _ := htallied.distinct
  rw [jobs_received flight hres, List.pairwise_cons] at hdistinct
  intro q hq hq'
  have hne := hdistinct.1 q hq hloads hq'
  rw [hgen] at hne
  exact hne.symm

end AppPlayer

/-! ## What a turn does to the flags -/

def Turn.asks : Turn → Option Bool
  | .loop (.command _ .pause) | .loop (.sleepTimer _) => some true
  | .loop (.command _ .resume) => some false
  | _ => none

def Turn.Works : Turn → Prop
  | .loop (.command m _) | .loop (.event m _) | .loop (.sleepTimer m) => m.Works
  | .loop (.receive m) | .loop (.drain m) => m.Works
  | .loop (.finish a) => a.outputLost = false
  | .outputFailed => False
  | _ => True

namespace Transport

variable {t t' : Transport} {wanted : Option Bool}

structure Keeps (wanted wanted' : Option Bool) (t t' : Transport) : Prop where
  flight : t.InFlight → (∀ b, wanted = some b → t.Shows b) →
    t'.InFlight ∧ ∀ b, wanted' = some b → t'.Shows b
  fetched : ∀ paused, t.InFlight → t.Fetched paused → t'.Fetched paused
  settled : t.Settled → (∀ b, wanted = some b → t.audio.paused = b) →
    t'.Settled ∧ ∀ b, wanted' = some b → t'.audio.paused = b

theorem out_of_stream (h : t.InFlight ∨ t.Settled) (hstream : t.stream.isSome = true) :
    t.audio.out = true := by
  rcases h with h | h
  · simp [h.noStream] at hstream
  · exact h.out

theorem Keeps.of_eq (h : t.InFlight ∨ t.Settled → t' = t) : Keeps wanted wanted t t' where
  flight hflight hshows := (h (.inl hflight)).symm ▸ ⟨hflight, hshows⟩
  fetched _ hflight hfetched := (h (.inl hflight)).symm ▸ hfetched
  settled hsettled hpaused := (h (.inr hsettled)).symm ▸ ⟨hsettled, hpaused⟩

theorem Keeps.of_asked (hdraining : t.draining = [])
    (h : t.InFlight ∨ t.Settled → t' = t.asked paused) : Keeps wanted (some paused) t t' where
  flight hflight _ := by
    rw [h (.inl hflight), hflight.asked]
    refine ⟨⟨hflight.flight, hflight.noStream⟩, ?_⟩
    rintro b ⟨⟩
    exact ⟨rfl, by simp [hdraining]⟩
  fetched x hflight hfetched := by
    rw [h (.inl hflight), hflight.asked]
    exact ⟨hfetched.out, hfetched.flag, hfetched.last⟩
  settled hsettled _ := by
    rw [h (.inr hsettled)]
    refine ⟨settled_asked paused hsettled.stream hsettled.out hsettled.landed hsettled.released, ?_⟩
    rintro b ⟨⟩
    exact asked_paused paused hsettled.stream

theorem Keeps.ended (t : Transport) :
    Keeps wanted wanted t { t with audio := t.audio.raise .notPlaying } := by
  have hlast (evs : List PlayerEvent) (b : Bool) :
      pausedAfter (evs ++ (t.audio.raise .notPlaying).ev) b =
        pausedAfter (evs ++ t.audio.ev) b := by
    rw [Player.ManageLoop.raise, ← List.append_assoc, pausedAfter_append]
    rfl
  refine ⟨fun hflight hshows => ⟨⟨hflight.flight, hflight.noStream⟩, ?_⟩, ?_, ?_⟩
  · intro b hb
    exact ⟨(hshows b hb).isPaused, (hshows b hb).draining⟩
  · intro paused _ hfetched
    exact ⟨hfetched.out, hfetched.flag, fun b => (hlast _ b).trans (hfetched.last b)⟩
  · intro hsettled hpaused
    refine ⟨⟨⟨hsettled.stream, hsettled.out, ?_⟩, hsettled.landed, hsettled.released⟩, hpaused⟩
    have hagrees := hsettled.agrees
    simp only [events, ← List.append_assoc] at hagrees ⊢
    exact (hlast _ _).trans hagrees

variable {ev : PlayerEvent} {rest : List PlayerEvent}

theorem Keeps.held (hev : t.audio.ev = ev :: rest) (hflight : t.loadInFlight = true) :
    Keeps wanted wanted t
      { t with pending := t.pending ++ [ev], audio := { t.audio with ev := rest } } where
  flight h hshows :=
    ⟨⟨h.flight, h.noStream⟩, fun b hb => ⟨(hshows b hb).isPaused, (hshows b hb).draining⟩⟩
  fetched paused _ hfetched := by
    refine ⟨hfetched.out, hfetched.flag, fun b => ?_⟩
    have hlast := hfetched.last b
    rw [hev] at hlast
    simpa using hlast
  settled h := by simp [h.landed] at hflight

theorem Keeps.handled (hev : t.audio.ev = ev :: rest) (hdraining : t.draining = [])
    (hflight : t.loadInFlight = false) :
    Keeps wanted wanted t
      { t with isPaused := ev.paused.getD t.isPaused, audio := { t.audio with ev := rest } } where
  flight h := by simp [h.flight] at hflight
  fetched paused h := by simp [h.flight] at hflight
  settled h hpaused := ⟨h.event hdraining hev, hpaused⟩

theorem Keeps.drained (hdraining : t.draining = ev :: rest) :
    Keeps wanted wanted t
      { t with isPaused := ev.paused.getD t.isPaused, draining := rest } where
  flight h hshows := by
    refine ⟨⟨h.flight, h.noStream⟩, fun b hb => ⟨?_, fun e he => ?_⟩⟩
    · rcases hev : ev.paused with _ | c
      · exact (hshows b hb).isPaused
      · exact (hshows b hb).draining ev (by simp [hdraining]) c hev
    · exact (hshows b hb).draining e (by simp [hdraining, he])
  fetched paused _ hfetched := ⟨hfetched.out, hfetched.flag, hfetched.last⟩
  settled h hpaused := ⟨h.drain hdraining, hpaused⟩

end Transport

structure Watched where
  player : AppPlayer := {}
  wanted : Option Bool := none

namespace AppPlayer

variable {cfg : Config} {g : Rand} {m : Moment} {p p' : AppPlayer} {job : LoaderJob Work}

@[mk_iff still_iff]
structure Still (p : AppPlayer) : Prop where
  stream : p.primaryStream.isSome = true
  out : p.audio.out = true
  landed : p.loadInFlight = false
  released : p.pendingPlayerEvents = []
  clear : Clear p

def Heeds (paused : Bool) (p : AppPlayer) : Work → Prop
  | .load load => paused = true → load.k.resumes = false
  | .list _ (.skipPrev _) | .list _ (.skipTo ..) => p.transport.InFlight ∨ Still p
  | _ => False

end AppPlayer

open AppPlayer (Replaces LeadsOn Pending Heeds)

/-- The output works, the user asks for nothing else than to pause or to go on and does so in time,
no track comes to its end, no event is lost, and what is under way goes well. -/
@[mk_iff calm_iff]
structure Calm (cfg : Config) (w : Watched) (turn : Turn) : Prop where
  works : turn.Works
  alone : ∀ op, turn = .loop op → ¬ Replaces cfg w.player op
  ends : ∀ op ev, turn = .loop op → w.player.handled op = some ev → ev.type ≠ .notPlaying
  fits : ∀ m ev, turn = .loop (.event m ev) → w.player.loadInFlight = true →
    w.player.pendingPlayerEvents.length < AppPlayer.maxPendingPlayerEvents
  timely : ∀ paused, turn.asks = some paused → ∀ job, Pending job w.player →
    job.cls.loads = true → Heeds paused w.player job.run
  fetches : ∀ a job, turn = .loop (.finish a) → w.player.worker = .running job →
    job.gen = w.player.loadGen → job.run.isLoad = true → ∃ stream, a.stream = .ok stream
  lands : ∀ m res rest, turn = .loop (.receive m) → w.player.results = res :: rest →
    res.job.cls.loads = true → res.job.gen = w.player.loadGen →
      LeadsOn cfg w.player res.commit ∧ HasRoom w.player.loader ∧
        (w.wanted ≠ none → res.job.run.isLoad = false → w.player.transport.Caught)

namespace AppPlayer

variable {cfg : Config} {g : Rand} {m : Moment} {p p' : AppPlayer} {job : LoaderJob Work}
  {wanted : Option Bool}

variable {turn : Turn}

theorem turn_asked (h : p.turn cfg g turn = some p')
    (hasks : turn.asks = some paused) (hworks : turn.Works) :
    p.draining = [] ∧ ((p.primaryStream.isSome = true → p.audio.out = true) →
      p'.transport = p.transport.asked paused) := by
  cases turn with
  | ended | outputFailed => simp [Turn.asks] at hasks
  | loop op =>
    cases op with
    | command m cmd =>
      have h : p.step cfg g (.command m cmd) = some p' := h
      refine ⟨draining_of_step rfl h, fun hout => ?_⟩
      have h := handle_of_step rfl h
      cases cmd with
      | pause =>
        cases hasks
        exact Option.some.inj h ▸ pause_transport hworks hout
      | resume =>
        cases hasks
        exact Option.some.inj h ▸ play_transport hworks hout
      | _ => simp [Turn.asks] at hasks
    | sleepTimer m =>
      have h : p.step cfg g (.sleepTimer m) = some p' := h
      cases hasks
      refine ⟨draining_of_step rfl h, fun hout => ?_⟩
      exact Option.some.inj (handle_of_step rfl h) ▸ pause_transport hworks hout
    | _ => simp [Turn.asks] at hasks

theorem command_keeps {cmd : Command} (hm : m.Works) (hcmd : ¬ Replaces cfg p (.command m cmd))
    (hasks : (Turn.loop (.command m cmd)).asks = none) (h : p.handleCommand cfg m cmd = some p') :
    Transport.Keeps wanted wanted p.transport p'.transport := by
  cases cmd with
  | transfer req | play req | apiPlay data => exact absurd trivial hcmd
  | skipPrev allowSeeking | skipNext track | stop => exact absurd trivial hcmd
  | resume | pause => simp [Turn.asks] at hasks
  | seek position =>
    refine .of_eq fun ht => ?_
    exact Option.some.inj h ▸ seek_transport hm (Transport.out_of_stream ht) position
  | setOptions =>
    exact .of_eq fun _ => (idleCommand_aside rfl h).transport
  | setQueue | addToQueue => exact .of_eq fun _ => (idleCommand_aside rfl h).transport
  | setSleepTimer => exact .of_eq fun _ => (idleCommand_aside rfl h).transport

theorem event_keeps {ev : PlayerEvent} {rest : List PlayerEvent} (hev : p.audio.ev = ev :: rest)
    (hdraining : p.draining = []) (hend : p.loadInFlight = false → ev.type ≠ .notPlaying)
    (hfits : p.loadInFlight = true → p.pendingPlayerEvents.length < maxPendingPlayerEvents)
    (h : ({ p with audio.ev := rest } : AppPlayer).receivePlayerEvent cfg m ev = some p') :
    Transport.Keeps wanted wanted p.transport p'.transport := by
  unfold receivePlayerEvent at h
  split at h
  · rename_i hflight
    have hflight : p.loadInFlight = true := hflight
    rw [if_neg (Nat.not_le_of_lt (hfits hflight))] at h
    rw [← Option.some.inj h]
    exact .held hev hflight
  · rename_i hflight
    have hflight : p.loadInFlight = false := Bool.eq_false_iff.mpr hflight
    rw [handlePlayerEvent_transport (hend hflight) h]
    exact .handled hev hdraining hflight

theorem discard_keeps (c : Commit) (p : AppPlayer) :
    Transport.Keeps wanted wanted p.transport (p.discard c).transport := by
  refine .of_eq fun ht => ?_
  unfold discard
  split
  · refine congrArg transport (if_neg ?_)
    rintro ⟨hflight, hstream⟩
    rcases ht with ht | ht
    · exact hflight ht.flight
    · have hsome := ht.stream
      simp only [transport] at hsome
      simp [Option.isNone_iff_eq_none.mp hstream] at hsome
  · rfl

def Passes (p : AppPlayer) : Turn → Prop
  | .loop (.finish _) => False
  | .loop op => ¬ p.ReceivesCurrent op
  | _ => True

theorem turn_keeps (h : p.turn cfg g turn = some p') (hsound : Sound p)
    (htallied : p.ledger.Tallied) (hcalm : Calm cfg ⟨p, wanted⟩ turn) (hpasses : p.Passes turn) :
    Transport.Keeps wanted (turn.asks.or wanted) p.transport p'.transport := by
  have hworks := hcalm.works
  rcases hasks : turn.asks with _ | paused
  case some =>
    obtain ⟨hdraining, hasked⟩ := turn_asked h hasks hworks
    exact .of_asked hdraining fun ht => hasked (Transport.out_of_stream ht)
  cases turn with
  | ended => exact Option.some.inj h ▸ .ended p.transport
  | outputFailed => exact hworks.elim
  | loop op =>
    have hnot := hcalm.alone op rfl
    cases op with
    | command m cmd =>
      have h : p.step cfg g (.command m cmd) = some p' := h
      exact command_keeps hworks hnot hasks (handle_of_step rfl h)
    | event m ev =>
      simp only [turn] at h
      split at h
      · simp at h
      · rename_i next rest hrest
        split at h
        · rename_i heq
          subst heq
          have hdraining : ({ p with audio.ev := rest } : AppPlayer).draining = [] :=
            draining_of_step rfl h
          apply event_keeps hrest hdraining ?_ (hcalm.fits m ev rfl) (handle_of_step rfl h)
          intro hflight
          exact hcalm.ends _ ev rfl (by simp [handled, hflight])
        · simp at h
    | cluster cluster =>
      have h : p.step cfg g (.cluster cluster) = some p' := h
      obtain ⟨timestamp, rfl⟩ := cluster_noted (handle_of_step rfl h) hnot
      exact .of_eq fun _ => rfl
    | prefetchTimer =>
      have h : p.step cfg g .prefetchTimer = some p' := h
      exact .of_eq fun _ => (prefetchNext_aside (handle_of_step rfl h)).transport
    | sleepTimer => simp [Turn.asks] at hasks
    | receive m =>
      have h : p.step cfg g (.receive m) = some p' := h
      have h := handle_of_step rfl h
      simp only [handle] at h
      split at h
      · simp at h
      · rename_i res rest hres
        rcases receive_other hres hsound htallied h hpasses with rfl | ⟨hminor, hgives, h⟩
        · exact discard_keeps res.commit { p with results := rest }
        · exact .of_eq fun _ => (commit_aside hminor hgives h).transport
    | drain m =>
      have h : p.step cfg g (.drain m) = some p' := h
      simp only [step] at h
      split at h
      · simp at h
      · rename_i ev rest hdraining
        have hend := hcalm.ends _ ev rfl (by simp [handled, hdraining])
        rw [handlePlayerEvent_transport hend h]
        exact .drained hdraining
    | take =>
      obtain ⟨-, loader, next, rfl, -⟩ := take_queue hsound.lane h
      exact .of_eq fun _ => rfl
    | finish => exact hpasses.elim
    | deliver =>
      obtain ⟨res, -, rfl⟩ := deliver_spec h
      exact .of_eq fun _ => rfl

theorem turn_step (h : p.turn cfg g turn = some p') :
    (∃ audio, p' = { p with audio }) ∨
      ∃ op audio, turn = .loop op ∧ ({ p with audio } : AppPlayer).step cfg g op = some p' := by
  cases turn with
  | ended => exact .inl ⟨_, (Option.some.inj h).symm⟩
  | outputFailed =>
    simp only [turn] at h
    split at h
    · exact .inl ⟨_, (Option.some.inj h).symm⟩
    · simp at h
  | loop op =>
    right
    cases op with
    | event =>
      simp only [turn] at h
      split at h
      · simp at h
      · split at h
        · exact ⟨_, _, rfl, h⟩
        · simp at h
    | finish =>
      obtain ⟨h, -⟩ := Option.filter_eq_some_iff.mp h
      exact ⟨_, p.audio, rfl, h⟩
    | _ => exact ⟨_, p.audio, rfl, h⟩

structure Onward (turn : Turn) (p p' : AppPlayer) : Prop where
  clear : Clear p → Clear p'
  spent : Spent p → Spent p'
  pending : ∀ job, job.cls.loads = true → Pending job p → Pending job p'
  ahead : (∀ a, turn ≠ .loop (.finish a)) → ∀ job, job.cls = .load → Ahead job p → Ahead job p'

theorem step_onward {op : Op} (h : p.step cfg g op = some p') (hsound : Sound p)
    (htallied : p.ledger.Tallied) (hnot : ¬ Replaces cfg p op)
    (hends : ∀ ev, p.handled op = some ev → ev.type ≠ .notPlaying)
    (hother : ¬ p.ReceivesCurrent op) : Onward (.loop op) p p' := by
  have hstays : ∀ ev, p.handled op = some ev → ¬ GoesOnAfter cfg ev p :=
    fun ev hev hgoes => hends ev hev hgoes.1
  have hgen := step_loadGen h hsound htallied hnot hstays hother
  have hspent (hp : Spent p) : Spent p' := hp.step hsound.lane h hgen
  have hpending (job : LoaderJob Work) (hloads : job.cls.loads = true) (hp : Pending job p) :
      Pending job p' := by
    refine (step_pending h ⟨hsound, htallied, hp⟩ hloads fun _ => ⟨hnot, hstays⟩).resolve_left ?_
    intro hcommits
    cases op with
    | receive =>
      obtain ⟨res, rest, hres, rfl, -⟩ := hcommits
      exact hother ⟨res, rest, hres, hloads, hp.2⟩
    | _ => exact hcommits
  cases hlane : op.isLane with
  | false =>
    have hidles := step_idles h hlane hgen
    refine ⟨fun hp => hp.idles hidles, hspent, hpending, fun _ job hcls hp => ?_⟩
    exact hp.idles (by simp [hcls, LoaderClass.loads]) hidles
  | true =>
    cases op with
    | take =>
      exact ⟨fun hp => hp.take hsound.lane h, hspent, hpending,
        fun _ job hcls hp => hp.take hcls hsound.lane htallied h⟩
    | deliver => exact ⟨fun hp => hp.deliver h, hspent, hpending, fun _ job _ hp => hp.deliver h⟩
    | finish a => exact ⟨fun hp => hp.finish h, hspent, hpending, fun hop => absurd rfl (hop a)⟩
    | _ => simp [Op.isLane] at hlane

theorem turn_onward (h : p.turn cfg g turn = some p') (hsound : Sound p)
    (htallied : p.ledger.Tallied) (hcalm : Calm cfg ⟨p, wanted⟩ turn)
    (hother : ∀ op, turn = .loop op → ¬ p.ReceivesCurrent op) : Onward turn p p' := by
  rcases turn_step h with ⟨audio, rfl⟩ | ⟨op, audio, rfl, hstep⟩
  · exact ⟨fun hp => ⟨hp.running, hp.queued⟩, id, fun _ _ => id, fun _ _ _ => id⟩
  · have honward := step_onward hstep (hsound.retouch rfl) htallied (hcalm.alone op rfl)
      (fun ev => hcalm.ends op ev rfl) (hother op rfl)
    exact ⟨fun hp => honward.clear ⟨hp.running, hp.queued⟩, honward.spent, honward.pending,
      honward.ahead⟩

theorem turn_sound (h : p.turn cfg g turn = some p') (hsound : Sound p) : Sound p' := by
  rcases turn_step h with ⟨audio, rfl⟩ | ⟨op, audio, -, hstep⟩
  · exact hsound.retouch rfl
  · have hq : Sound ({ p with audio } : AppPlayer) := hsound.retouch rfl
    exact step_sound hq hstep

theorem turn_tallied (h : p.turn cfg g turn = some p') (hsound : Sound p)
    (htallied : p.ledger.Tallied) : p'.ledger.Tallied := by
  rcases turn_step h with ⟨audio, rfl⟩ | ⟨op, audio, -, hstep⟩
  · exact htallied
  · have hq : Sound ({ p with audio } : AppPlayer) := hsound.retouch rfl
    exact step_tallied hq.lane htallied hstep

end AppPlayer

end Librespot.Daemon
