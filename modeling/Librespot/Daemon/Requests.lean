import Librespot.Daemon.Ledger
import Librespot.Daemon.LoadInFlight

/-!
# What becomes of a request to play

A play hands a job to the lane that resolves the context. Its result counts as long as the load
counter has not moved on. That also happens when the track that still plays comes to its end:
nothing holds that event back while a context is resolved.
-/

open Base.Run
open Librespot.Tracks List Option

namespace Librespot.Daemon

def Work.requests : Work → Bool
  | .resolve _ | .apiPlay _ => true
  | _ => false

theorem Work.not_minor {work : Work} (h : work.requests = true) : ¬ work.Minor := by
  cases work with
  | resolve job | apiPlay data => exact id
  | _ => simp [Work.requests] at h

def Command.isIdle : Command → Bool
  | .setOptions .. | .setQueue _ | .addToQueue _ | .setSleepTimer _ => true
  | _ => false

namespace AppPlayer

variable {cfg : Config} {g : Rand} {m : Moment} {p p' : AppPlayer} {job : LoaderJob Work} {op : Op}

def Pending (job : LoaderJob Work) (p : AppPlayer) : Prop := job ∈ p.jobs ∧ job.gen = p.loadGen

def CommitsJob (job : LoaderJob Work) (p : AppPlayer) : Op → Prop
  | .receive _ => ∃ res rest, p.results = res :: rest ∧ res.job = job ∧ p.stale job = false
  | _ => False

def Replaces (cfg : Config) (p : AppPlayer) : Op → Prop
  | .command _ (.play _) | .command _ (.apiPlay _) | .command _ (.transfer _) => True
  | .command _ (.skipPrev _) | .command _ (.skipNext _) | .command _ .stop => True
  | .cluster cluster => p.TakenOver cfg cluster
  | _ => False

def handled (p : AppPlayer) : Op → Option PlayerEvent
  | .event _ ev => if p.loadInFlight then none else some ev
  | .drain _ => p.draining.head?
  | _ => none

def repeatsTrack (p : AppPlayer) : Bool :=
  (p.state.player.options.map ContextPlayerOptions.repeatingTrack).getD false

/-- The event makes the player go on to a track: the next one of its list, or the one it repeats or
has alone, if that is one it can load. -/
def GoesOnAfter (cfg : Config) (ev : PlayerEvent) (p : AppPlayer) : Prop :=
  ev.type = .notPlaying ∧ p.sleepAtEndOfTrack = false ∧
    if p.state.tracks = none then
      p.autoplays cfg = false ∧ Playable p.state.player.trackUri
    else p.repeatsTrack = true → Playable p.state.player.trackUri

/-- As long as the job is outstanding, the user asks for nothing else and no track comes to an end
that the player goes on after. -/
def Undisturbed (cfg : Config) (job : LoaderJob Work) (p : AppPlayer) (op : Op) : Prop :=
  job ∈ p.jobs → ¬ Replaces cfg p op ∧ ∀ ev, p.handled op = some ev → ¬ GoesOnAfter cfg ev p

/-! ## What leaves playback alone -/

structure Aside (p p' : AppPlayer) : Prop where
  loadGen : p'.loadGen = p.loadGen
  transport : p'.transport = p.transport

theorem Aside.refl (p : AppPlayer) : Aside p p := ⟨rfl, rfl⟩

theorem submitPrefetch_aside {uri : String} (h : p.submitPrefetch uri = some p') : Aside p p' := by
  unfold submitPrefetch at h
  split at h
  · exact some.inj h ▸ .refl p
  · simp only [run_eq_some] at h
    obtain ⟨res, -, h⟩ := h
    cases res with
    | error => exact some.inj h ▸ .refl p
    | ok =>
      simp only at h
      split at h
      · exact some.inj h ▸ .refl p
      · exact some.inj h ▸ ⟨rfl, rfl⟩

theorem prefetchNext_aside (h : p.prefetchNext = some p') : Aside p p' := by
  simp only [prefetchNext, run_eq_some] at h
  obtain ⟨options, -, h⟩ := h
  split at h
  · exact submitPrefetch_aside h
  · split at h
    · exact some.inj h ▸ .refl p
    · exact some.inj h ▸ ⟨rfl, rfl⟩

theorem setQueue_aside (next : Option (List ContextTrack)) (p : AppPlayer) :
    Aside p (p.setQueue next) := by
  unfold setQueue
  split <;> exact ⟨rfl, rfl⟩

theorem addToQueue_aside (track : ContextTrack) (p : AppPlayer) : Aside p (p.addToQueue track) := by
  unfold addToQueue
  split
  · exact .refl p
  · split <;> exact ⟨rfl, rfl⟩

theorem setOptions_aside {repeatingContext repeatingTrack shuffle : Option Bool}
    (h : p.setOptions repeatingContext repeatingTrack shuffle = some p') : Aside p p' := by
  unfold setOptions at h
  split at h
  · split at h
    · simp at h
    · exact some.inj h ▸ .refl p
  · simp only at h
    split at h
    · exact some.inj h ▸ ⟨rfl, rfl⟩
    · rw [← some.inj h]
      split <;> exact ⟨rfl, rfl⟩

theorem listFailed_aside {list : ListId} {work : ListWork} {err : LoadErr}
    (hminor : (Work.list list work).Minor) (h : p.listFailed m work err = some p') :
    Aside p p' := by
  cases work with
  | shuffle =>
    obtain ⟨options, -, h⟩ := bind_eq_some_iff.mp h
    exact some.inj h ▸ ⟨rfl, rfl⟩
  | peekNext | addToQueue track | setQueue next => exact some.inj h ▸ .refl p
  | skipPrev delay | skipTo track delay | advance repeatingContext drop delay k =>
    exact hminor.elim

theorem listWalked_aside {list : ListId} {work : ListWork} {res : Walked}
    {snap : TrackList.Snapshot} (hminor : (Work.list list work).Minor)
    (h : p.listWalked cfg m work res snap = some p') : Aside p p' := by
  cases work with
  | peekNext => exact submitPrefetch_aside h
  | shuffle val | addToQueue track | setQueue next => exact some.inj h ▸ ⟨rfl, rfl⟩
  | skipPrev delay | skipTo track delay | advance repeatingContext drop delay k =>
    exact hminor.elim

theorem commit_aside {work : Work} {c : Commit} (hminor : work.Minor) (hgives : work.Gives c)
    (h : p.commit cfg m c = some p') : Aside p p' := by
  cases hgives with
  | unfetched => exact some.inj h ▸ .refl p
  | prefetched => exact some.inj h ▸ ⟨rfl, rfl⟩
  | walkFailed => exact listFailed_aside hminor h
  | walked =>
    simp only [commit] at h
    split at h
    · exact listWalked_aside hminor h
    · exact listFailed_aside hminor h
  | _ => exact hminor.elim

theorem idleCommand_aside {cmd : Command} (hcmd : cmd.isIdle = true)
    (h : p.handleCommand cfg m cmd = some p') : Aside p p' := by
  cases cmd with
  | setOptions =>
    obtain ⟨q, hq, h⟩ := bind_eq_some_iff.mp h
    have hset := setOptions_aside hq
    rw [← some.inj h]
    split
    · exact ⟨hset.loadGen, hset.transport⟩
    · exact hset
  | setQueue next => exact some.inj h ▸ setQueue_aside next p
  | addToQueue track => exact some.inj h ▸ addToQueue_aside track p
  | setSleepTimer => exact some.inj h ▸ ⟨rfl, rfl⟩
  | _ => simp [Command.isIdle] at hcmd

/-! ## What leaves the load counter alone -/

theorem advanceNext_loadGen {drop : Bool} {delay : Int} {k : Then}
    (h : p.advanceNext cfg m false drop delay k = some p') (hno : ¬ if p.state.tracks = none then
        p.autoplays cfg = false ∧ Playable p.state.player.trackUri
      else p.repeatsTrack = true → Playable p.state.player.trackUri) : p'.loadGen = p.loadGen := by
  simp only [advanceNext] at h
  split at h
  · rename_i htracks
    rw [if_pos htracks] at hno
    rcases advanceTo_cases h with ⟨-, hq⟩ | ⟨hgoes, -⟩
    · exact hq.loadGen
    · simp only [GoesOn, true_and, ne_eq, not_true_eq_false] at hgoes
      split at hgoes
      · exact hgoes.elim
      · rename_i hauto
        exact absurd ⟨by simpa using hauto, hgoes⟩ hno
  · rename_i list htracks
    rw [if_neg (by simp [htracks])] at hno
    simp only [run_eq_some] at h
    obtain ⟨options, hoptions, h⟩ := h
    have hrepeats : p.repeatsTrack = options.repeatingTrack := by simp [repeatsTrack, hoptions]
    obtain ⟨hrepeat, hplayable⟩ := Classical.not_imp.mp hno
    rw [hrepeats] at hrepeat
    rw [if_pos ⟨by simp, hrepeat⟩] at h
    rcases advanceTo_cases h with ⟨-, hq⟩ | ⟨hgoes, -⟩
    · exact hq.loadGen
    · simp only [GoesOn, Bool.true_eq_false, false_and, if_false] at hgoes
      exact absurd hgoes hplayable

theorem handlePlayerEvent_loadGen {ev : PlayerEvent} (h : p.handlePlayerEvent cfg m ev = some p')
    (hno : ¬ GoesOnAfter cfg ev p) : p'.loadGen = p.loadGen := by
  have hchanged (paused : Bool) (h : p.playbackChanged paused = some p') :
      p'.loadGen = p.loadGen := by
    rw [emitMprisUpdate_eq h]
    rfl
  unfold handlePlayerEvent at h
  split at h
  · exact hchanged false h
  · exact hchanged false h
  · exact hchanged true h
  · rename_i hev
    split at h
    · rw [← some.inj h]
      exact (pause_quiet m _).loadGen
    · rename_i hsleep
      apply advanceNext_loadGen h
      intro hgoes
      exact hno ⟨hev, by simpa using hsleep, hgoes⟩
  · rw [emitMprisUpdate_eq h]

theorem command_loadGen {cmd : Command} (h : p.handleCommand cfg m cmd = some p')
    (hcmd : ¬ Replaces cfg p (.command m cmd)) : p'.loadGen = p.loadGen := by
  cases cmd with
  | transfer req | play req | apiPlay data => exact absurd trivial hcmd
  | skipPrev allowSeeking | skipNext track | stop => exact absurd trivial hcmd
  | resume => exact some.inj h ▸ (play_quiet m p).loadGen
  | pause => exact some.inj h ▸ (pause_quiet m p).loadGen
  | seek position => exact some.inj h ▸ (seek_quiet m position p).loadGen
  | setOptions | setQueue | addToQueue | setSleepTimer => exact (idleCommand_aside rfl h).loadGen

def ReceivesCurrent (p : AppPlayer) : Op → Prop
  | .receive _ => ∃ res rest, p.results = res :: rest ∧ res.job.cls.loads = true ∧
      res.job.gen = p.loadGen
  | _ => False

theorem receive_other {res : LoaderResult} {rest : List LoaderResult}
    (hres : p.results = res :: rest) (hsound : Sound p) (htallied : p.ledger.Tallied)
    (h : { p with results := rest }.applyLoaderResult cfg m res = some p')
    (hother : ¬ p.ReceivesCurrent (.receive m)) :
    p' = ({ p with results := rest } : AppPlayer).discard res.commit ∨
      res.job.run.Minor ∧ res.job.run.Gives res.commit ∧
        ({ p with results := rest } : AppPlayer).commit cfg m res.commit = some p' := by
  have hmem : res.job ∈ p.jobs := by simp [jobs, hres]
  unfold applyLoaderResult at h
  cases hcls : res.job.cls.loads with
  | true =>
    have hgen : res.job.gen ≠ p.loadGen := fun hgen => hother ⟨res, rest, hres, hcls, hgen⟩
    have hstale : ({ p with results := rest } : AppPlayer).stale res.job = true :=
      (stale_of_loads hcls).mpr hgen
    rw [if_neg fun hload => hgen hload.2, if_pos hstale] at h
    exact .inl (some.inj h).symm
  | false =>
    have hnot : res.job.cls ≠ .load := by
      intro hload
      simp [hload, LoaderClass.loads] at hcls
    rw [if_neg fun hload => hnot hload.1] at h
    split at h
    · exact .inl (some.inj h).symm
    · exact .inr ⟨htallied.minor _ hmem hcls, hsound.gives res (by simp [finished, hres]), h⟩

theorem step_loadGen (h : p.step cfg g op = some p') (hsound : Sound p)
    (htallied : p.ledger.Tallied) (hnot : ¬ Replaces cfg p op)
    (hends : ∀ ev, p.handled op = some ev → ¬ GoesOnAfter cfg ev p)
    (hother : ¬ p.ReceivesCurrent op) : p'.loadGen = p.loadGen := by
  cases op with
  | command => exact command_loadGen (handle_of_step rfl h) hnot
  | cluster =>
    obtain ⟨timestamp, rfl⟩ := cluster_noted (handle_of_step rfl h) hnot
    rfl
  | event _ ev =>
    have h := handle_of_step rfl h
    simp only [handle, receivePlayerEvent] at h
    split at h
    · split at h <;> rw [← some.inj h]
    · rename_i hflight
      exact handlePlayerEvent_loadGen h (hends ev (by simp [handled, hflight]))
  | drain =>
    simp only [step] at h
    split at h
    · simp at h
    · rename_i ev draining hdraining
      have hno : ¬ GoesOnAfter cfg ev { p with draining } := hends ev (by simp [handled, hdraining])
      exact handlePlayerEvent_loadGen (p := { p with draining }) h hno
  | prefetchTimer => exact (prefetchNext_aside (handle_of_step rfl h)).loadGen
  | sleepTimer m => exact some.inj (handle_of_step rfl h) ▸ (pause_quiet m p).loadGen
  | receive =>
    have h := handle_of_step rfl h
    simp only [handle] at h
    split at h
    · simp at h
    · rename_i res rest hres
      rcases receive_other hres hsound htallied h hother with rfl | ⟨hminor, hgives, h⟩
      · exact (discard_quiet res.commit _).loadGen
      · have hgen : p'.loadGen = ({ p with results := rest } : AppPlayer).loadGen :=
          (commit_aside hminor hgives h).loadGen
        exact hgen
  | take clock | finish a | deliver => exact lane_loadGen rfl h

structure Waiting (job : LoaderJob Work) (p : AppPlayer) : Prop where
  sound : Sound p
  tallied : p.ledger.Tallied
  pending : Pending job p

theorem Waiting.loads (hw : Waiting job p) (hjob : job.run.requests = true) :
    job.cls.loads = true := by
  by_contra hne
  exact Work.not_minor hjob (hw.tallied.minor job hw.pending.1 (by simpa using hne))

theorem Waiting.commits (hw : Waiting job p) (hloads : job.cls.loads = true)
    (h : p.ReceivesCurrent op) : CommitsJob job p op := by
  cases op with
  | receive =>
    obtain ⟨res, rest, hres, hcls, hgen⟩ := h
    have hmem : res.job ∈ p.jobs := by simp [jobs, hres]
    have heq : res.job = job :=
      hw.tallied.eq_of_gen hmem hw.pending.1 hcls hloads (hgen.trans hw.pending.2.symm)
    refine ⟨res, rest, hres, heq, ?_⟩
    have := (stale_of_loads (p := p) hloads).not.mpr (by simp [hw.pending.2])
    simpa using this
  | _ => exact h.elim

theorem step_pending (h : p.step cfg g op = some p') (hw : Waiting job p)
    (hloads : job.cls.loads = true) (hop : Undisturbed cfg job p op) :
    CommitsJob job p op ∨ Pending job p' := by
  by_cases hlands : p.ReceivesCurrent op
  · exact .inl (hw.commits hloads hlands)
  right
  obtain ⟨hnot, hends⟩ := hop hw.pending.1
  have hgen := step_loadGen h hw.sound hw.tallied hnot hends hlands
  refine ⟨?_, hw.pending.2.trans hgen.symm⟩
  cases hlane : op.isLane with
  | true =>
    exact (lane_jobs hlane hw.sound.lane h).mem_iff.mpr hw.pending.1
  | false =>
    have hidles := step_idles h hlane hgen
    have hmem := hw.pending.1
    simp only [jobs, hidles.worker, hidles.results, mem_append] at hmem ⊢
    refine hmem.imp ?_ (Or.imp_right fun hq => hidles.stayed job hq hloads)
    intro hres
    cases op with
    | receive =>
      rcases hresults : p.results with _ | ⟨res, rest⟩
      · simp [hresults] at hres
      · simp only [hresults, map_cons, mem_cons] at hres
        refine hres.resolve_left fun heq => hlands ⟨res, rest, hresults, ?_, ?_⟩
        · exact heq ▸ hloads
        · exact heq ▸ hw.pending.2
    | _ => exact hres

theorem step_waiting (h : p.step cfg g op = some p') (hw : Waiting job p)
    (hjob : job.run.requests = true) (hop : Undisturbed cfg job p op) :
    CommitsJob job p op ∨ Waiting job p' := by
  refine (step_pending h hw (hw.loads hjob) hop).imp_right fun hpending => ?_
  exact ⟨step_sound hw.sound h, step_tallied hw.sound.lane hw.tallied h, hpending⟩

theorem reachable_tallied {ops : List Op} (h : exec (step cfg g) {} ops = some p) :
    p.ledger.Tallied := by
  refine (exec_invariant (I := fun p => Sound p ∧ p.ledger.Tallied) ?_ ⟨sound_new, tallied_new⟩ h).2
  intro p op p' hp hstep
  exact ⟨step_sound hp.1 hstep, step_tallied hp.1.lane hp.2 hstep⟩

theorem waiting_of_new {before : List Op} (hp : exec (step cfg g) {} before = some p)
    (h : p.step cfg g op = some p') (hnew : job ∉ p.jobs) (hmem : job ∈ p'.jobs)
    (hjob : job.run.requests = true) : Waiting job p' := by
  have hsound := reachable_sound hp
  have htallied := step_tallied hsound.lane (reachable_tallied hp) h
  obtain ⟨new, hadds⟩ := step_adds hsound.lane h
  have hsome := (hadds.mem hmem).resolve_left hnew
  refine ⟨step_sound hsound h, htallied, hmem, ?_⟩
  by_cases hloads : job.cls.loads = true
  · exact (hadds.loads job hsome hloads).1
  · exact absurd (htallied.minor job hmem (by simpa using hloads)) (Work.not_minor hjob)

/-- From the step that has handed the job of a request to the lane, the job stays outstanding and
current until its result is committed, as long as nothing disturbs it. -/
theorem request_until_committed (cfg : Config) (g : Rand) (before after : List Op) (op : Op)
    (job : LoaderJob Work) {p p' : AppPlayer} (hp : exec (step cfg g) {} before = some p)
    (h : p.step cfg g op = some p') (hnew : job ∉ p.jobs) (hmem : job ∈ p'.jobs)
    (hjob : job.run.requests = true) (hafter : Meets (step cfg g) (Undisturbed cfg job) p' after) :
    Until (step cfg g) (Pending job) (CommitsJob job) p' after := by
  have hstep : ∀ (p : AppPlayer) (op : Op) (p' : AppPlayer), Waiting job p →
      Undisturbed cfg job p op → p.step cfg g op = some p' →
      CommitsJob job p op ∨ Waiting job p' :=
    fun _ _ _ hw hop h => step_waiting h hw hjob hop
  have huntil := until_of_meets hstep (waiting_of_new hp h hnew hmem hjob) hafter
  exact huntil.imp fun p hw => hw.pending

def knownStream : Stream where
  tag := 1
  requestedId := { typ := "track", id := [] }
  mediaId := { typ := "track", id := [] }
  duration := 180000

def playingRun : List Op :=
  playRun [knownTrack, knownTrack] ++
    roundTrip 0 { served [knownTrack, knownTrack] with stream := .ok knownStream, streamGen := 1 }

def ownStream : Stream :=
  { knownStream with
    requestedId := { typ := "track", id := [0, 0, 0, 0, 0, 0, 0, 0, 0, 0, 0, 0, 0, 0, 0, 1] }
    named := by decide +kernel }

def queuedTrack : Op := .command { now := 0 } (.addToQueue knownTrack)

def nextContext : Op := .command { now := 0 } (.play { context := {} })

def unhurriedRun : List Op :=
  let answers := served [knownTrack, knownTrack]
  playingRun ++ queuedTrack :: roundTrip 0 answers ++ nextContext :: roundTrip 0 answers

def askedFor : Op := .command { now := 1000 } (.play { context := { uri := "spotify:album:next" } })

def trackEnd : Op := .event { now := 2000 } { type := .notPlaying, streamGen := 1 }

theorem askedFor_new : ∃ p p' job, exec (step here drawZero) {} playingRun = some p ∧
    p.step here drawZero askedFor = some p' ∧ job ∉ p.jobs ∧ job ∈ p'.jobs ∧
    job.run.requests = true ∧
    (p'.step here drawZero trackEnd).map loadGen = some (job.gen + 1) := by
  refine ⟨Option.get _ (by decide +kernel), Option.get _ (by decide +kernel),
    head _ (by decide +kernel), exec_get _, (some_get _).symm, fun hjob => ?_, head_mem _,
    by decide +kernel, by decide +kernel⟩
  exact (eq_nil_iff_forall_not_mem.mp (by decide +kernel) _ hjob).elim

theorem request_lost_at_track_end : ∃ p p' job, exec (step here drawZero) {} playingRun = some p ∧
    p.step here drawZero askedFor = some p' ∧ job ∉ p.jobs ∧ job ∈ p'.jobs ∧
    job.run.requests = true ∧ ¬ Replaces here p' trackEnd ∧
    ¬ Until (step here drawZero) (Pending job) (CommitsJob job) p' [trackEnd] := by
  obtain ⟨p, p', job, hp, hp', hnew, hmem, hjob, hend⟩ := askedFor_new
  refine ⟨p, p', job, hp, hp', hnew, hmem, hjob, id, ?_⟩
  rintro ⟨-, h⟩
  obtain ⟨q, hq, hgen⟩ := map_eq_some_iff.mp hend
  rcases h q hq with hcommits | hpending
  · exact hcommits
  · have := hpending.2
    omega

theorem request_until_committed_playingRun : ∃ p p' job,
    exec (step here drawZero) {} playingRun = some p ∧ p.step here drawZero askedFor = some p' ∧
    job ∈ p'.jobs ∧ Until (step here drawZero) (Pending job) (CommitsJob job) p'
      (.command { now := 2000 } .pause :: roundTrip 2000 (served [knownTrack])) := by
  obtain ⟨p, p', job, hp, hp', hnew, hmem, hjob, -⟩ := askedFor_new
  have hlane (p : AppPlayer) (op : Op) (hop : Replaces here p op → False)
      (hev : p.handled op = none) : Undisturbed here job p op := by
    refine fun _ => ⟨hop, fun ev h => ?_⟩
    simp [hev] at h
  refine ⟨p, p', job, hp, hp', hmem,
    request_until_committed here drawZero _ _ _ job hp hp' hnew hmem hjob ?_⟩
  exact fun _ _ => ⟨hlane _ _ id rfl, fun _ _ => ⟨hlane _ _ id rfl, fun _ _ => ⟨hlane _ _ id rfl,
    fun _ _ => ⟨hlane _ _ id rfl, fun _ _ => ⟨hlane _ _ id rfl, trivial⟩⟩⟩⟩⟩

end AppPlayer

end Librespot.Daemon
