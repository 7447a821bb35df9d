import Librespot.Daemon.Unrun
import Librespot.Tracks.Accessors

/-!
# A burst of skips

Next and previous are pressed any number of times while the lane works on the steps, on the
loads they end in and on their results.
-/

open Base.Run
open Librespot.Tracks
open Librespot.Daemon.LoaderLane (kept accepts)

namespace Librespot.Daemon

open AppPlayer

open LoaderLane

/-! ## Steps on the list -/

inductive Skip
  | next
  | prev
deriving DecidableEq, Repr

namespace Skip

/-- `GoPrev`, or `GoNext` and at the end of the context `GoStart`. Both are followed by a snapshot,
which can fetch pages. -/
def perform (a : Answers) (list : TrackList) : Skip → Option TrackList
  | .next => do
    let (hasNextTrack, list) ← list.goNext (a.pages 0)
    let list := if hasNextTrack then list else (list.goStart (a.pages 1)).2
    (list.snapshot (a.pages 2) none).map Prod.snd
  | .prev => do
    let (_, list) ← list.goPrev
    (list.snapshot (a.pages 2) none).map Prod.snd

def performAll (list : TrackList) (walked : List (Skip × Answers)) : Option TrackList :=
  walked.foldlM (fun list step => step.1.perform step.2 list) list

theorem performAll_concat (list : TrackList) (walked : List (Skip × Answers)) (skip : Skip)
    (a : Answers) :
    performAll list (walked ++ [(skip, a)]) = (performAll list walked).bind (skip.perform a) := by
  simp [performAll, List.foldlM_append]

end Skip

def ListWork.skip : ListWork → Option Skip
  | .advance .. => some .next
  | .skipPrev _ => some .prev
  | _ => none

def Work.skip (id : ListId) : Work → Option Skip
  | .list id' work => if id' = id then work.skip else none
  | _ => none

variable {skip : Skip} {id : ListId}

theorem Work.skip_eq_some {work : Work} (h : work.skip id = some skip) :
    ∃ walk, work = .list id walk ∧ walk.skip = some skip := by
  cases work with
  | list _ walk =>
    simp only [Work.skip, Option.ite_none_right_eq_some] at h
    exact ⟨walk, by rw [h.1], h.2⟩
  | _ => simp [Work.skip] at h

variable {work : ListWork} {a : Answers} {snap : TrackList.Snapshot}

theorem ListWork.cls_of_skip (h : work.skip = some skip) : work.cls = .nav := by
  cases work <;> simp_all [ListWork.skip, ListWork.cls]

theorem ListWork.walk_skip {g : Rand} {list list' : TrackList} {err : Option Err} {res : Walked}
    (hskip : work.skip = some skip) (h : work.walk g a list = some (err, res, list')) :
    err = none ∧ work.nextHint = none ∧
      skip.perform a list = (list'.snapshot (a.pages 2) none).map Prod.snd := by
  cases walks_of_walk h with
  | wentBack hprev =>
    obtain rfl : Skip.prev = skip := Option.some.inj hskip
    exact ⟨rfl, rfl, by simp [Skip.perform, hprev]⟩
  | advanced hnext | wrapped hnext =>
    obtain rfl : Skip.next = skip := Option.some.inj hskip
    exact ⟨rfl, rfl, by simp [Skip.perform, hnext]⟩
  | _ => simp [ListWork.skip] at hskip

theorem runWork_skip {g : Rand} {lists lists' : List TrackList} {commit : Commit}
    (hv : ∀ l ∈ lists, l.tracks.Valid) (hskip : work.skip = some skip)
    (h : runWork g a lists (.list id work) = some (commit, lists')) :
    ∃ list list' res snap, lists[id]? = some list ∧ skip.perform a list = some list' ∧
      lists'[id]? = some list' ∧ commit = .walked id work res snap ∧
      list'.currentTrack = some snap.current := by
  simp only [runWork, Option.bind_eq_bind, Option.bind_eq_some_iff, Prod.exists] at h
  obtain ⟨list, hid, err, res, walked, hwalk, h⟩ := h
  obtain ⟨rfl, hhint, hperform⟩ := ListWork.walk_skip hskip hwalk
  simp only [hhint, Option.bind_eq_some_iff, Prod.exists, Option.some.injEq, Prod.mk.injEq] at h
  obtain ⟨snap, last, hsnap, rfl, rfl⟩ := h
  have hvalid := (walk_flag (hv list (List.mem_of_getElem? hid)) hwalk).1
  refine ⟨list, last, res, snap, hid, by rw [hperform, hsnap]; rfl, ?_, rfl,
    (TrackList.snapshot_fetched hvalid hsnap).2⟩
  exact List.getElem?_set_self (List.getElem?_eq_some_iff.mp hid).1

structure SkipBurst where
  player : AppPlayer
  id : ListId
  start : TrackList
  pressed : List (Nat × Skip) := []
  walked : List (Skip × Answers) := []

def Commit.fails : Commit → Bool
  | .call .. | .walkFailed .. => true
  | _ => false

namespace AppPlayer

def press : Op → Option Skip
  | .command _ (.skipNext none) => some .next
  | .command _ (.skipPrev _) => some .prev
  | _ => none

def makes (id : ListId) (p : AppPlayer) : Op → Option (Skip × Answers)
  | .finish a => p.worker.toRun.head?.bind fun job => (job.run.skip id).map fun skip => (skip, a)
  | _ => none

def toMake (id : ListId) (p : AppPlayer) : List Skip :=
  (kept p.unrun).filterMap fun job => job.run.skip id

def shown (id : ListId) (p : AppPlayer) : Option ProvidedTrack :=
  p.lists[id]?.bind TrackList.currentTrack

def Publishes (id : ListId) (spotId : SpotifyId) (p : AppPlayer) : Prop :=
  ∃ track, p.shown id = some track ∧ p.state.player.track = some track ∧
    spotifyIdFromUri track.uri = some (.ok spotId)

structure Ready (p : AppPlayer) : Prop where
  jobs : ∀ q ∈ p.jobs, (∃ load, q.run = .load load) ∨ ∃ spotId, q.run = .prefetch spotId
  results : ∀ res ∈ p.finished, res.commit.fails = false

end AppPlayer

namespace SkipBurst

def step (cfg : Config) (g : Rand) (s : SkipBurst) (op : Op) : Option SkipBurst :=
  (s.player.step cfg g op).map fun player =>
    { s with
      player
      pressed := s.pressed ++ ((AppPlayer.press op).map fun skip => (player.loadGen, skip)).toList
      walked := s.walked ++ (s.player.makes s.id op).toList }

/-- Skips that the lane has room for, the lane's progress and its results, and events of the audio
player other than the end of a stream. Loads succeed: every track that a step comes to can be asked
for, and the stream that is fetched is one of it. No step ends in an autoplay station. -/
def Fair (cfg : Config) (s : SkipBurst) : Op → Prop
  | .command _ (.skipNext none) => (kept s.player.loader.queue).length < loaderQueueSize
  | .command m (.skipPrev allowSeeking) =>
    (kept s.player.loader.queue).length < loaderQueueSize ∧
      ¬ (allowSeeking ∧ ¬ s.player.loadInFlight ∧ m.positionMs > 3000)
  | .take _ | .deliver => True
  | .finish a => ∀ job load, s.player.worker = .running job → job.run = .load load →
    ∃ stream, a.stream = .ok stream ∧ stream.is load.spotId = true
  | .receive _ => ∀ res ∈ s.player.results.head?, s.player.stale res.job = false →
    ∀ id work walked snap, res.commit = .walked id work walked snap →
      Playable snap.current.uri ∧
        (work.skip = some .next → walked.hasNextTrack = true ∨ s.player.autoplays cfg = false)
  | .event _ ev => ev.type ≠ .notPlaying
  | .drain _ => ∀ ev ∈ s.player.draining.head?, ev.type ≠ .notPlaying
  | _ => False

def Superseded (s : SkipBurst) (job : LoaderJob Work) : Prop :=
  ∃ later ∈ s.pressed, job.gen < later.1

structure Good (cfg : Config) (g : Rand) (s : SkipBurst) : Prop where
  list : s.player.lists[s.id]? = Skip.performAll s.start s.walked
  order : s.walked.map Prod.fst ++ s.player.toMake s.id = s.pressed.map Prod.snd
  made : s.player.jobs = [] → s.walked.map Prod.fst = s.pressed.map Prod.snd
  superseded : ∀ m s' res rest, s.player.results = res :: rest → s.Superseded res.job →
    (res.job.run.skip s.id).isSome = true → s.step cfg g (.receive m) = some s' →
    s'.player.plan = { s.player.plan with results := rest }
  landed : s.player.jobs = [] → s.pressed ≠ [] → ∃ spotId stream,
    s.player.Publishes s.id spotId ∧ s.player.primaryStream = some stream ∧
      stream.is spotId = true

end SkipBurst

/-! ## Where the last step is -/

namespace AppPlayer

variable {cfg : Config} {g : Rand} {m : Moment} {p p' : AppPlayer} {id : ListId}

/-- The last step that was pressed waits for the lane, or its result or the load that it has ended
in is on its way, or that load has landed. -/
inductive LastStep (id : ListId) (p : AppPlayer) : Prop
  | queued (job : LoaderJob Work) (hlast : (kept p.unrun).getLast? = some job)
      (hgen : job.gen = p.loadGen)
  | walked (hmade : kept p.unrun = []) (res : LoaderResult) (work : ListWork) (walked : Walked)
      (snap : TrackList.Snapshot) (hres : res ∈ p.finished) (hcls : res.job.cls.loads = true)
      (hgen : res.job.gen = p.loadGen) (hcommit : res.commit = .walked id work walked snap)
      (hshown : p.shown id = some snap.current)
  | loading (hmade : kept p.unrun = []) (job : LoaderJob Work) (load : LoadJob)
      (hjob : job ∈ p.unrun) (hgen : job.gen = p.loadGen) (hrun : job.run = .load load)
      (hstream : ∀ stream, load.prefetched = some stream → stream.is load.spotId = true)
      (hpublishes : p.Publishes id load.spotId)
  | loaded (hmade : kept p.unrun = []) (res : LoaderResult) (load : LoadJob) (stream : Stream)
      (streamGen : Nat) (position : Int) (hres : res ∈ p.finished)
      (hcls : res.job.cls.loads = true) (hgen : res.job.gen = p.loadGen)
      (hcommit : res.commit = .loaded load stream streamGen position)
      (hstream : stream.is load.spotId = true) (hpublishes : p.Publishes id load.spotId)
  | landed (hmade : kept p.unrun = []) (spotId : SpotifyId) (stream : Stream)
      (hnone : ∀ q ∈ p.jobs, q.cls.loads = true → q.gen ≠ p.loadGen)
      (hprimary : p.primaryStream = some stream) (hstream : stream.is spotId = true)
      (hpublishes : p.Publishes id spotId)

theorem Publishes.congr {spotId : SpotifyId} (h : p.Publishes id spotId)
    (hshown : p'.shown id = p.shown id)
    (htrack : p'.state.player.track = p.state.player.track) : p'.Publishes id spotId := by
  rw [Publishes, hshown, htrack]
  exact h

structure Fetched (load : LoadJob) (job : LoaderJob Work) (p : AppPlayer) : Prop where
  cls : job.cls.loads = true
  result : ∃ stream streamGen position, stream.is load.spotId = true ∧
    ⟨job, .loaded load stream streamGen position⟩ ∈ p.finished

theorem LastStep.frame (h : LastStep id p) (hunrun : kept p'.unrun = kept p.unrun)
    (hloads : ∀ job ∈ p.unrun, ∀ load, job.run = .load load →
      (∀ stream, load.prefetched = some stream → stream.is load.spotId = true) →
      job ∈ p'.unrun ∨ Fetched load job p')
    (hfinished : ∀ res ∈ p.finished, res.job.cls.loads = true → res.job.gen = p.loadGen →
      res ∈ p'.finished) (hjobs : ∀ q ∈ p'.jobs, q ∈ p.jobs) (hshown : p'.shown id = p.shown id)
    (htrack : p'.state.player.track = p.state.player.track) (hgens : p'.loadGen = p.loadGen)
    (hprimary : p'.primaryStream = p.primaryStream) : LastStep id p' := by
  cases h with
  | queued job hlast hgen => exact .queued job (hunrun ▸ hlast) (hgens ▸ hgen)
  | walked hmade res work walked snap hres hcls hgen hcommit hat =>
    exact .walked (hunrun ▸ hmade) res work walked snap (hfinished res hres hcls hgen) hcls
      (hgens ▸ hgen) hcommit (hshown ▸ hat)
  | loading hmade job load hjob hgen hrun hstream hpublishes =>
    have hpublishes := hpublishes.congr hshown htrack
    rcases hloads job hjob load hrun hstream with hjob | ⟨hcls, stream, streamGen, position, his, hres⟩
    · exact .loading (hunrun ▸ hmade) job load hjob (hgens ▸ hgen) hrun hstream hpublishes
    · exact .loaded (hunrun ▸ hmade) _ load stream streamGen position hres hcls (hgens ▸ hgen) rfl
        his hpublishes
  | loaded hmade res load stream streamGen position hres hcls hgen hcommit hstream hpublishes =>
    exact .loaded (hunrun ▸ hmade) res load stream streamGen position
      (hfinished res hres hcls hgen) hcls (hgens ▸ hgen) hcommit hstream
      (hpublishes.congr hshown htrack)
  | landed hmade spotId stream hnone hp hstream hpublishes =>
    exact .landed (hunrun ▸ hmade) spotId stream
      (fun q hq => hgens ▸ hnone q (hjobs q hq)) (hprimary ▸ hp) hstream
      (hpublishes.congr hshown htrack)

structure Bursts (g : Rand) (id : ListId) (p : AppPlayer) : Prop where
  grounded : Grounded g p
  tracks : p.state.tracks = some id
  jobs : ∀ q ∈ p.jobs, (∃ load, q.run = .load load) ∨ (∃ spotId, q.run = .prefetch spotId) ∨
    ∃ skip, q.run.skip id = some skip
  results : ∀ res ∈ p.finished, res.commit.fails = false

variable {job q : LoaderJob Work}

theorem Bursts.cls_of_skip (hp : Bursts g id p) (hq : q ∈ p.jobs)
    (hskip : q.run.skip id = some skip) : q.cls = .nav := by
  obtain ⟨walk, hrun, hwalk⟩ := Work.skip_eq_some hskip
  rw [hp.grounded.cls hq, hrun]
  exact ListWork.cls_of_skip hwalk

theorem Bursts.skip_of_kept (hp : Bursts g id p) (hq : q ∈ p.jobs) (hkept : q.cls.fetches = false) :
    ∃ skip, q.run.skip id = some skip := by
  rw [hp.grounded.cls hq] at hkept
  rcases hp.jobs q hq with ⟨load, hrun⟩ | ⟨spotId, hrun⟩ | hskip
  · simp [hrun, Work.cls, LoaderClass.fetches] at hkept
  · simp [hrun, Work.cls, LoaderClass.fetches] at hkept
  · exact hskip

theorem Bursts.loads_of_kept (hp : Bursts g id p) (hq : q ∈ p.jobs)
    (hkept : q.cls.fetches = false) : q.cls.loads = true := by
  obtain ⟨skip, hskip⟩ := hp.skip_of_kept hq hkept
  simp [hp.cls_of_skip hq hskip, LoaderClass.loads]

inductive Finishes (id : ListId) (a : Answers) (job : LoaderJob Work) (p p' : AppPlayer) : Prop
  | made (skip : Skip) (work : ListWork) (list list' : TrackList) (res : Walked)
      (snap : TrackList.Snapshot) (hskip : job.run.skip id = some skip)
      (hlist : p.lists[id]? = some list) (hperform : skip.perform a list = some list')
      (hlist' : p'.lists[id]? = some list') (hshown : list'.currentTrack = some snap.current)
      (hfinished : p'.finished = p.finished ++ [⟨job, .walked id work res snap⟩])
  | loaded (load : LoadJob) (stream : Stream) (streamGen : Nat) (position : Int)
      (hrun : job.run = .load load) (hlists : p'.lists = p.lists)
      (hstream : (∀ stream, load.prefetched = some stream → stream.is load.spotId = true) →
        stream.is load.spotId = true)
      (hfinished : p'.finished = p.finished ++ [⟨job, .loaded load stream streamGen position⟩])
  | prefetched (spotId : SpotifyId) (commit : Commit) (hrun : job.run = .prefetch spotId)
      (hlists : p'.lists = p.lists) (hcommit : commit.fails = false)
      (hfinished : p'.finished = p.finished ++ [⟨job, commit⟩])

theorem finish_finishes (hp : Bursts g id p) (hw : p.worker = .running job)
    (hfair : ∀ load, job.run = .load load →
      ∃ stream, a.stream = .ok stream ∧ stream.is load.spotId = true) (h : p.finish g a = some p') :
    Finishes id a job p p' := by
  obtain ⟨-, job', commit, hjob', hrun, hfinished⟩ := finish_finished h
  obtain rfl : job' = job := by simpa [hw, Worker.jobs] using hjob'
  have hmem : job' ∈ p.jobs := List.mem_append_right _ (List.mem_append_left _ hjob')
  rcases hp.jobs job' hmem with ⟨load, hload⟩ | ⟨spotId, hpre⟩ | ⟨skip, hskip⟩
  · obtain ⟨stream, hstream, his⟩ := hfair load hload
    simp only [hload, runWork, fetchTrack, hstream, Except.map] at hrun
    obtain ⟨rfl, hlists⟩ := Prod.mk.inj (Option.some.inj hrun)
    refine .loaded load _ _ _ hload hlists.symm (fun hfits => ?_) hfinished
    cases hpre : load.prefetched with
    | none => exact his
    | some ready => exact hfits ready hpre
  · simp only [hpre, runWork] at hrun
    split at hrun
    · obtain ⟨rfl, hlists⟩ := Prod.mk.inj (Option.some.inj hrun)
      exact .prefetched spotId _ hpre hlists.symm rfl hfinished
    · obtain ⟨rfl, hlists⟩ := Prod.mk.inj (Option.some.inj hrun)
      exact .prefetched spotId _ hpre hlists.symm rfl hfinished
  · obtain ⟨walk, hwork, hwalk⟩ := Work.skip_eq_some hskip
    rw [hwork] at hrun
    obtain ⟨list, list', res, snap, hlist, hperform, hlist', rfl, hshown⟩ :=
      runWork_skip hp.grounded.sound.valid hwalk hrun
    exact .made skip walk list list' res snap hskip hlist hperform hlist' hshown hfinished

/-! ## Each step of the run -/

theorem finish_stage (hp : Bursts g id p) (hw : p.worker = .running job)
    (hf : Finishes id a job p p') (h : p.finish g a = some p') (hstage : LastStep id p) :
    LastStep id p' := by
  obtain ⟨job', hw', hunrun⟩ := unrun_finish h
  obtain rfl : job' = job := Worker.running.inj (hw'.symm.trans hw)
  have hmem : job' ∈ p.jobs := p.unrun_subset (hunrun ▸ List.mem_cons_self)
  have hjobs := finish_jobs h
  have hstate := (finish_finished h).1
  obtain ⟨hgens, hprimary⟩ : p'.loadGen = p.loadGen ∧ p'.primaryStream = p.primaryStream := by
    obtain ⟨_, _, _, _, _, rfl⟩ := finish_spec h
    exact ⟨rfl, rfl⟩
  have hfetched (commit : Commit) (hlists : p'.lists = p.lists) (hcls : job'.cls.fetches = true)
      (hfinished : p'.finished = p.finished ++ [⟨job', commit⟩])
      (hload : ∀ load, job'.run = .load load →
        (∀ stream, load.prefetched = some stream → stream.is load.spotId = true) →
        Fetched load job' p') : LastStep id p' := by
    refine hstage.frame (by simp [hunrun, kept, hcls]) (fun q hq load hrun hfits => ?_)
      (fun res hres _ _ => hfinished ▸ List.mem_append_left _ hres) (hjobs ▸ fun q hq => hq)
      (by rw [shown, shown, hlists]) (by rw [hstate]) hgens hprimary
    rw [hunrun, List.mem_cons] at hq
    rcases hq with rfl | hq
    · exact .inr (hload load hrun hfits)
    · exact .inl hq
  cases hf with
  | made _ work _ _ res snap hskip _ _ hlist' hshown hfinished =>
    have hcls := hp.cls_of_skip hmem hskip
    have hkept : kept p.unrun = job' :: kept p'.unrun := by
      rw [hunrun]
      simp [kept, hcls, LoaderClass.fetches]
    cases hstage with
    | queued last hlast hgen =>
      rw [hkept] at hlast
      cases hrest : kept p'.unrun with
      | nil =>
        -- the last step has been made
        obtain rfl : job' = last := by simpa [hrest] using hlast
        refine .walked hrest ⟨job', .walked id work res snap⟩ work res snap ?_ ?_ (hgens ▸ hgen)
          rfl ?_
        · exact hfinished ▸ List.mem_append_right _ List.mem_cons_self
        · simp [hcls, LoaderClass.loads]
        · simp [shown, hlist', hshown]
      | cons =>
        rw [hrest] at hlast
        exact .queued last (by rw [hrest]; simpa using hlast) (hgens ▸ hgen)
    | _ => simp_all
  | loaded load stream streamGen position hrun hlists hstream hfinished =>
    have hcls : job'.cls = .load := by rw [hp.grounded.cls hmem, hrun]; rfl
    refine hfetched _ hlists (by simp [hcls, LoaderClass.fetches]) hfinished fun load' hload
      hfits => ?_
    obtain rfl : load = load' := Work.load.inj (hrun.symm.trans hload)
    exact ⟨by simp [hcls, LoaderClass.loads], stream, streamGen, position, hstream hfits,
      hfinished ▸ List.mem_append_right _ List.mem_cons_self⟩
  | prefetched _ _ hrun hlists _ hfinished =>
    have hcls : job'.cls = .prefetch := by
      rw [hp.grounded.cls hmem, hrun]
      rfl
    refine hfetched _ hlists (by simp [hcls, LoaderClass.fetches]) hfinished fun load hload => ?_
    simp [hrun] at hload

theorem kept_unrun_press (hlane : LaneOk p) (hcls : job.cls = .nav)
    (hroom : (kept p.loader.queue).length < loaderQueueSize) (hplan : p'.plan = p.plan.press job) :
    kept p'.unrun = kept p.unrun ++ [job] := by
  have hloads : job.cls.loads = true := by simp [hcls, LoaderClass.loads]
  have hworker : p'.worker = p.worker := congrArg PlayPlan.worker hplan
  have hloader : p'.loader = (p.loader.submit job).2 := congrArg PlayPlan.loader hplan
  rw [kept_unrun_submit hworker hloader, if_pos (accepts_of_room hlane.isOpen hloads hroom)]
  simp [kept, hcls, LoaderClass.fetches]

section Receive

variable {res : LoaderResult} {rest : List LoaderResult}

theorem mem_jobs_received {primary secondary : Option Stream} (hresults : p.results = res :: rest)
    (hplan : p'.plan = { p.plan with results := rest, primary, secondary }) (hq : q ∈ p'.jobs) :
    q ∈ p.jobs := by
  have hjobs : p'.jobs = PlayPlan.jobs { p.plan with results := rest } := congrArg PlayPlan.jobs hplan
  exact PlayPlan.mem_jobs_of_drop hresults (hjobs ▸ hq)

theorem receive_stage_other (hresults : p.results = res :: rest)
    (hother : res.job.cls.loads = true → res.job.gen ≠ p.loadGen) {secondary : Option Stream}
    (hplan : p'.plan = { p.plan with results := rest, secondary }) (hstage : LastStep id p) :
    LastStep id p' := by
  have hunrun : p'.unrun = p.unrun := (congrArg PlayPlan.unrun hplan :)
  have hlists : p'.lists = p.lists := congrArg PlayPlan.lists hplan
  have hfinished : p'.finished = rest ++ p.worker.finished := congrArg PlayPlan.finished hplan
  refine hstage.frame (hunrun ▸ rfl) (fun job hjob load _ _ => .inl (hunrun ▸ hjob)) ?_
    (fun q => mem_jobs_received hresults hplan) (by rw [shown, shown, hlists])
    (congrArg PlayPlan.track hplan) (congrArg PlayPlan.loadGen hplan) (congrArg PlayPlan.primary hplan)
  intro r hr hcls hgen
  rw [finished, hresults, List.cons_append, List.mem_cons] at hr
  rcases hr with rfl | hr
  · exact absurd hgen (hother hcls)
  · exact hfinished ▸ hr

theorem LastStep.of_head (hp : Bursts g id p) (hresults : p.results = res :: rest)
    (hcls : res.job.cls.loads = true) (hgen : res.job.gen = p.loadGen) (hstage : LastStep id p) :
    kept p.unrun = [] ∧
    ((∃ work walked snap, res.commit = .walked id work walked snap ∧
      p.shown id = some snap.current) ∨
    ∃ load stream streamGen position, res.commit = .loaded load stream streamGen position ∧
      stream.is load.spotId = true ∧ p.Publishes id load.spotId) := by
  cases hstage with
  | queued _ hlast hcurrent =>
    obtain ⟨hjob, hkept⟩ := mem_kept.mp (List.mem_of_getLast? hlast)
    have hloads := hp.loads_of_kept (p.unrun_subset hjob) hkept
    exact absurd hcurrent (head_current_unrun hp.grounded hresults hcls hgen hjob hloads)
  | walked hmade _ work walked snap hr hrcls hrgen hrcommit hshown =>
    obtain rfl := head_current_finished hp.grounded hresults hcls hgen hr hrcls hrgen
    exact ⟨hmade, .inl ⟨work, walked, snap, hrcommit, hshown⟩⟩
  | loading _ job _ hjob hcurrent hrun =>
    have hloads : job.cls.loads = true := by
      rw [hp.grounded.cls (p.unrun_subset hjob), hrun]
      rfl
    exact absurd hcurrent (head_current_unrun hp.grounded hresults hcls hgen hjob hloads)
  | loaded hmade _ load stream streamGen position hr hrcls hrgen hrcommit hstream hpublishes =>
    obtain rfl := head_current_finished hp.grounded hresults hcls hgen hr hrcls hrgen
    exact ⟨hmade, .inr ⟨load, stream, streamGen, position, hrcommit, hstream, hpublishes⟩⟩
  | landed _ _ _ hnone =>
    exact absurd hgen (hnone res.job (by simp [jobs, hresults]) hcls)

theorem receive_stage_walked {q : AppPlayer} (hp : Bursts g id p)
    (hmade : kept p.unrun = []) (hshown : p.shown id = some snap.current)
    (hq : q.plan = { p.plan with results := rest }) (hshows : Shows snap q p') :
    LastStep id p' := by
  obtain ⟨job, load, hload, hplan⟩ := hshows
  rw [hq] at hplan hload
  have hworker : p'.worker = p.worker := congrArg PlayPlan.worker hplan
  have hloader : p'.loader = (p.loader.submit job).2 := congrArg PlayPlan.loader hplan
  have hlists : p'.lists = p.lists := congrArg PlayPlan.lists hplan
  have htrack : p'.state.player.track = some snap.current := congrArg PlayPlan.track hplan
  have hgens : p'.loadGen = p.loadGen + 1 := congrArg PlayPlan.loadGen hplan
  have haccepts : accepts job p.loader = true := by
    refine accepts_of_room hp.grounded.sound.lane.isOpen (by simp [hload.cls, LoaderClass.loads]) ?_
    rw [unrun_eq, kept_append, List.append_eq_nil_iff] at hmade
    simp [hmade.2, loaderQueueSize]
  obtain ⟨stays, -, hkept, hunrun⟩ := unrun_submit hworker hloader
  rw [if_pos haccepts] at hunrun
  refine .loading ?_ job load (by simp [hunrun]) (hload.gen.trans hgens.symm) hload.run
    hload.prefetched ⟨snap.current, ?_, htrack, hload.uri⟩
  · rw [hunrun, kept_append, hkept, hmade]
    simp [kept, hload.cls, LoaderClass.fetches]
  · rw [shown, hlists]
    exact hshown

theorem receive_stage_loaded {load : LoadJob} {stream : Stream} (hp : Bursts g id p)
    (hresults : p.results = res :: rest) (hcls : res.job.cls.loads = true)
    (hgen : res.job.gen = p.loadGen) (hmade : kept p.unrun = [])
    (hstream : stream.is load.spotId = true) (hpublishes : p.Publishes id load.spotId)
    (hplan : p'.plan = { p.plan with results := rest, primary := some stream }) :
    LastStep id p' := by
  have hunrun : p'.unrun = p.unrun := (congrArg PlayPlan.unrun hplan :)
  have hjobs : p'.jobs = PlayPlan.jobs { p.plan with results := rest } := congrArg PlayPlan.jobs hplan
  have hlists : p'.lists = p.lists := congrArg PlayPlan.lists hplan
  have hgens : p'.loadGen = p.loadGen := congrArg PlayPlan.loadGen hplan
  refine .landed (hunrun ▸ hmade) load.spotId stream ?_ (congrArg PlayPlan.primary hplan) hstream
    (hpublishes.congr (by rw [shown, shown, hlists]) (congrArg PlayPlan.track hplan))
  rw [hjobs, hgens]
  exact head_current hp.grounded hresults hcls hgen

end Receive

end AppPlayer

namespace SkipBurst

variable {cfg : Config} {g : Rand} {m : Moment} {s s' : SkipBurst} {player : AppPlayer}
  {rest : List LoaderResult}

structure Inv (g : Rand) (s : SkipBurst) : Prop where
  bursts : s.player.Bursts g s.id
  list : s.player.lists[s.id]? = Skip.performAll s.start s.walked
  order : s.walked.map Prod.fst ++ s.player.toMake s.id = s.pressed.map Prod.snd
  numbered : ∀ x ∈ s.pressed, x.1 ≤ s.player.loadGen
  own : ∀ q ∈ s.player.jobs, ∀ skip, q.run.skip s.id = some skip → s.pressed ≠ []
  stage : s.pressed ≠ [] → s.player.LastStep s.id

theorem Inv.frame (hs : Inv g s) (hgrounded : player.Grounded g)
    (htracks : player.state.tracks = s.player.state.tracks)
    (hjobs : ∀ q ∈ player.jobs, q ∈ s.player.jobs ∨ ∃ load, q.run = .load load)
    (hfinished : ∀ res ∈ player.finished, res ∈ s.player.finished ∨ res.commit.fails = false)
    (hkept : kept player.unrun = kept s.player.unrun) (hlists : player.lists = s.player.lists)
    (hgens : s.player.loadGen ≤ player.loadGen)
    (hstage : s.player.LastStep s.id → player.LastStep s.id) : Inv g { s with player } where
  bursts := by
    refine ⟨hgrounded, htracks.trans hs.bursts.tracks, fun q hq => ?_, fun res hres => ?_⟩
    · rcases hjobs q hq with hq | hload
      · exact hs.bursts.jobs q hq
      · exact .inl hload
    · rcases hfinished res hres with hres | hcommit
      · exact hs.bursts.results res hres
      · exact hcommit
  list := hlists ▸ hs.list
  order := by
    have horder := hs.order
    rwa [toMake, ← hkept] at horder
  numbered x hx := (hs.numbered x hx).trans hgens
  own q hq skip hskip := by
    rcases hjobs q hq with hq | ⟨load, hrun⟩
    · exact hs.own q hq skip hskip
    · simp [hrun, Work.skip] at hskip
  stage hpressed := hstage (hs.stage hpressed)

theorem Inv.of_plan (hs : Inv g s) (hgrounded : player.Grounded g)
    (hplan : player.plan = s.player.plan) : Inv g { s with player } := by
  have hlists : player.lists = s.player.lists := congrArg PlayPlan.lists hplan
  have hgens : player.loadGen = s.player.loadGen := congrArg PlayPlan.loadGen hplan
  have hjobs : player.jobs = s.player.jobs := congrArg PlayPlan.jobs hplan
  have hfinished : player.finished = s.player.finished := congrArg PlayPlan.finished hplan
  have hunrun : player.unrun = s.player.unrun := congrArg PlayPlan.unrun hplan
  refine hs.frame hgrounded (congrArg PlayPlan.tracks hplan) (fun q hq => .inl (hjobs ▸ hq))
    (fun res hres => .inl (hfinished ▸ hres)) (hunrun ▸ rfl) hlists hgens.ge fun hstage => ?_
  refine hstage.frame (hunrun ▸ rfl) (fun job hjob _ _ _ => .inl (hunrun ▸ hjob))
    (fun res hres _ _ => hfinished ▸ hres) (fun q hq => hjobs ▸ hq) ?_ (congrArg PlayPlan.track hplan)
    hgens (congrArg PlayPlan.primary hplan)
  rw [AppPlayer.shown, AppPlayer.shown, hlists]

theorem Inv.press {work : ListWork} (hs : Inv g s) (hgrounded : player.Grounded g)
    (hroom : (kept s.player.loader.queue).length < loaderQueueSize)
    (hskip : work.skip = some skip)
    (hplan : player.plan = s.player.plan.press
      { cls := .nav, gen := s.player.loadGen + 1, run := .list s.id work }) :
    Inv g { s with player, pressed := s.pressed ++ [(player.loadGen, skip)] } := by
  have hlists : player.lists = s.player.lists := congrArg PlayPlan.lists hplan
  have hgens : player.loadGen = s.player.loadGen + 1 := congrArg PlayPlan.loadGen hplan
  have hkept := AppPlayer.kept_unrun_press hs.bursts.grounded.sound.lane rfl hroom hplan
  have hjobs : player.jobs = PlayPlan.jobs (s.player.plan.press _) := congrArg PlayPlan.jobs hplan
  have hfinished : player.finished = s.player.finished := congrArg PlayPlan.finished hplan
  refine ⟨⟨hgrounded, (congrArg PlayPlan.tracks hplan).trans hs.bursts.tracks, ?_,
    hfinished ▸ hs.bursts.results⟩, hlists ▸ hs.list, ?_, ?_, fun _ _ _ _ => by simp, fun _ => ?_⟩
  · rw [hjobs]
    exact PlayPlan.forall_jobs_submit hs.bursts.jobs (.inr (.inr ⟨skip, by simp [Work.skip, hskip]⟩))
  · have horder := hs.order
    simp only [AppPlayer.toMake, List.map_append, hkept, List.filterMap_append] at horder ⊢
    rw [← List.append_assoc, horder]
    simp [Work.skip, hskip]
  · intro x hx
    show x.1 ≤ player.loadGen
    rcases List.mem_append.mp hx with hx | hx
    · have := hs.numbered x hx
      omega
    · exact (congrArg Prod.fst (List.mem_singleton.mp hx)).le
  · have hlast : (kept player.unrun).getLast? =
        some { cls := .nav, gen := s.player.loadGen + 1, run := .list s.id work } := by
      rw [hkept]
      exact List.getLast?_concat
    exact .queued _ hlast hgens.symm

theorem Inv.finish (hs : Inv g s) (hgrounded : player.Grounded g)
    (hfair : s.Fair cfg (.finish a)) (h : s.player.finish g a = some player) :
    Inv g { s with player, walked := s.walked ++ (s.player.makes s.id (.finish a)).toList } := by
  obtain ⟨job, hw, hunrun⟩ := unrun_finish h
  have hf := finish_finishes hs.bursts hw (fun load => hfair job load hw) h
  have hmem : job ∈ s.player.jobs := s.player.unrun_subset (hunrun ▸ List.mem_cons_self)
  have hjobs := finish_jobs h
  have hstate := (finish_finished h).1
  have hgens : player.loadGen = s.player.loadGen := by
    obtain ⟨_, _, _, _, _, rfl⟩ := finish_spec h
    rfl
  have hmakes : s.player.makes s.id (.finish a) = (job.run.skip s.id).map fun skip => (skip, a) := by
    simp [makes, hw, Worker.toRun]
  have hstage := finish_stage hs.bursts hw hf h
  -- a track was loaded or prefetched, and the list is as it was
  have hfetched (commit : Commit) (hcommit : commit.fails = false)
      (hskip : job.run.skip s.id = Option.none) (hlists : player.lists = s.player.lists)
      (hfinished : player.finished = s.player.finished ++ [⟨job, commit⟩]) :
      Inv g { s with player, walked := s.walked ++ (s.player.makes s.id (.finish a)).toList } := by
    have hcls : job.cls.fetches = true := by
      by_contra hkept
      obtain ⟨skip, hsome⟩ := hs.bursts.skip_of_kept hmem (by simpa using hkept)
      simp [hskip] at hsome
    have hkept : kept player.unrun = kept s.player.unrun := by
      rw [hunrun]
      simp [kept, hcls]
    rw [hmakes, hskip, Option.map_none, Option.toList_none, List.append_nil]
    refine hs.frame hgrounded (hstate ▸ rfl) (fun q hq => .inl (hjobs ▸ hq)) (fun res hres => ?_)
      hkept hlists hgens.ge hstage
    rw [hfinished] at hres
    rcases List.mem_append.mp hres with hres | hres
    · exact .inl hres
    · exact .inr (List.mem_singleton.mp hres ▸ hcommit)
  cases hf with
  | loaded _ _ _ _ hrun hlists _ hfinished =>
    exact hfetched _ rfl (by simp [hrun, Work.skip]) hlists hfinished
  | prefetched _ commit hrun hlists hcommit hfinished =>
    exact hfetched commit hcommit (by simp [hrun, Work.skip]) hlists hfinished
  | made _ _ list _ _ _ hskip hlist hperform hlist' _ hfinished =>
    have hkept : kept s.player.unrun = job :: kept player.unrun := by
      rw [hunrun]
      simp [kept, hs.bursts.cls_of_skip hmem hskip, LoaderClass.fetches]
    rw [hmakes, hskip, Option.map_some, Option.toList_some]
    refine ⟨⟨hgrounded, hstate ▸ hs.bursts.tracks, hjobs ▸ hs.bursts.jobs, ?_⟩, ?_, ?_,
      hgens ▸ hs.numbered, hjobs ▸ hs.own, fun hpressed => hstage (hs.stage hpressed)⟩
    · intro res' hres
      rw [hfinished] at hres
      rcases List.mem_append.mp hres with hres | hres
      · exact hs.bursts.results res' hres
      · rw [List.mem_singleton.mp hres]
        rfl
    · have hbefore := hs.list
      rw [hlist] at hbefore
      rw [Skip.performAll_concat, ← hbefore, Option.bind_some, hperform]
      exact hlist'
    · have horder := hs.order
      simp only [toMake, hkept, List.filterMap_cons, hskip] at horder
      simp [toMake, ← horder]

theorem Inv.received {res : LoaderResult} (hs : Inv g s)
    (hgrounded : player.Grounded g) (hresults : s.player.results = res :: rest)
    {primary secondary : Option Stream}
    (hplan : player.plan = { s.player.plan with results := rest, primary, secondary })
    (hstage : s.player.LastStep s.id → player.LastStep s.id) : Inv g { s with player } := by
  have hunrun : player.unrun = s.player.unrun := (congrArg PlayPlan.unrun hplan :)
  have hfinished : player.finished = PlayPlan.finished { s.player.plan with results := rest } :=
    congrArg PlayPlan.finished hplan
  exact hs.frame hgrounded (congrArg PlayPlan.tracks hplan)
    (fun q hq => .inl (AppPlayer.mem_jobs_received hresults hplan hq))
    (fun r hr => .inl (PlayPlan.mem_finished_of_drop hresults (hfinished ▸ hr))) (hunrun ▸ rfl)
    (congrArg PlayPlan.lists hplan) (congrArg PlayPlan.loadGen hplan).ge hstage

theorem Inv.shows {q : AppPlayer} {res : LoaderResult} (hs : Inv g s) (hgrounded : player.Grounded g)
    (hresults : s.player.results = res :: rest) (hmade : kept s.player.unrun = [])
    (hshown : s.player.shown s.id = some snap.current)
    (hq : q.plan = { s.player.plan with results := rest })
    (hshows : q.Shows snap player) : Inv g { s with player } := by
  have hstage := AppPlayer.receive_stage_walked hs.bursts hmade hshown hq hshows
  obtain ⟨job, load, hload, hplan⟩ := hshows
  rw [hq] at hplan
  have hworker : player.worker = s.player.worker := congrArg PlayPlan.worker hplan
  have hgens : player.loadGen = s.player.loadGen + 1 := congrArg PlayPlan.loadGen hplan
  have hloader : player.loader = (s.player.loader.submit job).2 := congrArg PlayPlan.loader hplan
  have hjobs : player.jobs = PlayPlan.jobs { s.player.plan with
      results := rest, loader := (s.player.loader.submit job).2 } := congrArg PlayPlan.jobs hplan
  have hfinished : player.finished = PlayPlan.finished { s.player.plan with results := rest } :=
    congrArg PlayPlan.finished hplan
  refine hs.frame hgrounded (congrArg PlayPlan.tracks hplan) ?_ (fun r hr => .inl ?_) ?_
    (congrArg PlayPlan.lists hplan) (by omega) fun _ => hstage
  · rw [hjobs]
    refine PlayPlan.forall_jobs_submit (r := { s.player.plan with results := rest })
      (fun q hq => ?_) ?_
    · exact .inl (PlayPlan.mem_jobs_of_drop hresults hq)
    · exact .inr ⟨load, hload.run⟩
  · exact PlayPlan.mem_finished_of_drop hresults (hfinished ▸ hr)
  · rw [AppPlayer.kept_unrun_submit hworker hloader]
    simp [kept, hload.cls, LoaderClass.fetches]

section Current

variable {res : LoaderResult} {rest : List LoaderResult} {q q' : AppPlayer}
  (hs : Inv g s) (hgrounded : player.Grounded g) (hresults : s.player.results = res :: rest)
  (hq : q.plan = { s.player.plan with results := rest })
  (hcommit : q.commit cfg m res.commit = some q') (hplan : player.plan = q'.plan)

include hs hgrounded hresults hq hcommit hplan

theorem Inv.receive_load {load : LoadJob} (hrun : res.job.run = .load load)
    (hcurrent : s.player.stale res.job = false) : Inv g { s with player } := by
  have hmem : res ∈ s.player.finished := AppPlayer.head_mem_finished hresults
  have hjob := hs.bursts.grounded.cls (AppPlayer.finished_mem_jobs hmem)
  have hgives := hs.bursts.grounded.sound.gives res hmem
  have hfails := hs.bursts.results res hmem
  have hcls : res.job.cls.loads = true := by rw [hjob, hrun]; rfl
  have hgen := AppPlayer.current_of_loads hcls hcurrent
  rw [hrun] at hgives
  generalize hc : res.commit = commit at hgives hcommit hfails
  cases hgives with
  | unloaded => simp [Commit.fails] at hfails
  | loaded =>
    rw [AppPlayer.loaded_plan hcommit, hq] at hplan
    refine hs.received hgrounded hresults hplan fun hstage => ?_
    obtain ⟨hmade, ⟨work, walked, snap, hc', -⟩ | ⟨load', stream', _, _, hc', hstream, hpublishes⟩⟩ :=
      hstage.of_head hs.bursts hresults hcls hgen
    · simp [hc] at hc'
    · obtain ⟨rfl, rfl, -, -⟩ := Commit.loaded.inj (hc.symm.trans hc')
      exact AppPlayer.receive_stage_loaded hs.bursts hresults hcls hgen hmade hstream hpublishes hplan

theorem Inv.receive_prefetch {spotId : SpotifyId} (hrun : res.job.run = .prefetch spotId) :
    Inv g { s with player } := by
  have hmem : res ∈ s.player.finished := AppPlayer.head_mem_finished hresults
  have hjob := hs.bursts.grounded.cls (AppPlayer.finished_mem_jobs hmem)
  have hgives := hs.bursts.grounded.sound.gives res hmem
  have hcls : res.job.cls.loads = false := by rw [hjob, hrun]; rfl
  rw [hrun] at hgives
  generalize res.commit = commit at hgives hcommit
  cases hgives with
  | unfetched =>
    cases hcommit
    rw [hq] at hplan
    exact hs.received hgrounded hresults hplan
      (AppPlayer.receive_stage_other hresults (by simp [hcls]) hplan)
  | prefetched =>
    cases hcommit
    rw [AppPlayer.commitPrefetch_plan, hq] at hplan
    exact hs.received hgrounded hresults hplan
      (AppPlayer.receive_stage_other hresults (by simp [hcls]) hplan)

theorem Inv.receive_skip (hskip : res.job.run.skip s.id = some skip)
    (hfair : s.Fair cfg (.receive m)) (hcurrent : s.player.stale res.job = false) :
    Inv g { s with player } := by
  have hmem : res ∈ s.player.finished := AppPlayer.head_mem_finished hresults
  have hjob := AppPlayer.finished_mem_jobs hmem
  have hgives := hs.bursts.grounded.sound.gives res hmem
  have hfails := hs.bursts.results res hmem
  have hcls : res.job.cls.loads = true := by
    simp [hs.bursts.cls_of_skip hjob hskip, LoaderClass.loads]
  have hgen := AppPlayer.current_of_loads hcls hcurrent
  obtain ⟨walk, hrun, hwalk⟩ := Work.skip_eq_some hskip
  rw [hrun] at hgives
  generalize hc : res.commit = commit at hgives hcommit hfails
  cases hgives with
  | walkFailed => simp [Commit.fails] at hfails
  | walked _ _ walked snap =>
    obtain ⟨hplayable, hnext⟩ := hfair res (by simp [hresults]) hcurrent _ _ _ _ hc
    have htracks : q.state.tracks = some s.id :=
      (congrArg PlayPlan.tracks hq).trans hs.bursts.tracks
    have hauto : q.autoplays cfg = s.player.autoplays cfg := by
      have huri : q.state.player.contextUri = s.player.state.player.contextUri :=
        congrArg PlayPlan.contextUri hq
      rw [AppPlayer.autoplays, AppPlayer.autoplays, huri]
    simp only [AppPlayer.commit, htracks, if_true] at hcommit
    have hshows : q.Shows snap player := by
      obtain ⟨job, load, hload, hshown⟩ : q.Shows snap q' := by
        cases walk with
        | skipPrev => exact AppPlayer.skipLanded_shows hplayable hcommit
        | advance =>
          exact AppPlayer.advance_shows hplayable (hauto ▸ hnext rfl) hcommit
        | _ => simp [ListWork.skip] at hwalk
      exact ⟨job, load, hload, hplan.trans hshown⟩
    have hstage := hs.stage (hs.own res.job hjob skip hskip)
    obtain ⟨hmade, ⟨_, _, snap', hc', hshown⟩ | ⟨load, _, _, _, hc', -, -⟩⟩ :=
      hstage.of_head hs.bursts hresults hcls hgen
    · obtain ⟨-, -, -, rfl⟩ := Commit.walked.inj (hc.symm.trans hc')
      exact hs.shows hgrounded hresults hmade hshown hq hshows
    · simp [hc] at hc'

end Current

theorem Inv.receive (hs : Inv g s) (hgrounded : player.Grounded g) (hfair : s.Fair cfg (.receive m))
    (h : s.player.handle cfg (.receive m) = some player) : Inv g { s with player } := by
  cases hresults : s.player.results with
  | nil => simp [AppPlayer.handle, hresults] at h
  | cons res =>
    have hmem : res ∈ s.player.finished := AppPlayer.head_mem_finished hresults
    rcases AppPlayer.receive_cases hresults h with ⟨hstale, hplan⟩ |
      ⟨hcurrent, q, q', hq, hcommit, hplan⟩
    · refine hs.received hgrounded hresults hplan ?_
      refine AppPlayer.receive_stage_other hresults (fun hcls => ?_) hplan
      exact (AppPlayer.stale_iff_of_loads hcls).mp hstale
    · rcases hs.bursts.jobs res.job (AppPlayer.finished_mem_jobs hmem) with ⟨load, hrun⟩ |
        ⟨spotId, hrun⟩ | ⟨skip, hskip⟩
      · exact hs.receive_load hgrounded hresults hq hcommit hplan hrun hcurrent
      · exact hs.receive_prefetch hgrounded hresults hq hcommit hplan hrun
      · exact hs.receive_skip hgrounded hresults hq hcommit hplan hskip hfair hcurrent

theorem Inv.take {clock : Nat → Int} (hs : Inv g s) (hgrounded : player.Grounded g)
    (h : s.player.take clock = some player) : Inv g { s with player } := by
  have hlane := hs.bursts.grounded.sound.lane
  have hkept := AppPlayer.kept_unrun_take hlane h
  have hunrun := AppPlayer.unrun_take_perm hlane h
  obtain ⟨-, hjobs, -, hidle, loader, job, rfl⟩ := AppPlayer.take_spec hlane h
  have hfinished : ({ s.player with loader, worker := .running job } : AppPlayer).finished =
      s.player.finished := by
    simp [AppPlayer.finished, hidle, Worker.finished]
  refine hs.frame hgrounded rfl (fun q hq => .inl (hjobs.mem_iff.mp hq))
    (fun res hres => .inl (hfinished ▸ hres)) hkept rfl (Nat.le_refl _) fun hstage => ?_
  exact hstage.frame hkept (fun q hq _ _ _ => .inl (hunrun.mem_iff.mpr hq))
    (fun res hres _ _ => hfinished ▸ hres) (fun q hq => hjobs.mem_iff.mp hq) rfl rfl rfl rfl

theorem Inv.deliver (hs : Inv g s) (hgrounded : player.Grounded g)
    (h : s.player.deliver = some player) : Inv g { s with player } := by
  have hunrun := AppPlayer.unrun_deliver h
  have hjobs := AppPlayer.deliver_jobs h
  obtain ⟨res, hw, rfl⟩ := AppPlayer.deliver_spec h
  have hfinished : ({ s.player with results := s.player.results ++ [res], worker := .idle } :
      AppPlayer).finished = s.player.finished := by
    simp [AppPlayer.finished, hw, Worker.finished]
  refine hs.frame hgrounded rfl (fun q hq => .inl (hjobs ▸ hq))
    (fun r hr => .inl (hfinished ▸ hr)) (hunrun ▸ rfl) rfl (Nat.le_refl _) fun hstage => ?_
  exact hstage.frame (hunrun ▸ rfl) (fun q hq _ _ _ => .inl (hunrun ▸ hq))
    (fun r hr _ _ => hfinished ▸ hr) (fun q hq => hjobs ▸ hq) rfl rfl rfl rfl

theorem step_inv {op : Op} (hs : Inv g s) (hfair : s.Fair cfg op)
    (h : s.step cfg g op = some s') : Inv g s' := by
  obtain ⟨player, hplayer, rfl⟩ := Option.map_eq_some_iff.mp h
  have hgrounded := AppPlayer.step_grounded hs.bursts.grounded hplayer
  -- only presses and steps that are made are recorded
  have hquiet (hpress : AppPlayer.press op = Option.none)
      (hmakes : s.player.makes s.id op = Option.none) (hinv : Inv g { s with player }) :
      Inv g { s with
        player
        pressed := s.pressed ++ ((AppPlayer.press op).map fun skip => (player.loadGen, skip)).toList
        walked := s.walked ++ (s.player.makes s.id op).toList } := by
    rw [hpress, hmakes]
    simpa using hinv
  cases op with
  | command _ cmd =>
    have hhandled := AppPlayer.handle_of_step rfl hplayer
    cases cmd with
    | skipNext track =>
      cases track with
      | some => exact hfair.elim
      | none =>
        obtain ⟨repeating, delay, hplan⟩ := AppPlayer.skipNext_plan hs.bursts.tracks hhandled
        have hskip : (ListWork.advance repeating true delay .skipNext).skip = some .next := rfl
        simpa [AppPlayer.press, AppPlayer.makes] using hs.press hgrounded hfair hskip hplan
    | skipPrev =>
      obtain ⟨delay, hplan⟩ := AppPlayer.skipPrev_plan hs.bursts.tracks hfair.2
      rw [Option.some.inj hhandled] at hplan
      have hskip : (ListWork.skipPrev delay).skip = some .prev := rfl
      simpa [AppPlayer.press, AppPlayer.makes] using hs.press hgrounded hfair.1 hskip hplan
    | _ => exact hfair.elim
  | take => exact hquiet rfl rfl (hs.take hgrounded hplayer)
  | finish => simpa [AppPlayer.press] using hs.finish hgrounded hfair hplayer
  | deliver => exact hquiet rfl rfl (hs.deliver hgrounded hplayer)
  | receive => exact hquiet rfl rfl (hs.receive hgrounded hfair (AppPlayer.handle_of_step rfl hplayer))
  | event =>
    refine hquiet rfl rfl (hs.of_plan hgrounded ?_)
    exact (AppPlayer.receivePlayerEvent_unmoved hfair (AppPlayer.handle_of_step rfl hplayer)).plan
  | drain =>
    refine hquiet rfl rfl (hs.of_plan hgrounded ?_)
    simp only [AppPlayer.step] at hplayer
    split at hplayer
    · simp at hplayer
    · rename_i ev rest hdraining
      have hplan := (AppPlayer.handlePlayerEvent_unmoved (hfair ev (by simp [hdraining])) hplayer).plan
      exact hplan
  | _ => exact hfair.elim

theorem inv_start {p : AppPlayer} {list : TrackList} (hp : p.Grounded g)
    (htracks : p.state.tracks = some id) (hlist : p.lists[id]? = some list) (hready : p.Ready) :
    Inv g { player := p, id, start := list } := by
  have hbursts : p.Bursts g id := by
    refine ⟨hp, htracks, fun q hq => ?_, hready.results⟩
    rcases hready.jobs q hq with hload | hpre
    · exact .inl hload
    · exact .inr (.inl hpre)
  have hnone (q : LoaderJob Work) (hq : q ∈ p.jobs) : q.run.skip id = Option.none := by
    rcases hready.jobs q hq with ⟨load, hrun⟩ | ⟨spotId, hrun⟩ <;> simp [hrun, Work.skip]
  refine ⟨hbursts, hlist, ?_, by simp, fun q hq skip hskip => ?_, fun h => absurd rfl h⟩
  · rw [toMake, List.filterMap_eq_nil_iff.mpr]
    · rfl
    · intro q hq
      exact hnone q (p.unrun_subset (mem_kept.mp hq).1)
  · simp [hnone q hq] at hskip

theorem unrun_of_jobs (hjobs : s.player.jobs = []) : s.player.unrun = [] :=
  List.eq_nil_iff_forall_not_mem.mpr fun q hq => by simpa [hjobs] using s.player.unrun_subset hq

theorem Inv.good (hs : Inv g s) : Good cfg g s where
  list := hs.list
  order := hs.order
  made := by
    intro hjobs
    simpa [AppPlayer.toMake, unrun_of_jobs hjobs, kept] using hs.order
  superseded := by
    intro m s' res rest hresults hsuperseded hskip h
    obtain ⟨later, hlater, hlt⟩ := hsuperseded
    obtain ⟨player, hplayer, rfl⟩ := Option.map_eq_some_iff.mp h
    obtain ⟨skip, hskip⟩ := Option.isSome_iff_exists.mp hskip
    have hmem : res ∈ s.player.finished := AppPlayer.head_mem_finished hresults
    have hcls : res.job.cls.loads = true := by
      simp [hs.bursts.cls_of_skip (AppPlayer.finished_mem_jobs hmem) hskip, LoaderClass.loads]
    have hstale : s.player.stale res.job = true := by
      rw [AppPlayer.stale_iff_of_loads hcls]
      have := hs.numbered later hlater
      omega
    rcases AppPlayer.receive_cases hresults (AppPlayer.handle_of_step rfl hplayer) with
      ⟨-, hplan⟩ | ⟨hcurrent, -⟩
    · exact hplan
    · simp [hstale] at hcurrent
  landed := by
    intro hjobs hpressed
    have hunrun := unrun_of_jobs hjobs
    have hfinished (res : LoaderResult) (hres : res ∈ s.player.finished) : False := by
      simpa [hjobs] using AppPlayer.finished_mem_jobs hres
    cases hs.stage hpressed with
    | queued _ hlast => simp [hunrun, kept] at hlast
    | walked _ res _ _ _ hres => exact (hfinished res hres).elim
    | loading _ _ _ hjob => simp [hunrun] at hjob
    | loaded _ res _ _ _ _ hres => exact (hfinished res hres).elim
    | landed _ spotId stream _ hprimary hstream hpublishes =>
      exact ⟨spotId, stream, hpublishes, hprimary, hstream⟩

/-- A burst of skips, from any state in which only tracks are being loaded or prefetched. -/
theorem burst_good {cfg : Config} {g : Rand} {past ops : List Op} {p : AppPlayer}
    {list : TrackList} (hp : exec (AppPlayer.step cfg g) {} past = some p)
    (htracks : p.state.tracks = some id) (hlist : p.lists[id]? = some list) (hready : p.Ready)
    (hfair : Meets (step cfg g) (Fair cfg) { player := p, id, start := list } ops) :
    Always (step cfg g) (Good cfg g) { player := p, id, start := list } ops := by
  have hgrounded : p.Grounded g :=
    exec_invariant (fun _ _ _ => step_grounded) grounded_new hp
  have hinv : Always (step cfg g) (Inv g) { player := p, id, start := list } ops :=
    always_of_meets (fun _ _ _ => step_inv) (inv_start hgrounded htracks hlist hready) hfair
  exact hinv.imp fun s hs => hs.good

open AppPlayer (here knownTrack ownStream served roundTrip playingRun)

def backAndForth : List Op :=
  let walks := served [knownTrack, knownTrack]
  let plays := { walks with stream := .ok ownStream, streamGen := 2 }
  .command { now := 0 } (.skipNext none) :: [.take fun _ => 0, .finish walks] ++
    .command { now := 0 } (.skipPrev false) :: [.deliver, .receive { now := 0 }] ++
    roundTrip 0 walks ++ roundTrip 0 plays

instance (cfg : Config) (s : SkipBurst) (op : Op) : Decidable (s.Fair cfg op) := by
  have (a : Answers) (load : LoadJob) :
      Decidable (∃ stream, a.stream = .ok stream ∧ stream.is load.spotId = true) :=
    match a.stream with
    | .ok stream => decidable_of_iff (stream.is load.spotId = true) (by simp)
    | .error _ => .isFalse (by simp)
  have (a : Answers) : Decidable (∀ job load, s.player.worker = .running job →
      job.run = .load load → ∃ stream, a.stream = .ok stream ∧ stream.is load.spotId = true) :=
    decidable_of_iff (∀ job, s.player.worker = .running job → ∀ load, job.run = .load load →
      ∃ stream, a.stream = .ok stream ∧ stream.is load.spotId = true)
      ⟨fun h job load hw => h job hw load, fun h job hw load => h job load hw⟩
  delta Fair
  rcases op with ⟨_, _ | _ | _ | _ | _ | _ | _ | (_ | _)⟩ | _ <;> infer_instance

def counts (s : SkipBurst) (ops : List Op) : Option (Nat × Nat × Nat) :=
  (exec (step here drawZero) s ops).map fun s =>
    (s.pressed.length, s.walked.length, s.player.jobs.length)

theorem burst_good_backAndForth : ∃ p list,
    exec (AppPlayer.step here drawZero) {} playingRun = some p ∧ p.lists[0]? = some list ∧
    counts { player := p, id := 0, start := list } backAndForth = some (2, 2, 0) ∧
    Always (step here drawZero) (Good here drawZero) { player := p, id := 0, start := list }
      backAndForth := by
  refine ⟨Option.get _ (by decide +kernel), Option.get _ (by decide +kernel), exec_get _,
    (Option.some_get _).symm, by decide +kernel, ?_⟩
  refine burst_good (exec_get _) (by decide +kernel) (Option.some_get _).symm ⟨fun q hq => ?_, ?_⟩
    (by decide +kernel)
  · exact (List.eq_nil_iff_forall_not_mem.mp (by decide +kernel) q hq).elim
  · decide +kernel

end SkipBurst

end Librespot.Daemon
