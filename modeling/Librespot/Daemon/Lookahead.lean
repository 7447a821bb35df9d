import Librespot.Daemon.Unrun
import Librespot.Tracks.NextUp

/-!
# Looking ahead

A prefetch takes a look at the list and then a fetch, and everything that changes what comes
next has to make both forgotten. Until the result has come that does so, the plan is dirty.
-/

open Librespot.Tracks
open Librespot.Daemon.LoaderLane (kept accepts)

namespace Librespot.Daemon

open TrackList LoaderLane

/-! ## What a job does to the list -/

namespace ListWork

def isStep : ListWork → Bool
  | .skipPrev _ | .skipTo .. | .advance .. => true
  | _ => false

def isChange : ListWork → Bool
  | .shuffle _ | .addToQueue _ | .setQueue _ => true
  | _ => false

end ListWork

def Work.isStep : Work → Bool
  | .list _ work => work.isStep
  | _ => false

theorem Work.loads_of_isStep {work : Work} (h : work.isStep = true) : work.cls.loads = true := by
  cases work with
  | list _ work => cases work <;> simp_all [Work.isStep, ListWork.isStep, Work.cls, ListWork.cls,
      LoaderClass.loads]
  | _ => simp [Work.isStep] at h

section Run

variable {g : Rand} {a : Answers} {id : ListId} {work : ListWork} {lists lists' : List TrackList}
  {commit : Commit}

theorem toggleShuffle_failed {page : Pages ContextTrack} {draw : UInt64} {val : Bool}
    {list list' : TrackList} {err : Err}
    (h : list.toggleShuffle g page draw val = some (some err, list')) :
    list'.nextUp = list.nextUp := by
  unfold toggleShuffle at h
  split at h
  · simp at h
  · split at h
    · obtain ⟨_, -, h⟩ := Option.map_eq_some_iff.mp h
      simp at h
    · split at h
      · obtain ⟨_, -, h⟩ := Option.map_eq_some_iff.mp h
        simp at h
      · simp only [refetch, Option.bind_eq_bind, Option.bind_eq_some_iff,
          Prod.exists] at h
        obtain ⟨_, -, isCurrent, -, err', found, hseek, h⟩ := h
        cases err' with
        | none => simp at h
        | some =>
          cases h
          have hq := seek_sameQueue hseek
          exact nextUp_congr ⟨hq.1, hq.2⟩ rfl

theorem runWork_peek (hbuilt : ∀ l ∈ lists, Built g l) (hv : ∀ l ∈ lists, l.tracks.Valid)
    (h : runWork g a lists (.list id .peekNext) = some (commit, lists')) :
    ∃ list list' res snap, lists[id]? = some list ∧ lists'[id]? = some list' ∧
      commit = .walked id .peekNext res snap ∧
      (∀ track, list.nextUp = some track → list'.nextUp = some track) ∧
      ∀ track, res.next = some track → list'.nextUp = some track := by
  simp only [runWork, Option.bind_eq_bind, Option.bind_eq_some_iff, Prod.exists] at h
  obtain ⟨list, hid, err, res, walked, hwalk, h⟩ := h
  obtain ⟨hpeek⟩ := walks_of_walk hwalk
  simp only [Option.bind_eq_some_iff, Prod.exists, Option.some.injEq, Prod.mk.injEq] at h
  obtain ⟨snap, last, hsnap, rfl, rfl⟩ := h
  have hmem := List.mem_of_getElem? hid
  obtain ⟨typ, ops, hruns⟩ := hbuilt list hmem
  obtain ⟨⟨l, hl, rfl⟩, hnext⟩ :=
    peekNext_fetched (reachable_queued hruns) (hv list hmem) hpeek
  have hvalid : l.Valid := (hv list hmem).fetched hl
  obtain ⟨⟨l', hl', rfl⟩, -⟩ := snapshot_fetched (by exact hvalid) hsnap
  refine ⟨list, _, _, snap, hid, List.getElem?_set_self (List.getElem?_eq_some_iff.mp hid).1, rfl,
    fun track ht => ?_, fun track ht => ?_⟩
  · exact nextUp_fetched hl' (nextUp_fetched hl ht)
  · exact nextUp_fetched hl' (hnext track ht)

theorem runWork_change (hwork : work.isChange = true)
    (h : runWork g a lists (.list id work) = some (commit, lists')) :
    (∃ res snap, commit = .walked id work res snap) ∨
    (∃ err, commit = .walkFailed work err) ∧ ∃ list list', lists[id]? = some list ∧
      lists'[id]? = some list' ∧ list'.nextUp = list.nextUp := by
  cases ends_of_runWork h with
  | walked => exact .inl ⟨_, _, rfl⟩
  | @walkFailed id work list walked err res hid hwalk =>
    refine .inr ⟨⟨_, rfl⟩, list, walked, hid,
      List.getElem?_set_self (List.getElem?_eq_some_iff.mp hid).1, ?_⟩
    generalize herr : some err = failed at hwalk
    cases walks_of_walk hwalk with
    | toggled htoggle => exact toggleShuffle_failed (herr ▸ htoggle)
    | queued | queueSet => simp at herr
    | _ => simp [ListWork.isChange] at hwork

theorem walk_step {list list' : TrackList} {err : Option Err} {res : Walked}
    (hwork : work.isStep = true) (h : work.walk g a list = some (err, res, list')) :
    err = none := by
  cases walks_of_walk h with
  | sought hseek => exact trySeekTo_ok hseek
  | toggled => simp [ListWork.isStep] at hwork
  | _ => rfl

theorem runWork_step (hwork : work.isStep = true)
    (h : runWork g a lists (.list id work) = some (commit, lists')) :
    ∃ res snap, commit = .walked id work res snap := by
  cases ends_of_runWork h with
  | walkFailed _ hwalk => simpa using walk_step hwork hwalk
  | walked => exact ⟨_, _, rfl⟩

end Run

namespace PlayPlan

variable {r r' : PlayPlan} {id : ListId} {job : LoaderJob Work}

def steps (r : PlayPlan) : List (LoaderJob Work) := r.unrun.filter fun q => q.run.isStep

/-! ## What is known of the jobs -/

def Expected (id : ListId) (q : LoaderJob Work) : Prop :=
  (∃ load, q.run = .load load) ∨ (∃ spotId, q.run = .prefetch spotId) ∨
    ∃ work, q.run = .list id work

structure Succeeds (res : LoaderResult) : Prop where
  loads : ∀ k err, res.commit ≠ .call k err
  moves : ∀ work err, res.commit = .walkFailed work err → work.isStep = false
  prefetches : ∀ spotId stream, res.job.run = .prefetch spotId → res.commit = .prefetched stream →
    stream.is spotId = true

structure Layout (id : ListId) (r : PlayPlan) : Prop where
  tracks : r.tracks = some id
  jobs : ∀ q ∈ r.jobs, Expected id q
  cls : ∀ q ∈ r.jobs, q.cls = q.run.cls
  gens : ∀ q ∈ r.jobs, q.cls = .prefetch → q.gen ≤ r.prefetchGen
  results : ∀ res ∈ r.finished, Succeeds res
  last : ∀ q, r.steps.getLast? = some q → q.gen = r.loadGen

/-! ## What comes next -/

def repeats (r : PlayPlan) : Bool := r.options.any fun options => options.repeatingTrack

def Plans (id : ListId) (spotId : SpotifyId) (r : PlayPlan) : Prop :=
  if r.repeats then spotifyIdFromUri ((r.track.map ProvidedTrack.uri).getD "") = some (.ok spotId)
  else ∃ list track, r.lists[id]? = some list ∧ list.nextUp = some track ∧
    spotifyIdFromUri track.uri = some (.ok spotId)

structure Clean (id : ListId) (r : PlayPlan) : Prop where
  ready : ∀ stream, r.secondary = some stream → ∃ spotId, stream.is spotId = true ∧ r.Plans id spotId
  fetches : ∀ q ∈ r.jobs, ∀ spotId, q.run = .prefetch spotId → q.gen = r.prefetchGen →
    r.Plans id spotId
  looks : ∀ q ∈ r.jobs, q.run = .list id .peekNext → q.gen = r.prefetchGen → r.repeats = false
  found : ∀ res ∈ r.finished, res.job.run = .list id .peekNext → res.job.gen = r.prefetchGen →
    ∀ walked snap track, res.commit = .walked id .peekNext walked snap →
      walked.next = some track → ∃ list, r.lists[id]? = some list ∧ list.nextUp = some track

inductive Dirty (id : ListId) (r : PlayPlan) : Prop
  | step (q : LoaderJob Work) (hq : q ∈ r.jobs) (hstep : q.run.isStep = true)
      (hgen : q.gen = r.loadGen)
  | change (res : LoaderResult) (work : ListWork) (walked : Walked) (snap : TrackList.Snapshot)
      (hres : res ∈ r.finished) (hcommit : res.commit = .walked id work walked snap)
      (hchange : work.isChange = true)

structure Outlook (id : ListId) (r : PlayPlan) : Prop where
  layout : Layout id r
  plan : Dirty id r ∨ Clean id r

theorem Layout.last_step (h : Layout id r) (hsteps : r.steps ≠ []) :
    ∃ q ∈ r.unrun, q.run.isStep = true ∧ q.cls.loads = true ∧ q.gen = r.loadGen := by
  obtain ⟨q, hlast⟩ := Option.ne_none_iff_exists'.mp (mt List.getLast?_eq_none_iff.mp hsteps)
  obtain ⟨hq, hstep⟩ := List.mem_filter.mp (List.mem_of_getLast? hlast)
  refine ⟨q, hq, hstep, ?_, h.last q hlast⟩
  rw [h.cls q (r.unrun_subset hq)]
  exact Work.loads_of_isStep hstep

theorem Layout.dirty (h : Layout id r) (hsteps : r.steps ≠ []) : Dirty id r := by
  obtain ⟨q, hq, hstep, -, hgen⟩ := h.last_step hsteps
  exact .step q (r.unrun_subset hq) hstep hgen

/-! ## A result goes, and nothing comes of it -/

section Drop

variable {res : LoaderResult} {rest : List LoaderResult}

theorem Layout.drop (h : Layout id r) (hresults : r.results = res :: rest) :
    Layout id { r with results := rest } where
  tracks := h.tracks
  jobs q hq := h.jobs q (mem_jobs_of_drop hresults hq)
  cls q hq := h.cls q (mem_jobs_of_drop hresults hq)
  gens q hq := h.gens q (mem_jobs_of_drop hresults hq)
  results r' hr := h.results r' (mem_finished_of_drop hresults hr)
  last := h.last

theorem Dirty.drop (h : Dirty id r) (hresults : r.results = res :: rest)
    (hstep : res.job.run.isStep = true → res.job.gen ≠ r.loadGen)
    (hchange : ∀ work walked snap, res.commit = .walked id work walked snap →
      work.isChange = false) : Dirty id { r with results := rest } := by
  cases h with
  | step q hq hq' hgen =>
    rw [jobs_of_cons hresults, List.mem_cons] at hq
    rcases hq with rfl | hq
    · exact absurd hgen (hstep hq')
    · exact .step q hq hq' hgen
  | change r' work walked snap hr hcommit hwork =>
    rw [finished_of_cons hresults, List.mem_cons] at hr
    rcases hr with rfl | hr
    · simp [hchange work walked snap hcommit] at hwork
    · exact .change r' work walked snap hr hcommit hwork

theorem Clean.drop (h : Clean id r) (hresults : r.results = res :: rest) :
    Clean id { r with results := rest } where
  ready := h.ready
  fetches q hq := h.fetches q (mem_jobs_of_drop hresults hq)
  looks q hq := h.looks q (mem_jobs_of_drop hresults hq)
  found r' hr := h.found r' (mem_finished_of_drop hresults hr)

end Drop

/-! ## A job is submitted that is no load -/

section Submit

variable (hminor : job.cls.loads = false) (hcls : job.cls = job.run.cls)

include hminor hcls

theorem steps_submit (h : Layout id r) :
    { r with loader := (r.loader.submit job).2 }.steps = r.steps := by
  have hjob : job.run.isStep = false := by
    by_contra hstep
    rw [hcls, Work.loads_of_isStep (by simpa using hstep)] at hminor
    simp at hminor
  have hloads (queue : List (LoaderJob Work)) (hq : ∀ q ∈ queue, q ∈ r.jobs ∨ q = job) :
      (queue.filter fun q => q.run.isStep) =
        (queue.filter fun q => q.cls.loads).filter fun q => q.run.isStep := by
    rw [List.filter_filter]
    refine List.filter_congr fun q hmem => ?_
    cases hstep : q.run.isStep with
    | false => rfl
    | true =>
      rcases hq q hmem with hq | rfl
      · simp [h.cls q hq, Work.loads_of_isStep hstep]
      · simp [hjob] at hstep
  have hqueue (q : LoaderJob Work) (hq : q ∈ r.loader.queue) : q ∈ r.jobs :=
    List.mem_append_right _ (List.mem_append_right _ hq)
  rw [steps, steps, unrun, unrun, List.filter_append, List.filter_append, hloads r.loader.queue fun
    q hq => .inl (hqueue q hq), ← loads_submit hminor, ← hloads]
  intro q hq
  rcases mem_submit hq with hq | rfl
  · exact .inl (hqueue q hq)
  · exact .inr rfl

theorem Layout.submit (h : Layout id r) (hjob : Expected id job)
    (hgen : job.cls = .prefetch → job.gen ≤ r.prefetchGen) :
    Layout id { r with loader := (r.loader.submit job).2 } where
  tracks := h.tracks
  jobs := forall_jobs_submit h.jobs hjob
  cls := forall_jobs_submit h.cls hcls
  gens := forall_jobs_submit h.gens hgen
  results := h.results
  last q hq := by
    rw [steps_submit hminor hcls h] at hq
    exact h.last q hq

omit hcls in
theorem Dirty.submit (h : Dirty id r) (hlayout : Layout id r) :
    Dirty id { r with loader := (r.loader.submit job).2 } := by
  cases h with
  | step q hq hstep hgen =>
    refine .step q ?_ hstep hgen
    simp only [jobs_eq, List.mem_append] at hq ⊢
    rcases hq with hq | hq | hq
    · exact .inl hq
    · exact .inr (.inl hq)
    · have hmem := List.mem_append_right (r.results.map LoaderResult.job)
        (List.mem_append_right r.worker.jobs hq)
      have hloads : q.cls.loads = true := by
        rw [hlayout.cls q hmem]
        exact Work.loads_of_isStep hstep
      exact .inr (.inr (mem_submit_of_loads hq hloads hminor))
  | change res work walked snap hres hcommit hwork =>
    exact .change res work walked snap hres hcommit hwork

omit hminor hcls in
theorem Clean.submit (h : Clean id r)
    (hfetch : ∀ spotId, job.run = .prefetch spotId → r.Plans id spotId)
    (hlook : job.run = .list id .peekNext → r.repeats = false) :
    Clean id { r with loader := (r.loader.submit job).2 } where
  ready := h.ready
  fetches := forall_jobs_submit h.fetches fun spotId hrun _ => hfetch spotId hrun
  looks := forall_jobs_submit h.looks fun hrun _ => hlook hrun
  found := h.found

end Submit

/-! ## The plan is kept, or forgotten -/

theorem Plans.mono {spotId : SpotifyId} (h : r.Plans id spotId) (hrepeats : r'.repeats = r.repeats)
    (htrack : r'.track = r.track)
    (hnext : ∀ list track, r.lists[id]? = some list → list.nextUp = some track →
      ∃ list', r'.lists[id]? = some list' ∧ list'.nextUp = some track) : r'.Plans id spotId := by
  unfold Plans at h ⊢
  rw [hrepeats, htrack]
  split at h
  · rename_i hr
    rw [if_pos hr]
    exact h
  · rename_i hr
    rw [if_neg hr]
    obtain ⟨list, track, hlist, hup, huri⟩ := h
    obtain ⟨list', hlist', hup'⟩ := hnext list track hlist hup
    exact ⟨list', track, hlist', hup', huri⟩

variable {options : Option ContextPlayerOptions} {track : Option ProvidedTrack}
  {loader : LoaderLane Work}

theorem Clean.retune {primary secondary : Option Stream} (h : Clean id r)
    (hrepeats : { r with options }.repeats = r.repeats)
    (hready : ∀ stream, secondary = some stream → r.secondary = some stream ∨
      ∃ spotId, stream.is spotId = true ∧ r.Plans id spotId) :
    Clean id { r with options, primary, secondary } := by
  have hplans {spotId : SpotifyId} (h : r.Plans id spotId) :
      { r with options, primary, secondary }.Plans id spotId :=
    h.mono hrepeats rfl fun list track hlist hup => ⟨list, hlist, hup⟩
  refine ⟨fun stream hstream => ?_, fun q hq spotId hrun hgen =>
    hplans (h.fetches q hq spotId hrun hgen),
    fun q hq hrun hgen => hrepeats.trans (h.looks q hq hrun hgen), h.found⟩
  have hold : ∃ spotId, stream.is spotId = true ∧ r.Plans id spotId := by
    rcases hready stream hstream with hsame | hnew
    · exact h.ready stream hsame
    · exact hnew
  obtain ⟨spotId, his, hold⟩ := hold
  exact ⟨spotId, his, hplans hold⟩

theorem Dirty.retune {primary secondary : Option Stream} (h : Dirty id r) :
    Dirty id { r with options, primary, secondary } := by
  cases h with
  | step q hq hstep hgen => exact .step q hq hstep hgen
  | change res work walked snap hres hcommit hwork =>
    exact .change res work walked snap hres hcommit hwork

theorem Clean.forgotten (hcls : ∀ q ∈ r.jobs, q.cls = q.run.cls)
    (hfinished : ∀ res ∈ r.finished, res.job ∈ r.jobs) (hnone : r.secondary = none)
    (hgens : ∀ q ∈ r.jobs, q.cls = .prefetch → q.gen < r.prefetchGen) : Clean id r where
  ready stream hstream := by simp [hnone] at hstream
  fetches q hq spotId hrun hgen := by
    have hlt := hgens q hq (by rw [hcls q hq, hrun]; rfl)
    omega
  looks q hq hrun hgen := by
    have hlt := hgens q hq (by rw [hcls q hq, hrun]; rfl)
    omega
  found res hres hrun hgen := by
    have hq := hfinished res hres
    have hlt := hgens res.job hq (by rw [hcls res.job hq, hrun]; rfl)
    omega

theorem finished_mem_jobs {res : LoaderResult} (h : res ∈ r.finished) : res.job ∈ r.jobs := by
  rcases List.mem_append.mp h with h | h
  · exact List.mem_append_left _ (List.mem_map_of_mem h)
  · exact List.mem_append_right _ (List.mem_append_left _ (Worker.finished_mem_jobs h))

theorem Layout.forget (h : Layout id r) : Outlook id
      { r with options, track, prefetchGen := r.prefetchGen + 1, secondary := none } where
  layout := ⟨h.tracks, h.jobs, h.cls, fun q hq hc => (h.gens q hq hc).trans (Nat.le_succ _),
    h.results, h.last⟩
  plan := .inr (.forgotten h.cls (fun _ => finished_mem_jobs) rfl fun q hq hc =>
    Nat.lt_succ_of_le (h.gens q hq hc))

/-! ## Steps of the loop that leave the list alone -/

namespace Outlook

variable {res : LoaderResult} {rest : List LoaderResult}

theorem drop (h : Outlook id r) (hresults : r.results = res :: rest)
    (hstep : res.job.run.isStep = true → res.job.gen ≠ r.loadGen)
    (hchange : ∀ work walked snap, res.commit = .walked id work walked snap →
      work.isChange = false) : Outlook id { r with results := rest } :=
  ⟨h.layout.drop hresults,
    h.plan.imp (fun hd => hd.drop hresults hstep hchange) fun hc => hc.drop hresults⟩

theorem submit (h : Outlook id r) (hminor : job.cls.loads = false) (hcls : job.cls = job.run.cls)
    (hjob : Expected id job) (hgen : job.cls = .prefetch → job.gen ≤ r.prefetchGen)
    (hfetch : Clean id r → ∀ spotId, job.run = .prefetch spotId → r.Plans id spotId)
    (hlook : job.run = .list id .peekNext → r.repeats = false) :
    Outlook id { r with loader := (r.loader.submit job).2 } :=
  ⟨h.layout.submit hminor hcls hjob hgen,
    h.plan.imp (fun hd => hd.submit hminor h.layout) fun hc => hc.submit (hfetch hc) hlook⟩

theorem retune {primary secondary : Option Stream}
    (h : Outlook id r) (hrepeats : { r with options }.repeats = r.repeats)
    (hready : Clean id r → ∀ stream, secondary = some stream → r.secondary = some stream ∨
      ∃ spotId, stream.is spotId = true ∧ r.Plans id spotId) :
    Outlook id { r with options, primary, secondary } :=
  ⟨⟨h.layout.tracks, h.layout.jobs, h.layout.cls, h.layout.gens, h.layout.results, h.layout.last⟩,
    h.plan.imp Dirty.retune fun hc => hc.retune hrepeats (hready hc)⟩

end Outlook

/-! ## Steps and loads are submitted -/

theorem Layout.press {work : ListWork} (h : Layout id r) (hopen : r.loader.closed = false)
    (hroom : (kept r.loader.queue).length < loaderQueueSize) (hrun : job.run = .list id work)
    (hstep : work.isStep = true) (hcls : job.cls = job.run.cls) (hgen : job.gen = r.loadGen + 1) :
    Outlook id (r.press job) := by
  have hloads : job.cls.loads = true := by
    rw [hcls]
    exact Work.loads_of_isStep (by rwa [hrun])
  have haccepts := AppPlayer.accepts_of_room hopen hloads hroom
  obtain ⟨queue, hqueue⟩ : ∃ queue, (r.loader.submit job).2.queue = queue ++ [job] := by
    rcases submit_spec job r.loader with ⟨hno, -⟩ | ⟨-, -, queue, hq, -⟩
    · simp [haccepts] at hno
    · exact ⟨queue, hq⟩
  have hlast : (r.press job).steps.getLast? = some job := by
    have hjob : ([job].filter fun q => q.run.isStep) = [job] := by simp [hrun, Work.isStep, hstep]
    rw [steps, unrun]
    simp only [PlayPlan.press, hqueue, List.filter_append]
    rw [hjob, ← List.append_assoc]
    exact List.getLast?_concat
  have hlayout : Layout id (r.press job) := by
    refine ⟨h.tracks, forall_jobs_submit h.jobs (.inr (.inr ⟨work, hrun⟩)),
      forall_jobs_submit h.cls hcls, forall_jobs_submit h.gens fun hc => ?_, h.results, fun q hq => ?_⟩
    · simp [hc, LoaderClass.loads] at hloads
    · rw [hlast] at hq
      exact Option.some.inj hq ▸ hgen
  refine ⟨hlayout, .inl (hlayout.dirty ?_)⟩
  rintro hnil
  simp [hnil] at hlast

theorem Layout.load {load : LoadJob} (h : Layout id r)
    (hsteps : r.steps = []) (hrun : job.run = .load load) (hcls : job.cls = .load) :
    Outlook id ({ r with track }.load job) := by
  have hgens : ∀ q ∈ ({ r with track }.load job).jobs, q.cls = .prefetch → q.gen ≤ r.prefetchGen :=
    forall_jobs_submit h.gens (by simp [hcls])
  have hclass : ∀ q ∈ ({ r with track }.load job).jobs, q.cls = q.run.cls :=
    forall_jobs_submit h.cls (by rw [hcls, hrun]; rfl)
  have hnone : ({ r with track }.load job).steps = [] := by
    refine List.filter_eq_nil_iff.mpr fun q hq => ?_
    rcases List.mem_append.mp hq with hq | hq
    · exact List.filter_eq_nil_iff.mp hsteps q (List.mem_append_left _ hq)
    · rcases mem_submit hq with hq | rfl
      · exact List.filter_eq_nil_iff.mp hsteps q (List.mem_append_right _ hq)
      · simp [hrun, Work.isStep]
  exact ⟨⟨h.tracks, forall_jobs_submit h.jobs (.inl ⟨load, hrun⟩), hclass,
    fun q hq hc => (hgens q hq hc).trans (Nat.le_succ _), h.results, by simp [hnone]⟩,
    .inr (.forgotten hclass (fun _ => finished_mem_jobs) rfl
      fun q hq hc => Nat.lt_succ_of_le (hgens q hq hc))⟩

/-! ## The lane's goroutine -/

theorem Outlook.moved {worker : Worker} {results : List LoaderResult}
    (h : Outlook id r) (hjobs : { r with loader, worker, results }.jobs.Perm r.jobs)
    (hfinished : { r with loader, worker, results }.finished = r.finished)
    (hsteps : { r with loader, worker, results }.steps = r.steps) :
    Outlook id { r with loader, worker, results } := by
  obtain ⟨hlayout, hplan⟩ := h
  refine ⟨⟨hlayout.tracks, fun q hq => hlayout.jobs q (hjobs.mem_iff.mp hq),
    fun q hq => hlayout.cls q (hjobs.mem_iff.mp hq),
    fun q hq => hlayout.gens q (hjobs.mem_iff.mp hq), hfinished ▸ hlayout.results,
    hsteps ▸ hlayout.last⟩, ?_⟩
  rcases hplan with hdirty | hclean
  · left
    cases hdirty with
    | step q hq hstep hgen => exact .step q (hjobs.mem_iff.mpr hq) hstep hgen
    | change res work walked snap hres hcommit hwork =>
      exact .change res work walked snap (hfinished ▸ hres) hcommit hwork
  · exact .inr ⟨hclean.ready, fun q hq => hclean.fetches q (hjobs.mem_iff.mp hq),
      fun q hq => hclean.looks q (hjobs.mem_iff.mp hq), hfinished ▸ hclean.found⟩

inductive Outcome (id : ListId) (lists lists' : List TrackList) : Work → Commit → Prop
  | step (work : ListWork) (commit : Commit) (hstep : work.isStep = true) :
      Outcome id lists lists' (.list id work) commit
  | change (work : ListWork) (walked : Walked) (snap : TrackList.Snapshot)
      (hchange : work.isChange = true) :
      Outcome id lists lists' (.list id work) (.walked id work walked snap)
  | same (run : Work) (commit : Commit) (hstep : run.isStep = false)
      (hnext : ∀ list track, lists[id]? = some list → list.nextUp = some track →
        ∃ list', lists'[id]? = some list' ∧ list'.nextUp = some track)
      (hfound : run = .list id .peekNext → ∀ walked snap track,
        commit = .walked id .peekNext walked snap → walked.next = some track →
        ∃ list', lists'[id]? = some list' ∧ list'.nextUp = some track) :
      Outcome id lists lists' run commit

theorem Outlook.ran {lists : List TrackList} {commit : Commit}
    (h : Outlook id r) (hworker : r.worker = .running job) (hqueue : loader.queue = r.loader.queue)
    (hsucceeds : Succeeds ⟨job, commit⟩) (hout : Outcome id r.lists lists job.run commit) :
    Outlook id { r with lists, loader, worker := .delivering ⟨job, commit⟩ } := by
  have hjobs : { r with lists, loader, worker := .delivering ⟨job, commit⟩ }.jobs = r.jobs := by
    simp [jobs_eq, hworker, Worker.jobs, hqueue]
  have hfinished : { r with lists, loader, worker := .delivering ⟨job, commit⟩ }.finished =
      r.finished ++ [⟨job, commit⟩] := by
    simp [finished_eq, hworker, Worker.finished]
  have hsteps : r.steps = (if job.run.isStep then [job] else []) ++
      { r with lists, loader, worker := .delivering ⟨job, commit⟩ }.steps := by
    simp only [steps, unrun, hworker, Worker.toRun, hqueue, List.singleton_append, List.nil_append,
      List.filter_cons]
    split <;> rfl
  have hlayout : Layout id { r with lists, loader, worker := .delivering ⟨job, commit⟩ } := by
    refine ⟨h.layout.tracks, hjobs ▸ h.layout.jobs, hjobs ▸ h.layout.cls, hjobs ▸ h.layout.gens,
      fun res hres => ?_, fun q hq => h.layout.last q ?_⟩
    · rw [hfinished] at hres
      rcases List.mem_append.mp hres with hres | hres
      · exact h.layout.results res hres
      · exact List.mem_singleton.mp hres ▸ hsucceeds
    · rw [hsteps, List.getLast?_append, hq]
      rfl
  have hdirty (hd : Dirty id r) :
      Dirty id { r with lists, loader, worker := .delivering ⟨job, commit⟩ } := by
    cases hd with
    | step q hq hstep hgen => exact .step q (hjobs ▸ hq) hstep hgen
    | change res work walked snap hres hcommit hwork =>
      exact .change res work walked snap (hfinished ▸ List.mem_append_left _ hres) hcommit hwork
  refine ⟨hlayout, ?_⟩
  generalize hrun : job.run = run at hout
  cases hout with
  | step _ _ hstep =>
    refine .inl (hdirty (h.layout.dirty ?_))
    simp [hsteps, hrun, Work.isStep, hstep]
  | change work walked snap hchange =>
    refine .inl (.change ⟨job, .walked id work walked snap⟩ work walked snap ?_ rfl hchange)
    exact hfinished ▸ List.mem_append_right _ List.mem_cons_self
  | same _ _ _ hnext hfound =>
    rcases h.plan with hd | hc
    · exact .inl (hdirty hd)
    · right
      refine ⟨fun stream hstream => ?_, fun q hq spotId hq' hgen => ?_,
        fun q hq => hc.looks q (hjobs ▸ hq),
        fun res hres hpeek hgen walked snap track hcommit ht => ?_⟩
      · obtain ⟨spotId, his, hplans⟩ := hc.ready stream hstream
        exact ⟨spotId, his, hplans.mono rfl rfl hnext⟩
      · exact (hc.fetches q (hjobs ▸ hq) spotId hq' hgen).mono rfl rfl hnext
      · rw [hfinished] at hres
        rcases List.mem_append.mp hres with hres | hres
        · obtain ⟨list, hlist, hup⟩ := hc.found res hres hpeek hgen walked snap track hcommit ht
          exact hnext list track hlist hup
        · obtain rfl := List.mem_singleton.mp hres
          exact hfound (hrun.symm.trans hpeek) walked snap track hcommit ht

/-- The stream that is fetched is the one that was asked for. Only a prefetch may fail. -/
structure Serves (a : Answers) (q : LoaderJob Work) : Prop where
  loads : ∀ load, q.run = .load load → ∃ stream, a.stream = .ok stream
  prefetches : ∀ spotId stream, q.run = .prefetch spotId → a.stream = .ok stream →
    stream.is spotId = true

instance (a : Answers) (q : LoaderJob Work) : Decidable (Serves a q) :=
  match hrun : q.run, hstream : a.stream with
  | .prefetch spotId, .ok stream => decidable_of_iff (stream.is spotId = true)
      ⟨fun h => ⟨by simp [hrun], by simp [hrun, hstream, h]⟩, fun h => h.prefetches _ _ hrun hstream⟩
  | .load _, .error _ => .isFalse fun h => by simpa [hstream] using h.loads _ hrun
  | .load _, .ok _ | .prefetch _, .error _ | .resolve _, _ | .transfer _, _ | .list .., _
  | .station .., _ | .apiPlay _, _ => .isTrue ⟨by simp [hrun, hstream], by simp [hrun, hstream]⟩

theorem succeeds_walked (job : LoaderJob Work) (id : ListId) (work : ListWork) (walked : Walked)
    (snap : TrackList.Snapshot) : Succeeds ⟨job, .walked id work walked snap⟩ :=
  ⟨by simp, by simp, by simp⟩

theorem runWork_outcome {g : Rand} {a : Answers} {lists lists' : List TrackList} {commit : Commit}
    (hbuilt : ∀ l ∈ lists, Built g l) (hv : ∀ l ∈ lists, l.tracks.Valid) (hjob : Expected id job)
    (hserves : Serves a job) (h : runWork g a lists job.run = some (commit, lists')) :
    Succeeds ⟨job, commit⟩ ∧ Outcome id lists lists' job.run commit := by
  have hsame (list : TrackList) (track : ContextTrack) (hlist : lists[id]? = some list)
      (hup : list.nextUp = some track) :
      ∃ list', lists[id]? = some list' ∧ list'.nextUp = some track := ⟨list, hlist, hup⟩
  rcases hjob with ⟨load, hrun⟩ | ⟨spotId, hrun⟩ | ⟨work, hrun⟩
  · obtain ⟨stream, hstream⟩ := hserves.loads load hrun
    rw [hrun] at h ⊢
    simp only [runWork, fetchTrack, hstream, Except.map] at h
    cases h
    exact ⟨⟨by simp, by simp, by simp⟩, .same _ _ rfl hsame (by simp)⟩
  · rw [hrun] at h ⊢
    simp only [runWork] at h
    split at h
    · cases h
      exact ⟨⟨by simp, by simp, by simp⟩, .same _ _ rfl hsame (by simp)⟩
    · rename_i stream hstream
      cases h
      refine ⟨⟨by simp, by simp, ?_⟩, .same _ _ rfl hsame (by simp)⟩
      intro spotId' stream' hrun' hcommit
      obtain rfl : stream = stream' := Commit.prefetched.inj hcommit
      exact hserves.prefetches spotId' stream hrun' hstream
  · rw [hrun] at h
    by_cases hstep : work.isStep = true
    · obtain ⟨walked, snap, rfl⟩ := runWork_step hstep h
      exact ⟨succeeds_walked .., hrun ▸ .step work _ hstep⟩
    by_cases hchange : work.isChange = true
    · rcases runWork_change hchange h with ⟨walked, snap, rfl⟩ |
        ⟨⟨err, rfl⟩, list, list', hlist, hlist', hup'⟩
      · exact ⟨succeeds_walked .., hrun ▸ .change work walked snap hchange⟩
      · refine ⟨⟨by simp, ?_, by simp⟩, .same _ _ (by simpa [hrun, Work.isStep] using hstep) ?_ ?_⟩
        · intro work' err' hcommit
          obtain ⟨rfl, -⟩ := Commit.walkFailed.inj hcommit
          simpa using hstep
        · intro list₀ track hlist₀ hup
          obtain rfl := Option.some.inj (hlist.symm.trans hlist₀)
          exact ⟨list', hlist', hup'.trans hup⟩
        · simp
    · obtain rfl : work = .peekNext := by
        cases work <;> simp_all [ListWork.isStep, ListWork.isChange]
      obtain ⟨list, list', walked, snap, hlist, hlist', rfl, hkeeps, hfinds⟩ :=
        runWork_peek hbuilt hv h
      refine ⟨succeeds_walked .., .same _ _ (by simp [hrun, Work.isStep, ListWork.isStep]) ?_ ?_⟩
      · intro list₀ track hlist₀ hup
        obtain rfl := Option.some.inj (hlist.symm.trans hlist₀)
        exact ⟨list', hlist', hkeeps track hup⟩
      · intro _ walked' snap' track hcommit ht
        obtain ⟨-, -, rfl, -⟩ := Commit.walked.inj hcommit
        exact ⟨list', hlist', hfinds track ht⟩

end PlayPlan

end Librespot.Daemon
