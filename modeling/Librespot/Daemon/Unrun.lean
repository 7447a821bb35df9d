import Librespot.Daemon.Landings
import Librespot.Daemon.ListRuns
import Librespot.Daemon.PlayPlan

/-!
# Jobs that have not been run

The job that the lane has taken and those that still wait, in the order in which they will
be run. Only a mutation that overtakes a held load ever changes that order.
-/

open Librespot.Tracks
open Librespot.Daemon.LoaderLane (kept accepts)

namespace Librespot.Daemon

open LoaderLane

def Worker.toRun : Worker → List (LoaderJob Work)
  | .running job => [job]
  | _ => []

theorem Worker.toRun_subset (w : Worker) : w.toRun ⊆ w.jobs := by
  cases w <;> simp [Worker.toRun, Worker.jobs]

namespace PlayPlan

variable {r : PlayPlan} {job q : LoaderJob Work} {res : LoaderResult} {rest : List LoaderResult}

/-- A player with this lane and these results. -/
def laneOnly (r : PlayPlan) : AppPlayer where
  loader := r.loader
  worker := r.worker
  results := r.results

def jobs (r : PlayPlan) : List (LoaderJob Work) := r.laneOnly.jobs

theorem jobs_eq (r : PlayPlan) :
    r.jobs = r.results.map LoaderResult.job ++ (r.worker.jobs ++ r.loader.queue) := rfl

def finished (r : PlayPlan) : List LoaderResult := r.laneOnly.finished

theorem finished_eq (r : PlayPlan) : r.finished = r.results ++ r.worker.finished := rfl

def unrun (r : PlayPlan) : List (LoaderJob Work) := r.worker.toRun ++ r.loader.queue

theorem unrun_subset (r : PlayPlan) : r.unrun ⊆ r.jobs := by
  intro q hq
  rcases List.mem_append.mp hq with hq | hq
  · exact List.mem_append_right _ (List.mem_append_left _ (r.worker.toRun_subset hq))
  · exact List.mem_append_right _ (List.mem_append_right _ hq)

theorem mem_jobs_submit (hq : q ∈ { r with loader := (r.loader.submit job).2 }.jobs) :
    q ∈ r.jobs ∨ q = job := by
  simp only [jobs_eq, List.mem_append] at hq ⊢
  rcases hq with hq | hq | hq
  · exact .inl (.inl hq)
  · exact .inl (.inr (.inl hq))
  · rcases mem_submit hq with hq | rfl
    · exact .inl (.inr (.inr hq))
    · exact .inr rfl

theorem jobs_of_cons (hresults : r.results = res :: rest) :
    r.jobs = res.job :: { r with results := rest }.jobs := by
  rw [jobs_eq, hresults]
  rfl

theorem finished_of_cons (hresults : r.results = res :: rest) :
    r.finished = res :: { r with results := rest }.finished := by
  rw [finished_eq, hresults]
  rfl

theorem mem_jobs_of_drop (hresults : r.results = res :: rest)
    (hq : q ∈ { r with results := rest }.jobs) : q ∈ r.jobs :=
  jobs_of_cons hresults ▸ List.mem_cons_of_mem _ hq

theorem mem_finished_of_drop {other : LoaderResult} (hresults : r.results = res :: rest)
    (h : other ∈ { r with results := rest }.finished) : other ∈ r.finished :=
  finished_of_cons hresults ▸ List.mem_cons_of_mem _ h

theorem forall_jobs_submit {P : LoaderJob Work → Prop} (h : ∀ q ∈ r.jobs, P q) (hjob : P job) :
    ∀ q ∈ { r with loader := (r.loader.submit job).2 }.jobs, P q := by
  intro q hq
  rcases mem_jobs_submit hq with hq | rfl
  · exact h q hq
  · exact hjob

end PlayPlan

namespace AppPlayer

variable {cfg : Config} {g : Rand} {p p' : AppPlayer}

structure Grounded (g : Rand) (p : AppPlayer) : Prop where
  sound : p.Sound
  ledger : p.ledger.Tallied
  tame : p.Tame
  built : ∀ l ∈ p.lists, Built g l

theorem Grounded.cls {q : LoaderJob Work} (hp : Grounded g p) (hq : q ∈ p.jobs) :
    q.cls = q.run.cls :=
  (hp.tame.jobs q hq).cls

theorem grounded_new : Grounded g {} := ⟨sound_new, tallied_new, tame_new, by simp⟩

theorem step_grounded {op : Op} (hp : Grounded g p) (h : p.step cfg g op = some p') :
    Grounded g p' :=
  ⟨step_sound hp.sound h, step_tallied hp.sound.lane hp.ledger h,
    step_tame hp.tame hp.sound.lane hp.ledger h, step_built hp.built h⟩

def unrun (p : AppPlayer) : List (LoaderJob Work) := p.plan.unrun

theorem unrun_eq (p : AppPlayer) : p.unrun = p.worker.toRun ++ p.loader.queue := rfl

theorem head_mem_finished {res : LoaderResult} {rest : List LoaderResult}
    (hresults : p.results = res :: rest) : res ∈ p.finished := by
  simp [finished, hresults]

theorem unrun_subset (p : AppPlayer) : p.unrun ⊆ p.jobs := p.plan.unrun_subset

theorem unrun_congr (hworker : p'.worker = p.worker) (hloader : p'.loader = p.loader) :
    p'.unrun = p.unrun := by
  rw [unrun_eq, unrun_eq, hworker, hloader]

/-! ## The lane's goroutine -/

variable {clock : Nat → Int} {job : LoaderJob Work} {res : LoaderResult} {rest : List LoaderResult}

theorem unrun_take (hok : LaneOk p) (h : p.take clock = some p') :
    p'.unrun = p.unrun ∨ ∃ held job rest, held.cls.fetches = true ∧ job.cls = .mutate ∧
      p.unrun = held :: job :: rest ∧ p'.unrun = job :: held :: rest := by
  unfold take at h
  split at h
  · rename_i job loader hw hnext
    cases h
    rcases next_cases clock hok.isOpen hok.shape with ⟨head, rest, hq, h1, h2, -⟩ |
      ⟨held, head, rest, hq, hheld, hm, h1, h2, -⟩ | ⟨hnone, -⟩
    · rw [hnext] at h1 h2
      obtain rfl : job = head := Option.some.inj h1
      left
      simp only [unrun_eq, hw, hq, Worker.toRun, List.singleton_append, List.nil_append]
      exact congrArg _ h2
    · rw [hnext] at h1 h2
      obtain rfl : job = head := Option.some.inj h1
      refine .inr ⟨held, job, rest, hheld, hm, ?_, ?_⟩
      · simp [unrun_eq, hw, hq, Worker.toRun]
      · simp only [unrun_eq, Worker.toRun, List.singleton_append]
        exact congrArg _ h2
    · rw [hnext] at hnone
      simp at hnone
  · simp at h

theorem unrun_take_perm (hok : LaneOk p) (h : p.take clock = some p') : p'.unrun.Perm p.unrun := by
  rcases unrun_take hok h with heq | ⟨held, job, rest, -, -, heq, heq'⟩
  · rw [heq]
  · rw [heq, heq']
    exact List.Perm.swap _ _ _

theorem kept_unrun_take (hok : LaneOk p) (h : p.take clock = some p') :
    kept p'.unrun = kept p.unrun := by
  rcases unrun_take hok h with heq | ⟨held, job, rest, hheld, hm, heq, heq'⟩
  · rw [heq]
  · have hjob : job.cls.fetches = false := by simp [hm, LoaderClass.fetches]
    rw [heq, heq']
    simp [kept, hheld, hjob]

theorem unrun_deliver (h : p.deliver = some p') : p'.unrun = p.unrun := by
  obtain ⟨res, hw, rfl⟩ := deliver_spec h
  simp [unrun_eq, hw, Worker.toRun]

theorem unrun_finish {a : Answers} (h : p.finish g a = some p') :
    ∃ job, p.worker = .running job ∧ p.unrun = job :: p'.unrun := by
  obtain ⟨job, commit, lists, hw, -, rfl⟩ := finish_spec h
  refine ⟨job, hw, ?_⟩
  simp [unrun_eq, hw, Worker.toRun, LoaderLane.finished]

theorem unrun_submit (hworker : p'.worker = p.worker)
    (hloader : p'.loader = (p.loader.submit job).2) :
    ∃ stays, stays.Sublist p.unrun ∧ kept stays = kept p.unrun ∧
      p'.unrun = stays ++ if accepts job p.loader then [job] else [] := by
  rw [unrun_eq, unrun_eq, hworker, hloader]
  rcases submit_spec job p.loader with ⟨ha, hsub, hkept, -⟩ |
    ⟨ha, -, queue, hq, hsub, hkept, -⟩
  · refine ⟨p.worker.toRun ++ (p.loader.submit job).2.queue, hsub.append_left _, ?_, by simp [ha]⟩
    rw [kept_append, kept_append, hkept]
  · refine ⟨p.worker.toRun ++ queue, hsub.append_left _, ?_, by simp [ha, hq]⟩
    rw [kept_append, kept_append, hkept]

theorem kept_unrun_submit (hworker : p'.worker = p.worker)
    (hloader : p'.loader = (p.loader.submit job).2) :
    kept p'.unrun = kept p.unrun ++ if accepts job p.loader then kept [job] else [] := by
  obtain ⟨stays, -, hkept, heq⟩ := unrun_submit hworker hloader
  rw [heq, kept_append, hkept]
  split <;> rfl

theorem accepts_of_room {l : LoaderLane Work} (hopen : l.closed = false)
    (hcls : job.cls.loads = true) (hroom : (kept l.queue).length < loaderQueueSize) :
    accepts job l = true := by
  have hmake : (l.makeRoom job.cls).2.queue = kept l.queue := by
    cases hc : job.cls <;> first | rfl | simp [hc, LoaderClass.loads] at hcls
  have hpre : job.cls ≠ .prefetch := by
    rintro hc
    simp [hc, LoaderClass.loads] at hcls
  simp [accepts, hopen, hpre, hmake, hroom]

theorem kept_dropLoads (l : LoaderLane Work) : kept l.dropLoads.2.queue = kept l.queue := by
  unfold dropLoads
  split
  · rfl
  · exact kept_kept l.queue

/-! ## The load with the highest number -/

theorem head_current (hp : Grounded g p) (hresults : p.results = res :: rest)
    (hcls : res.job.cls.loads = true) (hgen : res.job.gen = p.loadGen) :
    ∀ q ∈ rest.map LoaderResult.job ++ (p.worker.jobs ++ p.loader.queue), q.cls.loads = true →
      q.gen ≠ p.loadGen := by
  have hdistinct : p.jobs.Pairwise fun q r => q.cls.loads = true → r.cls.loads = true →
      q.gen ≠ r.gen := hp.ledger.distinct
  rw [jobs, hresults, List.map_cons, List.cons_append, List.pairwise_cons, hgen] at hdistinct
  exact fun q hq hloads => (hdistinct.1 q hq hcls hloads).symm

theorem head_current_unrun (hp : Grounded g p) (hresults : p.results = res :: rest)
    (hcls : res.job.cls.loads = true) (hgen : res.job.gen = p.loadGen) {q : LoaderJob Work}
    (hq : q ∈ p.unrun) (hloads : q.cls.loads = true) : q.gen ≠ p.loadGen :=
  head_current hp hresults hcls hgen q (PlayPlan.unrun_subset { p.plan with results := rest } hq)
    hloads

theorem head_current_finished (hp : Grounded g p) {r : LoaderResult}
    (hresults : p.results = res :: rest) (hcls : res.job.cls.loads = true)
    (hgen : res.job.gen = p.loadGen) (hr : r ∈ p.finished) (hloads : r.job.cls.loads = true)
    (hcurrent : r.job.gen = p.loadGen) : r = res := by
  by_contra hne
  have hothers := head_current hp hresults hcls hgen
  rw [finished, hresults, List.cons_append, List.mem_cons, List.mem_append] at hr
  rcases hr.resolve_left hne with hr | hr
  · exact hothers r.job (List.mem_append_left _ (List.mem_map_of_mem hr)) hloads hcurrent
  · have hjob := List.mem_append_left p.loader.queue (Worker.finished_mem_jobs hr)
    exact hothers r.job (List.mem_append_right _ hjob) hloads hcurrent

end AppPlayer

end Librespot.Daemon
