import Librespot.Daemon.ListFlags

/-!
# What one step adds to the outstanding jobs

If a step hands a load or a step of navigation to the lane, it has moved the load counter on to
the job's generation.
-/

open Librespot.Tracks List Option

namespace Librespot.Daemon

structure Ledger where
  jobs : List (LoaderJob Work)
  loadGen : Nat

namespace Ledger

variable {l l' l'' : Ledger} {new : Option (LoaderJob Work)}

structure Adds (new : Option (LoaderJob Work)) (l l' : Ledger) : Prop where
  gen : l.loadGen ≤ l'.loadGen
  jobs : l'.jobs.Subperm (l.jobs ++ new.toList)
  loads : ∀ job, new = some job → job.cls.loads = true →
    job.gen = l'.loadGen ∧ l.loadGen < l'.loadGen
  minor : ∀ job, new = some job → job.cls.loads = false → job.run.Minor
  fetch : ∀ job, new = some job → job.run.isLoad = true → job.cls = .load

theorem Adds.mem (h : Adds new l l') {q : LoaderJob Work} (hq : q ∈ l'.jobs) :
    q ∈ l.jobs ∨ new = some q := by
  have hq := h.jobs.subset hq
  simpa [mem_toList, eq_comm] using hq

theorem Adds.of_subperm (hgen : l.loadGen ≤ l'.loadGen) (h : l'.jobs.Subperm l.jobs) :
    Adds none l l' where
  gen := hgen
  jobs := by simpa using h
  loads := by simp
  minor := by simp
  fetch := by simp

theorem Adds.after (h : Adds none l l') (h' : Adds new l' l'') : Adds new l l'' where
  gen := h.gen.trans h'.gen
  jobs := by
    have hjobs : l'.jobs.Subperm l.jobs := by simpa using h.jobs
    exact h'.jobs.trans ((subperm_append_right _).mpr hjobs)
  loads job hnew hloads := by
    obtain ⟨hgen, hlt⟩ := h'.loads job hnew hloads
    exact ⟨hgen, h.gen.trans_lt hlt⟩
  minor := h'.minor
  fetch := h'.fetch

structure Tallied (l : Ledger) : Prop where
  current : ∀ q ∈ l.jobs, q.cls.loads = true → q.gen ≤ l.loadGen
  distinct : l.jobs.Pairwise fun q r => q.cls.loads = true → r.cls.loads = true → q.gen ≠ r.gen
  minor : ∀ q ∈ l.jobs, q.cls.loads = false → q.run.Minor
  fetch : ∀ q ∈ l.jobs, q.run.isLoad = true → q.cls = .load

theorem Tallied.eq_of_gen (hl : Tallied l) {q r : LoaderJob Work} (hq : q ∈ l.jobs)
    (hr : r ∈ l.jobs) (hql : q.cls.loads = true) (hrl : r.cls.loads = true) (hgen : q.gen = r.gen) :
    q = r := by
  by_contra hne
  have hsymm : Std.Symm fun q r : LoaderJob Work =>
      q.cls.loads = true → r.cls.loads = true → q.gen ≠ r.gen :=
    ⟨fun q r h hr hq => (h hq hr).symm⟩
  exact hl.distinct.forall hq hr hne hql hrl hgen

theorem Tallied.step (hl : Tallied l) (h : Adds new l l') : Tallied l' := by
  -- A new load has a generation that no older job can have.
  have hnew : ∀ q ∈ l.jobs, ∀ r ∈ new.toList, q.cls.loads = true → r.cls.loads = true →
      q.gen ≠ r.gen := by
    intro q hq r hr hql hrl
    obtain ⟨hgen, hlt⟩ := h.loads r (mem_toList.mp hr) hrl
    have := hl.current q hq hql
    omega
  refine ⟨?_, ?_, ?_, ?_⟩
  · intro q hq hloads
    rcases h.mem hq with hq | hq
    · exact (hl.current q hq hloads).trans h.gen
    · exact (h.loads q hq hloads).1.le
  · obtain ⟨jobs, hperm, hsub⟩ := h.jobs
    refine (hperm.pairwise_iff fun hqr hr hq => (hqr hq hr).symm).mp (.sublist hsub ?_)
    exact pairwise_append.mpr ⟨hl.distinct, by cases new <;> simp, hnew⟩
  · intro q hq hloads
    rcases h.mem hq with hq | hq
    · exact hl.minor q hq hloads
    · exact h.minor q hq hloads
  · intro q hq hload
    rcases h.mem hq with hq | hq
    · exact hl.fetch q hq hload
    · exact h.fetch q hq hload

end Ledger

namespace AppPlayer

open Ledger (Adds Tallied)

variable {cfg : Config} {g : Rand} {p p' : AppPlayer} {op : Op}

def ledger (p : AppPlayer) : Ledger := ⟨p.jobs, p.loadGen⟩

theorem Quiet.ledger (h : Quiet p p') : p'.ledger = p.ledger := by
  rw [AppPlayer.ledger, AppPlayer.ledger, h.jobs, h.loadGen]

theorem Quiet.adds (h : Quiet p p') : Adds none p.ledger p'.ledger := by
  rw [h.ledger]
  exact .of_subperm le_rfl (List.Subperm.refl _)

theorem Submits.adds {job : LoaderJob Work} (h : Submits job p p') :
    Adds (some job) p.ledger p'.ledger where
  gen := by
    show p.loadGen ≤ p'.loadGen
    cases hl : job.cls.loads with
    | true =>
      have := (h.loads hl).1
      omega
    | false => exact (h.keeps hl).ge
  jobs := by
    show p'.jobs.Subperm (p.jobs ++ [job])
    rw [h.jobs_eq]
    simp only [jobs, append_assoc]
    exact (((LoaderLane.sublist_submit).append_left _).append_left _).subperm
  loads q hq hl := by
    cases hq
    obtain ⟨hgen, hjob⟩ := h.loads hl
    exact ⟨hjob, Nat.lt_of_succ_le hgen.ge⟩
  minor q hq hl := some.inj hq ▸ h.minor (by rwa [some.inj hq])
  fetch q hq hl := some.inj hq ▸ h.fetch (by rwa [some.inj hq])

theorem Ends.adds (h : Ends p p') : ∃ new, Adds new p.ledger p'.ledger := by
  rcases h with h | ⟨job, h⟩
  · exact ⟨none, h.adds⟩
  · exact ⟨some job, h.adds⟩

theorem Touched.adds (h : Touched op p p') : Adds none p.ledger p'.ledger := by
  refine .of_subperm h.loadGen.ge ?_
  show p'.jobs.Subperm p.jobs
  rw [jobs, jobs, h.loader, h.worker, h.results]
  exact ((op.rest_sublist p.results).map _ |>.append_right _).subperm

theorem stopPlayback_adds (hlane : LaneOk p) : Adds none p.ledger p.stopPlayback.ledger := by
  refine .of_subperm (Nat.le_succ _) ?_
  show p.stopPlayback.jobs.Subperm p.jobs
  rw [stopPlayback_jobs hlane]
  exact ((filter_sublist.append_left _).append_left _).subperm

theorem lane_loadGen (hop : op.isLane = true) (h : p.step cfg g op = some p') :
    p'.loadGen = p.loadGen := by
  rw [lane_eq hop h]

theorem step_adds (hlane : LaneOk p) (h : p.step cfg g op = some p') :
    ∃ new, Adds new p.ledger p'.ledger := by
  cases step_form h with
  | lane hop =>
    exact ⟨none, .of_subperm (lane_loadGen hop h).ge (lane_jobs hop hlane h).subperm⟩
  | stopped h =>
    subst h
    exact ⟨none, stopPlayback_adds hlane⟩
  | handled _ htouched hends =>
    obtain ⟨new, hnew⟩ := hends.adds
    exact ⟨new, htouched.adds.after hnew⟩

theorem tallied_new : Tallied (ledger {}) := by
  refine ⟨?_, ?_, ?_, ?_⟩ <;> simp [ledger, jobs, Worker.jobs]

theorem step_tallied (hlane : LaneOk p) (hp : Tallied p.ledger)
    (h : p.step cfg g op = some p') : Tallied p'.ledger := by
  obtain ⟨new, hnew⟩ := step_adds hlane h
  exact hp.step hnew

end AppPlayer

end Librespot.Daemon
