import Librespot.Base.Run

/-!
# Metadata sweeps

`metaSweepQueue` of `daemon/track_meta_cache.go`: one sweep runs at a time and one waits, whoever
asks for them.
-/

open Base.Run List Option

namespace Librespot.Daemon

structure MetaSweepJob where
  uris : List String
  label : String
deriving DecidableEq, Repr

structure MetaSweepQueue where
  running : Bool := false
  pending : Option (Nat × MetaSweepJob) := none
deriving DecidableEq, Repr

namespace MetaSweepQueue

def enqueue (job : Nat × MetaSweepJob) (q : MetaSweepQueue) : Bool × MetaSweepQueue :=
  (!q.running, { running := true, pending := some job })

def next (q : MetaSweepQueue) : Option (Nat × MetaSweepJob) × MetaSweepQueue :=
  match q.pending with
  | none => (none, { q with running := false })
  | some job => (some job, { q with pending := none })

end MetaSweepQueue

/-- A goroutine is about to call `next`, or runs a sweep. -/
inductive SweepStage
  | calling
  | sweeping (job : Nat × MetaSweepJob)
deriving DecidableEq, Repr

/-- `replaced` pairs a job that waited with the one that took its place. -/
structure Sweeps where
  queue : MetaSweepQueue := {}
  goroutines : List SweepStage := []
  count : Nat := 0
  started : List Nat := []
  replaced : List (Nat × Nat) := []
deriving DecidableEq, Repr

inductive SweepOp
  | schedule (uris : List String) (label : String)
  | next (i : Nat)
  | finish (i : Nat)
deriving DecidableEq, Repr

namespace Sweeps

/-- The caller of `enqueue` starts the worker. The worker's sweep ends with a call of its own. -/
def step (s : Sweeps) : SweepOp → Option Sweeps
  | .schedule uris label =>
    if uris = [] then some s
    else
      let (starts, queue) := s.queue.enqueue (s.count, { uris, label })
      some { s with
        queue
        goroutines := if starts then s.goroutines ++ [.calling] else s.goroutines
        count := s.count + 1
        replaced := s.replaced ++ s.queue.pending.toList.map fun old => (old.1, s.count) }
  | .next i =>
    if s.goroutines[i]? = some .calling then
      match s.queue.next with
      | (none, queue) => some { s with queue, goroutines := s.goroutines.eraseIdx i }
      | (some job, queue) => some { s with
          queue, goroutines := s.goroutines.set i (.sweeping job), started := s.started ++ [job.1] }
    else none
  | .finish i =>
    match s.goroutines[i]? with
    | some (.sweeping _) => some { s with goroutines := s.goroutines.set i .calling }
    | _ => none

def waiting (s : Sweeps) : List Nat := s.queue.pending.toList.map Prod.fst

structure Inv (s : Sweeps) : Prop where
  one : s.goroutines.length = s.queue.running.toNat
  running : s.queue.pending ≠ none → s.queue.running = true
  accounted : (s.started ++ s.waiting ++ s.replaced.map Prod.fst).Perm (List.range s.count)
  newer : ∀ r ∈ s.replaced, r.1 < r.2 ∧ r.2 < s.count

variable {s s' : Sweeps} {op : SweepOp}

theorem schedule_inv (hs : s.Inv) (uris : List String) (label : String) :
    ∃ s', step s (.schedule uris label) = some s' ∧ s'.Inv := by
  by_cases huris : uris = []
  · exact ⟨s, if_pos huris, hs⟩
  refine ⟨_, if_neg huris, ?_, fun _ => rfl, ?_, fun r hr => ?_⟩
  · cases hq : s.queue.running <;> simp [hq, hs.one]
  · have hcount := hs.accounted.append_right [s.count]
    rw [← range_succ] at hcount
    refine List.Perm.trans (perm_iff_count.mpr fun n => ?_) hcount
    cases hp : s.queue.pending <;>
      simp only [waiting, hp, toList_some, toList_none,
        map_append, map_cons, map_nil, count_append, count_nil] <;>
      omega
  · dsimp only
    rcases mem_append.mp hr with hr | hr
    · have := hs.newer r hr
      omega
    · obtain ⟨old, hold, rfl⟩ := List.mem_map.mp hr
      have hwaits : old.1 ∈ s.started ++ s.waiting ++ s.replaced.map Prod.fst := by
        simp only [mem_append]
        exact .inl (.inr (List.mem_map_of_mem hold))
      have := mem_range.mp (hs.accounted.subset hwaits)
      dsimp only
      omega

theorem step_inv (hs : s.Inv) (h : step s op = some s') : s'.Inv := by
  cases op with
  | schedule uris label =>
    obtain ⟨t, ht, hinv⟩ := schedule_inv hs uris label
    cases ht.symm.trans h
    exact hinv
  | next i =>
    simp only [step, ite_none_right_eq_some] at h
    obtain ⟨hi, h⟩ := h
    have hlen := (List.getElem?_eq_some_iff.mp hi).1
    have hone := hs.one
    have hruns := Bool.toNat_le s.queue.running
    cases hp : s.queue.pending with
    | none =>
      simp only [MetaSweepQueue.next, hp] at h
      cases h
      refine ⟨?_, fun hne => absurd rfl hne, ?_, hs.newer⟩
      · rw [length_eraseIdx_of_lt hlen]
        dsimp only [Bool.toNat_false]
        omega
      · have hacc := hs.accounted
        rwa [waiting, hp] at hacc
    | some job =>
      simp only [MetaSweepQueue.next, hp] at h
      cases h
      refine ⟨by simpa using hone, nofun, ?_, hs.newer⟩
      have hacc := hs.accounted
      simp only [waiting, hp, toList_some, map_cons, map_nil] at hacc
      simpa [waiting] using hacc
  | finish i =>
    simp only [step] at h
    split at h <;> cases h
    exact ⟨by simpa using hs.one, hs.running, hs.accounted, hs.newer⟩

def Runs (job : Nat × MetaSweepJob) (s : Sweeps) : Prop :=
  ∃ ops s', (∀ op ∈ ops, op = .next 0 ∨ op = .finish 0) ∧ exec step s ops = some s' ∧
    .sweeping job ∈ s'.goroutines ∧ s'.replaced = s.replaced

theorem Inv.runs (hs : s.Inv) {job : Nat × MetaSweepJob} (hjob : s.queue.pending = some job) :
    s.Runs job := by
  have hone := hs.one
  rw [hs.running (by simp [hjob])] at hone
  obtain ⟨stage, hstage⟩ := length_eq_one_iff.mp hone
  have hnext (t : Sweeps) (ht : t.goroutines = [.calling]) (hq : t.queue.pending = some job) :
      ∃ t', step t (.next 0) = some t' ∧ .sweeping job ∈ t'.goroutines ∧
        t'.replaced = t.replaced := by
    refine ⟨{ t with
      queue.pending := none, goroutines := [.sweeping job], started := t.started ++ [job.1] }, ?_⟩
    simp [step, MetaSweepQueue.next, ht, hq]
  cases stage with
  | calling =>
    obtain ⟨t, ht, hsweeps, hreplaced⟩ := hnext s hstage hjob
    exact ⟨[.next 0], t, by simp, by simp [exec_cons, ht], hsweeps, hreplaced⟩
  | sweeping last =>
    have hfinish : step s (.finish 0) = some { s with goroutines := [.calling] } := by
      simp [step, hstage]
    obtain ⟨t, ht, hsweeps, hreplaced⟩ := hnext { s with goroutines := [.calling] } rfl hjob
    exact ⟨[.finish 0, .next 0], t, by simp, by simp [exec_cons, hfinish, ht], hsweeps, hreplaced⟩

/-- What holds of the sweeps at any time. The newest job is the one that waits, or it has started. -/
structure Sound (s : Sweeps) : Prop where
  one : (s.goroutines.filter (· ≠ .calling)).length ≤ 1
  running : s.queue.pending ≠ none → s.queue.running = true
  newest : ∀ n, s.count = n + 1 → n ∈ s.started ∨ ∃ job, s.queue.pending = some (n, job)
  runs : ∀ job, s.queue.pending = some job → s.Runs job
  replaced : ∀ r ∈ s.replaced, r.1 < r.2 ∧ r.1 ∉ s.started
  once : s.started.Nodup

theorem Inv.sound (hs : s.Inv) : s.Sound where
  one := Nat.le_trans (length_filter_le ..) (hs.one ▸ Bool.toNat_le _)
  running := hs.running
  newest n hn := by
    have hmem : n ∈ s.started ++ s.waiting ++ s.replaced.map Prod.fst :=
      hs.accounted.symm.subset (mem_range.mpr (by omega))
    simp only [mem_append, List.mem_map] at hmem
    obtain (hstarted | hwaits) | ⟨r, hr, rfl⟩ := hmem
    · exact .inl hstarted
    · obtain ⟨job, hjob, rfl⟩ := List.mem_map.mp hwaits
      exact .inr ⟨job.2, mem_toList.mp hjob⟩
    · have := hs.newer r hr
      omega
  runs job := hs.runs
  replaced r hr := by
    have hnodup := hs.accounted.nodup_iff.mpr nodup_range
    rw [append_assoc, nodup_append] at hnodup
    refine ⟨(hs.newer r hr).1, fun hstarted => ?_⟩
    exact hnodup.2.2 _ hstarted _ (mem_append_right _ (List.mem_map_of_mem hr)) rfl
  once := by
    have hnodup := hs.accounted.nodup_iff.mpr nodup_range
    rw [append_assoc, nodup_append] at hnodup
    exact hnodup.1

/-- Whoever schedules sweeps, and however the goroutines go on. -/
theorem sweeps_sound (ops : List SweepOp) {s : Sweeps} (h : exec step {} ops = some s) :
    s.Sound := by
  have hinit : Inv {} := ⟨rfl, nofun, List.Perm.refl [], nofun⟩
  have hinv : s.Inv := exec_invariant (fun _ _ _ => step_inv) hinit h
  exact hinv.sound

def threeSweeps : List SweepOp :=
  [.schedule ["a"] "", .next 0, .schedule ["b"] "", .schedule ["c"] "", .finish 0, .next 0]

theorem sweeps_sound_threeSweeps : ∃ s, exec step {} threeSweeps = some s ∧
    s.started = [0, 2] ∧ s.replaced = [(1, 2)] ∧ s.Sound :=
  ⟨Option.get _ (by decide), exec_get _, by decide, by decide,
    sweeps_sound threeSweeps (exec_get _)⟩

end Sweeps

end Librespot.Daemon
