import Librespot.Daemon.Loader
import Mathlib.Data.List.Nodup

/-!
# Who gets an answer from the loader lane

The lane's goroutine, the player loop and `close` run side by side. Of the places where a job
waits for its reply, the results channel is the one that nobody empties at the end.
-/

open Base.Run

namespace Librespot.Daemon.Replies

open LoaderLane

/-- What a job's `run` returns, as far as it matters here. Wherever the source gives a result a
discard, it gives it a commit too. -/
structure Outcome where
  commit : Bool
  discard : Bool
  commit_of_discard : discard = true → commit = true
deriving DecidableEq

structure Result where
  id : Nat
  cls : LoaderClass
  gen : Nat
  reply : Option Ticket
  outcome : Outcome
deriving DecidableEq

def Result.bare (r : Result) : Prop := r.reply = none ∧ r.outcome.discard = false

inductive Worker
  | idle
  | running (job : LoaderJob Unit)
  | delivering (res : Result)
  | ended
deriving DecidableEq

inductive Closer
  | open
  | locked (queued : List (LoaderJob Unit))
  | cancelled (queued : List (LoaderJob Unit))
  | closed
deriving DecidableEq

inductive Loop
  | idle
  | applying (res : Result)
  | stopped
deriving DecidableEq

structure System where
  lane : LoaderLane Unit := {}
  worker : Worker := .idle
  closer : Closer := .open
  loop : Loop := .idle
  results : List Result := []
  nextId : Nat := 0
  asked : List Ticket := []
  answered : List Ticket := []
  opened : List Nat := []
  committed : List Nat := []
  discarded : List Nat := []

def resultsSize : Nat := 4

def done (answered : List Ticket) : Option Ticket → List Ticket
  | none => answered
  | some t => if t ∈ answered then answered else answered ++ [t]

def replyAll (answered : List Ticket) (replies : List (Option Ticket)) : List Ticket :=
  replies.foldl done answered

def System.ctxDone (s : System) : Bool :=
  match s.closer with
  | .open | .locked _ => false
  | .cancelled _ | .closed => true

def Result.stale (loadGen prefetchGen : Nat) (r : Result) : Bool :=
  r.cls ≠ .mutate ∧ r.gen ≠ if r.cls = .prefetch then prefetchGen else loadGen

def System.discard (s : System) (r : Result) : List Nat :=
  if r.outcome.discard then s.discarded ++ [r.id] else s.discarded

inductive Op
  | submit (job : LoaderJob Unit)
  | dropLoads
  | take (clock : Nat → Int)
  | finish (outcome : Outcome)
  | deliver
  | abandon
  | exit
  | receive (loadGen prefetchGen : Nat)
  | applied
  | stop
  | lock
  | cancel
  | answerQueued

def step (s : System) : Op → Option System
  | .submit job =>
    let (replies, lane) := s.lane.submit job
    some { s with
      lane, asked := s.asked ++ job.reply.toList
      answered := replyAll s.answered (replies.map Prod.fst) }
  | .dropLoads =>
    let (replies, lane) := s.lane.dropLoads
    some { s with lane, answered := replyAll s.answered (replies.map Prod.fst) }
  | .take clock =>
    match s.worker, s.lane.next clock with
    | .idle, (some job, lane) => some { s with lane, worker := .running job }
    | _, _ => none
  | .finish outcome =>
    match s.worker with
    | .running job => some { s with
        lane := s.lane.finished
        worker := .delivering ⟨s.nextId, job.cls, job.gen, job.reply, outcome⟩
        nextId := s.nextId + 1
        opened := if outcome.discard then s.opened ++ [s.nextId] else s.opened }
    | _ => none
  | .deliver =>
    match s.worker with
    | .delivering res =>
      if s.results.length < resultsSize then
        some { s with worker := .idle, results := s.results ++ [res] }
      else none
    | _ => none
  | .abandon =>
    match s.worker with
    | .delivering res =>
      if s.ctxDone then some { s with
        worker := .ended, discarded := s.discard res, answered := done s.answered res.reply }
      else none
    | _ => none
  | .exit => if s.worker = .idle ∧ s.ctxDone then some { s with worker := .ended } else none
  | .receive loadGen prefetchGen =>
    match s.loop, s.results with
    | .idle, res :: results =>
      if res.stale loadGen prefetchGen then some { s with
        results, discarded := s.discard res, answered := done s.answered res.reply }
      else some { s with
        results, loop := .applying res
        committed := if res.outcome.commit then s.committed ++ [res.id] else s.committed }
    | _, _ => none
  | .applied =>
    match s.loop with
    | .applying res => some { s with loop := .idle, answered := done s.answered res.reply }
    | _ => none
  | .stop => if s.loop = .idle then some { s with loop := .stopped } else none
  | .lock =>
    match s.closer with
    | .open =>
      let (queued, lane) := s.lane.lockClosed
      some { s with lane, closer := .locked queued }
    | _ => none
  | .cancel =>
    match s.closer with
    | .locked queued => some { s with closer := .cancelled queued }
    | _ => none
  | .answerQueued =>
    match s.closer with
    | .cancelled queued => some { s with
        closer := .closed, answered := replyAll s.answered (queued.map LoaderJob.reply) }
    | _ => none

/-! ## Calling replies -/

variable {answered : List Ticket}

theorem mem_done {t : Ticket} {reply : Option Ticket} :
    t ∈ done answered reply ↔ t ∈ answered ∨ reply = some t := by
  cases reply with
  | none => simp [done]
  | some =>
    simp only [done]
    split
    · rename_i hu
      constructor
      · exact .inl
      · rintro (h | h)
        · exact h
        · exact Option.some.inj h ▸ hu
    · simp [eq_comm]

theorem nodup_done (h : answered.Nodup) (reply : Option Ticket) : (done answered reply).Nodup := by
  cases reply with
  | none => exact h
  | some t =>
    simp only [done]
    split
    · exact h
    · rename_i ht
      rw [List.nodup_append]
      refine ⟨h, List.nodup_singleton t, ?_⟩
      intro a ha b hb
      rw [List.mem_singleton] at hb
      rintro rfl
      exact ht (hb ▸ ha)

theorem mem_replyAll {t : Ticket} {replies : List (Option Ticket)} :
    t ∈ replyAll answered replies ↔ t ∈ answered ∨ some t ∈ replies := by
  unfold replyAll
  induction replies generalizing answered with
  | nil => simp
  | cons _ _ ih =>
    rw [List.foldl_cons, ih, mem_done, List.mem_cons, or_assoc, eq_comm]

theorem nodup_replyAll (h : answered.Nodup)
    (replies : List (Option Ticket)) : (replyAll answered replies).Nodup := by
  unfold replyAll
  induction replies generalizing answered with
  | nil => exact h
  | cons reply _ ih => exact ih (nodup_done h reply)

/-! ## No job gets lost in the lane -/

theorem filter_or {α : Type} (p : α → Bool) {xs : List α} {x : α} (h : x ∈ xs) :
    x ∈ xs.filter p ∨ x ∈ xs.filter fun y => !p y := by
  rcases hp : p x with _ | _
  · exact .inr (List.mem_filter.mpr ⟨h, by simp [hp]⟩)
  · exact .inl (List.mem_filter.mpr ⟨h, hp⟩)

variable {q : LoaderJob Unit} {s s' : System}

theorem makeRoom_accounts (cls : LoaderClass) (l : LoaderLane Unit) (h : q ∈ l.queue) :
    q ∈ (l.makeRoom cls).1 ∨ q ∈ (l.makeRoom cls).2.queue := by
  cases cls with
  | load | nav => exact filter_or _ h
  | mutate => exact .inr h
  | prefetch => exact filter_or _ h

theorem submit_accounts (job : LoaderJob Unit) (l : LoaderLane Unit) (h : q ∈ l.queue ∨ q = job) :
    q ∈ (l.submit job).2.queue ∨ q.reply ∈ (l.submit job).1.map Prod.fst := by
  unfold submit
  by_cases hc : l.closed = true
  · rw [if_pos hc]
    rcases h with h | rfl
    · exact .inl h
    · exact .inr (by simp)
  · rw [if_neg hc]
    by_cases hp : job.cls = .prefetch ∧ l.hasPendingLoad = true
    · rw [if_pos hp]
      rcases h with h | rfl
      · exact .inl h
      · exact .inr (by simp)
    · rw [if_neg hp]
      simp only
      split
      · rcases h with h | rfl
        · rcases makeRoom_accounts job.cls l h with hd | hk
          · exact .inr (by simp; exact .inr ⟨q, hd, rfl⟩)
          · exact .inl hk
        · exact .inr (by simp)
      · rcases h with h | rfl
        · rcases makeRoom_accounts job.cls l h with hd | hk
          · exact .inr (by simp; exact ⟨q, hd, rfl⟩)
          · exact .inl (List.mem_append_left _ hk)
        · exact .inl (by simp)

theorem dropLoads_accounts (l : LoaderLane Unit) (h : q ∈ l.queue) :
    q ∈ l.dropLoads.2.queue ∨ q.reply ∈ l.dropLoads.1.map Prod.fst := by
  unfold dropLoads
  split
  · exact .inl h
  · rcases makeRoom_accounts .load l h with hd | hk
    · exact .inr (by simp; exact ⟨q, hd, rfl⟩)
    · exact .inl hk

theorem mem_eraseIdx_or {α : Type} {xs : List α} {i : Nat} {x y : α} (hx : x ∈ xs)
    (hy : xs[i]? = some y) : x = y ∨ x ∈ xs.eraseIdx i := by
  obtain ⟨j, hj⟩ := List.mem_iff_getElem?.mp hx
  by_cases hij : j = i
  · rw [hij, hy, Option.some.injEq] at hj
    exact .inl hj.symm
  · exact .inr (List.mem_eraseIdx_iff_getElem?.mpr ⟨j, hij, hj⟩)

theorem next_accounts {clock : Nat → Int} {l lane : LoaderLane Unit} {job : LoaderJob Unit}
    (hn : l.next clock = (some job, lane)) (h : q ∈ l.queue) : q = job ∨ q ∈ lane.queue := by
  unfold next at hn
  split at hn
  · simp at hn
  · split at hn
    · simp at hn
    · split at hn
      · simp at hn
      · rename_i hjob
        simp only [Prod.mk.injEq, Option.some.injEq] at hn
        obtain ⟨rfl, rfl⟩ := hn
        exact mem_eraseIdx_or h hjob

/-! ## The invariant -/

def Worker.owes (t : Ticket) : Worker → Prop
  | .running job => job.reply = some t
  | .delivering res => res.reply = some t
  | _ => False

def Closer.owes (t : Ticket) : Closer → Prop
  | .locked queued | .cancelled queued => ∃ q ∈ queued, q.reply = some t
  | _ => False

def Loop.owes (t : Ticket) : Loop → Prop
  | .applying res => res.reply = some t
  | _ => False

def System.owes (s : System) (t : Ticket) : Prop :=
  (∃ q ∈ s.lane.queue, q.reply = some t) ∨ s.worker.owes t ∨
    (∃ r ∈ s.results, r.reply = some t) ∨ s.loop.owes t ∨ s.closer.owes t

def System.undecided (s : System) (i : Nat) : Prop :=
  (∃ res, s.worker = .delivering res ∧ res.id = i ∧ res.outcome.discard = true) ∨
    ∃ r ∈ s.results, r.id = i ∧ r.outcome.discard = true

structure Accounted (s : System) : Prop where
  once : s.answered.Nodup
  replies : ∀ t ∈ s.asked, t ∈ s.answered ∨ s.owes t
  discards : ∀ i ∈ s.opened, i ∈ s.committed ∨ i ∈ s.discarded ∨ s.undecided i
  queue : s.closer = .open ∨ s.lane.closed = true ∧ s.lane.queue = []
  left : s.loop = .stopped → ∀ r ∈ s.results, r.bare

def System.over (s : System) : Prop :=
  s.closer = .closed ∧ s.worker = .ended ∧ s.loop = .stopped

/-- Every reply was called exactly once, and every discard was called or its result committed. -/
def System.settled (s : System) : Prop :=
  (∀ t ∈ s.asked, s.answered.count t = 1) ∧
    ∀ i ∈ s.opened, i ∈ s.committed ∨ i ∈ s.discarded

theorem Accounted.settled (h : Accounted s) (ho : s.over) : s.settled := by
  obtain ⟨hcloser, hworker, hloop⟩ := ho
  have hbare := h.left hloop
  constructor
  · intro t ht
    apply List.count_eq_one_of_mem h.once
    rcases h.replies t ht with ha | hq | hw | ⟨r, hr, hrt⟩ | hl | hc
    · exact ha
    · rcases h.queue with hopen | ⟨-, hnil⟩
      · rw [hcloser] at hopen
        simp at hopen
      · simp [hnil] at hq
    · simp [hworker, Worker.owes] at hw
    · rw [(hbare r hr).1] at hrt
      simp at hrt
    · simp [hloop, Loop.owes] at hl
    · simp [hcloser, Closer.owes] at hc
  · intro i hi
    rcases h.discards i hi with hc | hd | ⟨res, hres, -⟩ | ⟨r, hr, -, hd⟩
    · exact .inl hc
    · exact .inr hd
    · simp [hworker] at hres
    · rw [(hbare r hr).2] at hd
      simp at hd

/-- The loop stops only with nothing owed in the results channel, and nothing owed is put there
afterwards. -/
def Picks (s : System) : Op → Prop
  | .stop => ∀ r ∈ s.results, r.bare
  | .deliver => s.loop = .stopped → ∀ res, s.worker = .delivering res → res.bare
  | _ => True

/-- Unless the lane is delivering, what is undecided is in the results channel. -/
theorem Accounted.decided {i : Nat} (h : Accounted s) (hw : ∀ res, s.worker ≠ .delivering res)
    (hi : i ∈ s.opened) : i ∈ s.committed ∨ i ∈ s.discarded ∨
      ∃ r ∈ s.results, r.id = i ∧ r.outcome.discard = true := by
  rcases h.discards i hi with hc | hd | ⟨res, hres, -⟩ | hr
  · exact .inl hc
  · exact .inr (.inl hd)
  · exact absurd hres (hw res)
  · exact .inr (.inr hr)

theorem submit_accounted (h : Accounted s) (job : LoaderJob Unit) :
    Accounted { s with
      lane := (s.lane.submit job).2, asked := s.asked ++ job.reply.toList
      answered := replyAll s.answered ((s.lane.submit job).1.map Prod.fst) } := by
  refine ⟨nodup_replyAll h.once _, ?_, h.discards, ?_, h.left⟩
  · intro t ht
    have hjob : ∀ q, q ∈ s.lane.queue ∨ q = job → q.reply = some t →
        t ∈ replyAll s.answered ((s.lane.submit job).1.map Prod.fst) ∨
          ∃ q ∈ (s.lane.submit job).2.queue, q.reply = some t := by
      intro q hq hqt
      rcases submit_accounts job s.lane hq with hk | hr
      · exact .inr ⟨q, hk, hqt⟩
      · exact .inl (mem_replyAll.mpr (.inr (hqt ▸ hr)))
    rcases List.mem_append.mp ht with ht | ht
    · rcases h.replies t ht with ha | ⟨q, hq, hqt⟩ | hrest
      · exact .inl (mem_replyAll.mpr (.inl ha))
      · exact (hjob q (.inl hq) hqt).imp_right .inl
      · exact .inr (.inr hrest)
    · exact (hjob job (.inr rfl) (by simpa using ht)).imp_right .inl
  · rcases h.queue with ho | ⟨hc, hnil⟩
    · exact .inl ho
    · refine .inr ?_
      simp only [submit, hc, if_true]
      exact ⟨trivial, hnil⟩

theorem dropLoads_accounted (h : Accounted s) :
    Accounted { s with
      lane := s.lane.dropLoads.2
      answered := replyAll s.answered (s.lane.dropLoads.1.map Prod.fst) } := by
  refine ⟨nodup_replyAll h.once _, ?_, h.discards, ?_, h.left⟩
  · intro t ht
    rcases h.replies t ht with ha | ⟨q, hq, hqt⟩ | hrest
    · exact .inl (mem_replyAll.mpr (.inl ha))
    · rcases dropLoads_accounts s.lane hq with hk | hr
      · exact .inr (.inl ⟨q, hk, hqt⟩)
      · exact .inl (mem_replyAll.mpr (.inr (hqt ▸ hr)))
    · exact .inr (.inr hrest)
  · rcases h.queue with ho | ⟨hc, hnil⟩
    · exact .inl ho
    · refine .inr ?_
      simp only [dropLoads, hc, if_true]
      exact ⟨trivial, hnil⟩

theorem take_accounted {clock : Nat → Int} (h : Accounted s) (hs : step s (.take clock) = some s') :
    Accounted s' := by
  simp only [step] at hs
  split at hs
  · rename_i job lane hw hn
    cases hs
    refine ⟨h.once, fun t ht => ?_, fun i hi => ?_, ?_, h.left⟩
    · rcases h.replies t ht with ha | ⟨q, hq, hqt⟩ | hwt | hrest
      · exact .inl ha
      · rcases next_accounts hn hq with rfl | hk
        · exact .inr (.inr (.inl hqt))
        · exact .inr (.inl ⟨q, hk, hqt⟩)
      · simp [hw, Worker.owes] at hwt
      · exact .inr (.inr (.inr hrest))
    · exact (h.decided (by simp [hw]) hi).imp_right (Or.imp_right .inr)
    · rcases h.queue with ho | ⟨hc, -⟩
      · exact .inl ho
      · simp [next, hc] at hn
  · simp at hs

theorem finish_accounted {outcome : Outcome} (h : Accounted s)
    (hs : step s (.finish outcome) = some s') : Accounted s' := by
  simp only [step] at hs
  split at hs
  · rename_i job hw
    cases hs
    refine ⟨h.once, fun t ht => ?_, fun i hi => ?_, h.queue, h.left⟩
    · have hold := h.replies t ht
      rwa [System.owes, hw] at hold
    · have hold : i ∈ s.opened ∨ i = s.nextId ∧ outcome.discard = true := by
        rcases hd : outcome.discard with _ | _
        · exact .inl (by simpa [hd] using hi)
        · simpa [hd] using hi
      rcases hold with hi | ⟨rfl, hd⟩
      · exact (h.decided (by simp [hw]) hi).imp_right (Or.imp_right .inr)
      · exact .inr (.inr (.inl ⟨_, rfl, rfl, hd⟩))
  · simp at hs

theorem deliver_accounted (h : Accounted s) (hp : Picks s .deliver)
    (hs : step s .deliver = some s') : Accounted s' := by
  simp only [step] at hs
  split at hs
  · rename_i res hw
    split at hs
    · cases hs
      refine ⟨h.once, fun t ht => ?_, fun i hi => ?_, h.queue, ?_⟩
      · rcases h.replies t ht with ha | hq | hwt | ⟨r, hr, hrt⟩ | hrest
        · exact .inl ha
        · exact .inr (.inl hq)
        · rw [hw] at hwt
          exact .inr (.inr (.inr (.inl ⟨res, by simp, hwt⟩)))
        · exact .inr (.inr (.inr (.inl ⟨r, List.mem_append_left _ hr, hrt⟩)))
        · exact .inr (.inr (.inr (.inr hrest)))
      · rcases h.discards i hi with hc | hd | ⟨res', hres, hid, hd⟩ | ⟨r, hr, hid, hd⟩
        · exact .inl hc
        · exact .inr (.inl hd)
        · rw [hw, Worker.delivering.injEq] at hres
          subst hres
          exact .inr (.inr (.inr ⟨res, by simp, hid, hd⟩))
        · exact .inr (.inr (.inr ⟨r, List.mem_append_left _ hr, hid, hd⟩))
      · intro hstop r hr
        rcases List.mem_append.mp hr with hr | hr
        · exact h.left hstop r hr
        · rw [List.mem_singleton] at hr
          exact hr ▸ hp hstop res hw
    · simp at hs
  · simp at hs

theorem mem_discard {r : Result} {i : Nat} :
    i ∈ s.discard r ↔ i ∈ s.discarded ∨ r.id = i ∧ r.outcome.discard = true := by
  unfold System.discard
  rcases hd : r.outcome.discard with _ | _ <;> simp [eq_comm]

theorem abandon_accounted (h : Accounted s) (hs : step s .abandon = some s') : Accounted s' := by
  simp only [step] at hs
  split at hs
  · rename_i res hw
    split at hs
    · cases hs
      refine ⟨nodup_done h.once _, fun t ht => ?_, fun i hi => ?_, h.queue, h.left⟩
      · have hold := h.replies t ht
        simp only [System.owes, hw, Worker.owes, mem_done] at hold ⊢
        grind
      · have hold := h.discards i hi
        simp only [System.undecided, hw, Worker.delivering.injEq, exists_eq_left', mem_discard,
          reduceCtorEq, false_and, exists_false] at hold ⊢
        grind
    · simp at hs
  · simp at hs

theorem exit_accounted (h : Accounted s) (hs : step s .exit = some s') : Accounted s' := by
  simp only [step] at hs
  split at hs
  · rename_i hw
    cases hs
    refine ⟨h.once, fun t ht => ?_, fun i hi => ?_, h.queue, h.left⟩
    · have hold := h.replies t ht
      rwa [System.owes, hw.1] at hold
    · exact (h.decided (by simp [hw.1]) hi).imp_right (Or.imp_right .inr)
  · simp at hs

theorem receive_accounted {loadGen prefetchGen : Nat} (h : Accounted s)
    (hs : step s (.receive loadGen prefetchGen) = some s') : Accounted s' := by
  simp only [step] at hs
  split at hs
  · rename_i res results hl hres
    have hreplies := h.replies
    have hdiscards := h.discards
    simp only [System.owes, hres, List.mem_cons, exists_eq_or_imp, hl, Loop.owes] at hreplies
    simp only [System.undecided, hres, List.mem_cons, exists_eq_or_imp] at hdiscards
    split at hs
    · -- The result is stale: it is discarded and answered at once.
      cases hs
      refine ⟨nodup_done h.once _, fun t ht => ?_, fun i hi => ?_, h.queue, by simp [hl]⟩
      · have hold := hreplies t ht
        simp only [System.owes, mem_done, hl, Loop.owes]
        grind
      · have hold := hdiscards i hi
        simp only [System.undecided, mem_discard]
        grind
    · -- It is committed, and answered once the commit is through.
      cases hs
      refine ⟨h.once, fun t ht => ?_, fun i hi => ?_, h.queue, by simp⟩
      · have hold := hreplies t ht
        simp only [System.owes, Loop.owes]
        grind
      · have hcommit := res.outcome.commit_of_discard
        rcases hdiscards i hi with hc | hd | hw | ⟨rfl, hd⟩ | hr
        · left
          simp only
          split
          · exact List.mem_append_left _ hc
          · exact hc
        · exact .inr (.inl hd)
        · exact .inr (.inr (.inl hw))
        · exact .inl (by simp [hcommit hd])
        · exact .inr (.inr (.inr hr))
  · simp at hs

theorem applied_accounted (h : Accounted s) (hs : step s .applied = some s') : Accounted s' := by
  simp only [step] at hs
  split at hs
  · rename_i res hl
    cases hs
    refine ⟨nodup_done h.once _, fun t ht => ?_, h.discards, h.queue, by simp⟩
    have hold := h.replies t ht
    simp only [System.owes, hl, Loop.owes, mem_done] at hold ⊢
    grind
  · simp at hs

theorem stop_accounted (h : Accounted s) (hp : Picks s .stop) (hs : step s .stop = some s') :
    Accounted s' := by
  simp only [step] at hs
  split at hs
  · rename_i hl
    cases hs
    refine ⟨h.once, fun t ht => ?_, h.discards, h.queue, fun _ => hp⟩
    have hold := h.replies t ht
    rwa [System.owes, hl] at hold
  · simp at hs

theorem lock_accounted (h : Accounted s) (hs : step s .lock = some s') : Accounted s' := by
  simp only [step] at hs
  split at hs
  · rename_i hc
    cases hs
    refine ⟨h.once, fun t ht => ?_, h.discards, .inr ⟨rfl, rfl⟩, h.left⟩
    have hold := h.replies t ht
    simp only [System.owes, hc, Closer.owes, lockClosed] at hold ⊢
    grind
  · simp at hs

theorem cancel_accounted (h : Accounted s) (hs : step s .cancel = some s') : Accounted s' := by
  simp only [step] at hs
  split at hs
  · rename_i queued hc
    cases hs
    refine ⟨h.once, fun t ht => ?_, h.discards, h.queue.imp_left (by simp [hc]), h.left⟩
    have hold := h.replies t ht
    rwa [System.owes, hc] at hold
  · simp at hs

theorem answerQueued_accounted (h : Accounted s) (hs : step s .answerQueued = some s') :
    Accounted s' := by
  simp only [step] at hs
  split at hs
  · rename_i queued hc
    cases hs
    refine ⟨nodup_replyAll h.once _, fun t ht => ?_, h.discards, h.queue.imp_left (by simp [hc]),
      h.left⟩
    have hold := h.replies t ht
    simp only [System.owes, hc, Closer.owes, mem_replyAll, List.mem_map] at hold ⊢
    grind
  · simp at hs

theorem step_accounted {op : Op} (h : Accounted s) (hp : Picks s op) (hs : step s op = some s') :
    Accounted s' := by
  cases op with
  | submit job =>
    simp only [step, Option.some.injEq] at hs
    exact hs ▸ submit_accounted h job
  | dropLoads =>
    simp only [step, Option.some.injEq] at hs
    exact hs ▸ dropLoads_accounted h
  | take => exact take_accounted h hs
  | finish => exact finish_accounted h hs
  | deliver => exact deliver_accounted h hp hs
  | abandon => exact abandon_accounted h hs
  | exit => exact exit_accounted h hs
  | receive => exact receive_accounted h hs
  | applied => exact applied_accounted h hs
  | stop => exact stop_accounted h hp hs
  | lock => exact lock_accounted h hs
  | cancel => exact cancel_accounted h hs
  | answerQueued => exact answerQueued_accounted h hs

theorem accounted_new : Accounted {} :=
  ⟨List.nodup_nil, by simp, by simp, .inl rfl, by simp⟩

theorem settled_of_picks (ops : List Op) (h : Meets step Picks {} ops) :
    Always step (fun s => s.over → s.settled) {} ops := by
  have hacc : Always step Accounted {} ops :=
    always_of_meets (fun s op s' hs hp hst => step_accounted hs hp hst) accounted_new h
  exact hacc.imp fun s hs ho => hs.settled ho

/-- A load with a reply finishes, and the loop picks the stop over its result. -/
def stoppedRun : List Op :=
  [.submit { cls := .load, gen := 1, reply := some 7, run := () }, .take fun _ => 0,
    .finish ⟨true, true, fun _ => rfl⟩, .deliver, .stop, .lock, .cancel, .answerQueued, .exit]

theorem settled_fails_after_stop : ∃ s, exec step {} stoppedRun = some s ∧ s.over ∧
    s.asked = [7] ∧ s.answered = [] ∧ s.opened = [0] ∧ s.committed = [] ∧ s.discarded = [] ∧
    ¬ s.settled :=
  ⟨_, rfl, ⟨rfl, rfl, rfl⟩, rfl, rfl, rfl, rfl, rfl, fun h =>
    absurd (h.1 7 (by decide)) (by decide)⟩

def appliedRun : List Op :=
  [.submit { cls := .load, gen := 1, reply := some 7, run := () }, .take fun _ => 0,
    .finish ⟨true, true, fun _ => rfl⟩, .deliver, .receive 1 0, .applied, .stop, .lock, .cancel,
    .answerQueued, .exit]

instance (r : Result) : Decidable r.bare := inferInstanceAs (Decidable (_ ∧ _))

instance (s : System) (op : Op) : Decidable (Picks s op) :=
  have : Decidable (∀ res, s.worker = .delivering res → res.bare) :=
    match h : s.worker with
    | .delivering res => decidable_of_iff res.bare (by simp)
    | .idle | .running _ | .ended => .isTrue nofun
  by
    delta Picks
    rcases op with _ | _ <;> infer_instance

theorem settled_of_picks_appliedRun : Meets step Picks {} appliedRun ∧
    Always step (fun s => s.over → s.settled) {} appliedRun := by
  have hm : Meets step Picks {} appliedRun := by decide +kernel
  exact ⟨hm, settled_of_picks appliedRun hm⟩

end Librespot.Daemon.Replies
