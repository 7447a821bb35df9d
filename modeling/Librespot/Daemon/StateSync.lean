import Librespot.Daemon.StatePushRun

/-! # Keeping the published state up to date (`daemon/player_state.go`)

Times are nanoseconds of the monotonic clock.
-/

open Base.Run List Option

namespace Librespot.Daemon

open StatePushLane

def statePutMinInterval : Nat := 200 * 10 ^ 6

def statePutMaxBackoff : Nat := 30 * 10 ^ 9

/-- The fields of the player that decide when its state is pushed, and the lane it goes to.
`stateTimer` is the time at which the timer fires, if it is armed. The last four fields are history:
a push was made; a push was lost to a marshalling error or to an overflow of the lane; the newest
push was reported a success; the state changed since the newest push. -/
structure StateSync where
  stateSeq : UInt64 := 0
  stateDirty : Bool := false
  statePutScheduled : Bool := false
  stateTimer : Option Nat := none
  lastStatePut : Option Nat := none
  stateRetries : Nat := 0
  hasInitialConnectState : Bool := false
  publicIp : String := ""
  spotConnId : String := ""
  run : PushRun := {}
  pushed : Bool := false
  lost : Bool := false
  acked : Bool := false
  updated : Bool := false
deriving DecidableEq, Repr

namespace StateSync

/-- `jitter` is what `rand.N` draws below a fifth of the delay. -/
def stateRetryDelay (s : StateSync) (jitter : Nat) : PutError → Nat
  | .rateLimited retryAfter => retryAfter
  | .other =>
    let d := min (statePutMinInterval <<< min s.stateRetries 8) statePutMaxBackoff
    d - jitter % (d / 5)

def overflows (s : StateSync) (push : StatePush) : Bool :=
  statePushQueueSize < (StatePushLane.enqueue push s.run.lane.queue).length

def pushState (s : StateSync) (reason : PutStateReason) (body : Option Bytes) : StateSync :=
  let s := { s with
    stateSeq := s.stateSeq + 1, pushed := true, acked := false, updated := false }
  let push : StatePush := { seq := s.stateSeq, reason, spotConnId := s.spotConnId }
  if reason = .becameInactive then
    { s with run := s.run.submit push, lost := s.lost || s.overflows push }
  else
    match body with
    | none => { s with lost := true }
    | some body =>
      let push := { push with body := some body }
      { s with run := s.run.submit push, lost := s.lost || s.overflows push }

def flushState (s : StateSync) (now : Nat) (body : Option Bytes) : StateSync :=
  pushState { s with stateDirty := false, lastStatePut := some now } .playerStateChanged body

def waitsUntil (s : StateSync) (now : Nat) : Option Nat :=
  match s.lastStatePut with
  | none => none
  | some last => if now < last + statePutMinInterval then some (last + statePutMinInterval) else none

def updateState (s : StateSync) (now : Nat) (body : Option Bytes) : StateSync :=
  let s := { s with stateDirty := true, updated := true }
  if s.statePutScheduled then s
  else
    match s.waitsUntil now with
    | some wait => { s with statePutScheduled := true, stateTimer := some wait }
    | none => s.flushState now body

def timerFired (s : StateSync) (now : Nat) (body : Option Bytes) : StateSync :=
  let s := { s with statePutScheduled := false, stateTimer := none }
  if !s.stateDirty then s else s.flushState now body

def applyStatePushResult (s : StateSync) (res : StatePushResult) (now jitter : Nat) : StateSync :=
  let s := if res.publicIp ≠ "" then { s with publicIp := res.publicIp } else s
  match res.err with
  | some err =>
    if res.seq = s.stateSeq then
      let s := { s with
        stateDirty := true, stateRetries := s.stateRetries + 1, statePutScheduled := true }
      { s with stateTimer := some (now + s.stateRetryDelay jitter err) }
    else s
  | none =>
    { s with
      stateRetries := 0, hasInitialConnectState := true
      acked := s.acked || res.seq = s.stateSeq }

inductive Event
  | update (now : Nat) (body : Option Bytes)
  | flush (now : Nat) (body : Option Bytes)
  | push (reason : PutStateReason) (body : Option Bytes)
  | connect (spotConnId : String)
  | timer (now : Nat) (body : Option Bytes)
  | result (now jitter : Nat)
  | lane (op : PushRun.Op)
deriving DecidableEq, Repr

def step (s : StateSync) : Event → Option StateSync
  | .update now body => some (s.updateState now body)
  | .flush now body => some (s.flushState now body)
  | .push reason body => some (s.pushState reason body)
  | .connect spotConnId => some { s with spotConnId }
  | .timer now body =>
    match s.stateTimer with
    | some deadline => if deadline ≤ now then some (s.timerFired now body) else none
    | none => none
  | .result now jitter =>
    match s.run.results with
    | [] => none
    | res :: results =>
      some (applyStatePushResult { s with run := { s.run with results } } res now jitter)
  | .lane op =>
    if op.isRun ∨ op = .sendWake then (s.run.step op).map fun run => { s with run } else none

/-! ## The pushes on their way -/

end StateSync

namespace PushRun

def Place.seqs : Place → List UInt64
  | .putting push => [push.seq]
  | .handing res => [res.seq]
  | _ => []

def outstanding (r : PushRun) : List UInt64 :=
  r.results.map StatePushResult.seq ++ (r.place.seqs ++ r.lane.queue.map StatePush.seq)

theorem outstanding_of_run {r r' : PushRun} {op : Op} (hquit : r.quit = false)
    (hop : op.isRun = true ∨ op = .sendWake) (h : step r op = some r') :
    r'.outstanding = r.outstanding ∧ r'.quit = false ∧ r'.lane.closed = r.lane.closed := by
  unfold outstanding
  cases step_moves h with
  | woke => exact ⟨rfl, hquit, rfl⟩
  | waits hp | tookWake hp | goesOn hp | leaves hp | put hp | handed hp =>
    exact ⟨by simp [Place.seqs, hp], hquit, rfl⟩
  | takes hp hq => exact ⟨by simp [Place.seqs, hp, hq], hquit, rfl⟩
  | sawQuit _ hq | gaveUp _ hq => simp [hquit] at hq
  | submitted | wasRead | again | closed | quits | sawDone | timedOut => simp [Op.isRun] at hop

theorem getLast?_enqueue (push : StatePush) (queue : List StatePush) :
    (StatePushLane.enqueue push queue).getLast? = some push := by
  unfold enqueue
  split
  · split <;> simp
  · simp

theorem getLast?_outstanding_submit {r : PushRun} {push : StatePush} (hopen : r.lane.closed = false)
    (hfits : (StatePushLane.enqueue push r.lane.queue).length ≤ statePushQueueSize) :
    (r.submit push).outstanding.getLast? = some push.seq ∧
    (r.submit push).lane.closed = false := by
  have hqueue : (r.lane.submit push).queue = StatePushLane.enqueue push r.lane.queue := by
    unfold StatePushLane.submit
    rw [if_neg (by simp [hopen])]
    exact StatePushLane.trim_of_le hfits
  unfold outstanding submit
  simp only [hqueue]
  constructor
  · rw [getLast?_append, getLast?_append, getLast?_map, getLast?_enqueue]
    rfl
  · rw [submit_laneClosed]
    exact hopen

end PushRun

namespace StateSync

/-! ## The invariant -/

/-- Nothing is forgotten. The newest push is the last one on its way, and while none is on its way
it has succeeded, or the state is dirty and the timer will push it again. -/
structure Inv (s : StateSync) : Prop where
  isOpen : s.run.lane.closed = false ∧ s.run.quit = false
  newest : ∀ seq ∈ s.run.outstanding.getLast?, seq = s.stateSeq
  settled : s.run.outstanding = [] → s.pushed = true → s.acked = true ∨ s.stateDirty = true
  scheduled : s.stateDirty = true → s.statePutScheduled = true
  armed : s.statePutScheduled = true ↔ s.stateTimer.isSome = true
  updated : s.updated = true → s.stateDirty = true

structure Pushed (s s' : StateSync) : Prop where
  isOpen : s'.run.lane.closed = false ∧ s'.run.quit = false
  last : s'.run.outstanding.getLast? = some s'.stateSeq
  seq : s'.stateSeq = s.stateSeq + 1
  dirty : s'.stateDirty = s.stateDirty
  scheduled : s'.statePutScheduled = s.statePutScheduled
  timer : s'.stateTimer = s.stateTimer
  fresh : s'.updated = false

variable {s s' : StateSync} {body : Option Bytes} {now : Nat} {reason : PutStateReason}

theorem pushState_pushed (hopen : s.run.lane.closed = false ∧ s.run.quit = false)
    (h : (s.pushState reason body).lost = false) : Pushed s (s.pushState reason body) := by
  have hsubmit : ∀ push : StatePush, push.seq = s.stateSeq + 1 →
      (s.lost || s.overflows push) = false → Pushed s { s with
        stateSeq := s.stateSeq + 1, pushed := true, acked := false, updated := false
        run := s.run.submit push, lost := s.lost || s.overflows push } := by
    intro push hseq hl
    have hover := (Bool.or_eq_false_iff.mp hl).2
    have hfits : (enqueue push s.run.lane.queue).length ≤ statePushQueueSize := by
      simpa [overflows] using hover
    obtain ⟨hlast, hclosed⟩ := PushRun.getLast?_outstanding_submit hopen.1 hfits
    exact ⟨⟨hclosed, hopen.2⟩, hseq ▸ hlast, rfl, rfl, rfl, rfl, rfl⟩
  unfold pushState at h ⊢
  simp only at h ⊢
  split at h
  · rename_i hr
    rw [if_pos hr]
    exact hsubmit _ rfl h
  · rename_i hr
    rw [if_neg hr]
    rcases body with _ | body
    · simp at h
    · exact hsubmit _ rfl h

theorem Pushed.newest (h : Pushed s s') :
    ∀ seq ∈ s'.run.outstanding.getLast?, seq = s'.stateSeq := by
  intro seq hseq
  rw [h.last, mem_some_iff] at hseq
  exact hseq.symm

theorem Pushed.busy (h : Pushed s s') : s'.run.outstanding ≠ [] := by
  intro he
  have hlast := h.last
  simp [he] at hlast

theorem Pushed.inv (h : Pushed s s')
    (hscheduled : s.stateDirty = true → s.statePutScheduled = true)
    (harmed : s.statePutScheduled = true ↔ s.stateTimer.isSome = true) : s'.Inv where
  isOpen := h.isOpen
  newest := h.newest
  settled he := absurd he h.busy
  scheduled := by rw [h.dirty, h.scheduled]; exact hscheduled
  armed := by rw [h.scheduled, h.timer]; exact harmed
  updated hu := by simp [h.fresh] at hu

theorem flushState_pushed (hopen : s.run.lane.closed = false ∧ s.run.quit = false)
    (h : (s.flushState now body).lost = false) :
    Pushed { s with stateDirty := false, lastStatePut := some now } (s.flushState now body) :=
  pushState_pushed (s := { s with stateDirty := false, lastStatePut := some now }) hopen h

theorem flushState_inv (hopen : s.run.lane.closed = false ∧ s.run.quit = false)
    (harmed : s.statePutScheduled = true ↔ s.stateTimer.isSome = true)
    (h : (s.flushState now body).lost = false) : (s.flushState now body).Inv :=
  (flushState_pushed hopen h).inv (by simp) harmed

theorem updateState_inv (hs : s.Inv) (h : (s.updateState now body).lost = false) :
    (s.updateState now body).Inv := by
  unfold updateState at h ⊢
  simp only at h ⊢
  by_cases hsched : s.statePutScheduled = true
  · rw [if_pos hsched] at h ⊢
    exact ⟨hs.isOpen, hs.newest, fun _ _ => .inr rfl, fun _ => hsched, hs.armed, fun _ => rfl⟩
  · rw [if_neg hsched] at h ⊢
    split at h
    · exact ⟨hs.isOpen, hs.newest, fun _ _ => .inr rfl, fun _ => rfl, by simp, fun _ => rfl⟩
    · exact flushState_inv (s := { s with stateDirty := true, updated := true }) hs.isOpen hs.armed h

theorem timerFired_inv (hs : s.Inv) (h : (s.timerFired now body).lost = false) :
    (s.timerFired now body).Inv := by
  unfold timerFired at h ⊢
  simp only at h ⊢
  by_cases hdirty : s.stateDirty = true
  · rw [if_neg (by simp [hdirty])] at h ⊢
    exact flushState_inv (s := { s with statePutScheduled := false, stateTimer := none }) hs.isOpen
      (by simp) h
  · rw [if_pos (by simp [hdirty])] at h ⊢
    exact ⟨hs.isOpen, hs.newest, hs.settled, fun hd => absurd hd hdirty, by simp, hs.updated⟩

theorem applyStatePushResult_inv {res : StatePushResult} {results : List StatePushResult}
    {jitter : Nat} (hs : s.Inv) (hres : s.run.results = res :: results) :
    (applyStatePushResult { s with run := { s.run with results } } res now jitter).Inv := by
  let run : PushRun := { s.run with results }
  have hout : s.run.outstanding = res.seq :: run.outstanding := by
    simp [PushRun.outstanding, hres, run]
  have hnewest : ∀ seq ∈ run.outstanding.getLast?, seq = s.stateSeq := by
    intro seq hseq
    refine hs.newest seq ?_
    rw [hout, getLast?_cons]
    simp [mem_def.mp hseq]
  have hlast : run.outstanding = [] → res.seq = s.stateSeq := by
    intro he
    exact hs.newest res.seq (by simp [hout, he])
  unfold applyStatePushResult
  simp only
  generalize hip : (if res.publicIp ≠ "" then
    { s with run := run, publicIp := res.publicIp } else { s with run := run } : StateSync) = s₁
  obtain ⟨ip, rfl⟩ : ∃ ip, s₁ = { s with run := run, publicIp := ip } := by
    subst hip
    split
    · exact ⟨_, rfl⟩
    · exact ⟨s.publicIp, rfl⟩
  rcases res.err with _ | err
  · refine ⟨hs.isOpen, hnewest, fun he _ => ?_, hs.scheduled, hs.armed, hs.updated⟩
    exact .inl (by simp [hlast he])
  · simp only
    by_cases hseq : res.seq = s.stateSeq
    · rw [if_pos hseq]
      exact ⟨hs.isOpen, hnewest, fun _ _ => .inr rfl, fun _ => rfl, by simp, fun _ => rfl⟩
    · rw [if_neg hseq]
      exact ⟨hs.isOpen, hnewest, fun he => absurd (hlast he) hseq, hs.scheduled, hs.armed,
        hs.updated⟩

theorem lost_applyStatePushResult (s : StateSync) (res : StatePushResult) (now jitter : Nat) :
    (s.applyStatePushResult res now jitter).lost = s.lost := by
  unfold applyStatePushResult
  simp only
  split <;> split <;> first | rfl | split <;> rfl

theorem lost_of_pushState (h : (s.pushState reason body).lost = false) : s.lost = false := by
  unfold pushState at h
  simp only at h
  split at h
  · exact (Bool.or_eq_false_iff.mp h).1
  · split at h
    · cases h
    · exact (Bool.or_eq_false_iff.mp h).1

theorem lost_of_flushState (h : (s.flushState now body).lost = false) : s.lost = false :=
  lost_of_pushState (s := { s with stateDirty := false, lastStatePut := some now }) h

theorem lost_of_step {ev : Event} (h : step s ev = some s') (hlost : s'.lost = false) :
    s.lost = false := by
  cases ev with
  | update =>
    cases h
    unfold updateState at hlost
    simp only at hlost
    split at hlost
    · exact hlost
    · split at hlost
      · exact hlost
      · exact lost_of_flushState (s := { s with stateDirty := true, updated := true }) hlost
  | flush =>
    cases h
    exact lost_of_flushState hlost
  | push =>
    cases h
    exact lost_of_pushState hlost
  | connect =>
    cases h
    exact hlost
  | timer =>
    simp only [step] at h
    split at h
    · simp only [ite_none_right_eq_some, some.injEq] at h
      obtain ⟨-, rfl⟩ := h
      unfold timerFired at hlost
      simp only at hlost
      split at hlost
      · exact hlost
      · exact lost_of_flushState (s := { s with statePutScheduled := false, stateTimer := none })
          hlost
    · cases h
  | result =>
    simp only [step] at h
    split at h
    · cases h
    · rename_i res results hres
      cases h
      rwa [lost_applyStatePushResult] at hlost
  | lane =>
    simp only [step, ite_none_right_eq_some, map_eq_some_iff] at h
    obtain ⟨-, run, -, rfl⟩ := h
    exact hlost

theorem step_inv {ev : Event} (hs : s.Inv) (h : step s ev = some s') (hlost : s'.lost = false) :
    s'.Inv := by
  cases ev with
  | update =>
    cases h
    exact updateState_inv hs hlost
  | flush =>
    cases h
    exact flushState_inv hs.isOpen hs.armed hlost
  | push =>
    cases h
    exact (pushState_pushed hs.isOpen hlost).inv hs.scheduled hs.armed
  | connect =>
    cases h
    exact ⟨hs.isOpen, hs.newest, hs.settled, hs.scheduled, hs.armed, hs.updated⟩
  | timer =>
    simp only [step] at h
    split at h
    · simp only [ite_none_right_eq_some, some.injEq] at h
      obtain ⟨-, rfl⟩ := h
      exact timerFired_inv hs hlost
    · cases h
  | result =>
    simp only [step] at h
    split at h
    · cases h
    · rename_i res results hres
      cases h
      exact applyStatePushResult_inv hs hres
  | lane =>
    simp only [step, ite_none_right_eq_some, map_eq_some_iff] at h
    obtain ⟨hop, run, hrun, rfl⟩ := h
    obtain ⟨hout, hquit, hclosed⟩ := PushRun.outstanding_of_run hs.isOpen.2 hop hrun
    refine ⟨⟨hclosed.trans hs.isOpen.1, hquit⟩, ?_, ?_, hs.scheduled, hs.armed, hs.updated⟩
    · simpa only [hout] using hs.newest
    · simpa only [hout] using hs.settled

theorem inv_of_exec {evs : List Event} (h : exec step {} evs = some s) (hlost : s.lost = false) :
    s.Inv := by
  have hinit : ({} : StateSync).lost = false → ({} : StateSync).Inv := fun _ =>
    ⟨⟨rfl, rfl⟩, by simp [PushRun.outstanding, PushRun.Place.seqs], by simp, by simp, by simp,
      by simp⟩
  refine exec_invariant (I := fun s => s.lost = false → s.Inv) ?_ hinit h hlost
  intro s ev s' hs hstep hlost
  exact step_inv (hs (lost_of_step hstep hlost)) hstep hlost

theorem timer_pushes (hs : s.Inv) (hdirty : s.stateDirty = true)
    (h : step s (.timer now body) = some s') (hlost : s'.lost = false) :
    s'.stateSeq = s.stateSeq + 1 ∧ s'.stateSeq ∈ s'.run.outstanding := by
  simp only [step] at h
  split at h
  · simp only [ite_none_right_eq_some, some.injEq] at h
    obtain ⟨-, rfl⟩ := h
    unfold timerFired at hlost ⊢
    simp only at hlost ⊢
    rw [if_neg (by simp [hdirty])] at hlost ⊢
    have hpushed := flushState_pushed
      (s := { s with statePutScheduled := false, stateTimer := none }) hs.isOpen hlost
    exact ⟨hpushed.seq, mem_of_getLast? hpushed.last⟩
  · cases h

/-- In every run that loses no push, the newest push has succeeded, is on its way, or the state is
dirty. It is dirty if it changed since that push, and then the timer is armed and will push it. -/
theorem newest_push_never_forgotten {s : StateSync} {evs : List Event}
    (h : exec step {} evs = some s) (hlost : s.lost = false) :
    (s.pushed = true →
      s.acked = true ∨ s.stateSeq ∈ s.run.outstanding ∨ s.stateDirty = true) ∧
    (s.updated = true → s.stateDirty = true) ∧
    (s.stateDirty = true → s.statePutScheduled = true ∧ s.stateTimer.isSome = true ∧
      ∀ now body s', step s (.timer now body) = some s' → s'.lost = false →
        s'.stateSeq = s.stateSeq + 1 ∧ s'.stateSeq ∈ s'.run.outstanding) := by
  have hs := inv_of_exec h hlost
  refine ⟨fun hpushed => ?_, hs.updated, fun hdirty => ?_⟩
  · rcases hout : s.run.outstanding.getLast? with _ | seq
    · exact (hs.settled (getLast?_eq_none_iff.mp hout) hpushed).imp_right .inr
    · obtain rfl := hs.newest seq (mem_def.mpr hout)
      exact .inr (.inl (mem_of_getLast? hout))
  · have hscheduled := hs.scheduled hdirty
    exact ⟨hscheduled, hs.armed.mp hscheduled, fun now body s' => timer_pushes hs hdirty⟩

def retriedRun : List Event :=
  [.connect "conn", .push .newDevice (some []), .lane .sendWake, .lane .look,
    .push .volumeChanged (some []), .lane (.putReturns "" (some .other)), .lane .handOver,
    .result 5 0, .lane .look, .lane (.putReturns "" (some (.rateLimited 70))), .lane .handOver,
    .result 10 0, .update 20 (some [])]

theorem newest_push_never_forgotten_retriedRun : ∃ s, exec step {} retriedRun = some s ∧
    s.lost = false ∧ s.stateSeq = 2 ∧ s.updated = true ∧ s.stateDirty = true ∧
    s.statePutScheduled = true ∧ s.stateTimer = some 80 := by
  have hs : exec step {} retriedRun = some _ := exec_get (by decide +kernel)
  obtain ⟨-, hdirty, harmed⟩ := newest_push_never_forgotten hs (by decide +kernel)
  have hdirty := hdirty (by decide +kernel)
  exact ⟨_, hs, by decide +kernel, by decide +kernel, by decide +kernel, hdirty,
    (harmed hdirty).1, by decide +kernel⟩

end StateSync

end Librespot.Daemon
