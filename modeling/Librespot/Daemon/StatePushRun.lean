import Librespot.Daemon.StatePush

/-! # The goroutine of the state push lane (`daemon/statepush.go`) -/

open Base.Run List Option

namespace Librespot.Daemon

inductive PutError
  | rateLimited (retryAfter : Nat)
  | other
deriving DecidableEq, Repr

structure StatePushResult where
  seq : UInt64
  reason : PutStateReason
  publicIp : String := ""
  err : Option PutError := none
deriving DecidableEq, Repr

namespace PushRun

inductive Place
  /-- About to call `next`. -/
  | looking
  /-- In the select on `wake` and `quit`. -/
  | waiting
  /-- `quit` was seen, and `pending` comes next. -/
  | leaving
  | putting (push : StatePush)
  /-- In the select on `results` and `quit`. -/
  | handing (res : StatePushResult)
  /-- Returned, so `done` is closed. -/
  | returned
deriving DecidableEq, Repr

/-- How far the call of `close` that closed the lane has come. -/
inductive Closing
  | notCalled
  | entered
  | draining
  | returned
deriving DecidableEq, Repr

end PushRun

/-- A lane, its goroutine and its channels. `waking` counts the submits that have released the
mutex and not yet sent their wake, `puts` are the pushes whose put was started. -/
structure PushRun where
  lane : StatePushLane := {}
  waking : Nat := 0
  wake : Bool := false
  results : List StatePushResult := []
  quit : Bool := false
  place : PushRun.Place := .looking
  closing : PushRun.Closing := .notCalled
  puts : List StatePush := []
deriving DecidableEq, Repr

namespace PushRun

inductive Op
  | submit (push : StatePush)
  | sendWake
  | look
  | takeWake
  | seeQuit
  | recheck
  | putReturns (publicIp : String) (err : Option PutError)
  | handOver
  | giveUpResult
  | read
  | close
  | closeQuit
  | seeDone
  | timeout
deriving DecidableEq, Repr

def Op.isRun : Op → Bool
  | .look | .takeWake | .seeQuit | .recheck | .putReturns .. | .handOver | .giveUpResult => true
  | _ => false

def submit (r : PushRun) (push : StatePush) : PushRun :=
  { r with
    lane := r.lane.submit push
    waking := if r.lane.closed then r.waking else r.waking + 1 }

def look (r : PushRun) : PushRun :=
  match r.lane.next with
  | (none, lane) => { r with lane, place := .waiting }
  | (some push, lane) => { r with lane, place := .putting push, puts := r.puts ++ [push] }

def pending (r : PushRun) : Bool := 0 < r.lane.queue.length

/-- A `select` with several ready cases takes any of them, so each case is a step of its own. A
second call of `close` returns at once. -/
def step (r : PushRun) : Op → Option PushRun
  | .submit push => some (r.submit push)
  | .sendWake => if 0 < r.waking then some { r with waking := r.waking - 1, wake := true } else none
  | .look => if r.place = .looking then some r.look else none
  | .takeWake =>
    if r.place = .waiting ∧ r.wake then some { r with wake := false, place := .looking } else none
  | .seeQuit => if r.place = .waiting ∧ r.quit then some { r with place := .leaving } else none
  | .recheck =>
    if r.place = .leaving then
      some { r with place := if r.pending then .looking else .returned }
    else none
  | .putReturns publicIp err =>
    match r.place with
    | .putting push =>
      some { r with place := .handing { seq := push.seq, reason := push.reason, publicIp, err } }
    | _ => none
  | .handOver =>
    match r.place with
    | .handing res =>
      if r.results.length < statePushQueueSize then
        some { r with results := r.results ++ [res], place := .looking }
      else none
    | _ => none
  | .giveUpResult =>
    match r.place with
    | .handing _ => if r.quit then some { r with place := .looking } else none
    | _ => none
  | .read => if r.results = [] then none else some { r with results := r.results.tail }
  | .close =>
    if r.lane.closed then some r
    else some { r with lane := r.lane.close, closing := .entered }
  | .closeQuit =>
    if r.closing = .entered then some { r with quit := true, closing := .draining } else none
  | .seeDone =>
    if r.closing = .draining ∧ r.place = .returned then some { r with closing := .returned }
    else none
  | .timeout =>
    if r.closing = .draining then
      some { r with lane := { r.lane with queue := [] }, closing := .returned }
    else none

/-! ## What one step does -/

/-- The steps, with their guards. `look` either starts to wait or takes the head of the queue. -/
inductive Moves (r : PushRun) : Op → PushRun → Prop
  | submitted (push : StatePush) : Moves r (.submit push) (r.submit push)
  | woke : 0 < r.waking → Moves r .sendWake { r with waking := r.waking - 1, wake := true }
  | waits : r.place = .looking → r.lane.queue = [] → Moves r .look { r with place := .waiting }
  | takes {push : StatePush} {queue : List StatePush} : r.place = .looking →
      r.lane.queue = push :: queue → Moves r .look { r with
        lane := { r.lane with queue }, place := .putting push, puts := r.puts ++ [push] }
  | tookWake : r.place = .waiting → r.wake = true →
      Moves r .takeWake { r with wake := false, place := .looking }
  | sawQuit : r.place = .waiting → r.quit = true → Moves r .seeQuit { r with place := .leaving }
  | goesOn : r.place = .leaving → r.lane.queue ≠ [] → Moves r .recheck { r with place := .looking }
  | leaves : r.place = .leaving → r.lane.queue = [] →
      Moves r .recheck { r with place := .returned }
  | put {push : StatePush} {ip : String} {err : Option PutError} : r.place = .putting push →
      Moves r (.putReturns ip err)
        { r with place := .handing ⟨push.seq, push.reason, ip, err⟩ }
  | handed {res : StatePushResult} : r.place = .handing res →
      r.results.length < statePushQueueSize →
      Moves r .handOver { r with results := r.results ++ [res], place := .looking }
  | gaveUp {res : StatePushResult} : r.place = .handing res → r.quit = true →
      Moves r .giveUpResult { r with place := .looking }
  | wasRead : r.results ≠ [] → Moves r .read { r with results := r.results.tail }
  | again : r.lane.closed = true → Moves r .close r
  | closed : r.lane.closed = false →
      Moves r .close { r with lane := r.lane.close, closing := .entered }
  | quits : r.closing = .entered → Moves r .closeQuit { r with quit := true, closing := .draining }
  | sawDone : r.closing = .draining → r.place = .returned →
      Moves r .seeDone { r with closing := .returned }
  | timedOut : r.closing = .draining → Moves r .timeout
      { r with lane := { r.lane with queue := [] }, closing := .returned }

variable {r r' : PushRun} {op : Op}

theorem look_moves (h : r.place = .looking) : Moves r .look r.look := by
  unfold look StatePushLane.next
  rcases hq : r.lane.queue with _ | ⟨push, queue⟩
  · exact .waits h hq
  · exact .takes h hq

theorem recheck_moves (h : r.place = .leaving) :
    Moves r .recheck { r with place := if r.pending then .looking else .returned } := by
  unfold pending
  rcases hq : r.lane.queue with _ | ⟨push, queue⟩
  · exact .leaves h hq
  · exact .goesOn h (by simp [hq])

theorem step_moves (h : step r op = some r') : Moves r op r' := by
  cases op with
  | submit push =>
    cases h
    exact .submitted push
  | sendWake =>
    obtain ⟨hw, rfl⟩ : 0 < r.waking ∧ _ = r' := by simpa [step] using h
    exact .woke hw
  | look =>
    obtain ⟨hp, rfl⟩ : r.place = .looking ∧ _ = r' := by simpa [step] using h
    exact look_moves hp
  | takeWake =>
    obtain ⟨⟨hp, hw⟩, rfl⟩ : (r.place = .waiting ∧ r.wake = true) ∧ _ = r' := by
      simpa [step] using h
    exact .tookWake hp hw
  | seeQuit =>
    obtain ⟨⟨hp, hq⟩, rfl⟩ : (r.place = .waiting ∧ r.quit = true) ∧ _ = r' := by
      simpa [step] using h
    exact .sawQuit hp hq
  | recheck =>
    simp only [step, ite_none_right_eq_some, some.injEq] at h
    obtain ⟨hp, rfl⟩ := h
    exact recheck_moves hp
  | putReturns =>
    simp only [step] at h
    split at h
    · rename_i push hp
      cases h
      exact .put hp
    · cases h
  | handOver =>
    simp only [step] at h
    split at h
    · rename_i res hp
      simp only [ite_none_right_eq_some, some.injEq] at h
      obtain ⟨hroom, rfl⟩ := h
      exact .handed hp hroom
    · cases h
  | giveUpResult =>
    simp only [step] at h
    split at h
    · rename_i res hp
      simp only [ite_none_right_eq_some, some.injEq] at h
      obtain ⟨hquit, rfl⟩ := h
      exact .gaveUp hp hquit
    · cases h
  | read =>
    simp only [step, ite_none_left_eq_some, some.injEq] at h
    obtain ⟨hne, rfl⟩ := h
    exact .wasRead hne
  | close =>
    simp only [step] at h
    split at h
    · rename_i hclosed
      cases h
      exact .again hclosed
    · rename_i hopen
      cases h
      exact .closed (by simpa using hopen)
  | closeQuit =>
    obtain ⟨hc, rfl⟩ : r.closing = .entered ∧ _ = r' := by simpa [step] using h
    exact .quits hc
  | seeDone =>
    obtain ⟨⟨hc, hp⟩, rfl⟩ : (r.closing = .draining ∧ r.place = .returned) ∧ _ = r' := by
      simpa [step] using h
    exact .sawDone hc hp
  | timeout =>
    obtain ⟨hc, rfl⟩ : r.closing = .draining ∧ _ = r' := by simpa [step] using h
    exact .timedOut hc

theorem submit_closed (h : r.lane.closed = true) (push : StatePush) : r.submit push = r := by
  unfold submit StatePushLane.submit
  rw [if_pos h, if_pos h]

structure Sound (r : PushRun) : Prop where
  quits : r.quit = true → r.lane.closed = true
  leaves : r.place = .leaving ∨ r.place = .returned → r.quit = true
  enters : r.closing = .entered → r.lane.closed = true

theorem submit_laneClosed (l : StatePushLane) (push : StatePush) :
    (l.submit push).closed = l.closed := by
  unfold StatePushLane.submit
  split <;> rfl

theorem step_sound (hr : r.Sound) (h : step r op = some r') : r'.Sound := by
  obtain ⟨hquits, hleaves, henters⟩ := hr
  cases step_moves h with
  | submitted push =>
    have hclosed := submit_laneClosed r.lane push
    exact ⟨fun hq => hclosed.trans (hquits hq), hleaves, fun hc => hclosed.trans (henters hc)⟩
  | woke | wasRead | again => exact ⟨hquits, hleaves, henters⟩
  | waits | takes | tookWake | goesOn | put | handed | gaveUp => exact ⟨hquits, by simp, henters⟩
  | sawQuit _ hquit => exact ⟨hquits, fun _ => hquit, henters⟩
  | leaves hp => exact ⟨hquits, fun _ => hleaves (.inl hp), henters⟩
  | closed => exact ⟨fun _ => rfl, hleaves, fun _ => rfl⟩
  | quits hc => exact ⟨fun _ => henters hc, fun _ => rfl, by simp⟩
  | sawDone | timedOut => exact ⟨hquits, hleaves, by simp⟩

theorem sound_of_exec {ops : List Op} (h : exec step {} ops = some r) : r.Sound :=
  exec_invariant (fun _ _ _ => step_sound) ⟨by simp, by simp, by simp⟩ h

structure Drains (pushes : List StatePush) (r : PushRun) : Prop where
  closed : r.lane.closed = true
  order : r.puts ++ r.lane.queue = pushes
  empty : r.place = .returned → r.lane.queue = []
  waited : r.closing = .returned → r.place = .returned

theorem step_drains {pushes : List StatePush} (hr : Drains pushes r) (htime : op ≠ .timeout)
    (h : step r op = some r') : Drains pushes r' := by
  obtain ⟨hclosed, horder, hempty, hwaited⟩ := hr
  -- While the goroutine is on its way, `close` has not returned.
  have hbusy : r.place ≠ .returned → r.closing ≠ .returned := fun hp hc => hp (hwaited hc)
  cases step_moves h with
  | submitted =>
    rw [submit_closed hclosed]
    exact ⟨hclosed, horder, hempty, hwaited⟩
  | woke | wasRead | again => exact ⟨hclosed, horder, hempty, hwaited⟩
  | takes hp hq =>
    refine ⟨hclosed, ?_, by simp, fun hc => absurd hc (hbusy (by simp [hp]))⟩
    rw [← horder, hq, append_assoc]
    rfl
  | leaves _ hq => exact ⟨hclosed, horder, fun _ => hq, fun _ => rfl⟩
  | waits hp | tookWake hp | sawQuit hp | goesOn hp | put hp | handed hp | gaveUp hp =>
    exact ⟨hclosed, horder, by simp, fun hc => absurd hc (hbusy (by simp [hp]))⟩
  | closed hopen => simp [hclosed] at hopen
  | quits => exact ⟨hclosed, horder, hempty, by simp⟩
  | sawDone _ hp => exact ⟨hclosed, horder, hempty, fun _ => hp⟩
  | timedOut => exact absurd rfl htime

/-! ## The goroutine comes to its end -/

def Place.cost (queue : List StatePush) : Place → Nat
  | .looking => 3
  | .waiting => if queue = [] then 2 else 5
  | .leaving => if queue = [] then 1 else 4
  | .putting _ => 5
  | .handing _ => 4
  | .returned => 0

def work (r : PushRun) : Nat :=
  4 * r.lane.queue.length + r.place.cost r.lane.queue + (if r.wake then 2 else 0) + 3 * r.waking

theorem Place.cost_waiting (queue : List StatePush) : 2 ≤ Place.cost queue .waiting := by
  simp only [Place.cost]
  split <;> omega

theorem step_work (hr : r.lane.closed = true) (h : step r op = some r') :
    r'.work + (if op.isRun then 1 else 0) ≤ r.work := by
  unfold work
  cases step_moves h with
  | submitted => simp [submit_closed hr, Op.isRun]
  | woke =>
    simp only [Op.isRun, Bool.false_eq_true, if_false, if_true]
    split <;> omega
  | waits hp hq =>
    simp only [Op.isRun, Place.cost, hp, hq, if_true]
    omega
  | takes hp hq =>
    simp only [Op.isRun, Place.cost, hp, hq, length_cons, if_true]
    omega
  | tookWake hp hw =>
    have := Place.cost_waiting r.lane.queue
    simp only [Op.isRun, hp, hw, Place.cost, Bool.false_eq_true, if_false, if_true] at this ⊢
    omega
  | sawQuit hp =>
    simp only [Op.isRun, hp, Place.cost, if_true]
    split <;> omega
  | goesOn hp hq =>
    simp only [Op.isRun, hp, hq, Place.cost, if_false, if_true]
    omega
  | leaves hp hq =>
    simp only [Op.isRun, hp, hq, Place.cost, if_true]
    omega
  | put hp | handed hp | gaveUp hp =>
    simp only [Op.isRun, hp, Place.cost, if_true]
    omega
  | wasRead | again | quits | sawDone => simp [Op.isRun]
  | closed hopen => simp [hr] at hopen
  | timedOut =>
    simp only [Op.isRun, length_nil, Bool.false_eq_true, if_false]
    have : r.place.cost [] ≤ r.place.cost r.lane.queue := by
      unfold Place.cost
      cases r.place <;> simp only [if_true] <;> first | omega | split <;> omega
    omega

theorem step_closed (hr : r.lane.closed = true) (h : step r op = some r') :
    r'.lane.closed = true := by
  cases step_moves h with
  | submitted push => exact (submit_laneClosed r.lane push).trans hr
  | closed => rfl
  | _ => exact hr

theorem countP_isRun_le {ops : List Op} (hr : r.lane.closed = true)
    (h : exec step r ops = some r') : ops.countP Op.isRun ≤ r.work := by
  induction ops generalizing r with
  | nil => simp
  | cons _ _ ih =>
    obtain ⟨r₁, h₁, h₂⟩ := exec_cons_eq_some.mp h
    have hrest := ih (step_closed hr h₁) h₂
    have hwork := step_work hr h₁
    rw [countP_cons]
    omega

theorem not_stuck (hquit : r.quit = true) (hplace : r.place ≠ .returned) :
    ∃ op r', op.isRun = true ∧ step r op = some r' := by
  rcases hp : r.place with _ | _ | _ | push | res | _
  · exact ⟨.look, r.look, rfl, if_pos hp⟩
  · exact ⟨.seeQuit, _, rfl, if_pos ⟨hp, hquit⟩⟩
  · exact ⟨.recheck, _, rfl, if_pos hp⟩
  · exact ⟨.putReturns "" none, { r with place := .handing ⟨push.seq, push.reason, "", none⟩ },
      rfl, by simp only [step, hp]⟩
  · exact ⟨.giveUpResult, { r with place := .looking }, rfl, by simp [step, hp, hquit]⟩
  · exact absurd hp hplace

/-- From the moment `close` is entered, the pushes still queued are put once each, in order. When
`close` returns they all are, and no put follows. The goroutine gets there: it is never stuck once
`quit` is closed, whoever reads the results, and it has only so many steps left. -/
theorem close_drains_queue {before after : List Op} {r t : PushRun}
    (hr : exec step {} before = some r) (hopen : r.lane.closed = false)
    (ht : exec step r (.close :: after) = some t) (htime : Op.timeout ∉ after) :
    t.puts ++ t.lane.queue = r.puts ++ r.lane.queue ∧
    (t.closing = .returned → t.puts = r.puts ++ r.lane.queue ∧ t.place = .returned ∧
      ∀ op t', step t op = some t' → t'.puts = t.puts) ∧
    (∀ push, t.submit push = t) ∧
    (t.quit = true → ∀ res, t.place = .handing res → (step t .giveUpResult).isSome) ∧
    (t.quit = true → t.place ≠ .returned → ∃ op t', op.isRun = true ∧ step t op = some t') ∧
    after.countP Op.isRun ≤ r.work := by
  obtain ⟨r₁, h₁, h₂⟩ := exec_cons_eq_some.mp ht
  have hsound := sound_of_exec hr
  have hquit : r.quit ≠ true := fun hq => by simp [hsound.quits hq] at hopen
  have hplace : r.place ≠ .returned := fun hp => hquit (hsound.leaves (.inr hp))
  obtain rfl : { r with lane := r.lane.close, closing := .entered } = r₁ := by
    simpa [step, hopen] using h₁
  have hdrains : Drains (r.puts ++ r.lane.queue) t := by
    refine exec_invariant_of_labels (L := (· ≠ .timeout)) (fun _ _ _ => step_drains) ?_ ?_ h₂
    · exact ⟨rfl, rfl, fun hp => absurd hp hplace, by simp⟩
    · exact fun op hop he => htime (he ▸ hop)
  refine ⟨hdrains.order, fun hret => ?_, submit_closed hdrains.closed, ?_, not_stuck, ?_⟩
  · have hp := hdrains.waited hret
    have horder := hdrains.order
    rw [hdrains.empty hp, append_nil] at horder
    refine ⟨horder, hp, fun op t' hs => ?_⟩
    cases step_moves hs with
    | takes hlook => simp [hp] at hlook
    | _ => rfl
  · intro hquit res hp
    simp [step, hp, hquit]
  · -- Closing the lane is no work for the goroutine.
    have hwork := countP_isRun_le (r := { r with lane := r.lane.close, closing := .entered }) rfl h₂
    exact hwork

def logoutBefore : List Op :=
  [.submit ⟨1, .volumeChanged, "conn", some []⟩, .sendWake, .look, .putReturns "" none, .handOver,
    .look, .takeWake, .look, .submit ⟨2, .becameInactive, "conn", none⟩]

def logoutAfter : List Op :=
  [.closeQuit, .seeQuit, .recheck, .look, .putReturns "" none, .giveUpResult, .look, .sendWake,
    .takeWake, .look, .seeQuit, .recheck, .seeDone, .submit ⟨3, .playerStateChanged, "", none⟩]

theorem close_drains_queue_logout : ∃ t, exec step {} (logoutBefore ++ .close :: logoutAfter) =
    some t ∧ t.closing = .returned ∧ t.lane.queue = [] ∧
    t.puts = [⟨1, .volumeChanged, "conn", some []⟩, ⟨2, .becameInactive, "conn", none⟩] := by
  have hrun : ((exec step {} logoutBefore).bind fun r =>
      (exec step r (.close :: logoutAfter)).map fun t =>
        (r.lane.closed, r.puts ++ r.lane.queue, t.closing, t.lane.queue)) =
      some (false, [⟨1, .volumeChanged, "conn", some []⟩, ⟨2, .becameInactive, "conn", none⟩],
        .returned, []) := by
    decide +kernel
  simp only [bind_eq_some_iff, map_eq_some_iff, Prod.mk.injEq] at hrun
  obtain ⟨r, hr, t, hrest, hopen, hputs, hret, hempty⟩ := hrun
  have ht : exec step {} (logoutBefore ++ .close :: logoutAfter) = some t := by
    rw [exec_append, hr, bind_some, hrest]
  have h := close_drains_queue hr hopen hrest (by decide)
  exact ⟨t, ht, hret, hempty, (h.2.1 hret).1.trans hputs⟩

end PushRun

end Librespot.Daemon
