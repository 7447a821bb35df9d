import Librespot.Base.Run
import Librespot.Ids

/-! # The state push lane (`daemon/statepush.go`) -/

open Base.Run List Option

namespace Librespot.Daemon

inductive PutStateReason
  | unknownPutStateReason
  | spircHello
  | spircNotify
  | newDevice
  | playerStateChanged
  | volumeChanged
  | pickerOpened
  | becameInactive
  | aliasChanged
  | newConnection
  | pullPlayback
  | audioDriverInfoChanged
  | putStateRateLimited
  | backendMetadataApplied
  | localDevicesChanged
  | groupStateChanged
  | privateSessionChanged
deriving DecidableEq, Repr

structure StatePush where
  seq : UInt64
  reason : PutStateReason
  spotConnId : String := ""
  body : Option Bytes := none
deriving DecidableEq, Repr

/-- Every other reason marks a transition that the backend has to see in order. -/
def StatePush.coalesces (p : StatePush) : Bool := p.reason = .playerStateChanged

def statePushQueueSize : Nat := 4

structure StatePushLane where
  queue : List StatePush := []
  closed : Bool := false
deriving DecidableEq, Repr

namespace StatePushLane

def dropped (queue : List StatePush) : Nat := (queue.findIdx? StatePush.coalesces).getD 0

/-- The overflow loop. Every round drops one push, so the length bounds the rounds. -/
def trim : Nat → List StatePush → List StatePush
  | 0, queue => queue
  | n + 1, queue =>
    if queue.length > statePushQueueSize then trim n (queue.eraseIdx (dropped queue)) else queue

def enqueue (push : StatePush) (queue : List StatePush) : List StatePush :=
  match queue.getLast? with
  | some last =>
    if last.coalesces ∧ push.coalesces then queue.dropLast ++ [push] else queue ++ [push]
  | none => queue ++ [push]

def submit (push : StatePush) (l : StatePushLane) : StatePushLane :=
  if l.closed then l
  else
    let queue := enqueue push l.queue
    { l with queue := trim queue.length queue }

def next (l : StatePushLane) : Option StatePush × StatePushLane :=
  match l.queue with
  | [] => (none, l)
  | push :: queue => (some push, { l with queue })

def close (l : StatePushLane) : StatePushLane := { l with closed := true }

def Refuses (queue : List StatePush) (push : StatePush) : Prop :=
  push.coalesces ∧ queue.length = statePushQueueSize ∧ ∀ q ∈ queue, ¬ q.coalesces

variable {queue : List StatePush} {l : StatePushLane}

theorem trim_of_le {n : Nat} (h : queue.length ≤ statePushQueueSize) : trim n queue = queue := by
  cases n with
  | zero => rfl
  | succ => rw [trim, if_neg (by omega)]

theorem dropped_lt (h : queue ≠ []) : dropped queue < queue.length := by
  unfold dropped
  rcases hd : queue.findIdx? StatePush.coalesces with _ | i
  · simp only [getD_none]
    exact length_pos_of_ne_nil h
  · exact (findIdx?_eq_some_iff_getElem.mp hd).1

theorem trim_succ {n : Nat} (h : queue.length = statePushQueueSize + 1) :
    trim (n + 1) queue = queue.eraseIdx (dropped queue) := by
  have hne : queue ≠ [] := ne_nil_of_length_pos (by omega)
  rw [trim, if_pos (by omega), trim_of_le]
  rw [length_eraseIdx_of_lt (dropped_lt hne)]
  omega

theorem submit_cases (push : StatePush) (hopen : l.closed = false)
    (h : l.queue.length ≤ statePushQueueSize) :
    (∃ init last, l.queue = init ++ [last] ∧ last.coalesces = true ∧ push.coalesces = true ∧
      (l.submit push).queue = init ++ [push]) ∨
    ((∀ last ∈ l.queue.getLast?, ¬ (last.coalesces ∧ push.coalesces)) ∧
      (l.queue.length < statePushQueueSize ∧ (l.submit push).queue = l.queue ++ [push] ∨
        l.queue.length = statePushQueueSize ∧
          (l.submit push).queue = (l.queue ++ [push]).eraseIdx (dropped (l.queue ++ [push])))) := by
  have happend : ∀ queue, queue = l.queue ++ [push] →
      (l.queue.length < statePushQueueSize ∧ trim queue.length queue = queue) ∨
      (l.queue.length = statePushQueueSize ∧
        trim queue.length queue = queue.eraseIdx (dropped queue)) := by
    rintro queue rfl
    have hlen : (l.queue ++ [push]).length = l.queue.length + 1 := by simp
    rcases lt_or_eq_of_le h with hlt | heq
    · exact .inl ⟨hlt, trim_of_le (by omega)⟩
    · exact .inr ⟨heq, by rw [hlen]; exact trim_succ (by omega)⟩
  unfold submit
  rw [if_neg (by simp [hopen])]
  simp only
  rcases hlast : l.queue.getLast? with _ | last
  · have henq : enqueue push l.queue = l.queue ++ [push] := by simp [enqueue, hlast]
    rw [henq]
    exact .inr ⟨by simp, happend _ rfl⟩
  · by_cases hc : last.coalesces ∧ push.coalesces
    · have henq : enqueue push l.queue = l.queue.dropLast ++ [push] := by
        simp [enqueue, hlast, hc]
      obtain ⟨init, hinit⟩ := getLast?_eq_some_iff.mp hlast
      rw [henq, hinit]
      simp only [dropLast_concat]
      refine .inl ⟨init, last, rfl, hc.1, hc.2, trim_of_le ?_⟩
      rw [hinit] at h
      simpa using h
    · have henq : enqueue push l.queue = l.queue ++ [push] := by simp [enqueue, hlast, hc]
      rw [henq]
      exact .inr ⟨by simpa using hc, happend _ rfl⟩

theorem length_submit (push : StatePush) (h : l.queue.length ≤ statePushQueueSize) :
    (l.submit push).queue.length ≤ statePushQueueSize := by
  rcases hc : l.closed with _ | _
  · rcases submit_cases push hc h with ⟨init, last, hq, -, -, he⟩ | ⟨-, ⟨hlt, he⟩ | ⟨heq, he⟩⟩
    · rw [hq] at h
      rw [he]
      simpa using h
    · rw [he, length_append]
      exact hlt
    · rw [he, length_eraseIdx_of_lt (dropped_lt (by simp)), length_append]
      simp [heq]
  · unfold submit
    rw [if_pos hc]
    exact h

theorem dropped_append (queue : List StatePush) (push : StatePush)
    (h : queue.length = statePushQueueSize) :
    (dropped (queue ++ [push]) < queue.length ∧ ¬ Refuses queue push) ∨
    (dropped (queue ++ [push]) = queue.length ∧ Refuses queue push) := by
  unfold dropped
  rw [findIdx?_append]
  rcases hd : queue.findIdx? StatePush.coalesces with _ | i
  · have hnone := findIdx?_eq_none_iff.mp hd
    by_cases hp : push.coalesces = true
    · right
      refine ⟨by simp [hp], hp, h, ?_⟩
      intro q hq
      simp [hnone q hq]
    · left
      refine ⟨?_, fun hr => hp hr.1⟩
      simp only [hp, findIdx?_singleton]
      simp [h, statePushQueueSize]
  · left
    obtain ⟨hlt, hi, -⟩ := findIdx?_eq_some_iff_getElem.mp hd
    refine ⟨by simpa using hlt, ?_⟩
    rintro ⟨-, -, hr⟩
    exact hr _ (getElem_mem hlt) hi

theorem getLast?_submit (push : StatePush) (hopen : l.closed = false)
    (h : l.queue.length ≤ statePushQueueSize) :
    (l.submit push).queue.getLast? = some push ↔ ¬ Refuses l.queue push := by
  rcases submit_cases push hopen h with ⟨init, last, hq, hl, -, he⟩ | ⟨-, ⟨hlt, he⟩ | ⟨heq, he⟩⟩
  · rw [he]
    refine ⟨fun _ hr => ?_, fun _ => by simp⟩
    exact hr.2.2 last (by simp [hq]) hl
  · rw [he]
    refine ⟨fun _ hr => ?_, fun _ => by simp⟩
    have := hr.2.1
    omega
  · rw [he]
    rcases dropped_append l.queue push heq with ⟨hlt, hr⟩ | ⟨hd, hr⟩
    · rw [eraseIdx_append_of_lt_length hlt]
      exact ⟨fun _ => hr, fun _ => by simp⟩
    · rw [eraseIdx_append_of_length_le (by omega), hd]
      refine ⟨fun hlast => ?_, fun hn => absurd hr hn⟩
      simp only [Nat.sub_self, eraseIdx_zero, tail_cons, append_nil] at hlast
      have hmem := mem_of_getLast? hlast
      exact absurd hr.1 (hr.2.2 push hmem)

/-- A lane with what was submitted to it and what was taken from it. `fresh` marks the state right
after a submit to the open lane. -/
structure History where
  lane : StatePushLane := {}
  submitted : List StatePush := []
  taken : List StatePush := []
  fresh : Bool := false
deriving DecidableEq, Repr

inductive Op
  | submit (push : StatePush)
  | next
  | close
deriving DecidableEq, Repr

def step (h : History) : Op → Option History
  | .submit push =>
    if ∀ p ∈ h.submitted, p.seq < push.seq then
      if h.lane.closed then some { h with lane := h.lane.submit push, fresh := false }
      else some { h with
        lane := h.lane.submit push, submitted := h.submitted ++ [push], fresh := true }
    else none
  | .next => some { h with
      lane := h.lane.next.2, taken := h.taken ++ h.lane.next.1.toList, fresh := false }
  | .close => some { h with lane := h.lane.close, fresh := false }

/-- The newest push is at the end of the queue right after it was submitted, and a player state
that is gone without having been taken was followed by a later push. -/
structure KeepsNewest (h : History) : Prop where
  last : h.fresh = true → h.lane.queue.getLast? = h.submitted.getLast?
  superseded : ∀ p ∈ h.submitted, p.coalesces = true → p ∉ h.taken → p ∉ h.lane.queue →
    ∃ q ∈ h.submitted, p.seq < q.seq

def Accepts (h : History) : Op → Prop
  | .submit push => h.lane.closed = false → ¬ Refuses h.lane.queue push
  | _ => True

structure Inv (h : History) : Prop where
  length : h.lane.queue.length ≤ statePushQueueSize
  keeps : KeepsNewest h

theorem step_keepsNewest {h h' : History} {op : Op} (hinv : Inv h) (hs : step h op = some h') :
    (Accepts h op → Inv h') ∧ (KeepsNewest h' → Accepts h op) := by
  obtain ⟨hlen, hkeeps⟩ := hinv
  cases op with
  | submit push =>
    simp only [step] at hs
    split at hs
    · rename_i hseq
      rcases hc : h.lane.closed with _ | _
      · simp only [hc, Bool.false_eq_true, if_false, some.injEq] at hs
        subst hs
        have hlast := getLast?_submit push hc hlen
        constructor
        · intro hacc
          have hnew := hlast.mpr (hacc hc)
          refine ⟨length_submit push hlen, ⟨fun _ => by simp [hnew], ?_⟩⟩
          intro p hp _ _ hq
          rcases mem_append.mp hp with hp | hp
          · exact ⟨push, by simp, hseq p hp⟩
          · rw [mem_singleton] at hp
            exact absurd (mem_of_getLast? hnew) (hp ▸ hq)
        · intro hk _
          exact hlast.mp (by simpa using hk.last rfl)
      · simp only [hc, if_true, some.injEq] at hs
        subst hs
        have hsame : h.lane.submit push = h.lane := by simp [submit, hc]
        simp only [hsame]
        refine ⟨fun _ => ⟨hlen, fun hf => by simp at hf, hkeeps.superseded⟩, fun _ ho => ?_⟩
        simp [hc] at ho
    · simp at hs
  | next =>
    cases hs
    refine ⟨fun _ => ?_, fun _ => trivial⟩
    unfold next
    rcases hq : h.lane.queue with _ | ⟨push, queue⟩
    · refine ⟨by simp [hq], fun hf => by simp at hf, ?_⟩
      simpa [hq] using hkeeps.superseded
    · rw [hq] at hlen
      refine ⟨by simp at hlen ⊢; omega, fun hf => by simp at hf, ?_⟩
      intro p hp hcp ht hnq
      simp only [toList_some, mem_append, mem_singleton, not_or] at ht
      refine hkeeps.superseded p hp hcp ht.1 ?_
      rw [hq, mem_cons, not_or]
      exact ⟨ht.2, hnq⟩
  | close =>
    cases hs
    exact ⟨fun _ => ⟨hlen, fun hf => by simp at hf, hkeeps.superseded⟩, fun _ => trivial⟩

theorem inv_new : Inv {} := ⟨by simp, fun hf => by simp at hf, by simp⟩

/-- The runs that never lose the newest push are those in which no player state is submitted to a
queue full of transitions. -/
theorem keepsNewest_iff_accepts (ops : List Op) :
    Always step KeepsNewest {} ops ↔ Meets step Accepts {} ops := by
  refine always_iff_meets (I := Inv) (L := fun _ => True) ?_ ?_ ?_ inv_new (fun _ _ => trivial)
  · intro h hinv
    exact hinv.keeps
  · intro h op h' hinv _ hacc hs
    exact (step_keepsNewest hinv hs).1 hacc
  · intro h op h' hinv _ hs hk
    exact (step_keepsNewest hinv hs).2 hk

def transitionsRun : List Op :=
  [.submit ⟨1, .volumeChanged, "", none⟩, .submit ⟨2, .volumeChanged, "", none⟩,
    .submit ⟨3, .volumeChanged, "", none⟩, .submit ⟨4, .volumeChanged, "", none⟩,
    .submit ⟨5, .playerStateChanged, "", none⟩]

theorem keepsNewest_fails_on_transitions : ∃ h, exec step {} transitionsRun = some h ∧
    h.fresh = true ∧ h.lane.queue.map StatePush.seq = [1, 2, 3, 4] ∧
    h.submitted.getLast? = some ⟨5, .playerStateChanged, "", none⟩ ∧ ¬ KeepsNewest h :=
  ⟨Option.get _ (by decide), exec_get _, by decide, by decide, by decide,
    fun hk => absurd (hk.last (by decide)) (by decide)⟩

end StatePushLane

end Librespot.Daemon
