import Mathlib.Data.List.Range
import Mathlib.Data.List.Perm.Basic
import Librespot.Base.Run

/-!
# Handing API requests to the session (`daemon/app.go`)

One goroutine receives the API's requests and forwards each to the current session. Calls of
`setSession` replace that session meanwhile, and every session has a goroutine that runs it. A
session is named by its position in `sessions`.
-/

open Base.Run List Option

namespace Librespot.Daemon

inductive ApiRequestType
  | root
  | getVolume
  | setVolume
  | setDeviceName
  | other
deriving DecidableEq, Repr

inductive NoSessionReply
  | root
  | volume
  | empty
  | errNoSession
deriving DecidableEq, Repr

structure ApiRequest where
  id : Nat
  type : ApiRequestType
deriving DecidableEq, Repr

def ApiRequest.withoutSession (req : ApiRequest) : NoSessionReply :=
  match req.type with
  | .root => .root
  | .getVolume => .volume
  | .setVolume => .empty
  | .setDeviceName => .empty
  | .other => .errNoSession

inductive RunStage
  | installed
  | running
  | ended
  | retired
  | finished
deriving DecidableEq, Repr

/-- Nothing closes `apiCh`: a session that goes away closes `done` instead. -/
structure ActiveSession where
  stage : RunStage := .installed
  done : Bool := false
  apiClosed : Bool := false
deriving DecidableEq, Repr

def ActiveSession.retire (s : ActiveSession) : ActiveSession := { s with done := true }

/-- A call of `setSession` that has given the mutex back: it retires the session it replaced, closes
its player, and starts the one it installed. -/
inductive CallStage
  | retiring
  | closing
  | starting
deriving DecidableEq, Repr

structure SetSession where
  prev : Option Nat
  next : Option Nat
  stage : CallStage := .retiring
deriving DecidableEq, Repr

inductive Forwarder
  | receiving
  | received (req : ApiRequest)
  | alone (req : ApiRequest)
  | forwarding (req : ApiRequest) (session : Nat)
  | refused (req : ApiRequest)
  | stopped
deriving DecidableEq, Repr

/-- `count` is the number of requests received so far, `taken` those that a `Run` loop took. -/
structure Forwarding where
  current : Option Nat := none
  sessions : List ActiveSession := []
  calls : List SetSession := []
  forwarder : Forwarder := .receiving
  cancelled : Bool := false
  count : Nat := 0
  taken : List (ApiRequest × Nat) := []
  answered : List (ApiRequest × NoSessionReply) := []
  sentOnClosed : Bool := false
deriving DecidableEq, Repr

namespace Forwarding

inductive Event
  | receive (type : ApiRequestType)
  | readCurrent
  | answer
  | deliver
  | seeDone
  | seeCancelled
  | refuse
  | stop
  | setSession (install : Bool)
  | retirePrev (call : Nat)
  | closePrev (call : Nat)
  | startNext (call : Nat)
  | runEnds (session : Nat)
  | retireEnded (session : Nat)
  | dropEnded (session : Nat)
  | cancel
deriving DecidableEq, Repr

def modifySession (s : Forwarding) (k : Nat) (f : ActiveSession → ActiveSession) : Forwarding :=
  { s with sessions := s.sessions.modify k f }

def setSession (s : Forwarding) (install : Bool) : Forwarding :=
  let next := if install then some s.sessions.length else none
  { s with
    current := next
    sessions := if install then s.sessions ++ [{}] else s.sessions
    calls := s.calls ++ [{ prev := s.current, next }] }

def retire (s : Forwarding) : Option Nat → Forwarding
  | none => s
  | some k => s.modifySession k ActiveSession.retire

def start (s : Forwarding) : Option Nat → Forwarding
  | none => s
  | some k => s.modifySession k fun session => { session with stage := .running }

def step (s : Forwarding) : Event → Option Forwarding
  | .receive type =>
    if s.forwarder = .receiving then
      some { s with forwarder := .received { id := s.count, type }, count := s.count + 1 }
    else none
  | .readCurrent =>
    match s.forwarder with
    | .received req =>
      match s.current with
      | none => some { s with forwarder := .alone req }
      | some k => some { s with forwarder := .forwarding req k }
    | _ => none
  | .answer =>
    match s.forwarder with
    | .alone req => some { s with
        forwarder := .receiving, answered := s.answered ++ [(req, req.withoutSession)] }
    | _ => none
  | .deliver =>
    match s.forwarder with
    | .forwarding req k =>
      match s.sessions[k]? with
      | some session =>
        if session.stage = .running then some { s with
          forwarder := .receiving, taken := s.taken ++ [(req, k)]
          sentOnClosed := s.sentOnClosed || session.apiClosed }
        else none
      | none => none
    | _ => none
  | .seeDone =>
    match s.forwarder with
    | .forwarding req k =>
      if s.sessions[k]?.any ActiveSession.done then some { s with forwarder := .refused req }
      else none
    | _ => none
  | .seeCancelled =>
    match s.forwarder with
    | .forwarding req _ =>
      if s.cancelled then some { s with forwarder := .refused req } else none
    | _ => none
  | .refuse =>
    match s.forwarder with
    | .refused req => some { s with
        forwarder := .receiving, answered := s.answered ++ [(req, .errNoSession)] }
    | _ => none
  | .stop =>
    if s.forwarder = .receiving ∧ s.cancelled then some { s with forwarder := .stopped } else none
  | .setSession install => some (s.setSession install)
  | .retirePrev i =>
    match s.calls[i]? with
    | some call =>
      if call.stage = .retiring then
        some { s.retire call.prev with calls := s.calls.set i { call with stage := .closing } }
      else none
    | none => none
  | .closePrev i =>
    match s.calls[i]? with
    | some call =>
      if call.stage = .closing then
        some { s with calls := s.calls.set i { call with stage := .starting } }
      else none
    | none => none
  | .startNext i =>
    match s.calls[i]? with
    | some call =>
      if call.stage = .starting then
        some { s.start call.next with calls := s.calls.eraseIdx i }
      else none
    | none => none
  | .runEnds k =>
    if s.sessions[k]?.any (·.stage = .running) then
      some (s.modifySession k fun session => { session with stage := .ended })
    else none
  | .retireEnded k =>
    if s.sessions[k]?.any (·.stage = .ended) then
      some (s.modifySession k fun session => { session.retire with stage := .retired })
    else none
  | .dropEnded k =>
    if s.sessions[k]?.any (·.stage = .retired) then
      some { s.modifySession k (fun session => { session with stage := .finished }) with
        current := if s.current = some k then none else s.current }
    else none
  | .cancel => some { s with cancelled := true }

/-! ## Every request is accounted for -/

def held : Forwarder → List ApiRequest
  | .received req | .alone req | .forwarding req _ | .refused req => [req]
  | .receiving | .stopped => []

/-- What a change to a session keeps. -/
structure Moves (f : ActiveSession → ActiveSession) : Prop where
  api : ∀ session, (f session).apiClosed = session.apiClosed
  stage : ∀ session, (f session).stage = .installed → session.stage = .installed
  gone : ∀ session, (session.stage = .retired ∨ session.stage = .finished → session.done = true) →
    (f session).stage = .retired ∨ (f session).stage = .finished → (f session).done = true
  done : ∀ session, session.done = true → (f session).done = true

theorem moves_retire : Moves ActiveSession.retire :=
  ⟨fun _ => rfl, fun _ => id, fun _ _ _ => rfl, fun _ _ => rfl⟩

theorem moves_stage {stage : RunStage} (h : stage = .running ∨ stage = .ended) :
    Moves fun session => { session with stage } := by
  rcases h with rfl | rfl <;> exact ⟨fun _ => rfl, fun _ hst => by simp at hst, by simp, fun _ => id⟩

theorem moves_retired {stage : RunStage} (h : stage ≠ .installed) :
    Moves fun session => { session.retire with stage } :=
  ⟨fun _ => rfl, fun _ hst => absurd hst h, fun _ _ _ => rfl, fun _ _ => rfl⟩

/-- What a step can do. -/
inductive Takes (s : Forwarding) : Forwarding → Prop
  | received (type : ApiRequestType) (hf : s.forwarder = .receiving) :
      Takes s { s with forwarder := .received { id := s.count, type }, count := s.count + 1 }
  | handed (f : Forwarder) (hheld : held f = held s.forwarder)
      (hcurrent : ∀ req k, f = .forwarding req k → s.current = some k) :
      Takes s { s with forwarder := f }
  | answered (req : ApiRequest) (reply : NoSessionReply) (hheld : held s.forwarder = [req]) :
      Takes s { s with forwarder := .receiving, answered := s.answered ++ [(req, reply)] }
  | taken (req : ApiRequest) (k : Nat) (session : ActiveSession)
      (hf : s.forwarder = .forwarding req k) (hk : s.sessions[k]? = some session) :
      Takes s { s with
        forwarder := .receiving, taken := s.taken ++ [(req, k)]
        sentOnClosed := s.sentOnClosed || session.apiClosed }
  | installed (install : Bool) : Takes s (s.setSession install)
  | retired (i : Nat) (call : SetSession) (hcall : s.calls[i]? = some call) :
      Takes s { s.retire call.prev with calls := s.calls.set i { call with stage := .closing } }
  | closed (i : Nat) (call : SetSession) (hcall : s.calls[i]? = some call) :
      Takes s { s with calls := s.calls.set i { call with stage := .starting } }
  | started (i : Nat) (call : SetSession) (hcall : s.calls[i]? = some call) :
      Takes s { s.start call.next with calls := s.calls.eraseIdx i }
  | moved (k : Nat) (f : ActiveSession → ActiveSession) (hf : Moves f) :
      Takes s (s.modifySession k f)
  | dropped (k : Nat) (hk : s.sessions[k]?.any (·.stage = .retired) = true) :
      Takes s { s.modifySession k (fun session => { session with stage := .finished }) with
        current := if s.current = some k then none else s.current }
  | cancelled : Takes s { s with cancelled := true }

variable {s s' : Forwarding} {ev : Event} {i k : Nat} {c : SetSession} {req : ApiRequest}
  {session : ActiveSession}

theorem takes_of_step (h : step s ev = some s') : Takes s s' := by
  cases ev with
  | receive type =>
    simp only [step, ite_none_right_eq_some, some.injEq] at h
    obtain ⟨hf, rfl⟩ := h
    exact .received type hf
  | readCurrent =>
    simp only [step] at h
    split at h
    · rename_i req hf
      split at h
      · exact some.inj h ▸ .handed _ (by simp [hf, held]) (by simp)
      · rename_i k hk
        exact some.inj h ▸ .handed _ (by simp [hf, held]) (by simp [hk])
    · cases h
  | answer | refuse =>
    simp only [step] at h
    split at h
    · rename_i req hf
      exact some.inj h ▸ .answered req _ (by simp [hf, held])
    · cases h
  | deliver =>
    simp only [step] at h
    split at h
    · rename_i req k hf
      split at h
      · rename_i session hk
        simp only [ite_none_right_eq_some, some.injEq] at h
        obtain ⟨-, rfl⟩ := h
        exact .taken req k session hf hk
      · cases h
    · cases h
  | seeDone | seeCancelled =>
    simp only [step] at h
    split at h
    · rename_i req k hf
      simp only [ite_none_right_eq_some, some.injEq] at h
      obtain ⟨-, rfl⟩ := h
      exact .handed _ (by simp [hf, held]) (by simp)
    · cases h
  | stop =>
    simp only [step, ite_none_right_eq_some, some.injEq] at h
    obtain ⟨⟨hf, -⟩, rfl⟩ := h
    exact .handed _ (by simp [hf, held]) (by simp)
  | setSession install => exact some.inj h ▸ .installed install
  | retirePrev i | closePrev i | startNext i =>
    simp only [step] at h
    split at h
    · rename_i call hcall
      simp only [ite_none_right_eq_some, some.injEq] at h
      obtain ⟨-, rfl⟩ := h
      first | exact .retired i call hcall | exact .closed i call hcall | exact .started i call hcall
    · cases h
  | runEnds k =>
    simp only [step, ite_none_right_eq_some, some.injEq] at h
    obtain ⟨-, rfl⟩ := h
    exact .moved k _ (moves_stage (.inr rfl))
  | retireEnded k =>
    simp only [step, ite_none_right_eq_some, some.injEq] at h
    obtain ⟨-, rfl⟩ := h
    exact .moved k _ (moves_retired (by simp))
  | dropEnded k =>
    simp only [step, ite_none_right_eq_some, some.injEq] at h
    obtain ⟨hk, rfl⟩ := h
    exact .dropped k hk
  | cancel => exact some.inj h ▸ .cancelled

/-- Every request received so far was taken, was answered, or is in the goroutine's hands, and
only one of these, and only once. -/
def Accounted (s : Forwarding) : Prop :=
  ((s.taken.map Prod.fst ++ s.answered.map Prod.fst ++ held s.forwarder).map ApiRequest.id).Perm
    (List.range s.count)

theorem step_accounted (hs : s.Accounted) (h : step s ev = some s') : s'.Accounted := by
  unfold Accounted at hs ⊢
  cases takes_of_step h with
  | received _ hf =>
    rw [hf, held, append_nil] at hs
    rw [held, map_append, range_succ]
    exact hs.append_right _
  | handed _ hheld => rwa [hheld]
  | answered _ _ hheld =>
    rw [hheld] at hs
    refine (List.Perm.map _ ?_).trans hs
    simp [held]
  | taken _ _ _ hf =>
    rw [hf, held] at hs
    refine (List.Perm.map _ ?_).trans hs
    simp only [held, map_append, map_cons, map_nil, append_nil, append_assoc]
    exact List.Perm.append_left _ perm_append_comm
  | retired _ call => rcases call.prev with _ | k <;> exact hs
  | started _ call => rcases call.next with _ | k <;> exact hs
  | installed | closed | moved | dropped | cancelled => exact hs

/-! ## The sessions -/

theorem getElem?_modifySession (s : Forwarding) (k j : Nat) (f : ActiveSession → ActiveSession) :
    (s.modifySession k f).sessions[j]? =
      (s.sessions[j]?).map fun session => if k = j then f session else session := by
  unfold modifySession
  rw [getElem?_modify]
  rfl

/-- A session that is not started yet is in the hands of the call that installed it, and one whose
goroutine is through with it is done. -/
structure Sound (s : Forwarding) : Prop where
  known : ∀ k, s.current = some k ∨ (∃ req, s.forwarder = .forwarding req k) →
    k < s.sessions.length
  starts : ∀ k session, s.sessions[k]? = some session → session.stage = .installed →
    some k ∈ s.calls.map SetSession.next
  isOpen : ∀ session ∈ s.sessions, session.apiClosed = false
  gone : ∀ session ∈ s.sessions, session.stage = .retired ∨ session.stage = .finished →
    session.done = true
  sent : s.sentOnClosed = false

theorem Sound.of_same (hs : s.Sound) (hsessions : s'.sessions = s.sessions)
    (hcalls : s'.calls = s.calls) (hcurrent : s'.current = s.current)
    (hsent : s'.sentOnClosed = false)
    (hf : ∀ req k, s'.forwarder = .forwarding req k → s.current = some k) : s'.Sound := by
  refine ⟨fun k hk => ?_, ?_, ?_, ?_, hsent⟩
  · rw [hsessions]
    rcases hk with hk | ⟨req, hk⟩
    · exact hs.known k (.inl (hcurrent ▸ hk))
    · exact hs.known k (.inl (hf req k hk))
  · rw [hsessions, hcalls]
    exact hs.starts
  · rw [hsessions]
    exact hs.isOpen
  · rw [hsessions]
    exact hs.gone

theorem Sound.modify (hs : s.Sound) (k : Nat) {f : ActiveSession → ActiveSession} (hf : Moves f) :
    (s.modifySession k f).Sound := by
  have hback : ∀ (j : Nat) session, (s.modifySession k f).sessions[j]? = some session →
      ∃ old, s.sessions[j]? = some old ∧ (session = f old ∨ session = old) := by
    intro j session hj
    rw [getElem?_modifySession, map_eq_some_iff] at hj
    obtain ⟨old, hold, rfl⟩ := hj
    exact ⟨old, hold, by split <;> simp⟩
  refine ⟨fun j hj => ?_, fun j session hj hst => ?_, fun session hm => ?_, fun session hm hst => ?_,
    hs.sent⟩
  · simpa [modifySession] using hs.known j hj
  · obtain ⟨old, hold, rfl | rfl⟩ := hback j session hj
    · exact hs.starts j old hold (hf.stage old hst)
    · exact hs.starts j session hold hst
  · obtain ⟨j, hj⟩ := mem_iff_getElem?.mp hm
    obtain ⟨old, hold, rfl | rfl⟩ := hback j session hj
    · rw [hf.api]
      exact hs.isOpen old (mem_of_getElem? hold)
    · exact hs.isOpen session (mem_of_getElem? hold)
  · obtain ⟨j, hj⟩ := mem_iff_getElem?.mp hm
    obtain ⟨old, hold, rfl | rfl⟩ := hback j session hj
    · exact hf.gone old (hs.gone old (mem_of_getElem? hold)) hst
    · exact hs.gone session (mem_of_getElem? hold) hst

theorem Sound.calls (hs : s.Sound) {calls : List SetSession}
    (hc : ∀ k session, s.sessions[k]? = some session → session.stage = .installed →
      some k ∈ s.calls.map SetSession.next → some k ∈ calls.map SetSession.next) :
    Sound { s with calls } := by
  refine ⟨hs.known, fun k session hk hst => ?_, hs.isOpen, hs.gone, hs.sent⟩
  exact hc k session hk hst (hs.starts k session hk hst)

theorem map_next_set {calls : List SetSession} {d : SetSession} (hcall : calls[i]? = some c)
    (hnext : d.next = c.next) :
    (calls.set i d).map SetSession.next = calls.map SetSession.next := by
  apply ext_getElem?
  intro j
  rw [map_set, getElem?_set]
  split
  · rename_i hij
    subst hij
    obtain ⟨hlt, heq⟩ := List.getElem?_eq_some_iff.mp hcall
    simp [hlt, heq, hnext]
  · rfl

theorem Sound.setSession (hs : s.Sound) (install : Bool) : (s.setSession install).Sound := by
  unfold Forwarding.setSession
  cases install with
  | false =>
    refine ⟨fun k hk => ?_, fun k session hk hst => ?_, hs.isOpen, hs.gone, hs.sent⟩
    · exact hs.known k (.inr (hk.resolve_left (by simp)))
    · simpa using hs.starts k session (by simpa using hk) hst
  | true =>
    refine ⟨fun k hk => ?_, fun k session hk hst => ?_, ?_, ?_, hs.sent⟩
    · simp only [if_true, some.injEq, length_append, length_singleton] at hk ⊢
      rcases hk with rfl | hk
      · omega
      · exact Nat.lt_succ_of_lt (hs.known k (.inr hk))
    · simp only [if_true] at hk
      simp only [if_true, map_append, mem_append]
      by_cases hlt : k < s.sessions.length
      · rw [getElem?_append_left hlt] at hk
        exact .inl (hs.starts k session hk hst)
      · -- The session at the end is the new one.
        have hlen := (List.getElem?_eq_some_iff.mp hk).1
        rw [length_append, length_singleton] at hlen
        obtain rfl : k = s.sessions.length := by omega
        exact .inr (by simp)
    · intro session hm
      simp only [if_true, mem_append, mem_singleton] at hm
      rcases hm with hm | rfl
      · exact hs.isOpen session hm
      · rfl
    · intro session hm hst
      simp only [if_true, mem_append, mem_singleton] at hm
      rcases hm with hm | rfl
      · exact hs.gone session hm hst
      · simp at hst

theorem Sound.finish (hs : s.Sound) (hk : s.sessions[k]?.any (·.stage = .retired) = true) :
    (s.modifySession k fun session => { session with stage := .finished }).Sound := by
  have hdone : ∀ session, s.sessions[k]? = some session → session.done = true := by
    intro session hsession
    refine hs.gone session (mem_of_getElem? hsession) (.inl ?_)
    simpa [hsession] using hk
  -- On the one session that it is about, the change is the same as one that also retires it.
  have hsame : s.modifySession k (fun session => { session with stage := .finished }) =
      s.modifySession k (fun session => { session.retire with stage := .finished }) := by
    unfold modifySession
    congr 1
    apply ext_getElem?
    intro j
    rw [getElem?_modify, getElem?_modify]
    by_cases hj : k = j
    · subst hj
      rcases hsession : s.sessions[k]? with _ | session
      · rfl
      · simp [ActiveSession.retire, hdone session hsession]
    · simp [hj]
  rw [hsame]
  exact hs.modify k (moves_retired (by simp))

theorem Sound.start (hs : s.Sound) {call : SetSession} (hcall : s.calls[i]? = some call) :
    Sound { s.start call.next with calls := s.calls.eraseIdx i } := by
  have hstarted : (s.start call.next).Sound := by
    rcases call.next with _ | k
    · exact hs
    · exact hs.modify k (moves_stage (.inl rfl))
  have hcalls : (s.start call.next).calls = s.calls := by
    rcases call.next with _ | k <;> rfl
  refine hstarted.calls fun j session hj hst hmem => ?_
  rw [hcalls, List.mem_map] at hmem
  obtain ⟨other, hother, hnext⟩ := hmem
  refine List.mem_map.mpr ⟨other, ?_, hnext⟩
  obtain ⟨m, hm⟩ := mem_iff_getElem?.mp hother
  refine mem_eraseIdx_iff_getElem?.mpr ⟨m, ?_, hm⟩
  rintro rfl
  -- The call at `i` is the one that has just started its session.
  obtain rfl : call = other := some.inj (hcall.symm.trans hm)
  rw [hnext, Forwarding.start, getElem?_modifySession, map_eq_some_iff] at hj
  obtain ⟨old, -, rfl⟩ := hj
  simp at hst

theorem step_sound (hs : s.Sound) (h : step s ev = some s') : s'.Sound := by
  cases takes_of_step h with
  | received | answered => exact hs.of_same rfl rfl rfl hs.sent (by simp)
  | handed _ _ hcurrent => exact hs.of_same rfl rfl rfl hs.sent hcurrent
  | taken _ _ session _ hk =>
    have hopen := hs.isOpen session (mem_of_getElem? hk)
    exact hs.of_same rfl rfl rfl (by simp [hs.sent, hopen]) (by simp)
  | installed install => exact hs.setSession install
  | retired _ call hcall =>
    have hretired : (s.retire call.prev).Sound ∧ (s.retire call.prev).calls = s.calls := by
      rcases call.prev with _ | k
      · exact ⟨hs, rfl⟩
      · exact ⟨hs.modify k moves_retire, rfl⟩
    refine hretired.1.calls fun j _ _ _ hmem => ?_
    rw [hretired.2] at hmem
    rwa [map_next_set (d := { call with stage := .closing }) hcall rfl]
  | closed _ call hcall =>
    refine hs.calls fun j _ _ _ hmem => ?_
    rwa [map_next_set (d := { call with stage := .starting }) hcall rfl]
  | started _ _ hcall => exact hs.start hcall
  | moved k _ hf => exact hs.modify k hf
  | dropped k hk =>
    obtain ⟨hknown, hstarts, hisOpen, hgone, hsent⟩ := hs.finish hk
    refine ⟨fun j hj => hknown j (hj.imp_left fun hc => ?_), hstarts, hisOpen, hgone, hsent⟩
    by_cases hkj : s.current = some k
    · simp [hkj] at hc
    · rwa [if_neg hkj] at hc
  | cancelled => exact ⟨hs.known, hs.starts, hs.isOpen, hs.gone, hs.sent⟩

/-! ## No request is parked -/

def Event.isInner : Event → Bool
  | .receive _ | .stop | .setSession _ | .runEnds _ | .cancel => false
  | _ => true

def Settles (s : Forwarding) : Prop :=
  ∃ evs u, (∀ ev ∈ evs, ev.isInner = true) ∧ exec step s evs = some u ∧
    u.forwarder = .receiving ∧ u.count = s.count

theorem settles_of_step (hinner : ev.isInner = true) (h : step s ev = some s')
    (hcount : s'.count = s.count) (hs' : s'.Settles) : s.Settles := by
  obtain ⟨evs, u, hall, hexec, hf, hc⟩ := hs'
  refine ⟨ev :: evs, u, ?_, exec_cons_eq_some.mpr ⟨s', h, hexec⟩, hf, hc.trans hcount⟩
  simpa [hinner] using hall

theorem settles_of_last (hinner : ev.isInner = true) (h : step s ev = some s')
    (hf : s'.forwarder = .receiving) (hcount : s'.count = s.count) : s.Settles :=
  ⟨[ev], s', by simpa using hinner, by simp [exec_cons, h], hf, hcount⟩

theorem settles_refused (hf : s.forwarder = .refused req) : s.Settles := by
  have hstep : step s .refuse = some { s with
      forwarder := .receiving, answered := s.answered ++ [(req, .errNoSession)] } := by
    simp only [step, hf]
  exact settles_of_last rfl hstep rfl rfl

theorem settles_alone (hf : s.forwarder = .alone req) : s.Settles := by
  have hstep : step s .answer = some { s with
      forwarder := .receiving, answered := s.answered ++ [(req, req.withoutSession)] } := by
    simp only [step, hf]
  exact settles_of_last rfl hstep rfl rfl

theorem seeDone_refuses (hf : s.forwarder = .forwarding req k)
    (hdone : s.sessions[k]?.any ActiveSession.done = true) :
    step s .seeDone = some { s with forwarder := .refused req } := by
  simp only [step, hf]
  rw [if_pos hdone]

theorem settles_done (hf : s.forwarder = .forwarding req k)
    (hdone : s.sessions[k]?.any ActiveSession.done = true) : s.Settles :=
  settles_of_step rfl (seeDone_refuses hf hdone) rfl (settles_refused rfl)

theorem settles_running (hf : s.forwarder = .forwarding req k)
    (hk : s.sessions[k]? = some session) (hstage : session.stage = .running) : s.Settles := by
  have hstep : step s .deliver = some { s with
      forwarder := .receiving, taken := s.taken ++ [(req, k)]
      sentOnClosed := s.sentOnClosed || session.apiClosed } := by
    simp only [step, hf, hk]
    rw [if_pos hstage]
  exact settles_of_last rfl hstep rfl rfl

theorem retireEnded_releases (hk : s.sessions[k]? = some session)
    (hstage : session.stage = .ended) :
    ∃ s', step s (.retireEnded k) = some s' ∧ s'.forwarder = s.forwarder ∧ s'.count = s.count ∧
      s'.sessions[k]?.any ActiveSession.done = true := by
  refine ⟨s.modifySession k fun session => { session.retire with stage := .retired }, ?_, rfl, rfl,
    ?_⟩
  · simp only [step]
    rw [if_pos (by simp [hk, hstage])]
  · simp [getElem?_modifySession, hk, ActiveSession.retire]

theorem settles_starting (hf : s.forwarder = .forwarding req k)
    (hk : s.sessions[k]? = some session) (hcall : s.calls[i]? = some c) (hnext : c.next = some k)
    (hstage : c.stage = .starting) : s.Settles := by
  have hstep : step s (.startNext i) =
      some { s.start c.next with calls := s.calls.eraseIdx i } := by
    simp only [step, hcall]
    rw [if_pos hstage]
  rw [hnext] at hstep
  refine settles_of_step rfl hstep rfl ?_
  have hrunning : (s.start (some k)).sessions[k]? = some { session with stage := .running } := by
    simp [Forwarding.start, getElem?_modifySession, hk]
  exact settles_running hf hrunning rfl

theorem settles_closing (hf : s.forwarder = .forwarding req k)
    (hk : s.sessions[k]? = some session) (hcall : s.calls[i]? = some c) (hnext : c.next = some k)
    (hstage : c.stage = .closing) : s.Settles := by
  have hstep : step s (.closePrev i) =
      some { s with calls := s.calls.set i { c with stage := .starting } } := by
    simp only [step, hcall]
    rw [if_pos hstage]
  refine settles_of_step rfl hstep rfl ?_
  refine settles_starting (i := i) (c := { c with stage := .starting }) hf hk ?_ hnext rfl
  simp [(List.getElem?_eq_some_iff.mp hcall).1]

theorem retire_kept (s : Forwarding) (k : Option Nat) :
    (s.retire k).forwarder = s.forwarder ∧ (s.retire k).count = s.count := by
  cases k <;> exact ⟨rfl, rfl⟩

theorem settles_retiring (hf : s.forwarder = .forwarding req k) (hk : k < s.sessions.length)
    (hcall : s.calls[i]? = some c) (hnext : c.next = some k) (hstage : c.stage = .retiring) :
    s.Settles := by
  have hstep : step s (.retirePrev i) =
      some { s.retire c.prev with calls := s.calls.set i { c with stage := .closing } } := by
    simp only [step, hcall]
    rw [if_pos hstage]
  have hlen : k < (s.retire c.prev).sessions.length := by
    rcases c.prev with _ | j
    · exact hk
    · simpa [Forwarding.retire, modifySession] using hk
  obtain ⟨hforwarder, hcount⟩ := retire_kept s c.prev
  refine settles_of_step rfl hstep hcount ?_
  refine settles_closing (i := i) (c := { c with stage := .closing })
    (hforwarder.trans hf) (getElem?_eq_getElem hlen) ?_ hnext rfl
  simp [(List.getElem?_eq_some_iff.mp hcall).1]

theorem settles_forwarding (hs : s.Sound) (hf : s.forwarder = .forwarding req k) : s.Settles := by
  have hlt := hs.known k (.inr ⟨req, hf⟩)
  have hk := getElem?_eq_getElem hlt
  have hmem := mem_of_getElem? hk
  generalize s.sessions[k] = session at hk hmem
  rcases hstage : session.stage with _ | _ | _ | _ | _
  · -- Not started yet: the call that installed it goes on.
    obtain ⟨call, hmem, hnext⟩ := List.mem_map.mp (hs.starts k session hk hstage)
    obtain ⟨i, hcall⟩ := mem_iff_getElem?.mp hmem
    rcases hcs : call.stage with _ | _ | _
    · exact settles_retiring hf hlt hcall hnext hcs
    · exact settles_closing hf hk hcall hnext hcs
    · exact settles_starting hf hk hcall hnext hcs
  · exact settles_running hf hk hstage
  · obtain ⟨s', hstep, hf', hcount, hdone⟩ := retireEnded_releases hk hstage
    exact settles_of_step rfl hstep hcount (settles_done (hf'.trans hf) hdone)
  · exact settles_done hf (by simp [hk, hs.gone session hmem (.inl hstage)])
  · exact settles_done hf (by simp [hk, hs.gone session hmem (.inr hstage)])

theorem settles_held (hs : s.Sound) (h : held s.forwarder ≠ []) : s.Settles := by
  rcases hf : s.forwarder with _ | req | req | ⟨req, k⟩ | req | _
  · simp [hf, held] at h
  · rcases hc : s.current with _ | k
    · have hstep : step s .readCurrent = some { s with forwarder := .alone req } := by
        simp only [step, hf, hc]
      exact settles_of_step rfl hstep rfl (settles_alone rfl)
    · have hstep : step s .readCurrent = some { s with forwarder := .forwarding req k } := by
        simp only [step, hf, hc]
      exact settles_of_step rfl hstep rfl (settles_forwarding (step_sound hs hstep) rfl)
  · exact settles_alone hf
  · exact settles_forwarding hs hf
  · exact settles_refused hf
  · simp [hf, held] at h

theorem seeDone_stays (hf : s.forwarder = .forwarding req k)
    (hdone : (step s .seeDone).isSome = true) (h : step s ev = some s')
    (hf' : s'.forwarder = .forwarding req k) : (step s' .seeDone).isSome = true := by
  have hany : s.sessions[k]?.any ActiveSession.done = true := by
    simp only [step, hf] at hdone
    split at hdone
    · assumption
    · cases hdone
  have hmodify : ∀ (j : Nat) (f : ActiveSession → ActiveSession),
      (∀ session, session.done = true → (f session).done = true) →
      (s.modifySession j f).sessions[k]?.any ActiveSession.done = true := by
    intro j f hfd
    rw [getElem?_modifySession]
    rcases hk : s.sessions[k]? with _ | session
    · simp [hk] at hany
    · have hd : session.done = true := by simpa [hk] using hany
      simp only [map_some, any_some]
      split
      · exact hfd session hd
      · exact hd
  suffices hany' : s'.sessions[k]?.any ActiveSession.done = true by
    rw [seeDone_refuses hf' hany']
    rfl
  cases takes_of_step h with
  | installed install =>
    unfold Forwarding.setSession
    cases install with
    | false => exact hany
    | true =>
      rcases hk : s.sessions[k]? with _ | session
      · simp [hk] at hany
      · have hlt := (List.getElem?_eq_some_iff.mp hk).1
        simp only [if_true]
        rw [getElem?_append_left hlt]
        exact hany
  | retired _ call =>
    rcases call.prev with _ | j
    · exact hany
    · exact hmodify j _ fun _ _ => rfl
  | started _ call =>
    rcases call.next with _ | j
    · exact hany
    · exact hmodify j _ fun _ => id
  | moved j _ hmoves => exact hmodify j _ hmoves.done
  | dropped j => exact hmodify j _ fun _ => id
  | received | handed | answered | taken | closed | cancelled => exact hany

/-- In every run, a request received is taken by one session's loop or answered by the forwarding
goroutine, once, unless it is still in that goroutine's hands; and from there the goroutines can
bring it to its end. Nothing is sent on a closed channel. A forward to a session whose `Run` has
ended can give up as soon as that session's goroutine has retired it, and stays able to. -/
theorem requests_handled_once {evs : List Event} {s : Forwarding} (h : exec step {} evs = some s) :
    ((s.taken.map Prod.fst ++ s.answered.map Prod.fst ++ held s.forwarder).map
      ApiRequest.id).Perm (List.range s.count) ∧
    (held s.forwarder ≠ [] → s.Settles) ∧
    s.sentOnClosed = false ∧
    ∀ req k session, s.forwarder = .forwarding req k → s.sessions[k]? = some session →
      session.stage ≠ .installed → session.stage ≠ .running →
      ((step s .seeDone).isSome = true ∨ ∃ s', step s (.retireEnded k) = some s' ∧
        s'.forwarder = s.forwarder ∧ (step s' .seeDone).isSome = true) ∧
      ((step s .seeDone).isSome = true → ∀ ev s', step s ev = some s' →
        s'.forwarder = s.forwarder → (step s' .seeDone).isSome = true) := by
  have hsound : s.Sound := by
    refine exec_invariant (fun _ _ _ => step_sound) ?_ h
    exact ⟨by simp, by simp, by simp, by simp, rfl⟩
  have haccounted : s.Accounted := by
    refine exec_invariant (fun _ _ _ => step_accounted) ?_ h
    exact List.Perm.refl []
  refine ⟨haccounted, settles_held hsound, hsound.sent, ?_⟩
  intro req k session hf hk hinstalled hrunning
  refine ⟨?_, fun hdone ev s' hstep hsame => seeDone_stays hf hdone hstep (hsame.trans hf)⟩
  have hgone := hsound.gone session (mem_of_getElem? hk)
  rcases hstage : session.stage with _ | _ | _ | _ | _
  · exact absurd hstage hinstalled
  · exact absurd hstage hrunning
  · obtain ⟨s', hstep, hf', -, hdone⟩ := retireEnded_releases hk hstage
    refine .inr ⟨s', hstep, hf', ?_⟩
    rw [seeDone_refuses (hf'.trans hf) hdone]
    rfl
  · rw [seeDone_refuses hf (by simp [hk, hgone (.inl hstage)])]
    exact .inl rfl
  · rw [seeDone_refuses hf (by simp [hk, hgone (.inr hstage)])]
    exact .inl rfl

/-- A request is on its way to the first session while a second one replaces it, and the next
request comes when the second one's `Run` has given up. -/
def replacedRun : List Event :=
  [.setSession true, .retirePrev 0, .closePrev 0, .startNext 0, .receive .other, .readCurrent,
    .setSession true, .retirePrev 0, .seeDone, .refuse, .closePrev 0, .startNext 0,
    .receive .getVolume, .readCurrent, .deliver, .receive .setVolume, .readCurrent, .runEnds 1,
    .retireEnded 1, .seeDone, .refuse, .dropEnded 1, .receive .root, .readCurrent, .answer]

theorem requests_handled_once_replacedRun : ∃ s, exec step {} replacedRun = some s ∧
    s.taken = [(⟨1, .getVolume⟩, 1)] ∧
    s.answered = [(⟨0, .other⟩, .errNoSession), (⟨2, .setVolume⟩, .errNoSession),
      (⟨3, .root⟩, .root)] ∧ s.sentOnClosed = false :=
  ⟨Option.get _ (by decide +kernel), exec_get _, by decide +kernel, by decide +kernel,
    (requests_handled_once (exec_get _)).2.2.1⟩

end Forwarding

end Librespot.Daemon
