import Librespot.Dealer.Dealer

/-! # Sends to receivers while the dealer shuts down -/

open Base.Run List Option

namespace Librespot.Dealer

def DispatchLoop.targets : DispatchLoop → List Nat
  | .sending targets => targets
  | .requesting c => [c]
  | _ => []

def RecvLoop.closes (i : Nat) : RecvLoop → Option Nat
  | .closingRequests left => left[i]?
  | .closingMessages left => left.head?
  | _ => none

def State.closes (s : State) : Label → Option Nat
  | .closeNext i => s.recv.closes i
  | _ => none

namespace State

variable {s s' : State}

/-- `recvLoop` does not close a receiver that `dispatchLoop` has matched and not yet sent to, and
`dispatchLoop` does not match a receiver that has been closed. -/
@[mk_iff orderly_iff]
structure Orderly (s : State) (l : Label) : Prop where
  closing : ∀ c ∈ s.closes l, c ∉ s.dispatch.targets
  matching : l = .lookup → ∀ m, s.dispatch = .handling m → ∀ dispatch, s.lookup m = some dispatch →
    ∀ c ∈ dispatch.targets, c ∉ s.closed

structure Inv (s : State) : Prop where
  unclosed : ∀ c ∈ s.dispatch.targets, c ∉ s.closed
  sent : ∀ send ∈ s.sent, send.2 = false

theorem Inv.keeps (h : s.Inv) (htargets : s'.dispatch.targets ⊆ s.dispatch.targets)
    (hclosed : s'.closed = s.closed) (hsent : s'.sent = s.sent) : s'.Inv := by
  refine ⟨fun c hc => ?_, ?_⟩
  · rw [hclosed]
    exact h.unclosed c (htargets hc)
  · rw [hsent]
    exact h.sent

theorem Inv.startReceiving (h : s.Inv) : s.startReceiving.Inv := by
  unfold State.startReceiving
  split_ifs
  · exact h.keeps (nil_subset _) rfl rfl
  · exact h

theorem Inv.register {i : Nat} (h : s.Inv) (hstep : s.register i = some s') : s'.Inv := by
  simp only [State.register, run_eq_some] at hstep
  obtain ⟨registration, -, hstep⟩ := hstep
  split at hstep
  · simp at hstep
  · simp at hstep
  · cases hstep
    exact Inv.startReceiving (h.keeps (List.Subset.refl _) rfl rfl)
  · split_ifs at hstep
    cases hstep
    exact Inv.startReceiving (h.keeps (List.Subset.refl _) rfl rfl)

theorem Inv.closed {c : Nat} (h : s.Inv) (hne : c ∉ s.dispatch.targets) (recv : RecvLoop) :
    { s with closed := c :: s.closed, recv }.Inv :=
  ⟨fun d hd => not_mem_cons_of_ne_of_not_mem (fun heq => hne (heq ▸ hd)) (h.unclosed d hd), h.sent⟩

theorem Inv.closeNext {i : Nat} (h : s.Inv) (horderly : s.Orderly (.closeNext i))
    (hstep : s.closeNext i = some s') : s'.Inv := by
  have hcloses := horderly.closing
  simp only [State.closes] at hcloses
  unfold State.closeNext at hstep
  split at hstep
  · cases hstep
    exact h.keeps (List.Subset.refl _) rfl rfl
  · rename_i left _ hrecv
    obtain ⟨c, hc, rfl⟩ := map_eq_some_iff.mp hstep
    exact h.closed (hcloses c (by rw [hrecv]; exact hc)) _
  · rename_i c left hrecv
    cases hstep
    exact h.closed (hcloses c (by rw [hrecv]; rfl)) _
  · cases hstep
    exact h.keeps (List.Subset.refl _) rfl rfl
  · simp at hstep

theorem Inv.sendTo {c : Nat} {next : DispatchLoop} (h : s.Inv) (hc : c ∈ s.dispatch.targets)
    (hnext : next.targets ⊆ s.dispatch.targets) : (s.sendTo c next).Inv := by
  have hopen : s.isClosed c = false := decide_eq_false (h.unclosed c hc)
  unfold State.sendTo
  rw [hopen]
  refine ⟨fun d hd => h.unclosed d (hnext hd), ?_⟩
  intro send hsend
  rcases mem_append.mp hsend with hsend | hsend
  · exact h.sent send hsend
  · rw [mem_singleton.mp hsend]

theorem Inv.send (h : s.Inv) (hstep : s.send = some s') : s'.Inv := by
  unfold State.send at hstep
  split at hstep
  · rename_i c hdispatch
    cases hstep
    exact h.sendTo (by rw [hdispatch]; exact mem_singleton_self c) (nil_subset _)
  · rename_i c targets _ hdispatch
    cases hstep
    refine h.sendTo (by rw [hdispatch]; exact mem_cons_self) ?_
    rw [hdispatch]
    exact subset_cons_self c targets
  · rename_i c hdispatch
    cases hstep
    exact h.sendTo (by rw [hdispatch]; exact mem_singleton_self c) (nil_subset _)
  · simp at hstep

theorem Inv.lookup (h : s.Inv) (horderly : s.Orderly .lookup) (hstep : s.step .lookup = some s') :
    s'.Inv := by
  simp only [State.step] at hstep
  split at hstep
  · rename_i m hdispatch
    simp only [run_eq_some, some.injEq] at hstep
    obtain ⟨dispatch, hlookup, rfl⟩ := hstep
    exact ⟨horderly.matching rfl m hdispatch dispatch hlookup, h.sent⟩
  · simp at hstep

theorem Inv.becomes {t : State} (h : s.Inv) (hstep : some t = some s')
    (htargets : t.dispatch.targets ⊆ s.dispatch.targets) (hclosed : t.closed = s.closed)
    (hsent : t.sent = s.sent) : s'.Inv := by
  obtain rfl : t = s' := some.inj hstep
  exact h.keeps htargets hclosed hsent

theorem Inv.abandon (h : s.Inv) (hstep : s.abandon = some s') : s'.Inv := by
  unfold State.abandon at hstep
  split_ifs at hstep
  split at hstep
  · exact h.becomes hstep (nil_subset _) rfl rfl
  · exact h.becomes hstep (nil_subset _) rfl rfl
  · exact h.becomes hstep (nil_subset _) rfl rfl
  · simp at hstep

theorem Inv.step {l : Label} (h : s.Inv) (horderly : s.Orderly l) (hstep : s.step l = some s') :
    s'.Inv := by
  have hsame := List.Subset.refl s.dispatch.targets
  cases l with
  | register => exact h.register hstep
  | closeNext => exact h.closeNext horderly hstep
  | lookup => exact h.lookup horderly hstep
  | send => exact h.send hstep
  | abandon => exact h.abandon hstep
  | receiveMessage | receiveRequest =>
    simp only [State.step] at hstep
    split_ifs at hstep
    · exact h.becomes hstep hsame rfl rfl
    · exact h.becomes hstep hsame rfl rfl
  | close => exact h.becomes hstep hsame rfl rfl
  | frame =>
    simp only [State.step] at hstep
    split_ifs at hstep
    · exact h.becomes hstep hsame rfl rfl
    · exact h.becomes hstep hsame rfl rfl
  | readFails =>
    simp only [State.step] at hstep
    split_ifs at hstep
    exact h.becomes hstep hsame rfl rfl
  | hand =>
    simp only [State.step] at hstep
    split at hstep
    · split_ifs at hstep
      exact h.becomes hstep hsame rfl rfl
    · simp at hstep
  | quit =>
    simp only [State.step] at hstep
    split at hstep
    · exact h.becomes hstep hsame rfl rfl
    · exact h.becomes hstep hsame rfl rfl
    · simp at hstep
  | leave =>
    simp only [State.step] at hstep
    split_ifs at hstep
    · exact h.becomes hstep hsame rfl rfl
    · exact h.becomes hstep hsame rfl rfl
  | reconnected | giveUp =>
    simp only [State.step] at hstep
    split_ifs at hstep
    exact h.becomes hstep hsame rfl rfl
  | take =>
    simp only [State.step] at hstep
    split at hstep
    · exact h.becomes hstep (nil_subset _) rfl rfl
    · simp at hstep
  | stopDispatch | reply =>
    simp only [State.step] at hstep
    split_ifs at hstep
    exact h.becomes hstep (nil_subset _) rfl rfl

/-- As long as the two loops keep out of each other's way, no value is sent on a closed channel. -/
theorem sends_open_of_orderly {ls : List Label} (horderly : Meets step Orderly {} ls)
    (hrun : exec step {} ls = some s) : ∀ send ∈ s.sent, send.2 = false := by
  have hstart : ({} : State).Inv := ⟨by simp [DispatchLoop.targets], by simp⟩
  have hend : s.Inv :=
    Always.last (always_of_meets (fun _ _ _ h ho hstep => h.step ho hstep) hstart horderly) hrun
  exact hend.sent

instance (s : State) (l : Label) : Decidable (s.Orderly l) :=
  have : Decidable (∀ m, s.dispatch = .handling m → ∀ dispatch, s.lookup m = some dispatch →
      ∀ c ∈ dispatch.targets, c ∉ s.closed) :=
    match h : s.dispatch with
    | .handling m => decidable_of_iff (∀ dispatch ∈ s.lookup m, ∀ c ∈ dispatch.targets, c ∉ s.closed)
        (by simp)
    | .notStarted | .idle | .sending _ | .requesting _ | .replying | .stopped | .crashed =>
      .isTrue (by simp)
  decidable_of_iff (_ ∧ _) (orderly_iff s l).symm

def update : RawMessage := { type := .message, uri := "hm://connect-state/v1/cluster" }

def receiving : List Label :=
  [.receiveMessage ["hm://connect-state/"], .register 0, .frame update, .hand, .take, .lookup]

theorem sends_open_of_orderly_sentRun :
    ∃ s, exec step {} (receiving ++ [.send, .close, .quit, .leave, .closeNext 0, .closeNext 0]) =
      some s ∧ s.sent = [(0, false)] ∧ s.closed = [0] ∧ ∀ send ∈ s.sent, send.2 = false := by
  exact ⟨Option.get _ (by decide +kernel), exec_get _, by decide +kernel, by decide +kernel,
    sends_open_of_orderly (by decide +kernel) (exec_get _)⟩

/-- The dealer closes while `dispatchLoop` has matched a receiver. -/
theorem sends_on_closed_receiver :
    (exec step {} (receiving ++ [.close, .quit, .leave, .closeNext 0, .closeNext 0, .send])).map
      (fun s => (s.sent, s.dispatch)) = some ([(0, true)], .crashed) := by
  decide +kernel

end State

end Librespot.Dealer
