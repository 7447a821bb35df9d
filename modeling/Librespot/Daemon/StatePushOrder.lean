import Mathlib.Data.List.Chain
import Librespot.Daemon.StatePush

/-! # The order of the state pushes -/

open Base.Run List Option

namespace Librespot.Daemon.StatePushLane

def Separated (queue : List StatePush) : Prop :=
  queue.IsChain fun p q => ¬ (p.coalesces ∧ q.coalesces)

theorem separated_eraseIdx {queue : List StatePush} {i : Nat} (h : Separated queue)
    (hi : i = 0 ∨ ∃ p, queue[i]? = some p ∧ p.coalesces) : Separated (queue.eraseIdx i) := by
  induction queue generalizing i with
  | nil => exact h
  | cons _ queue ih =>
    rcases i with _ | i
    · exact h.tail
    · obtain ⟨hhead, htail⟩ := isChain_cons.mp h
      obtain ⟨q, hq, hqc⟩ := hi.resolve_left (Nat.succ_ne_zero i)
      rw [getElem?_cons_succ] at hq
      rw [eraseIdx_cons_succ]
      refine isChain_cons.mpr ⟨?_, ih htail (.inr ⟨q, hq, hqc⟩)⟩
      rcases i with _ | i
      · -- What stood before a player state is a transition.
        rcases queue with _ | ⟨q', queue⟩
        · simp at hq
        · obtain rfl : q' = q := by simpa using hq
          intro r _ hboth
          exact hhead q' rfl ⟨hboth.1, hqc⟩
      · rcases queue with _ | ⟨q', queue⟩
        · simp at hq
        · exact hhead

theorem dropped_cases (queue : List StatePush) :
    (∃ p, queue[dropped queue]? = some p ∧ p.coalesces) ∨
    dropped queue = 0 ∧ ∀ p ∈ queue, ¬ p.coalesces := by
  unfold dropped
  rcases hd : queue.findIdx? StatePush.coalesces with _ | i
  · exact .inr ⟨rfl, by simpa using findIdx?_eq_none_iff.mp hd⟩
  · obtain ⟨hlt, hi, -⟩ := findIdx?_eq_some_iff_getElem.mp hd
    exact .inl ⟨queue[i], by simp, hi⟩

theorem separated_append {queue : List StatePush} {push : StatePush} (h : Separated queue)
    (hlast : ∀ last ∈ queue.getLast?, ¬ (last.coalesces ∧ push.coalesces)) :
    Separated (queue ++ [push]) := by
  refine isChain_append.mpr ⟨h, isChain_singleton _, ?_⟩
  intro p hp q hq
  obtain rfl : push = q := by simpa using hq
  exact hlast p hp

theorem submit_separated (push : StatePush) {l : StatePushLane} (hopen : l.closed = false)
    (hlen : l.queue.length ≤ statePushQueueSize) (h : Separated l.queue) :
    Separated (l.submit push).queue := by
  rcases submit_cases push hopen hlen with
    ⟨init, last, hq, hl, -, he⟩ | ⟨hapart, ⟨-, he⟩ | ⟨-, he⟩⟩
  · rw [hq] at h
    obtain ⟨hinit, -, hlast⟩ := isChain_append.mp h
    rw [he]
    refine separated_append hinit fun p hp hboth => ?_
    exact hlast p hp last rfl ⟨hboth.1, hl⟩
  · rw [he]
    exact separated_append h hapart
  · rw [he]
    refine separated_eraseIdx (separated_append h hapart) ?_
    exact (dropped_cases _).symm.imp_left And.left

theorem submit_drops {push p : StatePush} {l : StatePushLane} (hopen : l.closed = false)
    (hlen : l.queue.length ≤ statePushQueueSize) (hp : p ∈ l.queue ++ [push])
    (htransition : ¬ p.coalesces) (hgone : p ∉ (l.submit push).queue) :
    l.queue.length = statePushQueueSize ∧ (∀ q ∈ l.queue, ¬ q.coalesces) ∧
    l.queue.head? = some p := by
  rcases submit_cases push hopen hlen with
    ⟨init, last, hq, hl, -, he⟩ | ⟨-, ⟨-, he⟩ | ⟨hfull, he⟩⟩
  · rw [he] at hgone
    simp only [hq, mem_append, mem_singleton] at hp hgone
    rcases hp with (hp | rfl) | hp
    · exact absurd (.inl hp) hgone
    · exact absurd hl htransition
    · exact absurd (.inr hp) hgone
  · rw [he] at hgone
    exact absurd hp hgone
  · rw [he] at hgone
    obtain ⟨i, hi⟩ := mem_iff_getElem?.mp hp
    have hdropped : i = dropped (l.queue ++ [push]) := by
      by_contra hne
      exact hgone (mem_eraseIdx_iff_getElem?.mpr ⟨i, hne, hi⟩)
    rcases dropped_cases (l.queue ++ [push]) with ⟨q, hq, hqc⟩ | ⟨hzero, hall⟩
    · rw [← hdropped, hi, some.injEq] at hq
      exact absurd (hq ▸ hqc) htransition
    · refine ⟨hfull, fun q hq => hall q (mem_append_left _ hq), ?_⟩
      rw [hdropped, hzero] at hi
      rcases hqueue : l.queue with _ | ⟨first, rest⟩
      · rw [hqueue] at hfull
        simp [statePushQueueSize] at hfull
      · rw [hqueue] at hi
        simpa using hi

structure Ordered (h : History) : Prop where
  length : h.lane.queue.length ≤ statePushQueueSize
  sorted : (h.taken ++ h.lane.queue).Pairwise (·.seq < ·.seq)
  separated : Separated h.lane.queue
  known : ∀ p ∈ h.taken ++ h.lane.queue, p ∈ h.submitted

theorem submit_sublist (push : StatePush) (l : StatePushLane) (hopen : l.closed = false)
    (hlen : l.queue.length ≤ statePushQueueSize) :
    (l.submit push).queue.Sublist (l.queue ++ [push]) := by
  rcases submit_cases push hopen hlen with ⟨init, last, hq, -, -, he⟩ | ⟨-, ⟨-, he⟩ | ⟨-, he⟩⟩
  · rw [he, hq]
    exact (sublist_append_left init [last]).append (List.Sublist.refl _)
  · rw [he]
  · rw [he]
    exact eraseIdx_sublist _ _

theorem step_ordered {h h' : History} {op : Op} (ho : Ordered h) (hs : step h op = some h') :
    Ordered h' := by
  cases op with
  | submit push =>
    simp only [step] at hs
    split at hs
    · rename_i hseq
      rcases hc : h.lane.closed with _ | _
      · simp only [hc, Bool.false_eq_true, if_false, some.injEq] at hs
        subst hs
        have hsub := submit_sublist push h.lane hc ho.length
        have hall : (h.taken ++ (h.lane.submit push).queue).Sublist
            (h.taken ++ h.lane.queue ++ [push]) := by
          rw [append_assoc]
          exact (List.Sublist.refl _).append hsub
        refine ⟨length_submit push ho.length, ?_, submit_separated push hc ho.length ho.separated,
          fun p hp => ?_⟩
        · refine List.Pairwise.sublist hall (pairwise_append.mpr ⟨ho.sorted, by simp, ?_⟩)
          intro p hp q hq
          rw [mem_singleton.mp hq]
          exact hseq p (ho.known p hp)
        · rcases mem_append.mp (hall.subset hp) with hp | hp
          · exact mem_append_left _ (ho.known p hp)
          · exact mem_append_right _ hp
      · simp only [hc, if_true, some.injEq] at hs
        subst hs
        have hsame : h.lane.submit push = h.lane := by simp [submit, hc]
        simp only [hsame]
        exact ⟨ho.length, ho.sorted, ho.separated, ho.known⟩
    · simp at hs
  | next =>
    cases hs
    obtain ⟨hlength, hsorted, hseparated, hknown⟩ := ho
    unfold next
    rcases hq : h.lane.queue with _ | ⟨push, queue⟩
    · rw [hq] at hsorted hknown
      exact ⟨by simp [hq], by simpa [hq] using hsorted, by rw [hq]; exact isChain_nil,
        by simpa [hq] using hknown⟩
    · rw [hq] at hlength hsorted hseparated hknown
      refine ⟨?_, by simpa using hsorted, hseparated.tail, by simpa using hknown⟩
      rw [length_cons] at hlength
      exact Nat.le_of_succ_le hlength
  | close =>
    cases hs
    exact ⟨ho.length, ho.sorted, ho.separated, ho.known⟩

def arrivals (h : History) : Op → List StatePush
  | .submit push => if h.lane.closed then [] else [push]
  | _ => []

theorem step_drops {h h' : History} {op : Op} (ho : Ordered h) (hs : step h op = some h')
    {p : StatePush} (hp : p ∈ h.lane.queue ++ arrivals h op) (htransition : ¬ p.coalesces)
    (hgone : p ∉ h'.lane.queue) (htaken : p ∉ h'.taken) :
    (∃ push, op = .submit push) ∧ h.lane.queue.length = statePushQueueSize ∧
    (∀ q ∈ h.lane.queue, ¬ q.coalesces) ∧ h.lane.queue.head? = some p := by
  cases op with
  | submit push =>
    refine ⟨⟨push, rfl⟩, ?_⟩
    simp only [step] at hs
    split at hs
    · rcases hc : h.lane.closed with _ | _
      · simp only [hc, Bool.false_eq_true, if_false, some.injEq] at hs
        subst hs
        simp only [arrivals, hc, Bool.false_eq_true, if_false] at hp
        exact submit_drops hc ho.length hp htransition hgone
      · simp only [hc, if_true, some.injEq] at hs
        subst hs
        simp only [arrivals, hc, if_true, append_nil] at hp
        exact absurd (by simpa [submit, hc] using hp) hgone
    · simp at hs
  | next =>
    cases hs
    simp only [arrivals, append_nil] at hp
    unfold next at hgone htaken
    rcases hq : h.lane.queue with _ | ⟨push, queue⟩
    · simp [hq] at hp
    · rw [hq] at hp hgone htaken
      rcases mem_cons.mp hp with rfl | hp
      · simp at htaken
      · exact absurd hp hgone
  | close =>
    cases hs
    simp only [arrivals, append_nil] at hp
    exact absurd hp hgone

/-- In every state of every run the queue is short, ordered and separated, the pushes come out in
order, and no step drops a transition unless the queue is full of them. -/
theorem pushes_ordered (ops : List Op) (h : History) (hrun : exec step {} ops = some h) :
    h.lane.queue.length ≤ statePushQueueSize ∧
    h.lane.queue.Pairwise (·.seq < ·.seq) ∧
    Separated h.lane.queue ∧
    h.taken.Pairwise (·.seq < ·.seq) ∧
    ∀ op h', step h op = some h' → ∀ p ∈ h.lane.queue ++ arrivals h op, ¬ p.coalesces →
      p ∉ h'.lane.queue → p ∉ h'.taken →
      (∃ push, op = .submit push) ∧ h.lane.queue.length = statePushQueueSize ∧
      (∀ q ∈ h.lane.queue, ¬ q.coalesces) ∧ h.lane.queue.head? = some p := by
  have hnew : Ordered {} := ⟨by simp, by simp, isChain_nil, by simp⟩
  have ho : Ordered h := exec_invariant (fun _ _ _ ho hs => step_ordered ho hs) hnew hrun
  obtain ⟨htaken, hqueue, -⟩ := pairwise_append.mp ho.sorted
  refine ⟨ho.length, hqueue, ho.separated, htaken, ?_⟩
  intro op h' hs p hp htransition hgone hnot
  exact step_drops ho hs hp htransition hgone hnot

def fullOfTransitions : History where
  lane.queue := [⟨1, .volumeChanged, "", none⟩, ⟨2, .volumeChanged, "", none⟩,
    ⟨3, .volumeChanged, "", none⟩, ⟨4, .volumeChanged, "", none⟩]
  submitted := [⟨1, .volumeChanged, "", none⟩, ⟨2, .volumeChanged, "", none⟩,
    ⟨3, .volumeChanged, "", none⟩, ⟨4, .volumeChanged, "", none⟩]
  fresh := true

theorem pushes_ordered_fullOfTransitions :
    exec step {} (transitionsRun.take 4) = some fullOfTransitions ∧
    fullOfTransitions.lane.queue.length ≤ statePushQueueSize ∧
    ∀ h', step fullOfTransitions (.submit ⟨5, .newDevice, "", none⟩) = some h' →
      ∀ p ∈ fullOfTransitions.lane.queue, ¬ p.coalesces → p ∉ h'.lane.queue → p ∉ h'.taken →
        fullOfTransitions.lane.queue.head? = some p := by
  have hrun : exec step {} (transitionsRun.take 4) = some fullOfTransitions := by decide
  obtain ⟨hlength, -, -, -, hdrops⟩ := pushes_ordered _ _ hrun
  refine ⟨hrun, hlength, fun h' hs p hp htransition hgone hnot => ?_⟩
  exact (hdrops _ h' hs p (mem_append_left _ hp) htransition hgone hnot).2.2.2

end Librespot.Daemon.StatePushLane
