import Librespot.Daemon.Loader

/-!
# The order in which the loader lane takes jobs

Navigation and mutations are never dropped, and they are taken in the order they
were submitted. That rests on the shape of the queue: there is at most one load or
prefetch in it, and only mutations stand behind it.
-/

open Base.Run List Option

namespace Librespot.Daemon.LoaderLane

variable {κ : Type} {l : LoaderLane κ} {jobs : List (LoaderJob κ)}

structure Order (κ : Type) where
  lane : LoaderLane κ := {}
  accepted : List (LoaderJob κ) := []
  taken : List (LoaderJob κ) := []

inductive Op (κ : Type)
  | submit (job : LoaderJob κ)
  | dropLoads
  | next (clock : Nat → Int)
  | finished
  | close

def kept (jobs : List (LoaderJob κ)) : List (LoaderJob κ) := jobs.filter fun q => !q.cls.fetches

def accepts (job : LoaderJob κ) (l : LoaderLane κ) : Bool :=
  !l.closed && !(decide (job.cls = .prefetch) && l.hasPendingLoad) &&
    decide ((l.makeRoom job.cls).2.queue.length < loaderQueueSize)

def step (s : Order κ) : Op κ → Option (Order κ)
  | .submit job => some { s with
      lane := (s.lane.submit job).2
      accepted := s.accepted ++ if accepts job s.lane then kept [job] else [] }
  | .dropLoads => some { s with lane := s.lane.dropLoads.2 }
  | .next clock => some { s with
      lane := (s.lane.next clock).2, taken := s.taken ++ kept (s.lane.next clock).1.toList }
  | .finished => some { s with lane := s.lane.finished }
  | .close => some { s with lane := s.lane.lockClosed.2 }

def Op.Lawful : Op κ → Prop
  | .submit job => job.notBefore ≠ none → job.cls = .load
  | _ => True

/-! ## The shape of the queue -/

structure Shape (queue : List (LoaderJob κ)) : Prop where
  atMostOne : (queue.filter fun q => q.cls.fetches).length ≤ 1
  noNavBehind : queue.Pairwise fun a b => a.cls.fetches = true → b.cls ≠ .nav
  lawful : ∀ q ∈ queue, q.notBefore ≠ none → q.cls = .load

theorem fetches_iff (c : LoaderClass) : c.fetches = true ↔ c = .load ∨ c = .prefetch := by
  cases c <;> decide

theorem not_fetches_iff (c : LoaderClass) : c.fetches = false ↔ c = .nav ∨ c = .mutate := by
  cases c <;> decide

theorem Shape.nil : Shape ([] : List (LoaderJob κ)) := ⟨by simp, List.Pairwise.nil, by simp⟩

theorem Shape.sublist {queue queue' : List (LoaderJob κ)} (h : Shape queue)
    (hs : queue'.Sublist queue) : Shape queue' :=
  ⟨((hs.filter _).length_le).trans h.atMostOne, h.noNavBehind.sublist hs,
    fun q hq => h.lawful q (hs.subset hq)⟩

theorem Shape.behind {F : LoaderJob κ} {rest : List (LoaderJob κ)} (h : Shape (F :: rest))
    (hF : F.cls.fetches = true) : ∀ q ∈ rest, q.cls = .mutate := by
  intro q hq
  have h1 : q.cls ≠ .nav := (pairwise_cons.mp h.noNavBehind).1 q hq hF
  have h2 : q.cls.fetches = false := by
    have hle := h.atMostOne
    simp only [filter_cons, hF, if_true, length_cons] at hle
    have hnil : rest.filter (fun q => q.cls.fetches) = [] :=
      eq_nil_of_length_eq_zero (by omega)
    have := filter_eq_nil_iff.mp hnil q hq
    simpa using this
  rcases (not_fetches_iff _).mp h2 with h3 | h3
  · exact absurd h3 h1
  · exact h3

theorem Shape.append {queue : List (LoaderJob κ)} (h : Shape queue) (job : LoaderJob κ)
    (hlaw : job.notBefore ≠ none → job.cls = .load)
    (hjob : job.cls = .mutate ∨ ∀ q ∈ queue, q.cls.fetches = false) : Shape (queue ++ [job]) := by
  refine ⟨?_, ?_, ?_⟩
  · rw [filter_append, length_append]
    rcases hjob with hm | hq
    · have : [job].filter (fun q => q.cls.fetches) = [] := by simp [hm, LoaderClass.fetches]
      rw [this]
      exact h.atMostOne
    · have : queue.filter (fun q => q.cls.fetches) = [] := by
        apply filter_eq_nil_iff.mpr
        intro q hq'
        simp [hq q hq']
      rw [this, length_nil, Nat.zero_add]
      exact length_filter_le _ _
  · rw [pairwise_append]
    refine ⟨h.noNavBehind, pairwise_singleton _ _, ?_⟩
    intro a ha b hb hf
    rw [mem_singleton] at hb
    rcases hjob with hm | hq
    · rw [hb, hm]
      decide
    · rw [hq a ha] at hf
      simp at hf
  · intro q hq
    rcases mem_append.mp hq with hq | hq
    · exact h.lawful q hq
    · rw [mem_singleton] at hq
      rw [hq]
      exact hlaw

/-! ## What submit and dropLoads do -/

theorem kept_eq_self (h : ∀ q ∈ jobs, q.cls.fetches = false) : kept jobs = jobs := by
  apply filter_eq_self.mpr
  intro q hq
  simp [h q hq]

theorem kept_append (xs ys : List (LoaderJob κ)) : kept (xs ++ ys) = kept xs ++ kept ys :=
  filter_append _ _

theorem mem_kept {q : LoaderJob κ} : q ∈ kept jobs ↔ q ∈ jobs ∧ q.cls.fetches = false := by
  simp [kept]

theorem kept_kept (jobs : List (LoaderJob κ)) : kept (kept jobs) = kept jobs :=
  kept_eq_self fun _ hq => (mem_kept.mp hq).2

theorem makeRoom_spec (cls : LoaderClass) (l : LoaderLane κ)
    (hp : ¬ (cls = .prefetch ∧ l.hasPendingLoad = true)) :
    (l.makeRoom cls).2.queue.Sublist l.queue ∧ kept (l.makeRoom cls).2.queue = kept l.queue ∧
      (l.makeRoom cls).2.closed = l.closed ∧
      (cls = .mutate ∨ ∀ q ∈ (l.makeRoom cls).2.queue, q.cls.fetches = false) := by
  cases cls with
  | load | nav =>
    refine ⟨filter_sublist, kept_kept l.queue, rfl, .inr ?_⟩
    intro q hq
    exact (mem_kept.mp hq).2
  | mutate => exact ⟨List.Sublist.refl _, rfl, rfl, .inl rfl⟩
  | prefetch =>
    have hnone : l.hasPendingLoad = false := by simpa using hp
    refine ⟨filter_sublist, ?_, rfl, .inr ?_⟩
    · simp only [makeRoom, kept, List.filter_filter]
      apply filter_congr
      intro q _
      cases q.cls <;> decide
    · intro q hq
      simp only [makeRoom, mem_filter, Bool.not_eq_true', decide_eq_false_iff_not] at hq
      simp only [hasPendingLoad, Bool.or_eq_false_iff, List.any_eq_false] at hnone
      have := hnone.2 q hq.1
      revert this
      have := hq.2
      revert this
      cases q.cls <;> decide

theorem submit_spec (job : LoaderJob κ) (l : LoaderLane κ) :
    (accepts job l = false ∧ (l.submit job).2.queue.Sublist l.queue ∧
      kept (l.submit job).2.queue = kept l.queue ∧ (l.submit job).2.closed = l.closed) ∨
    (accepts job l = true ∧ (l.submit job).2.closed = l.closed ∧
      ∃ queue, (l.submit job).2.queue = queue ++ [job] ∧ queue.Sublist l.queue ∧
        kept queue = kept l.queue ∧ (job.cls = .mutate ∨ ∀ q ∈ queue, q.cls.fetches = false)) := by
  unfold submit accepts
  rcases hc : l.closed with _ | _
  · by_cases hp : job.cls = .prefetch ∧ l.hasPendingLoad = true
    · left
      simp [hp, hc]
    · obtain ⟨hsub, hkept, hclosed, hroom⟩ := makeRoom_spec job.cls l hp
      have hp' : (decide (job.cls = .prefetch) && l.hasPendingLoad) = false := by
        simpa using hp
      simp only [Bool.false_eq_true, if_false, hp, hp', Bool.not_false, Bool.true_and]
      by_cases hlen : (l.makeRoom job.cls).2.queue.length ≥ loaderQueueSize
      · left
        rw [if_pos hlen]
        refine ⟨by simpa using hlen, hsub, hkept, hclosed.trans hc⟩
      · right
        rw [if_neg hlen]
        exact ⟨by simpa using hlen, hclosed.trans hc, _, rfl, hsub, hkept, hroom⟩
  · left
    simp [hc]

/-! ## What next does -/

theorem held_eq_false {now : Int} {job : LoaderJob κ} (h : job.notBefore = none) :
    job.held now = false := by
  simp [LoaderJob.held, h]

theorem next_cases (clock : Nat → Int) (hopen : l.closed = false) (h : Shape l.queue) :
    (∃ job rest, l.queue = job :: rest ∧ (l.next clock).1 = some job ∧
      (l.next clock).2.queue = rest ∧ (l.next clock).2.closed = false) ∨
    (∃ F job rest, l.queue = F :: job :: rest ∧ F.cls.fetches = true ∧ job.cls = .mutate ∧
      (l.next clock).1 = some job ∧ (l.next clock).2.queue = F :: rest ∧
      (l.next clock).2.closed = false) ∨
    ((l.next clock) = (none, l) ∧ kept l.queue = []) := by
  unfold next
  rw [if_neg (by simp [hopen])]
  rcases hq : l.queue with _ | ⟨head, rest⟩
  · exact .inr (.inr ⟨rfl, rfl⟩)
  · rw [hq] at h
    rcases hheld : head.held (clock 0) with _ | _
    · left
      exact ⟨head, rest, rfl, by simp [nextIdx, hheld, hopen]⟩
    · right
      have hload : head.cls = .load := by
        apply h.lawful head mem_cons_self
        intro hn
        simp [held_eq_false hn] at hheld
      have hF : head.cls.fetches = true := (fetches_iff _).mpr (.inl hload)
      rcases rest with _ | ⟨job, rest⟩
      · right
        have hidx : nextIdx clock [head] = none := by simp [nextIdx, hheld, hload]
        simp [hidx, kept, hF]
      · left
        have hm : job.cls = .mutate := h.behind hF job mem_cons_self
        have hready : job.held (clock 2) = false := by
          apply held_eq_false
          by_contra hn
          have := h.lawful job (by simp) hn
          rw [hm] at this
          simp at this
        have hidx : nextIdx clock (head :: job :: rest) = some 1 := by
          simp [nextIdx, hheld, hload, zipIdx_cons, hm, hready]
        exact ⟨head, job, rest, rfl, hF, hm, by simp [hidx], by simp [hidx], by simp [hidx, hopen]⟩

theorem next_spec (clock : Nat → Int) (hopen : l.closed = false) (h : Shape l.queue) :
    kept l.queue = kept (l.next clock).1.toList ++ kept (l.next clock).2.queue ∧
      (l.next clock).2.queue.Sublist l.queue ∧ (l.next clock).2.closed = false := by
  rcases next_cases clock hopen h with ⟨job, rest, hq, hjob, hrest, hclosed⟩ |
    ⟨F, job, rest, hq, hF, hm, hjob, hrest, hclosed⟩ | ⟨hnone, -⟩
  · rw [hjob, hrest, hq]
    exact ⟨kept_append [job] rest, sublist_cons_self _ _, hclosed⟩
  · have hjf : job.cls.fetches = false := (not_fetches_iff _).mpr (.inr hm)
    rw [hjob, hrest, hq]
    refine ⟨by simp [kept, hF, hjf], ?_, hclosed⟩
    exact (sublist_cons_self _ _).cons_cons _
  · rw [hnone]
    exact ⟨rfl, List.Sublist.refl _, hopen⟩

/-! ## The invariant -/

structure OrderInv (s : Order κ) : Prop where
  shape : Shape s.lane.queue
  order : s.lane.closed = false → s.accepted = s.taken ++ kept s.lane.queue
  taken : s.taken <+: s.accepted

theorem step_order {s s' : Order κ} {op : Op κ} (hinv : OrderInv s) (hlaw : op.Lawful)
    (h : step s op = some s') : OrderInv s' := by
  obtain ⟨hshape, horder, htaken⟩ := hinv
  cases op with
  | submit job =>
    cases h
    rcases submit_spec job s.lane with ⟨ha, hsub, hkept, hclosed⟩ |
      ⟨ha, hclosed, queue, hq, hsub, hkept, hjob⟩
    · refine ⟨hshape.sublist hsub, ?_, ?_⟩
      · intro ho
        simp only [ha, Bool.false_eq_true, if_false, append_nil, hkept]
        exact horder (hclosed ▸ ho)
      · simpa [ha] using htaken
    · refine ⟨?_, ?_, ?_⟩
      · simp only [hq]
        exact (hshape.sublist hsub).append job hlaw hjob
      · intro ho
        simp only [ha, if_true, hq, kept_append, hkept]
        rw [horder (hclosed ▸ ho), append_assoc]
      · exact htaken.trans (prefix_append _ _)
  | dropLoads =>
    cases h
    unfold dropLoads
    split
    · exact ⟨hshape, horder, htaken⟩
    · refine ⟨hshape.sublist filter_sublist, ?_, htaken⟩
      intro ho
      rw [horder ho]
      exact congrArg _ (kept_kept s.lane.queue).symm
  | next clock =>
    cases h
    rcases hc : s.lane.closed with _ | _
    · obtain ⟨hsplit, hsub, hclosed⟩ := next_spec clock hc hshape
      have ho := horder hc
      rw [hsplit, ← append_assoc] at ho
      exact ⟨hshape.sublist hsub, fun _ => ho, ⟨_, ho.symm⟩⟩
    · have hsame : s.lane.next clock = (none, s.lane) := by simp [next, hc]
      simp only [hsame]
      exact ⟨hshape, fun hn => by simp [hc] at hn, by simpa [kept] using htaken⟩
  | finished =>
    cases h
    exact ⟨hshape, horder, htaken⟩
  | close =>
    cases h
    exact ⟨Shape.nil, fun hn => by simp [lockClosed] at hn, htaken⟩

theorem exec_order {ops : List (Op κ)} {s : Order κ} (hlaw : ∀ op ∈ ops, op.Lawful)
    (h : exec step {} ops = some s) : OrderInv s := by
  have hnew : OrderInv ({} : Order κ) := ⟨Shape.nil, fun _ => rfl, prefix_refl _⟩
  refine exec_invariant_of_labels (L := Op.Lawful) ?_ hnew hlaw h
  intro s op s' hinv hl hs
  exact step_order hinv hl hs

/-! ## Everything that is accepted gets taken -/

theorem next_progress (clock : Nat → Int) (hopen : l.closed = false) (h : Shape l.queue) :
    kept (l.next clock).2.queue = [] ∨ (l.next clock).2.queue.length < l.queue.length := by
  rcases next_cases clock hopen h with ⟨job, rest, hq, -, hrest, -⟩ |
    ⟨F, job, rest, hq, -, -, -, hrest, -⟩ | ⟨hnone, hkept⟩
  · right
    rw [hrest, hq]
    simp
  · right
    rw [hrest, hq]
    simp
  · left
    rw [hnone]
    exact hkept

theorem exec_next {clocks : List (Nat → Int)} {s s' : Order κ} (hinv : OrderInv s)
    (hopen : s.lane.closed = false)
    (hlen : kept s.lane.queue = [] ∨ s.lane.queue.length ≤ clocks.length)
    (h : exec step s (clocks.map .next) = some s') :
    s'.accepted = s.accepted ∧ s'.taken = s.accepted := by
  induction clocks generalizing s with
  | nil =>
    simp only [map_nil, exec_nil, some.injEq] at h
    subst h
    have hnil : kept s.lane.queue = [] := by
      rcases hlen with hk | hl
      · exact hk
      · rw [eq_nil_of_length_eq_zero (Nat.le_zero.mp hl)]
        rfl
    have ho := hinv.order hopen
    rw [hnil, append_nil] at ho
    exact ⟨rfl, ho.symm⟩
  | cons clock clocks ih =>
    obtain ⟨mid, hstep, hrest⟩ := exec_cons_eq_some.mp h
    have hlaw : (Op.next clock : Op κ).Lawful := trivial
    have hmid := step_order hinv hlaw hstep
    cases hstep
    obtain ⟨hsplit, -, hclosed⟩ := next_spec clock hopen hinv.shape
    have hlen' : kept (s.lane.next clock).2.queue = [] ∨
        (s.lane.next clock).2.queue.length ≤ clocks.length := by
      rcases hlen with hk | hl
      · left
        rw [hk] at hsplit
        exact (append_eq_nil_iff.mp hsplit.symm).2
      · rcases next_progress clock hopen hinv.shape with hk | hlt
        · exact .inl hk
        · right
          rw [length_cons] at hl
          omega
    have := ih hmid hclosed hlen' hrest
    exact this

/-- In every run, navigation and mutations leave the open lane only through `next`, in the order
they were accepted, and as many calls of it as the queue is long take all of them. The queue holds
at most one load or prefetch, with no navigation behind it. -/
theorem accepted_taken_in_order (ops : List (Op κ)) (hlaw : ∀ op ∈ ops, op.Lawful) (s : Order κ)
    (h : exec step {} ops = some s) :
    (s.lane.closed = false → s.accepted = s.taken ++ kept s.lane.queue) ∧
    s.taken <+: s.accepted ∧
    (s.lane.closed = false → ∀ (clocks : List (Nat → Int)) (s' : Order κ),
      s.lane.queue.length ≤ clocks.length → exec step s (clocks.map .next) = some s' →
      s'.accepted = s.accepted ∧ s'.taken = s.accepted) ∧
    (s.lane.queue.filter fun q => q.cls.fetches).length ≤ 1 ∧
    s.lane.queue.Pairwise fun a b => a.cls.fetches = true → b.cls ≠ .nav := by
  have hinv := exec_order hlaw h
  refine ⟨hinv.order, hinv.taken, ?_, hinv.shape.atMostOne, hinv.shape.noNavBehind⟩
  intro hopen clocks s' hlen hexec
  exact exec_next hinv hopen (.inr hlen) hexec

def heldRun : List (Op Unit) :=
  [.submit { cls := .load, gen := 1, run := (), notBefore := some 10 },
    .submit { cls := .mutate, gen := 1, run := () }, .next fun _ => 0,
    .submit { cls := .nav, gen := 2, run := () }]

theorem heldRun_lawful : ∀ op ∈ heldRun, op.Lawful := by
  simp [heldRun, Op.Lawful]

theorem accepted_taken_in_order_heldRun : ∃ s, exec step {} heldRun = some s ∧
    s.accepted.map LoaderJob.cls = [.mutate, .nav] ∧ s.taken.map LoaderJob.cls = [.mutate] ∧
    s.accepted = s.taken ++ kept s.lane.queue :=
  ⟨Option.get _ (by decide), exec_get _, by decide, by decide,
    (accepted_taken_in_order heldRun heldRun_lawful _ (exec_get _)).1 (by decide)⟩

end Librespot.Daemon.LoaderLane
