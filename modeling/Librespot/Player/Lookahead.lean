import Librespot.Player.Source

/-! # Reading through the lookahead ring -/

open Base List

namespace Librespot.Player

open RingBuffer

variable {S : Type} {err : Option Err}

/-! ## One read of a source -/

namespace AudioSource

def Healthy (src : AudioSource S) : Prop := ∀ reply ∈ src.plan, reply.fail = none

def weight (src : AudioSource S) : Nat := src.plan.length + 2 * src.samples.length

theorem give_le (src : AudioSource S) (max len : Nat) :
    src.give max len ≤ max ∧ src.give max len ≤ len ∧ src.give max len ≤ src.samples.length := by
  unfold give channels
  simp only
  split_ifs <;> omega

variable {src : AudioSource S} {len : Nat}

theorem give_pos {max : Nat} (hmax : 0 < max) (hlen : 0 < len) (hs : src.samples ≠ []) :
    0 < src.give max len := by
  have := length_pos_of_ne_nil hs
  unfold give channels
  simp only
  split_ifs <;> omega

structure Gives (len : Nat) (src : AudioSource S) (data : List S) (err : Option Err)
    (src' : AudioSource S) : Prop where
  samples : data ++ src'.samples = src.samples
  length : data.length ≤ len
  plan : src'.plan = src.plan ∨ src'.plan = src.plan.tail
  framed : src'.framed = src.framed
  noCrossfade : src'.noCrossfade = src.noCrossfade
  outcome : err = none ∨ err = some ioEOF ∧ src'.samples = []
  ended : src.samples = [] → data = [] ∧ err = some ioEOF ∧ src' = src
  fuel : src.samples ≠ [] →
    src'.plan.length + src'.samples.length < src.plan.length + src.samples.length
  weight : src.samples ≠ [] → src'.weight + data.length < src.weight

theorem read_gives (h : src.Healthy) (hlen : 0 < len) :
    Gives len src (src.read len).1 (src.read len).2.1 (src.read len).2.2 := by
  rcases hs : src.samples with _ | ⟨first, rest⟩
  · have hread : src.read len = ([], some ioEOF, src) := by simp [read, hs]
    rw [hread]
    exact ⟨rfl, by simp, .inl rfl, rfl, rfl, .inr ⟨rfl, hs⟩, fun _ => ⟨rfl, rfl, rfl⟩,
      fun hne => absurd hs hne, fun hne => absurd hs hne⟩
  · have hne : src.samples ≠ [] := by simp [hs]
    have hemp : src.samples.isEmpty = false := by simp [hs]
    rcases hp : src.plan with _ | ⟨reply, plan⟩
    · obtain ⟨-, hle, hle'⟩ := src.give_le len len
      have hpos := give_pos hlen hlen hne
      have hread : src.read len = (src.samples.take (src.give len len), none,
          { src with samples := src.samples.drop (src.give len len) }) := by
        simp [read, hemp, hp]
      rw [hread]
      refine ⟨take_append_drop _ _, by rw [length_take]; omega, .inl rfl, rfl, rfl,
        .inl rfl, fun hn => absurd hn hne, fun _ => ?_, fun _ => ?_⟩
      · simp only [length_drop]
        omega
      · simp only [AudioSource.weight, length_drop, length_take]
        omega
    · obtain ⟨-, hle, hle'⟩ := src.give_le reply.max len
      have hfail : reply.fail = none := h reply (by simp [hp])
      have hread : src.read len = (src.samples.take (src.give reply.max len),
          if reply.eof ∧ src.samples.length ≤ src.give reply.max len then some ioEOF else none,
          { src with samples := src.samples.drop (src.give reply.max len), plan }) := by
        simp [read, hemp, hp, hfail]
      rw [hread]
      refine ⟨take_append_drop _ _, by rw [length_take]; omega,
        .inr (by simp [hp]), rfl, rfl, ?_, fun hn => absurd hn hne, fun _ => ?_, fun _ => ?_⟩
      · by_cases heof : reply.eof ∧ src.samples.length ≤ src.give reply.max len
        · exact .inr ⟨if_pos heof, drop_eq_nil_of_le heof.2⟩
        · exact .inl (if_neg heof)
      · simp only [length_drop, hp, length_cons]
        omega
      · simp only [AudioSource.weight, length_drop, length_take, hp, length_cons]
        omega

theorem gives_of_read {src' : AudioSource S} (h : src.Healthy) (hlen : 0 < len) {data : List S}
    (hread : src.read len = (data, err, src')) : Gives len src data err src' := by
  have hg := read_gives h hlen
  rwa [hread] at hg

theorem Gives.healthy {src' : AudioSource S} {data : List S}
    (hg : Gives len src data err src') (h : src.Healthy) : src'.Healthy := by
  intro reply hr
  rcases hg.plan with hp | hp
  · exact h reply (hp ▸ hr)
  · exact h reply (mem_of_mem_tail (hp ▸ hr))

end AudioSource

open AudioSource (Gives gives_of_read)

namespace SwitchingAudioSource

/-! ## Filling the ring -/

def looked (s : SwitchingAudioSource S) (src : AudioSource S) (buf : RingBuffer S) (eof : Bool) :
    SwitchingAudioSource S :=
  { s.setSource s.which (some src) with buf, primaryEOF := eof }

theorem looked_source (s : SwitchingAudioSource S) (src : AudioSource S) (buf : RingBuffer S)
    (eof : Bool) : (s.looked src buf eof).source s.which = some src := by
  simp [looked, setSource]

theorem looked_other (s : SwitchingAudioSource S) (src : AudioSource S) (buf : RingBuffer S)
    (eof : Bool) : (s.looked src buf eof).source (!s.which) = s.source (!s.which) := by
  simp [looked, setSource]

variable {s : SwitchingAudioSource S} {src src' : AudioSource S} {k : Nat} {budget : Int}
  {data : List S}

theorem looked_self (h : s.source s.which = some src) : s.looked src s.buf s.primaryEOF = s := by
  have hsource : Function.update s.source s.which (some src) = s.source := by
    rw [← h]
    exact Function.update_eq_self _ _
  simp [looked, setSource, hsource]

theorem looked_looked (s : SwitchingAudioSource S) (src src' : AudioSource S)
    (buf buf' : RingBuffer S) (eof eof' : Bool) :
    (s.looked src buf eof).looked src' buf' eof' = s.looked src' buf' eof' := by
  simp [looked, setSource]

def endCost (eof : Bool) : Nat := if eof then 0 else 1

structure Filled (s : SwitchingAudioSource S) (src src' : AudioSource S) (buf : RingBuffer S)
    (eof : Bool) : Prop where
  held : buf.toList ++ src'.samples = s.buf.toList ++ src.samples
  cap : buf.cap = s.buf.cap
  healthy : src'.Healthy
  framed : src'.framed = src.framed
  noCrossfade : src'.noCrossfade = src.noCrossfade
  plan : src'.plan <:+ src.plan
  ended : eof = true → src'.samples = []
  weight : src'.weight + buf.len + endCost eof ≤ src.weight + s.buf.len + endCost s.primaryEOF

def Hungry (s : SwitchingAudioSource S) (budget : Int) : Prop :=
  s.primaryEOF = false ∧ s.pendingErr = none ∧ s.buf.len < s.buf.cap ∧ (s.buf.len = 0 ∨ budget > 0)

theorem fill_stop (h : ¬ s.Hungry budget) : fill (k + 1) budget s = some s := if_neg h

theorem fill_more (h : s.Hungry budget) (hsrc : s.source s.which = some src)
    (hread : src.read (min s.buf.freeLen scratchLen) = (data, none, src')) :
    fill (k + 1) budget s =
      fill k (budget - data.length) (s.looked src' (s.buf.write data) s.primaryEOF) := by
  unfold Hungry at h
  simp [fill, h, hsrc, hread, looked, setSource]

theorem fill_end (h : s.Hungry budget) (hsrc : s.source s.which = some src)
    (hread : src.read (min s.buf.freeLen scratchLen) = (data, some ioEOF, src'))
    (heven : (s.buf.write data).len % channels = 0) :
    fill (k + 1) budget s =
      fill k (budget - data.length) (s.looked src' (s.buf.write data) true) := by
  have htrunc : (s.buf.write data).truncate (s.buf.write data).len = s.buf.write data :=
    truncate_of_le le_rfl
  unfold Hungry at h
  simp [fill, h, hsrc, hread, looked, setSource, ioEOF, heven, htrunc]

theorem Filled.of_looked {src'' : AudioSource S} {buf : RingBuffer S} {eof eof' : Bool} {len : Nat}
    (hf : Filled (s.looked src' (s.buf.write data) eof') src' src'' buf eof)
    (hg : Gives len src data err src')
    (hw : (s.buf.write data).toList = s.buf.toList ++ data ∧ (s.buf.write data).cap = s.buf.cap ∧
      (s.buf.write data).len = s.buf.len + data.length)
    (hless : src'.weight + data.length + endCost eof' < src.weight + endCost s.primaryEOF) :
    Filled s src src'' buf eof ∧
      src''.weight + buf.len + endCost eof < src.weight + s.buf.len + endCost s.primaryEOF := by
  have hlt : src''.weight + buf.len + endCost eof < src.weight + s.buf.len +
      endCost s.primaryEOF := by
    have := hf.weight
    simp only [looked, hw.2.2] at this
    omega
  refine ⟨⟨?_, hf.cap.trans hw.2.1, hf.healthy, hf.framed.trans hg.framed,
    hf.noCrossfade.trans hg.noCrossfade, ?_, hf.ended, hlt.le⟩, hlt⟩
  · rw [hf.held]
    show (s.buf.write data).toList ++ src'.samples = _
    rw [hw.1, append_assoc, hg.samples]
  · rcases hg.plan with hp | hp
    · exact hp ▸ hf.plan
    · exact (hp ▸ hf.plan).trans (tail_suffix _)

theorem fill_spec (budget : Int) (hsrc : s.source s.which = some src) (hh : src.Healthy)
    (hp : s.pendingErr = none) (heven : (s.buf.len + src.samples.length) % channels = 0)
    (heof : s.primaryEOF = true → src.samples = []) (hcap : 0 < s.buf.cap)
    (hk : src.plan.length + src.samples.length + endCost s.primaryEOF < k) :
    ∃ src' buf eof, fill k budget s = some (s.looked src' buf eof) ∧ Filled s src src' buf eof ∧
      (s.Hungry budget →
        src'.weight + buf.len + endCost eof < src.weight + s.buf.len + endCost s.primaryEOF) := by
  induction k generalizing s src budget with
  | zero => omega
  | succ k ih =>
    by_cases hungry : s.Hungry budget
    · obtain ⟨hne, -, hroom, -⟩ := id hungry
      have hfree := s.buf.freeLen_pos hroom
      rcases hread : src.read (min s.buf.freeLen scratchLen) with ⟨data, err, src'⟩
      have hg := gives_of_read hh (by unfold scratchLen; omega) hread
      have hlen := hg.length
      have hw := write_spec (show data.length ≤ s.buf.freeLen by omega) hcap
      have hsum : data.length + src'.samples.length = src.samples.length := by
        rw [← hg.samples, length_append]
      have heven' : ((s.buf.write data).len + src'.samples.length) % channels = 0 := by
        rw [hw.2.2, Nat.add_assoc, hsum]
        exact heven
      have hcost : endCost s.primaryEOF = 1 := by simp [endCost, hne]
      rcases hg.outcome with rfl | ⟨rfl, hnil⟩
      · have hsome : src.samples ≠ [] := fun hn => by have := (hg.ended hn).2.1; simp at this
        have hfuel := hg.fuel hsome
        have hless := hg.weight hsome
        obtain ⟨src'', buf, eof, hfill, hf, -⟩ := @ih _ _ (budget - data.length)
          (s.looked_source src' (s.buf.write data) s.primaryEOF) (hg.healthy hh) hp heven'
          (fun h => by simp [looked, hne] at h) (by rw [← hw.2.1] at hcap; exact hcap)
          (show _ + endCost s.primaryEOF < k by omega)
        rw [looked_looked] at hfill
        obtain ⟨hF, hlt⟩ := hf.of_looked hg hw (by omega)
        exact ⟨src'', buf, eof, by rw [fill_more hungry hsrc hread, hfill], hF, fun _ => hlt⟩
      · have heven'' : (s.buf.write data).len % channels = 0 := by simpa [hnil] using heven'
        have hless : src'.weight + data.length ≤ src.weight := by
          by_cases hn : src.samples = []
          · obtain ⟨rfl, -, rfl⟩ := hg.ended hn
            simp
          · exact (hg.weight hn).le
        have hfuel : src'.plan.length ≤ src.plan.length := by
          rcases hg.plan with h | h <;> simp [h]
        obtain ⟨src'', buf, eof, hfill, hf, -⟩ := @ih _ _ (budget - data.length)
          (s.looked_source src' (s.buf.write data) true) (hg.healthy hh) hp heven'
          (fun _ => hnil) (by rw [← hw.2.1] at hcap; exact hcap)
          (show src'.plan.length + src'.samples.length + 0 < k by rw [hnil]; simp; omega)
        rw [looked_looked] at hfill
        obtain ⟨hF, hlt⟩ := hf.of_looked hg hw (show _ + endCost true < _ by
          rw [hcost]; simp [endCost]; omega)
        exact ⟨src'', buf, eof, by rw [fill_end hungry hsrc hread heven'', hfill], hF, fun _ => hlt⟩
    · refine ⟨src, s.buf, s.primaryEOF, ?_, ?_, fun h => absurd h hungry⟩
      · rw [fill_stop hungry, looked_self hsrc]
      · exact ⟨rfl, rfl, hh, rfl, rfl, suffix_refl _, heof, le_rfl⟩

/-! ## Serving from the ring -/

structure Popped (len limit n : Nat) (buf buf' : RingBuffer S) : Prop where
  rest : buf'.toList = buf.toList.drop n
  cap : buf'.cap = buf.cap
  len_eq : buf'.len + n = buf.len
  even : n % channels = 0
  le : n ≤ len
  most : min (min len limit) buf.len < n + channels

theorem popChunk_spec (len limit : Nat) (s : SwitchingAudioSource S) :
    ∃ n buf, s.popChunk len limit = (s.buf.toList.take n, { s with buf }) ∧
      Popped len limit n s.buf buf := by
  obtain ⟨want, hwant⟩ : ∃ want, want = min (min len limit) s.buf.len := ⟨_, rfl⟩
  have hmod := Nat.mod_lt want (show 0 < channels by decide)
  have hle : want - want % channels ≤ s.buf.len := by omega
  obtain ⟨h1, h2, h3⟩ := pop_spec hle
  have hlen := congrArg List.length h2
  rw [length_toList, length_drop, length_toList] at hlen
  refine ⟨want - want % channels, (s.buf.pop (want - want % channels)).2, ?_, h2, h3, ?_, ?_, ?_, ?_⟩
  · rw [← h1]
    unfold popChunk
    rw [← hwant]
  · omega
  · exact Nat.modEq_zero_iff_dvd.mpr (Nat.dvd_sub_mod _)
  · omega
  · omega

end SwitchingAudioSource

end Librespot.Player
