import Librespot.Player.Playing

/-!
# A source that fails

An error of the primary source waits until the lookahead has been read. What is read from it are
whole frames, so half a frame at its end stays there, and the error behind it.
-/

open Base

namespace Librespot.Player

open RingBuffer

variable {S : Type} {src' : AudioSource S}

namespace AudioSource

def Breaks (err : Err) (src : AudioSource S) : Prop :=
  ∃ healthy failing rest, src.plan = healthy ++ failing :: rest ∧
    (∀ reply ∈ healthy, reply.fail = none) ∧ failing.fail = some err ∧
    (healthy.map Reply.max).sum < src.samples.length

structure Feeds (err : Err) (len : Nat) (src : AudioSource S) (data : List S) (res : Option Err)
    (src' : AudioSource S) : Prop where
  samples : data ++ src'.samples = src.samples
  length : data.length ≤ len
  plan : src'.plan.length + 1 = src.plan.length
  noCrossfade : src'.noCrossfade = src.noCrossfade
  outcome : res = none ∧ src'.Breaks err ∨ res = some err

theorem Breaks.read {err : Err} {src : AudioSource S} (h : src.Breaks err) (len : Nat) :
    Feeds err len src (src.read len).1 (src.read len).2.1 (src.read len).2.2 := by
  obtain ⟨healthy, failing, rest, hplan, hhealthy, hfail, hsum⟩ := h
  have hemp : src.samples.isEmpty = false := by
    rw [List.isEmpty_eq_false_iff]
    exact List.ne_nil_of_length_pos (by omega)
  cases healthy with
  | nil =>
    obtain ⟨-, hle, -⟩ := src.give_le failing.max len
    have hread : src.read len = (src.samples.take (src.give failing.max len), some err,
        { src with samples := src.samples.drop (src.give failing.max len), plan := rest }) := by
      simp [AudioSource.read, hemp, hplan, hfail]
    rw [hread]
    exact ⟨List.take_append_drop _ _, by rw [List.length_take]; omega, by simp [hplan], rfl,
      .inr rfl⟩
  | cons reply healthy =>
    obtain ⟨hmax, hle, -⟩ := src.give_le reply.max len
    rw [List.map_cons, List.sum_cons] at hsum
    have hreply := hhealthy reply List.mem_cons_self
    have hread : src.read len = (src.samples.take (src.give reply.max len), none,
        { src with
          samples := src.samples.drop (src.give reply.max len)
          plan := healthy ++ failing :: rest }) := by
      have hmore : ¬ (reply.eof = true ∧ src.samples.length ≤ src.give reply.max len) := by omega
      simp [AudioSource.read, hemp, hplan, hreply, hmore]
    rw [hread]
    refine ⟨List.take_append_drop _ _, by rw [List.length_take]; omega, by simp [hplan], rfl,
      .inl ⟨rfl, healthy, failing, rest, rfl, ?_, hfail, ?_⟩⟩
    · exact fun other hother => hhealthy other (List.mem_cons_of_mem _ hother)
    · rw [List.length_drop]
      omega

theorem Breaks.feeds {err : Err} {src : AudioSource S} {len : Nat} {data : List S}
    {res : Option Err} (h : src.Breaks err) (hread : src.read len = (data, res, src')) :
    Feeds err len src data res src' := by
  have hf := h.read len
  rwa [hread] at hf

end AudioSource

open AudioSource (Breaks Feeds)

namespace SwitchingAudioSource

/-! ## Filling the ring -/

structure Refilled (s : SwitchingAudioSource S) (src src' : AudioSource S) (buf : RingBuffer S) :
    Prop where
  held : buf.toList ++ src'.samples = s.buf.toList ++ src.samples
  cap : buf.cap = s.buf.cap
  noCrossfade : src'.noCrossfade = src.noCrossfade
  plan : src'.plan.length ≤ src.plan.length
  grows : s.buf.len ≤ buf.len

def parked (s : SwitchingAudioSource S) (src : AudioSource S) (buf : RingBuffer S) (err : Err) :
    SwitchingAudioSource S :=
  { s.looked src buf false with pendingErr := some err }

section

variable {s : SwitchingAudioSource S} {src src' : AudioSource S} {err : Err} {data : List S}
  {k : Nat} {budget : Int}

theorem fill_fail (h : s.Hungry budget) (hsrc : s.source s.which = some src)
    (hread : src.read (min s.buf.freeLen scratchLen) = (data, some err, src'))
    (herr : err.isEOF = false) :
    fill (k + 2) budget s = some (s.parked src' (s.buf.write data) err) := by
  have hstop : ¬ (s.parked src' (s.buf.write data) err).Hungry (budget - data.length) := by
    simp [Hungry, parked]
  unfold Hungry at h
  rw [← fill_stop (k := k) hstop]
  nth_rewrite 1 [fill]
  simp [h, hsrc, hread, herr, parked, looked, setSource]

theorem fill_breaks (budget : Int) (hsrc : s.source s.which = some src) (hb : src.Breaks err)
    (herr : err.isEOF = false) (hp : s.pendingErr = none) (heof : s.primaryEOF = false)
    (hcap : 0 < s.buf.cap) (hk : src.plan.length < k) :
    ∃ src' buf, Refilled s src src' buf ∧
      ((fill k budget s = some (s.looked src' buf false) ∧ src'.Breaks err ∧
        (s.Hungry budget → src'.plan.length < src.plan.length)) ∨
      fill k budget s = some (s.parked src' buf err)) := by
  induction k generalizing s src budget with
  | zero => omega
  | succ k ih =>
    by_cases hungry : s.Hungry budget
    · rcases hread : src.read (min s.buf.freeLen scratchLen) with ⟨data, res, src'⟩
      have hf := hb.feeds hread
      have hlen := hf.length
      have hplan := hf.plan
      have hw := write_spec (show data.length ≤ s.buf.freeLen by omega) hcap
      have hheld : (s.buf.write data).toList ++ src'.samples = s.buf.toList ++ src.samples := by
        rw [hw.1, List.append_assoc, hf.samples]
      rcases hf.outcome with ⟨rfl, hb'⟩ | rfl
      · have hmore := fill_more (k := k) hungry hsrc hread
        rw [heof] at hmore
        obtain ⟨src'', buf, hr, hres⟩ := @ih (s.looked src' (s.buf.write data) false) src'
          (budget - data.length) (s.looked_source src' (s.buf.write data) false) hb' hp rfl
          (by rw [← hw.2.1] at hcap; exact hcap) (by omega)
        have hplan' := hr.plan
        have hgrows : (s.buf.write data).len ≤ buf.len := hr.grows
        refine ⟨src'', buf, ⟨hr.held.trans hheld, hr.cap.trans hw.2.1,
          hr.noCrossfade.trans hf.noCrossfade, by omega, by omega⟩, ?_⟩
        rw [hmore]
        rcases hres with ⟨hfill, hb'', -⟩ | hfill
        · rw [hfill, looked_looked]
          exact .inl ⟨rfl, hb'', fun _ => by omega⟩
        · rw [hfill]
          exact .inr (by simp [parked, looked_looked])
      · obtain ⟨k, rfl⟩ : ∃ j, k = j + 1 := ⟨k - 1, by omega⟩
        refine ⟨src', s.buf.write data, ⟨hheld, hw.2.1, hf.noCrossfade, by omega, by omega⟩,
          .inr ?_⟩
        exact fill_fail hungry hsrc hread herr
    · refine ⟨src, s.buf, ⟨rfl, rfl, rfl, le_rfl, le_rfl⟩, .inl ⟨?_, hb, fun h => absurd h hungry⟩⟩
      rw [fill_stop hungry, ← heof, looked_self hsrc]

end

structure Feeding (err : Err) (track out : List S) (src : AudioSource S)
    (s : SwitchingAudioSource S) : Prop where
  primary : s.source s.which = some src
  breaks : src.Breaks err
  noCrossfade : src.noCrossfade = false
  samples : out ++ (s.buf.toList ++ src.samples) = track
  even : out.length % channels = 0
  notFading : s.fading = false
  noError : s.pendingErr = none
  notEnded : s.primaryEOF = false
  crossfades : 0 < s.crossfadeSamples
  room : s.crossfadeSamples + channels ≤ s.buf.cap

structure Parked (err : Err) (given out : List S) (src : AudioSource S)
    (s : SwitchingAudioSource S) : Prop where
  primary : s.source s.which = some src
  noCrossfade : src.noCrossfade = false
  samples : out ++ s.buf.toList = given
  even : out.length % channels = 0
  notFading : s.fading = false
  pending : s.pendingErr = some err
  notEnded : s.primaryEOF = false
  crossfades : 0 < s.crossfadeSamples

section

variable {m : Mixing S} {err : Err} {track given out : List S} {src : AudioSource S}
  {s : SwitchingAudioSource S} {len : Nat} {lens : List Nat}

theorem read_eq_readCrossfade (hsrc : s.source s.which = some src) (hno : src.noCrossfade = false)
    (hcross : 0 < s.crossfadeSamples) : s.read m len = s.readCrossfade m len := by
  rw [read, if_neg]
  rintro (h0 | hdecl)
  · omega
  · unfold primaryDeclinesCrossfade at hdecl
    split at hdecl
    · simp at hdecl
    · simp [hsrc, hno] at hdecl

theorem Parked.read_eq (h : Parked err given out src s) : s.read m len =
    if s.buf.len > 0 then
      some ({ data := (s.popChunk len s.buf.len).1 }, (s.popChunk len s.buf.len).2)
    else some ({ err := some err }, { s with pendingErr := none }) := by
  have hstop : ¬ s.Hungry (2 * scratchLen) := by simp [Hungry, h.pending]
  have hfuel : ∃ k, s.fillFuel = k + 1 := ⟨s.fillFuel - 1, by simp [fillFuel, h.primary]⟩
  obtain ⟨k, hk⟩ := hfuel
  rw [read_eq_readCrossfade h.primary h.noCrossfade h.crossfades]
  simp only [readCrossfade, h.notFading, h.primary, Option.bind_eq_bind, hk, fill_stop hstop,
    Option.bind_some, h.notEnded, h.pending]
  simp

theorem Parked.popped (h : Parked err given out src s) {limit n : Nat} {buf : RingBuffer S}
    (hp : Popped len limit n s.buf buf) :
    Parked err given (out ++ s.buf.toList.take n) src { s with buf } := by
  have hn : n ≤ s.buf.len := by have := hp.len_eq; omega
  refine ⟨h.primary, h.noCrossfade, ?_, ?_, h.notFading, h.pending, h.notEnded, h.crossfades⟩
  · show out ++ s.buf.toList.take n ++ buf.toList = given
    rw [hp.rest, List.append_assoc, List.take_append_drop]
    exact h.samples
  · have heven := hp.even
    have hout := h.even
    rw [List.length_append, List.length_take, length_toList, min_eq_left hn]
    unfold channels at *
    omega

theorem Parked.stuck (h : Parked err given out src s) (hone : s.buf.len = 1) (len : Nat) :
    s.read m len = some ({}, s) := by
  have hwant : min (min len 1) 1 - min (min len 1) 1 % channels = 0 := by
    unfold channels
    omega
  rw [h.read_eq, if_pos (by omega)]
  simp only [popChunk, hone, hwant]
  rfl

theorem readAll_stuck (hstuck : ∀ len, s.read m len = some ({}, s)) (lens : List Nat) :
    readAll m lens s = some ({}, s) := by
  induction lens with
  | nil => rfl
  | cons len _ ih =>
    rw [readAll_cons (hstuck len) rfl, ih]
    rfl

structure Surfaces (m : Mixing S) (err : Err) (given out : List S) (src : AudioSource S)
    (heard : Heard S) (s : SwitchingAudioSource S) : Prop where
  primary : s.source s.which = some src
  frames : out ++ heard.out = given.take (given.length - given.length % channels)
  err_eq : heard.err = if given.length % channels = 0 then some err else none
  torn : given.length % channels ≠ 0 → ∀ len, s.read m len = some ({}, s)

theorem Surfaces.after {heard : Heard S} {r : ReadResult S}
    (h : Surfaces m err given (out ++ r.data) src heard s) (hr : r.err = none) :
    Surfaces m err given out src (heard.after r) s := by
  refine ⟨h.primary, ?_, ?_, h.torn⟩
  · rw [← h.frames, List.append_assoc]
    rfl
  · rw [← h.err_eq]
    simp [Heard.after, hr]

theorem Parked.readAll (h : Parked err given out src s)
    (hlens : ∀ len ∈ lens, channels ≤ len) (hbound : s.buf.len < lens.length) :
    ∃ heard s', readAll m lens s = some (heard, s') ∧ Surfaces m err given out src heard s' := by
  induction lens generalizing s out with
  | nil => simp at hbound
  | cons len lens ih =>
    have hout := h.even
    have hgiven : given.length = out.length + s.buf.len := by
      rw [← h.samples, List.length_append, length_toList]
    rcases lt_trichotomy s.buf.len 1 with hzero | hone | hmore
    · -- the ring is empty, and the error surfaces
      have hempty : s.buf.len = 0 := by omega
      have hread : s.read m len = some ({ err := some err }, { s with pendingErr := none }) := by
        rw [h.read_eq, if_neg (by omega)]
      refine ⟨_, _, readAll_last hread rfl, h.primary, ?_, ?_, ?_⟩
      all_goals rw [hgiven, hempty, Nat.add_zero, hout]
      · have hall : out = given := by
          rw [← h.samples, toList_eq_nil hempty, List.append_nil]
        simp [Heard.after, hall]
      · rfl
      · simp
    · have hstuck : ∀ len, s.read m len = some ({}, s) := h.stuck hone
      have hodd : given.length % channels = 1 := by
        unfold channels at *
        omega
      refine ⟨{}, s, readAll_stuck hstuck _, h.primary, ?_, ?_, fun _ => hstuck⟩
      · rw [hodd, ← h.samples, List.length_append, length_toList, hone]
        simp
      · simp [hodd]
    · obtain ⟨n, buf, hpop, hp⟩ := popChunk_spec len s.buf.len s
      have hread : s.read m len = some ({ data := s.buf.toList.take n }, { s with buf }) := by
        rw [h.read_eq, if_pos (by omega), hpop]
      have hlen := hlens len List.mem_cons_self
      have hmost := hp.most
      have hlen_eq := hp.len_eq
      have hless : buf.len < lens.length := by
        simp only [List.length_cons] at hbound
        unfold channels at *
        omega
      obtain ⟨heard, s', hall, hsurf⟩ := ih (h.popped hp)
        (fun len hmem => hlens len (List.mem_cons_of_mem _ hmem)) hless
      exact ⟨_, s', by rw [readAll_cons hread rfl, hall]; rfl, hsurf.after rfl⟩

def feed (src : AudioSource S) (s : SwitchingAudioSource S) : Nat :=
  src.plan.length * (s.buf.cap + 2) + s.buf.len

theorem feed_lt {s' : SwitchingAudioSource S} (hcap : s'.buf.cap = s.buf.cap)
    (hplan : src'.plan.length < src.plan.length) : feed src' s' < feed src s := by
  have hle := s'.buf.len_le
  have hmul := Nat.mul_le_mul_right (s.buf.cap + 2) (Nat.succ_le_of_lt hplan)
  have hdef : s'.buf.cells.length = s'.buf.cap := rfl
  unfold feed
  rw [Nat.succ_mul] at hmul
  rw [hcap]
  omega

theorem Feeding.served {buf : RingBuffer S} (h : Feeding err track out src s)
    (hr : Refilled s src src' buf) (hb : src'.Breaks err)
    (hplan : s.buf.len < s.buf.cap → src'.plan.length < src.plan.length) (hlen : channels ≤ len)
    (hfill : fill s.fillFuel (2 * scratchLen) s = some (s.looked src' buf false)) :
    ∃ r s', s.read m len = some (r, s') ∧ r.err = none ∧
      Feeding err track (out ++ r.data) src' s' ∧ feed src' s' < feed src s := by
  obtain ⟨t, ht⟩ : ∃ t, t = s.looked src' buf false := ⟨_, rfl⟩
  obtain ⟨limit, hlimit⟩ : ∃ limit, limit =
    if t.buf.len > t.crossfadeSamples then t.buf.len - t.crossfadeSamples else min t.buf.len len :=
    ⟨_, rfl⟩
  obtain ⟨n, buf', hpop, hp⟩ := popChunk_spec len limit t
  have hread : s.read m len = some ({ data := t.buf.toList.take n }, { t with buf := buf' }) := by
    have hnone : t.pendingErr = none := by rw [ht]; exact h.noError
    have heof : t.primaryEOF = false := by rw [ht]; rfl
    rw [read_eq_readCrossfade h.primary h.noCrossfade h.crossfades]
    simp only [readCrossfade, h.notFading, h.primary, Option.bind_eq_bind, hfill, ← ht,
      Option.bind_some, heof, hnone, ← hlimit, hpop]
    simp
  have hbuf : t.buf = buf := by rw [ht]; rfl
  have hcross : t.crossfadeSamples = s.crossfadeSamples := by rw [ht]; rfl
  have hcap : buf'.cap = s.buf.cap := by rw [hp.cap, hbuf, hr.cap]
  have hlen_eq := hp.len_eq
  have heven := hp.even
  have hout := h.even
  rw [hbuf] at hlen_eq hlimit
  refine ⟨_, _, hread, rfl, ⟨?_, hb, hr.noCrossfade.trans h.noCrossfade, ?_, ?_, ?_, ?_, ?_, ?_, ?_⟩,
    ?_⟩
  · rw [ht]
    exact s.looked_source src' buf false
  · show out ++ t.buf.toList.take n ++ (buf'.toList ++ src'.samples) = track
    rw [hp.rest, List.append_assoc, ← List.append_assoc (t.buf.toList.take n),
      List.take_append_drop, hbuf, hr.held]
    exact h.samples
  · rw [List.length_append, List.length_take, length_toList, hbuf]
    unfold channels at *
    omega
  · rw [ht]
    exact h.notFading
  · rw [ht]
    exact h.noError
  · rw [ht]
    rfl
  · rw [ht]
    exact h.crossfades
  · have hroom := h.room
    show t.crossfadeSamples + channels ≤ buf'.cap
    omega
  · by_cases hfull : s.buf.len < s.buf.cap
    · exact feed_lt hcap (hplan hfull)
    · -- a full ring holds more than the reserve, so that a frame is taken from it
      have hroom := h.room
      have hgrows := hr.grows
      have hmost := hp.most
      have hle : buf.len ≤ s.buf.cap := hr.cap ▸ buf.len_le
      rw [hbuf] at hmost
      rw [hcross, if_pos (by unfold channels at *; omega)] at hlimit
      have hmul := Nat.mul_le_mul_right (s.buf.cap + 2) hr.plan
      show src'.plan.length * (buf'.cap + 2) + buf'.len < _
      unfold feed
      rw [hcap]
      unfold channels at *
      omega

theorem Feeding.step (h : Feeding err track out src s) (herr : err.isEOF = false)
    (hlen : channels ≤ len) :
    (∃ r s' src', s.read m len = some (r, s') ∧ r.err = none ∧
      Feeding err track (out ++ r.data) src' s' ∧ feed src' s' < feed src s) ∨
    ∃ given src' t, s.read m len = t.read m len ∧ given ++ src'.samples = track ∧
      Parked err given out src' t ∧ t.buf.len < feed src s := by
  have hroom := h.room
  have hcap : 0 < s.buf.cap := by have := h.crossfades; omega
  have hfuel : src.plan.length < s.fillFuel := by
    simp only [fillFuel, h.primary]
    omega
  obtain ⟨src', buf, hr, ⟨hfill, hb, hplan⟩ | hfill⟩ := fill_breaks (2 * scratchLen)
    h.primary h.breaks herr h.noError h.notEnded hcap hfuel
  · have hhungry (hmore : s.buf.len < s.buf.cap) : s.Hungry (2 * scratchLen) :=
      ⟨h.notEnded, h.noError, hmore, .inr (by unfold scratchLen; omega)⟩
    obtain ⟨r, s', hread, hnone, hfeeding, hless⟩ :=
      h.served hr hb (fun hmore => hplan (hhungry hmore)) hlen hfill
    exact .inl ⟨r, s', src', hread, hnone, hfeeding, hless⟩
  · have hparked : Parked err (out ++ buf.toList) out src' (s.parked src' buf err) :=
      ⟨s.looked_source src' buf false, hr.noCrossfade.trans h.noCrossfade, rfl, h.even,
        h.notFading, rfl, rfl, h.crossfades⟩
    refine .inr ⟨_, src', _, ?_, ?_, hparked, ?_⟩
    · rw [hparked.read_eq, read_eq_readCrossfade h.primary h.noCrossfade h.crossfades]
      simp only [readCrossfade, h.notFading, h.primary, Option.bind_eq_bind, hfill,
        Option.bind_some, hparked.notEnded, hparked.pending]
      simp
    · rw [List.append_assoc, hr.held]
      exact h.samples
    · obtain ⟨healthy, failing, rest, hplan, -⟩ := h.breaks
      have hle : buf.len ≤ s.buf.cap := hr.cap ▸ buf.len_le
      show buf.len < src.plan.length * (s.buf.cap + 2) + s.buf.len
      rw [hplan, List.length_append, List.length_cons]
      have hmul := Nat.le_mul_of_pos_left (s.buf.cap + 2)
        (show 0 < healthy.length + (rest.length + 1) by omega)
      omega

theorem Feeding.readAll (h : Feeding err track out src s) (herr : err.isEOF = false)
    (hlens : ∀ len ∈ lens, channels ≤ len) (hbound : feed src s < lens.length) :
    ∃ heard s' src' given, readAll m lens s = some (heard, s') ∧ given ++ src'.samples = track ∧
      Surfaces m err given out src' heard s' := by
  induction lens generalizing s src out with
  | nil => simp at hbound
  | cons len _ ih =>
    rcases h.step (m := m) herr (hlens len List.mem_cons_self) with
      ⟨r, s', src', hread, hnone, hfeeding, hless⟩ | ⟨given, src', t, hread, hgiven, hparked, hless⟩
    · obtain ⟨heard, s'', src'', given, hall, hgiven, hsurf⟩ := ih hfeeding
        (fun len hmem => hlens len (List.mem_cons_of_mem _ hmem))
        (by simp only [List.length_cons] at hbound; omega)
      refine ⟨_, s'', src'', given, ?_, hgiven, hsurf.after hnone⟩
      rw [readAll_cons hread hnone, hall]
      rfl
    · obtain ⟨heard, s', hall, hsurf⟩ := hparked.readAll (m := m) hlens (by omega)
      refine ⟨heard, s', src', given, ?_, hgiven, hsurf⟩
      rw [← hall]
      simp only [SwitchingAudioSource.readAll, hread]

/-- Once the source has failed after `N` samples, their whole frames have been read, and the error
follows exactly if nothing of a frame is left over. -/
theorem error_surfaces_iff (h : Feeding err track [] src s) (herr : err.isEOF = false)
    (hlens : ∀ len ∈ lens, channels ≤ len) (hbound : feed src s < lens.length) :
    ∃ N heard s' src', readAll m lens s = some (heard, s') ∧ s'.source s'.which = some src' ∧
      src'.samples = track.drop N ∧ N ≤ track.length ∧
      heard.out = track.take (N - N % channels) ∧
      heard.err = (if N % channels = 0 then some err else none) ∧
      (N % channels ≠ 0 → ∀ len, s'.read m len = some ({}, s')) := by
  obtain ⟨heard, s', src', given, hall, hgiven, hsurf⟩ := h.readAll (m := m) herr hlens hbound
  have htake : given = track.take given.length := by rw [← hgiven, List.take_left]
  refine ⟨given.length, heard, s', src', hall, hsurf.primary, ?_, ?_, ?_, hsurf.err_eq, hsurf.torn⟩
  · rw [← hgiven, List.drop_left]
  · rw [← hgiven, List.length_append]
    omega
  · have hframes := hsurf.frames
    rwa [List.nil_append, htake, List.take_take, ← htake, min_eq_left (Nat.sub_le _ _)] at hframes

theorem feeding_new (zero : S) {crossfadeSamples : Int} (hcross : 2 ≤ crossfadeSamples)
    (hb : src.Breaks err) (hno : src.noCrossfade = false) :
    Feeding err src.samples [] src
      ((newSwitchingAudioSource zero crossfadeSamples).setPrimary src) := by
  have hfresh := fresh_new zero crossfadeSamples src
  have hsamples : ((newSwitchingAudioSource zero crossfadeSamples).setPrimary src).crossfadeSamples
      = crossfadeSamples.toNat - crossfadeSamples.toNat % channels := by
    rw [setPrimary_new (fun _ => rfl)]
    exact (newSwitchingAudioSource zero crossfadeSamples).resetCrossfade_keeps.2.2.2
  have hpos : 0 < crossfadeSamples.toNat - crossfadeSamples.toNat % channels := by
    unfold channels
    omega
  rw [← hsamples] at hpos
  refine ⟨hfresh.primary, hb, hno, ?_, rfl, hfresh.notFading, hfresh.noError, hfresh.notEnded,
    hpos, ?_⟩
  · rw [toList_eq_nil hfresh.empty]
    rfl
  · rw [hfresh.room hpos]
    unfold channels lookaheadHeadroom
    omega

end

def brokenPipe : Err := { text := "broken pipe" }

def breaksAfter (n : Nat) : AudioSource Int where
  id := 1
  samples := [1, 2, 3, 4, 5]
  plan := [{ max := n }, { max := 0, fail := some brokenPipe }]

theorem breaks_breaksAfter {n : Nat} (hn : n < 5) : (breaksAfter n).Breaks brokenPipe :=
  ⟨[{ max := n }], { max := 0, fail := some brokenPipe }, [], rfl, by simp, rfl, by
    simpa [breaksAfter] using hn⟩

/-- Three samples and then an error: the third sample stays, and no read returns the error. -/
theorem error_never_surfaces :
    (breaksAfter 3).Breaks brokenPipe ∧
    ∃ heard s', readAll intMixing [4] ((newSwitchingAudioSource 0 2).setPrimary (breaksAfter 3)) =
        some (heard, s') ∧ heard.out = [1, 2] ∧ heard.err = none ∧
      s'.pendingErr = some brokenPipe ∧ ∀ len, s'.read intMixing len = some ({}, s') := by
  have hrun : (readAll intMixing [4]
      ((newSwitchingAudioSource 0 2).setPrimary (breaksAfter 3))).map (fun r => (r.1.out,
        [r.1.err, r.2.pendingErr], [r.2.buf.len, r.2.crossfadeSamples],
        [some r.2.fading, some r.2.primaryEOF, (r.2.source r.2.which).map (·.noCrossfade)])) =
      some ([1, 2], [none, some brokenPipe], [1, 2], [some false, some false, some false]) := by
    decide +kernel
  obtain ⟨⟨heard, s'⟩, hread, hres⟩ := Option.map_eq_some_iff.mp hrun
  simp only [Prod.mk.injEq, List.cons.injEq, Option.some.injEq, and_true] at hres
  obtain ⟨hout, ⟨hnone, hpending⟩, ⟨hlen, hcross⟩, hfading, heof, hno⟩ := hres
  obtain ⟨src, hsrc, hno⟩ := Option.map_eq_some_iff.mp hno
  have hparked : Parked brokenPipe ([1, 2] ++ s'.buf.toList) [1, 2] src s' :=
    ⟨hsrc, hno, rfl, rfl, hfading, hpending, heof, by omega⟩
  exact ⟨breaks_breaksAfter (by decide), heard, s', hread, hout, hnone, hpending,
    hparked.stuck hlen⟩

theorem error_surfaces_iff_broken :
    (breaksAfter 2).Breaks brokenPipe ∧
    ∃ N heard s' src', readAll intMixing (List.replicate 16393 4)
        ((newSwitchingAudioSource 0 2).setPrimary (breaksAfter 2)) = some (heard, s') ∧
      s'.source s'.which = some src' ∧ src'.samples = [1, 2, 3, 4, 5].drop N ∧
      heard.err = (if N % channels = 0 then some brokenPipe else none) := by
  have hb : (breaksAfter 2).Breaks brokenPipe := breaks_breaksAfter (by decide)
  have hcross : (2 : Int) ≤ 2 := le_rfl
  have hlens : ∀ len ∈ List.replicate 16393 4, channels ≤ len := by
    intro len hlen
    rw [List.eq_of_mem_replicate hlen]
    decide
  have hbound : feed (breaksAfter 2) ((newSwitchingAudioSource 0 2).setPrimary (breaksAfter 2)) <
      (List.replicate 16393 4).length := by
    rw [List.length_replicate]
    decide +kernel
  obtain ⟨N, heard, s', src', hall, hsrc, hdrop, -, -, herr, -⟩ :=
    error_surfaces_iff (feeding_new 0 hcross hb rfl) rfl hlens hbound
  exact ⟨hb, N, heard, s', src', hall, hsrc, hdrop, herr⟩

end SwitchingAudioSource

end Librespot.Player
