import Librespot.Player.Lookahead

/-! # Playing one source to its end -/

open Base

namespace Librespot.Player.SwitchingAudioSource

open RingBuffer

variable {S : Type}

open AudioSource (Gives gives_of_read)

def Direct (s : SwitchingAudioSource S) (src : AudioSource S) : Prop :=
  s.crossfadeSamples = 0 ∨ src.noCrossfade = true

structure Playing (track out : List S) (src : AudioSource S) (s : SwitchingAudioSource S) :
    Prop where
  primary : s.source s.which = some src
  healthy : src.Healthy
  samples : out ++ (s.buf.toList ++ src.samples) = track
  aligned : track.length % channels = 0
  frames : s.crossfadeSamples % channels = 0
  even : s.Direct src ∨ out.length % channels = 0
  direct : s.Direct src → s.buf.len = 0 ∧ s.primaryEOF = false
  notFading : s.fading = false
  noError : s.pendingErr = none
  ended : s.primaryEOF = true → src.samples = []
  room : 0 < s.crossfadeSamples → s.buf.cap = s.crossfadeSamples + lookaheadHeadroom

def left (src : AudioSource S) (s : SwitchingAudioSource S) : Nat :=
  src.weight + s.buf.len + endCost s.primaryEOF

structure Kept (src : AudioSource S) (s : SwitchingAudioSource S) (src' : AudioSource S)
    (s' : SwitchingAudioSource S) : Prop where
  which : s'.which = s.which
  other : s'.source (!s.which) = s.source (!s.which)
  done : s'.done = s.done
  eofReported : s'.eofReported = s.eofReported
  crossfadeSamples : s'.crossfadeSamples = s.crossfadeSamples
  noCrossfade : src'.noCrossfade = src.noCrossfade

def GoesOn (track out : List S) (src : AudioSource S) (s : SwitchingAudioSource S)
    (r : ReadResult S) (s' : SwitchingAudioSource S) : Prop :=
  r.err = none ∧ r.signalled = false ∧ r.fadeStart = none ∧
  ∃ src', Playing track (out ++ r.data) src' s' ∧ Kept src s src' s' ∧ left src' s' < left src s

def Ends (track out : List S) (s : SwitchingAudioSource S) (r : ReadResult S)
    (s' : SwitchingAudioSource S) : Prop :=
  out ++ r.data = track ∧ r.err = some ioEOF ∧ r.fadeStart = none ∧
  r.signalled = (!s.eofReported && !s.done) ∧ s'.eofReported = true

structure Fresh (src : AudioSource S) (s : SwitchingAudioSource S) : Prop where
  primary : s.source s.which = some src
  secondary : s.source (!s.which) = none
  empty : s.buf.len = 0
  notEnded : s.primaryEOF = false
  notFading : s.fading = false
  noError : s.pendingErr = none
  frames : s.crossfadeSamples % channels = 0
  room : 0 < s.crossfadeSamples → s.buf.cap = s.crossfadeSamples + lookaheadHeadroom

theorem Fresh.playing {src : AudioSource S} {s : SwitchingAudioSource S} (h : Fresh src s)
    (hh : src.Healthy) (ha : src.samples.length % channels = 0) : Playing src.samples [] src s :=
  ⟨h.primary, hh, by simp [RingBuffer.toList_eq_nil h.empty], ha, h.frames, .inr rfl,
    fun _ => ⟨h.empty, h.notEnded⟩, h.notFading, h.noError, by simp [h.notEnded], h.room⟩

def Switches (track out : List S) (src : AudioSource S) (r : ReadResult S)
    (s' : SwitchingAudioSource S) : Prop :=
  out ++ r.data = track ∧ r.err = none ∧ r.fadeStart = none ∧ Fresh src s'

section

variable {track out : List S} {src : AudioSource S} {s : SwitchingAudioSource S} {m : Mixing S}
  {len : Nat}

theorem Playing.read_direct (h : Playing track out src s) (hd : s.Direct src) :
    s.read m len = s.readDirect len := by
  have hdecl : s.crossfadeSamples = 0 ∨ s.primaryDeclinesCrossfade = true := by
    rcases hd with h0 | hn
    · exact .inl h0
    · have := h.direct (.inr hn)
      exact .inr (by simp [primaryDeclinesCrossfade, h.notFading, this, h.primary, hn])
  rw [read, if_pos hdecl]

theorem Playing.read_ahead (h : Playing track out src s) (hd : ¬ s.Direct src) :
    s.read m len = s.readCrossfade m len := by
  rw [read, if_neg]
  rintro (h0 | hn)
  · exact hd (.inl h0)
  · unfold primaryDeclinesCrossfade at hn
    split at hn
    · simp at hn
    · rw [h.primary] at hn
      exact hd (.inr (by simpa using hn))

/-! ## Without the lookahead -/

theorem reportDone_eq (s : SwitchingAudioSource S) :
    s.reportDone = (!s.eofReported && !s.done,
      { s with eofReported := true, done := s.done || !s.eofReported }) := by
  unfold reportDone
  cases hr : s.eofReported with
  | true =>
    obtain ⟨⟩ := s
    simp_all
  | false => simp

variable {src' : AudioSource S} {s' t : SwitchingAudioSource S} {r : ReadResult S} {lens : List Nat}

theorem readDirect_last {data : List S} (hsrc : s.source s.which = some src)
    (hread : src.read len = (data, some ioEOF, src')) (hother : s.source (!s.which) = none) :
    s.readDirect len = some
      ({ data, err := some ioEOF, signalled := !s.eofReported && !s.done },
        (s.setSource s.which (some src')).reportDone.2) := by
  simp only [readDirect, hsrc, Option.bind_eq_bind, Option.bind_some, hread, ioEOF, reportDone_eq,
    setSource, if_true]
  rw [if_pos (by simp [hother])]

theorem readDirect_switch {b : AudioSource S} {data : List S} (hsrc : s.source s.which = some src)
    (hread : src.read len = (data, some ioEOF, src')) (hother : s.source (!s.which) = some b) :
    s.readDirect len = some ({ data, signalled := !s.eofReported && !s.done },
      (s.setSource s.which (some src')).reportDone.2.switchOver) := by
  simp only [readDirect, hsrc, Option.bind_eq_bind, Option.bind_some, hread, ioEOF, reportDone_eq,
    setSource, if_true]
  rw [if_neg (by simp [hother])]

theorem Playing.step_direct (h : Playing track out src s) (hd : s.Direct src) (hlen : 0 < len) :
    ∃ r s', s.readDirect len = some (r, s') ∧
      (GoesOn track out src s r s' ∨ s.source (!s.which) = none ∧ Ends track out s r s' ∨
        ∃ b, s.source (!s.which) = some b ∧ Switches track out b r s') := by
  obtain ⟨hbuf, heof⟩ := h.direct hd
  rcases hread : src.read len with ⟨data, err, src'⟩
  have hg := gives_of_read h.healthy hlen hread
  have hsamples : out ++ (data ++ src'.samples) = track := by
    have := h.samples
    rwa [toList_eq_nil hbuf, List.nil_append, ← hg.samples] at this
  rcases hg.outcome with rfl | ⟨rfl, hnil⟩
  · refine ⟨{ data }, s.setSource s.which (some src'), by simp [readDirect, h.primary, hread],
      .inl ⟨rfl, rfl, rfl, src', ?_, ?_, ?_⟩⟩
    · have hd' : Direct (s.setSource s.which (some src')) src' := by
        rcases hd with h0 | hn
        · exact .inl h0
        · exact .inr (hg.noCrossfade.trans hn)
      refine ⟨by simp [setSource], hg.healthy h.healthy, ?_, h.aligned, h.frames, .inl hd',
        fun _ => ⟨hbuf, heof⟩, h.notFading, h.noError, ?_, h.room⟩
      · show (out ++ data) ++ (s.buf.toList ++ src'.samples) = track
        rw [toList_eq_nil hbuf, List.nil_append, List.append_assoc, hsamples]
      · simp [setSource, heof]
    · exact ⟨rfl, by simp [setSource], rfl, rfl, rfl, hg.noCrossfade⟩
    · have hne : src.samples ≠ [] := fun hn => by have := (hg.ended hn).2.1; simp at this
      have := hg.weight hne
      show src'.weight + s.buf.len + endCost s.primaryEOF < _
      unfold left
      omega
  · have hall : out ++ data = track := by simpa [hnil] using hsamples
    rcases hother : s.source (!s.which) with _ | b
    · exact ⟨_, _, readDirect_last h.primary hread hother,
        .inr (.inl ⟨rfl, hall, rfl, rfl, rfl, by rw [reportDone_eq]⟩)⟩
    · refine ⟨_, _, readDirect_switch h.primary hread hother,
        .inr (.inr ⟨b, rfl, hall, rfl, rfl, ?_⟩)⟩
      rw [reportDone_eq]
      refine ⟨?_, ?_, hbuf, heof, h.notFading, h.noError, h.frames, h.room⟩
      · simp [switchOver, setSource, hother]
      · simp [switchOver, setSource]

/-! ## Through the lookahead -/

theorem Playing.ahead (h : Playing track out src s) (hd : ¬ s.Direct src) :
    0 < s.crossfadeSamples ∧ 0 < s.buf.cap ∧ out.length % channels = 0 := by
  have hpos : 0 < s.crossfadeSamples := Nat.pos_of_ne_zero fun h0 => hd (.inl h0)
  refine ⟨hpos, ?_, h.even.resolve_left hd⟩
  rw [h.room hpos]
  omega

theorem Playing.heldEven (h : Playing track out src s) (hd : ¬ s.Direct src) :
    (s.buf.len + src.samples.length) % channels = 0 := by
  have hout := (h.ahead hd).2.2
  have htrack := h.aligned
  rw [← h.samples, List.length_append, List.length_append, length_toList] at htrack
  unfold channels at *
  omega

theorem Playing.not_direct (hd : ¬ s.Direct src) (hk : Kept src s src' s') : ¬ s'.Direct src' := by
  unfold Direct at *
  rwa [hk.crossfadeSamples, hk.noCrossfade]

theorem Playing.fill (h : Playing track out src s) (hd : ¬ s.Direct src) :
    ∃ src' t, SwitchingAudioSource.fill s.fillFuel (2 * scratchLen) s = some t ∧
      Playing track out src' t ∧ Kept src s src' t ∧ left src' t ≤ left src s ∧
      (s.primaryEOF = true ∨ s.buf.len = s.buf.cap → t = s ∧ src' = src) ∧
      (s.primaryEOF = false → s.buf.len < s.buf.cap → left src' t < left src s) := by
  obtain ⟨hpos, hcap, hout⟩ := h.ahead hd
  have hfuel : src.plan.length + src.samples.length + endCost s.primaryEOF < s.fillFuel := by
    have : endCost s.primaryEOF ≤ 1 := by unfold endCost; split <;> omega
    simp only [fillFuel, h.primary]
    omega
  obtain ⟨src', buf, eof, hfill, hf, hless⟩ := fill_spec (2 * scratchLen) h.primary
    h.healthy h.noError (h.heldEven hd) h.ended hcap hfuel
  have hkept : Kept src s src' (s.looked src' buf eof) :=
    ⟨rfl, s.looked_other src' buf eof, rfl, rfl, rfl, hf.noCrossfade⟩
  refine ⟨src', _, hfill, ?_, hkept, hf.weight, ?_, ?_⟩
  · have hd' := Playing.not_direct hd hkept
    refine ⟨s.looked_source src' buf eof, hf.healthy, ?_, h.aligned, h.frames, .inr hout,
      fun hd'' => absurd hd'' hd', h.notFading, h.noError, hf.ended, fun hc => ?_⟩
    · show out ++ (buf.toList ++ src'.samples) = track
      rw [hf.held]
      exact h.samples
    · exact hf.cap.trans (h.room hc)
  · intro hidle
    have hstop : ¬ s.Hungry (2 * scratchLen) := by
      rintro ⟨h1, -, h2, -⟩
      rcases hidle with h' | h'
      · simp [h1] at h'
      · omega
    obtain ⟨k, hk⟩ : ∃ k, s.fillFuel = k + 1 := ⟨s.fillFuel - 1, by omega⟩
    rw [hk, fill_stop hstop, Option.some.injEq] at hfill
    refine ⟨hfill.symm, ?_⟩
    have := s.looked_source src' buf eof
    rw [← hfill, h.primary, Option.some.injEq] at this
    exact this.symm
  · intro hne hroom
    exact hless ⟨hne, h.noError, hroom, .inr (by unfold scratchLen; omega)⟩

theorem Playing.popped (h : Playing track out src s) (hd : ¬ s.Direct src) {limit n : Nat}
    {buf : RingBuffer S} (hp : Popped len limit n s.buf buf) :
    Playing track (out ++ s.buf.toList.take n) src { s with buf } := by
  obtain ⟨hpos, hcap, hout⟩ := h.ahead hd
  have hn : n ≤ s.buf.len := by have := hp.len_eq; omega
  refine ⟨h.primary, h.healthy, ?_, h.aligned, h.frames, .inr ?_, fun hd' => absurd hd' hd,
    h.notFading, h.noError, h.ended, fun hc => hp.cap.trans (h.room hc)⟩
  · show out ++ s.buf.toList.take n ++ (buf.toList ++ src.samples) = track
    rw [hp.rest, List.append_assoc, ← List.append_assoc (s.buf.toList.take n),
      List.take_append_drop]
    exact h.samples
  · have := hp.even
    rw [List.length_append, List.length_take, length_toList, min_eq_left hn]
    unfold channels at *
    omega

theorem Playing.readCrossfade_eq (len : Nat) (h : Playing track out src s)
    (hfill : SwitchingAudioSource.fill s.fillFuel (2 * scratchLen) s = some t)
    (ht : t.pendingErr = none) :
    s.readCrossfade m len =
      if t.primaryEOF then t.readTail m len
      else
        let limit :=
          if t.buf.len > t.crossfadeSamples then t.buf.len - t.crossfadeSamples
          else min t.buf.len len
        some ({ data := (t.popChunk len limit).1 }, (t.popChunk len limit).2) := by
  simp only [readCrossfade, h.notFading, h.primary, Option.bind_eq_bind, hfill, Option.bind_some, ht]
  simp

structure Fading (tail : List S) (pos : Nat) (b : AudioSource S) (s : SwitchingAudioSource S) :
    Prop where
  fading : s.fading = true
  total : s.fadeTotal = tail.length
  cursor : s.fadePos = pos
  ring : s.buf.toList = tail.drop pos
  primary : s.source s.which = some b
  secondary : s.source (!s.which) = none
  noError : s.pendingErr = none
  on : 0 < s.crossfadeSamples
  frames : s.crossfadeSamples % channels = 0
  room : s.buf.cap = s.crossfadeSamples + lookaheadHeadroom
  tailEven : tail.length % channels = 0

def began (signalled : Bool) (tail : Nat) (r : ReadResult S) : ReadResult S :=
  { r with signalled, fadeStart := some tail }

def StartsFade (track out : List S) (b : AudioSource S) (m : Mixing S) (len : Nat)
    (s : SwitchingAudioSource S) : Prop :=
  ∃ tail mid signalled, out ++ tail = track ∧ tail.length ≤ s.crossfadeSamples ∧ Fading tail 0 b mid ∧
    mid.crossfadeSamples = s.crossfadeSamples ∧
    s.read m len = (mid.readFade m len).map (Prod.map (began signalled tail.length) id)

theorem Playing.step_tail (h : Playing track out src s) (hd : ¬ s.Direct src)
    (heof : s.primaryEOF = true) (hlen : channels ≤ len) :
    (∃ r s', s.readTail m len = some (r, s') ∧ (GoesOn track out src s r s' ∨
      s.source (!s.which) = none ∧ Ends track out s r s')) ∨
    ∃ b tail mid signalled, s.source (!s.which) = some b ∧ out ++ tail = track ∧
      tail.length ≤ s.crossfadeSamples ∧ Fading tail 0 b mid ∧
      mid.crossfadeSamples = s.crossfadeSamples ∧
      s.readTail m len =
        (mid.readFade m len).map (Prod.map (began signalled tail.length) id) := by
  obtain ⟨hpos, hcap, hout⟩ := h.ahead hd
  have hnil := h.ended heof
  have hall : out ++ s.buf.toList = track := by simpa [hnil] using h.samples
  have heven : s.buf.len % channels = 0 := by simpa [hnil] using h.heldEven hd
  have hframes := h.frames
  -- A chunk of the tail that is not all of it leaves the rest for later.
  have hgoes : ∀ {limit n : Nat} {buf : RingBuffer S}, Popped len limit n s.buf buf → 0 < n →
      GoesOn track out src s { data := s.buf.toList.take n } { s with buf } := by
    intro limit n buf hp hn
    refine ⟨rfl, rfl, rfl, src, h.popped hd hp, ⟨rfl, rfl, rfl, rfl, rfl, rfl⟩, ?_⟩
    have := hp.len_eq
    simp only [left]
    omega
  rcases hother : s.source (!s.which) with _ | b
  · left
    by_cases h0 : s.buf.len = 0
    · refine ⟨{ err := some ioEOF, signalled := s.reportDone.1 }, s.reportDone.2, ?_, .inr ⟨rfl, ?_⟩⟩
      · simp [readTail, hother, h0]
      · refine ⟨by simpa [toList_eq_nil h0] using hall, rfl, rfl, ?_, ?_⟩
        · rw [reportDone_eq]
        · rw [reportDone_eq]
    · obtain ⟨n, buf, hpop, hp⟩ := popChunk_spec len s.buf.len s
      have hmost := hp.most
      have hleft := hp.len_eq
      have hn : 0 < n := by
        unfold channels at *
        omega
      by_cases hlast : buf.len = 0
      · refine ⟨⟨s.buf.toList.take n, some ioEOF, !s.eofReported && !s.done, none⟩,
          { s with buf }.reportDone.2, ?_, .inr ⟨rfl, ?_, rfl, rfl, rfl, ?_⟩⟩
        · simp [readTail, hother, h0, hpop, hlast, reportDone_eq]
        · rw [List.take_of_length_le (by rw [length_toList]; omega)]
          exact hall
        · rw [reportDone_eq]
      · refine ⟨{ data := s.buf.toList.take n }, { s with buf }, ?_, .inl (hgoes hp hn)⟩
        simp [readTail, hother, h0, hpop, hlast]
  · by_cases hbig : s.buf.len > s.crossfadeSamples
    · left
      obtain ⟨n, buf, hpop, hp⟩ := popChunk_spec len (s.buf.len - s.crossfadeSamples) s
      have hmost := hp.most
      have hn : 0 < n := by
        unfold channels at *
        omega
      refine ⟨{ data := s.buf.toList.take n }, { s with buf }, ?_, .inl (hgoes hp hn)⟩
      simp [readTail, hother, hbig, hpop]
    · right
      have htotal : s.reportDone.2.buf.len = s.buf.len := by rw [reportDone_eq]
      refine ⟨b, s.buf.toList, { s.reportDone.2.switchOver with
        fading := true, fadeTotal := s.reportDone.2.buf.len, fadePos := 0 }, s.reportDone.1, rfl, hall,
        by rw [length_toList]; omega, ?_, ?_, ?_⟩
      · rw [reportDone_eq]
        refine ⟨rfl, (length_toList _).symm, rfl, rfl, ?_, ?_, h.noError, hpos, h.frames,
          h.room hpos, by rw [length_toList]; exact heven⟩
        · simp [switchOver, setSource, hother]
        · simp [switchOver, setSource]
      · rw [reportDone_eq]
        rfl
      · simp only [readTail, hother, Option.isSome_some, if_true, if_neg hbig]
        rw [length_toList, ← htotal]
        rcases readFade m len _ with _ | ⟨r, s'⟩ <;> rfl

theorem Kept.trans {src'' : AudioSource S} {s'' : SwitchingAudioSource S} (h : Kept src s src' s')
    (h' : Kept src' s' src'' s'') : Kept src s src'' s'' := by
  have hother := h'.other
  rw [h.which, h.other] at hother
  exact ⟨h'.which.trans h.which, hother, h'.done.trans h.done,
    h'.eofReported.trans h.eofReported, h'.crossfadeSamples.trans h.crossfadeSamples,
    h'.noCrossfade.trans h.noCrossfade⟩

theorem GoesOn.after (hg : GoesOn track out src' t r s') (hk : Kept src s src' t)
    (hle : left src' t ≤ left src s) : GoesOn track out src s r s' := by
  obtain ⟨herr, hsig, hfade, src'', hp, hk', hlt⟩ := hg
  exact ⟨herr, hsig, hfade, src'', hp, hk.trans hk', by omega⟩

theorem Playing.step_reserve (h : Playing track out src s) (hd : ¬ s.Direct src)
    (hlen : channels ≤ len) (ht : Playing track out src' t) (hk : Kept src s src' t)
    (hle : left src' t ≤ left src s)
    (hidle : s.primaryEOF = true ∨ s.buf.len = s.buf.cap → t = s ∧ src' = src)
    (hless : s.primaryEOF = false → s.buf.len < s.buf.cap → left src' t < left src s)
    (heof : t.primaryEOF = false) (limit : Nat)
    (hlimit : t.buf.len > t.crossfadeSamples → limit = t.buf.len - t.crossfadeSamples) :
    GoesOn track out src s { data := (t.popChunk len limit).1 } (t.popChunk len limit).2 := by
  obtain ⟨n, buf, hpop, hp⟩ := popChunk_spec len limit t
  have hleft := hp.len_eq
  rw [hpop]
  refine ⟨rfl, rfl, rfl, src', ht.popped (Playing.not_direct hd hk) hp,
    hk.trans ⟨rfl, rfl, rfl, rfl, rfl, rfl⟩, ?_⟩
  have hafter : left src' { t with buf } + n = left src' t := by
    simp only [left]
    omega
  rcases Nat.lt_or_ge s.buf.len s.buf.cap with hroom | hfull
  · have hne : s.primaryEOF = false := by
      cases hs : s.primaryEOF with
      | false => rfl
      | true =>
        rw [(hidle (.inl hs)).1, hs] at heof
        simp at heof
    have := hless hne hroom
    show left src' { t with buf } < left src s
    omega
  · -- The ring is full, so the headroom is served.
    have hcap : s.buf.len = s.buf.cap := le_antisymm s.buf.len_le hfull
    obtain ⟨rfl, rfl⟩ := hidle (.inr hcap)
    have hsize := h.room (h.ahead hd).1
    have hmost := hp.most
    have hn : 0 < n := by
      rw [hlimit (by rw [hcap, hsize]; unfold lookaheadHeadroom; omega)] at hmost
      unfold lookaheadHeadroom at hsize
      unfold channels at *
      omega
    show left src' { t with buf } < left src' t
    omega

theorem Playing.step (h : Playing track out src s) (hlen : channels ≤ len) :
    (∃ r s', s.read m len = some (r, s') ∧
      (GoesOn track out src s r s' ∨ s.source (!s.which) = none ∧ Ends track out s r s' ∨
        s.Direct src ∧ ∃ b, s.source (!s.which) = some b ∧ Switches track out b r s')) ∨
    ∃ b, s.source (!s.which) = some b ∧ StartsFade track out b m len s := by
  by_cases hd : s.Direct src
  · left
    rw [h.read_direct hd]
    simp only [hd, true_and]
    exact h.step_direct hd (by unfold channels at hlen; omega)
  obtain ⟨src', t, hfill, ht, hk, hle, hidle, hless⟩ := h.fill hd
  have heq := h.readCrossfade_eq (m := m) len hfill ht.noError
  have hdt := Playing.not_direct hd hk
  unfold StartsFade
  rw [h.read_ahead hd, heq]
  cases heof : t.primaryEOF with
  | false =>
    left
    refine ⟨_, _, rfl, .inl ?_⟩
    exact h.step_reserve hd hlen ht hk hle hidle hless heof _ fun hbig => if_pos hbig
  | true =>
    simp only [if_true]
    have hsame : t.source (!t.which) = s.source (!s.which) := by rw [hk.which, hk.other]
    rcases ht.step_tail (m := m) hdt heof hlen with ⟨r, s', hr, hgo⟩ | ⟨b, tail, mid, sig, hb, hrest⟩
    · refine .inl ⟨r, s', hr, ?_⟩
      rcases hgo with hgo | ⟨hnone, hend⟩
      · exact .inl (hgo.after hk hle)
      · refine .inr (.inl ⟨hsame ▸ hnone, ?_⟩)
        unfold Ends at hend ⊢
        rwa [hk.eofReported, hk.done] at hend
    · refine .inr ⟨b, hsame ▸ hb, tail, mid, sig, ?_⟩
      rw [← hk.crossfadeSamples]
      exact hrest

/-! ## Reading until the end -/

/-- What a caller hears that reads on until an error or the end, with the done signals and the
fades on the way. -/
structure Heard (S : Type) where
  out : List S := []
  err : Option Err := none
  signals : Nat := 0
  fades : List Nat := []
deriving DecidableEq, Repr

def Heard.after (r : ReadResult S) (heard : Heard S) : Heard S where
  out := r.data ++ heard.out
  err := r.err.or heard.err
  signals := r.signalled.toNat + heard.signals
  fades := r.fadeStart.toList ++ heard.fades

def readAll (m : Mixing S) : List Nat → SwitchingAudioSource S →
    Option (Heard S × SwitchingAudioSource S)
  | [], s => some ({}, s)
  | len :: lens, s => do
    let (r, s) ← s.read m len
    if r.err.isSome then some (Heard.after r {}, s)
    else do
      let (heard, s) ← readAll m lens s
      some (heard.after r, s)

theorem readAll_last {err : Err} (hr : s.read m len = some (r, s')) (he : r.err = some err) :
    readAll m (len :: lens) s = some (Heard.after r {}, s') := by
  simp [readAll, hr, he]

theorem readAll_cons (hr : s.read m len = some (r, s')) (he : r.err = none) :
    readAll m (len :: lens) s =
      (readAll m lens s').map (Prod.map (Heard.after r) id) := by
  simp only [readAll, Option.bind_eq_bind, hr, Option.bind_some, he, Option.isSome_none,
    Bool.false_eq_true, if_false]
  rcases readAll m lens s' with _ | ⟨heard, s''⟩ <;> rfl

def HeardSome (track out : List S) (src : AudioSource S) (s : SwitchingAudioSource S)
    (lens : List Nat) (heard : Heard S) (s' : SwitchingAudioSource S) : Prop :=
  heard.err = none ∧ heard.signals = 0 ∧ heard.fades = [] ∧
  ∃ src', Playing track (out ++ heard.out) src' s' ∧ Kept src s src' s' ∧
    left src' s' + lens.length ≤ left src s

theorem Playing.readAll_alone (h : Playing track out src s) (hno : s.source (!s.which) = none)
    (hlens : ∀ len ∈ lens, channels ≤ len) :
    ∃ heard s', readAll m lens s = some (heard, s') ∧
      (HeardSome track out src s lens heard s' ∨
        heard.err = some ioEOF ∧ out ++ heard.out = track ∧ heard.fades = [] ∧
        heard.signals = (!s.eofReported && !s.done).toNat) := by
  induction lens generalizing out src s with
  | nil =>
    exact ⟨{}, s, rfl, .inl ⟨rfl, rfl, rfl, src, by simpa using h, ⟨rfl, rfl, rfl, rfl, rfl, rfl⟩,
      by simp⟩⟩
  | cons len lens ih =>
    have hrest : ∀ len ∈ lens, channels ≤ len := fun l hl => hlens l (List.mem_cons_of_mem _ hl)
    rcases h.step (m := m) (hlens len List.mem_cons_self) with
      ⟨r, s', hr, ⟨herr, hsig, hfade, src', hp, hk, hlt⟩ | ⟨-, hall, herr, hfade, hsig, -⟩ |
        ⟨-, b, hb, -⟩⟩ | ⟨b, hb, -⟩
    · obtain ⟨heard, s'', hrun, hcase⟩ := ih hp (by rwa [hk.which, hk.other]) hrest
      refine ⟨heard.after r, s'', by rw [readAll_cons hr herr, hrun]; rfl, ?_⟩
      rcases hcase with ⟨he, hs, hf, src'', hp', hk', hle⟩ | ⟨he, hall, hf, hs⟩
      · refine .inl ⟨by simp [Heard.after, herr, he], by simp [Heard.after, hsig, hs],
          by simp [Heard.after, hfade, hf], src'', ?_, hk.trans hk', ?_⟩
        · rw [List.append_assoc] at hp'
          exact hp'
        · rw [List.length_cons]
          omega
      · refine .inr ⟨by simp [Heard.after, herr, he], ?_, by simp [Heard.after, hfade, hf], ?_⟩
        · rwa [List.append_assoc] at hall
        · simp [Heard.after, hsig, hs, hk.eofReported, hk.done]
    · refine ⟨_, s', readAll_last hr herr, .inr ⟨by simp [Heard.after, herr], ?_,
        by simp [Heard.after, hfade], by simp [Heard.after, hsig]⟩⟩
      simpa [Heard.after] using hall
    · simp [hno] at hb
    · simp [hno] at hb

theorem resetCrossfade_keeps (s : SwitchingAudioSource S) :
    s.resetCrossfade.source = s.source ∧ s.resetCrossfade.which = s.which ∧
    s.resetCrossfade.done = s.done ∧
    s.resetCrossfade.crossfadeSamples = s.crossfadeSamples := by
  unfold resetCrossfade
  split <;> exact ⟨rfl, rfl, rfl, rfl⟩

theorem setPrimary_new (hno : ∀ slot, s.source slot = none) (a : AudioSource S) :
    s.setPrimary a = { s.resetCrossfade.setSource s.which (some a) with eofReported := false } := by
  obtain ⟨hsource, hwhich, -⟩ := s.resetCrossfade_keeps
  have hdiff : sameSource none (some a) = false := by simp [sameSource]
  have hother : (s.resetCrossfade.setSource s.which (some a)).source
      (!(s.resetCrossfade.setSource s.which (some a)).which) = none := by
    simp [setSource, hsource, hwhich, hno]
  simp only [setPrimary, hno s.which, hdiff, Bool.false_eq_true, if_false, hother]

theorem fresh_new (zero : S) (crossfadeSamples : Int) (a : AudioSource S) :
    Fresh a ((newSwitchingAudioSource zero crossfadeSamples).setPrimary a) := by
  rw [setPrimary_new (fun _ => rfl)]
  have hframes : (crossfadeSamples.toNat - crossfadeSamples.toNat % channels) % channels = 0 :=
    Nat.modEq_zero_iff_dvd.mpr (Nat.dvd_sub_mod _)
  by_cases h0 : crossfadeSamples.toNat - crossfadeSamples.toNat % channels = 0
  · have hreset : (newSwitchingAudioSource zero crossfadeSamples).resetCrossfade =
        newSwitchingAudioSource zero crossfadeSamples := if_pos h0
    rw [hreset]
    refine ⟨rfl, rfl, ?_, rfl, rfl, rfl, hframes, fun hpos => absurd h0 (Nat.pos_iff_ne_zero.mp hpos)⟩
    simp [newSwitchingAudioSource, h0, setSource, ofCells]
  · have hpos := Nat.pos_of_ne_zero h0
    have hreset : (newSwitchingAudioSource zero crossfadeSamples).resetCrossfade =
        { newSwitchingAudioSource zero crossfadeSamples with pendingErr := none }.finishFade :=
      if_neg h0
    rw [hreset]
    refine ⟨rfl, rfl, rfl, rfl, rfl, rfl, hframes, fun _ => ?_⟩
    simp [newSwitchingAudioSource, hpos, setSource, finishFade, reset,
      ofCells, cap]

theorem new_signals (zero : S) (crossfadeSamples : Int) (a : AudioSource S) :
    ((newSwitchingAudioSource zero crossfadeSamples).setPrimary a).eofReported = false ∧
    ((newSwitchingAudioSource zero crossfadeSamples).setPrimary a).done = false := by
  rw [setPrimary_new (fun _ => rfl)]
  exact ⟨rfl, (resetCrossfade_keeps _).2.2.1⟩

theorem heard_alone (m : Mixing S) (zero : S) (crossfadeSamples : Int) {a : AudioSource S}
    (hh : a.Healthy) (ha : a.samples.length % channels = 0) (hlens : ∀ len ∈ lens, channels ≤ len) :
    ∃ heard s', readAll m lens ((newSwitchingAudioSource zero crossfadeSamples).setPrimary a) =
        some (heard, s') ∧
      (heard.err = none ∧ heard.signals = 0 ∧ heard.out <+: a.samples ∨
        heard.err = some ioEOF ∧ heard.signals = 1 ∧ heard.out = a.samples) ∧
      (a.plan.length + 2 * a.samples.length + 1 < lens.length → heard.err = some ioEOF) := by
  have hf := fresh_new zero crossfadeSamples a
  have hp := hf.playing hh ha
  obtain ⟨hrep, hdone⟩ := new_signals zero crossfadeSamples a
  obtain ⟨heard, s', hrun, hcase⟩ := hp.readAll_alone (m := m) hf.secondary hlens
  refine ⟨heard, s', hrun, ?_, ?_⟩
  · rcases hcase with ⟨he, hs, -, src', hp', -⟩ | ⟨he, hall, -, hs⟩
    · exact .inl ⟨he, hs, _, by simpa using hp'.samples⟩
    · exact .inr ⟨he, by simpa [hrep, hdone] using hs, by simpa using hall⟩
  · intro hlong
    rcases hcase with ⟨-, -, -, src', -, -, hle⟩ | ⟨he, -⟩
    · simp only [left, hf.empty, hf.notEnded, endCost, AudioSource.weight] at hle
      simp only [Bool.false_eq_true, if_false] at hle
      omega
    · exact he

/-- Reading a source that has no successor gives exactly its samples, for every crossfade length.
That is what reading it without the lookahead gives, where each read is a `readDirect`. The done
signal comes with the read that returns `io.EOF`, and that read comes after finitely many. -/
theorem reads_transparent (m : Mixing S) (zero : S) (crossfadeSamples : Int) (a : AudioSource S)
    (hh : a.Healthy) (ha : a.samples.length % channels = 0) (lens : List Nat)
    (hlens : ∀ len ∈ lens, channels ≤ len) :
    ∃ heard s', readAll m lens ((newSwitchingAudioSource zero crossfadeSamples).setPrimary a) =
        some (heard, s') ∧
      (heard.err = none ∧ heard.signals = 0 ∧ heard.out <+: a.samples ∨
        heard.err = some ioEOF ∧ heard.signals = 1 ∧ heard.out = a.samples) ∧
      (a.plan.length + 2 * a.samples.length + 1 < lens.length → heard.err = some ioEOF) ∧
      ∀ directLens direct s'', (∀ len ∈ directLens, channels ≤ len) →
        readAll m directLens ((newSwitchingAudioSource zero 0).setPrimary a) = some (direct, s'') →
        heard.err = some ioEOF → direct.err = some ioEOF → heard.out = direct.out := by
  obtain ⟨heard, s', hrun, hcase, hend⟩ := heard_alone m zero crossfadeSamples hh ha hlens
  refine ⟨heard, s', hrun, hcase, hend, ?_⟩
  intro directLens direct s'' hdl hdirect he hde
  obtain ⟨heard0, s0, hrun0, hcase0, -⟩ := heard_alone m zero 0 hh ha hdl
  rw [hdirect, Option.some.injEq, Prod.mk.injEq] at hrun0
  obtain ⟨rfl, -⟩ := hrun0
  rcases hcase with ⟨hn, -⟩ | ⟨-, -, hout⟩
  · simp [hn] at he
  · rcases hcase0 with ⟨hn, -⟩ | ⟨-, -, hout0⟩
    · simp [hn] at hde
    · rw [hout, hout0]

end

def intMixing : Mixing Int where
  mul := (· * ·)
  add := (· + ·)
  gt a b := decide (a > b)
  maxSampleValue := 1000
  minusOne := -1
  gainOut pos total := total - pos
  gainIn pos _ := pos

def oddChunks : AudioSource Int where
  id := 1
  samples := [1, 2, 3, 4]
  plan := [{ max := 1 }, { max := 0 }, { max := 3, eof := true }]

theorem reads_transparent_oddChunks : oddChunks.Healthy ∧
    oddChunks.samples.length % channels = 0 ∧
    ∃ heard s', readAll intMixing (List.replicate 13 3)
        ((newSwitchingAudioSource 0 5).setPrimary oddChunks) = some (heard, s') ∧
      heard.err = some ioEOF := by
  have hh : oddChunks.Healthy := by
    intro reply hr
    simp only [oddChunks, List.mem_cons, List.not_mem_nil, or_false] at hr
    rcases hr with rfl | rfl | rfl <;> rfl
  have ha : oddChunks.samples.length % channels = 0 := by decide
  obtain ⟨heard, s', hrun, -, hend, -⟩ := reads_transparent intMixing 0 5 oddChunks hh ha
    (List.replicate 13 3) (by simp [channels])
  exact ⟨hh, ha, heard, s', hrun, hend (by decide)⟩

end Librespot.Player.SwitchingAudioSource
