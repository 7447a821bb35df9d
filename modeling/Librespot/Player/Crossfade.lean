import Librespot.Player.Playing

/-! # Fading from one source into the next -/

open Base List Option

namespace Librespot.Player

variable {S : Type} {err : Option Err}

namespace AudioSource

open AudioSource (Gives gives_of_read)

structure Steady (src : AudioSource S) : Prop where
  healthy : src.Healthy
  framed : src.framed = true
  frame : ∀ reply ∈ src.plan, channels ≤ reply.max
  aligned : src.samples.length % channels = 0

theorem Steady.give_even {src : AudioSource S} (h : src.Steady) {max len : Nat}
    (hmax : channels ≤ max) (hlen : channels ≤ len) (hs : src.samples ≠ []) :
    0 < src.give max len ∧ src.give max len % channels = 0 := by
  have hpos := length_pos_of_ne_nil hs
  have ha := h.aligned
  unfold give channels at *
  simp only [h.framed, true_and]
  split_ifs <;> omega

theorem Steady.read {src src' : AudioSource S} (h : src.Steady) {len : Nat} (hlen : channels ≤ len)
    {data : List S} (hread : src.read len = (data, err, src')) :
    data.length % channels = 0 ∧ (src.samples ≠ [] → 0 < data.length) ∧ src'.Steady := by
  have hg := gives_of_read h.healthy (by unfold channels at hlen; omega) hread
  have heven : data.length % channels = 0 ∧ (src.samples ≠ [] → 0 < data.length) := by
    rcases hs : src.samples with _ | ⟨first, rest⟩
    · simp [(hg.ended hs).1]
    · have hne : src.samples ≠ [] := by simp [hs]
      have hemp : src.samples.isEmpty = false := by simp [hs]
      rcases hp : src.plan with _ | ⟨reply, plan⟩
      · obtain ⟨hpos, hev⟩ := h.give_even hlen hlen hne
        have hdata : data = src.samples.take (src.give len len) := by
          simp only [AudioSource.read, hemp, hp] at hread
          exact (congrArg Prod.fst hread).symm
        have := (src.give_le len len).2.2
        rw [hdata, length_take, min_eq_left this]
        exact ⟨hev, fun _ => hpos⟩
      · obtain ⟨hpos, hev⟩ := h.give_even (h.frame reply (by simp [hp])) hlen hne
        have hdata : data = src.samples.take (src.give reply.max len) := by
          simp only [AudioSource.read, hemp, hp] at hread
          exact (congrArg Prod.fst hread).symm
        have := (src.give_le reply.max len).2.2
        rw [hdata, length_take, min_eq_left this]
        exact ⟨hev, fun _ => hpos⟩
  refine ⟨heven.1, heven.2, hg.healthy h.healthy, hg.framed.trans h.framed, ?_, ?_⟩
  · intro reply hr
    rcases hg.plan with hp | hp
    · exact h.frame reply (hp ▸ hr)
    · exact h.frame reply (mem_of_mem_tail (hp ▸ hr))
  · have ha := h.aligned
    rw [← hg.samples, length_append] at ha
    have := heven.1
    unfold channels at *
    omega

end AudioSource

namespace SwitchingAudioSource

open AudioSource (Gives gives_of_read)

/-! ## What a fade sounds like -/

def fadeMix (m : Mixing S) (tail next : List S) : List S :=
  tail.mapIdx fun i out => m.mix (i - i % channels) tail.length out next[i]?

theorem mapM_range {α : Type} {f : Nat → Option α} {l : List α} {n : Nat} (hn : n ≤ l.length)
    (hf : ∀ i < n, f i = l[i]?) : (List.range n).mapM f = some (l.take n) := by
  induction n with
  | zero => simp
  | succ n ih =>
    have hlast : f n = some l[n] := by rw [hf n (by omega), getElem?_eq_getElem]
    rw [range_succ, mapM_append, ih (by omega) fun i hi => hf i (by omega)]
    simp [hlast, take_add_one]

section

variable {tail next : List S} {pos : Nat} {b : AudioSource S} {s : SwitchingAudioSource S}
  {m : Mixing S} {len : Nat}

theorem Fading.mixChunk (h : Fading tail pos b s) (heven : pos % channels = 0) {inn : List S}
    {chunk : Nat} (hchunk : pos + chunk ≤ tail.length)
    (hinn : ∀ i < chunk, inn[i]? = next[pos + i]?) :
    s.mixChunk m inn chunk = some (((fadeMix m tail next).drop pos).take chunk) := by
  have hlen : s.buf.len = tail.length - pos := by
    rw [← RingBuffer.length_toList, h.ring, length_drop]
  refine mapM_range ?_ fun i hi => ?_
  · rw [length_drop, fadeMix, length_mapIdx]
    omega
  · have hcell : s.buf.cell i = tail[pos + i]? := by
      rw [← RingBuffer.getElem?_toList _ (by omega), h.ring, getElem?_drop]
    have hframe : pos + (i - i % channels) = pos + i - (pos + i) % channels := by
      unfold channels at *
      omega
    rw [getElem?_drop, fadeMix, getElem?_mapIdx, hcell, hinn i hi, h.cursor, h.total, hframe]
    cases tail[pos + i]? <;> rfl

structure FadesInto (tail next : List S) (pos : Nat) (b : AudioSource S)
    (s : SwitchingAudioSource S) : Prop extends Fading tail pos b s where
  steady : b.Steady
  samples : b.samples = next.drop pos
  posEven : pos % channels = 0
  posLe : pos ≤ tail.length

theorem fresh_finishFade (hsrc : s.source s.which = some b) (hno : s.source (!s.which) = none)
    (herr : s.pendingErr = none) (hframes : s.crossfadeSamples % channels = 0)
    (hroom : s.buf.cap = s.crossfadeSamples + lookaheadHeadroom) : Fresh b s.finishFade :=
  ⟨hsrc, hno, rfl, rfl, rfl, herr, hframes, fun _ => hroom⟩

def faded (chunk : Nat) (b : AudioSource S) (s : SwitchingAudioSource S) : SwitchingAudioSource S :=
  { s.setSource s.which (some b) with
    buf := s.buf.advance chunk, fadePos := s.fadePos + chunk }

def fadeWant (len : Nat) (s : SwitchingAudioSource S) : Nat :=
  min (min len (s.fadeTotal - s.fadePos)) scratchLen -
    min (min len (s.fadeTotal - s.fadePos)) scratchLen % channels

theorem readFade_eq {b' : AudioSource S} {chunk : Nat} {inn data : List S}
    (hwant : 0 < s.fadeWant len) (hsrc : s.source s.which = some b)
    (hread : b.read (s.fadeWant len) = (inn, err, b'))
    (herr : err = none ∨ err = some ioEOF) (hinn : inn.length % channels = 0)
    (hchunk : chunk = if inn.length > 0 then inn.length else s.fadeWant len)
    (hmix : (s.setSource s.which (some b')).mixChunk m inn chunk = some data) :
    s.readFade m len = some ({ data },
      if s.fadePos + chunk ≥ s.fadeTotal then (s.faded chunk b').finishFade
      else s.faded chunk b') := by
  have hwhole : inn.take (inn.length - inn.length % channels) = inn :=
    take_of_length_le (by omega)
  have hok : err.any (fun e => !e.isEOF) = false := by
    rcases herr with rfl | rfl <;> rfl
  unfold fadeWant at hwant hread hchunk
  simp only [readFade, if_neg (Nat.pos_iff_ne_zero.mp hwant), readIncoming, hsrc, hread, hwhole,
    hok, Bool.false_eq_true, if_false, ← hchunk, hmix, bind_eq_bind, bind_some]
  rfl

theorem FadesInto.incoming {b' : AudioSource S} {want : Nat} {inn : List S}
    (h : FadesInto tail next pos b s) (hwant : channels ≤ want) (heven : want % channels = 0)
    (hread : b.read want = (inn, err, b')) :
    ∃ chunk, chunk = (if inn.length > 0 then inn.length else want) ∧ 0 < chunk ∧ chunk ≤ want ∧
      chunk % channels = 0 ∧ b'.samples = next.drop (pos + chunk) ∧
      ∀ i < chunk, inn[i]? = next[pos + i]? := by
  obtain ⟨hev, hsome, -⟩ := h.steady.read hwant hread
  have hg := gives_of_read h.steady.healthy (by unfold channels at hwant; omega) hread
  have hsplit : inn ++ b'.samples = next.drop pos := hg.samples.trans h.samples
  rcases inn with _ | ⟨first, rest⟩
  · have hnil : b.samples = [] := by
      by_contra hne
      simpa using hsome hne
    have hshort : next.length ≤ pos := by
      rwa [h.samples, drop_eq_nil_iff] at hnil
    refine ⟨want, rfl, by unfold channels at hwant; omega, le_rfl, heven, ?_, fun i _ => ?_⟩
    · rw [(hg.ended hnil).2.2, hnil, drop_eq_nil_of_le (by omega)]
    · rw [getElem?_nil, getElem?_eq_none (by omega)]
  · refine ⟨(first :: rest).length, by simp, by simp, hg.length, hev, ?_, fun i hi => ?_⟩
    · rw [← drop_drop, ← hsplit, drop_left]
    · rw [← getElem?_drop, ← hsplit, getElem?_append_left hi]

theorem FadesInto.step (m : Mixing S) (h : FadesInto tail next pos b s) (hlen : channels ≤ len) :
    ∃ data s' b', s.readFade m len = some ({ data }, s') ∧ b'.Steady ∧ b'.weight ≤ b.weight ∧
      ((∃ pos', pos < pos' ∧ FadesInto tail next pos' b' s' ∧
          data ++ (fadeMix m tail next).drop pos' = (fadeMix m tail next).drop pos) ∨
        Fresh b' s' ∧ b'.samples = next.drop tail.length ∧
          data = (fadeMix m tail next).drop pos) := by
  have hmixLen : (fadeMix m tail next).length = tail.length := by simp [fadeMix]
  rcases Nat.eq_or_lt_of_le h.posLe with rfl | hlt
  · refine ⟨[], s.finishFade, b, ?_, h.steady, le_rfl, .inr ⟨?_, h.samples, ?_⟩⟩
    · simp [readFade, h.cursor, h.total]
    · exact fresh_finishFade h.primary h.secondary h.noError h.frames h.room
    · rw [drop_eq_nil_of_le hmixLen.le]
  · have hbounds : channels ≤ s.fadeWant len ∧ s.fadeWant len % channels = 0 ∧
        pos + s.fadeWant len ≤ tail.length := by
      have htail := h.tailEven
      have hposEven := h.posEven
      rw [fadeWant, h.total, h.cursor]
      unfold channels scratchLen at *
      omega
    obtain ⟨hwant, hwantEven, hwantLe⟩ := hbounds
    rcases hread : b.read (s.fadeWant len) with ⟨inn, err, b'⟩
    obtain ⟨hinn, -, hb'⟩ := h.steady.read hwant hread
    have hg := gives_of_read h.steady.healthy (by unfold channels at hwant; omega) hread
    obtain ⟨chunk, hchunk, hpos, hle, hev, hrest, hsame⟩ := h.incoming hwant hwantEven hread
    have hother : (s.setSource s.which (some b')).source (!s.which) = none := by
      simpa [setSource] using h.secondary
    have hsource : (s.setSource s.which (some b')).source s.which = some b' := by simp [setSource]
    have hmid : Fading tail pos b' (s.setSource s.which (some b')) :=
      ⟨h.fading, h.total, h.cursor, h.ring, hsource, hother, h.noError, h.on, h.frames, h.room,
        h.tailEven⟩
    have hread' := readFade_eq (by unfold channels at hwant; omega) h.primary hread
      (hg.outcome.imp_right And.left) hinn hchunk
      (hmid.mixChunk (m := m) h.posEven (by omega) hsame)
    have hweight : b'.weight ≤ b.weight := by
      by_cases hne : b.samples = []
      · rw [(hg.ended hne).2.2]
      · have := hg.weight hne
        omega
    rw [h.cursor, h.total] at hread'
    by_cases hlast : pos + chunk ≥ tail.length
    · rw [if_pos hlast] at hread'
      refine ⟨_, _, b', hread', hb', hweight, .inr ⟨?_, ?_, ?_⟩⟩
      · exact fresh_finishFade hsource hother h.noError h.frames h.room
      · rw [hrest]
        congr 1
        omega
      · exact take_of_length_le (by rw [length_drop]; omega)
    · rw [if_neg hlast] at hread'
      refine ⟨_, _, b', hread', hb', hweight, .inl ⟨pos + chunk, by omega, ?_, ?_⟩⟩
      · refine ⟨⟨h.fading, h.total, ?_, ?_, hsource, hother, h.noError, h.on, h.frames, h.room,
          h.tailEven⟩, hb', hrest, ?_, by omega⟩
        · exact congrArg (· + chunk) h.cursor
        · have hbuf : s.buf.len = tail.length - pos := by
            rw [← RingBuffer.length_toList, h.ring, length_drop]
          show (s.buf.advance chunk).toList = tail.drop (pos + chunk)
          rw [RingBuffer.toList_advance (by omega), h.ring, drop_drop]
        · have := h.posEven
          unfold channels at *
          omega
      · rw [← drop_drop, take_append_drop]

/-! ## From the fade to the end -/

def HearsOut (rest : List S) (most : Nat) (lens : List Nat) (heard : Heard S) : Prop :=
  heard.fades = [] ∧
  (heard.err = none ∧ heard.out <+: rest ∧ lens.length ≤ most ∨
    heard.err = some ioEOF ∧ heard.out = rest)

theorem HearsOut.after {rest : List S} {most most' : Nat} {lens : List Nat} {heard : Heard S}
    (h : HearsOut rest most lens heard) (hmost : most < most') (len : Nat) (data : List S) :
    HearsOut (data ++ rest) most' (len :: lens) (heard.after { data }) := by
  obtain ⟨hfades, ⟨herr, hout, hlens⟩ | ⟨herr, hout⟩⟩ := h
  · refine ⟨by simp [Heard.after, hfades], .inl ⟨by simp [Heard.after, herr], ?_, ?_⟩⟩
    · exact (prefix_append_right_inj _).mpr hout
    · rw [length_cons]
      omega
  · exact ⟨by simp [Heard.after, hfades], .inr ⟨by simp [Heard.after, herr], by
      simp [Heard.after, hout]⟩⟩

variable {lens : List Nat}

theorem FadesInto.read_eq (m : Mixing S) (h : FadesInto tail next pos b s) (len : Nat) :
    s.read m len = s.readFade m len := by
  have hdecl : ¬ (s.crossfadeSamples = 0 ∨ s.primaryDeclinesCrossfade = true) := by
    rintro (h0 | hdecl)
    · have := h.on
      omega
    · simp [primaryDeclinesCrossfade, h.fading] at hdecl
  rw [read, if_neg hdecl, readCrossfade, if_pos h.fading]

variable {track out : List S} {src : AudioSource S}

theorem Playing.setSecondary (h : Playing track out src s) (b : AudioSource S) :
    Playing track out src (s.setSecondary b) := by
  refine ⟨?_, h.healthy, h.samples, h.aligned, h.frames, h.even, h.direct, h.notFading, h.noError,
    h.ended, h.room⟩
  simpa [SwitchingAudioSource.setSecondary, setSource] using h.primary

end

end SwitchingAudioSource

end Librespot.Player
