import Librespot.Player.ManageLoop
import Librespot.Player.Playing

/-!
# Whose end a NotPlaying event reports

The source signals the end of a track through a channel that holds one signal, and
the loop stamps the event with the generation that is current when it gets to it.
-/

open Base.Run List Option

namespace Librespot.Player

open SwitchingAudioSource

variable {S : Type}

namespace SwitchingAudioSource

variable {s s' : SwitchingAudioSource S}

def SameSignal (s s' : SwitchingAudioSource S) : Prop :=
  s'.done = s.done ∧ s'.eofReported = s.eofReported

def Signals (s s' : SwitchingAudioSource S) : Prop :=
  s.eofReported = false ∧ s'.eofReported = true ∧ s'.done = true

theorem SameSignal.trans {s'' : SwitchingAudioSource S} (h : SameSignal s s')
    (h' : SameSignal s' s'') : SameSignal s s'' :=
  ⟨h'.1.trans h.1, h'.2.trans h.2⟩

theorem SameSignal.ite {c : Prop} [Decidable c] {t : SwitchingAudioSource S} (h : SameSignal s s')
    (h' : SameSignal s t) : SameSignal s (if c then s' else t) := by
  split
  · exact h
  · exact h'

theorem reportDone_signals (s : SwitchingAudioSource S) :
    SameSignal s s.reportDone.2 ∨ Signals s s.reportDone.2 := by
  unfold reportDone
  split
  · exact .inl ⟨rfl, rfl⟩
  · rename_i hreported
    exact .inr ⟨by simpa using hreported, rfl, rfl⟩

theorem signals_after (h : SameSignal s.reportDone.2 s') : SameSignal s s' ∨ Signals s s' := by
  rcases reportDone_signals s with hr | ⟨hbefore, hafter, hdone⟩
  · exact .inl (hr.trans h)
  · exact .inr ⟨hbefore, h.2.trans hafter, h.1.trans hdone⟩

theorem resetCrossfade_same (s : SwitchingAudioSource S) : SameSignal s s.resetCrossfade := by
  unfold resetCrossfade
  split <;> exact ⟨rfl, rfl⟩

theorem setPrimary_signal (src : AudioSource S) (s : SwitchingAudioSource S) :
    (s.setPrimary src).done = s.done ∧ (s.setPrimary src).eofReported = false := by
  refine ⟨?_, rfl⟩
  unfold setPrimary
  dsimp only
  have hreset := (resetCrossfade_same s).1
  split <;> split <;> first | rfl | exact hreset

theorem setPositionMs_signal (answer : Except Err (List S × List Reply))
    (s : SwitchingAudioSource S) :
    (s.setPositionMs answer).2.done = s.done ∧
      ((s.setPositionMs answer).2.eofReported = s.eofReported ∨
        (s.setPositionMs answer).2.eofReported = false ∧ 0 < s.crossfadeSamples ∧
          ∃ res, answer = .ok res) := by
  have hreset := resetCrossfade_same s
  have hsamples : s.resetCrossfade.crossfadeSamples = s.crossfadeSamples := by
    unfold resetCrossfade
    split <;> rfl
  unfold setPositionMs
  split
  · exact ⟨rfl, .inl rfl⟩
  · cases answer with
    | error => exact ⟨hreset.1, .inl hreset.2⟩
    | ok res =>
      by_cases hpos : 0 < s.resetCrossfade.crossfadeSamples
      · simp only [setSource, gt_iff_lt, hpos, if_true]
        exact ⟨hreset.1, .inr ⟨trivial, hsamples ▸ hpos, res, rfl⟩⟩
      · simp only [setSource, gt_iff_lt, hpos, if_false]
        exact ⟨hreset.1, .inl hreset.2⟩

theorem fill_same {k : Nat} {budget : Int} (h : fill k budget s = some s') : SameSignal s s' := by
  induction k generalizing budget s with
  | zero => simp [fill] at h
  | succ _ ih =>
    simp only [fill, bind_eq_bind] at h
    split at h
    · simp only [bind_eq_some_iff] at h
      obtain ⟨src, -, h⟩ := h
      split at h
      · exact (ih h : SameSignal _ _)
      · split at h <;> exact (ih h : SameSignal _ _)
    · rw [← some.inj h]
      exact ⟨rfl, rfl⟩

theorem readIncoming_same (want : Nat) (s : SwitchingAudioSource S) :
    SameSignal s (s.readIncoming want).2.2 := by
  unfold readIncoming
  split <;> exact ⟨rfl, rfl⟩

variable {m : Mixing S} {len : Nat} {r : ReadResult S}

theorem readFade_same (h : s.readFade m len = some (r, s')) : SameSignal s s' := by
  simp only [readFade] at h
  split at h
  · cases h
    exact ⟨rfl, rfl⟩
  · have hsame := readIncoming_same
      (min (min len (s.fadeTotal - s.fadePos)) scratchLen -
        min (min len (s.fadeTotal - s.fadePos)) scratchLen % channels) s
    split at h
    · cases h
      exact hsame
    · simp only [run_eq_some] at h
      obtain ⟨data, -, h⟩ := h
      cases h
      exact SameSignal.ite ⟨hsame.1, hsame.2⟩ ⟨hsame.1, hsame.2⟩

theorem readDirect_signals (h : s.readDirect len = some (r, s')) :
    SameSignal s s' ∨ Signals s s' := by
  simp only [readDirect, run_eq_some] at h
  obtain ⟨src, -, h⟩ := h
  generalize hset : s.setSource s.which (some (src.read len).2.2) = t at h
  have ht : SameSignal s t := hset ▸ ⟨rfl, rfl⟩
  have hsignals (h : SameSignal t s' ∨ Signals t s') : SameSignal s s' ∨ Signals s s' := by
    rcases h with h | h
    · exact .inl (ht.trans h)
    · exact .inr ⟨ht.2 ▸ h.1, h.2⟩
  split at h
  · cases h
    exact .inl ht
  · split at h
    · apply hsignals
      split at h
      · cases h
        exact signals_after ⟨rfl, rfl⟩
      · cases h
        exact signals_after ⟨rfl, rfl⟩
    · cases h
      exact .inl ht

theorem readTail_signals (h : s.readTail m len = some (r, s')) :
    SameSignal s s' ∨ Signals s s' := by
  simp only [readTail, bind_eq_bind] at h
  split at h
  · split at h
    · cases h
      exact .inl ⟨rfl, rfl⟩
    · simp only [bind_eq_some_iff, Prod.exists] at h
      obtain ⟨result, t, hfade, h⟩ := h
      cases h
      have hsame := readFade_same hfade
      exact signals_after ⟨hsame.1, hsame.2⟩
  · split at h
    · cases h
      exact signals_after ⟨rfl, rfl⟩
    · split at h
      · cases h
        exact (signals_after ⟨rfl, rfl⟩ : SameSignal (s.popChunk len s.buf.len).2 _ ∨ _)
      · cases h
        exact .inl ⟨rfl, rfl⟩

theorem readCrossfade_signals (h : s.readCrossfade m len = some (r, s')) :
    SameSignal s s' ∨ Signals s s' := by
  simp only [readCrossfade, bind_eq_bind] at h
  split at h
  · exact .inl (readFade_same h)
  · split at h
    · simp at h
    · simp only [bind_eq_some_iff] at h
      obtain ⟨t, hfill, h⟩ := h
      have ht := fill_same hfill
      split at h
      · rcases readTail_signals h with h | h
        · exact .inl (ht.trans h)
        · exact .inr ⟨ht.2 ▸ h.1, h.2⟩
      · left
        split at h
        · cases h
          exact ht
        · split at h <;> obtain ⟨-, rfl⟩ := Prod.mk.inj (some.inj h) <;> exact ht

theorem read_signals (h : s.read m len = some (r, s')) : SameSignal s s' ∨ Signals s s' := by
  unfold read at h
  split at h
  · exact readDirect_signals h
  · exact readCrossfade_signals h

end SwitchingAudioSource

/-! ## What a turn does to the generation and the signal -/

namespace AudioPlayer

open SwitchingAudioSource (SameSignal Signals)

variable {m : Mixing S} {optimistic : Bool} {p p' : AudioPlayer S}

def gen (p : AudioPlayer S) : Nat := p.loop.streamGen

def Pulses (p p' : AudioPlayer S) : Op S → Prop
  | .set _ _ reply =>
    if (p.loop.ensureOutput reply).isSome then
      p'.gen = p.gen + 1 ∧ p'.source.done = p.source.done ∧ p'.source.eofReported = false
    else p' = p
  | .seek answer _ => p'.gen = p.gen ∧ p'.source.done = p.source.done ∧
      (p'.source.eofReported = p.source.eofReported ∨
        p'.source.eofReported = false ∧ 0 < p.source.crossfadeSamples ∧ ∃ res, answer = .ok res)
  | .done => p'.gen = p.gen ∧ p.source.done = true ∧ p'.source.done = false ∧
      p'.source.eofReported = p.source.eofReported
  | .read _ => p'.gen = p.gen ∧ (SameSignal p.source p'.source ∨ Signals p.source p'.source)
  | _ => p'.gen = p.gen ∧ SameSignal p.source p'.source

theorem set_pulses (src : AudioSource S) (paused : Bool) (reply : OutputReply) (p : AudioPlayer S) :
    Pulses p (p.set optimistic src paused reply) (.set src paused reply) := by
  simp only [Pulses, set]
  cases hout : p.loop.ensureOutput reply with
  | none => simp
  | some loop =>
    simp only [isSome_some, if_true]
    obtain ⟨hdone, hreported⟩ := setPrimary_signal src p.source
    refine ⟨?_, hdone, hreported⟩
    exact (ManageLoop.setPrimary_raises paused loop).streamGen.trans
      (congrArg (· + 1) (ManageLoop.ensureOutput_raises hout).streamGen)

theorem seek_pulses (answer : Except Err (List S × List Reply)) (reply : OutputReply)
    (p : AudioPlayer S) : Pulses p (p.seek optimistic answer reply) (.seek answer reply) := by
  have hsignal := setPositionMs_signal answer p.source
  simp only [Pulses, seek]
  generalize p.source.setPositionMs answer = res at hsignal
  obtain ⟨err, source⟩ := res
  cases err with
  | some => exact ⟨rfl, hsignal⟩
  | none => exact ⟨(ManageLoop.seek_raises p.loop).streamGen, hsignal⟩

theorem step_pulses {op : Op S} (h : p.step m optimistic op = some p') : Pulses p p' op := by
  cases op with
  | set src paused reply => exact some.inj h ▸ set_pulses src paused reply p
  | setSecondary => exact some.inj h ▸ ⟨rfl, rfl, rfl⟩
  | play =>
    rw [← some.inj h]
    exact ⟨(ManageLoop.play_raises p.loop).streamGen, rfl, rfl⟩
  | pause =>
    rw [← some.inj h]
    exact ⟨(ManageLoop.pause_raises p.loop).streamGen, rfl, rfl⟩
  | stop => exact some.inj h ▸ ⟨rfl, rfl, rfl⟩
  | seek answer reply => exact some.inj h ▸ seek_pulses answer reply p
  | reopen =>
    rw [← some.inj h]
    exact ⟨(ManageLoop.reopen_raises p.loop).streamGen, rfl, rfl⟩
  | outputFailed =>
    simp only [step] at h
    split at h
    · exact some.inj h ▸ ⟨rfl, rfl, rfl⟩
    · simp at h
  | done =>
    simp only [step] at h
    split at h
    · rename_i hdone
      exact some.inj h ▸ ⟨rfl, hdone, rfl, rfl⟩
    · simp at h
  | read =>
    simp only [step, map_eq_some_iff, Prod.exists] at h
    obtain ⟨r, source, hread, rfl⟩ := h
    exact ⟨rfl, read_signals hread⟩
  | receive =>
    simp only [step] at h
    split at h
    · simp at h
    · exact some.inj h ▸ ⟨rfl, rfl, rfl⟩

end AudioPlayer

structure Ended where
  stamp : Nat
  sent : Nat
deriving DecidableEq, Repr

structure Watch (S : Type) where
  player : AudioPlayer S
  /-- The generation when the signal in the channel was sent. -/
  sent : Nat := 0
  /-- The generations that brought another source than the one that was playing. -/
  news : List Nat := []
  ends : List Ended := []

namespace Watch

def replaces (src : AudioSource S) (w : Watch S) : Bool :=
  let source := w.player.source
  !SwitchingAudioSource.sameSource (source.source source.which) (some src)

def newsAfter (w : Watch S) : Op S → List Nat
  | .set src _ reply =>
    if (w.player.loop.ensureOutput reply).isSome && w.replaces src then
      w.news ++ [w.player.gen + 1]
    else w.news
  | _ => w.news

def endsAfter (w : Watch S) : Op S → List Ended
  | .done => w.ends ++ [⟨w.player.gen, w.sent⟩]
  | _ => w.ends

def step (m : Mixing S) (optimistic : Bool) (w : Watch S) (op : Op S) : Option (Watch S) :=
  (w.player.step m optimistic op).map fun player =>
    { player
      sent := if !w.player.source.done && player.source.done then w.player.gen else w.sent
      news := w.newsAfter op
      ends := w.endsAfter op }

/-- No event that is stamped with the generation of a new source, or a later one, reports an end
that was discovered before, and there is one event at most for each time a source was set. -/
structure Faithful (w : Watch S) : Prop where
  stamps : ∀ new ∈ w.news, ∀ e ∈ w.ends, new ≤ e.stamp → new ≤ e.sent
  once : (w.ends.map Ended.sent).Nodup

/-- Another source is set only when no signal waits in the channel, and a source whose end has been
reported is not sought while crossfading. -/
def Orderly (w : Watch S) : Op S → Prop
  | .set src _ _ => w.player.source.done = true → w.replaces src = false
  | .seek (.ok _) _ =>
    w.player.source.crossfadeSamples = 0 ∨ w.player.source.eofReported = false
  | _ => True

def Past (gen : Nat) (reported : Bool) (sent : Nat) : Prop :=
  sent ≤ gen ∧ (reported = false → sent < gen)

structure Inv (w : Watch S) : Prop where
  faithful : Faithful w
  news : ∀ new ∈ w.news, new ≤ w.player.gen
  stamps : ∀ e ∈ w.ends, e.stamp ≤ w.player.gen
  ends : ∀ e ∈ w.ends, Past w.player.gen w.player.source.eofReported e.sent
  waiting : w.player.source.done = true →
    (∀ new ∈ w.news, new ≤ w.sent) ∧ (∀ e ∈ w.ends, e.sent < w.sent) ∧
      Past w.player.gen w.player.source.eofReported w.sent

variable {m : Mixing S} {optimistic : Bool} {w w' : Watch S} {op : Op S}

theorem step_eq_some (h : w.step m optimistic op = some w') :
    ∃ player, w.player.step m optimistic op = some player ∧
      w' = { player
             sent := if !w.player.source.done && player.source.done then w.player.gen else w.sent
             news := w.newsAfter op
             ends := w.endsAfter op } := by
  simp only [step, map_eq_some_iff] at h
  obtain ⟨player, hp, rfl⟩ := h
  exact ⟨player, hp, rfl⟩

theorem Past.reported {gen sent : Nat} (h : Past gen false sent) : Past gen true sent :=
  ⟨h.1, fun h => by simp at h⟩

theorem Past.next {gen sent : Nat} {reported : Bool} (h : Past gen reported sent) :
    Past (gen + 1) false sent :=
  ⟨h.1.trans (Nat.le_succ _), fun _ => Nat.lt_succ_of_le h.1⟩

theorem Inv.same (h : Inv w) (hgen : w'.player.gen = w.player.gen)
    (hdone : w'.player.source.done = w.player.source.done)
    (hreported : w'.player.source.eofReported = w.player.source.eofReported)
    (hsent : w'.sent = w.sent) (hnews : w'.news = w.news) (hends : w'.ends = w.ends) : Inv w' where
  faithful := ⟨by rw [hnews, hends]; exact h.faithful.stamps, by rw [hends]; exact h.faithful.once⟩
  news := by rw [hnews, hgen]; exact h.news
  stamps := by rw [hends, hgen]; exact h.stamps
  ends := by rw [hends, hgen, hreported]; exact h.ends
  waiting := by rw [hdone, hnews, hends, hsent, hgen, hreported]; exact h.waiting

theorem Inv.signalled (h : Inv w) (hgen : w'.player.gen = w.player.gen)
    (hsignals : SwitchingAudioSource.Signals w.player.source w'.player.source)
    (hsent : w'.sent = if w.player.source.done then w.sent else w.player.gen)
    (hnews : w'.news = w.news) (hends : w'.ends = w.ends) : Inv w' := by
  obtain ⟨hbefore, hafter, hdone⟩ := hsignals
  have hpast := h.ends
  rw [hbefore] at hpast
  refine ⟨⟨?_, ?_⟩, ?_, ?_, ?_, ?_⟩
  · rw [hnews, hends]
    exact h.faithful.stamps
  · rw [hends]
    exact h.faithful.once
  · rw [hnews, hgen]
    exact h.news
  · rw [hends, hgen]
    exact h.stamps
  · rw [hends, hgen, hafter]
    exact fun e he => (hpast e he).reported
  · intro _
    rw [hnews, hends, hsent, hgen, hafter]
    split
    · rename_i hwaits
      obtain ⟨h1, h2, h3⟩ := h.waiting hwaits
      rw [hbefore] at h3
      exact ⟨h1, h2, h3.reported⟩
    · exact ⟨h.news, fun e he => (hpast e he).2 rfl, le_rfl, fun hf => by simp at hf⟩

theorem Inv.set (h : Inv w) (hgen : w'.player.gen = w.player.gen + 1)
    (hdone : w'.player.source.done = w.player.source.done)
    (hreported : w'.player.source.eofReported = false) (hsent : w'.sent = w.sent)
    (hnews : w'.news = w.news ∨
      w.player.source.done = false ∧ w'.news = w.news ++ [w.player.gen + 1])
    (hends : w'.ends = w.ends) : Inv w' := by
  have hmem : ∀ new ∈ w'.news, new ∈ w.news ∨ w.player.source.done = false ∧
      new = w.player.gen + 1 := by
    intro new hnew
    rcases hnews with hnews | ⟨hidle, hnews⟩
    · exact .inl (hnews ▸ hnew)
    · rw [hnews] at hnew
      rcases mem_append.mp hnew with hnew | hnew
      · exact .inl hnew
      · exact .inr ⟨hidle, mem_singleton.mp hnew⟩
  refine ⟨⟨?_, ?_⟩, ?_, ?_, ?_, ?_⟩
  · intro new hnew e he hle
    rw [hends] at he
    rcases hmem new hnew with hnew | ⟨-, rfl⟩
    · exact h.faithful.stamps new hnew e he hle
    · have := h.stamps e he
      omega
  · rw [hends]
    exact h.faithful.once
  · intro new hnew
    rcases hmem new hnew with hnew | ⟨-, rfl⟩
    · have := h.news new hnew
      omega
    · exact hgen.ge
  · intro e he
    have := h.stamps e (hends ▸ he)
    omega
  · rw [hends, hgen, hreported]
    exact fun e he => (h.ends e he).next
  · intro hwaits
    rw [hdone] at hwaits
    obtain ⟨h1, h2, h3⟩ := h.waiting hwaits
    rw [hends, hsent, hgen, hreported]
    refine ⟨fun new hnew => ?_, h2, h3.next⟩
    rcases hmem new hnew with hnew | ⟨hidle, -⟩
    · exact h1 new hnew
    · simp [hwaits] at hidle

theorem Inv.taken (h : Inv w) (hwaits : w.player.source.done = true)
    (hgen : w'.player.gen = w.player.gen) (hdone : w'.player.source.done = false)
    (hreported : w'.player.source.eofReported = w.player.source.eofReported)
    (hnews : w'.news = w.news) (hends : w'.ends = w.ends ++ [⟨w.player.gen, w.sent⟩]) : Inv w' := by
  obtain ⟨h1, h2, h3⟩ := h.waiting hwaits
  have hmem : ∀ e ∈ w'.ends, e ∈ w.ends ∨ e = ⟨w.player.gen, w.sent⟩ := by
    intro e he
    rw [hends] at he
    exact (mem_append.mp he).imp_right mem_singleton.mp
  refine ⟨⟨?_, ?_⟩, ?_, ?_, ?_, ?_⟩
  · intro new hnew e he hle
    rw [hnews] at hnew
    rcases hmem e he with he | rfl
    · exact h.faithful.stamps new hnew e he hle
    · exact h1 new hnew
  · rw [hends, map_append, nodup_append]
    refine ⟨h.faithful.once, by simp, ?_⟩
    intro a ha b hb hab
    obtain ⟨e, he, rfl⟩ := List.mem_map.mp ha
    have hlt := h2 e he
    simp only [map_cons, map_nil, mem_singleton] at hb
    omega
  · rw [hnews, hgen]
    exact h.news
  · intro e he
    rw [hgen]
    rcases hmem e he with he | rfl
    · exact h.stamps e he
    · exact le_rfl
  · intro e he
    rw [hgen, hreported]
    rcases hmem e he with he | rfl
    · exact h.ends e he
    · exact h3
  · intro hf
    simp [hdone] at hf

theorem step_inv (h : w.step m optimistic op = some w') (hw : Inv w) (hop : Orderly w op) :
    Inv w' := by
  obtain ⟨player, hp, rfl⟩ := step_eq_some h
  have hpulses := AudioPlayer.step_pulses hp
  have hsame (h : player.source.done = w.player.source.done) :
      (if !w.player.source.done && player.source.done then w.player.gen else w.sent) = w.sent := by
    rw [h]
    cases w.player.source.done <;> rfl
  cases op with
  | set src _ reply =>
    simp only [AudioPlayer.Pulses] at hpulses
    by_cases hout : (w.player.loop.ensureOutput reply).isSome = true
    · rw [if_pos hout] at hpulses
      obtain ⟨hgen, hdone, hreported⟩ := hpulses
      refine hw.set hgen hdone hreported (hsame hdone) ?_ rfl
      simp only [newsAfter, hout, Bool.true_and]
      cases hnew : w.replaces src with
      | false => exact .inl rfl
      | true =>
        refine .inr ⟨?_, rfl⟩
        cases hdone : w.player.source.done with
        | false => rfl
        | true => exact absurd (hop hdone) (by simp [hnew])
    · rw [if_neg hout] at hpulses
      subst hpulses
      refine hw.same rfl rfl rfl (hsame rfl) ?_ rfl
      simp [newsAfter, hout]
  | seek =>
    obtain ⟨hgen, hdone, hreported⟩ := hpulses
    refine hw.same hgen hdone ?_ (hsame hdone) rfl rfl
    rcases hreported with hreported | ⟨hreported, hpos, res, rfl⟩
    · exact hreported
    · rcases hop with hzero | hfalse
      · omega
      · exact hreported.trans hfalse.symm
  | done =>
    obtain ⟨hgen, hwaits, hdone, hreported⟩ := hpulses
    exact hw.taken hwaits hgen hdone hreported rfl rfl
  | read =>
    obtain ⟨hgen, hread⟩ := hpulses
    rcases hread with hread | hread
    · exact hw.same hgen hread.1 hread.2 (hsame hread.1) rfl rfl
    · refine hw.signalled hgen hread ?_ rfl rfl
      have hdone : player.source.done = true := hread.2.2
      simp only [hdone, Bool.and_true]
      cases w.player.source.done <;> rfl
  | _ =>
    obtain ⟨hgen, hread⟩ := hpulses
    exact hw.same hgen hread.1 hread.2 (hsame hread.1) rfl rfl

def start (zero : S) (crossfadeSamples : Int) : Watch S where
  player := { source := .newSwitchingAudioSource zero crossfadeSamples }

theorem start_inv (zero : S) (crossfadeSamples : Int) : Inv (start zero crossfadeSamples) where
  faithful := ⟨by simp [start], by simp [start]⟩
  news := by simp [start]
  stamps := by simp [start]
  ends := by simp [start]
  waiting := by simp [start, SwitchingAudioSource.newSwitchingAudioSource]

/-- In every interleaving of commands, reads and turns of the loop whose steps are orderly, every
NotPlaying event reports an end of the generation it carries. -/
theorem faithful_of_orderly (m : Mixing S) (optimistic : Bool) (zero : S) (crossfadeSamples : Int)
    (ops : List (Op S)) (h : Meets (step m optimistic) Orderly (start zero crossfadeSamples) ops) :
    Always (step m optimistic) Faithful (start zero crossfadeSamples) ops := by
  have hstep : ∀ (w : Watch S) (op : Op S) (w' : Watch S), Inv w → Orderly w op →
      w.step m optimistic op = some w' → Inv w' := fun _ _ _ hw hop h => step_inv h hw hop
  exact (always_of_meets hstep (start_inv zero crossfadeSamples) h).imp fun w hw => hw.faithful

open SwitchingAudioSource (intMixing)

def shortTrack (id : Nat) : AudioSource Int := { id, samples := [1, 1] }

/-- A track plays to its end, and the next one is set before the loop has seen the signal. -/
def overtakenRun : List (Op Int) :=
  [.set (shortTrack 1) false {}, .read 8, .read 8, .set (shortTrack 2) false {}, .done]

theorem end_stamped_as_the_next_track :
    ¬ Always (step intMixing false) Faithful (start 0 0) overtakenRun := fun h =>
  absurd ((h.last (exec_get (by decide +kernel))).stamps 2 (by decide +kernel) ⟨2, 1⟩
    (by decide +kernel) le_rfl) (by decide)

instance (w : Watch S) : DecidablePred w.Orderly
  | .set .. => inferInstanceAs (Decidable (_ → _))
  | .seek (.ok _) _ => inferInstanceAs (Decidable (_ ∨ _))
  | .seek (.error _) _ | .setSecondary _ | .play _ | .pause _ | .stop | .reopen _ | .outputFailed
  | .done | .read _ | .receive => .isTrue trivial

def promptRun : List (Op Int) :=
  [.set (shortTrack 1) false {}, .read 8, .read 8, .done, .set (shortTrack 2) false {}, .read 8,
    .read 8, .done]

theorem faithful_of_orderly_promptRun :
    (exec (step intMixing false) (start 0 0) promptRun).map (fun w => w.ends) =
        some [⟨1, 1⟩, ⟨2, 2⟩] ∧
      Meets (step intMixing false) Orderly (start 0 0) promptRun ∧
      Always (step intMixing false) Faithful (start 0 0) promptRun := by
  have hm : Meets (step intMixing false) Orderly (start 0 0) promptRun := by decide +kernel
  exact ⟨by decide +kernel, hm, faithful_of_orderly intMixing false 0 0 promptRun hm⟩

end Watch

end Librespot.Player
