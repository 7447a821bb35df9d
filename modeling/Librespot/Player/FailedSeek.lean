import Librespot.Player.Crossfade

/-!
# A seek that fails

`SetPositionMs` drops the lookahead and the fade before it asks the source to seek. A source that
cannot seek goes on where it was, behind the samples that were dropped.
-/

open Base List Option

namespace Librespot.Player.SwitchingAudioSource

variable {S : Type}

def afterFailedSeek (err : Err) (s : SwitchingAudioSource S) : SwitchingAudioSource S :=
  (s.setPositionMs (.error err)).2

section

variable {m : Mixing S} {err : Err} {track out : List S} {src : AudioSource S}
  {s : SwitchingAudioSource S} {lens : List Nat}

theorem afterFailedSeek_some (h : s.source s.which = some src) :
    s.afterFailedSeek err = s.resetCrossfade := by
  simp [afterFailedSeek, setPositionMs, h]

/-- With enough reads all of `stream` is heard. -/
def Hears (m : Mixing S) (s : SwitchingAudioSource S) (stream : List S) : Prop :=
  ∃ most, ∀ lens : List Nat, (∀ len ∈ lens, channels ≤ len) → most < lens.length →
    ∃ heard s', readAll m lens s = some (heard, s') ∧ heard.out = stream

theorem Playing.afterFailedSeek (err : Err) (h : Playing track [] src s)
    (ha : src.samples.length % channels = 0) :
    Playing src.samples [] src (s.afterFailedSeek err) := by
  rw [afterFailedSeek_some h.primary]
  by_cases hcross : s.crossfadeSamples = 0
  · have hempty := (h.direct (.inl hcross)).1
    have htrack : track = src.samples := by
      rw [← h.samples, RingBuffer.toList_eq_nil hempty]
      rfl
    rw [resetCrossfade, if_pos hcross]
    exact htrack ▸ h
  · rw [resetCrossfade, if_neg hcross]
    exact ⟨h.primary, h.healthy, rfl, ha, h.frames, .inr rfl, fun _ => ⟨rfl, rfl⟩, rfl, rfl,
      fun heof => absurd heof Bool.false_ne_true, h.room⟩

theorem FadesInto.afterFailedSeek (err : Err) {tail next : List S} {pos : Nat} {b : AudioSource S}
    (h : FadesInto tail next pos b s) : Fresh b (s.afterFailedSeek err) := by
  rw [afterFailedSeek_some h.primary, resetCrossfade, if_neg (by have := h.on; omega)]
  exact fresh_finishFade h.primary h.secondary rfl h.frames h.room

end

end Librespot.Player.SwitchingAudioSource
