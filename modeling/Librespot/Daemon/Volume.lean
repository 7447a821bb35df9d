import Librespot.Base.Run
import Mathlib.Data.Int.Order.Lemmas

/-!
# Volume steps

`volumeSteps` and `volumeFromApi` of `daemon/controls.go`, and the volume that is kept while there
is no session.
-/

open Base.Run List Option

namespace Librespot.Daemon

def maxStateVolume : Nat := 65535

structure VolumeConfig where
  volumeSteps : Nat
  initialVolume : Nat := 0
  ignoreLastVolume : Bool := false

structure App where
  cfg : VolumeConfig
  volume : Option Nat := none
  lastVolume : Option Nat := none

structure ApiSetVolume where
  volume : Int
  relative : Bool := false
deriving DecidableEq, Repr

def int32 (n : Int) : Int := n.bmod (2 ^ 32)

def uint32 (n : Int) : Nat := (n % 2 ^ 32).toNat

/-- `math.Round` of the quotient. There is no tie, since `maxStateVolume` is odd. -/
def roundDiv (n d : Nat) : Nat := (2 * n + d) / (2 * d)

namespace App

def volumeSteps (app : App) (volume : Nat) : Nat :=
  roundDiv (uint32 (volume * app.cfg.volumeSteps)) maxStateVolume

def volumeFromApi (app : App) (data : ApiSetVolume) (current : Nat) : Option Nat :=
  let steps := int32 app.cfg.volumeSteps
  let target :=
    if data.relative then int32 (data.volume + int32 (app.volumeSteps current)) else data.volume
  let target := max (min target steps) 0
  if uint32 steps = 0 then none
  else some (uint32 (uint32 target * maxStateVolume) / uint32 steps)

def sessionVolume (app : App) : Nat :=
  match app.volume with
  | some volume => volume
  | none =>
    match if app.cfg.ignoreLastVolume then none else app.lastVolume with
    | some volume => volume
    | none =>
      uint32 (min app.cfg.initialVolume app.cfg.volumeSteps * maxStateVolume) / app.cfg.volumeSteps

def setVolume (newVal : Nat) (app : App) : App :=
  { app with volume := some newVal, lastVolume := some newVal }

def setVolumeWithoutSession (data : ApiSetVolume) (app : App) : Option App :=
  (app.volumeFromApi data app.sessionVolume).map fun newVal => app.setVolume newVal

def volumeWithoutSession (app : App) : Nat := app.volumeSteps app.sessionVolume

end App

def VolumeConfig.Fits (cfg : VolumeConfig) : Prop := 1 ≤ cfg.volumeSteps ∧ cfg.volumeSteps ≤ 32767

def IsInt32 (n : Int) : Prop := -2 ^ 31 ≤ n ∧ n < 2 ^ 31

def App.atStep (app : App) (t : Nat) : Nat := maxStateVolume * t / app.cfg.volumeSteps

theorem int32_eq {n : Int} (h : IsInt32 n) : int32 n = n := by
  obtain ⟨hmin, hmax⟩ := h
  exact Int.bmod_eq_of_le (by omega) (by omega)

theorem uint32_eq {n : Nat} (h : n < 2 ^ 32) : uint32 n = n := by
  unfold uint32
  omega

variable {app : App} {data : ApiSetVolume} {current t : Nat}

theorem volumeSteps_eq (hcfg : app.cfg.Fits) (hcurrent : current ≤ maxStateVolume) :
    app.volumeSteps current = roundDiv (current * app.cfg.volumeSteps) maxStateVolume := by
  have hprod : current * app.cfg.volumeSteps ≤ 65535 * 32767 := Nat.mul_le_mul hcurrent hcfg.2
  rw [App.volumeSteps, ← Int.natCast_mul, uint32_eq (by omega)]

/-- A volume is within half a step of its step, and its step is one. -/
theorem volumeSteps_spec (hcfg : app.cfg.Fits) (hcurrent : current ≤ maxStateVolume) :
    app.volumeSteps current ≤ app.cfg.volumeSteps ∧
      2 * (maxStateVolume * app.volumeSteps current) ≤
        2 * (current * app.cfg.volumeSteps) + maxStateVolume ∧
      2 * (current * app.cfg.volumeSteps) < 2 * (maxStateVolume * app.volumeSteps current) +
        maxStateVolume := by
  have hprod : current * app.cfg.volumeSteps ≤ 65535 * app.cfg.volumeSteps :=
    Nat.mul_le_mul_right _ hcurrent
  rw [volumeSteps_eq hcfg hcurrent, roundDiv]
  unfold maxStateVolume
  omega

theorem atStep_le (ht : t ≤ app.cfg.volumeSteps) : app.atStep t ≤ maxStateVolume :=
  Nat.div_le_of_le_mul (by rw [Nat.mul_comm]; exact Nat.mul_le_mul_right _ ht)

theorem atStep_mono {t' : Nat} (h : t ≤ t') : app.atStep t ≤ app.atStep t' :=
  Nat.div_le_div_right (Nat.mul_le_mul_left _ h)

theorem volumeSteps_atStep (hcfg : app.cfg.Fits) (ht : t ≤ app.cfg.volumeSteps) :
    app.volumeSteps (app.atStep t) = t := by
  rw [volumeSteps_eq hcfg (atStep_le ht), App.atStep, roundDiv]
  have hdiv := Nat.div_add_mod (maxStateVolume * t) app.cfg.volumeSteps
  have hmod := Nat.mod_lt (maxStateVolume * t) hcfg.1
  have hsteps := hcfg.2
  rw [Nat.mul_comm] at hdiv
  generalize maxStateVolume * t / app.cfg.volumeSteps * app.cfg.volumeSteps = n at hdiv ⊢
  unfold maxStateVolume at hdiv hmod ⊢
  omega

def ApiSetVolume.sum (data : ApiSetVolume) (steps : Nat) : Int :=
  if data.relative then data.volume + steps else data.volume

def App.clamp (app : App) (n : Int) : Nat := (max (min n app.cfg.volumeSteps) 0).toNat

theorem volumeFromApi_eq (hcfg : app.cfg.Fits) (data : ApiSetVolume) (current : Nat) :
    app.volumeFromApi data current = some (app.atStep (app.clamp
      (if data.relative then int32 (data.sum (app.volumeSteps current)) else data.volume))) := by
  obtain ⟨hpos, hmax⟩ := hcfg
  have hsteps : int32 app.cfg.volumeSteps = app.cfg.volumeSteps := int32_eq ⟨by omega, by omega⟩
  have hnow : int32 (app.volumeSteps current) = app.volumeSteps current := by
    refine int32_eq ⟨by omega, ?_⟩
    unfold App.volumeSteps roundDiv uint32 maxStateVolume
    omega
  have htarget (n : Int) : ((app.clamp n : Nat) : Int) =
      max (min n app.cfg.volumeSteps) 0 := Int.toNat_of_nonneg (le_max_right ..)
  have hclamp (n : Int) : app.clamp n ≤ 32767 := by
    unfold App.clamp
    omega
  have hval (n : Int) : uint32 (uint32 (app.clamp n) * maxStateVolume) =
      maxStateVolume * app.clamp n := by
    have hn := hclamp n
    rw [uint32_eq (by omega), ← Int.natCast_mul, uint32_eq (by unfold maxStateVolume; omega),
      Nat.mul_comm]
  simp only [App.volumeFromApi, hsteps, hnow, uint32_eq (n := app.cfg.volumeSteps) (by omega),
    if_neg (Nat.ne_of_gt hpos), ApiSetVolume.sum, ← htarget, hval, App.atStep]
  cases data.relative <;> rfl

def Overflows (app : App) (data : ApiSetVolume) (current : Nat) : Prop :=
  data.relative = true ∧ 2 ^ 31 ≤ data.volume + app.volumeSteps current

theorem volumeFromApi_sum (hcfg : app.cfg.Fits) (hdata : IsInt32 data.volume)
    (hsum : ¬ Overflows app data current) :
    app.volumeFromApi data current =
      some (app.atStep (app.clamp (data.sum (app.volumeSteps current)))) := by
  rw [volumeFromApi_eq hcfg]
  cases hrel : data.relative with
  | false => simp [ApiSetVolume.sum, hrel]
  | true =>
    have hlt : data.volume + app.volumeSteps current < 2 ^ 31 := by
      by_contra hle
      exact hsum ⟨hrel, by omega⟩
    obtain ⟨hmin, -⟩ := hdata
    rw [if_pos rfl, int32_eq]
    rw [IsInt32, ApiSetVolume.sum, if_pos hrel]
    omega

theorem volumeFromApi_overflow (hcfg : app.cfg.Fits) (hcurrent : current ≤ maxStateVolume)
    (hdata : IsInt32 data.volume) (hsum : Overflows app data current) :
    app.volumeFromApi data current = some 0 ∧
      app.clamp (data.sum (app.volumeSteps current)) = app.cfg.volumeSteps := by
  obtain ⟨hrel, hsum⟩ := hsum
  obtain ⟨hle, -⟩ := volumeSteps_spec hcfg hcurrent
  obtain ⟨hpos, hmax⟩ := hcfg
  obtain ⟨-, hdata⟩ := hdata
  have hwrap : int32 (data.sum (app.volumeSteps current)) =
      data.volume + app.volumeSteps current - 2 ^ 32 := by
    have hsame : data.sum (app.volumeSteps current) =
        data.volume + app.volumeSteps current - 2 ^ 32 + (2 ^ 32 : Nat) := by
      rw [ApiSetVolume.sum, if_pos hrel]
      omega
    rw [int32, hsame]
    exact (Int.add_bmod_right ..).trans (int32_eq ⟨by omega, by omega⟩)
  constructor
  · have hzero : app.clamp (data.volume + app.volumeSteps current - 2 ^ 32) = 0 := by
      unfold App.clamp
      omega
    rw [volumeFromApi_eq ⟨hpos, hmax⟩, if_pos hrel, hwrap, hzero]
    simp [App.atStep]
  · rw [App.clamp, ApiSetVolume.sum, if_pos hrel]
    omega

/-- The volume is that of the clamped sum exactly if the sum fits 32 bits. Then a relative increase
lowers the volume by no more than what rounding it to its step does, and a larger request gives no
lower volume. -/
theorem volumeFromApi_clamps_iff (app : App) (data : ApiSetVolume) (current : Nat)
    (hcfg : app.cfg.Fits) (hcurrent : current ≤ maxStateVolume) (hdata : IsInt32 data.volume) :
    (app.volumeFromApi data current =
        some (app.atStep (app.clamp (data.sum (app.volumeSteps current)))) ↔
      ¬ Overflows app data current) ∧
    ∀ volume, ¬ Overflows app data current → app.volumeFromApi data current = some volume →
      (data.relative = true → 0 ≤ data.volume →
        app.atStep (app.volumeSteps current) ≤ volume ∧
          2 * app.cfg.volumeSteps * current <
            2 * app.cfg.volumeSteps * (volume + 1) + maxStateVolume) ∧
      ∀ v, IsInt32 v → v ≤ data.volume → ∃ less ≤ volume,
        app.volumeFromApi { data with volume := v } current = some less := by
  obtain ⟨hle, -, hnear⟩ := volumeSteps_spec hcfg hcurrent
  refine ⟨⟨fun heq hsum => ?_, volumeFromApi_sum hcfg hdata⟩, fun volume hsum hvolume => ?_⟩
  · obtain ⟨hzero, hclamp⟩ := volumeFromApi_overflow hcfg hcurrent hdata hsum
    rw [hzero, hclamp, App.atStep, Nat.mul_div_cancel _ hcfg.1] at heq
    cases heq
  rw [volumeFromApi_sum hcfg hdata hsum] at hvolume
  obtain rfl := some.inj hvolume
  refine ⟨fun hrel hpos => ?_, fun v hv hless => ?_⟩
  · have hstep : app.atStep (app.volumeSteps current) ≤
        app.atStep (app.clamp (data.sum (app.volumeSteps current))) := by
      refine atStep_mono ?_
      rw [App.clamp, ApiSetVolume.sum, if_pos hrel]
      omega
    refine ⟨hstep, ?_⟩
    generalize app.atStep (app.clamp _) = volume at hstep
    have hfloor := Nat.lt_mul_div_succ (maxStateVolume * app.volumeSteps current) hcfg.1
    have hup : app.cfg.volumeSteps * (app.atStep (app.volumeSteps current) + 1) ≤
        app.cfg.volumeSteps * (volume + 1) := Nat.mul_le_mul_left _ (by omega)
    rw [← App.atStep] at hfloor
    rw [Nat.mul_comm current] at hnear
    rw [Nat.mul_assoc, Nat.mul_assoc]
    omega
  · have hsum' : ¬ Overflows app { data with volume := v } current := by
      rintro ⟨hrel, hover⟩
      exact hsum ⟨hrel, hover.trans (Int.add_le_add_right hless _)⟩
    refine ⟨_, ?_, volumeFromApi_sum hcfg hv hsum'⟩
    refine atStep_mono (Int.toNat_le_toNat ?_)
    have hmono : ApiSetVolume.sum { data with volume := v } (app.volumeSteps current) ≤
        data.sum (app.volumeSteps current) := by
      unfold ApiSetVolume.sum
      dsimp only
      split <;> omega
    omega

def hundredSteps : App := { cfg := { volumeSteps := 100 } }

def increase (volume : Int) : ApiSetVolume := { volume, relative := true }

theorem volumeFromApi_clamps_iff_hundredSteps :
    hundredSteps.volumeFromApi (increase 10) 32767 = some 39321 ∧
      ∃ less ≤ 39321, hundredSteps.volumeFromApi (increase (-60)) 32767 = some less := by
  have hvalue : hundredSteps.volumeFromApi (increase 10) 32767 = some 39321 := by decide +kernel
  have hsum : ¬ Overflows hundredSteps (increase 10) 32767 := by
    unfold Overflows
    decide +kernel
  have hclamps := volumeFromApi_clamps_iff hundredSteps (increase 10) 32767
    (by unfold VolumeConfig.Fits; decide) (by decide) (by unfold IsInt32; decide)
  exact ⟨hvalue, (hclamps.2 _ hsum hvalue).2 (-60) (by unfold IsInt32; decide) (by decide)⟩

/-- The largest increase turns the full volume off. -/
theorem largest_increase_mutes :
    hundredSteps.volumeFromApi (increase 2147483647) 65535 = some 0 ∧
      hundredSteps.atStep (hundredSteps.clamp
        ((increase 2147483647).sum (hundredSteps.volumeSteps 65535))) = 65535 := by
  decide +kernel

/-! ## Reading the volume back -/

theorem volumeFromApi_absolute (hcfg : app.cfg.Fits) (ht : t ≤ app.cfg.volumeSteps)
    (current : Nat) :
    app.volumeFromApi { volume := t } current = some (app.atStep t) := by
  rw [volumeFromApi_eq hcfg]
  simp [App.clamp, ht]

theorem volumeFromApi_unchanged (hcfg : app.cfg.Fits) (hcurrent : current ≤ maxStateVolume) :
    app.volumeFromApi (increase 0) current =
      some (app.atStep (app.volumeSteps current)) := by
  obtain ⟨hle, -⟩ := volumeSteps_spec hcfg hcurrent
  have hmax := hcfg.2
  have hsum : ¬ Overflows app (increase 0) current := by
    rintro ⟨-, hover⟩
    dsimp only [increase] at hover
    omega
  rw [volumeFromApi_sum hcfg ⟨by decide, by decide⟩ hsum]
  simp [App.clamp, ApiSetVolume.sum, increase, hle]

/-- The volume that is stored is that of its own step. -/
theorem setVolume_atStep (hcfg : app.cfg.Fits) (ht : t ≤ app.cfg.volumeSteps) :
    (app.setVolume (app.atStep t)).setVolumeWithoutSession (increase 0) =
      some (app.setVolume (app.atStep t)) := by
  have hset (newVal : Nat) : (app.setVolume (app.atStep t)).setVolume newVal =
      app.setVolume newVal := rfl
  have hvolume : (app.setVolume (app.atStep t)).volumeFromApi (increase 0)
      (app.setVolume (app.atStep t)).sessionVolume =
      app.volumeFromApi (increase 0) (app.atStep t) := rfl
  rw [App.setVolumeWithoutSession, hvolume, volumeFromApi_unchanged hcfg (atStep_le ht),
    volumeSteps_atStep hcfg ht, map_some, hset]

/-- A step that is set is read back, and relative changes of 0 leave the volume alone once one of
them has brought it to a step. -/
theorem volume_read_back (app : App) (hcfg : app.cfg.Fits) :
    (∀ v current : Nat, v ≤ app.cfg.volumeSteps → ∃ volume app',
      app.volumeFromApi { volume := v } current = some volume ∧ app.volumeSteps volume = v ∧
      app.setVolumeWithoutSession { volume := v } = some app' ∧ app'.volumeWithoutSession = v) ∧
    (app.sessionVolume ≤ maxStateVolume → ∃ app',
      app.setVolumeWithoutSession (increase 0) = some app' ∧
      ∀ n, exec (fun app data => app.setVolumeWithoutSession data) app'
        (List.replicate n (increase 0)) = some app') := by
  constructor
  · intro v current hv
    refine ⟨_, app.setVolume (app.atStep v), volumeFromApi_absolute hcfg hv current,
      volumeSteps_atStep hcfg hv, ?_, volumeSteps_atStep hcfg hv⟩
    rw [App.setVolumeWithoutSession, volumeFromApi_absolute hcfg hv]
    rfl
  · intro hvolume
    obtain ⟨hle, -⟩ := volumeSteps_spec hcfg hvolume
    refine ⟨app.setVolume (app.atStep (app.volumeSteps app.sessionVolume)), ?_,
      fun n => ?_⟩
    · rw [App.setVolumeWithoutSession, volumeFromApi_unchanged hcfg hvolume, map_some]
    · induction n with
      | zero => rfl
      | succ n ih =>
        rw [replicate_succ, exec_cons, setVolume_atStep hcfg hle]
        exact ih

theorem volume_read_back_hundredSteps : ∃ volume,
    hundredSteps.volumeFromApi { volume := 33 } 0 = some volume ∧ volume = 21626 ∧
      hundredSteps.volumeSteps volume = 33 := by
  obtain ⟨volume, -, hvolume, hback, -⟩ := (volume_read_back hundredSteps
    (by unfold VolumeConfig.Fits; decide)).1 33 0 (by decide)
  have hvalue : hundredSteps.volumeFromApi { volume := 33 } 0 = some 21626 := by decide +kernel
  exact ⟨volume, hvolume, some.inj (hvolume.symm.trans hvalue), hback⟩

end Librespot.Daemon
