import Librespot.Daemon.Landings

/-!
# Skipping over refused tracks
-/

open Librespot.Tracks
open Base.Run
open Librespot.Daemon.AppPlayer (maxConsecutiveUnplayableSkips here knownTrack knownStream served
  roundTrip playingRun)

open List Option

namespace Librespot.Daemon

open AppPlayer

structure SkipHistory where
  player : AppPlayer := {}
  /-- Loads that were refused since one last succeeded. -/
  refusals : Nat := 0
  /-- Loads of an advance that were refused in a row, and after which it went on. -/
  row : Nat := 0
  /-- For each time that an advance gave up, the loads that had been refused by then. -/
  giveUps : List Nat := []

namespace SkipHistory

variable {cfg : Config} {g : Rand} {s s' : SkipHistory} {extra : Bool} {player : AppPlayer}
  {landing : Option Landing}

/-- After a refused load an advance either hands another job to the lane or gives up. -/
def landed (s : SkipHistory) (player : AppPlayer) : Option Landing → SkipHistory
  | none => { s with player }
  | some ⟨.succeeded, _⟩ => { s with player, refusals := 0, row := 0 }
  | some ⟨.failed, _⟩ => { s with player, row := 0 }
  | some ⟨.refused, k⟩ =>
    let refusals := s.refusals + 1
    if ¬ k.isAdvance then { s with player, refusals }
    else if player.loadGen ≠ s.player.loadGen then { s with player, refusals, row := s.row + 1 }
    else
      let giveUps := if s.player.state.tracks.isSome then s.giveUps ++ [refusals] else s.giveUps
      { s with player, refusals, giveUps, row := 0 }

def cutShort (s : SkipHistory) : SkipHistory :=
  if playable s.player.state.player.trackUri then s else { s with row := 0 }

def step (cfg : Config) (g : Rand) (s : SkipHistory) (op : Op) : Option SkipHistory :=
  (s.player.step cfg g op).map fun player => (s.landed player (s.player.landing op)).cutShort

/-- The counter is clear after a success. An advance gives up after more refusals in a row than it
may skip, and no earlier. -/
structure Sound (s : SkipHistory) : Prop where
  clear : s.refusals = 0 → s.player.consecutiveUnplayableSkips = 0
  late : ∀ n ∈ s.giveUps, maxConsecutiveUnplayableSkips < n
  bounded : s.row ≤ maxConsecutiveUnplayableSkips

def Counted (s : SkipHistory) (op : Op) : Prop :=
  ∀ k, s.player.landing op = some ⟨.succeeded, k⟩ →
    k.isAdvance = true ∨ s.player.consecutiveUnplayableSkips = 0

structure Tally (s : SkipHistory) : Prop where
  refusals : s.player.consecutiveUnplayableSkips ≤ s.refusals
  row : playable s.player.state.player.trackUri = true →
    s.row ≤ s.player.consecutiveUnplayableSkips
  most : s.player.consecutiveUnplayableSkips ≤ maxConsecutiveUnplayableSkips
  late : ∀ n ∈ s.giveUps, maxConsecutiveUnplayableSkips < n

theorem landed_player (s : SkipHistory) (player : AppPlayer) (landing : Option Landing) :
    (s.landed player landing).player = player := by
  unfold landed
  split
  · rfl
  · rfl
  · rfl
  · simp only
    split
    · rfl
    · split <;> rfl

theorem landed_carried (hs : Tally s) (hrow : s.row ≤ s.player.consecutiveUnplayableSkips)
    (hno : ∀ l, landing = some l → l.k.isAdvance = false ∧ l.outcome ≠ .succeeded)
    (h : s.player.Keeps player) : Tally (s.landed player landing) := by
  have hle : player.consecutiveUnplayableSkips ≤ s.player.consecutiveUnplayableSkips := by
    rcases h with h | h <;> omega
  have hkept (hplay : playable player.state.player.trackUri = true) :
      player.consecutiveUnplayableSkips = s.player.consecutiveUnplayableSkips :=
    h.resolve_right fun h => h.2 (playable_iff.mp hplay)
  have hmost := hle.trans hs.most
  rcases landing with _ | ⟨outcome, k⟩
  · exact ⟨hle.trans hs.refusals, fun hplay => hkept hplay ▸ hrow, hmost, hs.late⟩
  · obtain ⟨hk, hne⟩ := hno _ rfl
    cases outcome with
    | succeeded => exact absurd rfl hne
    | failed => exact ⟨hle.trans hs.refusals, fun _ => Nat.zero_le _, hmost, hs.late⟩
    | refused =>
      simp only [landed, show k.isAdvance = false from hk]
      exact ⟨(hle.trans hs.refusals).trans (Nat.le_succ _), fun hplay => hkept hplay ▸ hrow, hmost,
        hs.late⟩

theorem landed_wentOn {k : Then} (hs : Tally s)
    (hrow : s.row ≤ s.player.consecutiveUnplayableSkips) (hk : k.isAdvance = true)
    (hlt : s.player.consecutiveUnplayableSkips < maxConsecutiveUnplayableSkips)
    (h : AppPlayer.Upholds extra { s.player with
      consecutiveUnplayableSkips := s.player.consecutiveUnplayableSkips + 1 } player)
    (hgen : s.player.state.tracks.isSome = true → player.loadGen ≠ s.player.loadGen) :
    Tally (s.landed player (some ⟨.refused, k⟩)) := by
  have hle : player.consecutiveUnplayableSkips ≤ s.player.consecutiveUnplayableSkips + 1 := by
    rcases h.skips with h | h
    · exact h.le
    · omega
  have hkept (hplay : playable player.state.player.trackUri = true) :
      player.consecutiveUnplayableSkips = s.player.consecutiveUnplayableSkips + 1 :=
    h.skips.resolve_right fun h => h.2 (playable_iff.mp hplay)
  have hrefusals := hle.trans (Nat.succ_le_succ hs.refusals)
  simp only [landed, hk, not_true_eq_false, if_false]
  by_cases hmoved : player.loadGen ≠ s.player.loadGen
  · rw [if_pos hmoved]
    refine ⟨hrefusals, ?_, hle.trans hlt, hs.late⟩
    intro hplay
    exact hkept hplay ▸ Nat.succ_le_succ hrow
  · rw [if_neg hmoved]
    have hnone : s.player.state.tracks.isSome = false := by
      by_contra hne
      exact hmoved (hgen ((Bool.not_eq_false _).mp hne))
    rw [hnone]
    exact ⟨hrefusals, fun _ => Nat.zero_le _, hle.trans hlt, hs.late⟩

theorem landed_gaveUp {k : Then} (hs : Tally s) (hk : k.isAdvance = true)
    (hle : maxConsecutiveUnplayableSkips ≤ s.player.consecutiveUnplayableSkips)
    (h : player.consecutiveUnplayableSkips = 0) (hgen : player.loadGen = s.player.loadGen) :
    Tally (s.landed player (some ⟨.refused, k⟩)) := by
  simp only [landed, hk, hgen, not_true_eq_false, ne_eq, if_false]
  refine ⟨by simp [h], fun _ => Nat.zero_le _, by simp [h], ?_⟩
  intro n hn
  simp only at hn
  split at hn
  · rcases mem_append.mp hn with hn | hn
    · exact hs.late n hn
    · have := hs.refusals
      rw [mem_singleton.mp hn]
      omega
  · exact hs.late n hn

theorem landed_tally (hs : Tally s) (hrow : s.row ≤ s.player.consecutiveUnplayableSkips)
    (hc : AppPlayer.Counts extra s.player player landing)
    (hcounted : ∀ k, landing = some ⟨.succeeded, k⟩ →
      k.isAdvance = true ∨ s.player.consecutiveUnplayableSkips = 0) :
    Tally (s.landed player landing) := by
  cases hc with
  | carried hno h => exact landed_carried hs hrow hno h.skips
  | @kept l hl hsucceeded h =>
    obtain ⟨outcome, k⟩ := l
    obtain rfl : outcome = .succeeded := hsucceeded
    have hzero : player.consecutiveUnplayableSkips = 0 :=
      h.trans ((hcounted k rfl).resolve_left (Bool.eq_false_iff.mp hl))
    exact ⟨hzero.le, fun _ => Nat.zero_le _, hzero ▸ Nat.zero_le _, hs.late⟩
  | @cleared l hl hne h =>
    obtain ⟨outcome, k⟩ := l
    have hle (n : Nat) : player.consecutiveUnplayableSkips ≤ n := h ▸ Nat.zero_le n
    cases outcome with
    | refused => exact absurd rfl hne
    | succeeded | failed => exact ⟨hle _, fun _ => Nat.zero_le _, hle _, hs.late⟩
  | @wentOn l hl hrefused hlt h hgen =>
    obtain ⟨outcome, k⟩ := l
    obtain rfl : outcome = .refused := hrefused
    exact landed_wentOn hs hrow hl hlt h hgen
  | @gaveUp l hl hrefused hle h hloader hgen =>
    obtain ⟨outcome, k⟩ := l
    obtain rfl : outcome = .refused := hrefused
    exact landed_gaveUp hs hl hle h hgen

structure Inv (s : SkipHistory) : Prop where
  sound : s.player.Sound
  ledger : s.player.ledger.Tallied
  tame : s.player.Tame
  tally : Tally s
  row : s.row ≤ s.player.consecutiveUnplayableSkips

theorem inv_new : Inv {} where
  sound := AppPlayer.sound_new
  ledger := AppPlayer.tallied_new
  tame := AppPlayer.tame_new
  tally := ⟨le_rfl, fun _ => le_rfl, Nat.zero_le _, by simp⟩
  row := le_rfl

theorem Inv.sound_skips (h : Inv s) : Sound s where
  clear hzero := Nat.le_zero.mp (hzero ▸ h.tally.refusals)
  late := h.tally.late
  bounded := h.row.trans h.tally.most

variable {op : Op}

theorem tally_of_step (hs : Inv s) (hcounted : Counted s op)
    (h : s.player.step cfg g op = some player) : Tally (s.landed player (s.player.landing op)) := by
  cases hlane : op.isLane with
  | false =>
    have hc := step_counts hlane hs.tame.results hs.ledger h
    exact landed_tally hs.tally hs.row hc hcounted
  | true =>
    have hnone : s.player.landing op = none := by
      cases op <;> first | rfl | simp [Op.isLane] at hlane
    rw [hnone]
    exact landed_carried hs.tally hs.row (by simp)
      (.inl (by rw [lane_eq hlane h]))

theorem Tally.cutShort (h : Tally s) :
    Tally s.cutShort ∧ s.cutShort.row ≤ s.cutShort.player.consecutiveUnplayableSkips := by
  unfold SkipHistory.cutShort
  split
  · rename_i hplay
    exact ⟨h, h.row hplay⟩
  · exact ⟨⟨h.refusals, fun _ => Nat.zero_le _, h.most, h.late⟩, Nat.zero_le _⟩

theorem cutShort_eq (s : SkipHistory) :
    s.cutShort.player = s.player ∧ s.cutShort.refusals = s.refusals := by
  unfold cutShort
  split <;> exact ⟨rfl, rfl⟩

theorem step_inv (hs : Inv s) (hcounted : Counted s op) (h : s.step cfg g op = some s') :
    Inv s' := by
  obtain ⟨player, hplayer, rfl⟩ := map_eq_some_iff.mp h
  obtain ⟨htally, hrow⟩ := (tally_of_step hs hcounted hplayer).cutShort
  have heq : (s.landed player (s.player.landing op)).cutShort.player = player := by
    rw [(cutShort_eq _).1, landed_player]
  refine ⟨?_, ?_, ?_, htally, hrow⟩
  · rw [heq]
    exact step_sound hs.sound hplayer
  · rw [heq]
    exact step_tallied hs.sound.lane hs.ledger hplayer
  · rw [heq]
    exact step_tame hs.tame hs.sound.lane hs.ledger hplayer

theorem counted_of_clear (hs : Inv s) (h : s.step cfg g op = some s')
    (hclear : s'.refusals = 0 → s'.player.consecutiveUnplayableSkips = 0) : Counted s op := by
  intro k hk
  by_contra hno
  obtain ⟨hadvance, hskips⟩ := not_or.mp hno
  obtain ⟨player, hplayer, rfl⟩ := map_eq_some_iff.mp h
  rw [(cutShort_eq _).1, (cutShort_eq _).2, landed_player, hk] at hclear
  have hlane : op.isLane = false := by
    cases op <;> first | rfl | simp [landing] at hk
  have hc := step_counts hlane hs.tame.results hs.ledger hplayer
  rw [hk] at hc
  cases hc with
  | carried hnot => exact (hnot _ rfl).2 rfl
  | kept _ _ hkept => exact hskips (hkept ▸ hclear rfl)
  | cleared hl => exact hadvance hl
  | wentOn _ hrefused | gaveUp _ hrefused => simp at hrefused

/-- Along a run the counter is clear after each success, and an advance gives up when it should,
if and only if no load succeeds beside an advance that has been refused. -/
theorem skips_sound_iff_counted (cfg : Config) (g : Rand) (ops : List Op) :
    Always (step cfg g) Sound {} ops ↔ Meets (step cfg g) Counted {} ops := by
  refine always_iff_meets (I := Inv) (L := fun _ => True) ?_ ?_ ?_ inv_new fun _ _ => trivial
  · exact fun s hs => hs.sound_skips
  · exact fun s op s' hs _ hcounted h => step_inv hs hcounted h
  · exact fun s op s' hs _ h hsound => counted_of_clear hs h hsound.clear

/-- A skip comes to a track that is refused. Before the next one has loaded, the listener goes back
to a track that plays. -/
def wentBackRun : List Op :=
  let walks := served [knownTrack, knownTrack]
  let plays := { walks with stream := .ok knownStream, streamGen := 1 }
  let refused := { walks with stream := .error { err := { text := "refused" }, unplayable := true } }
  playingRun ++
    .command { now := 0 } (.skipNext none) :: roundTrip 0 walks ++ roundTrip 0 refused ++
    .command { now := 0 } (.skipPrev false) :: roundTrip 0 walks ++ roundTrip 0 walks ++
    roundTrip 0 plays

theorem skips_counted_after_success : ¬ Always (step here drawZero) Sound {} wentBackRun := by
  intro h
  have hrun : (exec (step here drawZero) {} wentBackRun).map
      (fun s => (s.refusals, s.player.consecutiveUnplayableSkips)) = some (0, 1) := by
    decide +kernel
  obtain ⟨t, ht, hend⟩ := map_eq_some_iff.mp hrun
  simp only [Prod.mk.injEq] at hend
  have := (h.last ht).clear hend.1
  omega

end SkipHistory

end Librespot.Daemon
