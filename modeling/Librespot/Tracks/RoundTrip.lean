import Librespot.Tracks.Toggle

/-!
# Shuffling and unshuffling

Turning shuffle off replays the draws of the seed that turned it on. Seed 0 stands
for a list that was never shuffled, and `draw + 1` keeps every seed apart from it
but one: the sum wraps.
-/

open Base.Exchange Base.Run List Option

namespace Librespot.Tracks.TrackList

/-! ## Between the two toggles -/

structure SameOrder (tl tl' : TrackList) : Prop where
  valid : tl'.tracks.Valid
  same : SameShuffle tl tl'
  list : tl'.tracks.list = tl.tracks.list

variable {tl tl' : TrackList} {g : Rand} {m : PagedList ContextTrack}

theorem Moved.length_le {op : Op} (h : Moved op tl tl') :
    tl.tracks.list.length ≤ tl'.tracks.list.length := by
  obtain ⟨m, hm, hlist⟩ := h.tracks
  have hle : tl.tracks.list.length ≤ m.list.length := by
    rcases hm with hr | ⟨hnil, -⟩
    · exact hr.fetched.length_le
    · simp [hnil]
  rcases hlist with hl | ⟨item, hl⟩
  · rw [hl]
    exact hle
  · rw [hl, length_cons]
    omega

theorem Moved.sameOrder {op : Op} (h : Moved op tl tl')
    (hlen : tl'.tracks.list.length = tl.tracks.list.length) : SameOrder tl tl' := by
  refine ⟨h.valid, h.same, ?_⟩
  obtain ⟨m, hm, hlist⟩ := h.tracks
  rcases hm with hr | ⟨hnil, -⟩
  · obtain ⟨more, rfl⟩ := hr.fetched.exists_append
    rcases hlist with hl | ⟨item, hl⟩
    · rw [hl, length_append] at hlen
      rw [hl, eq_nil_of_length_eq_zero (show more.length = 0 by omega), append_nil]
    · rw [hl, length_cons, length_append] at hlen
      omega
  · rw [hnil, length_nil] at hlen
    rw [hnil]
    exact eq_nil_of_length_eq_zero hlen

theorem SameShuffle.trans {a b c : TrackList} (h : SameShuffle a b) (h' : SameShuffle b c) :
    SameShuffle a c :=
  ⟨h'.1.trans h.1, h'.2.trans h.2, h'.3.trans h.3, h'.4.trans h.4, h'.5.trans h.5⟩

theorem exec_sameOrder {ops : List Op} (hv : tl.tracks.Valid)
    (hops : ∀ op ∈ ops, op.isToggle = false) (h : exec (step g) tl ops = some tl') :
    tl.tracks.list.length ≤ tl'.tracks.list.length ∧
      (tl'.tracks.list.length = tl.tracks.list.length → SameOrder tl tl') := by
  induction ops generalizing tl with
  | nil =>
    cases h
    exact ⟨le_refl _, fun _ => ⟨hv, ⟨rfl, rfl, rfl, rfl, rfl⟩, rfl⟩⟩
  | cons op _ ih =>
    obtain ⟨mid, hstep, hrest⟩ := exec_cons_eq_some.mp h
    have hmoved := step_moved (hops op mem_cons_self) hv hstep
    have hle := hmoved.length_le
    obtain ⟨hle', hsame⟩ := ih hmoved.valid (fun o ho => hops o (mem_cons_of_mem op ho)) hrest
    refine ⟨hle.trans hle', fun hlen => ?_⟩
    have h1 := hmoved.sameOrder (by omega)
    have h2 := hsame (by omega)
    exact ⟨h2.valid, h1.same.trans h2.same, h2.list.trans h1.list⟩

theorem offSwaps_eq {seed : UInt64} {last : TrackList}
    (h : SameOrder (tl.shuffledTo g seed m) last) :
    offSwaps g last = (onSwaps g seed m).reverse := by
  have hkeep : last.shuffleKeep = keepOf g seed m := h.same.shuffleKeep
  have hseed : last.shuffleSeed = seed := h.same.shuffleSeed
  have hlen : last.tracks.list.length = m.list.length := by
    rw [h.list]
    exact length_exchanges m _
  unfold offSwaps onSwaps
  rw [hkeep, hseed, reverse_append]
  congr 1
  · unfold keepSwap
    split <;> rfl
  · unfold shuffleSwaps
    rw [hlen]

theorem list_exchanges_reverse {l : PagedList ContextTrack} {es : List (Nat × Nat)}
    (h : l.list = (m.exchanges es).list) : (l.exchanges es.reverse).list = m.list := by
  have hlist : ∀ (es : List (Nat × Nat)) (a b : PagedList ContextTrack), a.list = b.list →
      (a.exchanges es).list = (b.exchanges es).list := by
    intro es
    induction es with
    | nil => intro a b hab; exact hab
    | cons _ _ ih =>
      intro a b hab
      apply ih
      simp only [Marked.exchange, hab]
  rw [hlist _ l (m.exchanges es) h, exchanges_reverse]

theorem replay_spec {seed : UInt64} {last : TrackList} (hm : m.Valid) (hseed : seed ≠ 0)
    (h : SameOrder (tl.shuffledTo g seed m) last) (page : Pages ContextTrack) (draw : UInt64) :
    ∃ off, last.toggleShuffle g page draw false = some (none, off) ∧
      off.tracks.list = m.list ∧ off.tracks.entry = last.tracks.entry := by
  have hlen : last.tracks.list.length = m.list.length := by
    rw [h.list]
    exact length_exchanges m _
  have hkeep : 0 < last.shuffleKeep → last.shuffleKeep < last.tracks.list.length := by
    intro _
    rw [hlen, h.same.shuffleKeep]
    exact keepOf_lt g seed hm
  have hon : last.shuffled = true := h.same.shuffled
  have hreplay : last.canReplay := by
    constructor
    · rw [h.same.shuffleSeed]
      exact hseed
    · rw [hlen, h.same.shuffleLen]
      rfl
  refine ⟨{ last with tracks := last.tracks.exchanges (offSwaps g last), shuffled := false }, ?_,
    ?_, ?_⟩
  · unfold toggleShuffle
    rw [if_neg (by simp [hon]), if_neg (by simp), if_pos hreplay, shuffleOff_eq g hkeep]
    rfl
  · simp only [offSwaps_eq h]
    exact list_exchanges_reverse h.list
  · exact entry_exchanges _ _ (offSwaps_lt g hkeep)

/-! ## Every draw but one -/

/-- What a draw promises for every generator, every resolver, every unshuffled list and every run
between the two toggles that keeps the length: the list is back as it was loaded, and the cursor
stays on its entry. -/
def RoundTrips (draw : UInt64) : Prop :=
  ∀ (g : Rand) (page : Pages ContextTrack) (tl : TrackList), tl.shuffled = false →
    tl.tracks.Valid → ∃ m on, fetchAll page tl.tracks = some m ∧ tl.tracks.list <+: m.list ∧
      tl.toggleShuffle g page draw true = some (none, on) ∧
      ∀ (ops : List Op) (last : TrackList) (page' : Pages ContextTrack) (draw' : UInt64),
        (∀ op ∈ ops, op.isToggle = false) → exec (step g) on ops = some last →
        last.tracks.list.length = on.tracks.list.length →
        ∃ off, last.toggleShuffle g page' draw' false = some (none, off) ∧
          off.tracks.list = m.list ∧ off.tracks.entry = last.tracks.entry

theorem roundTrips_of_ne {draw : UInt64} (h : draw + 1 ≠ 0) : RoundTrips draw := by
  intro g page tl hsh hv
  obtain ⟨m, hm⟩ := fetchAll_isSome page tl.tracks
  have hfetched := (fetchAll_reads hm).fetched
  have hmv : m.Valid := hv.fetched hfetched
  refine ⟨m, tl.shuffledTo g (draw + 1) m, hm, ?_, ?_, ?_⟩
  · obtain ⟨more, rfl⟩ := hfetched.exists_append
    exact prefix_append _ _
  · unfold toggleShuffle
    rw [if_neg (by simp [hsh]), if_pos rfl, shuffleOn_eq hv hm]
    rfl
  · intro ops last page' draw' hops hexec hlen
    have hon : (tl.shuffledTo g (draw + 1) m).tracks.Valid :=
      valid_exchanges hmv (onSwaps_lt g _ hmv)
    exact replay_spec hmv h ((exec_sameOrder hon hops hexec).2 hlen) page' draw'

/-! A context of two pages with one track each, and a generator that always draws 0. -/

def trackA : ContextTrack := { uri := "spotify:track:a" }

def trackB : ContextTrack := { uri := "spotify:track:b" }

def twoPages : Pages ContextTrack := fun i =>
  if i = 0 then .ok [trackA] else if i = 1 then .ok [trackB]
  else .error { text := "EOF", isEOF := true }

def bothLoaded : TrackList :=
  { typ := "track", tracks := ⟨[⟨trackA, 0, 0⟩, ⟨trackB, 1, 0⟩], 0⟩ }

theorem bothLoaded_reachable : exec (step drawZero) (newTrackList "track")
    [.trySeekTo twoPages trackB, .goPrev] = some bothLoaded := by
  decide +kernel

theorem bothLoaded_wrapped : ∃ on off,
    bothLoaded.toggleShuffle drawZero twoPages 18446744073709551615 true = some (none, on) ∧
    on.toggleShuffle drawZero twoPages 0 false = some (none, off) ∧
    on.tracks.list.length = 2 ∧ off.tracks.list.length = 1 := by
  refine ⟨bothLoaded.shuffledTo drawZero 0 bothLoaded.tracks,
    { bothLoaded with tracks := ⟨[⟨trackA, 0, 0⟩], 0⟩, shuffleLen := 2, shuffleKeep := 1 },
    ?_, ?_, ?_, ?_⟩ <;> decide +kernel

theorem not_roundTrips_wrapped : ¬ RoundTrips 18446744073709551615 := by
  intro h
  obtain ⟨on, off, hon, hoff, -, hlen⟩ := bothLoaded_wrapped
  obtain ⟨m, on', -, hpre, hon', hback⟩ := h drawZero twoPages bothLoaded rfl
    ⟨by decide, by decide⟩
  rw [hon, some.injEq, Prod.mk.injEq] at hon'
  obtain ⟨off', hoff', hlist, -⟩ := hback [] on twoPages 0 (by simp)
    (by rw [exec_nil, hon'.2]) (by rw [hon'.2])
  rw [hoff, some.injEq, Prod.mk.injEq] at hoff'
  have hle := hpre.length_le
  rw [← hlist, ← hoff'.2, hlen] at hle
  exact absurd hle (by decide)

/-- The two toggles give the list back for every draw but the one that wraps to seed 0. -/
theorem roundTrips_iff (draw : UInt64) : RoundTrips draw ↔ draw ≠ 18446744073709551615 := by
  constructor
  · rintro h rfl
    exact not_roundTrips_wrapped h
  · intro h
    refine roundTrips_of_ne fun h0 => h ?_
    have : draw = 0 - 1 := by rw [← h0, UInt64.add_sub_cancel]
    rw [this]
    rfl

theorem roundTrips_fails_on_wrap : exec (step drawZero) (newTrackList "track")
      [.trySeekTo twoPages trackB, .goPrev] = some bothLoaded ∧
    (∃ on off, bothLoaded.toggleShuffle drawZero twoPages 18446744073709551615 true =
        some (none, on) ∧
      on.toggleShuffle drawZero twoPages 0 false = some (none, off) ∧
      on.tracks.list.length = 2 ∧ off.tracks.list.length = 1) ∧
    ¬ RoundTrips 18446744073709551615 :=
  ⟨bothLoaded_reachable, bothLoaded_wrapped, not_roundTrips_wrapped⟩

end Librespot.Tracks.TrackList
