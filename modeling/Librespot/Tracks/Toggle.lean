import Librespot.Tracks.Steps

/-! # What `toggleShuffle` does -/

open Base.Exchange Base.Run Option

namespace Librespot.Tracks.TrackList

open PagedList

/-! ## The branches -/

def keepSwap (keep : Int) : List (Nat × Nat) := if keep > 0 then [(0, keep.toNat)] else []

theorem swap_eq_some {α : Type} {l l' : PagedList α} {i j : Int} (h : l.swap i j = some l') :
    0 ≤ i ∧ i < l.list.length ∧ 0 ≤ j ∧ j < l.list.length ∧ l' = l.exchange i.toNat j.toNat := by
  unfold swap at h
  split at h
  · simp at h
  · rename_i hb
    rw [some.injEq] at h
    exact ⟨by omega, by omega, by omega, by omega, h.symm⟩

variable {m : PagedList ContextTrack} {page : Pages ContextTrack} {g : Rand} {draw : UInt64}
  {tl tl' : TrackList} {err : Option Err}

theorem valid_exchanges (hv : m.Valid) {es : List (Nat × Nat)}
    (hes : ∀ e ∈ es, e.1 < m.list.length ∧ e.2 < m.list.length) :
    PagedList.Valid (m.exchanges es) := by
  refine ⟨le_pos_exchanges m es (by omega) hv.ge, ?_⟩
  rw [length_exchanges]
  exact pos_exchanges_lt m es hes hv.lt

theorem fetchAll_reads {l : PagedList ContextTrack} (h : fetchAll page l = some m) :
    Reads page (PassesEnd fetchAllBody (-1) l) l m := by
  unfold fetchAll at h
  simp only [run_eq_some, Prod.exists, some.injEq] at h
  obtain ⟨stop, iter, m', hw, rfl⟩ := h
  exact walk_reads (by simp [Iter.start]) (by simp [Iter.start])
    (by simp only [Iter.start, walkFuel]; omega) hw

def shuffleSwaps (g : Rand) (seed : UInt64) (m : PagedList ContextTrack) : List (Nat × Nat) :=
  PagedList.swaps g (m.list.length - 1) (g.newSource seed)

def keepOf (g : Rand) (seed : UInt64) (m : PagedList ContextTrack) : Int :=
  if (m.exchanges (shuffleSwaps g seed m)).pos > 0 then (m.exchanges (shuffleSwaps g seed m)).pos
  else -1

theorem shuffleSwaps_lt (g : Rand) (seed : UInt64) (m : PagedList ContextTrack) :
    ∀ e ∈ shuffleSwaps g seed m, e.1 < m.list.length ∧ e.2 < m.list.length := by
  intro e he
  have hne : 0 < m.list.length := by
    rcases Nat.eq_zero_or_pos m.list.length with h0 | h0
    · rw [shuffleSwaps, h0] at he
      simp [swaps] at he
    · exact h0
  exact swaps_lt g _ m hne e he

theorem keepSwap_lt {keep : Int} {n : Nat} (h : keep < n) :
    ∀ e ∈ keepSwap keep, e.1 < n ∧ e.2 < n := by
  intro e he
  unfold keepSwap at he
  split at he
  · rw [List.mem_singleton] at he
    subst he
    exact ⟨by simp only; omega, by simp only; omega⟩
  · simp at he

theorem keepOf_lt (g : Rand) (seed : UInt64) (hv : m.Valid) : keepOf g seed m < m.list.length := by
  unfold keepOf
  split
  · exact pos_exchanges_lt m _ (shuffleSwaps_lt g seed m) hv.lt
  · omega

def onSwaps (g : Rand) (seed : UInt64) (m : PagedList ContextTrack) : List (Nat × Nat) :=
  shuffleSwaps g seed m ++ keepSwap (keepOf g seed m)

theorem onSwaps_lt (g : Rand) (seed : UInt64) (hv : m.Valid) :
    ∀ e ∈ onSwaps g seed m, e.1 < m.list.length ∧ e.2 < m.list.length := by
  intro e he
  rcases List.mem_append.mp he with he | he
  · exact shuffleSwaps_lt g seed m e he
  · exact keepSwap_lt (keepOf_lt g seed hv) e he

def shuffledTo (g : Rand) (seed : UInt64) (m : PagedList ContextTrack) (tl : TrackList) :
    TrackList :=
  { tl with
    tracks := m.exchanges (onSwaps g seed m), shuffled := true, shuffleSeed := seed
    shuffleLen := m.list.length, shuffleKeep := keepOf g seed m }

theorem shuffleOn_eq (hv : tl.tracks.Valid) (hm : fetchAll page tl.tracks = some m) :
    tl.shuffleOn g page draw = some (tl.shuffledTo g (draw + 1) m) := by
  have hmv : m.Valid := hv.fetched (fetchAll_reads hm).fetched
  have hlt := pos_exchanges_lt m _ (shuffleSwaps_lt g (draw + 1) m) hmv.lt
  unfold shuffleOn
  rw [hm]
  simp only [bind_eq_bind, bind_some, shuffle_eq]
  have hk : keepOf g (draw + 1) m = if (m.exchanges (shuffleSwaps g (draw + 1) m)).pos > 0 then
    (m.exchanges (shuffleSwaps g (draw + 1) m)).pos else -1 := rfl
  unfold shuffledTo onSwaps
  by_cases hp : (m.exchanges (shuffleSwaps g (draw + 1) m)).pos > 0
  · rw [if_pos hp] at hk
    unfold shuffleSwaps at hp hk hlt
    rw [if_pos hp]
    unfold swap
    rw [if_neg (by rw [length_exchanges]; omega)]
    simp only [bind_some, some.injEq, hk, keepSwap, if_pos hp, exchanges_append, shuffleSwaps]
    simp
  · rw [if_neg hp] at hk
    unfold shuffleSwaps at hp
    rw [if_neg hp]
    simp only [hk, keepSwap, shuffleSwaps]
    simp

theorem fetchAll_isSome (page : Pages ContextTrack) (l : PagedList ContextTrack) :
    ∃ m, fetchAll page l = some m := by
  have hbody : ∀ i x, fetchAllBody i x ≠ none := by
    intro i x
    unfold fetchAllBody
    split <;> simp
  obtain ⟨⟨stop, iter, m⟩, hw⟩ := walk_isSome page hbody (walkFuel page l) Iter.start l
    (by simp [Iter.start]) (by simp [Iter.start])
  exact ⟨m, by simp [fetchAll, hw]⟩

def offSwaps (g : Rand) (tl : TrackList) : List (Nat × Nat) :=
  keepSwap tl.shuffleKeep ++ (shuffleSwaps g tl.shuffleSeed tl.tracks).reverse

theorem shuffleOff_eq (g : Rand)
    (hk : 0 < tl.shuffleKeep → tl.shuffleKeep < tl.tracks.list.length) :
    tl.shuffleOff g =
      some { tl with tracks := tl.tracks.exchanges (offSwaps g tl), shuffled := false } := by
  unfold shuffleOff offSwaps keepSwap
  by_cases hp : tl.shuffleKeep > 0
  · have := hk hp
    unfold swap
    rw [if_pos hp, if_pos hp, if_neg (by omega)]
    simp only [bind_eq_bind, bind_some, unshuffle_eq, length_exchange,
      exchanges_append, exchanges_cons, exchanges_nil, shuffleSwaps]
    simp
  · rw [if_neg hp, if_neg hp]
    simp only [unshuffle_eq, List.nil_append, shuffleSwaps]
    rfl

theorem shuffleKeep_lt_of_shuffleOff (h : tl.shuffleOff g = some tl') (hp : 0 < tl.shuffleKeep) :
    tl.shuffleKeep < tl.tracks.list.length := by
  unfold shuffleOff at h
  simp only [gt_iff_lt, hp, if_true, run_eq_some] at h
  obtain ⟨l, hl, -⟩ := h
  exact (swap_eq_some hl).2.2.2.1

theorem offSwaps_lt (g : Rand) (hk : 0 < tl.shuffleKeep → tl.shuffleKeep < tl.tracks.list.length) :
    ∀ e ∈ offSwaps g tl, e.1 < tl.tracks.list.length ∧ e.2 < tl.tracks.list.length := by
  intro e he
  rcases List.mem_append.mp he with he | he
  · by_cases hp : 0 < tl.shuffleKeep
    · exact keepSwap_lt (hk hp) e he
    · simp [keepSwap, hp] at he
  · exact shuffleSwaps_lt g _ _ e (List.mem_reverse.mp he)

/-- The pages are fetched again, and the cursor goes to the first entry that matches the track
that is playing. -/
structure Refetched (page : Pages ContextTrack) (tl tl' : TrackList) : Prop where
  hit : ∃ track isCurrent m p, tl.current = some track ∧
    contextTrackComparator tl.typ track = some isCurrent ∧ Fetched page PagedList.new m ∧
    SeekHit (fun _ => isCurrent) m.list p ∧
    tl' = { tl with tracks := ⟨m.list, p⟩, shuffled := false }

theorem refetch_cases (h : tl.refetch page = some (err, tl')) :
    ((∃ e, err = some e) ∧ tl' = tl) ∨ (err = none ∧ Refetched page tl tl') := by
  unfold refetch at h
  simp only [run_eq_some] at h
  obtain ⟨track, htrack, isCurrent, hcmp, ⟨serr, found⟩, hseek, h⟩ := h
  obtain ⟨m, hr, hfound⟩ := seek_spec hseek
  rcases hfound with ⟨p, rfl, hhit, rfl⟩ | ⟨⟨e, rfl⟩, rfl⟩
  · simp only [some.injEq, Prod.mk.injEq] at h
    exact .inr ⟨h.1.symm, track, isCurrent, m, p, htrack, hcmp, hr.fetched, hhit, h.2.symm⟩
  · simp only [some.injEq, Prod.mk.injEq] at h
    exact .inl ⟨⟨_, h.1.symm⟩, h.2.symm⟩

theorem toggleShuffle_cases {shuffle : Bool} (hv : tl.tracks.Valid)
    (h : tl.toggleShuffle g page draw shuffle = some (err, tl')) :
    (shuffle = tl.shuffled ∧ err = none ∧ tl' = tl) ∨
    (shuffle = true ∧ tl.shuffled = false ∧ err = none ∧
      ∃ m, fetchAll page tl.tracks = some m ∧ tl' = tl.shuffledTo g (draw + 1) m) ∨
    (shuffle = false ∧ tl.shuffled = true ∧ tl.canReplay ∧ err = none ∧
      (0 < tl.shuffleKeep → tl.shuffleKeep < tl.tracks.list.length) ∧
      tl' = { tl with tracks := tl.tracks.exchanges (offSwaps g tl), shuffled := false }) ∨
    (shuffle = false ∧ tl.shuffled = true ∧ ¬ tl.canReplay ∧
      (((∃ e, err = some e) ∧ tl' = tl) ∨ (err = none ∧ Refetched page tl tl'))) := by
  unfold toggleShuffle at h
  by_cases hs : shuffle = tl.shuffled
  · rw [if_pos hs, some.injEq, Prod.mk.injEq] at h
    exact .inl ⟨hs, h.1.symm, h.2.symm⟩
  rw [if_neg hs] at h
  right
  cases shuffle with
  | true =>
    obtain ⟨m, hm⟩ := fetchAll_isSome page tl.tracks
    rw [if_pos rfl, shuffleOn_eq hv hm] at h
    simp only [map_some, some.injEq, Prod.mk.injEq] at h
    exact .inl ⟨rfl, by simpa using hs, h.1.symm, m, hm, h.2.symm⟩
  | false =>
    have hsh : tl.shuffled = true := by simpa using hs
    rw [if_neg (by simp)] at h
    right
    by_cases hr : tl.canReplay
    · rw [if_pos hr, map_eq_some_iff] at h
      obtain ⟨off, hoff, h⟩ := h
      have hk := shuffleKeep_lt_of_shuffleOff hoff
      rw [shuffleOff_eq g hk, some.injEq] at hoff
      rw [Prod.mk.injEq] at h
      exact .inl ⟨rfl, hsh, hr, h.1.symm, hk, by rw [← h.2, hoff]⟩
    · rw [if_neg hr] at h
      exact .inr ⟨rfl, hsh, hr, refetch_cases h⟩

theorem toggleShuffle_valid {shuffle : Bool} (hv : tl.tracks.Valid)
    (h : tl.toggleShuffle g page draw shuffle = some (err, tl')) : tl'.tracks.Valid := by
  rcases toggleShuffle_cases hv h with ⟨-, -, rfl⟩ | ⟨-, -, -, m, hm, rfl⟩ |
    ⟨-, -, -, -, hkeep, rfl⟩ | ⟨-, -, -, ⟨-, rfl⟩ | ⟨-, hre⟩⟩
  · exact hv
  · have hmv : m.Valid := hv.fetched (fetchAll_reads hm).fetched
    exact valid_exchanges hmv (onSwaps_lt g _ hmv)
  · exact valid_exchanges hv (offSwaps_lt g hkeep)
  · exact hv
  · obtain ⟨track, isCurrent, m, p, -, -, -, hhit, rfl⟩ := hre.hit
    have := hhit.lt_length
    exact ⟨by simp only; omega, by simp only; omega⟩

theorem step_valid {op : Op} (hv : tl.tracks.Valid) (h : step g tl op = some tl') :
    tl'.tracks.Valid := by
  by_cases hop : op.isToggle = false
  · exact (step_moved hop hv h).valid
  · cases op with
    | toggleShuffle =>
      obtain ⟨err, ht⟩ := map_snd_eq_some.mp h
      exact toggleShuffle_valid hv ht
    | _ => exact absurd rfl hop

theorem reachable_valid {typ : SpotifyIdType} {ops : List Op}
    (h : exec (step g) (newTrackList typ) ops = some tl) : tl.tracks.Valid :=
  exec_invariant (I := fun tl => tl.tracks.Valid) (fun _ _ _ hv hs => step_valid hv hs) valid_new h

end Librespot.Tracks.TrackList
