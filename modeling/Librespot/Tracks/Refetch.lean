import Librespot.Tracks.RoundTrip

/-!
# Where `toggleShuffle` leaves the cursor

Two of its three branches only exchange entries. The third fetches the pages again
and looks for the track that is playing, which is not always the one under the cursor.
-/

open Base.Exchange Base.Run List Option

namespace Librespot.Tracks

open PagedList

variable {α : Type} {page : Pages α}

/-! ## The context in page order -/

def contextItems (page : Pages α) (k : Nat) : List (PagedListItem α) :=
  (List.range k).flatMap fun (i : Nat) =>
    match page i with
    | .ok items => PagedList.pageItems i items
    | .error _ => []

def Answers (page : Pages α) (k : Nat) : Prop :=
  ∀ i < k, ∃ items, page (i : Nat) = .ok items ∧ items ≠ []

variable {k : Nat}

theorem contextItems_succ (page : Pages α) {items : List α} (h : page (k : Nat) = .ok items) :
    contextItems page (k + 1) = contextItems page k ++ PagedList.pageItems k items := by
  simp [contextItems, range_succ, h]

theorem contextItems_prefix (page : Pages α) {k' : Nat} (h : k ≤ k') :
    contextItems page k <+: contextItems page k' := by
  obtain ⟨d, rfl⟩ := Nat.exists_eq_add_of_le h
  unfold contextItems
  rw [range_add, flatMap_append]
  exact prefix_append _ _

theorem contextItems_agree {k' p : Nat} {x y : PagedListItem α}
    (hx : (contextItems page k)[p]? = some x) (hy : (contextItems page k')[p]? = some y) :
    x = y := by
  rcases Nat.le_total k k' with h | h
  · obtain ⟨more, hmore⟩ := contextItems_prefix page h
    rw [← hmore, getElem?_append_left (List.getElem?_eq_some_iff.mp hx).1, hx] at hy
    exact some.inj hy
  · obtain ⟨more, hmore⟩ := contextItems_prefix page h
    rw [← hmore, getElem?_append_left (List.getElem?_eq_some_iff.mp hy).1, hy] at hx
    exact (some.inj hx).symm

theorem Fetched.contextItems {l m : PagedList α} (h : Fetched page l m) (hk : Answers page k)
    (hl : l.list = contextItems page k) (hn : l.nextPageIdx = k) :
    ∃ k', Answers page k' ∧ m.list = Tracks.contextItems page k' ∧ m.nextPageIdx = k' := by
  induction h generalizing k with
  | refl => exact ⟨k, hk, hl, hn⟩
  | next hf _ ih =>
    obtain ⟨items, hitems, hne, rfl⟩ := fetchNextPage_ok_iff.mp hf
    rw [hn] at hitems
    have hk' : Answers page (k + 1) := by
      intro i hi
      rcases Nat.lt_succ_iff_lt_or_eq.mp hi with h | rfl
      · exact hk i h
      · exact ⟨items, hitems, hne⟩
    have hl' := contextItems_succ page hitems
    refine ih hk' ?_ ?_
    · rw [hl', ← hl, hn]
    · rw [nextPageIdx_fetched _ _ items hne, hn]
      rfl

theorem fetched_new {m : PagedList α} (h : Fetched page PagedList.new m) :
    ∃ k, Answers page k ∧ m.list = contextItems page k ∧ m.nextPageIdx = k :=
  h.contextItems (k := 0) (by intro i hi; omega) rfl rfl

namespace TrackList

variable {page : Pages ContextTrack} {f : ContextTrack → Option Bool}

def FirstMatch (page : Pages ContextTrack) (f : ContextTrack → Option Bool)
    (x : PagedListItem ContextTrack) : Prop :=
  ∃ k p, Answers page k ∧ (contextItems page k)[p]? = some x ∧
    SeekHit (fun _ => f) (contextItems page k) p

variable {x : PagedListItem ContextTrack}

theorem SeekHit.accepts {list : List (PagedListItem ContextTrack)} {p : Nat}
    (h : SeekHit (fun _ => f) list p) (hx : list[p]? = some x) : f x.item = some true := by
  obtain ⟨y, hy, hf⟩ := h.hit
  rw [hx, some.injEq] at hy
  exact hy ▸ hf

theorem firstMatch_stop {k k' p q : Nat} {y : PagedListItem ContextTrack}
    (hx : (contextItems page k)[p]? = some x) (hhit : SeekHit (fun _ => f) (contextItems page k) p)
    (hy : (contextItems page k')[q]? = some y)
    (hpass : ∀ (i : Nat) (z : PagedListItem ContextTrack), i < q →
      (contextItems page k')[i]? = some z → f z.item = some false ∧ z.pageIdx < seekMaxPages) :
    (f y.item = some false ∧ y.pageIdx < seekMaxPages) ∨ y = x := by
  rcases Nat.lt_trichotomy q p with h | rfl | h
  · left
    have hlt : q < (contextItems page k).length := by
      have := (List.getElem?_eq_some_iff.mp hx).1
      omega
    have hq := getElem?_eq_getElem hlt
    rw [contextItems_agree hy hq]
    exact hhit.passed q h _ hq
  · exact .inr (contextItems_agree hy hx)
  · -- Then `x` was passed, although `f` accepts it.
    have hlt : p < (contextItems page k').length := by
      have := (List.getElem?_eq_some_iff.mp hy).1
      omega
    have hp := getElem?_eq_getElem hlt
    have := (hpass p _ h hp).1
    rw [← contextItems_agree hx hp, hhit.accepts hx] at this
    simp at this

theorem walk_firstMatch (h : FirstMatch page f x) :
    ∃ iter m, walk page (seekBody fun _ => f) (walkFuel page PagedList.new) Iter.start
      PagedList.new = some (.left .found, iter, m) := by
  obtain ⟨k, p, hk, hx, hhit⟩ := h
  have hfx := hhit.accepts hx
  have hpos : -1 ≤ Iter.start.pos := le_refl _
  have hle : Iter.start.pos + 1 ≤ (new : PagedList ContextTrack).list.length := le_refl _
  rcases hw : walk page (seekBody fun _ => f) (walkFuel page new) Iter.start
    new with _ | ⟨stop, iter, m⟩
  · obtain ⟨m, q, y, hf, hq, hy, hby, hpass⟩ := walk_none hpos hle hw
    obtain ⟨k', -, hm, -⟩ := fetched_new hf
    simp only [Iter.start] at hq hpass
    rw [hm] at hy hpass
    have := firstMatch_stop hx hhit hy
      fun i z hi hz => seekBody_next.mp (hpass i z (by omega) (by omega) hz)
    rcases this with hpy | rfl
    · rw [seekBody_next.mpr hpy] at hby
      simp at hby
    · rw [seekBody_found.mpr hfx] at hby
      simp at hby
  · obtain ⟨k', -, hm, hn⟩ := fetched_new (walk_fetched hpos hle hw)
    rcases stop with (_ | pageIdx) | _ | _
    · exact ⟨iter, m, rfl⟩
    · exfalso
      obtain ⟨hq, ⟨y, hy, hby⟩, hpass⟩ := walk_left hpos hle hw
      simp only [Iter.start] at hq hpass
      rw [hm] at hy hpass
      have := firstMatch_stop hx hhit hy
        fun i z hi hz => seekBody_next.mp (hpass i z (by omega) (by omega) hz)
      rcases this with hpy | rfl
      · rw [seekBody_next.mpr hpy] at hby
        simp at hby
      · rw [seekBody_found.mpr hfx] at hby
        simp at hby
    · exfalso
      obtain ⟨hpass, err, hf⟩ := walk_ended hpos hle hw
      rcases Nat.lt_or_ge k' k with hlt | hge
      · obtain ⟨items, hitems, hne⟩ := hk k' hlt
        rw [← hn] at hitems
        rw [fetchNextPage_ok_iff.mpr ⟨items, hitems, hne, rfl⟩] at hf
        simp at hf
      · obtain ⟨more, hmore⟩ := contextItems_prefix page hge
        have hx' : m.list[p]? = some x := by
          rw [hm, ← hmore, getElem?_append_left (List.getElem?_eq_some_iff.mp hx).1, hx]
        have := seekBody_next.mp (hpass p x (by simp [Iter.start]; omega) hx')
        rw [hfx] at this
        simp at this
    · exact absurd rfl (walk_ends (fun i y hy => (seekBody_next.mp hy).2) (le_refl _) hw)

theorem refetch_firstMatch {tl : TrackList} {track : ContextTrack}
    (htrack : tl.current = some track) (hcmp : contextTrackComparator tl.typ track = some f)
    (h : FirstMatch page f x) :
    ∃ tl', tl.refetch page = some (none, tl') ∧ tl'.tracks.entry = some x := by
  obtain ⟨iter, m, hw⟩ := walk_firstMatch h
  have hpos : -1 ≤ Iter.start.pos := le_refl _
  have hle : Iter.start.pos + 1 ≤ (new : PagedList ContextTrack).list.length := le_refl _
  refine ⟨{ tl with tracks := ⟨m.list, iter.pos⟩, shuffled := false }, ?_, ?_⟩
  · simp [refetch, htrack, hcmp, seek, clear, hw]
  · obtain ⟨hq, ⟨y, hy, hby⟩, hpass⟩ := walk_left hpos hle hw
    obtain ⟨k', -, hm, -⟩ := fetched_new (walk_fetched hpos hle hw)
    obtain ⟨k, p, -, hx, hhit⟩ := h
    simp only [Iter.start] at hq hpass
    simp only [Marked.entry]
    rw [if_neg (by omega), hy]
    rw [hm] at hy hpass
    have := firstMatch_stop hx hhit hy
      fun i z hi hz => seekBody_next.mp (hpass i z (by omega) (by omega) hz)
    rcases this with hpy | rfl
    · rw [seekBody_next.mpr hpy] at hby
      simp at hby
    · rfl

theorem Refetched.firstMatch {tl tl' : TrackList} (h : Refetched page tl tl') :
    ∃ track isCurrent x, tl.current = some track ∧
      contextTrackComparator tl.typ track = some isCurrent ∧ FirstMatch page isCurrent x ∧
      tl'.tracks.entry = some x ∧ tl'.queue = tl.queue ∧ tl'.playingQueue = tl.playingQueue := by
  obtain ⟨track, isCurrent, m, p, htrack, hcmp, hf, hhit, rfl⟩ := h.hit
  obtain ⟨k, hk, hm, -⟩ := fetched_new hf
  obtain ⟨x, hx, -⟩ := hhit.hit
  rw [hm] at hx hhit
  refine ⟨track, isCurrent, x, htrack, hcmp, ⟨k, p, hk, hx, hhit⟩, ?_, rfl, rfl⟩
  simp only [Marked.entry, Int.toNat_natCast]
  rw [if_neg (by omega), hm, hx]

def place (tl : TrackList) : Option (Int × Int) :=
  tl.tracks.entry.map fun x => (x.pageIdx, x.itemIdx)

/-- A toggle leaves the queue alone. If it succeeds the cursor stays on its entry, and if it fails
the list stays as it was. -/
def TogglesInPlace (g : Rand) (page : Pages ContextTrack) (draw : UInt64) (shuffle : Bool)
    (tl : TrackList) : Prop :=
  ∀ err tl', tl.toggleShuffle g page draw shuffle = some (err, tl') →
    tl'.queue = tl.queue ∧ tl'.playingQueue = tl.playingQueue ∧
    (err = none → tl'.place = tl.place) ∧
    (err ≠ none → tl'.tracks = tl.tracks ∧ tl'.shuffled = tl.shuffled)

/-- If the pages have to be fetched again, the first entry that matches the playing track is the
one under the cursor. -/
def FindsCursor (page : Pages ContextTrack) (shuffle : Bool) (tl : TrackList) : Prop :=
  shuffle = false → tl.shuffled = true → ¬ tl.canReplay → ∀ track isCurrent x,
    tl.current = some track → contextTrackComparator tl.typ track = some isCurrent →
    FirstMatch page isCurrent x → tl.place = some (x.pageIdx, x.itemIdx)

/-- In every reachable state, a toggle is in place exactly if it finds the cursor's entry. -/
theorem togglesInPlace_iff (g : Rand) (typ : SpotifyIdType) (ops : List Op) (tl : TrackList)
    (hreach : exec (step g) (newTrackList typ) ops = some tl) (page : Pages ContextTrack)
    (draw : UInt64) (shuffle : Bool) :
    TogglesInPlace g page draw shuffle tl ↔ FindsCursor page shuffle tl := by
  have hv := reachable_valid hreach
  constructor
  · rintro h rfl hsh hre track isCurrent x htrack hcmp hx
    obtain ⟨tl', hrefetch, hentry⟩ := refetch_firstMatch htrack hcmp hx
    have htoggle : tl.toggleShuffle g page draw false = some (none, tl') := by
      unfold toggleShuffle
      rw [if_neg (by simp [hsh]), if_neg (by simp), if_neg hre, hrefetch]
    rw [← (h _ _ htoggle).2.2.1 rfl]
    simp [place, hentry]
  · intro h err tl' htoggle
    rcases toggleShuffle_cases hv htoggle with ⟨-, rfl, rfl⟩ | ⟨-, -, rfl, m, hm, rfl⟩ |
      ⟨-, -, -, rfl, hkeep, rfl⟩ | ⟨rfl, hsh, hre, ⟨⟨e, rfl⟩, rfl⟩ | ⟨rfl, hrefetched⟩⟩
    · exact ⟨rfl, rfl, fun _ => rfl, fun hne => absurd rfl hne⟩
    · have hfetched := (fetchAll_reads hm).fetched
      have hmv : m.Valid := hv.fetched hfetched
      refine ⟨rfl, rfl, fun _ => ?_, fun hne => absurd rfl hne⟩
      unfold place shuffledTo
      rw [entry_exchanges m _ (onSwaps_lt g _ hmv), hfetched.entry_eq hv]
    · refine ⟨rfl, rfl, fun _ => ?_, fun hne => absurd rfl hne⟩
      unfold place
      rw [entry_exchanges _ _ (offSwaps_lt g hkeep)]
    · exact ⟨rfl, rfl, fun hne => by simp at hne, fun _ => ⟨rfl, rfl⟩⟩
    · obtain ⟨track, isCurrent, x, htrack, hcmp, hx, hentry, hq, hpq⟩ := hrefetched.firstMatch
      refine ⟨hq, hpq, fun _ => ?_, fun hne => absurd rfl hne⟩
      rw [h rfl hsh hre track isCurrent x htrack hcmp hx]
      simp [place, hentry]

/-- A track of the context is queued and plays while the cursor is on another one. -/
def queuedRun : List Op :=
  [.trySeekTo twoPages trackB, .goPrev, .toggleShuffle twoPages 0 true,
    .trySeekTo twoPages { uri := "spotify:track:z" }, .goNext twoPages, .addToQueue trackB,
    .goNext twoPages]

/-- Where the run leaves the list, with the shuffle off again or not. -/
def queuedList (shuffled : Bool) (list : List (PagedListItem ContextTrack)) : TrackList :=
  { typ := "track", shuffled, shuffleSeed := 1, shuffleLen := 2, shuffleKeep := 1
    playingQueue := true, tracks := ⟨list, 1⟩
    queue := [{ trackB with metadata := [("is_queued", "true")] }] }

theorem togglesInPlace_fails_on_queue : ∃ tl tl',
    exec (step drawZero) (newTrackList "track") queuedRun = some tl ∧
    tl.playingQueue = true ∧ tl.place = some (0, 0) ∧
    tl.toggleShuffle drawZero twoPages 0 false = some (none, tl') ∧ tl'.place = some (1, 0) ∧
    ¬ TogglesInPlace drawZero twoPages 0 false tl := by
  let context : List (PagedListItem ContextTrack) := [⟨trackA, 0, 0⟩, ⟨trackB, 1, 0⟩]
  have ht : (queuedList true (⟨{ uri := "spotify:track:z" }, -1, -1⟩ :: context)).toggleShuffle
      drawZero twoPages 0 false = some (none, queuedList false context) := by decide +kernel
  refine ⟨_, _, by decide +kernel, rfl, by decide +kernel, ht, by decide +kernel, fun h => ?_⟩
  exact absurd ((h _ _ ht).2.2.1 rfl) (by decide +kernel)

theorem togglesInPlace_iff_bothLoaded :
    exec (step drawZero) (newTrackList "track") [.trySeekTo twoPages trackB, .goPrev] =
      some bothLoaded ∧
    (TogglesInPlace drawZero twoPages 0 true bothLoaded ↔ FindsCursor twoPages true bothLoaded) :=
  ⟨bothLoaded_reachable,
    togglesInPlace_iff drawZero "track" _ bothLoaded bothLoaded_reachable twoPages 0 true⟩

end TrackList

end Librespot.Tracks
