import Librespot.Tracks.ListedTwice
import Librespot.Tracks.Refetch

/-!
# What a seek finds among the loaded tracks

A seek goes through the loaded entries before it asks for more. It tests the page bound on every
one of them, so an entry of a late page stops it wherever the entry stands.
-/

open Base.Exchange Base.Run List Option

namespace Librespot.Tracks

/-! ## Walks that load nothing -/

theorem walk_loaded {α β : Type} {page : Pages α} {body : Int → PagedListItem α → Option (Option β)}
    {l : PagedList α} {q n : Nat} {x : PagedListItem α} {value : β} {iter : Iter}
    (h : Stops body l.list q x) (hbody : body q x = some (some value)) (hpos : -1 ≤ iter.pos)
    (hlt : iter.pos < q) (hn : q ≤ iter.pos + n) :
    walk page body n iter l = some (.left value, { pos := q }, l) := by
  have hlen := (List.getElem?_eq_some_iff.mp h.here).1
  induction n generalizing iter with
  | zero => omega
  | succ _ ih =>
    obtain ⟨y, hget, hy⟩ := Iter.get_of_lt { pos := iter.pos + 1 } l (by simp; omega) (by simp; omega)
    rw [walk_succ, Iter.next_of_lt page iter l (by omega)]
    simp only [hget, bind_some]
    by_cases hq : iter.pos + 1 = q
    · simp only [hq, Int.toNat_natCast] at hy ⊢
      obtain rfl := some.inj (h.here.symm.trans hy)
      simp [hbody]
    · have hcast : (((iter.pos + 1).toNat : Nat) : Int) = iter.pos + 1 := by omega
      have hpass := h.passed (iter.pos + 1).toNat (by omega) y hy
      rw [hcast] at hpass
      simp only [hpass, bind_some]
      exact ih (by simp; omega) (by simp; omega) (by simp; omega)

theorem nextPageIdx_contextItems {α : Type} {page : Pages α} {k : Nat} (h : Answers page k) :
    PagedList.nextPageIdx ⟨contextItems page k, -1⟩ = k := by
  cases k with
  | zero => rfl
  | succ k =>
    obtain ⟨items, hitems, hne⟩ := h k (by omega)
    rw [contextItems_succ page hitems, nextPageIdx_fetched ⟨contextItems page k, -1⟩ k items hne]
    rfl

theorem fetched_contextItems {α : Type} {page : Pages α} {k : Nat} (h : Answers page k) :
    Fetched page PagedList.new ⟨contextItems page k, -1⟩ := by
  induction k with
  | zero => exact .refl _
  | succ k ih =>
    have hk : Answers page k := fun i hi => h i (by omega)
    obtain ⟨items, hitems, hne⟩ := h k (by omega)
    have hnext := nextPageIdx_contextItems hk
    refine (ih hk).trans (.next (fetchNextPage_ok_iff.mpr ⟨items, ?_, hne, ?_⟩) (.refl _))
    · rw [hnext, hitems]
    · rw [hnext, contextItems_succ page hitems]

namespace TrackList

variable {g : Rand} {page : Pages ContextTrack} {tl : TrackList}
  {f : Int → ContextTrack → Option Bool}

theorem seek_loaded {q : Nat} (h : SeekHit f tl.tracks.list q) :
    tl.seek page f = some (none, { tl with tracks.pos := q }) := by
  obtain ⟨x, hx, hfx⟩ := h.hit
  have hfound := seekBody_found.mpr hfx
  have hstops : Stops (seekBody f) tl.tracks.list q x :=
    ⟨hx, by simp [hfound], fun i hi y hy => seekBody_next.mpr (h.passed i hi y hy)⟩
  have hq := h.lt_length
  have hwalk : walk page (seekBody f) (walkFuel page tl.tracks) Iter.start tl.tracks =
      some (.left .found, { pos := q }, tl.tracks) := by
    apply walk_loaded hstops hfound
    · exact le_refl _
    · simp only [Iter.start]
      omega
    · simp only [Iter.start, walkFuel]
      omega
  simp [seek, hwalk]

theorem seek_gaveUp {x : PagedListItem ContextTrack} (hx : tl.tracks.list[0]? = some x)
    (hpage : seekMaxPages ≤ x.pageIdx) (hfx : f 0 x.item = some false) :
    tl.seek page f =
      some (some { text := s!"gave up seeking after {x.pageIdx + 1} pages" }, tl) := by
  have hstop : seekBody f (0 : Nat) x = some (some (.gaveUp x.pageIdx)) := by
    simp [seekBody, hfx, hpage]
  have hstops : Stops (seekBody f) tl.tracks.list 0 x := ⟨hx, by rw [hstop]; simp, by omega⟩
  have hwalk : walk page (seekBody f) (walkFuel page tl.tracks) Iter.start tl.tracks =
      some (.left (.gaveUp x.pageIdx), { pos := (0 : Nat) }, tl.tracks) := by
    apply walk_loaded hstops hstop
    · exact le_refl _
    · simp [Iter.start]
    · simp only [Iter.start, walkFuel]
      omega
  simp [seek, hwalk]

/-- Where a loaded track satisfies `f`, the first one is found without a fetch exactly if none of
the tracks before it is on a late page. -/
theorem seek_loaded_iff (page : Pages ContextTrack) (tl : TrackList) {f : ContextTrack → Bool}
    (h : ∃ x ∈ tl.tracks.list, f x.item = true) :
    (tl.seek page (fun _ track => some (f track)) =
        some (none, { tl with tracks.pos := tl.tracks.list.findIdx fun x => f x.item }) ∧
      ¬ (Op.seek page fun _ track => some (f track)).asks tl) ↔
    ∀ x ∈ tl.tracks.list.take (tl.tracks.list.findIdx fun x => f x.item),
      x.pageIdx < seekMaxPages := by
  generalize hq : tl.tracks.list.findIdx (fun x => f x.item) = q
  have hlt : q < tl.tracks.list.length := hq ▸ findIdx_lt_length.mpr h
  constructor
  · rintro ⟨hseek, -⟩ x hx
    obtain ⟨m, -, ⟨p, -, hhit, heq⟩ | ⟨⟨e, he⟩, -⟩⟩ := seek_spec hseek
    · obtain ⟨i, hi, rfl⟩ := mem_take_iff_getElem.mp hx
      have htracks : (⟨tl.tracks.list, q⟩ : PagedList ContextTrack) = ⟨m.list, p⟩ :=
        congrArg TrackList.tracks heq
      obtain ⟨hlist, hpos⟩ := Marked.mk.inj htracks
      refine (hhit.passed i (by omega) _ ?_).2
      rw [← hlist]
      exact getElem?_eq_getElem _
    · simp at he
  · intro hpages
    have hx := getElem?_eq_getElem hlt
    have hfx : f (tl.tracks.list[q]).item = true := by
      subst hq
      exact findIdx_getElem (p := fun x : PagedListItem ContextTrack => f x.item)
    refine ⟨seek_loaded ⟨⟨_, hx, by rw [hfx]⟩, ?_⟩, ?_⟩
    · intro i hi y hy
      obtain ⟨hilt, rfl⟩ := List.getElem?_eq_some_iff.mp hy
      refine ⟨?_, hpages _ (mem_take_iff_getElem.mpr ⟨i, by omega, rfl⟩)⟩
      have hnot := not_of_lt_findIdx (hq ▸ hi)
      simpa using hnot
    · intro hasks
      have hpass := (seekBody_next.mp (hasks q _ (by omega) hx)).1
      simp [hfx] at hpass

/-! ## A late page in front -/

theorem shuffledTo_first (g : Rand) (seed : UInt64) {m : PagedList ContextTrack} (hv : m.Valid)
    (hpos : 0 ≤ m.pos) : (tl.shuffledTo g seed m).tracks.list[0]? = m.entry := by
  have hentry := entry_exchanges m _ (onSwaps_lt g seed hv)
  have hzero : (m.exchanges (onSwaps g seed m)).pos = 0 := by
    have hge := le_pos_exchanges m (shuffleSwaps g seed m) le_rfl hpos
    unfold onSwaps keepOf
    rw [exchanges_append]
    generalize m.exchanges (shuffleSwaps g seed m) = shuffled at hge ⊢
    by_cases hp : shuffled.pos > 0
    · rw [if_pos hp, keepSwap, if_pos hp]
      simp only [exchanges_cons, exchanges_nil, Marked.exchange, follow]
      split_ifs <;> omega
    · rw [if_neg hp]
      simp only [keepSwap, gt_iff_lt, Int.reduceNeg, Int.reduceLT, if_false, exchanges_nil]
      omega
  rw [← hentry, Marked.entry, hzero]
  rfl

def stationTrack (pageIdx : Int) : ContextTrack :=
  { uri := "spotify:track:a", uid := if pageIdx = 0 then "first" else "" }

def station : Pages ContextTrack := fun pageIdx => .ok [stationTrack pageIdx]

theorem answers_station (k : Nat) : Answers station k :=
  fun i _ => ⟨[stationTrack i], rfl, by simp⟩

theorem contextItems_station (k : Nat) :
    contextItems station k = (List.range k).map fun (i : Nat) => ⟨stationTrack i, i, 0⟩ := by
  simp only [contextItems, station, PagedList.pageItems, zipIdx_singleton, map_cons,
    map_nil, ← map_eq_flatMap]
  rfl

def farIn : Op := .seek station fun pos _ => some (pos = seekMaxPages)

def playedFar (k : Nat) : TrackList :=
  { typ := "track", tracks := ⟨contextItems station k, seekMaxPages⟩ }

theorem step_farIn (g : Rand) : ∃ k, seekMaxPages < k ∧
    step g (newTrackList "track") farIn = some (playedFar k) := by
  have hstops : Stops (seekBody fun pos _ => some (pos = (seekMaxPages : Int)))
      (contextItems station (seekMaxPages + 1)) seekMaxPages
      ⟨stationTrack seekMaxPages, seekMaxPages, 0⟩ := by
    refine ⟨by simp [contextItems_station], ?_, fun i hi y hy => seekBody_next.mpr ?_⟩
    · simp [seekBody]
    · rw [contextItems_station] at hy
      obtain ⟨j, hj, rfl⟩ := List.getElem?_eq_some_iff.mp hy
      simp
      omega
  have hfetched : Fetched station (newTrackList "track").tracks
      ⟨contextItems station (seekMaxPages + 1), -1⟩ := fetched_contextItems (answers_station _)
  rcases seek_of_stops le_rfl hfetched hstops (by simp) with ⟨hnone, -⟩ | ⟨l, -, hx, hseek⟩
  · simp at hnone
  · obtain ⟨m, hm, ⟨p, -, -, heq⟩ | ⟨⟨e, he⟩, -⟩⟩ := seek_spec hseek
    · obtain ⟨k, -, hlist, -⟩ := fetched_new hm.fetched
      have htracks : l.list = m.list := congrArg (fun tl => tl.tracks.list) heq
      have hk := (List.getElem?_eq_some_iff.mp hx).1
      rw [htracks, hlist, contextItems_station, length_map, length_range] at hk
      refine ⟨k, hk, ?_⟩
      rw [farIn, step, hseek, htracks, hlist]
      rfl
    · simp at he

section

variable {k : Nat} (hk : seekMaxPages < k)

include hk

theorem valid_playedFar : (playedFar k).tracks.Valid := by
  refine ⟨by simp only [playedFar]; omega, ?_⟩
  simp [playedFar, contextItems_station, hk]

theorem entry_playedFar :
    (playedFar k).tracks.entry = some ⟨stationTrack seekMaxPages, seekMaxPages, 0⟩ := by
  simp [playedFar, Marked.entry, contextItems_station, hk]

theorem fetchAll_playedFar : fetchAll station (playedFar k).tracks = some (playedFar k).tracks := by
  have hlen : (playedFar k).tracks.list.length = k := by simp [playedFar, contextItems_station]
  have hstop : fetchAllBody seekMaxPages ⟨stationTrack seekMaxPages, seekMaxPages, 0⟩ =
      some (some ()) := by
    simp [fetchAllBody]
  have hstops : Stops fetchAllBody (playedFar k).tracks.list seekMaxPages
      ⟨stationTrack seekMaxPages, seekMaxPages, 0⟩ := by
    refine ⟨by simp [playedFar, contextItems_station, hk], by rw [hstop]; simp, fun i hi y hy => ?_⟩
    simp only [playedFar, contextItems_station] at hy
    obtain ⟨j, hj, rfl⟩ := List.getElem?_eq_some_iff.mp hy
    simp [fetchAllBody, hi]
  unfold fetchAll
  rw [walk_loaded hstops hstop (le_refl _) (by simp only [Iter.start]; omega)
    (by simp only [Iter.start, walkFuel, hlen]; omega)]
  rfl

end

/-- Played that far and shuffled, the list still holds the first track of the station. It is not
found: the seek gives up at the current track, which is now in front. -/
theorem first_track_not_found : ∃ tl, exec (step drawZero) (newTrackList "track")
      [farIn, .toggleShuffle station 0 true] = some tl ∧
    (∃ x ∈ tl.tracks.list, x.item.uid = "first") ∧
    tl.seek station (fun _ track => some (track.uid = "first")) =
      some (some { text := "gave up seeking after 257 pages" }, tl) := by
  obtain ⟨k, hk, hfar⟩ := step_farIn drawZero
  have hv := valid_playedFar hk
  have hshuffle : step drawZero (playedFar k) (.toggleShuffle station 0 true) =
      some ((playedFar k).shuffledTo drawZero 1 (playedFar k).tracks) := by
    have hon : (playedFar k).shuffleOn drawZero station 0 =
        some ((playedFar k).shuffledTo drawZero (0 + 1) (playedFar k).tracks) :=
      shuffleOn_eq hv (fetchAll_playedFar hk)
    simp only [step, toggleShuffle, playedFar, Bool.true_eq_false, if_false, if_true] at hon ⊢
    rw [hon]
    rfl
  have hfirst : ((playedFar k).shuffledTo drawZero 1 (playedFar k).tracks).tracks.list[0]? =
      some ⟨stationTrack seekMaxPages, seekMaxPages, 0⟩ :=
    (shuffledTo_first drawZero 1 hv (by simp [playedFar])).trans (entry_playedFar hk)
  refine ⟨_, ?_, ?_, seek_gaveUp hfirst le_rfl rfl⟩
  · exact exec_cons_eq_some.mpr ⟨_, hfar, exec_cons_eq_some.mpr ⟨_, hshuffle, rfl⟩⟩
  · refine ⟨⟨stationTrack 0, 0, 0⟩, ?_, rfl⟩
    refine (perm_exchanges _ _).mem_iff.mpr ?_
    simp only [playedFar, contextItems_station, List.mem_map, mem_range]
    exact ⟨0, by omega, rfl⟩

theorem seek_loaded_iff_second :
    bothLoaded.seek noPages (fun _ track => some (track = trackB)) =
      some (none, { bothLoaded with tracks.pos := 1 }) :=
  ((seek_loaded_iff noPages bothLoaded (f := fun track => track = trackB) (by decide)).mpr
    (by decide)).1

end TrackList

end Librespot.Tracks
