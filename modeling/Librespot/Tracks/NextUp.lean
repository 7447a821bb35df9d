import Librespot.Tracks.Accessors

/-!
# The track that comes next

As long as it is there, no page has to be fetched to see it, and fetching pages does not
change it.
-/

open Base.Exchange Option

namespace Librespot.Tracks.TrackList

variable {tl tl' : TrackList} {page : Pages ContextTrack} {track : ContextTrack}

def nextUp (tl : TrackList) : Option ContextTrack :=
  match tl.waiting with
  | track :: _ => some track
  | [] =>
    if tl.tracks.pos < 0 then none
    else tl.tracks.list[(tl.tracks.pos + 1).toNat]?.map fun curr => curr.item

theorem nextUp_queued {rest : List ContextTrack} (hw : tl.waiting = track :: rest) :
    tl.nextUp = some track := by
  simp [nextUp, hw]

theorem nextUp_context (hw : tl.waiting = []) (h0 : 0 ≤ tl.tracks.pos) : tl.nextUp =
    tl.tracks.list[(tl.tracks.pos + 1).toNat]?.map fun curr => curr.item := by
  simp [nextUp, hw, h0.not_gt]

theorem nextUp_congr (hq : SameQueue tl tl') (htracks : tl'.tracks = tl.tracks) :
    tl'.nextUp = tl.nextUp := by
  unfold nextUp waiting
  rw [hq.1, hq.2, htracks]

theorem nextUp_fetched {l : PagedList ContextTrack} (hf : Fetched page tl.tracks l)
    (h : tl.nextUp = some track) : { tl with tracks := l }.nextUp = some track := by
  unfold nextUp at h ⊢
  have hw : ({ tl with tracks := l } : TrackList).waiting = tl.waiting := rfl
  rw [hw]
  split at h
  · exact h
  · simp only [hf.pos_eq]
    split at h
    · simp at h
    · rename_i hpos
      rw [if_neg hpos]
      obtain ⟨curr, hcurr, rfl⟩ := map_eq_some_iff.mp h
      have hlt := (List.getElem?_eq_some_iff.mp hcurr).1
      rw [hf.getElem? hlt, hcurr]
      rfl

section Reachable

variable (hq : tl.playingQueue = true → tl.queue ≠ []) (hv : tl.tracks.Valid)

include hq hv

theorem peekNext_of_nextUp (page : Pages ContextTrack) (h : tl.nextUp = some track) :
    tl.peekNext page = some (some track, tl) := by
  cases hw : tl.waiting with
  | cons =>
    rw [nextUp_queued hw] at h
    rw [peekNext_queued hw, h]
  | nil =>
    have h0 : 0 ≤ tl.tracks.pos := by
      by_contra hneg
      simp [nextUp, hw, not_le.mp hneg] at h
    rw [nextUp_context hw h0] at h
    obtain ⟨curr, hcurr, rfl⟩ := map_eq_some_iff.mp h
    have hlt : tl.tracks.pos + 1 < tl.tracks.list.length := by
      have := (List.getElem?_eq_some_iff.mp hcurr).1
      omega
    have hnext := Iter.next_of_lt page { pos := tl.tracks.pos } tl.tracks hlt
    obtain ⟨x, hget, hx⟩ :=
      Iter.get_of_lt { pos := tl.tracks.pos + 1 } tl.tracks (by simp only; omega) hlt
    obtain rfl : curr = x := by simpa [hcurr] using hx
    rw [peekNext_context (.of_valid hq hv h0) hw hnext, if_pos rfl, hget]
    rfl

theorem peekNext_fetched {next : Option ContextTrack} (h : tl.peekNext page = some (next, tl')) :
    (∃ l, Fetched page tl.tracks l ∧ tl' = { tl with tracks := l }) ∧
      ∀ track, next = some track → tl'.nextUp = some track := by
  cases hw : tl.waiting with
  | cons =>
    rw [peekNext_queued hw, some.injEq, Prod.mk.injEq] at h
    obtain ⟨rfl, rfl⟩ := h
    exact ⟨⟨tl.tracks, .refl _, rfl⟩, fun track ht => (nextUp_queued hw).trans ht⟩
  | nil =>
    have h0 : 0 ≤ tl.tracks.pos := by
      unfold peekNext at h
      rw [if_neg (not_queued hw).1, if_neg (not_queued hw).2, run_eq_some] at h
      obtain ⟨iter, hiter, -⟩ := h
      exact (here_eq_some hiter).1
    rcases next_or_get page h0 hv.lt with ⟨iter, l, hn, hf⟩ | ⟨l, curr, hn, hf, hlt, hg⟩
    · rw [peekNext_context (.of_valid hq hv h0) hw hn, if_neg Bool.false_ne_true] at h
      cases h
      exact ⟨⟨l, hf, rfl⟩, by simp⟩
    · rw [peekNext_context (.of_valid hq hv h0) hw hn, if_pos rfl, hg] at h
      cases h
      refine ⟨⟨l, hf, rfl⟩, fun track ht => ?_⟩
      obtain ⟨x, hget, hx⟩ := Iter.get_of_lt { pos := tl.tracks.pos + 1 } l (by simp only; omega) hlt
      have hpos : ({ tl with tracks := l } : TrackList).tracks.pos = tl.tracks.pos := hf.pos_eq
      rw [nextUp_context (by exact hw) (by rwa [hpos]), hpos, ← ht]
      simp only [hx, map_some, some.injEq]
      rw [hg, some.injEq] at hget
      rw [hget]

theorem nextUp_of_peekNext (h : ∀ page, ∃ tl', tl.peekNext page = some (some track, tl')) :
    tl.nextUp = some track := by
  obtain ⟨tl', hpeek⟩ := h fun _ => .error { text := "" }
  obtain ⟨⟨l, hf, rfl⟩, hnext⟩ := peekNext_fetched hq hv hpeek
  have hl : l = tl.tracks := by
    cases hf with
    | refl => rfl
    | next hfetch =>
      unfold PagedList.fetchNextPage at hfetch
      simp at hfetch
  rw [← hnext track rfl, hl]

end Reachable

end Librespot.Tracks.TrackList
