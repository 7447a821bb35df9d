import Librespot.Tracks.Landing

/-!
# The order a controller sets

A controller sends the whole list of upcoming tracks. `SetQueue` takes the queued ones off its
front, and `NextTracks` shows the queue and then what the controller sent behind it.
-/

open Base.Exchange Base.Run List Option

namespace Librespot

theorem Metadata.get_delete (m : Metadata) (key : String) : (m.delete key).get key = "" := by
  have hnone : (m.delete key).lookup key = none := by
    rw [lookup_eq_none_iff]
    rintro ⟨k, v⟩ hk
    have hne : k ≠ key := by simpa using (mem_filter.mp hk).2
    simpa using hne.symm
  simp [Metadata.get, hnone]

def Named (track : ContextTrack) : Prop := track.uri ≠ "" ∨ track.gid.length = 16

variable {track : ContextTrack} {typ : SpotifyIdType}

theorem provided_of_named (typ : SpotifyIdType) (h : Named track) :
    ∃ shown, contextTrackToProvidedTrack typ track = some shown := by
  unfold contextTrackToProvidedTrack
  by_cases huri : track.uri = ""
  · have hlen := h.resolve_left (not_not.mpr huri)
    have hne : track.gid ≠ [] := fun hnil => by simp [hnil] at hlen
    obtain ⟨uri, hgid⟩ := isSome_iff_exists.mp (gidUri_isSome typ hlen)
    simp [huri, hne, hgid]
  · simp [huri]

theorem provider_of_provided {shown : ProvidedTrack}
    (h : contextTrackToProvidedTrack typ track = some shown) :
    shown.provider = if track.metadata.get "is_queued" = "true" then "queue"
      else if track.metadata.get "autoplay.is_autoplay" = "true" then "autoplay" else "context" := by
  unfold contextTrackToProvidedTrack at h
  by_cases huri : track.uri = ""
  · by_cases hgid : track.gid = []
    · simp [huri, hgid] at h
    · simp only [huri, hgid, ne_eq, not_true_eq_false, not_false_eq_true, if_false, if_true,
        run_eq_some, Option.pure_def, some.injEq] at h
      obtain ⟨uri, -, rfl⟩ := h
      rfl
  · simp only [huri, ne_eq, not_false_eq_true, if_true, bind_eq_bind, bind_some,
      Option.pure_def, some.injEq] at h
    rw [← h]

theorem provider_eq_queue {shown : ProvidedTrack}
    (h : contextTrackToProvidedTrack typ track = some shown) :
    shown.provider = "queue" ↔ track.metadata.get "is_queued" = "true" := by
  rw [provider_of_provided h]
  split
  · simp_all
  · split <;> simp_all

namespace Tracks.TrackList

variable {tl tl' : TrackList} {next : List ContextTrack}

theorem unqueued_named (h : Named track) : Named (unqueued track) := h

theorem unqueued_not_queued (track : ContextTrack) :
    (unqueued track).metadata.get "is_queued" ≠ "true" := by
  unfold unqueued
  rw [Metadata.get_delete]
  decide

theorem provide_total (typ : SpotifyIdType) {tracks : List ContextTrack}
    (h : ∀ track ∈ tracks, Named track) : ∃ window, provide typ tracks = some window := by
  induction tracks with
  | nil => exact ⟨[], rfl⟩
  | cons track _ ih =>
    obtain ⟨first, hfirst⟩ := provided_of_named typ (h track mem_cons_self)
    obtain ⟨rest, hrest⟩ := ih fun track htrack => h track (mem_cons_of_mem _ htrack)
    exact ⟨first :: rest, by rw [provide_cons, hfirst, hrest]; rfl⟩

/-! ## The queue and what is behind it -/

def markedQueued (track : ContextTrack) : Bool := track.metadata.get "is_queued" = "true"

def inOrderOf (next : List ContextTrack) : List ContextTrack :=
  next.takeWhile markedQueued ++ (next.dropWhile markedQueued).map unqueued

theorem setQueue_total (hq : tl.playingQueue = true → tl.queue ≠ []) (next : List ContextTrack) :
    ∃ tl', tl.setQueue next = some tl' := by
  unfold setQueue
  rw [if_neg fun h => hq h.1 h.2]
  exact ⟨_, rfl⟩

theorem setQueue_spec (h : tl.setQueue next = some tl') :
    tl'.waiting = next.takeWhile markedQueued ∧ tl'.current = tl.current ∧ tl'.typ = tl.typ ∧
      tl'.tracks = tl.tracks ∧ tl'.playingQueue = tl.playingQueue := by
  unfold setQueue at h
  by_cases hs : tl.playingQueue ∧ tl.queue = []
  · simp [hs] at h
  rw [if_neg hs, some.injEq] at h
  subst h
  have hfront : (next.takeWhile fun track => track.metadata.get "is_queued" = "true") =
    next.takeWhile markedQueued := rfl
  cases hp : tl.playingQueue with
  | false => simp [waiting, current, hp, hfront]
  | true =>
    rcases hqueue : tl.queue with _ | ⟨first, rest⟩
    · exact absurd ⟨hp, hqueue⟩ hs
    · simp [waiting, current, hp, hqueue, hfront]

theorem shown_inOrderOf (page : Pages ContextTrack) (h : tl.waiting = next.takeWhile markedQueued) :
    tl.shown page (some next) = (inOrderOf next).take maxTracksInContext := by
  have hdrop : next.drop (next.takeWhile markedQueued).length = next.dropWhile markedQueued := by
    nth_rewrite 2 [← takeWhile_append_dropWhile (p := markedQueued) (l := next)]
    rw [drop_left]
  simp only [shown, inOrderOf]
  rw [h, hdrop, take_append, map_take]

theorem getElem?_inOrderOf (next : List ContextTrack) (i : Nat) :
    (inOrderOf next)[i]? = next[i]?.map fun track =>
      if i < (next.takeWhile markedQueued).length then track else unqueued track := by
  unfold inOrderOf
  have hsplit := takeWhile_append_dropWhile (p := markedQueued) (l := next)
  generalize next.takeWhile markedQueued = front at hsplit ⊢
  generalize next.dropWhile markedQueued = back at hsplit ⊢
  subst hsplit
  rcases lt_or_ge i front.length with hi | hi
  · simp [getElem?_append_left hi, hi]
  · simp [getElem?_append_right hi, not_lt.mpr hi]

theorem named_inOrderOf (h : ∀ track ∈ next, Named track) :
    ∀ track ∈ inOrderOf next, Named track := by
  intro track htrack
  rcases mem_append.mp htrack with hfront | hback
  · exact h track ((takeWhile_sublist _).subset hfront)
  · obtain ⟨track, hmem, rfl⟩ := List.mem_map.mp hback
    exact unqueued_named (h track ((dropWhile_suffix _).subset hmem))

theorem marked_of_lt {i : Nat} (hget : next[i]? = some track)
    (hi : i < (next.takeWhile markedQueued).length) : track.metadata.get "is_queued" = "true" := by
  have hmem : track ∈ next.takeWhile markedQueued := by
    rw [← takeWhile_append_dropWhile (p := markedQueued) (l := next),
      getElem?_append_left hi] at hget
    exact mem_of_getElem? hget
  have hmarked := List.all_eq_true.mp all_takeWhile track hmem
  simpa [markedQueued] using hmarked

theorem nextTracks_setQueue {g : Rand} {ops : List Op}
    (hrun : exec (step g) (newTrackList typ) ops = some tl) (page : Pages ContextTrack)
    (hnamed : ∀ track ∈ next, Named track) :
    ∃ tl' tracks, tl.setQueue next = some tl' ∧
      tl'.nextTracks page (some next) = some (tracks, tl') ∧
      tracks.length = min 32 next.length ∧
      (∀ (i : Nat) track, i < 32 → next[i]? = some track → ∃ shown, tracks[i]? = some shown ∧
        contextTrackToProvidedTrack tl.typ
          (if i < (next.takeWhile markedQueued).length then track else unqueued track) =
          some shown ∧
        (shown.provider = "queue" ↔ i < (next.takeWhile markedQueued).length)) ∧
      tl'.current = tl.current ∧ tl'.tracks = tl.tracks ∧
      tl'.playingQueue = tl.playingQueue := by
  obtain ⟨tl', hset⟩ := setQueue_total (reachable_queued hrun) next
  obtain ⟨hwaiting, hcurrent, htyp, htracks, hplaying⟩ := setQueue_spec hset
  have htake : ∀ track ∈ (inOrderOf next).take maxTracksInContext, Named track :=
    fun track htrack => named_inOrderOf hnamed track (mem_of_mem_take htrack)
  obtain ⟨tracks, hprovide⟩ := provide_total tl.typ htake
  refine ⟨tl', tracks, hset, ?_, ?_, ?_, hcurrent, htracks, hplaying⟩
  · rw [nextTracks_hint, shown_inOrderOf page hwaiting, htyp, hprovide]
    rfl
  · have hlen : (inOrderOf next).length = next.length := by
      rw [inOrderOf, length_append, length_map, ← length_append, takeWhile_append_dropWhile]
    rw [length_of_mapM hprovide, length_take, hlen]
    rfl
  · intro i track hi hget
    have hmax : i < maxTracksInContext := hi
    have hshown : tracks[i]? = contextTrackToProvidedTrack tl.typ
        (if i < (next.takeWhile markedQueued).length then track else unqueued track) := by
      rw [getElem?_of_provide hprovide, getElem?_take_of_lt hmax, getElem?_inOrderOf, hget]
      rfl
    have htrack := hnamed track (mem_of_getElem? hget)
    by_cases hfront : i < (next.takeWhile markedQueued).length
    · simp only [hfront, if_true, iff_true] at hshown ⊢
      obtain ⟨shown, hs⟩ := provided_of_named tl.typ htrack
      have hmark := marked_of_lt hget hfront
      exact ⟨shown, hshown.trans hs, hs, (provider_eq_queue hs).mpr hmark⟩
    · simp only [hfront, if_false, iff_false] at hshown ⊢
      obtain ⟨shown, hs⟩ := provided_of_named tl.typ (unqueued_named htrack)
      have hmark := unqueued_not_queued track
      exact ⟨shown, hshown.trans hs, hs, fun hq => hmark ((provider_eq_queue hs).mp hq)⟩

def queuedD : ContextTrack := { uri := "spotify:track:d", metadata := [("is_queued", "true")] }

theorem nextTracks_setQueue_front :
    exec (step drawZero) (newTrackList "track") [.goStart twoPages, .addToQueue trackB] =
      some queuedStart ∧
    ∃ tl' tracks, queuedStart.setQueue [queuedD, trackA, queuedD] = some tl' ∧
      tl'.nextTracks twoPages (some [queuedD, trackA, queuedD]) = some (tracks, tl') ∧
      tracks.length = 3 := by
  have hrun : exec (step drawZero) (newTrackList "track")
      [.goStart twoPages, .addToQueue trackB] = some queuedStart := by decide +kernel
  have hnamed : ∀ track ∈ [queuedD, trackA, queuedD], Named track := by
    simp [Named, queuedD, trackA]
  obtain ⟨tl', tracks, hset, hnext, hlen, -⟩ := nextTracks_setQueue hrun twoPages hnamed
  exact ⟨hrun, tl', tracks, hset, hnext, hlen⟩

end Tracks.TrackList

end Librespot
