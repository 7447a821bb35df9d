import Librespot.Daemon.ListRuns

/-!
# What a walk does to the queue

A change of the queue changes it as it says. Every other walk leaves the queued
tracks that still wait alone, or moves on past the first of them.
-/

open Base.Run
open Librespot.Tracks
open Librespot.Tracks.TrackList (SameQueue)

namespace Librespot.Daemon

open TrackList

/-- What tells a queued track from another. The metadata are not part of it: they are changed to
mark the track as queued. -/
abbrev Entry := String × String × Bytes

def entry (track : ContextTrack) : Entry := (track.uri, track.uid, track.gid)

def entries (queue : List ContextTrack) : List Entry := queue.map entry

def ListWork.isEdit : ListWork → Bool
  | .addToQueue _ | .setQueue _ => true
  | _ => false

def ListWork.edit (queue : List Entry) : ListWork → List Entry
  | .addToQueue track => queue ++ [entry track]
  | .setQueue next => entries (queuedFront next)
  | _ => queue

theorem foldl_edit_cases (works : List ListWork) :
    (∃ queue, ∀ q, works.foldl ListWork.edit q = queue) ∨
    ∃ added, ∀ q, works.foldl ListWork.edit q = q ++ added := by
  induction works with
  | nil => exact .inr ⟨[], fun q => (List.append_nil q).symm⟩
  | cons work _ ih =>
    simp only [List.foldl_cons]
    rcases ih with ⟨queue, hqueue⟩ | ⟨added, hadded⟩
    · exact .inl ⟨queue, fun q => hqueue _⟩
    · cases work with
      | addToQueue track =>
        refine .inr ⟨entry track :: added, fun q => ?_⟩
        rw [hadded, ListWork.edit, List.append_assoc, List.singleton_append]
      | setQueue next => exact .inl ⟨entries (queuedFront next) ++ added, fun q => hadded _⟩
      | _ => exact .inr ⟨added, hadded⟩

theorem foldl_edit_mono (works : List ListWork) {queue queue' : List Entry}
    (h : queue.Sublist queue') :
    (works.foldl ListWork.edit queue).Sublist (works.foldl ListWork.edit queue') := by
  rcases foldl_edit_cases works with ⟨last, hlast⟩ | ⟨added, hadded⟩
  · rw [hlast, hlast]
  · rw [hadded, hadded]
    exact h.append_right added

theorem append_diff_left (passed rest : List Entry) : (passed ++ rest).diff passed = rest := by
  induction passed with
  | nil => simp
  | cons _ _ ih => simpa using ih

theorem diff_sublist_foldl_edit (works : List ListWork) {owed passed rest : List Entry}
    (h : owed.Sublist (works.foldl ListWork.edit (passed ++ rest))) :
    (owed.diff passed).Sublist (works.foldl ListWork.edit rest) := by
  rcases foldl_edit_cases works with ⟨last, hlast⟩ | ⟨added, hadded⟩
  · rw [hlast] at h ⊢
    exact (List.diff_sublist owed passed).trans h
  · rw [hadded, List.append_assoc] at h
    rw [hadded]
    have hdiff : (owed.diff passed).Sublist ((passed ++ (rest ++ added)).diff passed) :=
      h.diff_right
    rwa [append_diff_left] at hdiff

variable {g : Rand} {a : Answers} {list list' : TrackList}

theorem waiting_of_sameQueue (h : SameQueue list list') : list'.waiting = list.waiting := by
  rw [waiting, waiting, h.1, h.2]

theorem waiting_of_upcomingQueue {queued : List ContextTrack}
    (h : list.upcomingQueue = some queued) : list.waiting = queued := by
  unfold upcomingQueue at h
  unfold waiting
  split_ifs at h ⊢ <;> exact Option.some.inj h

variable {page : Pages ContextTrack} {err : Option Err} {snap : TrackList.Snapshot}
  {next : List ContextTrack}

theorem snapshot_waiting {nextHint : Option (List ContextTrack)}
    (h : list.snapshot page nextHint = some (snap, list')) : list'.waiting = list.waiting := by
  simp only [snapshot, Option.bind_eq_bind, Option.bind_eq_some_iff, Option.some.injEq,
    Prod.mk.injEq, Prod.exists] at h
  obtain ⟨current, -, prev, -, next, tl, hnext, index, -, -, rfl⟩ := h
  exact waiting_of_sameQueue (nextTracks_loads hnext).1

theorem addToQueue_waiting (track : ContextTrack)
    (hq : list.playingQueue = true → list.queue ≠ []) :
    entries (list.addToQueue track).waiting = entries list.waiting ++ [entry track] := by
  unfold waiting addToQueue entries
  cases hp : list.playingQueue with
  | false => simp [entry]
  | true =>
    obtain ⟨first, rest, hqueue⟩ := List.exists_cons_of_ne_nil (hq hp)
    simp [hqueue, entry]

theorem setQueue_waiting (h : list.setQueue next = some list') :
    list'.waiting = queuedFront (some next) := by
  unfold setQueue at h
  by_cases hs : list.playingQueue ∧ list.queue = []
  · simp [hs] at h
  rw [if_neg hs, Option.some.injEq] at h
  subst h
  unfold waiting queuedFront
  cases hp : list.playingQueue with
  | false => simp
  | true =>
    rcases hqueue : list.queue with _ | ⟨first, rest⟩
    · exact absurd ⟨hp, hqueue⟩ hs
    · simp

theorem walk_edit {work : ListWork} {res : Walked} (hwork : work.isEdit = true)
    (hq : list.playingQueue = true → list.queue ≠ [])
    (h : work.walk g a list = some (err, res, list')) :
    err = none ∧ entries list'.waiting = work.edit (entries list.waiting) := by
  cases work with
  | addToQueue track =>
    simp only [ListWork.walk, Option.some.injEq, Prod.mk.injEq] at h
    obtain ⟨rfl, -, rfl⟩ := h
    exact ⟨rfl, addToQueue_waiting track hq⟩
  | setQueue =>
    simp only [ListWork.walk, Option.bind_eq_bind, Option.bind_eq_some_iff, Option.some.injEq,
      Prod.mk.injEq] at h
    obtain ⟨tl, hset, rfl, -, rfl⟩ := h
    exact ⟨rfl, congrArg entries (setQueue_waiting hset)⟩
  | _ => simp [ListWork.isEdit] at hwork

theorem goNext_waiting {moved : Bool} (h : list.goNext page = some (moved, list')) :
    list'.waiting = list.waiting.tail := by
  obtain ⟨hqueue, hplaying⟩ := goNext_queue h
  rw [← hqueue, waiting]
  split
  · rfl
  · rename_i hoff
    have hnil : list'.queue = [] := by simpa [hplaying] using hoff
    rw [hnil, List.tail_nil]

theorem goPrev_waiting {moved : Bool} (h : list.goPrev = some (moved, list')) :
    list.waiting.Sublist list'.waiting := by
  obtain ⟨hqueue, hplaying, -⟩ := goPrev_pos h
  have hall : list'.waiting = list.queue := by simp [waiting, hplaying, hqueue]
  rw [hall]
  exact list.waiting_suffix.sublist

theorem trySeekTo_waiting {track : ContextTrack}
    (h : list.trySeekTo page track = some (err, list')) : list'.queue <:+ list.waiting := by
  rcases trySeekTo_queue h with ⟨queue, -, hqueue, rfl⟩ | ⟨-, hqueue⟩
  · exact hqueue
  · rw [hqueue]

theorem walk_moves {work : ListWork} {res : Walked} (hwork : work.isEdit = false)
    (hv : list.tracks.Valid) (h : work.walk g a list = some (err, res, list')) :
    list'.waiting <:+ list.waiting ∨ list.waiting.Sublist list'.waiting := by
  have hsame (hq : SameQueue list list') : list'.waiting <:+ list.waiting :=
    waiting_of_sameQueue hq ▸ List.suffix_refl _
  cases walks_of_walk h with
  | queued | queueSet => simp [ListWork.isEdit] at hwork
  | peeked hpeek => exact .inl (hsame (peekNext_loads hpeek).1)
  | toggled htoggle => exact .inl (hsame (toggleShuffle_keeps hv htoggle).1)
  | wentBack hprev => exact .inr (goPrev_waiting hprev)
  | sought hseek => exact .inl (list'.waiting_suffix.trans (trySeekTo_waiting hseek))
  | advanced hnext => exact .inl (goNext_waiting hnext ▸ List.tail_suffix _)
  | wrapped hnext =>
    left
    rw [waiting_of_sameQueue goStart_sameQueue, goNext_waiting hnext]
    exact List.tail_suffix _

/-! ## What a run puts into the queue -/

theorem setQueue_uids (h : list.setQueue next = some list') :
    uids list'.queue ⊆ uids list.queue ++ uids (queuedFront (some next)) := by
  unfold setQueue at h
  split at h
  · simp at h
  · cases h
    simp only [uids, List.map_append]
    have hfront : (if list.playingQueue then list.queue.take 1 else []) ⊆ list.queue := by
      split
      · exact List.take_subset _ _
      · exact List.nil_subset _
    exact List.append_subset.mpr ⟨List.subset_append_of_subset_left _ (List.map_subset _ hfront),
      List.subset_append_right _ _⟩

theorem step_uids {op : TrackList.Op} (hv : list.tracks.Valid)
    (h : TrackList.step g list op = some list') :
    uids list'.queue ⊆ uids list.queue ++ queuedUids op := by
  have hsame (hq : list'.queue ⊆ list.queue) : uids list'.queue ⊆ uids list.queue ++ queuedUids op :=
    List.subset_append_of_subset_left _ (List.map_subset _ hq)
  cases op with
  | addToQueue =>
    cases h
    simp [addToQueue, uids, queuedUids]
  | setQueue => exact setQueue_uids h
  | setPlayingQueue => exact hsame (Option.some.inj h ▸ List.Subset.refl _)
  | goStart page =>
    cases h
    have hq : SameQueue list (list.goStart page).2 := goStart_sameQueue
    exact hsame (by rw [hq.1]; exact List.Subset.refl _)
  | seek =>
    obtain ⟨_, h⟩ := Option.map_snd_eq_some.mp h
    exact hsame ((seek_sameQueue h).1 ▸ List.Subset.refl _)
  | trySeek =>
    obtain ⟨_, h⟩ := Option.map_snd_eq_some.mp h
    exact hsame ((trySeek_sameQueue h).1 ▸ List.Subset.refl _)
  | trySeekTo =>
    obtain ⟨_, h⟩ := Option.map_snd_eq_some.mp h
    exact hsame (((trySeekTo_waiting h).trans list.waiting_suffix).subset)
  | goNext =>
    obtain ⟨_, h⟩ := Option.map_snd_eq_some.mp h
    exact hsame ((goNext_queue h).1 ▸ list.waiting_suffix.subset)
  | goPrev =>
    obtain ⟨_, h⟩ := Option.map_snd_eq_some.mp h
    exact hsame ((goPrev_pos h).1 ▸ List.Subset.refl _)
  | peekNext =>
    obtain ⟨_, h⟩ := Option.map_snd_eq_some.mp h
    exact hsame ((peekNext_loads h).1.1 ▸ List.Subset.refl _)
  | nextTracks =>
    obtain ⟨_, h⟩ := Option.map_snd_eq_some.mp h
    exact hsame ((nextTracks_loads h).1.1 ▸ List.Subset.refl _)
  | toggleShuffle =>
    obtain ⟨_, h⟩ := Option.map_snd_eq_some.mp h
    exact hsame ((toggleShuffle_keeps hv h).1.1 ▸ List.Subset.refl _)

theorem Brings.uids {new : List String} (hv : list.tracks.Valid) (h : Brings g new list list') :
    Daemon.uids list'.queue ⊆ Daemon.uids list.queue ++ new := by
  obtain ⟨ops, hrun, hops⟩ := h
  have hinv : list'.tracks.Valid ∧ Daemon.uids list'.queue ⊆ Daemon.uids list.queue ++ new := by
    refine exec_invariant_of_labels
      (I := fun tl => tl.tracks.Valid ∧ Daemon.uids tl.queue ⊆ Daemon.uids list.queue ++ new)
      (L := fun op => queuedUids op ⊆ new) ?_ ⟨hv, List.subset_append_left _ _⟩ hops hrun
    intro tl op tl' htl hop hstep
    refine ⟨step_valid htl.1 hstep, List.Subset.trans (step_uids htl.1 hstep) ?_⟩
    exact List.append_subset.mpr ⟨htl.2, List.subset_append_of_subset_right _ hop⟩
  exact hinv.2

theorem foldl_addToQueue_waiting (queued : List ContextTrack) (list : TrackList)
    (hplaying : list.playingQueue = false) :
    entries (queued.foldl (fun list track => list.addToQueue track) list).waiting =
      entries list.waiting ++ entries queued := by
  induction queued generalizing list with
  | nil => simp [entries]
  | cons track _ ih =>
    rw [List.foldl_cons, ih (list.addToQueue track) hplaying,
      addToQueue_waiting track (by simp [hplaying]), List.append_assoc]
    rfl

theorem resolveContext_waiting {job : ResolveJob}
    (h : resolveContext g a job = some (.ok (list, snap))) :
    entries list.waiting = entries job.queued := by
  obtain ⟨typ, first, sought, shuffled, hfirst, hsought, hshuffled, hsnap⟩ := resolveContext_spec h
  have hnew : (newTrackList typ).tracks.Valid := valid_new
  have hfirst : first.tracks.Valid ∧ SameQueue (newTrackList typ) first := by
    split at hfirst
    · exact ⟨(toggleShuffle_flag hnew hfirst).1, (toggleShuffle_keeps hnew hfirst).1⟩
    · simp only [Option.some.injEq, Prod.mk.injEq, true_and] at hfirst
      exact hfirst ▸ ⟨hnew, rfl, rfl⟩
  obtain ⟨hvfirst, hqfirst⟩ := hfirst
  have hvsought := (trySeek_moved hvfirst hsought).valid
  have hqsought := trySeek_sameQueue hsought
  have hqshuffled := (toggleShuffle_keeps hvsought hshuffled).1
  have hqueue : shuffled.queue = [] := by rw [hqshuffled.1, hqsought.1, hqfirst.1]; rfl
  have hplaying : shuffled.playingQueue = false := by
    rw [hqshuffled.2, hqsought.2, hqfirst.2]
    rfl
  rw [snapshot_waiting hsnap, foldl_addToQueue_waiting job.queued shuffled hplaying,
    waiting, hplaying, if_neg Bool.false_ne_true, hqueue]
  rfl

end Librespot.Daemon
