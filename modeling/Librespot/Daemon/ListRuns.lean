import Librespot.Daemon.Follows
import Librespot.Tracks.Positioned

/-!
# The lists of the player are runs of the track list

Whatever the jobs do to a list, they do with the operations of the track list. So
what holds of every list that those operations can reach holds of the player's.
-/

open Base.Run
open Librespot.Tracks List Option

namespace Librespot.Daemon

open TrackList

variable {g : Rand} {a : Answers} {list list' : TrackList}

variable {new : List String}

variable {snap : TrackList.Snapshot} {lists lists' : List TrackList}

theorem snapshot_brings {page : Pages ContextTrack} {nextHint : Option (List ContextTrack)}
    (h : list.snapshot page nextHint = some (snap, list')) : Brings g new list list' := by
  simp only [snapshot, run_eq_some, some.injEq, Prod.mk.injEq, Prod.exists] at h
  obtain ⟨current, -, prev, -, next, tl, hnext, index, -, -, rfl⟩ := h
  exact .of_map (.nextTracks page nextHint) rfl rfl hnext

theorem addToQueue_brings {queued : List ContextTrack} (list : TrackList) (h : uids queued ⊆ new) :
    Brings g new list (queued.foldl (fun list track => list.addToQueue track) list) := by
  induction queued generalizing list with
  | nil => exact .refl list
  | cons track _ ih =>
    obtain ⟨hhead, htail⟩ := cons_subset.mp h
    have hqueued : Brings g new list (list.addToQueue track) :=
      .step (.addToQueue track) (cons_subset.mpr ⟨hhead, nil_subset _⟩) rfl
    exact hqueued.trans (ih _ htail)

def ListWork.uids : ListWork → List String
  | .addToQueue track => [track.uid]
  | .setQueue next => Daemon.uids (queuedFront next)
  | _ => []

theorem walk_brings {work : ListWork} {err : Option Err} {res : Walked}
    (h : work.walk g a list = some (err, res, list')) : Brings g work.uids list list' := by
  cases walks_of_walk h with
  | peeked h => exact .of_map (.peekNext (a.pages 0)) rfl rfl h
  | toggled h => exact .of_map (.toggleShuffle (a.pages 0) (a.draw 0) _) rfl rfl h
  | queued track => exact .step (.addToQueue track) (List.Subset.refl _) rfl
  | queueSet h => exact .step (.setQueue _) (List.Subset.refl _) h
  | wentBack h => exact .of_map .goPrev rfl rfl h
  | sought h => exact .of_map (.trySeekTo (a.pages 0) _) rfl rfl h
  | advanced h => exact .of_map (.goNext (a.pages 0)) rfl rfl h
  | wrapped hnext =>
    exact (Brings.of_map (.goNext (a.pages 0)) rfl rfl hnext).trans (goStart_brings (a.pages 1) _)

theorem resolveContext_brings {job : ResolveJob}
    (h : resolveContext g a job = some (.ok (list, snap))) :
    ∃ typ, Brings g (uids job.queued) (TrackList.newTrackList typ) list := by
  obtain ⟨typ, first, sought, shuffled, hfirst, hsought, hshuffled, hsnap⟩ := resolveContext_spec h
  have hrfirst : Brings g (uids job.queued) (newTrackList typ) first := by
    split at hfirst
    · exact .of_map (.toggleShuffle (a.pages 0) (a.draw 0) job.shuffle) rfl rfl hfirst
    · simp only [some.injEq, Prod.mk.injEq, true_and] at hfirst
      exact hfirst ▸ .refl _
  have hrsought := hrfirst.trans (.of_map (.trySeek (a.pages 1) (a.pages 2) _) rfl rfl hsought)
  have hrshuffled :=
    hrsought.trans (.of_map (.toggleShuffle (a.pages 3) (a.draw 1) job.shuffle) rfl rfl hshuffled)
  have hqueued := hrshuffled.trans (addToQueue_brings shuffled (List.Subset.refl _))
  exact ⟨typ, hqueued.trans (snapshot_brings hsnap)⟩

theorem runTransfer_brings {state : TransferState} {played : Option Context}
    (h : runTransfer g a state = some (.ok (list, snap), played)) :
    ∃ typ, Brings g (uids state.queue) (TrackList.newTrackList typ) list := by
  obtain ⟨refused, typ, h⟩ := runTransfer_spec h
  obtain ⟨sought, shuffled, hsought, hshuffled, hsnap⟩ := runTransferList_spec h
  have hrsought : Brings g (uids state.queue) (newTrackList typ) sought :=
    seekTransferred_brings hsought
  have hrshuffled :=
    hrsought.trans (.of_map (.toggleShuffle (a.pages 2) (a.draw 0) _) rfl rfl hshuffled)
  have hqueued := hrshuffled.trans (addToQueue_brings shuffled (List.Subset.refl _))
  have hplaying :=
    hqueued.trans (.step (.setPlayingQueue state.isPlayingQueue) (nil_subset _) rfl)
  exact ⟨typ, hplaying.trans (snapshot_brings hsnap)⟩

def Built (g : Rand) (list : TrackList) : Prop :=
  ∃ typ, Runs g (TrackList.newTrackList typ) list

theorem Built.runs (h : Built g list) (hruns : Runs g list list') : Built g list' := by
  obtain ⟨typ, ops, h⟩ := h
  obtain ⟨ops', hruns⟩ := hruns
  exact ⟨typ, ops ++ ops', by rw [exec_append, h, bind_some, hruns]⟩

theorem Built.upcomingQueue (h : Built g list) : list.upcomingQueue.isSome = true := by
  obtain ⟨typ, ops, h⟩ := h
  have hqueued := TrackList.reachable_queued h
  unfold TrackList.upcomingQueue
  split
  · rename_i hplaying
    rw [if_neg (hqueued hplaying)]
    rfl
  · rfl

theorem built_set {id : ListId} (hlists : ∀ l ∈ lists, Built g l) (h : Built g list) :
    ∀ l ∈ lists.set id list, Built g l := by
  intro l hl
  rcases mem_or_eq_of_mem_set hl with hl | rfl
  · exact hlists l hl
  · exact h

theorem built_append (hlists : ∀ l ∈ lists, Built g l) (h : Built g list) :
    ∀ l ∈ lists ++ [list], Built g l := by
  intro l hl
  rcases mem_append.mp hl with hl | hl
  · exact hlists l hl
  · exact mem_singleton.mp hl ▸ h

def Commit.brings : Commit → Option (ListId × List String)
  | .resolved job list _ => some (list, uids job.queued)
  | .transferred job list _ _ => some (list, uids job.state.queue)
  | _ => none

inductive Work.Remakes (g : Rand) (lists : List TrackList) : Work → Commit → List TrackList → Prop
  | nothing (work : Work) (commit : Commit) (hbrings : commit.brings = none) :
      Remakes g lists work commit lists
  | walked {id : ListId} {work : ListWork} {commit : Commit} {list list' : TrackList}
      (hid : lists[id]? = some list) (hlist : Brings g work.uids list list')
      (hbrings : commit.brings = none) : Remakes g lists (.list id work) commit (lists.set id list')
  | new {work : Work} {commit : Commit} {uids : List String} {typ : SpotifyIdType}
      {list : TrackList} (hlist : Brings g uids (TrackList.newTrackList typ) list)
      (hbrings : commit.brings = some (lists.length, uids)) :
      Remakes g lists work commit (lists ++ [list])

theorem runWork_remakes {work : Work} {commit : Commit}
    (h : runWork g a lists work = some (commit, lists')) : work.Remakes g lists commit lists' := by
  cases ends_of_runWork h with
  | resolved hnew =>
    obtain ⟨typ, hlist⟩ := resolveContext_brings hnew
    exact .new hlist rfl
  | transferred hnew =>
    obtain ⟨typ, hlist⟩ := runTransfer_brings hnew
    exact .new hlist rfl
  | walkFailed hid hwalk => exact .walked hid (walk_brings hwalk) rfl
  | walked hid hwalk hsnap =>
    exact .walked hid ((walk_brings hwalk).trans (snapshot_brings hsnap)) rfl
  | _ => exact .nothing _ _ rfl

theorem runWork_built {work : Work} {commit : Commit} (hlists : ∀ l ∈ lists, Built g l)
    (h : runWork g a lists work = some (commit, lists')) : ∀ l ∈ lists', Built g l := by
  cases runWork_remakes h with
  | nothing => exact hlists
  | walked hid hlist =>
    exact built_set hlists ((hlists _ (mem_of_getElem? hid)).runs hlist.runs)
  | new hlist => exact built_append hlists ⟨_, hlist.runs⟩

namespace AppPlayer

variable {cfg : Config} {p p' : AppPlayer}

theorem step_built {op : Op} (hlists : ∀ l ∈ p.lists, Built g l)
    (h : p.step cfg g op = some p') : ∀ l ∈ p'.lists, Built g l := by
  cases op with
  | finish =>
    obtain ⟨job, commit, lists, -, hrun, rfl⟩ := finish_spec h
    exact runWork_built hlists hrun
  | event =>
    obtain ⟨pending, draining, he⟩ := step_effect h
    have hsame : p'.lists = p.lists := he.ends.follows.lists
    exact hsame ▸ hlists
  | _ =>
    have hsame : p'.lists = p.lists := (step_follows h (by simp) (by simp)).lists
    exact hsame ▸ hlists

end AppPlayer

end Librespot.Daemon
