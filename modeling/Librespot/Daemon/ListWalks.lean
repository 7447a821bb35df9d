import Librespot.Daemon.Jobs
import Librespot.Tracks.Toggle

/-!
# What the jobs do to the track lists

The list's own flag is what the player's shuffle option has to agree with. Only a shuffle
changes it, and a list is built with the flag that its context was loaded with.
-/

open Base.Run
open Librespot.Tracks List Option

namespace Librespot.Daemon

open TrackList

variable {g : Rand} {a : Answers} {list list' : TrackList}

def queuedFront (next : Option (List ContextTrack)) : List ContextTrack :=
  (next.getD []).takeWhile fun track => track.metadata.get "is_queued" = "true"

def uids (queue : List ContextTrack) : List String := queue.map ContextTrack.uid

def queuedUids : TrackList.Op → List String
  | .addToQueue track => [track.uid]
  | .setQueue next => uids (queuedFront (some next))
  | _ => []

def Runs (g : Rand) (list list' : TrackList) : Prop :=
  ∃ ops, exec (TrackList.step g) list ops = some list'

def Brings (g : Rand) (new : List String) (list list' : TrackList) : Prop :=
  ∃ ops, exec (TrackList.step g) list ops = some list' ∧ ∀ op ∈ ops, queuedUids op ⊆ new

variable {new : List String}

theorem Brings.refl (list : TrackList) : Brings g new list list := ⟨[], rfl, by simp⟩

theorem Brings.trans {list'' : TrackList} (h : Brings g new list list')
    (h' : Brings g new list' list'') : Brings g new list list'' := by
  obtain ⟨ops, h, hops⟩ := h
  obtain ⟨ops', h', hops'⟩ := h'
  refine ⟨ops ++ ops', by rw [exec_append, h, bind_some, h'], ?_⟩
  exact forall_mem_append.mpr ⟨hops, hops'⟩

theorem Brings.step (op : TrackList.Op) (hop : queuedUids op ⊆ new)
    (h : TrackList.step g list op = some list') : Brings g new list list' :=
  ⟨[op], exec_cons_eq_some.mpr ⟨list', h, rfl⟩, forall_mem_singleton.mpr hop⟩

theorem Brings.of_map {α : Type} {res : Option (α × TrackList)} {x : α} (op : TrackList.Op)
    (hnone : queuedUids op = []) (hop : TrackList.step g list op = res.map Prod.snd)
    (h : res = some (x, list')) : Brings g new list list' :=
  .step op (hnone ▸ nil_subset _) (hop.trans (by rw [h, map_some]))

theorem Brings.runs (h : Brings g new list list') : Runs g list list' := by
  obtain ⟨ops, h, -⟩ := h
  exact ⟨ops, h⟩

theorem Runs.valid (h : Runs g list list') (hv : list.tracks.Valid) : list'.tracks.Valid := by
  obtain ⟨ops, h⟩ := h
  exact exec_invariant (I := fun tl => tl.tracks.Valid)
    (fun _ _ _ hv hs => step_valid hv hs) hv h

theorem goStart_brings (page : Pages ContextTrack) (list : TrackList) :
    Brings g new list (list.goStart page).2 :=
  .step (.goStart page) (nil_subset _) rfl

structure SameFlag (list list' : TrackList) : Prop where
  valid : list'.tracks.Valid
  shuffled : list'.shuffled = list.shuffled

theorem SameFlag.trans {list'' : TrackList} (h : SameFlag list list')
    (h' : SameFlag list' list'') : SameFlag list list'' :=
  ⟨h'.valid, h'.shuffled.trans h.shuffled⟩

theorem SameFlag.of_moved {op : TrackList.Op} (h : TrackList.Moved op list list') :
    SameFlag list list' :=
  ⟨h.valid, h.same.shuffled⟩

variable {snap : TrackList.Snapshot} {err : Option Err} {work : ListWork} {res : Walked}
  {state : TransferState} {refused : Bool} {lists lists' : List TrackList}
  {page : Pages ContextTrack} {played : Option Context}

theorem snapshot_sameFlag {nextHint : Option (List ContextTrack)} (hv : list.tracks.Valid)
    (h : list.snapshot page nextHint = some (snap, list')) : SameFlag list list' := by
  simp only [snapshot, run_eq_some, some.injEq, Prod.mk.injEq, Prod.exists] at h
  obtain ⟨current, -, prev, -, next, tl, hnext, index, -, -, rfl⟩ := h
  exact .of_moved (nextTracks_moved hv hnext)

theorem toggleShuffle_flag {draw : UInt64} {shuffle : Bool}
    (hv : list.tracks.Valid) (h : list.toggleShuffle g page draw shuffle = some (err, list')) :
    list'.tracks.Valid ∧ list'.shuffled = if err.isNone then shuffle else list.shuffled := by
  refine ⟨toggleShuffle_valid hv h, ?_⟩
  rcases toggleShuffle_cases hv h with ⟨hsame, rfl, rfl⟩ | ⟨rfl, -, rfl, m, -, rfl⟩ |
    ⟨rfl, -, -, rfl, -, rfl⟩ | ⟨rfl, -, -, ⟨⟨e, rfl⟩, rfl⟩ | ⟨rfl, hre⟩⟩
  · simp [hsame]
  · rfl
  · rfl
  · rfl
  · obtain ⟨track, isCurrent, m, p, -, -, -, -, rfl⟩ := hre.hit
    rfl

theorem addToQueue_sameFlag (queued : List ContextTrack) (hv : list.tracks.Valid) :
    SameFlag list (queued.foldl (fun list track => list.addToQueue track) list) := by
  induction queued generalizing list with
  | nil => exact ⟨hv, rfl⟩
  | cons track _ ih =>
    have hqueued : SameFlag list (list.addToQueue track) := ⟨hv, rfl⟩
    exact hqueued.trans (ih hqueued.valid)

/-- What a walk does, by the operations of the track list that it calls. An advance past the last
track goes back to the first one. -/
inductive ListWork.Walks (g : Rand) (a : Answers) (list : TrackList) :
    ListWork → Option Err → Walked → TrackList → Prop
  | peeked {next : Option ContextTrack} {list' : TrackList} :
      list.peekNext (a.pages 0) = some (next, list') → Walks g a list .peekNext none { next } list'
  | toggled {val : Bool} {err : Option Err} {list' : TrackList} :
      list.toggleShuffle g (a.pages 0) (a.draw 0) val = some (err, list') →
      Walks g a list (.shuffle val) err {} list'
  | queued (track : ContextTrack) :
      Walks g a list (.addToQueue track) none {} (list.addToQueue track)
  | queueSet {next : Option (List ContextTrack)} {list' : TrackList} :
      list.setQueue (next.getD []) = some list' → Walks g a list (.setQueue next) none {} list'
  | wentBack {delay : Int} {ok : Bool} {list' : TrackList} :
      list.goPrev = some (ok, list') → Walks g a list (.skipPrev delay) none {} list'
  | sought {track : ContextTrack} {delay : Int} {err : Option Err} {list' : TrackList} :
      list.trySeekTo (a.pages 0) track = some (err, list') →
      Walks g a list (.skipTo track delay) err {} list'
  | advanced {repeatingContext drop : Bool} {delay : Int} {k : Then} {list' : TrackList} :
      list.goNext (a.pages 0) = some (true, list') →
      Walks g a list (.advance repeatingContext drop delay k) none { hasNextTrack := true } list'
  | wrapped {repeatingContext drop : Bool} {delay : Int} {k : Then} {last : TrackList}
      {res : Walked} : list.goNext (a.pages 0) = some (false, last) →
      Walks g a list (.advance repeatingContext drop delay k) none res (last.goStart (a.pages 1)).2

theorem walks_of_walk (h : work.walk g a list = some (err, res, list')) :
    work.Walks g a list err res list' := by
  cases work with
  | addToQueue track =>
    simp only [ListWork.walk, Option.some.injEq, Prod.mk.injEq] at h
    obtain ⟨rfl, rfl, rfl⟩ := h
    exact .queued track
  | setQueue =>
    simp only [ListWork.walk, Option.bind_eq_bind, Option.bind_eq_some_iff, Option.some.injEq,
      Prod.mk.injEq] at h
    obtain ⟨tl, hset, rfl, rfl, rfl⟩ := h
    exact .queueSet hset
  | advance =>
    simp only [ListWork.walk, Option.bind_eq_bind, Option.bind_eq_some_iff, Prod.exists] at h
    obtain ⟨hasNext, tl, hnext, h⟩ := h
    cases hasNext with
    | true =>
      simp only [if_true, Option.some.injEq, Prod.mk.injEq] at h
      obtain ⟨rfl, rfl, rfl⟩ := h
      exact .advanced hnext
    | false =>
      rw [if_neg Bool.false_ne_true] at h
      split at h
      · cases h
        exact .wrapped hnext
      · simp only [Option.bind_eq_some_iff, Option.some.injEq, Prod.mk.injEq] at h
        obtain ⟨seed, -, rfl, -, rfl⟩ := h
        exact .wrapped hnext
  | _ =>
    simp only [ListWork.walk, Option.bind_eq_bind, Option.bind_eq_some_iff, Option.some.injEq,
      Prod.mk.injEq, Prod.exists] at h
    obtain ⟨_, _, hcall, rfl, rfl, rfl⟩ := h
    constructor
    exact hcall

theorem walk_sameFlag (hwork : ∀ val, work ≠ .shuffle val) (hv : list.tracks.Valid)
    (h : work.walk g a list = some (err, res, list')) : SameFlag list list' := by
  cases walks_of_walk h with
  | peeked h => exact .of_moved (peekNext_moved hv h)
  | toggled => exact absurd rfl (hwork _)
  | queued => exact ⟨hv, rfl⟩
  | queueSet h =>
    have hstep : step g list (.setQueue _) = some list' := h
    exact .of_moved (step_moved rfl hv hstep)
  | wentBack h => exact .of_moved (goPrev_moved hv h)
  | sought h => exact .of_moved (trySeekTo_moved hv h)
  | advanced h => exact .of_moved (goNext_moved hv h)
  | wrapped hnext =>
    have hlast := SameFlag.of_moved (goNext_moved hv hnext)
    exact hlast.trans (.of_moved (goStart_moved hlast.valid))

def ListWork.flagAfter (err : Option Err) (flag : Bool) : ListWork → Bool
  | .shuffle val => if err.isNone then val else flag
  | _ => flag

theorem walk_flag (hv : list.tracks.Valid) (h : work.walk g a list = some (err, res, list')) :
    list'.tracks.Valid ∧ list'.shuffled = work.flagAfter err list.shuffled := by
  cases work with
  | shuffle =>
    cases walks_of_walk h with
    | toggled h => exact toggleShuffle_flag hv h
  | _ =>
    have hsame := walk_sameFlag (by simp) hv h
    exact ⟨hsame.valid, hsame.shuffled⟩

theorem orFail_ok {α : Type} {text : String} {res : Option (Option Err × TrackList)}
    {go : TrackList → Option (Except LoadErr α)} {x : α} (h : orFail text res go = some (.ok x)) :
    ∃ list, res = some (none, list) ∧ go list = some (.ok x) := by
  match res, h with
  | some (none, list), h => exact ⟨list, rfl, h⟩

theorem resolveContext_spec {job : ResolveJob}
    (h : resolveContext g a job = some (.ok (list, snap))) : ∃ typ first sought shuffled,
    (if job.skipTo.isNone then
      (TrackList.newTrackList typ).toggleShuffle g (a.pages 0) (a.draw 0) job.shuffle
      else some (none, TrackList.newTrackList typ)) = some (none, first) ∧
    first.trySeek (a.pages 1) (a.pages 2) (job.skipTo.getD fun _ _ => some true) =
      some (none, sought) ∧
    sought.toggleShuffle g (a.pages 3) (a.draw 1) job.shuffle = some (none, shuffled) ∧
    (job.queued.foldl (fun list track => list.addToQueue track) shuffled).snapshot (a.pages 4) none =
      some (snap, list) := by
  unfold resolveContext at h
  split at h
  · simp at h
  · rename_i typ _
    obtain ⟨first, hfirst, h⟩ := orFail_ok h
    obtain ⟨sought, hsought, h⟩ := orFail_ok h
    obtain ⟨shuffled, hshuffled, h⟩ := orFail_ok h
    simp only [run_eq_some, some.injEq, Except.ok.injEq, Prod.mk.injEq, Prod.exists] at h
    obtain ⟨_, _, hsnap, rfl, rfl⟩ := h
    exact ⟨typ, first, sought, shuffled, hfirst, hsought, hshuffled, hsnap⟩

theorem resolveContext_flag {job : ResolveJob}
    (h : resolveContext g a job = some (.ok (list, snap))) :
    list.tracks.Valid ∧ list.shuffled = job.shuffle := by
  obtain ⟨typ, first, sought, shuffled, hfirst, hsought, hshuffled, hsnap⟩ := resolveContext_spec h
  have hnew : (newTrackList typ).tracks.Valid := valid_new
  have hvfirst : first.tracks.Valid := by
    split at hfirst
    · exact (toggleShuffle_flag hnew hfirst).1
    · simp only [some.injEq, Prod.mk.injEq, true_and] at hfirst
      exact hfirst ▸ hnew
  have hvsought := (trySeek_moved hvfirst hsought).valid
  obtain ⟨hvshuffled, hflag⟩ := toggleShuffle_flag hvsought hshuffled
  have hqueued := addToQueue_sameFlag job.queued hvshuffled
  have hsame := hqueued.trans (snapshot_sameFlag hqueued.valid hsnap)
  exact ⟨hsame.valid, hsame.shuffled.trans hflag⟩

theorem seekBehindQueue_brings {ok : Bool}
    (h : seekBehindQueue a state refused list = some (ok, list')) : Brings g new list list' := by
  have hkept (h : some (false, list) = some (ok, list')) : Brings g new list list' := by
    simp only [some.injEq, Prod.mk.injEq] at h
    exact h.2 ▸ .refl list
  unfold seekBehindQueue at h
  simp only [bind_eq_bind] at h
  split at h
  · exact hkept h
  · simp only [bind_eq_some_iff] at h
    obtain ⟨queued, -, h⟩ := h
    split at h
    · simp only [bind_eq_some_iff, Prod.exists] at h
      obtain ⟨isNext, -, err, found, hseek, h⟩ := h
      have hfound : Brings g new list found :=
        .of_map (.seek (a.pages 0) fun _ => isNext) rfl rfl hseek
      cases err with
      | some =>
        simp only [some.injEq, Prod.mk.injEq] at h
        exact h.2 ▸ hfound
      | none => exact hfound.trans (.of_map .goPrev rfl rfl h)
    · exact hkept h

theorem seekTransferred_brings (h : seekTransferred a state refused list = some (err, list')) :
    Brings g new list list' := by
  unfold seekTransferred at h
  simp only [Option.bind_eq_bind, Option.bind_eq_some_iff, Prod.exists] at h
  obtain ⟨ok, behind, hbehind, h⟩ := h
  have hrbehind : Brings g new list behind := seekBehindQueue_brings hbehind
  cases ok with
  | true =>
    simp only [Option.some.injEq, Prod.mk.injEq] at h
    exact h.2 ▸ hrbehind
  | false =>
    simp only [Option.bind_eq_some_iff] at h
    obtain ⟨single, -, h⟩ := h
    split at h
    · simp only [Option.bind_eq_some_iff, Option.some.injEq, Prod.mk.injEq, Prod.exists] at h
      obtain ⟨_, _, hseek, -, rfl⟩ := h
      exact hrbehind.trans (.of_map (.trySeekTo (a.pages 1) _) rfl rfl hseek)
    · have hstart : Brings g new list (behind.goStart (a.pages 1)).2 :=
        hrbehind.trans (goStart_brings (a.pages 1) behind)
      split at h
      all_goals
        rename_i hgo
        simp only [Option.some.injEq, Prod.mk.injEq] at h
        rw [hgo] at hstart
        exact h.2 ▸ hstart

def TransferState.shuffle (state : TransferState) : Bool :=
  (state.options.map ContextPlayerOptions.shufflingContext).getD false

theorem runTransferList_spec {typ : SpotifyIdType}
    (h : runTransferList g a state refused typ = some (.ok (list, snap))) : ∃ sought shuffled,
    seekTransferred a state refused (TrackList.newTrackList typ) = some (none, sought) ∧
    sought.toggleShuffle g (a.pages 2) (a.draw 0) state.shuffle = some (none, shuffled) ∧
    ((state.queue.foldl (fun list track => list.addToQueue track) shuffled).setPlayingQueue
      state.isPlayingQueue).snapshot (a.pages 3) none = some (snap, list) := by
  unfold runTransferList at h
  obtain ⟨sought, hsought, h⟩ := orFail_ok h
  obtain ⟨shuffled, hshuffled, h⟩ := orFail_ok h
  simp only [run_eq_some, some.injEq, Except.ok.injEq, Prod.mk.injEq, Prod.exists] at h
  obtain ⟨_, _, hsnap, rfl, rfl⟩ := h
  exact ⟨sought, shuffled, hsought, hshuffled, hsnap⟩

theorem runTransfer_spec (h : runTransfer g a state = some (.ok (list, snap), played)) :
    ∃ refused typ, runTransferList g a state refused typ = some (.ok (list, snap)) := by
  have hrun {refused : Bool} {typ : SpotifyIdType} {other : Option Context}
      (h : (runTransferList g a state refused typ).bind (fun res => some (res, other)) =
        some (.ok (list, snap), played)) :
      ∃ refused typ, runTransferList g a state refused typ = some (.ok (list, snap)) := by
    simp only [bind_eq_some_iff, some.injEq, Prod.mk.injEq] at h
    obtain ⟨res, hres, rfl, -⟩ := h
    exact ⟨refused, typ, hres⟩
  unfold runTransfer at h
  simp only [bind_eq_bind] at h
  split at h
  · exact hrun h
  · split at h
    · simp only [bind_eq_some_iff] at h
      obtain ⟨single, -, h⟩ := h
      split at h
      · simp at h
      · split at h
        · simp at h
        · exact hrun h
    · simp at h

theorem runTransfer_flag (h : runTransfer g a state = some (.ok (list, snap), played)) :
    list.tracks.Valid ∧ list.shuffled = state.shuffle := by
  obtain ⟨refused, typ, h⟩ := runTransfer_spec h
  obtain ⟨sought, shuffled, hsought, hshuffled, hsnap⟩ := runTransferList_spec h
  have hruns : Brings g [] (newTrackList typ) sought := seekTransferred_brings hsought
  have hvsought := hruns.runs.valid valid_new
  obtain ⟨hvshuffled, hflag⟩ := toggleShuffle_flag hvsought hshuffled
  have hqueued := addToQueue_sameFlag state.queue hvshuffled
  generalize state.queue.foldl (fun list track => list.addToQueue track) shuffled = queued at *
  have hplaying : SameFlag shuffled (queued.setPlayingQueue state.isPlayingQueue) :=
    ⟨hqueued.valid, hqueued.shuffled⟩
  have hsame := hplaying.trans (snapshot_sameFlag hplaying.valid hsnap)
  exact ⟨hsame.valid, hsame.shuffled.trans hflag⟩

def flags (lists : List TrackList) : List Bool := lists.map TrackList.shuffled

def Commit.landing : Commit → Option (ListId × Bool)
  | .resolved job id _ => some (id, job.shuffle)
  | .transferred job id _ _ => some (id, job.state.shuffle)
  | _ => none

def Commit.shuffled : Commit → Option (ListId × Bool)
  | .walked id (.shuffle val) _ _ => some (id, val)
  | _ => none

inductive Work.Gives : Work → Commit → Prop
  | unresolved (job : ResolveJob) (err : LoadErr) : Gives (.resolve job) (.call job.k err)
  | resolved (job : ResolveJob) (list : ListId) (snap : TrackList.Snapshot) :
      Gives (.resolve job) (.resolved job list snap)
  | unfollowed (job : TransferJob) : Gives (.transfer job) .nothing
  | abandoned (job : TransferJob) : Gives (.transfer job) .abandonTransfer
  | transferred (job : TransferJob) (list : ListId) (snap : TrackList.Snapshot)
      (played : Option Context) : Gives (.transfer job) (.transferred job list snap played)
  | walkFailed (id : ListId) (work : ListWork) (err : LoadErr) :
      Gives (.list id work) (.walkFailed work err)
  | walked (id : ListId) (work : ListWork) (res : Walked) (snap : TrackList.Snapshot) :
      Gives (.list id work) (.walked id work res snap)
  | unloaded (job : LoadJob) (err : LoadErr) : Gives (.load job) (.call job.k err)
  | loaded (job : LoadJob) (stream : Stream) (streamGen : Nat) (position : Int) :
      Gives (.load job) (.loaded job stream streamGen position)
  | noStation (uri : String) (seed : List String) (drop : Bool) (k : Then) :
      Gives (.station uri seed drop k) (.noStation k)
  | station (uri : String) (seed : List String) (drop : Bool) (k : Then) (context : Context) :
      Gives (.station uri seed drop k) (.station context drop k)
  | unanswered (data : ApiPlay) : Gives (.apiPlay data) .nothing
  | apiPlay (data : ApiPlay) (context : Context) : Gives (.apiPlay data) (.apiPlay context data)
  | unfetched (id : SpotifyId) : Gives (.prefetch id) .nothing
  | prefetched (id : SpotifyId) (stream : Stream) : Gives (.prefetch id) (.prefetched stream)

inductive Ran (flags : List Bool) : Work → Commit → List Bool → Prop
  | built (work : Work) (commit : Commit) (val : Bool) (hgives : work.Gives commit)
      (hlanding : commit.landing = some (flags.length, val)) :
      Ran flags work commit (flags ++ [val])
  | shuffled (id : ListId) (val : Bool) (res : Walked) (snap : TrackList.Snapshot)
      (hid : id < flags.length) :
      Ran flags (.list id (.shuffle val)) (.walked id (.shuffle val) res snap) (flags.set id val)
  | walked (id : ListId) (work : ListWork) (res : Walked) (snap : TrackList.Snapshot)
      (hwork : ∀ val, work ≠ .shuffle val) :
      Ran flags (.list id work) (.walked id work res snap) flags
  | failed (id : ListId) (work : ListWork) (err : LoadErr) :
      Ran flags (.list id work) (.walkFailed work err) flags
  | other (work : Work) (commit : Commit) (hgives : work.Gives commit)
      (hlanding : commit.landing = none) (hshuffled : commit.shuffled = none) :
      Ran flags work commit flags

theorem flags_set {id : ListId} (h : lists[id]? = some list)
    (hsame : list'.shuffled = list.shuffled) : flags (lists.set id list') = flags lists := by
  obtain ⟨hlt, rfl⟩ := List.getElem?_eq_some_iff.mp h
  unfold flags
  rw [map_set, hsame, ← getElem_map shuffled, set_getElem_self]
  rwa [length_map]

theorem valid_set {id : ListId} (h : ∀ l ∈ lists, l.tracks.Valid) (hv : list'.tracks.Valid) :
    ∀ l ∈ lists.set id list', l.tracks.Valid := by
  intro l hl
  rcases mem_or_eq_of_mem_set hl with hl | rfl
  · exact h l hl
  · exact hv

theorem valid_append (h : ∀ l ∈ lists, l.tracks.Valid) (hv : list.tracks.Valid) :
    ∀ l ∈ lists ++ [list], l.tracks.Valid := by
  intro l hl
  rcases mem_append.mp hl with hl | hl
  · exact h l hl
  · exact mem_singleton.mp hl ▸ hv

theorem flags_append (lists : List TrackList) (list : TrackList) :
    flags (lists ++ [list]) = flags lists ++ [list.shuffled] := by
  simp [flags]

inductive Work.Ends (g : Rand) (a : Answers) (lists : List TrackList) :
    Work → Commit → List TrackList → Prop
  | unresolved (job : ResolveJob) (err : LoadErr) : Ends g a lists (.resolve job) (.call job.k err)
    lists
  | resolved {job : ResolveJob} {list : TrackList} {snap : TrackList.Snapshot}
      (hnew : resolveContext g a job = some (.ok (list, snap))) :
      Ends g a lists (.resolve job) (.resolved job lists.length snap) (lists ++ [list])
  | unfollowed (job : TransferJob) : Ends g a lists (.transfer job) .nothing lists
  | abandoned (job : TransferJob) : Ends g a lists (.transfer job) .abandonTransfer lists
  | transferred {job : TransferJob} {list : TrackList} {snap : TrackList.Snapshot}
      {played : Option Context} (hnew : runTransfer g a job.state = some (.ok (list, snap), played)) :
      Ends g a lists (.transfer job) (.transferred job lists.length snap played) (lists ++ [list])
  | walkFailed {id : ListId} {work : ListWork} {list list' : TrackList} {err : Err} {res : Walked}
      (hid : lists[id]? = some list) (hwalk : work.walk g a list = some (some err, res, list')) :
      Ends g a lists (.list id work) (.walkFailed work (.plain "" err)) (lists.set id list')
  | walked {id : ListId} {work : ListWork} {list walked list' : TrackList} {res : Walked}
      {snap : TrackList.Snapshot} (hid : lists[id]? = some list)
      (hwalk : work.walk g a list = some (none, res, walked))
      (hsnap : walked.snapshot (a.pages 2) work.nextHint = some (snap, list')) :
      Ends g a lists (.list id work) (.walked id work res snap) (lists.set id list')
  | unloaded (job : LoadJob) (err : LoadErr) : Ends g a lists (.load job) (.call job.k err) lists
  | loaded {job : LoadJob} {stream : Stream} (hstream : fetchTrack a job = .ok stream) :
      Ends g a lists (.load job) (.loaded job stream a.streamGen
        (startPosition (job.start a) stream.duration)) lists
  | noStation (uri : String) (seed : List String) (drop : Bool) (k : Then) :
      Ends g a lists (.station uri seed drop k) (.noStation k) lists
  | station (uri : String) (seed : List String) (drop : Bool) (k : Then) (context : Context) :
      Ends g a lists (.station uri seed drop k) (.station context drop k) lists
  | unanswered (data : ApiPlay) : Ends g a lists (.apiPlay data) .nothing lists
  | apiPlay (data : ApiPlay) (context : Context) :
      Ends g a lists (.apiPlay data) (.apiPlay context data) lists
  | unfetched (id : SpotifyId) : Ends g a lists (.prefetch id) .nothing lists
  | prefetched {id : SpotifyId} {stream : Stream} (hstream : a.stream = .ok stream) :
      Ends g a lists (.prefetch id) (.prefetched stream) lists

theorem ends_of_runWork {work : Work} {commit : Commit}
    (h : runWork g a lists work = some (commit, lists')) : work.Ends g a lists commit lists' := by
  cases work with
  | resolve =>
    simp only [runWork, Option.bind_eq_bind, Option.bind_eq_some_iff] at h
    obtain ⟨res, hres, h⟩ := h
    split at h
    · cases h
      exact .unresolved ..
    · cases h
      exact .resolved hres
  | transfer job =>
    simp only [runWork, Option.bind_eq_bind, Option.bind_eq_some_iff] at h
    obtain ⟨res, hres, h⟩ := h
    split at h
    · cases h
      split
      · exact .unfollowed job
      · exact .abandoned job
    · cases h
      exact .transferred hres
  | list =>
    simp only [runWork, Option.bind_eq_bind, Option.bind_eq_some_iff] at h
    obtain ⟨list, hid, res, hwalk, h⟩ := h
    split at h
    · cases h
      exact .walkFailed hid hwalk
    · simp only [Option.bind_eq_some_iff, Option.some.injEq, Prod.mk.injEq, Prod.exists] at h
      obtain ⟨snap, last, hsnap, rfl, rfl⟩ := h
      exact .walked hid hwalk hsnap
  | load job | station contextUri seed drop k | apiPlay data | prefetch id =>
    simp only [runWork] at h
    split at h
    all_goals
      cases h
      constructor <;> assumption

theorem runWork_ran {work : Work} {commit : Commit}
    (hv : ∀ l ∈ lists, l.tracks.Valid) (h : runWork g a lists work = some (commit, lists')) :
    (∀ l ∈ lists', l.tracks.Valid) ∧ Ran (flags lists) work commit (flags lists') := by
  cases ends_of_runWork h with
  | resolved hnew =>
    obtain ⟨hlist, hflag⟩ := resolveContext_flag hnew
    refine ⟨valid_append hv hlist, ?_⟩
    rw [flags_append, hflag]
    exact .built _ _ _ (.resolved ..) (by simp [Commit.landing, flags])
  | transferred hnew =>
    obtain ⟨hlist, hflag⟩ := runTransfer_flag hnew
    refine ⟨valid_append hv hlist, ?_⟩
    rw [flags_append, hflag]
    exact .built _ _ _ (.transferred ..) (by simp [Commit.landing, flags])
  | @walkFailed id work list list' err res hid hwalk =>
    obtain ⟨hwalked, hflag⟩ := walk_flag (hv list (mem_of_getElem? hid)) hwalk
    have hsame : list'.shuffled = list.shuffled := by
      rw [hflag]
      cases work <;> rfl
    rw [flags_set hid hsame]
    exact ⟨valid_set hv hwalked, .failed id work _⟩
  | @walked id work list walked list' res snap hid hwalk hsnap =>
    obtain ⟨hwalked, hflag⟩ := walk_flag (hv list (mem_of_getElem? hid)) hwalk
    -- what the snapshot fetches does not change the flag any more
    have hlast := snapshot_sameFlag hwalked hsnap
    have hflag := hlast.shuffled.trans hflag
    refine ⟨valid_set hv hlast.valid, ?_⟩
    cases work with
    | shuffle val =>
      have hlt : id < (flags lists).length := by
        rw [flags, length_map]
        exact (List.getElem?_eq_some_iff.mp hid).1
      have hset : flags (lists.set id list') = (flags lists).set id val := by
        rw [flags, map_set, hflag]
        rfl
      rw [hset]
      exact .shuffled id val res snap hlt
    | _ =>
      rw [flags_set hid hflag]
      exact .walked id _ res snap (by simp)
  | _ => exact ⟨hv, .other _ _ (by constructor) rfl rfl⟩

end Librespot.Daemon
