import Librespot.Ids.RoundTrip
import Librespot.Tracks.Accessors

/-! # Where a jump to a track ends -/

open Base.Exchange Base.Run List Option

namespace Librespot.Tracks

def GidOk (track : ContextTrack) : Prop := track.gid = [] ∨ track.gid.length = 16

instance : DecidablePred GidOk := fun _ => inferInstanceAs (Decidable (_ ∨ _))

def Comparable (target : ContextTrack) : Prop := target.uri ≠ "" ∨ GidOk target

def targetUri (typ : SpotifyIdType) (target : ContextTrack) : Option String :=
  if target.uri = "" ∧ target.gid ≠ [] then gidUri typ target.gid else some target.uri

def isSame (typ : SpotifyIdType) (target : ContextTrack) (uri : String) (track : ContextTrack) :
    Option Bool :=
  if track.uid ≠ "" ∧ track.uid = target.uid then some true
  else if track.uri ≠ "" ∧ track.uri = uri then some true
  else if track.gid ≠ [] then (gidUri typ track.gid).map (· = uri)
  else some false

theorem comparator_eq (typ : SpotifyIdType) (target : ContextTrack) :
    contextTrackComparator typ target = (targetUri typ target).map (isSame typ target) := by
  unfold contextTrackComparator targetUri
  by_cases hgid : target.uri = "" ∧ target.gid ≠ []
  · rw [if_pos hgid, if_pos hgid]
    cases gidUri typ target.gid <;> rfl
  · rw [if_neg hgid, if_neg hgid]
    rfl

variable {target : ContextTrack}

theorem targetUri_total (typ : SpotifyIdType) (h : Comparable target) :
    ∃ uri, targetUri typ target = some uri := by
  unfold targetUri
  split
  · rename_i hgid
    have hlen := (h.resolve_left (not_not.mpr hgid.1)).resolve_left hgid.2
    exact isSome_iff_exists.mp (gidUri_isSome typ hlen)
  · exact ⟨_, rfl⟩

theorem isSame_total (typ : SpotifyIdType) (target : ContextTrack) (uri : String)
    {track : ContextTrack} (h : GidOk track) : isSame typ target uri track ≠ none := by
  unfold isSame
  split
  · simp
  · split
    · simp
    · split
      · rename_i hne
        obtain ⟨own, hown⟩ := isSome_iff_exists.mp (gidUri_isSome typ (h.resolve_left hne))
        simp [hown]
      · simp

theorem comparator_total (typ : SpotifyIdType) (h : Comparable target) :
    ∃ isTarget, contextTrackComparator typ target = some isTarget ∧
      ∀ track, GidOk track → isTarget track ≠ none := by
  obtain ⟨uri, huri⟩ := targetUri_total typ h
  exact ⟨isSame typ target uri, by rw [comparator_eq, huri]; rfl,
    fun track hgid => isSame_total typ target uri hgid⟩

theorem Fetched.mem {α : Type} {page : Pages α} {l m : PagedList α} (h : Fetched page l m)
    {x : PagedListItem α} (hx : x ∈ m.list) :
    x ∈ l.list ∨ ∃ i items, page i = .ok items ∧ x.item ∈ items := by
  induction h with
  | refl => exact .inl hx
  | next hf _ ih =>
    obtain ⟨items, hitems, -, rfl⟩ := fetchNextPage_ok_iff.mp hf
    rcases ih hx with hx | hnew
    · rcases mem_append.mp hx with hx | hx
      · exact .inl hx
      · obtain ⟨j, hj, -, -⟩ := mem_pageItems.mp hx
        exact .inr ⟨_, items, hitems, mem_of_getElem? hj⟩
    · exact .inr hnew

namespace TrackList

variable {tl tl' : TrackList} {page : Pages ContextTrack} {target : ContextTrack}

structure GidsOk (page : Pages ContextTrack) (tl : TrackList) : Prop where
  queue : ∀ track ∈ tl.queue, GidOk track
  list : ∀ x ∈ tl.tracks.list, GidOk x.item
  pages : ∀ i items, page i = .ok items → ∀ track ∈ items, GidOk track

def isQueued (isTarget : ContextTrack → Option Bool) (target queued : ContextTrack) : Option Bool :=
  if target.uid = "" then isTarget queued else some (queued.uid = target.uid)

variable {isTarget : ContextTrack → Option Bool}

theorem queueTest_eq {typ : SpotifyIdType}
    (hcmp : contextTrackComparator typ target = some isTarget) :
    queueTest typ target = some (isQueued isTarget target) := by
  unfold queueTest isQueued
  by_cases huid : target.uid = ""
  · simp [huid, hcmp]
  · simp [huid]

theorem isQueued_total {queued : ContextTrack} (h : isTarget queued ≠ none) :
    isQueued isTarget target queued ≠ none := by
  unfold isQueued
  split
  · exact h
  · simp

theorem trySeekTo_total (hqueue : tl.playingQueue = true → tl.queue ≠ []) (hgids : tl.GidsOk page)
    (htarget : Comparable target) : ∃ tl', tl.trySeekTo page target = some (none, tl') := by
  obtain ⟨isTarget, hcmp, htotal⟩ := comparator_total tl.typ htarget
  cases hres : tl.trySeekTo page target with
  | some res =>
    obtain ⟨err, tl'⟩ := res
    obtain rfl := trySeekTo_ok hres
    exact ⟨tl', rfl⟩
  | none =>
    rcases trySeekTo_none hqueue hres with (hnone | ⟨f, hf, before, queued, after, hq, -, hnone⟩) |
      ⟨-, hnone | ⟨f, hf, m, p, x, hfetched, hx, hnone, -⟩⟩
    · simp [queueTest_eq hcmp] at hnone
    · obtain rfl : isQueued isTarget target = f := some.inj ((queueTest_eq hcmp).symm.trans hf)
      have hmem : queued ∈ tl.waiting := by simp [hq]
      have hgid := hgids.queue queued (tl.waiting_suffix.subset hmem)
      exact absurd hnone (isQueued_total (htotal queued hgid))
    · simp [hcmp] at hnone
    · obtain rfl : isTarget = f := some.inj (hcmp.symm.trans hf)
      refine absurd hnone (htotal x.item ?_)
      rcases hfetched.mem (mem_of_getElem? hx) with hold | ⟨i, items, hitems, hnew⟩
      · exact hgids.list x hold
      · exact hgids.pages i items hitems x.item hnew

theorem seekQueue_eq (hcmp : contextTrackComparator tl.typ target = some isTarget) :
    tl.seekQueue target = (dropUntil (isQueued isTarget target) tl.waiting).map fun rest =>
      rest.elim (false, tl) fun queue => (true, { tl with queue, playingQueue := true }) := by
  rw [seekQueue_eq_test, queueTest_eq hcmp]
  rfl

/-- Where a jump ends. In the queue it is at the first entry ahead that is recognised. Otherwise it
has left the queue, which keeps what was ahead, and it is at an entry that compares equal, or the
target itself was put in. -/
inductive Landed (isTarget : ContextTrack → Option Bool) (target : ContextTrack)
    (tl tl' : TrackList) : Prop
  | queue (before : List ContextTrack) (hit : ContextTrack) (after : List ContextTrack)
      (ahead : tl.waiting = before ++ hit :: after)
      (passed : ∀ track ∈ before, isQueued isTarget target track = some false)
      (recognised : isQueued isTarget target hit = some true) (playing : tl'.playingQueue = true)
      (current : tl'.current = some hit) (upcoming : tl'.upcomingQueue = some after)
  | context (track : ContextTrack)
      (passed : ∀ track ∈ tl.waiting, isQueued isTarget target track = some false)
      (playing : tl'.playingQueue = false) (current : tl'.current = some track)
      (equal : isTarget track = some true ∨ track = target)
      (upcoming : tl'.upcomingQueue = tl.upcomingQueue)

def leaveQueue (tl : TrackList) : TrackList :=
  { tl with queue := tl.waiting, playingQueue := false }

theorem leaveQueue_eq (tl : TrackList) : (if tl.playingQueue then
    { tl with queue := tl.queue.tail, playingQueue := false } else tl) = tl.leaveQueue := by
  unfold leaveQueue waiting
  cases hp : tl.playingQueue with
  | true => simp
  | false =>
    simp only [Bool.false_eq_true, if_false]
    rw [← hp]

theorem trySeekTo_cases {err : Option Err}
    (hcmp : contextTrackComparator tl.typ target = some isTarget)
    (h : tl.trySeekTo page target = some (err, tl')) :
    (∃ before hit after, tl.waiting = before ++ hit :: after ∧
      (∀ track ∈ before, isQueued isTarget target track = some false) ∧
      isQueued isTarget target hit = some true ∧
      tl' = { tl with queue := hit :: after, playingQueue := true }) ∨
    ((∀ track ∈ tl.waiting, isQueued isTarget target track = some false) ∧
      ∃ serr mid, tl.leaveQueue.seek page (fun _ => isTarget) = some (serr, mid) ∧
        (serr = none ∧ tl' = mid ∨
          serr ≠ none ∧ tl' = { mid with tracks := mid.tracks.moveInjected target })) := by
  unfold trySeekTo at h
  rw [seekQueue_eq hcmp] at h
  simp only [bind_eq_bind, bind_map, bind_eq_some_iff] at h
  obtain ⟨rest, hdrop, h⟩ := h
  rcases dropUntil_cases hdrop with ⟨rfl, hpassed⟩ | ⟨before, hit, after, hahead, rfl, hhit, hpassed⟩
  · right
    refine ⟨hpassed, ?_⟩
    simp only [Function.comp_apply, elim_none, leaveQueue_eq] at h
    split at h
    · simp at h
    · have hcmp' : contextTrackComparator tl.leaveQueue.typ target = some isTarget := hcmp
      simp only [hcmp', bind_some, bind_eq_some_iff] at h
      obtain ⟨⟨serr, mid⟩, hseek, h⟩ := h
      refine ⟨serr, mid, hseek, ?_⟩
      cases serr with
      | none => exact .inl ⟨rfl, (Prod.mk.inj (some.inj h)).2.symm⟩
      | some => exact .inr ⟨by simp, (Prod.mk.inj (some.inj h)).2.symm⟩
  · left
    exact ⟨before, hit, after, hahead, hpassed, hhit, (Prod.mk.inj (some.inj h)).2.symm⟩

theorem current_context {curr : PagedListItem ContextTrack} (hp : tl.playingQueue = false)
    (h : tl.tracks.entry = some curr) : tl.current = some curr.item := by
  simp [current, hp, PagedList.get, h]

theorem landed_of_trySeekTo {err : Option Err} (hqueue : tl.playingQueue = true → tl.queue ≠ [])
    (hcmp : contextTrackComparator tl.typ target = some isTarget)
    (h : tl.trySeekTo page target = some (err, tl')) : Landed isTarget target tl tl' := by
  rcases trySeekTo_cases hcmp h with ⟨before, hit, after, hahead, hpassed, hhit, rfl⟩ |
    ⟨hpassed, serr, mid, hseek, hmid⟩
  · exact .queue before hit after hahead hpassed hhit rfl rfl rfl
  · obtain ⟨hq, hp⟩ := seek_sameQueue hseek
    have hupcoming : mid.upcomingQueue = tl.upcomingQueue := by
      rw [upcomingQueue_eq hqueue, upcomingQueue, hp, hq]
      rfl
    rcases hmid with ⟨rfl, rfl⟩ | ⟨-, rfl⟩
    · obtain ⟨m, -, ⟨p, -, hhit, rfl⟩ | ⟨⟨e, he⟩, -⟩⟩ := seek_spec hseek
      · obtain ⟨x, hx, hfx⟩ := hhit.hit
        exact .context x.item hpassed hp (current_context hp (by simp [Marked.entry, hx]))
          (.inl hfx) hupcoming
      · simp at he
    · have hentry : (mid.tracks.moveInjected target).get = some ⟨target, -1, -1⟩ := rfl
      have hcurrent : { mid with tracks := mid.tracks.moveInjected target }.current = some target := by
        simp [current, show mid.playingQueue = false from hp, hentry]
      exact .context target hpassed hp hcurrent (.inr rfl) hupcoming

/-- From every state, with every answer of the resolver. -/
theorem trySeekTo_lands {g : Rand} {typ : SpotifyIdType} {ops : List Op} {tl : TrackList}
    (hrun : exec (step g) (newTrackList typ) ops = some tl) (htarget : Comparable target)
    (hgids : tl.GidsOk page) :
    ∃ isTarget tl', contextTrackComparator tl.typ target = some isTarget ∧
      tl.trySeekTo page target = some (none, tl') ∧ Landed isTarget target tl tl' := by
  have hqueue := reachable_queued hrun
  obtain ⟨isTarget, hcmp, -⟩ := comparator_total tl.typ htarget
  obtain ⟨tl', hres⟩ := trySeekTo_total hqueue hgids htarget
  exact ⟨isTarget, tl', hcmp, hres, landed_of_trySeekTo hqueue hcmp hres⟩

def queuedTwiceRun : List Op :=
  [.goStart fun _ => .ok [{ uri := "spotify:track:a" }], .addToQueue { uri := "spotify:track:b" },
    .addToQueue { uri := "spotify:track:c" }, .goNext noPages]

theorem trySeekTo_lands_injected : ∃ tl isTarget tl',
    exec (step drawZero) (newTrackList "track") queuedTwiceRun = some tl ∧
    contextTrackComparator tl.typ { uri := "spotify:track:d" } = some isTarget ∧
    tl.trySeekTo noPages { uri := "spotify:track:d" } = some (none, tl') ∧
    Landed isTarget { uri := "spotify:track:d" } tl tl' := by
  have htarget : Comparable { uri := "spotify:track:d" } := .inl (by decide)
  have hrun : exec (step drawZero) (newTrackList "track") queuedTwiceRun = some _ :=
    exec_get (by decide +kernel)
  obtain ⟨isTarget, tl', hlands⟩ := trySeekTo_lands hrun htarget
    (show GidsOk noPages _ from ⟨by decide +kernel, by decide +kernel, nofun⟩)
  exact ⟨_, isTarget, tl', hrun, hlands⟩

end TrackList

end Librespot.Tracks
