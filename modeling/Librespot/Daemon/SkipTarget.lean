import Librespot.Daemon.ListRuns
import Librespot.Daemon.LoadInFlight
import Librespot.Tracks.ListedTwice

/-!
# The entry that a play command names

A play command names an entry of its context by uid, by uri, or by both. The new list is on the
entry with the uid, unless an entry before it has the uri.
-/

open Base.Exchange
open Librespot.Tracks Option

namespace Librespot.Daemon

open AppPlayer PagedList

variable {g : Rand} {a : Answers} {list list' : TrackList} {req : PlayCommand}
  {snap : TrackList.Snapshot}

/-! ## The function -/

theorem PlayCommand.skipTo_eq (huid : req.trackUid ≠ "") :
    ∃ f : SkipTo, req.skipTo = some f ∧ ∀ i track, f i track =
      some (decide (track.uid = req.trackUid ∨ req.trackUri ≠ "" ∧ track.uri = req.trackUri)) := by
  refine ⟨_, if_neg fun h => huid h.2.1, fun i track => ?_⟩
  by_cases hu : req.trackUid = track.uid
  · rw [if_pos ⟨huid, hu⟩, decide_eq_true (.inl hu.symm)]
  · rw [if_neg fun h => hu h.2]
    by_cases huri : req.trackUri ≠ "" ∧ req.trackUri = track.uri
    · rw [if_pos huri, decide_eq_true (.inr ⟨huri.1, huri.2.symm⟩)]
    · have hneither : ¬ (track.uid = req.trackUid ∨ req.trackUri ≠ "" ∧ track.uri = req.trackUri) :=
        fun h => h.elim (fun h => hu h.symm) fun h => huri ⟨h.1, h.2.symm⟩
      rw [if_neg huri, if_neg fun h => huid h.2.2, decide_eq_false hneither]

/-! ## The new list -/

theorem toggleShuffle_entry {page : Pages ContextTrack} {draw : UInt64} {shuffle : Bool}
    (hv : list.tracks.Valid) (hoff : list.shuffled = false)
    (h : list.toggleShuffle g page draw shuffle = some (none, list')) :
    list'.tracks.entry = list.tracks.entry := by
  rcases TrackList.toggleShuffle_cases hv h with ⟨-, -, rfl⟩ | ⟨-, -, -, m, hm, rfl⟩ |
    ⟨-, hon, -⟩ | ⟨-, hon, -⟩
  · rfl
  · have hf := (TrackList.fetchAll_reads hm).fetched
    exact (entry_exchanges m _ (TrackList.onSwaps_lt g _ (hv.fetched hf))).trans (hf.entry_eq hv)
  · simp [hoff] at hon
  · simp [hoff] at hon

theorem foldl_addToQueue_context (queued : List ContextTrack) (list : TrackList) :
    (queued.foldl (fun list track => list.addToQueue track) list).tracks = list.tracks ∧
    (queued.foldl (fun list track => list.addToQueue track) list).playingQueue =
      list.playingQueue := by
  induction queued generalizing list with
  | nil => exact ⟨rfl, rfl⟩
  | cons track _ ih => exact ih (list.addToQueue track)

theorem uid_of_provided {typ : SpotifyIdType} {track : ContextTrack} {provided : ProvidedTrack}
    (h : contextTrackToProvidedTrack typ track = some provided) : provided.uid = track.uid := by
  by_cases huri : track.uri = ""
  · by_cases hgid : track.gid = []
    · simp [contextTrackToProvidedTrack, huri, hgid] at h
    · simp only [contextTrackToProvidedTrack, huri, hgid, ne_eq, not_true_eq_false, if_false,
        not_false_eq_true, if_true, run_eq_some] at h
      obtain ⟨uri, -, h⟩ := h
      exact (congrArg ProvidedTrack.uid (some.inj h)).symm
  · simp only [contextTrackToProvidedTrack, huri, ne_eq, not_false_eq_true, if_true] at h
    exact (congrArg ProvidedTrack.uid (some.inj h)).symm

theorem resolveContext_current {job : ResolveJob} {f : SkipTo}
    (hskip : job.skipTo = some f) (h : resolveContext g a job = some (.ok (list, snap))) :
    ∃ typ sought, (TrackList.newTrackList typ).trySeek (a.pages 1) (a.pages 2) f =
        some (none, sought) ∧
      ∃ x, sought.tracks.entry = some x ∧ snap.current.uid = x.item.uid := by
  obtain ⟨typ, first, sought, shuffled, hfirst, hsought, hshuffled, hsnap⟩ := resolveContext_spec h
  simp only [hskip, isNone_some, Bool.false_eq_true, if_false, some.injEq,
    Prod.mk.injEq, true_and] at hfirst
  subst hfirst
  rw [hskip, getD_some] at hsought
  have hmoved := TrackList.trySeek_moved valid_new hsought
  have hqueue := TrackList.trySeek_sameQueue hsought
  have hentry := toggleShuffle_entry hmoved.valid hmoved.same.shuffled hshuffled
  have hshuffledValid := TrackList.toggleShuffle_valid hmoved.valid hshuffled
  have hplaying := (TrackList.toggleShuffle_keeps hmoved.valid hshuffled).1.2.trans hqueue.2
  obtain ⟨htracks, hfolded⟩ := foldl_addToQueue_context job.queued shuffled
  generalize job.queued.foldl (fun list track => list.addToQueue track) shuffled = queued at *
  obtain ⟨⟨l, hf, rfl⟩, hcurrent⟩ := TrackList.snapshot_fetched (htracks ▸ hshuffledValid) hsnap
  have hl : l.entry = sought.tracks.entry := by
    rw [hf.entry_eq (htracks ▸ hshuffledValid), htracks, hentry]
  have hcontext : queued.playingQueue = false := hfolded.trans hplaying
  simp only [TrackList.currentTrack, TrackList.current, hcontext, Bool.false_eq_true, if_false,
    bind_eq_bind, PagedList.get, hl, bind_eq_some_iff, some.injEq] at hcurrent
  obtain ⟨_, ⟨x, hx, rfl⟩, hprovided⟩ := hcurrent
  exact ⟨typ, sought, hsought, x, hx, uid_of_provided hprovided⟩

theorem resolveContext_uid_iff {job : ResolveJob}
    {m : PagedList ContextTrack} {p : Nat} (hjob : job.skipTo = req.skipTo)
    (huid : req.trackUid ≠ "") (hm : Fetched (a.pages 1) PagedList.new m)
    (hfirst : TrackList.FirstWithUid req.trackUid m.list p)
    (h : resolveContext g a job = some (.ok (list, snap))) :
    snap.current.uid = req.trackUid ↔ ∀ i < p, ∀ y, m.list[i]? = some y →
      ¬ (req.trackUri ≠ "" ∧ y.item.uri = req.trackUri) := by
  obtain ⟨f, hskip, hf⟩ := PlayCommand.skipTo_eq huid
  obtain ⟨typ, sought, hsought, x, hx, hcurrent⟩ := resolveContext_current (hjob.trans hskip) h
  have hnext : 0 ≤ (TrackList.newTrackList typ).tracks.nextPageIdx :=
    TrackList.paged_nil.nextPageIdx_nonneg
  have haccepts : ∀ i track, track.uid = req.trackUid → f i track = some true := fun i track hu => by
    simp [hf, hu]
  have hiff := TrackList.seek_uid_iff hnext hm hfirst haccepts
  obtain ⟨⟨err, mid⟩, hseek, hsought⟩ := bind_eq_some_iff.mp hsought
  obtain rfl := TrackList.seek_uid_ok hnext hm hfirst haccepts hseek
  obtain rfl : mid = sought := (Prod.mk.inj (some.inj hsought)).2
  have hbefore : (∀ i < p, ∀ y, m.list[i]? = some y → f i y.item = some false) ↔
      ∀ i < p, ∀ y, m.list[i]? = some y → ¬ (req.trackUri ≠ "" ∧ y.item.uri = req.trackUri) :=
    forall₄_congr fun i hi y hy => by simp [hf, (hfirst.before i hi y hy).1]
  rw [← hbefore, ← hiff, hcurrent]
  constructor
  · intro hu
    exact ⟨mid, x, hseek, hx, hu⟩
  · rintro ⟨tl', y, hres, hy, hu⟩
    obtain rfl := (Prod.mk.inj (some.inj (hseek.symm.trans hres))).2
    obtain rfl := some.inj (hx.symm.trans hy)
    exact hu

theorem playCommand_resolves {m : Moment} {p p' : AppPlayer}
    (h : p.playCommand m req = some p') : ∃ job : ResolveJob, job.skipTo = req.skipTo ∧
      p'.loader = (p.loader.submit { cls := .load, gen := p.loadGen + 1, run := .resolve job }).2 := by
  simp only [playCommand, loadContext, run_eq_some] at h
  obtain ⟨origin, -, options, -, options', -, queued, -, h⟩ := h
  cases h
  exact ⟨_, rfl, rfl⟩

open Base.Run TrackList

/-- A jump and a play command end on the entry whose uid they name exactly if no entry before it is
taken for the same song. -/
theorem chosen_iff (g : Rand) (page : Pages ContextTrack) {uid : String} (huid : uid ≠ "") :
    (∀ (typ : SpotifyIdType) (ops : List TrackList.Op) (tl : TrackList) (target : ContextTrack)
      (m : PagedList ContextTrack) (i : Nat),
      exec (TrackList.step g) (newTrackList typ) ops = some tl → target.uid = uid →
      (∀ track ∈ tl.queue, track.uid ≠ uid) → Fetched page tl.tracks m →
      FirstWithUid uid m.list i →
      ((∃ tl' track, tl.trySeekTo page target = some (none, tl') ∧ tl'.current = some track ∧
        track.uid = uid) ↔ Singled tl.typ target m.list i)) ∧
    ∀ (moment : Moment) (p p' : AppPlayer) (req : PlayCommand),
      p.playCommand moment req = some p' → req.trackUid = uid → ∃ job : ResolveJob,
      p'.loader =
        (p.loader.submit { cls := .load, gen := p.loadGen + 1, run := .resolve job }).2 ∧
      ∀ (a : Answers) (list : TrackList) (snap : Snapshot) (m : PagedList ContextTrack) (i : Nat),
        a.pages 1 = page → Fetched page PagedList.new m → FirstWithUid uid m.list i →
        resolveContext g a job = some (.ok (list, snap)) →
        (snap.current.uid = uid ↔ ∀ j < i, ∀ y, m.list[j]? = some y →
          ¬ (req.trackUri ≠ "" ∧ y.item.uri = req.trackUri)) := by
  constructor
  · rintro typ ops tl target m i hrun rfl hfree hm hfirst
    exact trySeekTo_uid_iff (reachable_queued hrun) (reachable_paged hrun) huid hfree hm hfirst
  · rintro moment p p' req h rfl
    obtain ⟨job, hjob, hloader⟩ := playCommand_resolves h
    refine ⟨job, hloader, ?_⟩
    rintro a list snap m i rfl hm hfirst hres
    exact resolveContext_uid_iff hjob huid hm hfirst hres

def song : String := "spotify:track:0000000000000000000001"

def otherSong : String := "spotify:track:0000000000000000000002"

def pair (uri : String) : List ContextTrack :=
  [{ uri := song, uid := "first" }, { uri, uid := "second" }]

def paired (uri : String) : PagedList ContextTrack := ⟨PagedList.pageItems 0 (pair uri), -1⟩

theorem paired_fetched (uri : String) :
    Fetched (AppPlayer.onePage (pair uri)) PagedList.new (paired uri) := .next rfl (.refl _)

theorem paired_first (uri : String) : FirstWithUid "second" (paired uri).list 1 := by
  refine ⟨⟨_, rfl, rfl⟩, fun i hi y hy => ?_⟩
  obtain rfl : i = 0 := by omega
  cases hy
  exact ⟨by decide, by decide⟩

def playSecond (uri : String) : PlayCommand :=
  { context := {}, trackUid := "second", trackUri := uri }

theorem chosen_iff_second :
    (∃ tl' track, (newTrackList "track").trySeekTo (AppPlayer.onePage (pair otherSong))
        { uri := otherSong, uid := "second" } = some (none, tl') ∧
      tl'.current = some track ∧ track.uid = "second") ∧
    ∃ p' job, ({} : AppPlayer).playCommand { now := 0 } (playSecond otherSong) = some p' ∧
      p'.loader = (({} : AppPlayer).loader.submit { cls := .load, gen := 1, run := .resolve job }).2 ∧
      ∀ list snap, resolveContext drawZero (AppPlayer.served (pair otherSong)) job =
        some (.ok (list, snap)) → snap.current.uid = "second" := by
  have hsingled : Singled "track" { uri := otherSong, uid := "second" }
      (paired otherSong).list 1 := by
    refine ⟨otherSong, rfl, fun i hi y hy => ?_⟩
    obtain rfl : i = 0 := by omega
    cases hy
    exact ⟨by simp [SameSong, song, otherSong], .inl rfl⟩
  have hiff := chosen_iff drawZero (onePage (pair otherSong)) (by decide : "second" ≠ "")
  refine ⟨(hiff.1 "track" [] _ _ _ 1 rfl rfl (by simp [newTrackList]) (paired_fetched _)
    (paired_first _)).mpr hsingled, ?_⟩
  obtain ⟨p', hp⟩ : ∃ p', ({} : AppPlayer).playCommand { now := 0 } (playSecond otherSong) =
    some p' := ⟨_, rfl⟩
  obtain ⟨job, hloader, hjob⟩ := hiff.2 _ _ _ _ hp rfl
  refine ⟨p', job, hp, hloader, fun list snap hres => ?_⟩
  refine (hjob _ list snap _ 1 rfl (paired_fetched _) (paired_first _) hres).mpr
    fun i hi y hy => ?_
  obtain rfl : i = 0 := by omega
  cases hy
  simp [playSecond, song, otherSong]

/-- With the same song before it, that one plays. -/
theorem first_of_two_plays :
    Fetched (AppPlayer.onePage (pair song)) PagedList.new (paired song) ∧
    FirstWithUid "second" (paired song).list 1 ∧
    ((newTrackList "track").trySeekTo (AppPlayer.onePage (pair song))
      { uri := song, uid := "second" }).bind (fun r => r.2.current.map (·.uid)) =
      some "first" ∧
    (exec (AppPlayer.step AppPlayer.here drawZero) {}
      (.command { now := 0 } (.play (playSecond song)) ::
        AppPlayer.roundTrip 0 (AppPlayer.served (pair song)))).map
      (fun p => p.state.player.track.map (·.uid)) = some (some "first") := by
  refine ⟨paired_fetched _, paired_first _, ?_, ?_⟩
  · decide +kernel
  · decide +kernel

end Librespot.Daemon
