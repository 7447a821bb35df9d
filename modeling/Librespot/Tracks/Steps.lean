import Librespot.Tracks.Fetch
import Librespot.Tracks.Shuffle

/-! # What each operation does to the loaded list -/

open Base.Exchange List Option

namespace Librespot.Tracks

open PagedList

structure PagedList.Valid {α : Type} (l : PagedList α) : Prop where
  ge : -1 ≤ l.pos
  lt : l.pos < l.list.length

variable {α : Type}

theorem PagedList.Valid.fetched {page : Pages α} {l l' : PagedList α} (h : l.Valid)
    (hf : Fetched page l l') : l'.Valid := by
  obtain ⟨h1, h2⟩ := h
  have hpos := hf.pos_eq
  have hlen := hf.length_le
  exact ⟨by omega, by omega⟩

theorem Fetched.entry_eq {page : Pages α} {l l' : PagedList α} (hf : Fetched page l l')
    (h : l.Valid) : l'.entry = l.entry := by
  simp only [Marked.entry, hf.pos_eq]
  split
  · rfl
  · exact hf.getElem? (by have := h.lt; omega)

theorem PagedList.Valid.eq_new {l : PagedList α} (h : l.Valid) (hl : l.list = []) :
    l = PagedList.new := by
  obtain ⟨list, pos⟩ := l
  obtain ⟨h1, h2⟩ := h
  simp only at hl h1 h2
  subst hl
  simp only [length_nil] at h2
  rw [show pos = -1 by omega]
  rfl

theorem valid_new : (PagedList.new : PagedList α).Valid :=
  ⟨le_refl _, by simp [PagedList.new]⟩

theorem moveStart_cases {page : Pages α} {l l' : PagedList α} {err : Option Err}
    (h : l.moveStart page = (err, l')) :
    (err = none ∧ ∃ m, Reads page (l.list = []) l m ∧ m.list ≠ [] ∧ l' = { m with pos := 0 }) ∨
    (∃ e, err = some e) ∧ l.list = [] ∧ l' = l ∧ Reads page (l.list = []) l l := by
  unfold moveStart at h
  by_cases hl : l.list = []
  · rw [if_pos (by simp [hl])] at h
    rcases hf : l.fetchNextPage page with ⟨_ | e, m⟩
    · rw [hf] at h
      simp only [Prod.mk.injEq] at h
      refine .inl ⟨h.1.symm, m, .loaded hl hf (.refl m), ?_, h.2.symm⟩
      have := lt_length_of_fetch hf
      exact ne_nil_of_length_pos (by omega)
    · obtain rfl := fetchNextPage_err hf
      rw [hf] at h
      simp only at h
      right
      by_cases he : e.isEOF
      · rw [if_pos he, Prod.mk.injEq] at h
        exact ⟨⟨_, h.1.symm⟩, hl, h.2.symm, .refused hl hf⟩
      · rw [if_neg he, Prod.mk.injEq] at h
        exact ⟨⟨_, h.1.symm⟩, hl, h.2.symm, .refused hl hf⟩
  · rw [if_neg (by simp [hl]), Prod.mk.injEq] at h
    exact .inl ⟨h.1.symm, l, .idle hl, hl, h.2.symm⟩

namespace TrackList

section Seek

variable {page retry : Pages ContextTrack} {f : Int → ContextTrack → Option Bool}
  {x : PagedListItem ContextTrack}

theorem seekBody_next {i : Int} :
    seekBody f i x = some none ↔ f i x.item = some false ∧ x.pageIdx < seekMaxPages := by
  unfold seekBody
  rcases f i x.item with _ | _ | _
  · simp
  · by_cases h : x.pageIdx ≥ seekMaxPages
    · simp [h]
    · simp [h]
      omega
  · simp

theorem seekBody_found {i : Int} :
    seekBody f i x = some (some .found) ↔ f i x.item = some true := by
  unfold seekBody
  rcases f i x.item with _ | _ | _
  · simp
  · by_cases h : x.pageIdx ≥ seekMaxPages <;> simp [h]
  · simp

structure SeekHit (f : Int → ContextTrack → Option Bool) (list : List (PagedListItem ContextTrack))
    (p : Nat) : Prop where
  hit : ∃ x, list[p]? = some x ∧ f p x.item = some true
  passed : ∀ i < p, ∀ y, list[i]? = some y → f i y.item = some false ∧ y.pageIdx < seekMaxPages

theorem SeekHit.lt_length {list : List (PagedListItem ContextTrack)} {p : Nat}
    (h : SeekHit f list p) : p < list.length := by
  obtain ⟨x, hx, -⟩ := h.hit
  exact (List.getElem?_eq_some_iff.mp hx).1

theorem seek_spec {tl tl' : TrackList} {err : Option Err} (h : tl.seek page f = some (err, tl')) :
    ∃ m, Reads page (PassesEnd (seekBody f) (-1) tl.tracks) tl.tracks m ∧
      ((∃ p : Nat, err = none ∧ SeekHit f m.list p ∧ tl' = { tl with tracks := ⟨m.list, p⟩ }) ∨
      (∃ e, err = some e) ∧ tl' = { tl with tracks := m }) := by
  unfold seek at h
  simp only [run_eq_some, Prod.exists] at h
  obtain ⟨stop, iter, m, hw, h⟩ := h
  have hreads := walk_reads (by simp [Iter.start]) (by simp [Iter.start])
    (by simp only [Iter.start, walkFuel]; omega) hw
  refine ⟨m, hreads, ?_⟩
  rcases stop with (_ | pageIdx) | _ | _
  · obtain ⟨h1, ⟨x, hx, hb⟩, h3⟩ := walk_left (by simp [Iter.start]) (by simp [Iter.start]) hw
    simp only [some.injEq, Prod.mk.injEq] at h
    simp only [Iter.start] at h1 h3
    have hcast : ((iter.pos.toNat : Nat) : Int) = iter.pos := by omega
    refine .inl ⟨iter.pos.toNat, h.1.symm, ⟨⟨x, hx, ?_⟩, ?_⟩, ?_⟩
    · rw [hcast]
      exact seekBody_found.mp hb
    · intro i hi y hy
      exact seekBody_next.mp (h3 i y (by omega) (by omega) hy)
    · rw [hcast]
      exact h.2.symm
  · simp only [some.injEq, Prod.mk.injEq] at h
    exact .inr ⟨⟨_, h.1.symm⟩, h.2.symm⟩
  all_goals
    rcases hie : iter.err with _ | e
    all_goals
      simp only [hie, some.injEq, Prod.mk.injEq] at h
      exact .inr ⟨⟨_, h.1.symm⟩, h.2.symm⟩

end Seek

/-! ## Which calls run past the end -/

def noPages : Pages ContextTrack := fun _ => .error { text := "", isEOF := true }

def Op.page : Op → Pages ContextTrack
  | .seek page _ => page
  | .trySeek page _ _ => page
  | .trySeekTo page _ => page
  | .goStart page => page
  | .goNext page => page
  | .peekNext page => page
  | .nextTracks page _ => page
  | .toggleShuffle page _ _ => page
  | _ => noPages

def Op.retry : Op → Pages ContextTrack
  | .trySeek _ retry _ => retry
  | _ => noPages

def nextLeft (tl : TrackList) : Nat :=
  maxTracksInContext - (if tl.playingQueue then tl.queue.tail else tl.queue).length

def Op.asks (tl : TrackList) : Op → Prop
  | .seek _ f => PassesEnd (seekBody f) (-1) tl.tracks
  | .trySeek _ _ f => PassesEnd (seekBody f) (-1) tl.tracks
  | .trySeekTo _ track => (∃ tl', tl.seekQueue track = some (false, tl')) ∧
      ∃ isTarget, contextTrackComparator tl.typ track = some isTarget ∧
        PassesEnd (seekBody fun _ => isTarget) (-1) tl.tracks
  | .goStart _ => tl.tracks.list = []
  | .goNext _ => (if tl.playingQueue then tl.queue.tail else tl.queue) = [] ∧
      tl.tracks.pos + 1 = tl.tracks.list.length
  | .peekNext _ => (if tl.playingQueue then tl.queue.tail else tl.queue) = [] ∧
      tl.tracks.pos + 1 = tl.tracks.list.length
  | .nextTracks _ nextHint => nextHint = none ∧
      tl.tracks.list.length ≤ tl.tracks.pos + tl.nextLeft
  | .toggleShuffle _ _ shuffle => shuffle = true ∧ tl.shuffled = false ∧
      PassesEnd fetchAllBody (-1) tl.tracks
  | _ => False

/-! ## Operations that leave the order alone -/

structure SameShuffle (tl tl' : TrackList) : Prop where
  typ : tl'.typ = tl.typ
  shuffled : tl'.shuffled = tl.shuffled
  shuffleSeed : tl'.shuffleSeed = tl.shuffleSeed
  shuffleLen : tl'.shuffleLen = tl.shuffleLen
  shuffleKeep : tl'.shuffleKeep = tl.shuffleKeep

/-- What an operation other than `toggleShuffle` does: it moves the cursor, and new entries only
come at the end, or one at the front that belongs to no page. -/
structure Moved (op : Op) (tl tl' : TrackList) : Prop where
  valid : tl'.tracks.Valid
  same : SameShuffle tl tl'
  tracks : ∃ m, (Reads op.page (op.asks tl) tl.tracks m ∨
      (tl.tracks.list = [] ∧ Fetched op.retry PagedList.new m)) ∧
    (tl'.tracks.list = m.list ∨ ∃ item, tl'.tracks.list = ⟨item, -1, -1⟩ :: m.list)

variable {op : Op} {tl tl' : TrackList} {err : Option Err} {track : ContextTrack}
  {page : Pages ContextTrack} {f : Int → ContextTrack → Option Bool} {m : PagedList ContextTrack}

theorem moved_of_reads (hr : Reads op.page (op.asks tl) tl.tracks m) (hl : tl'.tracks.list = m.list)
    (hv : tl'.tracks.Valid) (hs : SameShuffle tl tl') : Moved op tl tl' :=
  ⟨hv, hs, m, .inl hr, .inl hl⟩

theorem moved_of_not_asks (ha : ¬ op.asks tl) (hl : tl'.tracks.list = tl.tracks.list)
    (hv : tl'.tracks.Valid) (hs : SameShuffle tl tl') : Moved op tl tl' :=
  moved_of_reads (.idle ha) hl hv hs

theorem seek_moved (hv : tl.tracks.Valid) (h : tl.seek page f = some (err, tl')) :
    Moved (.seek page f) tl tl' := by
  obtain ⟨m, hr, ⟨p, -, hit, rfl⟩ | ⟨-, rfl⟩⟩ := seek_spec h
  · have := hit.lt_length
    exact moved_of_reads hr rfl ⟨by simp only; omega, by simp only; omega⟩ ⟨rfl, rfl, rfl, rfl, rfl⟩
  · exact moved_of_reads hr rfl (hv.fetched hr.fetched) ⟨rfl, rfl, rfl, rfl, rfl⟩

theorem valid_zero (h : m.list ≠ []) : PagedList.Valid { m with pos := 0 } := by
  have := length_pos_of_ne_nil h
  exact ⟨by simp only; omega, by simp only; omega⟩

theorem trySeek_moved {page retry : Pages ContextTrack} (hv : tl.tracks.Valid)
    (h : tl.trySeek page retry f = some (err, tl')) : Moved (.trySeek page retry f) tl tl' := by
  unfold trySeek at h
  simp only [run_eq_some] at h
  obtain ⟨⟨serr, mid⟩, hs, h⟩ := h
  obtain ⟨hmv, hmsame, m, hr, hlist⟩ := seek_moved hv hs
  obtain ⟨m', hr', hseek⟩ := seek_spec hs
  rcases hseek with ⟨p, rfl, -, rfl⟩ | ⟨⟨e, rfl⟩, rfl⟩
  · simp only [some.injEq, Prod.mk.injEq] at h
    exact moved_of_reads hr' (by rw [← h.2]) (by rwa [← h.2]) (by rwa [← h.2])
  · cases h
    rcases hms : moveStart retry m' with ⟨merr, last⟩
    rcases moveStart_cases hms with ⟨-, k, hk, hne, rfl⟩ | ⟨-, hnil, rfl, -⟩
    · by_cases hnil : m'.list = []
      · -- Nothing was loaded before either, so the second attempt starts from the empty list.
        have hnil' : tl.tracks.list = [] := by
          have := hr'.fetched.length_le
          rw [hnil] at this
          exact eq_nil_of_length_eq_zero (by simpa using this)
        obtain rfl := hmv.eq_new hnil
        exact ⟨valid_zero hne, ⟨rfl, rfl, rfl, rfl, rfl⟩, k, .inr ⟨hnil', hk.fetched⟩, .inl rfl⟩
      · cases hk with
        | idle => exact moved_of_reads hr' rfl (valid_zero hne) ⟨rfl, rfl, rfl, rfl, rfl⟩
        | refused h | loaded h => exact absurd h hnil
    · exact moved_of_reads hr' rfl hmv ⟨rfl, rfl, rfl, rfl, rfl⟩

def waiting (tl : TrackList) : List ContextTrack :=
  if tl.playingQueue then tl.queue.tail else tl.queue

theorem waiting_suffix (tl : TrackList) : tl.waiting <:+ tl.queue := by
  unfold waiting
  split
  · exact tail_suffix _
  · exact suffix_refl _

theorem dropUntil_cases {f : ContextTrack → Option Bool} {queue : List ContextTrack}
    {rest : Option (List ContextTrack)} (h : dropUntil f queue = some rest) :
    (rest = none ∧ ∀ track ∈ queue, f track = some false) ∨
    ∃ before hit after, queue = before ++ hit :: after ∧ rest = some (hit :: after) ∧
      f hit = some true ∧ ∀ track ∈ before, f track = some false := by
  induction queue with
  | nil => exact .inl ⟨(some.inj h).symm, by simp⟩
  | cons queued queue ih =>
    obtain ⟨found, hfound, h⟩ := bind_eq_some_iff.mp h
    cases found with
    | true => exact .inr ⟨[], queued, queue, rfl, (some.inj h).symm, hfound, by simp⟩
    | false =>
      rcases ih (by simpa using h) with ⟨hnone, hall⟩ | ⟨before, hit, after, rfl, hrest, hhit, hall⟩
      · exact .inl ⟨hnone, forall_mem_cons.mpr ⟨hfound, hall⟩⟩
      · exact .inr ⟨queued :: before, hit, after, rfl, hrest, hhit,
          forall_mem_cons.mpr ⟨hfound, hall⟩⟩

theorem drop_eq_waiting (tl : TrackList) :
    tl.queue.drop (if tl.playingQueue then 1 else 0) = tl.waiting := by
  unfold waiting
  split
  · exact drop_one
  · rfl

/-- How `seekQueue` tells whether an entry of the queue is the track: by the uid if the track has
one. -/
def queueTest (typ : SpotifyIdType) (track : ContextTrack) :
    Option (ContextTrack → Option Bool) :=
  if track.uid = "" then contextTrackComparator typ track
  else some fun queued => some (decide (queued.uid = track.uid))

theorem seekQueue_eq_test (track : ContextTrack) :
    tl.seekQueue track = (queueTest tl.typ track).bind fun isTarget =>
      (dropUntil isTarget tl.waiting).map fun rest =>
        rest.elim (false, tl) fun queue => (true, { tl with queue, playingQueue := true }) := by
  unfold seekQueue queueTest
  by_cases huid : track.uid = ""
  · simp only [bind_eq_bind, huid, if_true, drop_eq_waiting]
    congr 1
    funext isTarget
    rcases dropUntil isTarget tl.waiting with _ | _ | queue <;> rfl
  · simp only [bind_eq_bind, huid, if_false, bind_some, drop_eq_waiting]
    rcases dropUntil (fun queued => some (decide (queued.uid = track.uid))) tl.waiting with
      _ | _ | queue <;> rfl

theorem seekQueue_cases {found : Bool} (h : tl.seekQueue track = some (found, tl')) :
    (found = true ∧ ∃ queue, queue ≠ [] ∧ queue <:+ tl.waiting ∧
      tl' = { tl with queue, playingQueue := true }) ∨ found = false ∧ tl' = tl := by
  simp only [seekQueue_eq_test, bind_eq_some_iff, map_eq_some_iff] at h
  obtain ⟨isTarget, -, rest, hrest, h⟩ := h
  rcases dropUntil_cases hrest with ⟨rfl, -⟩ | ⟨before, hit, after, hahead, rfl, -, -⟩
  · obtain ⟨rfl, rfl⟩ := Prod.mk.inj h
    exact .inr ⟨rfl, rfl⟩
  · obtain ⟨rfl, rfl⟩ := Prod.mk.inj h
    exact .inl ⟨rfl, hit :: after, by simp, ⟨before, hahead.symm⟩, rfl⟩

theorem trySeekTo_ok (h : tl.trySeekTo page track = some (err, tl')) : err = none := by
  simp only [trySeekTo, Option.bind_eq_bind, Option.bind_eq_some_iff, Prod.exists] at h
  obtain ⟨found, l, -, h⟩ := h
  cases found with
  | true => exact (Prod.mk.inj (Option.some.inj h)).1.symm
  | false =>
    simp only at h
    split at h
    · simp at h
    · simp only [Option.bind_eq_some_iff, Prod.exists] at h
      obtain ⟨isTarget, -, missed, l', -, h⟩ := h
      cases missed <;> exact (Prod.mk.inj (Option.some.inj h)).1.symm

theorem trySeekTo_context (hq : tl.seekQueue track = some (false, tl))
    (h : tl.trySeekTo page track = some (err, tl')) :
    ∃ queue playingQueue isTarget serr mid, contextTrackComparator tl.typ track = some isTarget ∧
      { tl with queue, playingQueue }.seek page (fun _ => isTarget) = some (serr, mid) ∧
      (tl' = mid ∨ tl' = { mid with tracks := mid.tracks.moveInjected track }) := by
  unfold trySeekTo at h
  simp only [bind_eq_bind, hq, bind_some] at h
  by_cases hp : tl.playingQueue ∧ tl.queue = []
  · simp [hp] at h
  · rw [if_neg hp] at h
    simp only [bind_eq_some_iff] at h
    obtain ⟨isTarget, hcmp, ⟨serr, mid⟩, hs, h⟩ := h
    rcases serr with _ | e
    all_goals
      simp only [some.injEq, Prod.mk.injEq] at h
      by_cases hpq : tl.playingQueue
      · simp only [hpq, if_true] at hcmp hs
        exact ⟨_, _, isTarget, _, mid, hcmp, hs, by simp [h.2]⟩
      · simp only [hpq] at hcmp hs
        exact ⟨tl.queue, tl.playingQueue, isTarget, _, mid, hcmp, by simpa using hs, by simp [h.2]⟩

theorem trySeekTo_moved (hv : tl.tracks.Valid)
    (h : tl.trySeekTo page track = some (err, tl')) : Moved (.trySeekTo page track) tl tl' := by
  have hqueue : ∃ found mid, tl.seekQueue track = some (found, mid) := by
    unfold trySeekTo at h
    simp only [run_eq_some, Prod.exists] at h
    obtain ⟨found, mid, hq, -⟩ := h
    exact ⟨found, mid, hq⟩
  obtain ⟨found, mid, hq⟩ := hqueue
  rcases seekQueue_cases hq with ⟨rfl, queue, -, -, rfl⟩ | ⟨rfl, hmid⟩
  · simp only [trySeekTo, bind_eq_bind, hq, bind_some, some.injEq, Prod.mk.injEq] at h
    obtain ⟨-, rfl⟩ := h
    refine moved_of_not_asks ?_ rfl hv ⟨rfl, rfl, rfl, rfl, rfl⟩
    rintro ⟨⟨tl', hq'⟩, -⟩
    simp [hq] at hq'
  · rw [hmid] at hq
    obtain ⟨queue, playingQueue, isTarget, serr, mid, hcmp, hs, hmid⟩ := trySeekTo_context hq h
    obtain ⟨m, hr, hseek⟩ := seek_spec hs
    have hreads : Reads page (Op.asks tl (.trySeekTo page track)) tl.tracks m := by
      refine hr.congr ⟨fun hp => ⟨⟨_, hq⟩, isTarget, hcmp, hp⟩, ?_⟩
      rintro ⟨-, isTarget', hcmp', hp⟩
      rw [hcmp, some.injEq] at hcmp'
      exact hcmp' ▸ hp
    have hqv : PagedList.Valid { tl with queue, playingQueue }.tracks := hv
    obtain ⟨hmv, hmsame, -⟩ := seek_moved hqv hs
    have hsame : SameShuffle tl mid := ⟨hmsame.1, hmsame.2, hmsame.3, hmsame.4, hmsame.5⟩
    have hlist : mid.tracks.list = m.list := by
      rcases hseek with ⟨p, -, -, rfl⟩ | ⟨-, rfl⟩ <;> rfl
    rcases hmid with rfl | rfl
    · exact moved_of_reads hreads hlist hmv hsame
    · refine ⟨?_, ⟨hsame.1, hsame.2, hsame.3, hsame.4, hsame.5⟩, m, .inl hreads, .inr ⟨track, ?_⟩⟩
      · exact ⟨by simp [moveInjected], by simp [moveInjected]⟩
      · simp [moveInjected, hlist]

theorem goStart_moved (hv : tl.tracks.Valid) : Moved (.goStart page) tl (tl.goStart page).2 := by
  unfold goStart
  rcases hms : tl.tracks.moveStart page with ⟨err, l⟩
  rcases moveStart_cases hms with ⟨rfl, m, hr, hne, rfl⟩ | ⟨⟨e, rfl⟩, -, rfl, hr⟩
  · exact moved_of_reads hr rfl (valid_zero hne) ⟨rfl, rfl, rfl, rfl, rfl⟩
  · exact moved_of_reads hr rfl hv ⟨rfl, rfl, rfl, rfl, rfl⟩

theorem here_eq_some {α : Type} {l : PagedList α} {iter : Iter} (h : Iter.here l = some iter) :
    0 ≤ l.pos ∧ iter = { pos := l.pos } := by
  unfold Iter.here at h
  by_cases hp : l.pos < 0
  · simp [hp] at h
  · rw [if_neg hp, some.injEq] at h
    exact ⟨by omega, h.symm⟩

theorem goNext_moved {ok : Bool} (hv : tl.tracks.Valid)
    (h : tl.goNext page = some (ok, tl')) : Moved (.goNext page) tl tl' := by
  unfold goNext at h
  by_cases hp : tl.playingQueue ∧ tl.queue = []
  · simp [hp] at h
  rw [if_neg hp] at h
  have hqueue : (if tl.playingQueue then { tl with queue := tl.queue.tail } else tl) =
      { tl with queue := if tl.playingQueue then tl.queue.tail else tl.queue } := by
    split <;> rfl
  simp only [hqueue] at h
  by_cases hq : (if tl.playingQueue then tl.queue.tail else tl.queue) = []
  · rw [if_neg (by simp [hq])] at h
    simp only [run_eq_some] at h
    obtain ⟨iter, hiter, h⟩ := h
    obtain ⟨hpos, rfl⟩ := here_eq_some hiter
    have hle : tl.tracks.pos + 1 ≤ tl.tracks.list.length := by have := hv.lt; omega
    have hreads := Iter.next_reads page { pos := tl.tracks.pos } tl.tracks hle
    have hasks : Reads page (Op.asks tl (.goNext page)) tl.tracks
        (Iter.next page { pos := tl.tracks.pos } tl.tracks).2.2 :=
      hreads.congr ⟨fun he => ⟨hq, he⟩, fun he => he.2⟩
    rcases Iter.next_cases page { pos := tl.tracks.pos } tl.tracks hle with
      ⟨hlt, he⟩ | ⟨heq, l', hf, he⟩ | ⟨heq, err, e, hf, he⟩
    · simp only [he, some.injEq, Prod.mk.injEq] at h hasks
      obtain ⟨-, rfl⟩ := h
      exact moved_of_reads hasks rfl ⟨by simp only; omega, hlt⟩ ⟨rfl, rfl, rfl, rfl, rfl⟩
    · simp only [he, some.injEq, Prod.mk.injEq] at h hasks
      obtain ⟨-, rfl⟩ := h
      have := lt_length_of_fetch hf
      simp only at heq
      exact moved_of_reads hasks rfl ⟨by simp only; omega, by simp only; omega⟩
        ⟨rfl, rfl, rfl, rfl, rfl⟩
    · simp only [he, some.injEq, Prod.mk.injEq] at h hasks
      obtain ⟨-, rfl⟩ := h
      exact moved_of_reads hasks rfl hv ⟨rfl, rfl, rfl, rfl, rfl⟩
  · rw [if_pos (length_pos_of_ne_nil hq)] at h
    cases h
    exact moved_of_not_asks (fun ha => hq ha.1) rfl hv ⟨rfl, rfl, rfl, rfl, rfl⟩

theorem goPrev_moved {ok : Bool} (hv : tl.tracks.Valid) (h : tl.goPrev = some (ok, tl')) :
    Moved .goPrev tl tl' := by
  unfold goPrev at h
  simp only [run_eq_some] at h
  obtain ⟨iter, hiter, ⟨moved, iter'⟩, hprev, h⟩ := h
  obtain ⟨hpos, rfl⟩ := here_eq_some hiter
  simp only [Iter.prev] at hprev hpos
  rw [if_neg (by omega)] at hprev
  have hlt := hv.lt
  by_cases h0 : tl.tracks.pos = 0
  · rw [if_pos h0, some.injEq, Prod.mk.injEq] at hprev
    obtain ⟨rfl, rfl⟩ := hprev
    cases h
    exact moved_of_not_asks id rfl hv ⟨rfl, rfl, rfl, rfl, rfl⟩
  · rw [if_neg h0, some.injEq, Prod.mk.injEq] at hprev
    obtain ⟨rfl, rfl⟩ := hprev
    cases h
    exact moved_of_not_asks id rfl ⟨by simp only; omega, by simp only; omega⟩
      ⟨rfl, rfl, rfl, rfl, rfl⟩

theorem peekNext_moved {next : Option ContextTrack} (hv : tl.tracks.Valid)
    (h : tl.peekNext page = some (next, tl')) : Moved (.peekNext page) tl tl' := by
  unfold peekNext at h
  by_cases hq : (if tl.playingQueue then tl.queue.tail else tl.queue) = []
  · have hnone : ¬ (tl.playingQueue ∧ tl.queue.length > 1) ∧
        ¬ (¬ tl.playingQueue ∧ tl.queue.length > 0) := by
      cases hp : tl.playingQueue <;> rcases hqq : tl.queue with _ | ⟨a, _ | ⟨b, q⟩⟩ <;>
        simp_all
    rw [if_neg hnone.1, if_neg hnone.2] at h
    simp only [Option.bind_eq_bind, Option.bind_eq_some_iff] at h
    obtain ⟨iter, hiter, h⟩ := h
    obtain ⟨hpos, rfl⟩ := here_eq_some hiter
    have hle : tl.tracks.pos + 1 ≤ tl.tracks.list.length := by have := hv.lt; omega
    have hreads := Iter.next_reads page { pos := tl.tracks.pos } tl.tracks hle
    rcases hn : Iter.next page { pos := tl.tracks.pos } tl.tracks with ⟨more, iter, l⟩
    rw [hn] at h hreads
    have htl : tl' = { tl with tracks := l } := by
      cases more with
      | true =>
        simp only [Option.bind_eq_some_iff, Option.some.injEq, Prod.mk.injEq] at h
        obtain ⟨curr, -, -, h⟩ := h
        exact h.symm
      | false =>
        simp only [Option.some.injEq, Prod.mk.injEq] at h
        exact h.2.symm
    subst htl
    exact moved_of_reads (hreads.congr ⟨fun he => ⟨hq, he⟩, fun he => he.2⟩) rfl
      (hv.fetched hreads.fetched) ⟨rfl, rfl, rfl, rfl, rfl⟩
  · have htl : tl' = tl := by
      have hsome : (tl.playingQueue ∧ tl.queue.length > 1) ∨
          (¬ tl.playingQueue ∧ tl.queue.length > 0) := by
        cases hp : tl.playingQueue <;> rcases hqq : tl.queue with _ | ⟨a, _ | ⟨b, q⟩⟩ <;>
          simp_all
      rcases hsome with h1 | h1
      · rw [if_pos h1, Option.some.injEq, Prod.mk.injEq] at h
        exact h.2.symm
      · rw [if_neg (fun h2 => h1.1 h2.1), if_pos h1, Option.some.injEq, Prod.mk.injEq] at h
        exact h.2.symm
    subst htl
    exact moved_of_not_asks (fun ha => hq ha.1) rfl hv ⟨rfl, rfl, rfl, rfl, rfl⟩

theorem nextLoop_reads {typ : SpotifyIdType} {n : Nat} {iter : Iter}
    {l l' : PagedList ContextTrack} {tracks : List ProvidedTrack}
    (hle : iter.pos + 1 ≤ l.list.length) (h : nextLoop typ page n iter l = some (tracks, l')) :
    Reads page (l.list.length ≤ iter.pos + n) l l' := by
  induction n generalizing iter l tracks with
  | zero =>
    simp only [nextLoop, some.injEq, Prod.mk.injEq] at h
    rw [← h.2]
    exact .idle (by omega)
  | succ _ ih =>
    unfold nextLoop at h
    rcases iter.next_cases page l hle with ⟨hlt, he⟩ | ⟨heq, m, hf, he⟩ | ⟨heq, err, e, hf, he⟩
    · simp only [he, run_eq_some, Prod.exists, some.injEq, Prod.mk.injEq] at h
      obtain ⟨-, -, -, -, rest, l'', hrest, -, rfl⟩ := h
      exact (ih (by simp only; omega) hrest).congr (by simp only; omega)
    · simp only [he, run_eq_some, Prod.exists, some.injEq, Prod.mk.injEq] at h
      obtain ⟨-, -, -, -, rest, l'', hrest, -, rfl⟩ := h
      have := lt_length_of_fetch hf
      exact .loaded (by omega) hf (ih (by simp only; omega) hrest).fetched
    · simp only [he, some.injEq, Prod.mk.injEq] at h
      rw [← h.2]
      exact .refused (by omega) hf

theorem length_of_mapM {α β : Type} {f : α → Option β} {xs : List α} {ys : List β}
    (h : xs.mapM f = some ys) : ys.length = xs.length := by
  induction xs generalizing ys with
  | nil =>
    cases h
    rfl
  | cons _ _ ih =>
    simp only [mapM_cons, run_eq_some, Option.pure_def, some.injEq] at h
    obtain ⟨y, -, ys', hys, rfl⟩ := h
    simp [ih hys]

theorem nextTracks_moved {nextHint : Option (List ContextTrack)} {next : List ProvidedTrack}
    (hv : tl.tracks.Valid) (h : tl.nextTracks page nextHint = some (next, tl')) :
    Moved (.nextTracks page nextHint) tl tl' := by
  unfold nextTracks at h
  simp only [Option.bind_eq_bind, Option.bind_eq_some_iff] at h
  obtain ⟨tracks, htracks, h⟩ := h
  cases nextHint with
  | some =>
    simp only [Option.bind_eq_some_iff, Option.some.injEq, Prod.mk.injEq] at h
    obtain ⟨-, -, -, rfl⟩ := h
    exact moved_of_not_asks (fun ha => by simp [Op.asks] at ha) rfl hv ⟨rfl, rfl, rfl, rfl, rfl⟩
  | none =>
    simp only [Option.bind_eq_some_iff, Prod.exists, Option.some.injEq, Prod.mk.injEq] at h
    obtain ⟨iter, hiter, rest, l, hloop, -, rfl⟩ := h
    obtain ⟨hpos, rfl⟩ := here_eq_some hiter
    have hleft : maxTracksInContext - tracks.length = tl.nextLeft := by
      rw [length_of_mapM htracks, List.length_take]
      unfold nextLeft
      omega
    rw [hleft] at hloop
    have hr := nextLoop_reads (by have := hv.lt; simp only; omega) hloop
    exact moved_of_reads (hr.congr ⟨fun ha => ⟨rfl, ha⟩, fun ha => ha.2⟩) rfl
      (hv.fetched hr.fetched) ⟨rfl, rfl, rfl, rfl, rfl⟩

def Op.isToggle : Op → Bool
  | .toggleShuffle _ _ _ => true
  | _ => false

theorem step_moved {g : Rand} (hop : op.isToggle = false) (hv : tl.tracks.Valid)
    (h : step g tl op = some tl') : Moved op tl tl' := by
  cases op with
  | seek =>
    obtain ⟨err, hs⟩ := map_snd_eq_some.mp h
    exact seek_moved hv hs
  | trySeek =>
    obtain ⟨err, hs⟩ := map_snd_eq_some.mp h
    exact trySeek_moved hv hs
  | trySeekTo =>
    obtain ⟨err, hs⟩ := map_snd_eq_some.mp h
    exact trySeekTo_moved hv hs
  | goStart =>
    cases h
    exact goStart_moved hv
  | goNext =>
    obtain ⟨ok, hs⟩ := map_snd_eq_some.mp h
    exact goNext_moved hv hs
  | goPrev =>
    obtain ⟨ok, hs⟩ := map_snd_eq_some.mp h
    exact goPrev_moved hv hs
  | peekNext =>
    obtain ⟨next, hs⟩ := map_snd_eq_some.mp h
    exact peekNext_moved hv hs
  | nextTracks =>
    obtain ⟨next, hs⟩ := map_snd_eq_some.mp h
    exact nextTracks_moved hv hs
  | addToQueue =>
    cases h
    exact moved_of_not_asks id rfl hv ⟨rfl, rfl, rfl, rfl, rfl⟩
  | setQueue =>
    simp only [step, setQueue] at h
    split at h
    · simp at h
    · rw [some.injEq] at h
      rw [← h]
      exact moved_of_not_asks id rfl hv ⟨rfl, rfl, rfl, rfl, rfl⟩
  | setPlayingQueue =>
    cases h
    exact moved_of_not_asks id rfl hv ⟨rfl, rfl, rfl, rfl, rfl⟩
  | toggleShuffle => simp [Op.isToggle] at hop

end TrackList

end Librespot.Tracks
