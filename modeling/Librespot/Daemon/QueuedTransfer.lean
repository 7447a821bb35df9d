import Librespot.Daemon.ListWalks
import Librespot.Tracks.PlayedAhead

/-!
# A transfer while the queue plays

The transferred queue is added to a list that stands one entry before the one the context resumes
at. With nothing before it, the queued track itself is looked for in the context instead.
-/

open Base.Exchange Base.Run

namespace Librespot.Tracks

open PagedList

/-! ## The order of what is fetched -/

def Before (x y : PagedListItem ContextTrack) : Prop :=
  x.pageIdx < y.pageIdx ∨ x.pageIdx = y.pageIdx ∧ x.itemIdx < y.itemIdx

def PageOrdered (list : List (PagedListItem ContextTrack)) : Prop := list.Pairwise Before

theorem pageOrdered_pageItems (pageIdx : Int) (items : List ContextTrack) :
    PageOrdered (PagedList.pageItems pageIdx items) := by
  unfold PageOrdered pageItems
  rw [List.pairwise_iff_getElem]
  intro i j hi hj hij
  simp only [List.getElem_map, List.getElem_zipIdx]
  exact .inr ⟨rfl, by simp only; omega⟩

theorem PageOrdered.le_last {list : List (PagedListItem ContextTrack)}
    {last x : PagedListItem ContextTrack} (h : PageOrdered list) (hlast : list.getLast? = some last)
    (hx : x ∈ list) : x.pageIdx ≤ last.pageIdx := by
  obtain ⟨front, rfl⟩ := List.getLast?_eq_some_iff.mp hlast
  rcases List.mem_append.mp hx with hx | hx
  · have hbefore := (List.pairwise_append.mp h).2.2 x hx last List.mem_cons_self
    unfold Before at hbefore
    omega
  · rw [List.mem_singleton.mp hx]

theorem PageOrdered.fetched {page : Pages ContextTrack} {l m : PagedList ContextTrack}
    (h : PageOrdered l.list) (hm : Fetched page l m) : PageOrdered m.list := by
  induction hm with
  | refl => exact h
  | @next l _ _ hf _ ih =>
    apply ih
    obtain ⟨items, -, -, rfl⟩ := fetchNextPage_ok_iff.mp hf
    refine List.pairwise_append.mpr ⟨h, pageOrdered_pageItems _ items, fun x hx y hy => .inl ?_⟩
    obtain ⟨j, -, hpage, -⟩ := mem_pageItems.mp hy
    unfold nextPageIdx at hpage
    split at hpage
    · rename_i hnone
      rw [List.getLast?_eq_none_iff.mp hnone] at hx
      simp at hx
    · rename_i last hlast
      have := h.le_last hlast hx
      omega

namespace TrackList

variable {tl : TrackList}

/-! ## Playing the queue through -/

theorem exec_goNext_queued (g : Rand) (rest : List (Pages ContextTrack)) (h : tl.Positioned)
    (hplaying : tl.playingQueue = true) (hlen : rest.length < tl.queue.length) :
    exec (step g) tl (rest.map Op.goNext) =
      some { tl with queue := tl.queue.drop rest.length } := by
  induction rest generalizing tl with
  | nil => rfl
  | cons page rest ih =>
    have hwaiting : tl.waiting = tl.queue.tail := by simp [waiting, hplaying]
    have hlen' : rest.length < tl.queue.tail.length := by
      simp only [List.length_cons] at hlen
      rw [List.length_tail]
      omega
    have hne : tl.queue.tail ≠ [] := List.ne_nil_of_length_pos (by omega)
    have hstep : step g tl (.goNext page) =
        some { tl with queue := tl.queue.tail, playingQueue := true } := by
      simp only [step, goNext_queued page h (hwaiting ▸ hne), hwaiting]
      rfl
    have hpos : TrackList.Positioned { tl with queue := tl.queue.tail, playingQueue := true } :=
      ⟨fun _ => hne, h.nonneg, h.lt⟩
    rw [List.map_cons, exec_cons, hstep, Option.bind_some, ih hpos rfl hlen']
    simp [hplaying]

theorem goNext_resumes (next : Pages ContextTrack) (h : tl.Positioned) (hnil : tl.waiting = []) :
    ∃ ok after, tl.goNext next = some (ok, after) ∧ after.playingQueue = false ∧
      (tl.tracks.pos + 1 < tl.tracks.list.length → ok = true) ∧
      (ok = true → ∃ l, Fetched next tl.tracks l ∧
        after.tracks.entry = l.list[tl.tracks.pos.toNat + 1]?) := by
  have h0 := h.nonneg
  have hlt := h.lt
  have hentry (l : PagedList ContextTrack) : Marked.entry ⟨l.list, tl.tracks.pos + 1⟩ =
      l.list[tl.tracks.pos.toNat + 1]? := by
    unfold Marked.entry
    rw [if_neg (by simp only; omega)]
    simp only [show (tl.tracks.pos + 1).toNat = tl.tracks.pos.toNat + 1 by omega]
  rcases Iter.next_cases next { pos := tl.tracks.pos } tl.tracks (by simp only; omega) with
    ⟨-, he⟩ | ⟨-, l, hf, he⟩ | ⟨heq, err, e, -, he⟩
  · exact ⟨true, _, goNext_context h hnil he, rfl, fun _ => rfl,
      fun _ => ⟨_, .refl _, hentry tl.tracks⟩⟩
  · exact ⟨true, _, goNext_context h hnil he, rfl, fun _ => rfl,
      fun _ => ⟨l, .next hf (.refl l), hentry l⟩⟩
  · refine ⟨false, _, goNext_context h hnil he, rfl, fun hmore => ?_, by simp⟩
    simp only at heq
    omega

/-! ## The entry the context resumes at -/

section

variable {typ : SpotifyIdType} {page : Pages ContextTrack} {uid : String}
  {f : Int → ContextTrack → Option Bool}

theorem comparator_uid (uid : String) :
    contextTrackComparator "track" { uid } = some (isSame "track" { uid } "") := by
  rw [comparator_eq]
  rfl

theorem gidUri_ne_empty {gid : Bytes} : gidUri typ gid ≠ some "" := by
  unfold gidUri spotifyIdFromGid SpotifyId.uri
  split
  · simp only [Option.bind_some, ne_eq, Option.map_eq_some_iff, not_exists, not_and]
    intro digits _ hempty
    have hlen := congrArg String.length hempty
    simp only [String.length_append] at hlen
    have hword : "spotify:".length = 8 := by decide
    have hzero : "".length = 0 := by decide
    omega
  · simp

theorem isSame_uid {track : ContextTrack} (huid : uid ≠ "") :
    isSame "track" { uid } "" track = some true ↔ track.uid = uid := by
  rw [isSame_eq_true]
  constructor
  · rintro (⟨-, h⟩ | ⟨hne, h⟩ | ⟨-, h⟩)
    · exact h
    · exact absurd h hne
    · exact absurd h gidUri_ne_empty
  · exact fun h => .inl ⟨h ▸ huid, h⟩

/-- A search that ends at the first entry has fetched the first page and no more. -/
theorem seek_head {found : TrackList}
    (h : (newTrackList typ).seek page f = some (none, found)) (hpos : found.tracks.pos = 0) :
    ∃ first, (newTrackList typ).tracks.fetchNextPage page = (none, first) ∧
      first.list = found.tracks.list := by
  unfold seek at h
  simp only [Option.bind_eq_bind, Option.bind_eq_some_iff, Prod.exists] at h
  obtain ⟨stop, iter, tracks, hwalk, h⟩ := h
  obtain ⟨n, hn⟩ : ∃ n, walkFuel page (newTrackList typ).tracks = n + 1 := ⟨_, rfl⟩
  rw [hn] at hwalk
  rcases walk_succ_cases (by simp [Iter.start]) (by simp [Iter.start]) hwalk with
    ⟨err, e, -, -, hr⟩ | ⟨first, x, ⟨hlt, -⟩ | ⟨-, hfetch⟩, hlen, -, ⟨value, -, hr⟩ | ⟨-, hrest⟩⟩
  · cases hr
    rcases e with _ | e <;> simp at h
  · simp [newTrackList, Iter.start, PagedList.new] at hlt
  · simp [newTrackList, Iter.start, PagedList.new] at hlt
  · cases hr
    cases value with
    | found =>
      cases h
      exact ⟨_, hfetch, rfl⟩
    | gaveUp => simp at h
  · exfalso
    rcases stop with (_ | pageIdx) | _ | _
    · cases h
      have hpassed := (walk_left (by simp [Iter.start]) (by simp only; omega) hrest).1
      simp only [Iter.start] at hpassed hpos
      omega
    · simp at h
    all_goals rcases he : iter.err with _ | e <;> simp [he] at h

theorem seek_first {m : PagedList ContextTrack} {q : Nat} {err : Option Err} {found : TrackList}
    (huid : uid ≠ "") (hm : Fetched page (newTrackList typ).tracks m)
    (hfirst : FirstWithUid uid m.list q)
    (h : (newTrackList typ).seek page (fun _ => isSame "track" { uid } "") = some (err, found)) :
    err = none ∧ ∃ l, Fetched page (newTrackList typ).tracks l ∧ l.list[q]? = m.list[q]? ∧
      found = { newTrackList typ with tracks := ⟨l.list, q⟩ } ∧ (q = 0 → ∃ first,
        (newTrackList typ).tracks.fetchNextPage page = (none, first) ∧ first.list = l.list) := by
  have hnext : 0 ≤ (newTrackList typ).tracks.nextPageIdx := le_refl (0 : Int)
  have herr : err = none :=
    seek_uid_ok hnext hm hfirst (fun _ _ h => (isSame_uid huid).mpr h) h
  obtain ⟨x, hx, hxuid⟩ := hfirst.here
  obtain ⟨l, hreads, ⟨p, -, hhit, hfound⟩ | ⟨⟨e, he⟩, -⟩⟩ := seek_spec h
  · obtain ⟨y, hy, hysame⟩ := hhit.hit
    have hyuid := (isSame_uid huid).mp hysame
    have hqlt := (List.getElem?_eq_some_iff.mp hx).1
    have hplt := hhit.lt_length
    have hpq : p = q := by
      rcases lt_trichotomy p q with hlt | heq | hlt
      · obtain ⟨z, hz⟩ : ∃ z, m.list[p]? = some z := ⟨_, List.getElem?_eq_getElem (by omega)⟩
        obtain rfl := Fetched.agree hm hreads.fetched hz hy
        exact absurd hyuid (hfirst.before p hlt _ hz).1
      · exact heq
      · obtain ⟨z, hz⟩ : ∃ z, l.list[q]? = some z := ⟨_, List.getElem?_eq_getElem (by omega)⟩
        obtain rfl := Fetched.agree hm hreads.fetched hx hz
        have hpassed := (hhit.passed q hlt _ hz).1
        rw [(isSame_uid huid).mpr hxuid] at hpassed
        simp at hpassed
    subst hpq
    obtain rfl := Fetched.agree hm hreads.fetched hx hy
    refine ⟨herr, l, hreads.fetched, hy.trans hx.symm, hfound, fun hq => ?_⟩
    subst hfound
    exact seek_head (herr ▸ h) (by simp [hq])
  · simp [herr] at he

theorem seek_of_hit {m : PagedList ContextTrack} {p : Nat}
    (hnext : 0 ≤ tl.tracks.nextPageIdx) (hm : Fetched page tl.tracks m) (h : SeekHit f m.list p) :
    ∃ found, tl.seek page f = some (none, found) := by
  obtain ⟨x, hx, hfx⟩ := h.hit
  have hstops : Stops (seekBody f) m.list p x :=
    ⟨hx, by simp [seekBody_found.mpr hfx], fun i hi y hy => seekBody_next.mpr (h.passed i hi y hy)⟩
  rcases seek_of_stops hnext hm hstops (by simp [hfx]) with ⟨hnone, -⟩ | ⟨l, -, -, hseek⟩
  · simp [hfx] at hnone
  · exact ⟨_, hseek⟩

/-- The track is found in the context, or it is put ahead of what has been fetched. -/
theorem trySeekTo_noQueue {track : ContextTrack} {err : Option Err} {tl' : TrackList}
    (hnext : 0 ≤ tl.tracks.nextPageIdx) (hqueue : tl.queue = []) (hplaying : tl.playingQueue = false)
    (h : tl.trySeekTo page track = some (err, tl')) :
    ∃ isTarget m, contextTrackComparator tl.typ track = some isTarget ∧ Fetched page tl.tracks m ∧
      ((¬ (∃ m p, Fetched page tl.tracks m ∧ SeekHit (fun _ => isTarget) m.list p) ∧
        tl' = { tl with tracks := m.moveInjected track }) ∨
      ∃ p, SeekHit (fun _ => isTarget) m.list p ∧ tl' = { tl with tracks := ⟨m.list, p⟩ }) := by
  have hleave : tl.leaveQueue = tl := by
    simp only [leaveQueue, waiting, hplaying, Bool.false_eq_true, if_false]
    rw [← hplaying]
  unfold trySeekTo at h
  simp only [Option.bind_eq_bind, Option.bind_eq_some_iff] at h
  obtain ⟨⟨hit, sought⟩, hseekQueue, h⟩ := h
  have hsought : hit = false ∧ sought = tl := by
    unfold seekQueue at hseekQueue
    simp only [hqueue, List.drop_nil, dropUntil, Option.bind_eq_bind, Option.bind_some] at hseekQueue
    split at hseekQueue
    · obtain ⟨isTarget, -, hres⟩ := Option.bind_eq_some_iff.mp hseekQueue
      simp only [Option.some.injEq, Prod.mk.injEq] at hres
      exact ⟨hres.1.symm, hres.2.symm⟩
    · simp only [Option.some.injEq, Prod.mk.injEq] at hseekQueue
      exact ⟨hseekQueue.1.symm, hseekQueue.2.symm⟩
  obtain ⟨rfl, rfl⟩ := hsought
  simp only [hplaying, Bool.false_eq_true, false_and, if_false, Option.bind_eq_some_iff] at h
  obtain ⟨isTarget, hcmp, ⟨serr, mid⟩, hseek, h⟩ := h
  obtain ⟨m, hreads, hend⟩ := seek_spec hseek
  refine ⟨isTarget, m, hcmp, hreads.fetched, ?_⟩
  rcases hend with ⟨p, rfl, hhit, rfl⟩ | ⟨⟨e, rfl⟩, rfl⟩
  · cases h
    exact .inr ⟨p, hhit, rfl⟩
  · cases h
    refine .inl ⟨?_, rfl⟩
    rintro ⟨m', p, hm', hhit⟩
    obtain ⟨found, hfound⟩ := seek_of_hit hnext hm' hhit
    simp [hfound] at hseek

end

end TrackList

end Librespot.Tracks

namespace Librespot.Daemon

open Tracks Tracks.TrackList

variable {g : Rand} {a : Answers} {state : TransferState} {typ : SpotifyIdType} {ahead : Prop}

/-! ## Where the list is left -/

/-- The queued track has a name, and a search finds it nowhere in the context, neither among the
entries of the first page nor among those that follow. -/
def Unlisted (a : Answers) (state : TransferState) (typ : SpotifyIdType) : Prop :=
  ∃ current ctx isTarget first, state.playback.currentTrack = some current ∧
    singleTrackContext (some current) = some (some ctx) ∧
    contextTrackComparator typ current = some isTarget ∧
    (newTrackList typ).tracks.fetchNextPage (a.pages 0) = (none, first) ∧
    ¬ ∃ m p, Fetched (a.pages 1) ⟨first.list, 0⟩ m ∧ SeekHit (fun _ => isTarget) m.list p

structure Placed (x : PagedListItem ContextTrack) (ahead : Prop) (t : PagedList ContextTrack) :
    Prop where
  nonneg : 0 ≤ t.pos
  lt : t.pos < t.list.length
  next : ahead → t.list[t.pos.toNat + 1]? = some x
  first : ¬ ahead → PageOrdered t.list ∧ t.list[0]? = some x

section

variable {l : PagedList ContextTrack} {x : PagedListItem ContextTrack} {sought : TrackList}
  {err : Option Err}

theorem placed_of_jump {current : ContextTrack} {ctx : Context} (hl : PageOrdered l.list)
    (hx : l.list[0]? = some x) (hcurrent : state.playback.currentTrack = some current)
    (hctx : singleTrackContext (some current) = some (some ctx))
    (hfetch : (newTrackList typ).tracks.fetchNextPage (a.pages 0) = (none, l))
    (h : TrackList.trySeekTo (a.pages 1) current
      { newTrackList typ with tracks := ⟨l.list, 0⟩ } = some (err, sought)) :
    ∃ t, sought = { newTrackList typ with tracks := t } ∧ Placed x (Unlisted a state typ) t := by
  have hpaged : Paged l.list := Paged.fetched (l := (newTrackList typ).tracks) paged_nil
    (.next hfetch (.refl l))
  have hnext : 0 ≤ PagedList.nextPageIdx ⟨l.list, 0⟩ :=
    Paged.nextPageIdx_nonneg (l := ⟨l.list, 0⟩) hpaged
  obtain ⟨isTarget, m, hcmp, hm, ⟨hnone, rfl⟩ | ⟨p, hhit, rfl⟩⟩ := trySeekTo_noQueue hnext rfl rfl h
  all_goals
    have hfirst : m.list[0]? = some x :=
      (hm.getElem? (List.getElem?_eq_some_iff.mp hx).1).trans hx
  · refine ⟨m.moveInjected current, rfl, le_refl _, by simp [PagedList.moveInjected],
      fun _ => hfirst, fun hno => ?_⟩
    exact absurd ⟨current, ctx, isTarget, l, hcurrent, hctx, hcmp, hfetch, hnone⟩ hno
  · have hstart : PageOrdered (Marked.mk l.list 0).list := hl
    have horder : PageOrdered m.list := hstart.fetched hm
    refine ⟨⟨m.list, p⟩, rfl, by simp, by simpa using hhit.lt_length, ?_,
      fun _ => ⟨horder, hfirst⟩⟩
    rintro ⟨current', ctx', isTarget', first, hcurrent', -, hcmp', hfetch', hnone⟩
    obtain rfl := Option.some.inj (hcurrent.symm.trans hcurrent')
    obtain rfl := Option.some.inj (hcmp.symm.trans hcmp')
    obtain rfl : l = first := (Prod.mk.inj (hfetch.symm.trans hfetch')).2
    exact absurd ⟨m, p, hm, hhit⟩ hnone

theorem placed_of_start (hl : PageOrdered l.list) (hx : l.list[0]? = some x)
    (hno : ¬ Unlisted a state typ) : Placed x (Unlisted a state typ) ⟨l.list, 0⟩ := by
  have hlen := (List.getElem?_eq_some_iff.mp hx).1
  exact ⟨le_refl _, by simpa using hlen, fun h => absurd h hno, fun _ => ⟨hl, hx⟩⟩

theorem placed_of_prev {q : Nat} (hx : l.list[q + 1]? = some x) (hahead : ahead) :
    Placed x ahead ⟨l.list, q⟩ := by
  have hlen := (List.getElem?_eq_some_iff.mp hx).1
  refine ⟨by simp, by simp only; omega, fun _ => by simpa using hx, fun h => absurd hahead h⟩

end

variable {x : PagedListItem ContextTrack}

theorem seekTransferred_placed {m : PagedList ContextTrack} {q : Nat} {err : Option Err}
    {sought : TrackList} (hplaying : playingQueuedTrack state = some true)
    (huid : state.currentUid ≠ "") (hm : Fetched (a.pages 0) (newTrackList typ).tracks m)
    (hfirst : FirstWithUid state.currentUid m.list q) (hx : m.list[q]? = some x)
    (h : seekTransferred a state false (newTrackList typ) = some (err, sought)) :
    ∃ t, sought = { newTrackList typ with tracks := t } ∧
      Placed x (0 < q ∨ Unlisted a state typ) t := by
  unfold seekTransferred seekBehindQueue at h
  simp only [Option.bind_eq_bind, Bool.false_eq_true, huid, or_self, if_false, hplaying,
    Option.bind_some, if_true, comparator_uid] at h
  obtain ⟨⟨ok, behind⟩, hbehind, h⟩ := Option.bind_eq_some_iff.mp h
  obtain ⟨⟨serr, found⟩, hseek, hbehind⟩ := Option.bind_eq_some_iff.mp hbehind
  obtain ⟨rfl, l, hl, hlx, rfl, hhead⟩ := seek_first huid hm hfirst hseek
  have hlx := hlx.trans hx
  have hlen := (List.getElem?_eq_some_iff.mp hlx).1
  have hpos : TrackList.Positioned { newTrackList typ with tracks := ⟨l.list, q⟩ } :=
    ⟨by simp [newTrackList], by simp, by simpa using hlen⟩
  have hnil : PageOrdered (newTrackList typ).tracks.list := List.Pairwise.nil
  have horder : PageOrdered l.list := hnil.fetched hl
  simp only [goPrev_eq hpos, Option.some.injEq, Prod.mk.injEq] at hbehind
  obtain ⟨rfl, rfl⟩ := hbehind
  cases q with
  | succ q =>
    have hq : (0 : Int) < ((q + 1 : Nat) : Int) := by omega
    have hprev : ((q + 1 : Nat) : Int) - 1 = q := by omega
    simp only [hq, decide_true, if_true, hprev, Option.some.injEq, Prod.mk.injEq] at h
    exact ⟨⟨l.list, q⟩, h.2.symm, placed_of_prev hlx (.inl (Nat.succ_pos q))⟩
  | zero =>
    simp only [Int.natCast_zero, lt_self_iff_false, decide_false, if_false, false_or] at h ⊢
    have hstart (tl : TrackList) (htl : tl.tracks = ⟨l.list, 0⟩) :
        tl.goStart (a.pages 1) = (true, tl) := by
      simp only [TrackList.goStart, PagedList.moveStart, htl]
      rw [if_neg (by omega), ← htl]
    obtain ⟨first, hfetch, hlist⟩ := hhead rfl
    have hplaced : ¬ Unlisted a state typ → Placed x (Unlisted a state typ) ⟨l.list, 0⟩ :=
      placed_of_start horder hlx
    obtain ⟨single, hsingle, h⟩ := Option.bind_eq_some_iff.mp h
    rcases hcurrent : state.playback.currentTrack with _ | current
    · rw [hcurrent] at h
      have hsought : sought = { newTrackList typ with tracks := ⟨l.list, 0⟩ } := by
        rcases single with _ | ctx
        all_goals
          simp only [hstart, Option.some.injEq, Prod.mk.injEq] at h
          exact h.2.symm
      refine ⟨_, hsought, hplaced ?_⟩
      rintro ⟨current, ctx, _, _, hsome, -⟩
      simp [hcurrent] at hsome
    · rw [hcurrent] at h hsingle
      rcases single with _ | ctx
      · simp only [hstart, Option.some.injEq, Prod.mk.injEq] at h
        refine ⟨_, h.2.symm, hplaced ?_⟩
        rintro ⟨current', ctx, _, _, hsome, hctx, -⟩
        obtain rfl := Option.some.inj (hcurrent.symm.trans hsome)
        simp [hsingle] at hctx
      · simp only [Option.bind_eq_some_iff, Prod.exists, Option.some.injEq, Prod.mk.injEq] at h
        obtain ⟨_, _, hjump, -, rfl⟩ := h
        rw [← hlist] at hjump horder hlx
        exact placed_of_jump horder hlx hcurrent hsingle hfetch hjump

/-! ## The transferred list -/

def queuedAs (track : ContextTrack) : ContextTrack :=
  { track with metadata := track.metadata.set "is_queued" "true" }

theorem foldl_addToQueue_eq (queued : List ContextTrack) (list : TrackList) :
    queued.foldl (fun list track => list.addToQueue track) list =
      { list with queue := list.queue ++ queued.map queuedAs } := by
  induction queued generalizing list with
  | nil => simp
  | cons _ _ ih =>
    rw [List.foldl_cons, ih]
    simp [TrackList.addToQueue, queuedAs]

theorem queue_of_playing (h : playingQueuedTrack state = some true) :
    state.isPlayingQueue = true ∧ state.queue ≠ [] := by
  unfold playingQueuedTrack at h
  split at h
  · rename_i hplaying hqueue _
    exact ⟨hplaying, by simp [hqueue]⟩
  · simp at h

theorem Placed.fetched {page : Pages ContextTrack} {t l : PagedList ContextTrack}
    (h : Placed x ahead t) (hl : Fetched page t l) : Placed x ahead l := by
  have hlen := hl.length_le
  have hpos := hl.pos_eq
  have hlt := h.lt
  refine ⟨by rw [hpos]; exact h.nonneg, by omega, fun hahead => ?_, fun hno => ?_⟩
  · have hx := h.next hahead
    rw [hpos, hl.getElem? (List.getElem?_eq_some_iff.mp hx).1]
    exact hx
  · obtain ⟨horder, hx⟩ := h.first hno
    refine ⟨horder.fetched hl, ?_⟩
    rw [hl.getElem? (List.getElem?_eq_some_iff.mp hx).1]
    exact hx

theorem ne_first_of_ordered {list : List (PagedListItem ContextTrack)} (h : PageOrdered list)
    (hx : list[0]? = some x) {i : Nat} (hi : 0 < i) : list[i]? ≠ some x := by
  intro hagain
  obtain ⟨h0, hget⟩ := List.getElem?_eq_some_iff.mp hx
  obtain ⟨hlt, hget'⟩ := List.getElem?_eq_some_iff.mp hagain
  have hbefore := List.pairwise_iff_getElem.mp h 0 i h0 hlt hi
  rw [hget, hget'] at hbefore
  unfold Before at hbefore
  omega

theorem Placed.resumes {tl : TrackList} (h : Placed x ahead tl.tracks)
    (hpos : tl.Positioned) (hnil : tl.waiting = []) (next : Pages ContextTrack) :
    ∃ ok after, tl.goNext next = some (ok, after) ∧
      after.playingQueue = false ∧ ((ok = true ∧ after.tracks.entry = some x) ↔ ahead) := by
  obtain ⟨ok, after, hgo, hplaying, hmore, hentry⟩ := goNext_resumes next hpos hnil
  refine ⟨ok, after, hgo, hplaying, ?_, fun hahead => ?_⟩
  · rintro ⟨hok, hx⟩
    by_contra hno
    obtain ⟨horder, hfirst⟩ := h.first hno
    obtain ⟨l, hl, hlanded⟩ := hentry hok
    have hlfirst : l.list[0]? = some x :=
      (hl.getElem? (List.getElem?_eq_some_iff.mp hfirst).1).trans hfirst
    rw [hlanded] at hx
    exact ne_first_of_ordered (horder.fetched hl) hlfirst (Nat.succ_pos _) hx
  · have hx := h.next hahead
    have hlt := (List.getElem?_eq_some_iff.mp hx).1
    have h0 := h.nonneg
    have hok := hmore (by omega)
    obtain ⟨l, hl, hlanded⟩ := hentry hok
    exact ⟨hok, by rw [hlanded, hl.getElem? hlt]; exact hx⟩

section

variable {list : TrackList} {snap : TrackList.Snapshot} {m : PagedList ContextTrack} {q : Nat}
  {x : PagedListItem ContextTrack}

theorem runTransferList_queued (h : runTransferList g a state false typ = some (.ok (list, snap)))
    (hshuffle : state.shuffle = false) (hplaying : playingQueuedTrack state = some true)
    (huid : state.currentUid ≠ "") (hm : Fetched (a.pages 0) (newTrackList typ).tracks m)
    (hfirst : FirstWithUid state.currentUid m.list q) (hx : m.list[q]? = some x) :
    ∃ t, Placed x (0 < q ∨ Unlisted a state typ) t ∧ list = { newTrackList typ with
        tracks := t, queue := state.queue.map queuedAs, playingQueue := true } := by
  obtain ⟨hflag, hne⟩ := queue_of_playing hplaying
  obtain ⟨sought, shuffled, hsought, htoggle, hsnap⟩ := runTransferList_spec h
  obtain ⟨t, rfl, hplaced⟩ := seekTransferred_placed hplaying huid hm hfirst hx hsought
  have hshuffled : shuffled = { newTrackList typ with tracks := t } := by
    simpa [TrackList.toggleShuffle, hshuffle, newTrackList] using htoggle.symm
  subst hshuffled
  have hset : TrackList.setPlayingQueue state.isPlayingQueue
      (state.queue.foldl (fun list track => list.addToQueue track)
        { newTrackList typ with tracks := t }) =
      { newTrackList typ with
        tracks := t, queue := state.queue.map queuedAs, playingQueue := true } := by
    rw [foldl_addToQueue_eq]
    simp [TrackList.setPlayingQueue, hflag, newTrackList, List.length_pos_iff.mpr hne]
  have hv : t.Valid := ⟨by have := hplaced.nonneg; omega, hplaced.lt⟩
  rw [hset] at hsnap
  obtain ⟨⟨t', ht', rfl⟩, -⟩ := snapshot_fetched (by exact hv) hsnap
  exact ⟨t', hplaced.fetched ht', rfl⟩

/-- The queue of the transfer plays first. The context then resumes at the entry the transfer
names exactly if the entry is not the first one, or the queued track is nowhere in the context. -/
theorem transfer_resumes_iff (h : runTransferList g a state false typ = some (.ok (list, snap)))
    (hshuffle : state.shuffle = false) (hplaying : playingQueuedTrack state = some true)
    (huid : state.currentUid ≠ "") (hm : Fetched (a.pages 0) (newTrackList typ).tracks m)
    (hfirst : FirstWithUid state.currentUid m.list q) (hx : m.list[q]? = some x) :
    list.current = state.queue.head?.map queuedAs ∧
    ∀ rest : List (Pages ContextTrack), rest.length + 1 = state.queue.length → ∀ next,
      ∃ last ok after,
      exec (TrackList.step g) list (rest.map TrackList.Op.goNext) = some last ∧
      last.goNext next = some (ok, after) ∧ after.playingQueue = false ∧
      ((ok = true ∧ after.tracks.entry = some x) ↔ 0 < q ∨ Unlisted a state typ) := by
  obtain ⟨t, hplaced, rfl⟩ := runTransferList_queued h hshuffle hplaying huid hm hfirst hx
  refine ⟨by simp [TrackList.current], fun rest hrest next => ?_⟩
  have hpos : TrackList.Positioned { newTrackList typ with
      tracks := t, queue := state.queue.map queuedAs, playingQueue := true } :=
    ⟨fun _ => by simpa using (queue_of_playing hplaying).2, hplaced.nonneg, hplaced.lt⟩
  have hlen : rest.length < (state.queue.map queuedAs).length := by
    rw [List.length_map]
    omega
  have hrun := exec_goNext_queued g rest hpos rfl hlen
  have hdrop : ((state.queue.map queuedAs).drop rest.length).length = 1 := by
    rw [List.length_drop, List.length_map]
    omega
  have hlast : TrackList.Positioned { newTrackList typ with
      tracks := t, queue := (state.queue.map queuedAs).drop rest.length, playingQueue := true } :=
    ⟨fun _ => List.ne_nil_of_length_pos (hdrop ▸ Nat.one_pos), hplaced.nonneg, hplaced.lt⟩
  have hnil : TrackList.waiting { newTrackList typ with
      tracks := t, queue := (state.queue.map queuedAs).drop rest.length,
      playingQueue := true } = [] := by
    refine List.eq_nil_of_length_eq_zero ?_
    simp only [TrackList.waiting, if_true, List.length_tail]
    omega
  obtain ⟨ok, after, hgo, hafter, hiff⟩ := Placed.resumes hplaced hlast hnil next
  exact ⟨_, ok, after, hrun, hgo, hafter, hiff⟩

end

def songA : ContextTrack := { uri := "spotify:track:a", uid := "u1" }

def songB : ContextTrack := { uri := "spotify:track:b", uid := "u2" }

def songC : ContextTrack := { uri := "spotify:track:c", uid := "u3" }

/-- Song b is queued, and the context a, b, c is to resume at the entry `uid`. -/
def queuePlaying (uid : String) : TransferState where
  playback := { currentTrack := some { songB with uid := "q1" } }
  context := { uri := "spotify:playlist:p" }
  currentUid := uid
  queue := [{ songB with uid := "q1" }]
  isPlayingQueue := true

def threeSongs : Answers where
  newList _ := .ok "track"
  pages _ i := if i = 0 then .ok [songA, songB, songC] else .error { text := "EOF", isEOF := true }
  draw _ := 0
  context := .ok {}
  stream := .error { err := { text := "" } }

def threeLoaded : PagedList ContextTrack := ⟨[⟨songA, 0, 0⟩, ⟨songB, 0, 1⟩, ⟨songC, 0, 2⟩], -1⟩

theorem fetched_threeLoaded :
    Fetched (threeSongs.pages 0) (newTrackList "track").tracks threeLoaded :=
  .next rfl (.refl _)

theorem loaded_of_toOption {res : Option (Except LoadErr (TrackList × TrackList.Snapshot))}
    {r : TrackList × TrackList.Snapshot} (h : res.bind Except.toOption = some r) :
    res = some (.ok (r.1, r.2)) := by
  rcases res with _ | _ | loaded
  · cases h
  · cases h
  · cases h
    rfl

/-- The context is to resume at its first entry, and goes on behind the queued song instead. -/
theorem resumes_behind_queued_song :
    playingQueuedTrack (queuePlaying "u1") = some true ∧ (queuePlaying "u1").shuffle = false ∧
    FirstWithUid "u1" threeLoaded.list 0 ∧
    ∃ list snap, runTransferList drawZero threeSongs (queuePlaying "u1") false "track" =
        some (.ok (list, snap)) ∧
      ∃ after, list.goNext (threeSongs.pages 0) = some (true, after) ∧
        after.current = some songC := by
  refine ⟨by decide +kernel, rfl, ⟨⟨_, rfl, rfl⟩, by simp⟩, ?_⟩
  have hrun : ((runTransferList drawZero threeSongs (queuePlaying "u1") false "track").bind
      Except.toOption).bind (fun r => (r.1.goNext (threeSongs.pages 0)).map fun res =>
        (res.1, res.2.current)) = some (true, some songC) := by decide +kernel
  obtain ⟨⟨list, snap⟩, hlist, hgo⟩ := Option.bind_eq_some_iff.mp hrun
  obtain ⟨⟨ok, after⟩, hgo, hres⟩ := Option.map_eq_some_iff.mp hgo
  obtain ⟨rfl, hcurrent⟩ := Prod.mk.inj hres
  exact ⟨list, snap, loaded_of_toOption hlist, after, hgo, hcurrent⟩

theorem transfer_resumes_iff_third :
    ∃ list snap, runTransferList drawZero threeSongs (queuePlaying "u3") false "track" =
        some (.ok (list, snap)) ∧
      ∃ ok after, list.goNext (threeSongs.pages 0) = some (ok, after) ∧ ok = true ∧
        after.tracks.entry = some ⟨songC, 0, 2⟩ := by
  have hrun : ((runTransferList drawZero threeSongs (queuePlaying "u3") false "track").bind
      Except.toOption).isSome = true := by decide +kernel
  obtain ⟨⟨list, snap⟩, hlist⟩ := Option.isSome_iff_exists.mp hrun
  have hlist := loaded_of_toOption hlist
  have hfirst : FirstWithUid (queuePlaying "u3").currentUid threeLoaded.list 2 :=
    ⟨⟨_, rfl, rfl⟩, by decide +kernel⟩
  obtain ⟨-, hresumes⟩ := transfer_resumes_iff hlist rfl (by decide +kernel) (by decide)
    fetched_threeLoaded hfirst rfl
  obtain ⟨last, ok, after, hlast, hgo, -, hiff⟩ := hresumes [] rfl (threeSongs.pages 0)
  obtain rfl : list = last := Option.some.inj hlast
  exact ⟨list, snap, hlist, ok, after, hgo, hiff.mpr (.inl (by decide))⟩

end Librespot.Daemon
