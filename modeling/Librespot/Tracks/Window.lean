import Librespot.Tracks.Positioned
import Librespot.Tracks.RoundTrip

/-!
# The published window is what navigation does

All of them are compared with the lists of tracks `ahead` and `behind`.
-/

open Base.Exchange Base.Run List Option

namespace Librespot.Tracks

open PagedList

/-! ## The context around a position -/

section Around

variable {α : Type} {page : Pages α}

def ahead (page : Pages α) : Nat → Int → PagedList α → List α × PagedList α
  | 0, _, l => ([], l)
  | n + 1, pos, l =>
    match Iter.next page { pos } l with
    | (false, _, l) => ([], l)
    | (true, iter, l) =>
      ((iter.get l).toList.map (·.item) ++ (ahead page n iter.pos l).1, (ahead page n iter.pos l).2)

def behind (n : Nat) (l : PagedList α) : List α := (l.resident.take l.pos.toNat).reverse.take n

variable {n : Nat} {pos : Int}

theorem ahead_stop {l l' : PagedList α} {iter : Iter}
    (h : Iter.next page { pos } l = (false, iter, l')) : ahead page (n + 1) pos l = ([], l') := by
  simp [ahead, h]

theorem ahead_step {l l' : PagedList α} {iter : Iter} {curr : PagedListItem α}
    (h : Iter.next page { pos } l = (true, iter, l')) (hg : iter.get l' = some curr) :
    ahead page (n + 1) pos l =
      (curr.item :: (ahead page n iter.pos l').1, (ahead page n iter.pos l').2) := by
  simp [ahead, h, hg]

theorem fetchNextPage_unmarked (page : Pages α) (l : PagedList α) (p : Int) :
    PagedList.fetchNextPage page ⟨l.list, p⟩ =
      ((l.fetchNextPage page).1, ⟨(l.fetchNextPage page).2.list, p⟩) := by
  have hidx : nextPageIdx ⟨l.list, p⟩ = l.nextPageIdx := rfl
  unfold fetchNextPage
  rw [hidx]
  rcases page l.nextPageIdx with err | (_ | ⟨item, items⟩) <;> rfl

theorem next_unmarked (page : Pages α) (iter : Iter) (l : PagedList α) (p : Int) :
    iter.next page ⟨l.list, p⟩ =
      ((iter.next page l).1, (iter.next page l).2.1, ⟨(iter.next page l).2.2.list, p⟩) := by
  unfold Iter.next
  generalize (iter.pos + 2 - l.list.length).toNat = n
  induction n generalizing l with
  | zero => rfl
  | succ _ ih =>
    have hidx : nextPageIdx ⟨l.list, p⟩ = l.nextPageIdx := rfl
    simp only [Iter.nextLoop, fetchNextPage_unmarked page l p, hidx]
    by_cases hend : iter.pos + 1 ≥ l.list.length
    · rw [if_pos hend, if_pos hend]
      rcases l.fetchNextPage page with ⟨_ | err, m⟩
      · exact ih m
      · by_cases hE : err.isEOF <;> simp only [hE, if_true, Bool.false_eq_true, if_false]
    · rw [if_neg hend, if_neg hend]

theorem ahead_unmarked (page : Pages α) (n : Nat) (pos : Int) (l : PagedList α) (p : Int) :
    (ahead page n pos ⟨l.list, p⟩).1 = (ahead page n pos l).1 := by
  induction n generalizing pos l with
  | zero => rfl
  | succ _ ih =>
    simp only [ahead, next_unmarked page _ l p]
    rcases Iter.next page { pos } l with ⟨_ | _, iter, m⟩
    · rfl
    · simp only [ih]
      rfl

theorem next_or_get (page : Pages α) {l : PagedList α} (h0 : 0 ≤ pos) (hlt : pos < l.list.length) :
    (∃ iter l', Iter.next page { pos } l = (false, iter, l') ∧ Fetched page l l') ∨
    ∃ l' curr, Iter.next page { pos } l = (true, { pos := pos + 1 }, l') ∧
      Fetched page l l' ∧ pos + 1 < l'.list.length ∧
      Iter.get { pos := pos + 1 } l' = some curr := by
  have hle : pos + 1 ≤ l.list.length := by omega
  have hf := (Iter.next_reads page { pos } l hle).fetched
  rcases Iter.next_moves page { pos } l hle with ⟨err, e, -, -, he⟩ | ⟨l', -, hlt', he⟩
  · rw [he] at hf
    exact .inl ⟨_, l, he, hf⟩
  · rw [he] at hf
    have h1 : (0 : Int) ≤ ({ pos := pos + 1 } : Iter).pos := by simp only; omega
    obtain ⟨curr, hcurr, -⟩ := Iter.get_of_lt { pos := pos + 1 } l' h1 hlt'
    exact .inr ⟨l', curr, he, hf, hlt', hcurr⟩

theorem ahead_take {m : Nat} (hmn : m ≤ n) {l : PagedList α} (h0 : 0 ≤ pos)
    (hlt : pos < l.list.length) : (ahead page m pos l).1 = (ahead page n pos l).1.take m := by
  induction m generalizing n pos l with
  | zero => simp [ahead]
  | succ _ ih =>
    obtain ⟨n, rfl⟩ : ∃ k, n = k + 1 := ⟨n - 1, by omega⟩
    rcases next_or_get page h0 hlt with ⟨iter, l', hn, -⟩ | ⟨l', curr, hn, -, hlt', hg⟩
    · simp [ahead_stop hn]
    · rw [ahead_step hn hg, ahead_step hn hg]
      simp only [take_succ_cons]
      rw [ih (Nat.le_of_succ_le_succ hmn) (by omega) hlt']

end Around

namespace TrackList

variable {tl : TrackList} {page : Pages ContextTrack} {window : List ProvidedTrack}
  {tracks : List ContextTrack}

/-- The window is built by converting tracks one by one, and nothing else of it can panic. -/
def provide (typ : SpotifyIdType) (tracks : List ContextTrack) : Option (List ProvidedTrack) :=
  tracks.mapM (contextTrackToProvidedTrack typ)

theorem provide_nil (typ : SpotifyIdType) : provide typ [] = some [] := rfl

theorem provide_cons (typ : SpotifyIdType) (track : ContextTrack) (tracks : List ContextTrack) :
    provide typ (track :: tracks) = (contextTrackToProvidedTrack typ track).bind fun first =>
      (provide typ tracks).map (first :: ·) := by
  simp only [provide, mapM_cons, bind_eq_bind, Option.pure_def]
  rcases contextTrackToProvidedTrack typ track with _ | first
  · rfl
  · rcases tracks.mapM (contextTrackToProvidedTrack typ) with _ | rest <;> rfl

theorem provide_append (typ : SpotifyIdType) (xs ys : List ContextTrack) :
    provide typ (xs ++ ys) = (provide typ xs).bind fun first =>
      (provide typ ys).map (first ++ ·) := by
  simp only [provide, mapM_append, bind_eq_bind, Option.pure_def]
  rcases xs.mapM (contextTrackToProvidedTrack typ) with _ | first
  · rfl
  · rcases ys.mapM (contextTrackToProvidedTrack typ) with _ | rest <;> rfl

theorem getElem?_of_provide {typ : SpotifyIdType} (h : provide typ tracks = some window) (i : Nat) :
    window[i]? = tracks[i]?.bind (contextTrackToProvidedTrack typ) := by
  induction tracks generalizing window i with
  | nil =>
    cases h
    rfl
  | cons _ _ ih =>
    rw [provide_cons, bind_eq_some_iff] at h
    obtain ⟨first, hfirst, h⟩ := h
    obtain ⟨rest, hrest, rfl⟩ := map_eq_some_iff.mp h
    cases i with
    | zero => exact hfirst.symm
    | succ i => exact ih hrest i

theorem head?_of_provide {typ : SpotifyIdType} (h : provide typ tracks = some window) :
    window.head? = tracks.head?.bind (contextTrackToProvidedTrack typ) := by
  rw [head?_eq_getElem?, head?_eq_getElem?]
  exact getElem?_of_provide h 0

variable {n : Nat} {l : PagedList ContextTrack} {curr : PagedListItem ContextTrack}
  {rest : List ContextTrack}

theorem nextLoop_eq (typ : SpotifyIdType) {pos : Int} (h0 : 0 ≤ pos) (hlt : pos < l.list.length) :
    nextLoop typ page n { pos } l =
      (provide typ (ahead page n pos l).1).map fun tracks => (tracks, (ahead page n pos l).2) := by
  induction n generalizing pos l with
  | zero => simp [nextLoop, ahead, provide_nil]
  | succ n ih =>
    rcases next_or_get page h0 hlt with ⟨iter, l', hn, -⟩ | ⟨l', curr, hn, -, hlt', hg⟩
    · simp [nextLoop, hn, ahead_stop hn, provide_nil]
    · rw [ahead_step hn hg]
      simp only [nextLoop, hn, bind_eq_bind, hg, bind_some, ih (by omega) hlt',
        provide_cons]
      rcases contextTrackToProvidedTrack typ curr.item with _ | first
      · rfl
      · rcases provide typ (ahead page n (pos + 1) l').1 with _ | rest <;> rfl

def upcoming (page : Pages ContextTrack) (n : Nat) (tl : TrackList) : List ContextTrack :=
  (tl.waiting ++ (ahead page n tl.tracks.pos tl.tracks).1).take n

theorem upcoming_eq (h : tl.Positioned) (n : Nat) :
    tl.upcoming page n = tl.waiting.take n ++
      (ahead page (n - tl.waiting.length) tl.tracks.pos tl.tracks).1 := by
  rw [upcoming, take_append, ahead_take (Nat.sub_le n tl.waiting.length) h.nonneg h.lt]

def unqueued (track : ContextTrack) : ContextTrack :=
  { track with metadata := track.metadata.delete "is_queued" }

def shown (page : Pages ContextTrack) (nextHint : Option (List ContextTrack)) (tl : TrackList) :
    List ContextTrack :=
  match nextHint with
  | none => tl.upcoming page maxTracksInContext
  | some hint =>
    tl.waiting.take maxTracksInContext ++
      ((hint.drop tl.waiting.length).take (maxTracksInContext - tl.waiting.length)).map unqueued

-- What is left of the window is the same whether the queue is cut to it or not.
theorem left_of_provide {tracks : List ProvidedTrack}
    (hq : provide tl.typ (tl.waiting.take maxTracksInContext) = some tracks) :
    maxTracksInContext - tracks.length = maxTracksInContext - tl.waiting.length := by
  rw [length_of_mapM hq, length_take]
  omega

theorem nextTracks_hint (page : Pages ContextTrack) (hint : List ContextTrack) :
    tl.nextTracks page (some hint) =
      (provide tl.typ (tl.shown page (some hint))).map fun tracks => (tracks, tl) := by
  have hmap (xs : List ContextTrack) :
      (xs.mapM fun curr => contextTrackToProvidedTrack tl.typ
        { curr with metadata := curr.metadata.delete "is_queued" }) =
      provide tl.typ (xs.map unqueued) := by
    simp only [provide, mapM_map]
    rfl
  have hfirst : (tl.waiting.take maxTracksInContext).mapM (contextTrackToProvidedTrack tl.typ) =
    provide tl.typ (tl.waiting.take maxTracksInContext) := rfl
  unfold nextTracks
  rw [show (if tl.playingQueue then tl.queue.tail else tl.queue) = tl.waiting from rfl]
  simp only [hfirst, bind_eq_bind, hmap, shown, provide_append]
  rcases hq : provide tl.typ (tl.waiting.take maxTracksInContext) with _ | tracks
  · rfl
  · simp only [bind_some, left_of_provide hq]
    rcases provide tl.typ (((hint.drop tl.waiting.length).take
      (maxTracksInContext - tl.waiting.length)).map unqueued) with _ | rest <;> rfl

theorem nextTracks_eq (h : tl.Positioned) (nextHint : Option (List ContextTrack)) :
    (tl.nextTracks page nextHint).map (·.1) = provide tl.typ (tl.shown page nextHint) := by
  cases nextHint with
  | none =>
    have hfirst : (tl.waiting.take maxTracksInContext).mapM (contextTrackToProvidedTrack tl.typ) =
      provide tl.typ (tl.waiting.take maxTracksInContext) := rfl
    unfold nextTracks
    rw [show (if tl.playingQueue then tl.queue.tail else tl.queue) = tl.waiting from rfl]
    simp only [hfirst, bind_eq_bind, shown, upcoming_eq h, provide_append]
    rcases hq : provide tl.typ (tl.waiting.take maxTracksInContext) with _ | tracks
    · rfl
    · simp only [bind_some, h.here_eq, left_of_provide hq, nextLoop_eq tl.typ h.nonneg h.lt]
      rcases provide tl.typ (ahead page (maxTracksInContext - tl.waiting.length) tl.tracks.pos
        tl.tracks).1 with _ | rest <;> rfl
  | some hint =>
    rw [nextTracks_hint]
    rcases provide tl.typ (tl.shown page (some hint)) with _ | tracks <;> rfl

def goNextRun (page : Pages ContextTrack) : Nat → TrackList → Option (List ProvidedTrack)
  | 0, _ => some []
  | n + 1, tl => do
    match ← tl.goNext page with
    | (false, _) => some []
    | (true, tl) => do
      let track ← tl.currentTrack
      let rest ← goNextRun page n tl
      some (track :: rest)

theorem goNextRun_succ {tl' : TrackList} (h : tl.goNext page = some (true, tl')) :
    tl.goNextRun page (n + 1) = tl'.currentTrack.bind fun track =>
      (tl'.goNextRun page n).map (track :: ·) := by
  simp only [goNextRun, bind_eq_bind, h, bind_some]
  rcases tl'.currentTrack with _ | track
  · rfl
  · rcases tl'.goNextRun page n with _ | rest <;> rfl

theorem currentTrack_queue {track : ContextTrack}
    (hp : tl.playingQueue = true) (hq : tl.queue = track :: rest) :
    tl.currentTrack = contextTrackToProvidedTrack tl.typ track := by
  simp [currentTrack, current, hp, hq]

theorem currentTrack_context (hp : tl.playingQueue = false) (hg : tl.tracks.get = some curr) :
    tl.currentTrack = contextTrackToProvidedTrack tl.typ curr.item := by
  simp [currentTrack, current, hp, hg]

theorem upcoming_queue (page : Pages ContextTrack) (n : Nat) {track : ContextTrack}
    (h : tl.Positioned) (hw : tl.waiting = track :: rest) :
    tl.upcoming page (n + 1) = track :: upcoming page n { tl with
      queue := track :: rest, playingQueue := true } := by
  have hmid : { tl with queue := track :: rest, playingQueue := true }.Positioned :=
    ⟨by simp, h.nonneg, h.lt⟩
  rw [upcoming_eq h, upcoming_eq hmid, hw]
  simp [waiting]

theorem upcoming_context (hw : tl.waiting = [])
    (hn : Iter.next page { pos := tl.tracks.pos } tl.tracks = (true, { pos := tl.tracks.pos + 1 }, l))
    (hg : Iter.get { pos := tl.tracks.pos + 1 } l = some curr) :
    tl.upcoming page (n + 1) = curr.item :: upcoming page n { tl with
      queue := [], playingQueue := false, tracks := ⟨l.list, tl.tracks.pos + 1⟩ } := by
  have hw' : waiting { tl with
      queue := [], playingQueue := false, tracks := ⟨l.list, tl.tracks.pos + 1⟩ } = [] := rfl
  simp only [upcoming, hw, hw', nil_append, ahead_step hn hg, take_succ_cons, ahead_unmarked]

theorem goNextRun_eq (h : tl.Positioned) (n : Nat) :
    tl.goNextRun page n = provide tl.typ (tl.upcoming page n) := by
  induction n generalizing tl with
  | zero => simp [goNextRun, upcoming, provide_nil]
  | succ n ih =>
    rcases hw : tl.waiting with _ | ⟨track, rest⟩
    · rcases next_or_get page h.nonneg h.lt with ⟨iter, l, hn, -⟩ | ⟨l, curr, hn, -, hlt, hg⟩
      · have hgo := goNext_context h hw hn
        simp [goNextRun, hgo, upcoming, hw, ahead_stop hn, provide_nil]
      · have hgo := goNext_context h hw hn
        have hmid := goNext_positioned h hgo
        simp only [if_true] at hgo hmid
        rw [upcoming_context hw hn hg, provide_cons]
        rw [goNextRun_succ hgo, ih hmid]
        exact congrArg (Option.bind · _) (currentTrack_context rfl hg)
    · have hne : tl.waiting ≠ [] := by simp [hw]
      have hgo := goNext_queued page h hne
      have hmid := goNext_positioned h hgo
      rw [hw] at hgo hmid
      rw [upcoming_queue page n h hw, provide_cons, goNextRun_succ hgo, ih hmid]
      exact congrArg (Option.bind · _) (currentTrack_queue rfl rfl)

theorem peekNext_eq (page : Pages ContextTrack) (h : tl.Positioned) :
    ∃ next mid moved tl', tl.peekNext page = some (next, mid) ∧
      tl.goNext page = some (moved, tl') ∧
      (next = none ↔ moved = false) ∧ (∀ track, next = some track → tl'.current = some track) ∧
      ∀ n, next = (tl.upcoming page (n + 1)).head? := by
  rcases hw : tl.waiting with _ | ⟨track, rest⟩
  · rcases next_or_get page h.nonneg h.lt with ⟨iter, l, hn, -⟩ | ⟨l, curr, hn, -, hlt, hg⟩
    · refine ⟨none, _, false, _, by simpa using peekNext_context h hw hn, goNext_context h hw hn,
        by simp, by simp, fun n => ?_⟩
      simp [upcoming, hw, ahead_stop hn]
    · refine ⟨some curr.item, _, true, _, by simpa [hg] using peekNext_context h hw hn,
        goNext_context h hw hn, by simp, fun track ht => ?_, fun n => ?_⟩
      · cases ht
        simp only [current, if_true, Bool.false_eq_true, if_false, bind_eq_bind]
        rw [show get ⟨l.list, tl.tracks.pos + 1⟩ = some curr from hg]
        rfl
      · simp [upcoming_context hw hn hg]
  · have hgo := goNext_queued page h (by simp [hw])
    refine ⟨some track, _, true, _, peekNext_queued hw, hgo, by simp, fun t ht => ?_, fun n => ?_⟩
    · simp [current, hw, ht]
    · simp [upcoming_queue page n h hw]

def goPrevRun : Nat → TrackList → Option (List ProvidedTrack)
  | 0, _ => some []
  | n + 1, tl => do
    match ← tl.goPrev with
    | (false, _) => some []
    | (true, tl) => do
      let track ← tl.currentTrack
      let rest ← goPrevRun n tl
      some (track :: rest)

theorem behind_zero (n : Nat) (h : l.pos = 0) : behind n l = [] := by
  simp [behind, h]

theorem behind_succ (n : Nat) (h0 : 0 < l.pos) (hlt : l.pos < l.list.length) :
    ∃ curr, Iter.get { pos := l.pos - 1 } l = some curr ∧
      behind (n + 1) l = curr.item :: behind n ⟨l.list, l.pos - 1⟩ := by
  obtain ⟨curr, hget, hcurr⟩ := Iter.get_of_lt { pos := l.pos - 1 } l (by simp only; omega)
    (by simp only; omega)
  refine ⟨curr, hget, ?_⟩
  obtain ⟨k, hk⟩ : ∃ k : Nat, l.pos = k + 1 := ⟨(l.pos - 1).toNat, by omega⟩
  have hres : l.resident[k]? = some curr.item := by
    rw [resident, getElem?_map]
    simp only [hk] at hcurr
    simpa using congrArg (Option.map (·.item)) hcurr
  have hres' : resident ⟨l.list, l.pos - 1⟩ = l.resident := rfl
  rw [behind, behind, hres', hk]
  simp only [add_sub_cancel_right, Int.toNat_natCast]
  have htake : l.resident.take (k + 1) = l.resident.take k ++ [curr.item] := by
    rw [take_add_one, hres]
    rfl
  rw [show ((k : Int) + 1).toNat = k + 1 by omega, htake]
  simp

theorem prevLoop_eq (tl : TrackList) (n : Nat) {pos : Int} (h0 : 0 ≤ pos)
    (hlt : pos < tl.tracks.list.length) :
    tl.prevLoop n { pos } = provide tl.typ (behind n ⟨tl.tracks.list, pos⟩) := by
  induction n generalizing pos with
  | zero => simp [prevLoop, behind, provide_nil]
  | succ n ih =>
    by_cases hz : pos = 0
    · simp [prevLoop, Iter.prev, hz, behind_zero, provide_nil]
    · obtain ⟨curr, hg, hb⟩ := behind_succ n (l := ⟨tl.tracks.list, pos⟩) (by simp only; omega) hlt
      have hg' : Iter.get { pos := pos - 1 } tl.tracks = some curr := hg
      rw [hb, provide_cons]
      simp only [prevLoop, Iter.prev, if_neg hz, if_neg (show ¬ pos < 0 by omega), bind_eq_bind,
        bind_some, hg', ih (show 0 ≤ pos - 1 by omega) (by omega)]
      rcases contextTrackToProvidedTrack tl.typ curr.item with _ | first
      · rfl
      · rcases provide tl.typ (behind n ⟨tl.tracks.list, pos - 1⟩) with _ | rest <;> rfl

theorem prevTracks_eq (h : tl.Positioned) :
    tl.prevTracks = (provide tl.typ (behind maxTracksInContext tl.tracks)).map List.reverse := by
  simp only [prevTracks, bind_eq_bind, h.here_eq, bind_some,
    prevLoop_eq tl maxTracksInContext h.nonneg h.lt]
  rcases provide tl.typ (behind maxTracksInContext tl.tracks) with _ | tracks <;> rfl

theorem goPrevRun_eq (h : tl.Positioned) (n : Nat) :
    tl.goPrevRun n = provide tl.typ (behind n tl.tracks) := by
  induction n generalizing tl with
  | zero => simp [goPrevRun, behind, provide_nil]
  | succ n ih =>
    have hgo := goPrev_eq h
    by_cases hp : 0 < tl.tracks.pos
    · have hmid := goPrev_positioned h hgo
      simp only [hp, if_true, decide_true] at hgo hmid
      obtain ⟨curr, hg, hb⟩ := behind_succ n hp h.lt
      have hcurr : currentTrack { tl with
          playingQueue := false, tracks := ⟨tl.tracks.list, tl.tracks.pos - 1⟩ } =
          contextTrackToProvidedTrack tl.typ curr.item := currentTrack_context rfl hg
      rw [hb, provide_cons]
      simp only [goPrevRun, bind_eq_bind, hgo, bind_some, ih hmid, hcurr]
      rcases contextTrackToProvidedTrack tl.typ curr.item with _ | first
      · rfl
      · rcases provide tl.typ (behind n ⟨tl.tracks.list, tl.tracks.pos - 1⟩) with _ | rest <;> rfl
    · have hz : tl.tracks.pos = 0 := by have := h.nonneg; omega
      simp only [hp, decide_false] at hgo
      simp [goPrevRun, hgo, behind_zero _ hz, provide_nil]

/-! ## The window and navigation -/

/-- For every list that has a position, `NextTracks` is what calling `GoNext` again and again plays,
`PeekNext` is the first of it, and `PrevTracks` is what `GoPrev` plays, in reverse. A panic of the
conversion of a track happens on both sides. -/
theorem window_eq_navigation (g : Rand) (typ : SpotifyIdType) (ops : List Op) (tl : TrackList)
    (hrun : exec (step g) (newTrackList typ) ops = some tl) (h0 : 0 ≤ tl.tracks.pos)
    (page : Pages ContextTrack) :
    (tl.nextTracks page none).map (·.1) = tl.goNextRun page maxTracksInContext ∧
    (∃ next mid moved tl', tl.peekNext page = some (next, mid) ∧
      tl.goNext page = some (moved, tl') ∧ (next = none ↔ moved = false) ∧
      (∀ track, next = some track → tl'.current = some track) ∧
      ∀ window, tl.goNextRun page maxTracksInContext = some window →
        window.head? = next.bind (contextTrackToProvidedTrack tl.typ)) ∧
    tl.prevTracks = (tl.goPrevRun maxTracksInContext).map List.reverse := by
  have h := reachable_positioned hrun h0
  refine ⟨?_, ?_, ?_⟩
  · rw [nextTracks_eq h, goNextRun_eq h]
    rfl
  · obtain ⟨next, mid, moved, tl', hpeek, hgo, hiff, hcur, hhead⟩ := peekNext_eq page h
    refine ⟨next, mid, moved, tl', hpeek, hgo, hiff, hcur, fun window hw => ?_⟩
    rw [goNextRun_eq h] at hw
    rw [hhead 31]
    exact head?_of_provide hw
  · rw [prevTracks_eq h, goPrevRun_eq h]

/-- The second page is not fetched yet, and a track is queued. -/
def queuedStart : TrackList := addToQueue trackB { typ := "track", tracks := ⟨[⟨trackA, 0, 0⟩], 0⟩ }

theorem window_eq_navigation_queuedStart :
    exec (step drawZero) (newTrackList "track") [.goStart twoPages, .addToQueue trackB] =
      some queuedStart ∧
    (queuedStart.nextTracks twoPages none).map (·.1) =
      queuedStart.goNextRun twoPages maxTracksInContext := by
  have hrun : exec (step drawZero) (newTrackList "track")
      [.goStart twoPages, .addToQueue trackB] = some queuedStart := by decide +kernel
  exact ⟨hrun, (window_eq_navigation drawZero "track" _ queuedStart hrun (by decide) twoPages).1⟩

end TrackList

end Librespot.Tracks
