import Librespot.Tracks.ListedTwice

/-!
# Tracks that are played ahead of the context

A jump that finds its target nowhere puts it in front of the loaded list. Without a shuffle the
list is then made of such tracks, the latest first, and of the context in order.
-/

open Base.Exchange Base.Run List Option

namespace Librespot.Tracks.TrackList

open PagedList

variable {g : Rand} {page : Pages ContextTrack} {tl tl' mid : TrackList} {track : ContextTrack}

/-! ## The order of the list -/

def InOrder (list : List (PagedListItem ContextTrack)) : Prop :=
  ∃ ahead context, list = ahead ++ context ∧ (∀ x ∈ ahead, x.pageIdx = -1) ∧
    (∀ x ∈ context, 0 ≤ x.pageIdx) ∧ ∀ x ∈ context.head?, x.pageIdx = 0 ∧ x.itemIdx = 0

theorem inOrder_nil : InOrder [] := ⟨[], [], rfl, by simp, by simp, by simp⟩

variable {list : List (PagedListItem ContextTrack)} {l m : PagedList ContextTrack}
  {x : PagedListItem ContextTrack}

theorem InOrder.cons (h : InOrder list) (item : ContextTrack) :
    InOrder (⟨item, -1, -1⟩ :: list) := by
  obtain ⟨ahead, context, rfl, hahead, hcontext⟩ := h
  exact ⟨_ :: ahead, context, rfl, forall_mem_cons.mpr ⟨rfl, hahead⟩, hcontext⟩

theorem nextPageIdx_ahead (h : ∀ x ∈ l.list, x.pageIdx = -1) : l.nextPageIdx = 0 := by
  unfold nextPageIdx
  split
  · rfl
  · rename_i x hx
    rw [h x (mem_of_getLast? hx)]
    rfl

theorem head?_pageItems {items : List ContextTrack} (hx : x ∈ (PagedList.pageItems 0 items).head?) :
    x.pageIdx = 0 ∧ x.itemIdx = 0 := by
  cases items with
  | nil => simp [pageItems] at hx
  | cons =>
    simp only [pageItems, zipIdx_cons, map_cons, head?_cons, mem_some] at hx
    subst hx
    exact ⟨rfl, rfl⟩

theorem InOrder.nextPageIdx_nonneg (h : InOrder l.list) : 0 ≤ l.nextPageIdx := by
  obtain ⟨ahead, context, hlist, hahead, hcontext, -⟩ := h
  refine Paged.nextPageIdx_nonneg fun x hx => ?_
  rw [hlist, mem_append] at hx
  rcases hx with hx | hx
  · exact (hahead x hx).ge
  · have := hcontext x hx
    omega

theorem InOrder.fetchNextPage (h : InOrder l.list) (hf : l.fetchNextPage page = (none, m)) :
    InOrder m.list := by
  have hnext := h.nextPageIdx_nonneg
  obtain ⟨items, -, -, rfl⟩ := fetchNextPage_ok_iff.mp hf
  obtain ⟨ahead, context, hlist, hahead, hcontext, hfirst⟩ := h
  refine ⟨ahead, context ++ pageItems l.nextPageIdx items, ?_, hahead, ?_, ?_⟩
  · rw [hlist, append_assoc]
  · intro x hx
    rcases mem_append.mp hx with hx | hx
    · exact hcontext x hx
    · obtain ⟨j, -, hpage, -⟩ := mem_pageItems.mp hx
      omega
  · intro x hx
    cases context with
    | nil =>
      rw [append_nil] at hlist
      rw [nil_append, nextPageIdx_ahead (hlist ▸ hahead)] at hx
      exact head?_pageItems hx
    | cons => exact hfirst x hx

theorem InOrder.fetched (h : InOrder l.list) (hm : Fetched page l m) : InOrder m.list := by
  induction hm with
  | refl => exact h
  | next hf _ ih => exact ih (h.fetchNextPage hf)

theorem step_inOrder {op : Op} (hop : op.isToggle = false) (hv : tl.tracks.Valid)
    (h : InOrder tl.tracks.list) (hs : step g tl op = some tl') : InOrder tl'.tracks.list := by
  obtain ⟨-, -, m, hm, hlist⟩ := step_moved hop hv hs
  have hm : InOrder m.list := by
    rcases hm with hreads | ⟨-, hfetched⟩
    · exact h.fetched hreads.fetched
    · exact inOrder_nil.fetched hfetched
  rcases hlist with hlist | ⟨item, hlist⟩
  · exact hlist ▸ hm
  · exact hlist ▸ hm.cons item

theorem reachable_inOrder {typ : SpotifyIdType} {ops : List Op}
    (hrun : exec (step g) (newTrackList typ) ops = some tl)
    (hops : ∀ op ∈ ops, op.isToggle = false) : InOrder tl.tracks.list := by
  have hinv : tl.tracks.Valid ∧ InOrder tl.tracks.list := by
    refine exec_invariant_of_labels (I := fun tl => tl.tracks.Valid ∧ InOrder tl.tracks.list)
      (L := fun op => op.isToggle = false) ?_ ⟨valid_new, inOrder_nil⟩ hops hrun
    exact fun tl op tl' hI hop hs => ⟨step_valid hI.1 hs, step_inOrder hop hI.1 hI.2 hs⟩
  exact hinv.2

/-! ## A jump that misses -/

/-- The target is found neither in the queue nor in the context, and `mid` is the list after the
search. -/
structure Misses (page : Pages ContextTrack) (track : ContextTrack) (tl mid : TrackList) : Prop where
  queue : tl.seekQueue track = some (false, tl)
  context : ∃ isTarget err, contextTrackComparator tl.typ track = some isTarget ∧
    tl.leaveQueue.seek page (fun _ => isTarget) = some (some err, mid)

def playAhead (track : ContextTrack) (mid : TrackList) : TrackList :=
  { mid with tracks := mid.tracks.moveInjected track }

theorem trySeekTo_of_misses (hqueue : tl.playingQueue = true → tl.queue ≠ [])
    (h : Misses page track tl mid) :
    tl.trySeekTo page track = some (none, mid.playAhead track) := by
  obtain ⟨isTarget, err, hcmp, hseek⟩ := h.context
  have hnil : ¬ (tl.playingQueue = true ∧ tl.queue = []) := fun hp => hqueue hp.1 hp.2
  have hcmp' : contextTrackComparator tl.leaveQueue.typ track = some isTarget := hcmp
  unfold trySeekTo
  simp only [bind_eq_bind, h.queue, bind_some, hnil, if_false, leaveQueue_eq, hcmp', hseek]
  rfl

theorem Misses.fetched (h : Misses page track tl mid) : Fetched page tl.tracks mid.tracks := by
  obtain ⟨isTarget, err, -, hseek⟩ := h.context
  obtain ⟨m, hm, ⟨p, hno, -⟩ | ⟨-, rfl⟩⟩ := seek_spec hseek
  · simp at hno
  · exact hm.fetched

theorem Misses.playingQueue (h : Misses page track tl mid) : mid.playingQueue = false := by
  obtain ⟨isTarget, err, -, hseek⟩ := h.context
  exact (seek_sameQueue hseek).2

def OnFirst (tl : TrackList) : Prop :=
  tl.playingQueue = false ∧ ∃ x, tl.tracks.entry = some x ∧ x.pageIdx = 0 ∧ x.itemIdx = 0

def NoneAhead (list : List (PagedListItem ContextTrack)) : Prop := ∀ x ∈ list, 0 ≤ x.pageIdx

theorem noneAhead_fetched (hm : Fetched page l m) (horder : InOrder l.list) :
    NoneAhead m.list ↔ NoneAhead l.list := by
  induction hm with
  | refl => rfl
  | next hf _ ih =>
    rw [ih (horder.fetchNextPage hf)]
    have hpaged := horder.nextPageIdx_nonneg
    obtain ⟨items, -, -, rfl⟩ := fetchNextPage_ok_iff.mp hf
    constructor
    · exact fun h x hx => h x (mem_append_left _ hx)
    · intro h x hx
      rcases mem_append.mp hx with hx | hx
      · exact h x hx
      · obtain ⟨j, -, hpage, -⟩ := mem_pageItems.mp hx
        omega

theorem InOrder.head_iff (h : InOrder list) (hx : list.head? = some x) :
    x.pageIdx = 0 ∧ x.itemIdx = 0 ↔ NoneAhead list := by
  obtain ⟨ahead, context, rfl, hahead, hcontext, hfirst⟩ := h
  cases ahead with
  | nil => exact iff_of_true (hfirst x hx) hcontext
  | cons y =>
    obtain rfl : y = x := some.inj hx
    have hy := hahead y mem_cons_self
    refine iff_of_false (by omega) fun hnone => ?_
    have := hnone y (mem_append_left _ mem_cons_self)
    omega

theorem goNext_playAhead (next : Pages ContextTrack) (track : ContextTrack)
    (hqueue : mid.queue = []) (hplaying : mid.playingQueue = false) :
    (∃ x after, mid.tracks.list.head? = some x ∧
      (mid.playAhead track).goNext next = some (true, after) ∧ after.playingQueue = false ∧
      after.tracks.entry = some x) ∨
    (mid.tracks.list = [] ∧ (∃ items, next 0 = .ok items ∧ items ≠ []) ∧ ∃ after,
      (mid.playAhead track).goNext next = some (true, after) ∧ after.OnFirst) ∨
    (mid.tracks.list = [] ∧ (¬ ∃ items, next 0 = .ok items ∧ items ≠ []) ∧ ∃ after,
      (mid.playAhead track).goNext next = some (false, after)) := by
  have hpos : (mid.playAhead track).Positioned := by
    refine .of_valid ?_ ⟨?_, ?_⟩ ?_
    · exact fun hp => absurd (hplaying.symm.trans hp) Bool.false_ne_true
    all_goals simp [playAhead, moveInjected]
  have hwaiting : (mid.playAhead track).waiting = [] := by
    simp [waiting, playAhead, hplaying, hqueue]
  have hlen : (mid.playAhead track).tracks.list.length = mid.tracks.list.length + 1 := rfl
  have hnone (h : (0 : Int) + 1 = (mid.playAhead track).tracks.list.length) :
      mid.tracks.list = [] := length_eq_zero_iff.mp (by omega)
  have hidx (h : mid.tracks.list = []) : (mid.playAhead track).tracks.nextPageIdx = 0 :=
    nextPageIdx_ahead (by simp [playAhead, moveInjected, h])
  rcases Iter.next_cases next { pos := 0 } (mid.playAhead track).tracks (by simp only; omega) with
    ⟨hlt, he⟩ | ⟨heq, l, hf, he⟩ | ⟨heq, err, e, hf, he⟩
  · left
    cases hlist : mid.tracks.list with
    | nil =>
      rw [hlen, hlist] at hlt
      simp at hlt
    | cons x =>
      refine ⟨x, _, rfl, goNext_context hpos hwaiting he, rfl, ?_⟩
      simp [Marked.entry, playAhead, moveInjected, hlist]
  · right; left
    have hnil := hnone heq
    obtain ⟨items, hitems, hne, rfl⟩ := fetchNextPage_ok_iff.mp hf
    rw [hidx hnil] at hitems
    refine ⟨hnil, ⟨items, hitems, hne⟩, _, goNext_context hpos hwaiting he, rfl, ?_⟩
    obtain ⟨item, items, rfl⟩ := exists_cons_of_ne_nil hne
    refine ⟨⟨item, 0, 0⟩, ?_, rfl, rfl⟩
    rw [hidx hnil]
    simp [Marked.entry, playAhead, moveInjected, hnil, pageItems]
  · right; right
    have hnil := hnone heq
    refine ⟨hnil, ?_, _, goNext_context hpos hwaiting he⟩
    rintro ⟨items, hitems, hne⟩
    have hok : (mid.playAhead track).tracks.fetchNextPage next = (none, _) :=
      fetchNextPage_ok_iff.mpr ⟨items, by rw [hidx hnil]; exact hitems, hne, rfl⟩
    rw [hok] at hf
    simp at hf

/-! ## The next track -/

theorem nonneg_of_goNext {ok : Bool} (h : tl.goNext page = some (ok, tl'))
    (hp : tl'.playingQueue = false) : 0 ≤ tl.tracks.pos := by
  by_contra hneg
  have hhere : Iter.here tl.tracks = none := by simp [Iter.here, not_le.mp hneg]
  unfold goNext at h
  split at h
  · cases h
  · cases hq : tl.playingQueue
    all_goals
      simp only [hq, Bool.false_eq_true, if_true, if_false, hhere, bind_eq_bind,
        bind_none, ite_none_right_eq_some, some.injEq, Prod.mk.injEq] at h
      simp [← h.2.2] at hp

theorem two_le_countP (h : InOrder list) {i : Nat} (hi : 1 ≤ i) (hx : list[i]? = some x)
    (hneg : x.pageIdx < 0) : 2 ≤ list.countP fun x => decide (x.pageIdx < 0) := by
  obtain ⟨ahead, context, rfl, hahead, hcontext, -⟩ := h
  have hlt : i < ahead.length := by
    by_contra hge
    rw [getElem?_append_right (not_lt.mp hge)] at hx
    have := hcontext x (mem_of_getElem? hx)
    omega
  have hall : ahead.countP (fun x => decide (x.pageIdx < 0)) = ahead.length := by
    refine countP_eq_length.mpr fun y hy => ?_
    simp [hahead y hy]
  rw [countP_append, hall]
  omega

theorem goNext_ahead (hpos : tl.Positioned) (horder : InOrder tl.tracks.list)
    (hgo : tl.goNext page = some (true, tl')) (hplaying : tl'.playingQueue = false)
    (hx : tl'.tracks.entry = some x) (hneg : x.pageIdx < 0) :
    2 ≤ tl.tracks.list.countP fun x => decide (x.pageIdx < 0) := by
  have hwaiting : tl.waiting = [] := by
    by_contra hne
    rw [goNext_queued page hpos hne, some.injEq, Prod.mk.injEq] at hgo
    simp [← hgo.2] at hplaying
  have h0 := hpos.nonneg
  have hlt := hpos.lt
  have hlanded (l : PagedList ContextTrack) (hn : Iter.next page { pos := tl.tracks.pos } tl.tracks =
      (true, { pos := tl.tracks.pos + 1 }, l)) : l.list[tl.tracks.pos.toNat + 1]? = some x := by
    rw [goNext_context hpos hwaiting hn, some.injEq, Prod.mk.injEq] at hgo
    rw [← hgo.2] at hx
    simpa [Marked.entry, show ¬ tl.tracks.pos + 1 < 0 by omega,
      show (tl.tracks.pos + 1).toNat = tl.tracks.pos.toNat + 1 by omega] using hx
  rcases Iter.next_cases page { pos := tl.tracks.pos } tl.tracks (by simp only; omega) with
    ⟨-, he⟩ | ⟨heq, l, hf, he⟩ | ⟨-, err, e, -, he⟩
  · exact two_le_countP horder (by omega) (hlanded _ he) hneg
  · -- the entry behind the last one comes from the page just fetched
    have hl := hlanded _ he
    have hnonneg := horder.nextPageIdx_nonneg
    obtain ⟨items, -, -, rfl⟩ := fetchNextPage_ok_iff.mp hf
    rw [getElem?_append_right (by simp only at heq; omega)] at hl
    obtain ⟨j, -, hpage, -⟩ := mem_pageItems.mp (mem_of_getElem? hl)
    omega
  · rw [goNext_context hpos hwaiting he] at hgo
    simp at hgo

/-- The track behind one that was played ahead is the first of the context exactly if no other was
played ahead before, and only then none of them comes back. -/
theorem goNext_after_miss {typ : SpotifyIdType} {ops : List Op}
    (hrun : exec (step g) (newTrackList typ) ops = some tl)
    (hops : ∀ op ∈ ops, op.isToggle = false) :
    (∀ page track mid, Misses page track tl mid →
      tl.trySeekTo page track = some (none, mid.playAhead track) ∧
      (mid.queue = [] → ∀ next, ∃ ok after,
        (mid.playAhead track).goNext next = some (ok, after) ∧
        (ok = true ↔ mid.tracks.list ≠ [] ∨ ∃ items, next 0 = .ok items ∧ items ≠ []) ∧
        (ok = true → (after.OnFirst ↔ NoneAhead tl.tracks.list)))) ∧
    ∀ page after x, tl.goNext page = some (true, after) → after.playingQueue = false →
      after.tracks.entry = some x → x.pageIdx < 0 →
      2 ≤ tl.tracks.list.countP fun x => decide (x.pageIdx < 0) := by
  have horder := reachable_inOrder hrun hops
  constructor
  · intro page track mid hmiss
    refine ⟨trySeekTo_of_misses (reachable_queued hrun) hmiss, fun hqueue next => ?_⟩
    rw [← noneAhead_fetched hmiss.fetched horder]
    rcases goNext_playAhead next track hqueue hmiss.playingQueue with
      ⟨x, after, hhead, hgo, hplaying, hx⟩ | ⟨hnil, hitems, after, hgo, hfirst⟩ |
      ⟨hnil, hnone, after, hgo⟩
    · refine ⟨true, after, hgo, ?_, fun _ => ?_⟩
      · have hne : mid.tracks.list ≠ [] := fun hnil => by simp [hnil] at hhead
        exact iff_of_true rfl (.inl hne)
      · rw [← (horder.fetched hmiss.fetched).head_iff hhead]
        simp [OnFirst, hplaying, hx]
    · refine ⟨true, after, hgo, iff_of_true rfl (.inr hitems), fun _ => ?_⟩
      exact iff_of_true hfirst (by simp [NoneAhead, hnil])
    · refine ⟨false, after, hgo, ?_, fun h => absurd h Bool.false_ne_true⟩
      exact iff_of_false Bool.false_ne_true (not_or.mpr ⟨not_not.mpr hnil, hnone⟩)
  · intro page after x hgo hplaying hx hneg
    have hpos := reachable_positioned hrun (nonneg_of_goNext hgo hplaying)
    exact goNext_ahead hpos horder hgo hplaying hx hneg

def trackC : ContextTrack := { uri := "spotify:track:c" }

def trackD : ContextTrack := { uri := "spotify:track:d" }

/-- Two jumps out of the context. The track after the second one is the target of the first. -/
theorem first_target_comes_back :
    ∃ tl, exec (step drawZero) (newTrackList "track")
        [.goStart twoPages, .trySeekTo twoPages trackC, .trySeekTo twoPages trackD] = some tl ∧
      tl.queue = [] ∧ tl.currentTrack.map (·.uri) = some trackD.uri ∧
      ∃ after, tl.goNext twoPages = some (true, after) ∧ ¬ after.OnFirst ∧
        after.currentTrack.map (·.uri) = some trackC.uri := by
  refine ⟨{ newTrackList "track" with tracks := ⟨[⟨trackD, -1, -1⟩, ⟨trackC, -1, -1⟩,
    ⟨trackA, 0, 0⟩, ⟨trackB, 1, 0⟩], 0⟩ }, by decide +kernel, rfl, by decide +kernel, _, rfl, ?_,
    by decide +kernel⟩
  rintro ⟨-, x, hx, hpage, -⟩
  obtain rfl : ⟨trackC, -1, -1⟩ = x := some.inj hx
  exact absurd hpage (by decide)

theorem goNext_after_miss_first :
    exec (step drawZero) (newTrackList "track") [.goStart twoPages] =
      some { newTrackList "track" with tracks := ⟨[⟨trackA, 0, 0⟩], 0⟩ } ∧
    ∃ after, TrackList.goNext twoPages { newTrackList "track" with
        tracks := ⟨[⟨trackC, -1, -1⟩, ⟨trackA, 0, 0⟩, ⟨trackB, 1, 0⟩], 0⟩ } = some (true, after) ∧
      after.OnFirst := by
  have hrun : exec (step drawZero) (newTrackList "track") [.goStart twoPages] =
      some { newTrackList "track" with tracks := ⟨[⟨trackA, 0, 0⟩], 0⟩ } := by decide +kernel
  have hmiss : Misses twoPages trackC { newTrackList "track" with tracks := ⟨[⟨trackA, 0, 0⟩], 0⟩ }
      { newTrackList "track" with tracks := ⟨[⟨trackA, 0, 0⟩, ⟨trackB, 1, 0⟩], 0⟩ } := by
    exact ⟨by decide +kernel, _, { text := "could not find track" }, rfl, by decide +kernel⟩
  obtain ⟨-, hnext⟩ := (goNext_after_miss hrun (by decide)).1 _ _ _ hmiss
  obtain ⟨ok, after, hgo, hok, hfirst⟩ := hnext rfl twoPages
  have htrue : ok = true := hok.mpr (.inl (by simp))
  refine ⟨hrun, after, htrue ▸ hgo, (hfirst htrue).mpr ?_⟩
  simp [NoneAhead]

end Librespot.Tracks.TrackList
