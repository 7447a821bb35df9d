import Librespot.Playlists.Pages
import Librespot.Tracks.Positioned

/-!
# The end of a context

A page that answers 404 ends the list, and the caller is told so. The resolver keeps nothing of it:
its last page still names the url. So whatever runs past the last loaded track asks again.
-/

open Base.Run
open Librespot.Tracks
open Librespot.Tracks.TrackList (Snapshot maxTracksInContext)

namespace Librespot.Playlists

open Option (bind_eq_bind bind_eq_some_iff bind_some map_eq_some_iff map_snd_eq_some)

open TrackList ContextResolver

/-! ## A list and its resolver -/

structure Reader where
  resolver : ContextResolver
  list : TrackList

namespace Reader

variable (svc : Service)

/-- The loop of the iterator's `next`, with the calls of `Page` that it makes. -/
def nextLoop (i : Iter) : Nat → PagedList ContextTrack → ContextResolver →
    Option (Bool × Iter × PagedList ContextTrack × ContextResolver)
  | 0, l, r => some (true, { pos := i.pos + 1 }, l, r)
  | n + 1, l, r =>
    if i.pos + 1 ≥ l.list.length then do
      let (answer, r) ← r.page svc l.nextPageIdx
      match l.fetchNextPage fun _ => answer with
      | (some err, l') =>
        if err.isEOF then some (false, { i with err := none }, l', r)
        else
          let text := s!"failed moving to next index {i.pos + 1} (page {l.nextPageIdx}): "
          some (false, { i with err := some (err.wrap text) }, l', r)
      | (none, l') => nextLoop i n l' r
    else some (true, { pos := i.pos + 1 }, l, r)

def next (i : Iter) (l : PagedList ContextTrack) (r : ContextResolver) :
    Option (Bool × Iter × PagedList ContextTrack × ContextResolver) :=
  nextLoop svc i (i.pos + 2 - l.list.length).toNat l r

def goNext (s : Reader) : Option (Bool × Reader) :=
  let list := s.list
  if list.playingQueue ∧ list.queue = [] then none
  else
    let list := if list.playingQueue then { list with queue := list.queue.tail } else list
    if list.queue.length > 0 then
      some (true, { s with list := { list with playingQueue := true } })
    else do
      let list := { list with playingQueue := false }
      let (moved, iter, tracks, resolver) ← next svc (← Iter.here list.tracks) list.tracks s.resolver
      let tracks := if moved then { tracks with pos := iter.pos } else tracks
      some (moved, { resolver, list := { list with tracks } })

def peekNext (s : Reader) : Option (Option ContextTrack × Reader) :=
  let list := s.list
  if list.playingQueue ∧ list.queue.length > 1 then some (list.queue[1]?, s)
  else if ¬ list.playingQueue ∧ list.queue.length > 0 then some (list.queue[0]?, s)
  else do
    match ← next svc (← Iter.here list.tracks) list.tracks s.resolver with
    | (true, iter, tracks, resolver) =>
      let curr ← iter.get tracks
      some (some curr.item, { resolver, list := { list with tracks } })
    | (false, _, tracks, resolver) => some (none, { resolver, list := { list with tracks } })

def restLoop (typ : SpotifyIdType) : Nat → Iter → PagedList ContextTrack → ContextResolver →
    Option (List ProvidedTrack × PagedList ContextTrack × ContextResolver)
  | 0, _, l, r => some ([], l, r)
  | n + 1, iter, l, r => do
    match ← next svc iter l r with
    | (false, _, l, r) => some ([], l, r)
    | (true, iter, l, r) =>
      let curr ← iter.get l
      let track ← contextTrackToProvidedTrack typ curr.item
      let (rest, l, r) ← restLoop typ n iter l r
      some (track :: rest, l, r)

def nextTracks (nextHint : Option (List ContextTrack)) (s : Reader) :
    Option (List ProvidedTrack × Reader) :=
  match nextHint with
  | some hint =>
    (s.list.nextTracks (fun _ => .ok []) (some hint)).map fun (tracks, list) =>
      (tracks, { s with list })
  | none => do
    let queued := if s.list.playingQueue then s.list.queue.tail else s.list.queue
    let tracks ← (queued.take maxTracksInContext).mapM (contextTrackToProvidedTrack s.list.typ)
    let left := maxTracksInContext - tracks.length
    let iter ← Iter.here s.list.tracks
    let (rest, l, resolver) ← restLoop svc s.list.typ left iter s.list.tracks s.resolver
    some (tracks ++ rest, { resolver, list := { s.list with tracks := l } })

def snapshot (nextHint : Option (List ContextTrack)) (s : Reader) : Option (Snapshot × Reader) := do
  let current ← s.list.currentTrack
  let prev ← s.list.prevTracks
  let (next, s) ← s.nextTracks svc nextHint
  let index ← s.list.index
  some ({ current, prev, next, index }, s)

end Reader

inductive ReadOp
  | page (svc : Service) (idx : Int)
  | goNext (svc : Service)
  | goPrev
  | peekNext (svc : Service)
  | snapshot (svc : Service) (nextHint : Option (List ContextTrack))

namespace Reader

def step (s : Reader) : ReadOp → Option Reader
  | .page svc idx => (s.resolver.page svc idx).map fun (_, resolver) => { s with resolver }
  | .goNext svc => (s.goNext svc).map (·.2)
  | .goPrev => s.list.goPrev.map fun (_, list) => { s with list }
  | .peekNext svc => (s.peekNext svc).map (·.2)
  | .snapshot svc nextHint => (s.snapshot svc nextHint).map (·.2)

end Reader

/-! ## What is asked for -/

namespace ContextResolver

variable {svc : Service} {r r' : ContextResolver}

def Asked (urls : List String) (r r' : ContextResolver) : Prop := r'.requests = r.requests ++ urls

theorem grow_asked {n : Nat} {res : Except Err Unit} (h : grow svc n r = some (res, r')) :
    ∃ urls, Asked urls r r' := by
  induction n generalizing r with
  | zero =>
    simp only [grow, Option.some.injEq, Prod.mk.injEq] at h
    exact ⟨[], by simp [Asked, h.2]⟩
  | succ _ ih =>
    unfold grow at h
    split at h
    · simp only [Option.some.injEq, Prod.mk.injEq] at h
      exact ⟨[], by simp [Asked, h.2]⟩
    · rename_i last hlast
      split at h
      · simp only [Option.some.injEq, Prod.mk.injEq] at h
        exact ⟨[], by simp [Asked, h.2]⟩
      · simp only [bind_eq_bind, bind_eq_some_iff] at h
        obtain ⟨page, -, h⟩ := h
        cases page with
        | error =>
          simp only [Option.some.injEq, Prod.mk.injEq] at h
          exact ⟨[last.nextPageUrl], by simp [Asked, ← h.2]⟩
        | ok =>
          obtain ⟨urls, hurls⟩ := ih h
          exact ⟨last.nextPageUrl :: urls, by simpa [Asked] using hurls⟩

variable {res : Except Err (List ContextTrack)} {idx : Int}

theorem tracksAt_asked {idx : Nat} (h : tracksAt svc idx r = some (res, r')) :
    ∃ urls, Asked urls r r' := by
  simp only [tracksAt, bind_eq_bind, bind_eq_some_iff] at h
  obtain ⟨page, -, h⟩ := h
  split at h
  · split at h
    · simp only [Option.some.injEq, Prod.mk.injEq] at h
      exact ⟨[], by simp [Asked, h.2]⟩
    · simp only [bind_eq_some_iff] at h
      obtain ⟨loaded, -, h⟩ := h
      cases loaded with
      | error | ok =>
        simp only [Option.some.injEq, Prod.mk.injEq] at h
        exact ⟨[page.pageUrl], by simp [Asked, ← h.2]⟩
  · simp only [Option.some.injEq, Prod.mk.injEq] at h
    exact ⟨[], by simp [Asked, h.2]⟩

theorem page_asked (h : r.page svc idx = some (res, r')) : ∃ urls, Asked urls r r' := by
  unfold page at h
  split at h
  · simp only [Option.some.injEq, Prod.mk.injEq] at h
    exact ⟨[], by simp [Asked, h.2]⟩
  · simp only [bind_eq_bind, bind_eq_some_iff, Prod.exists] at h
    obtain ⟨grown, q, hgrow, h⟩ := h
    obtain ⟨urls, hurls⟩ := grow_asked hgrow
    cases grown with
    | error =>
      simp only [Option.some.injEq, Prod.mk.injEq] at h
      exact ⟨urls, h.2 ▸ hurls⟩
    | ok =>
      obtain ⟨more, hmore⟩ := tracksAt_asked h
      exact ⟨urls ++ more, by rw [Asked, hmore, hurls, List.append_assoc]⟩

structure Names (url : String) (r : ContextResolver) : Prop where
  last : ∃ last, r.pages.getLast? = some last ∧ last.nextPageUrl = url
  url : url ≠ ""
  filled : ∀ page ∈ r.pages, page.tracks ≠ []

variable {url : String}

theorem page_past (hr : Names url r) (hidx : r.pages.length ≤ idx)
    (h : r.page svc idx = some (res, r')) : ∃ urls, Asked (url :: urls) r r' := by
  obtain ⟨last, hlast, rfl⟩ := hr.last
  obtain ⟨n, hn⟩ : ∃ n, idx.toNat + 1 - r.pages.length = n + 1 :=
    ⟨idx.toNat - r.pages.length, by omega⟩
  rw [page, if_neg (by omega), hn] at h
  simp only [grow, hlast, if_neg hr.url, bind_eq_bind, bind_eq_some_iff, Prod.exists]
    at h
  obtain ⟨grown, q, ⟨page, -, hgrow⟩, h⟩ := h
  have hasked : ∃ urls, Asked (last.nextPageUrl :: urls) r q := by
    cases page with
    | error =>
      simp only [Option.some.injEq, Prod.mk.injEq] at hgrow
      exact ⟨[], by simp [Asked, ← hgrow.2]⟩
    | ok =>
      obtain ⟨urls, hurls⟩ := grow_asked hgrow
      exact ⟨urls, by simpa [Asked] using hurls⟩
  obtain ⟨urls, hurls⟩ := hasked
  cases grown with
  | error =>
    simp only [Option.some.injEq, Prod.mk.injEq] at h
    exact ⟨urls, h.2 ▸ hurls⟩
  | ok =>
    obtain ⟨more, hmore⟩ := tracksAt_asked h
    exact ⟨urls ++ more, by rw [Asked, hmore, hurls, List.append_assoc, List.cons_append]⟩

theorem page_within (hr : Names url r) (hidx : idx < r.pages.length)
    (h : r.page svc idx = some (res, r')) : r' = r := by
  by_cases hneg : idx < 0
  · rw [page, if_pos hneg] at h
    exact (Prod.mk.inj (Option.some.inj h)).2.symm
  · obtain ⟨n, rfl⟩ := Int.eq_ofNat_of_zero_le (Int.not_lt.mp hneg)
    have hlt : n < r.pages.length := by omega
    have hpage := List.getElem?_eq_getElem hlt
    rw [page_again hpage (hr.filled _ (List.getElem_mem hlt))] at h
    exact (Prod.mk.inj (Option.some.inj h)).2.symm

theorem page_gone (hr : Names url r) (hgone : loadPage svc url = some (.error eof)) :
    r.page svc r.pages.length = some (.error (eof.wrap "failed fetching next page: "),
      { r with requests := r.requests ++ [url] }) := by
  obtain ⟨last, hlast, rfl⟩ := hr.last
  rw [page, if_neg (by omega), grow_last]
  simp only [grow, hlast, if_neg hr.url, bind_eq_bind, hgone, bind_some]

end ContextResolver

/-! ## What a list asks for -/

namespace Reader

open ContextResolver (Asked Names)

variable {svc : Service} {s s' : Reader} {r r' : ContextResolver} {l l' : PagedList ContextTrack}
  {i i' : Iter} {url : String}

theorem next_of_lt (h : i.pos + 1 < l.list.length) :
    next svc i l r = some (true, { pos := i.pos + 1 }, l, r) := by
  unfold next
  rw [show (i.pos + 2 - l.list.length).toNat = 0 by omega]
  rfl

variable {more : Bool} {n : Nat} {typ : SpotifyIdType} {tracks : List ProvidedTrack}

theorem next_of_eq (heq : i.pos + 1 = l.list.length)
    (h : next svc i l r = some (more, i', l', r')) :
    ∃ answer, r.page svc l.nextPageIdx = some (answer, r') := by
  unfold next at h
  rw [show (i.pos + 2 - l.list.length).toNat = 1 by omega] at h
  simp only [nextLoop, ge_iff_le] at h
  rw [if_pos (by omega)] at h
  simp only [bind_eq_bind, bind_eq_some_iff, Prod.exists] at h
  obtain ⟨answer, q, hpage, h⟩ := h
  refine ⟨answer, ?_⟩
  split at h
  · split at h
    · simp only [Option.some.injEq, Prod.mk.injEq] at h
      exact h.2.2.2 ▸ hpage
    · simp only [Option.some.injEq, Prod.mk.injEq] at h
      exact h.2.2.2 ▸ hpage
  · simp only [Option.some.injEq, Prod.mk.injEq] at h
    exact h.2.2.2 ▸ hpage

theorem next_refines (hle : i.pos + 1 ≤ l.list.length)
    (h : next svc i l r = some (more, i', l', r')) :
    ∃ page : Pages ContextTrack, i.next page l = (more, i', l') := by
  rcases lt_or_eq_of_le hle with hlt | heq
  · rw [next_of_lt hlt] at h
    cases h
    exact ⟨fun _ => .ok [], Iter.next_of_lt _ i l hlt⟩
  · have hone : (i.pos + 2 - l.list.length).toNat = 1 := by omega
    simp only [next, hone, nextLoop, ge_iff_le] at h
    rw [if_pos (by omega)] at h
    simp only [bind_eq_bind, bind_eq_some_iff, Prod.exists] at h
    obtain ⟨answer, q, -, h⟩ := h
    refine ⟨fun _ => answer, ?_⟩
    simp only [Iter.next, hone, Iter.nextLoop, ge_iff_le]
    rw [if_pos (by omega)]
    split at h
    · rename_i err l'' hfetch
      rw [hfetch]
      cases heof : err.isEOF <;> simp_all
    · rename_i l'' hfetch
      rw [hfetch]
      simp_all

theorem nextLoop_asked (h : nextLoop svc i n l r = some (more, i', l', r')) :
    ∃ urls, Asked urls r r' := by
  induction n generalizing l r with
  | zero =>
    simp only [nextLoop, Option.some.injEq, Prod.mk.injEq] at h
    exact ⟨[], by simp [Asked, h.2.2.2]⟩
  | succ _ ih =>
    unfold nextLoop at h
    split at h
    · simp only [bind_eq_bind, bind_eq_some_iff, Prod.exists] at h
      obtain ⟨answer, q, hpage, h⟩ := h
      obtain ⟨urls, hurls⟩ := page_asked hpage
      split at h
      · split at h
        · simp only [Option.some.injEq, Prod.mk.injEq] at h
          exact ⟨urls, h.2.2.2 ▸ hurls⟩
        · simp only [Option.some.injEq, Prod.mk.injEq] at h
          exact ⟨urls, h.2.2.2 ▸ hurls⟩
      · obtain ⟨more, hmore⟩ := ih h
        exact ⟨urls ++ more, by rw [Asked, hmore, hurls, List.append_assoc]⟩
    · simp only [Option.some.injEq, Prod.mk.injEq] at h
      exact ⟨[], by simp [Asked, h.2.2.2]⟩

theorem restLoop_asked (h : restLoop svc typ n i l r = some (tracks, l', r')) :
    ∃ urls, Asked urls r r' := by
  induction n generalizing i l r tracks with
  | zero =>
    simp only [restLoop, Option.some.injEq, Prod.mk.injEq] at h
    exact ⟨[], by simp [Asked, h.2.2]⟩
  | succ _ ih =>
    simp only [restLoop, bind_eq_bind, bind_eq_some_iff, Prod.exists] at h
    obtain ⟨more, i', mid, q, hnext, h⟩ := h
    obtain ⟨urls, hurls⟩ := nextLoop_asked hnext
    cases more with
    | false =>
      simp only [Option.some.injEq, Prod.mk.injEq] at h
      exact ⟨urls, h.2.2 ▸ hurls⟩
    | true =>
      simp only [bind_eq_some_iff, Prod.exists, Option.some.injEq, Prod.mk.injEq] at h
      obtain ⟨curr, -, track, -, rest, last, q', hrest, -, rfl, rfl⟩ := h
      obtain ⟨others, hothers⟩ := ih hrest
      exact ⟨urls ++ others, by rw [Asked, hothers, hurls, List.append_assoc]⟩

theorem restLoop_within (hlt : i.pos + n < l.list.length)
    (h : restLoop svc typ n i l r = some (tracks, l', r')) : l' = l ∧ r' = r := by
  induction n generalizing i tracks with
  | zero =>
    simp only [restLoop, Option.some.injEq, Prod.mk.injEq] at h
    exact ⟨h.2.1.symm, h.2.2.symm⟩
  | succ _ ih =>
    have hnext : next svc i l r = some (true, { pos := i.pos + 1 }, l, r) := next_of_lt (by omega)
    simp only [restLoop, bind_eq_bind, hnext, bind_some, bind_eq_some_iff,
      Prod.exists, Option.some.injEq, Prod.mk.injEq] at h
    obtain ⟨curr, -, track, -, rest, last, q, hrest, -, rfl, rfl⟩ := h
    exact ih (by simp only; omega) hrest

theorem restLoop_past (hr : Names url r) (hloaded : l.nextPageIdx = r.pages.length)
    (hle : i.pos + 1 ≤ l.list.length) (hend : l.list.length ≤ i.pos + n)
    (h : restLoop svc typ n i l r = some (tracks, l', r')) : ∃ urls, Asked (url :: urls) r r' := by
  induction n generalizing i tracks with
  | zero => omega
  | succ _ ih =>
    simp only [restLoop, bind_eq_bind, bind_eq_some_iff, Prod.exists] at h
    obtain ⟨more, j, mid, q, hnext, h⟩ := h
    rcases lt_or_eq_of_le hle with hlt | heq
    · rw [next_of_lt hlt] at hnext
      cases hnext
      simp only [bind_eq_some_iff, Prod.exists, Option.some.injEq, Prod.mk.injEq] at h
      obtain ⟨curr, -, track, -, rest, last, q', hrest, -, rfl, rfl⟩ := h
      exact ih (by simp only; omega) (by simp only; omega) hrest
    · obtain ⟨answer, hpage⟩ := next_of_eq heq hnext
      obtain ⟨urls, hurls⟩ := page_past hr hloaded.ge hpage
      cases more with
      | false =>
        simp only [Option.some.injEq, Prod.mk.injEq] at h
        exact ⟨urls, h.2.2 ▸ hurls⟩
      | true =>
        simp only [bind_eq_some_iff, Prod.exists, Option.some.injEq, Prod.mk.injEq] at h
        obtain ⟨curr, -, track, -, rest, last, q', hrest, -, -, rfl⟩ := h
        obtain ⟨others, hothers⟩ := restLoop_asked hrest
        exact ⟨urls ++ others, by rw [Asked, hothers, hurls, List.append_assoc, List.cons_append]⟩

structure Ended (url : String) (s : Reader) : Prop where
  names : Names url s.resolver
  loaded : s.list.tracks.nextPageIdx = s.resolver.pages.length
  valid : s.list.tracks.Valid

structure Rests (s s' : Reader) : Prop where
  resolver : s'.resolver = s.resolver
  loaded : s'.list.tracks.list = s.list.tracks.list
  valid : s'.list.tracks.Valid

theorem Ended.rests (hs : Ended url s) (h : Rests s s') : Ended url s' where
  names := h.resolver ▸ hs.names
  loaded := by
    rw [h.resolver, ← hs.loaded, PagedList.nextPageIdx, PagedList.nextPageIdx, h.loaded]
  valid := h.valid

end Reader

def ReadOp.asks (s : Reader) : ReadOp → Prop
  | .page _ idx => s.resolver.pages.length ≤ idx
  | .goNext _ | .peekNext _ =>
    s.list.waiting = [] ∧ s.list.tracks.pos + 1 = s.list.tracks.list.length
  | .goPrev => False
  | .snapshot _ nextHint =>
    nextHint = none ∧ s.list.tracks.list.length ≤ s.list.tracks.pos + s.list.nextLeft

namespace Reader

open ContextResolver (Asked Names)

variable {svc : Service} {s s' : Reader} {url : String} {op : ReadOp}

/-- What `GoNext` and `PeekNext` do about the context: nothing while queued tracks wait, and one
step of the iterator otherwise. -/
inductive Advances (svc : Service) (s s' : Reader) : Prop
  | queued (hwaiting : s.list.waiting ≠ []) (hresolver : s'.resolver = s.resolver)
      (htracks : s'.list.tracks = s.list.tracks)
  | context (more : Bool) (i : Iter) (l : PagedList ContextTrack) (hwaiting : s.list.waiting = [])
      (hnext : next svc { pos := s.list.tracks.pos } s.list.tracks s.resolver =
        some (more, i, l, s'.resolver))
      (htracks : s'.list.tracks = l ∨ more = true ∧ s'.list.tracks = { l with pos := i.pos })

variable {moved : Bool} {tracks : List ProvidedTrack}

theorem goNext_advances (h : s.goNext svc = some (moved, s')) : Advances svc s s' := by
  unfold goNext at h
  simp only at h
  split at h
  · simp at h
  · have hqueue : (if s.list.playingQueue then { s.list with queue := s.list.queue.tail }
        else s.list) = { s.list with queue := s.list.waiting } := by
      unfold waiting
      split <;> rfl
    rw [hqueue] at h
    split at h
    · rename_i hwaiting
      simp only [Option.some.injEq, Prod.mk.injEq] at h
      exact .queued (List.ne_nil_of_length_pos hwaiting) (h.2 ▸ rfl) (h.2 ▸ rfl)
    · rename_i hwaiting
      simp only [bind_eq_bind, bind_eq_some_iff, Prod.exists, Option.some.injEq, Prod.mk.injEq] at h
      obtain ⟨i, hi, moved, i', l, r, hnext, rfl, rfl⟩ := h
      obtain ⟨-, rfl⟩ := here_eq_some hi
      refine .context moved i' l (by simpa using hwaiting) hnext ?_
      cases moved with
      | true => exact .inr ⟨rfl, rfl⟩
      | false => exact .inl rfl

theorem goNext_refines (hv : s.list.tracks.Valid) (h : s.goNext svc = some (moved, s')) :
    ∃ page : Pages ContextTrack, s.list.goNext page = some (moved, s'.list) := by
  unfold goNext at h
  unfold TrackList.goNext
  simp only at h ⊢
  split at h
  · simp at h
  · rename_i hstuck
    simp only [if_neg hstuck]
    have htracks : (if s.list.playingQueue then { s.list with queue := s.list.queue.tail }
        else s.list).tracks = s.list.tracks := by split <;> rfl
    generalize (if s.list.playingQueue then { s.list with queue := s.list.queue.tail }
        else s.list) = list at h htracks ⊢
    split at h
    · rename_i hwaiting
      cases h
      exact ⟨fun _ => .ok [], by rw [if_pos hwaiting]⟩
    · rename_i hwaiting
      simp only [bind_eq_bind, bind_eq_some_iff, Prod.exists, Option.some.injEq, Prod.mk.injEq] at h
      obtain ⟨i, hi, moved, i', l, r, hnext, rfl, rfl⟩ := h
      obtain ⟨-, rfl⟩ := TrackList.here_eq_some hi
      have hlt := hv.lt
      rw [← htracks] at hlt
      obtain ⟨page, hpage⟩ := next_refines (by simp only; omega) hnext
      refine ⟨page, ?_⟩
      simp only [if_neg hwaiting, hi, bind_eq_bind, bind_some, hpage]
      cases moved <;> rfl

theorem peekNext_advances {track : Option ContextTrack} (h : s.peekNext svc = some (track, s')) :
    Advances svc s s' := by
  unfold peekNext at h
  simp only at h
  split at h
  · rename_i hqueue
    have hwaiting : s.list.waiting ≠ [] := by
      rw [waiting, if_pos hqueue.1]
      refine List.ne_nil_of_length_pos ?_
      rw [List.length_tail]
      omega
    have hs := (Prod.mk.inj (Option.some.inj h)).2
    exact .queued hwaiting (hs ▸ rfl) (hs ▸ rfl)
  · rename_i hplaying
    split at h
    · rename_i hqueue
      have hwaiting : s.list.waiting ≠ [] := by
        rw [waiting, if_neg hqueue.1]
        exact List.ne_nil_of_length_pos hqueue.2
      have hs := (Prod.mk.inj (Option.some.inj h)).2
      exact .queued hwaiting (hs ▸ rfl) (hs ▸ rfl)
    · rename_i hidle
      have hwaiting : s.list.waiting = [] := by
        apply List.length_eq_zero_iff.mp
        cases hp : s.list.playingQueue
        · simp only [hp] at hidle
          simp only [waiting, hp]
          simpa using hidle
        · simp only [hp, true_and] at hplaying
          simp only [waiting, hp, if_true, List.length_tail]
          omega
      simp only [bind_eq_bind, bind_eq_some_iff, Prod.exists] at h
      obtain ⟨i, hi, more, i', l, r, hnext, h⟩ := h
      obtain ⟨-, rfl⟩ := here_eq_some hi
      have hs : { resolver := r, list := { s.list with tracks := l } } = s' := by
        cases more with
        | true =>
          obtain ⟨curr, -, h⟩ := bind_eq_some_iff.mp h
          exact (Prod.mk.inj (Option.some.inj h)).2
        | false => exact (Prod.mk.inj (Option.some.inj h)).2
      subst hs
      exact .context more i' l hwaiting hnext (.inl rfl)

theorem Advances.rests (hs : Ended url s) (h : Advances svc s s')
    (hstays : ¬ (s.list.waiting = [] ∧ s.list.tracks.pos + 1 = s.list.tracks.list.length)) :
    Rests s s' := by
  cases h with
  | queued _ hresolver htracks => exact ⟨hresolver, by rw [htracks], htracks ▸ hs.valid⟩
  | context _ _ _ hwaiting hnext htracks =>
    have hge := hs.valid.ge
    have hlt := hs.valid.lt
    have hne : s.list.tracks.pos + 1 ≠ s.list.tracks.list.length := fun heq => hstays ⟨hwaiting, heq⟩
    rw [next_of_lt (by simp only; omega)] at hnext
    simp only [Option.some.injEq, Prod.mk.injEq] at hnext
    obtain ⟨rfl, rfl, rfl, hresolver⟩ := hnext
    rcases htracks with htracks | ⟨-, htracks⟩
    · exact ⟨hresolver.symm, by rw [htracks], htracks ▸ hs.valid⟩
    · exact ⟨hresolver.symm, by rw [htracks], htracks ▸ ⟨by simp only; omega, by simp only; omega⟩⟩

theorem Advances.asks (hs : Ended url s) (h : Advances svc s s') (hwaiting : s.list.waiting = [])
    (hend : s.list.tracks.pos + 1 = s.list.tracks.list.length) :
    ∃ urls, Asked (url :: urls) s.resolver s'.resolver := by
  cases h with
  | queued hne => exact absurd hwaiting hne
  | context _ _ _ _ hnext =>
    obtain ⟨answer, hpage⟩ := next_of_eq hend hnext
    exact page_past hs.names hs.loaded.ge hpage

theorem nextTracks_loop (h : s.nextTracks svc none = some (tracks, s')) :
    ∃ rest l, restLoop svc s.list.typ s.list.nextLeft { pos := s.list.tracks.pos } s.list.tracks
        s.resolver = some (rest, l, s'.resolver) ∧ s'.list.tracks = l := by
  simp only [nextTracks, bind_eq_bind, bind_eq_some_iff, Prod.exists,
    Option.some.injEq, Prod.mk.injEq] at h
  obtain ⟨queued, hqueued, i, hi, rest, l, r, hloop, -, rfl⟩ := h
  obtain ⟨-, rfl⟩ := here_eq_some hi
  have hleft : maxTracksInContext - queued.length = s.list.nextLeft := by
    rw [length_of_mapM hqueued, List.length_take]
    unfold nextLeft
    omega
  rw [hleft] at hloop
  exact ⟨rest, l, hloop, rfl⟩

theorem nextTracks_rests {nextHint : Option (List ContextTrack)} (hs : Ended url s)
    (hstays : ¬ ReadOp.asks s (.snapshot svc nextHint))
    (h : s.nextTracks svc nextHint = some (tracks, s')) : Rests s s' := by
  cases nextHint with
  | some hint =>
    simp only [nextTracks, TrackList.nextTracks, bind_eq_bind, map_eq_some_iff,
      bind_eq_some_iff, Option.some.injEq, Prod.mk.injEq, Prod.exists] at h
    obtain ⟨shown, list, ⟨_, -, _, -, -, rfl⟩, -, rfl⟩ := h
    exact ⟨rfl, rfl, hs.valid⟩
  | none =>
    obtain ⟨rest, l, hloop, htracks⟩ := nextTracks_loop h
    have hlt : s.list.tracks.pos + s.list.nextLeft < s.list.tracks.list.length := by
      by_contra hle
      exact hstays ⟨rfl, by omega⟩
    obtain ⟨rfl, hresolver⟩ := restLoop_within hlt hloop
    exact ⟨hresolver, by rw [htracks], htracks ▸ hs.valid⟩

theorem nextTracks_asks (hs : Ended url s)
    (hend : s.list.tracks.list.length ≤ s.list.tracks.pos + s.list.nextLeft)
    (h : s.nextTracks svc none = some (tracks, s')) :
    ∃ urls, Asked (url :: urls) s.resolver s'.resolver := by
  obtain ⟨rest, l, hloop, -⟩ := nextTracks_loop h
  have hlt := hs.valid.lt
  exact restLoop_past hs.names hs.loaded (by simp only; omega) hend hloop

theorem goPrev_list {tl tl' : TrackList} (h : tl.goPrev = some (moved, tl')) :
    tl'.tracks.list = tl.tracks.list := by
  simp only [goPrev, bind_eq_bind, bind_eq_some_iff, Prod.exists] at h
  obtain ⟨i, -, more, i', -, h⟩ := h
  cases more with
  | true | false => exact (Prod.mk.inj (Option.some.inj h)).2 ▸ rfl

theorem step_rests (hs : Ended url s) (hstays : ¬ op.asks s) (h : s.step op = some s') :
    Rests s s' := by
  cases op with
  | page =>
    simp only [step, map_eq_some_iff, Prod.exists] at h
    obtain ⟨answer, r, hpage, rfl⟩ := h
    exact ⟨page_within hs.names (by simpa [ReadOp.asks] using hstays) hpage, rfl,
      hs.valid⟩
  | goNext =>
    obtain ⟨moved, hgo⟩ := map_snd_eq_some.mp h
    exact (goNext_advances hgo).rests hs hstays
  | goPrev =>
    simp only [step, map_eq_some_iff, Prod.exists] at h
    obtain ⟨moved, list, hprev, rfl⟩ := h
    exact ⟨rfl, goPrev_list hprev, (goPrev_moved hs.valid hprev).valid⟩
  | peekNext =>
    obtain ⟨track, hpeek⟩ := map_snd_eq_some.mp h
    exact (peekNext_advances hpeek).rests hs hstays
  | snapshot =>
    simp only [step, snapshot, bind_eq_bind, map_eq_some_iff,
      bind_eq_some_iff, Prod.exists, Option.some.injEq, Prod.mk.injEq] at h
    obtain ⟨snap, _, ⟨current, -, prev, -, next, q, hnext, index, -, -, rfl⟩, rfl⟩ := h
    exact nextTracks_rests hs hstays hnext

theorem step_asks (hs : Ended url s) (hasks : op.asks s) (h : s.step op = some s') :
    ∃ urls, Asked (url :: urls) s.resolver s'.resolver := by
  cases op with
  | page =>
    simp only [step, map_eq_some_iff, Prod.exists] at h
    obtain ⟨answer, r, hpage, rfl⟩ := h
    exact page_past hs.names hasks hpage
  | goNext =>
    obtain ⟨moved, hgo⟩ := map_snd_eq_some.mp h
    exact (goNext_advances hgo).asks hs hasks.1 hasks.2
  | goPrev => exact hasks.elim
  | peekNext =>
    obtain ⟨track, hpeek⟩ := map_snd_eq_some.mp h
    exact (peekNext_advances hpeek).asks hs hasks.1 hasks.2
  | snapshot =>
    obtain ⟨rfl, hend⟩ := hasks
    simp only [step, snapshot, bind_eq_bind, map_eq_some_iff,
      bind_eq_some_iff, Prod.exists, Option.some.injEq, Prod.mk.injEq] at h
    obtain ⟨snap, _, ⟨current, -, prev, -, next, q, hnext, index, -, -, rfl⟩, rfl⟩ := h
    exact nextTracks_asks hs hend hnext

/-! ## After a page that is not there -/

def Spares (url : String) (s : Reader) (op : ReadOp) : Prop :=
  ∀ s' urls, s.step op = some s' → Asked urls s.resolver s'.resolver → url ∉ urls

theorem spares_iff (hs : Ended url s) (h : s.step op = some s') :
    Spares url s op ↔ ¬ op.asks s := by
  constructor
  · intro hspares hasks
    obtain ⟨urls, hurls⟩ := step_asks hs hasks h
    exact hspares s' _ h hurls List.mem_cons_self
  · intro hstays t urls ht hurls
    have hrests := step_rests hs hstays ht
    rw [Asked, hrests.resolver, List.self_eq_append_right] at hurls
    simp [hurls]

/-- The next page answers 404. The end of the list is reported, and the calls that follow spare
the url exactly if none of them runs past the last page, or past the last loaded track. -/
theorem gone_page_spared_iff {svc : Service} {url : String} {s : Reader} (hs : Ended url s)
    (hgone : ContextResolver.loadPage svc url = some (.error ContextResolver.eof))
    (ops : List ReadOp) :
    ∃ err s', s.resolver.page svc s.resolver.pages.length = some (.error err, s'.resolver) ∧
      err.isEOF = true ∧ Asked [url] s.resolver s'.resolver ∧
      s.step (.page svc s.resolver.pages.length) = some s' ∧
      (Meets step (Spares url) s' ops ↔ Meets step (fun s op => ¬ op.asks s) s' ops) := by
  have hpage := page_gone hs.names hgone
  refine ⟨_, { s with resolver := { s.resolver with requests := s.resolver.requests ++ [url] } },
    hpage, rfl, rfl, by simp [step, hpage], ?_⟩
  refine meets_iff_meets (I := Ended url) (fun s op s' hs h => spares_iff hs h)
    (fun s op s' hs hstays h => hs.rests (step_rests hs hstays h)) ?_
  exact ⟨⟨hs.names.last, hs.names.url, hs.names.filled⟩, hs.loaded, hs.valid⟩

def noPage : Service where
  playlist _ _ := .error { text := "invalid status code" }
  page _ := .error ContextResolver.eof

def goneUrl : String := "hm://radio/next"

def radio : Reader where
  resolver := { pages := [{ tracks := [{ uri := "spotify:track:a" }], nextPageUrl := goneUrl }] }
  list := {
    typ := "track"
    tracks := ⟨[⟨{ uri := "spotify:track:a" }, 0, 0⟩], 0⟩ }

/-- The list has ended, and each look at what comes next asks for the same page again. -/
theorem gone_page_asked_again : ∃ s s', radio.step (.goNext noPage) = some s ∧
    s.resolver.requests = [goneUrl] ∧ ¬ Spares goneUrl s (.goNext noPage) ∧
    exec step s [.goNext noPage, .peekNext noPage, .snapshot noPage none] = some s' ∧
    s'.resolver.requests = [goneUrl, goneUrl, goneUrl, goneUrl] := by
  have hrun : ((radio.step (.goNext noPage)).bind fun s => (s.step (.goNext noPage)).bind fun t =>
      (exec step s [.goNext noPage, .peekNext noPage, .snapshot noPage none]).map fun s' =>
        (s.resolver.requests, t.resolver.requests, s'.resolver.requests)) =
      some ([goneUrl], [goneUrl, goneUrl], [goneUrl, goneUrl, goneUrl, goneUrl]) := by
    decide +kernel
  simp only [bind_eq_some_iff, map_eq_some_iff, Prod.mk.injEq] at hrun
  obtain ⟨s, hs, t, ht, s', hs', hfirst, hsecond, hall⟩ := hrun
  refine ⟨s, s', hs, hfirst, fun hspares => ?_, hs', hall⟩
  exact hspares t [goneUrl] ht (by rw [Asked, hfirst, hsecond]; rfl) List.mem_cons_self

theorem radio_ended : Ended goneUrl radio where
  names := ⟨⟨_, rfl, rfl⟩, by decide, by simp [radio]⟩
  loaded := by decide
  valid := ⟨by decide, by decide⟩

theorem gone_page_spared_radio : ∃ s',
    radio.step (.page noPage radio.resolver.pages.length) = some s' ∧
      Meets step (Spares goneUrl) s' [.goPrev, .page noPage 0] := by
  have hgone : loadPage noPage goneUrl = some (.error eof) := by
    decide +kernel
  obtain ⟨err, s', hpage, -, -, hs', hiff⟩ :=
    gone_page_spared_iff radio_ended hgone [.goPrev, .page noPage 0]
  refine ⟨s', hs', hiff.mpr ?_⟩
  have hpages : s'.resolver.pages.length = 1 := by
    rw [page_gone radio_ended.names hgone] at hpage
    rw [← (Prod.mk.inj (Option.some.inj hpage)).2]
    rfl
  intro t ht
  refine ⟨id, fun t' _ => ⟨?_, trivial⟩⟩
  simp only [step, map_eq_some_iff] at ht
  obtain ⟨_, -, rfl⟩ := ht
  simp [ReadOp.asks, hpages]

end Reader

end Librespot.Playlists
