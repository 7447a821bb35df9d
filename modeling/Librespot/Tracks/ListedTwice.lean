import Librespot.Tracks.Landing

/-!
# A song that is listed twice

An entry of a context has a uid of its own, while its song may be listed more than once. A jump
recognises an entry by the uid or by the song, and stops at the first one.
-/

open Base.Exchange Base.Run List Option

namespace Librespot.Tracks

/-! ## Where a walk stops -/

theorem Fetched.connected {α : Type} {page : Pages α} {l m m' : PagedList α}
    (h : Fetched page l m) (h' : Fetched page l m') : Fetched page m m' ∨ Fetched page m' m := by
  induction h with
  | refl => exact .inl h'
  | next hf hrest ih =>
    cases h' with
    | refl => exact .inr (.next hf hrest)
    | next hf' hrest' =>
      obtain rfl := (Prod.mk.inj (hf.symm.trans hf')).2
      exact ih hrest'

theorem Fetched.agree {α : Type} {page : Pages α} {l m m' : PagedList α} (h : Fetched page l m)
    (h' : Fetched page l m') {i : Nat} {x y : PagedListItem α} (hx : m.list[i]? = some x)
    (hy : m'.list[i]? = some y) : x = y := by
  have hi := (List.getElem?_eq_some_iff.mp hx).1
  have hi' := (List.getElem?_eq_some_iff.mp hy).1
  rcases Fetched.connected h h' with hmm | hmm
  · exact some.inj (hx.symm.trans ((hmm.getElem? hi).symm.trans hy))
  · exact some.inj (hx.symm.trans ((hmm.getElem? hi').trans hy))

structure Stops {α β : Type} (body : Int → PagedListItem α → Option (Option β))
    (list : List (PagedListItem α)) (p : Nat) (x : PagedListItem α) : Prop where
  here : list[p]? = some x
  stop : body p x ≠ some none
  passed : ∀ i < p, ∀ y, list[i]? = some y → body i y = some none

section

variable {α β : Type} {page : Pages α} {body : Int → PagedListItem α → Option (Option β)}
  {l m m' : PagedList α} {p q : Nat} {x y : PagedListItem α}

theorem Stops.le (h : Stops body m.list p x) (h' : Stops body m'.list q y)
    (hm : Fetched page l m) (hm' : Fetched page l m') : p ≤ q := by
  by_contra hlt
  have hq : q < m.list.length := by
    have hp := (List.getElem?_eq_some_iff.mp h.here).1
    omega
  have hy := getElem?_eq_getElem hq
  obtain rfl := Fetched.agree hm' hm h'.here hy
  exact h'.stop (h.passed q (by omega) _ hy)

theorem Stops.unique (h : Stops body m.list p x) (h' : Stops body m'.list q y)
    (hm : Fetched page l m) (hm' : Fetched page l m') : p = q ∧ x = y := by
  obtain rfl := Nat.le_antisymm (h.le h' hm hm') (h'.le h hm' hm)
  exact ⟨rfl, Fetched.agree hm hm' h.here h'.here⟩

end

namespace TrackList

variable {tl tl' : TrackList} {page : Pages ContextTrack} {target : ContextTrack}
  {f : Int → ContextTrack → Option Bool}

variable {l m : PagedList ContextTrack} {typ : SpotifyIdType} {uid : String} {p : Nat}
  {x : PagedListItem ContextTrack}

theorem walk_of_stops {q : Nat} (hnext : 0 ≤ l.nextPageIdx)
    (hm : Fetched page l m) (h : Stops (seekBody f) m.list q x) :
    (seekBody f q x = none ∧ walk page (seekBody f) (walkFuel page l) Iter.start l = none) ∨
    ∃ stop iter l', seekBody f q x = some (some stop) ∧
      walk page (seekBody f) (walkFuel page l) Iter.start l = some (.left stop, iter, l') ∧
      iter.pos = q ∧ l'.list[q]? = some x := by
  have hpos : -1 ≤ Iter.start.pos := le_refl _
  have hle : Iter.start.pos + 1 ≤ (l.list.length : Int) := by simp [Iter.start]
  rcases hw : walk page (seekBody f) (walkFuel page l) Iter.start l with _ | ⟨stop, iter, l'⟩
  · left
    obtain ⟨l', p, y, hl, hp, hy, hbody, hpass⟩ := walk_none hpos hle hw
    simp only [Iter.start] at hp hpass
    obtain ⟨p, rfl⟩ : ∃ n : Nat, p = n := ⟨p.toNat, by omega⟩
    rw [Int.toNat_natCast] at hy
    have hstops : Stops (seekBody f) l'.list p y :=
      ⟨hy, by rw [hbody]; simp, fun i hi z hz => hpass i z (by omega) (by omega) hz⟩
    obtain ⟨rfl, rfl⟩ := hstops.unique h hl hm
    exact ⟨hbody, rfl⟩
  · right
    have hl := walk_fetched hpos hle hw
    rcases stop with stop | _ | _
    · obtain ⟨hp, ⟨y, hy, hbody⟩, hpass⟩ := walk_left hpos hle hw
      simp only [Iter.start] at hp hpass
      obtain ⟨p, hiter⟩ : ∃ p : Nat, iter.pos = p := ⟨iter.pos.toNat, by omega⟩
      rw [hiter, Int.toNat_natCast] at hy
      rw [hiter] at hbody hpass
      have hstops : Stops (seekBody f) l'.list p y :=
        ⟨hy, by rw [hbody]; simp, fun i hi z hz => hpass i z (by omega) (by omega) hz⟩
      obtain ⟨rfl, rfl⟩ := hstops.unique h hl hm
      exact ⟨stop, iter, l', hbody, rfl, hiter, hy⟩
    · exfalso
      obtain ⟨hpass, err, hfetch⟩ := walk_ended hpos hle hw
      have hpassed : l'.list[q]? ≠ some x := fun hx =>
        h.stop (hpass q x (by simp only [Iter.start]; omega) hx)
      have hq := (List.getElem?_eq_some_iff.mp h.here).1
      rcases Fetched.connected hm hl with hml | hlm
      · exact hpassed ((hml.getElem? hq).trans h.here)
      · cases hlm with
        | refl => exact hpassed h.here
        | next hf =>
          rw [hf] at hfetch
          simp at hfetch
    · exact absurd rfl (walk_ends (fun i y hy => (seekBody_next.mp hy).2) hnext hw)

theorem seek_of_stops {q : Nat} (hnext : 0 ≤ tl.tracks.nextPageIdx) (hm : Fetched page tl.tracks m)
    (h : Stops (seekBody f) m.list q x) (hf : f q x.item ≠ some false) :
    (f q x.item = none ∧ tl.seek page f = none) ∨
    ∃ l : PagedList ContextTrack, f q x.item = some true ∧ l.list[q]? = some x ∧
      tl.seek page f = some (none, { tl with tracks := ⟨l.list, q⟩ }) := by
  rcases hres : f q x.item with _ | _ | _
  · have hnone : seekBody f q x = none := by simp [seekBody, hres]
    rcases walk_of_stops hnext hm h with ⟨-, hw⟩ | ⟨stop, iter, l, hbody, -⟩
    · exact .inl ⟨rfl, by simp [seek, hw]⟩
    · simp [hnone] at hbody
  · exact absurd hres hf
  · have hfound := seekBody_found.mpr hres
    rcases walk_of_stops hnext hm h with ⟨hbody, -⟩ | ⟨stop, iter, l, hbody, hw, hiter, hx⟩
    · simp [hfound] at hbody
    · obtain rfl := some.inj (some.inj (hfound.symm.trans hbody))
      exact .inr ⟨l, rfl, hx, by simp [seek, hw, hiter]⟩

def Paged (list : List (PagedListItem ContextTrack)) : Prop := ∀ x ∈ list, -1 ≤ x.pageIdx

theorem Paged.nextPageIdx_nonneg (h : Paged l.list) : 0 ≤ l.nextPageIdx := by
  unfold PagedList.nextPageIdx
  split
  · exact le_refl _
  · rename_i x hx
    have hge := h x (mem_of_getLast? hx)
    omega

theorem Paged.fetched (h : Paged l.list) (hm : Fetched page l m) : Paged m.list := by
  induction hm with
  | refl => exact h
  | @next l _ _ hf _ ih =>
    have hnext := h.nextPageIdx_nonneg
    obtain ⟨items, -, -, rfl⟩ := fetchNextPage_ok_iff.mp hf
    refine ih fun x hx => ?_
    rcases mem_append.mp hx with hx | hx
    · exact h x hx
    · obtain ⟨j, -, hpage, -⟩ := mem_pageItems.mp hx
      omega

theorem Paged.exchanges (h : Paged l.list) (es : List (Nat × Nat)) :
    Paged (l.exchanges es).list := fun x hx => h x ((perm_exchanges l es).mem_iff.mp hx)

theorem paged_nil : Paged [] := by simp [Paged]

theorem step_paged {g : Rand} {op : Op} (hv : tl.tracks.Valid) (h : Paged tl.tracks.list)
    (hs : step g tl op = some tl') : Paged tl'.tracks.list := by
  by_cases hop : op.isToggle = false
  · obtain ⟨-, -, m, hm, hlist⟩ := step_moved hop hv hs
    have hpaged : Paged m.list := by
      rcases hm with hreads | ⟨-, hfetched⟩
      · exact h.fetched hreads.fetched
      · exact paged_nil.fetched hfetched
    rcases hlist with hlist | ⟨item, hlist⟩
    · rw [hlist]
      exact hpaged
    · rw [hlist]
      exact forall_mem_cons.mpr ⟨le_refl _, hpaged⟩
  · cases op with
    | toggleShuffle =>
      obtain ⟨err, ht⟩ := map_snd_eq_some.mp hs
      rcases toggleShuffle_cases hv ht with ⟨-, -, rfl⟩ | ⟨-, -, -, m, hm, rfl⟩ |
        ⟨-, -, -, -, -, rfl⟩ | ⟨-, -, -, ⟨-, rfl⟩ | ⟨-, hre⟩⟩
      · exact h
      · exact (h.fetched (fetchAll_reads hm).fetched).exchanges _
      · exact h.exchanges _
      · exact h
      · obtain ⟨track, isCurrent, m, p, -, -, hf, -, rfl⟩ := hre.hit
        have hpaged : Paged m.list := paged_nil.fetched hf
        exact hpaged
    | _ => exact absurd rfl hop

theorem reachable_paged {g : Rand} {ops : List Op} {tl : TrackList}
    (hrun : exec (step g) (newTrackList typ) ops = some tl) : Paged tl.tracks.list :=
  (exec_invariant (I := fun tl => tl.tracks.Valid ∧ Paged tl.tracks.list)
    (fun _ _ _ hI hs => ⟨step_valid hI.1 hs, step_paged hI.1 hI.2 hs⟩) ⟨valid_new, paged_nil⟩
    hrun).2

/-! ## The first entry with a uid -/

def SameSong (typ : SpotifyIdType) (uri : String) (track : ContextTrack) : Prop :=
  track.uri ≠ "" ∧ track.uri = uri ∨ track.gid ≠ [] ∧ gidUri typ track.gid = some uri

theorem isSame_eq_true {uri : String} {track : ContextTrack} :
    isSame typ target uri track = some true ↔
      track.uid ≠ "" ∧ track.uid = target.uid ∨ SameSong typ uri track := by
  unfold isSame SameSong
  split
  · rename_i huid
    exact iff_of_true rfl (.inl huid)
  · rename_i huid
    split
    · rename_i huri
      exact iff_of_true rfl (.inr (.inl huri))
    · rename_i huri
      split
      · rename_i hgid
        simp [huid, huri, hgid]
      · rename_i hgid
        simp [huid, huri, not_not.mp hgid]

structure FirstWithUid (uid : String) (list : List (PagedListItem ContextTrack)) (p : Nat) :
    Prop where
  here : ∃ x, list[p]? = some x ∧ x.item.uid = uid
  before : ∀ i < p, ∀ y, list[i]? = some y → y.item.uid ≠ uid ∧ y.pageIdx < seekMaxPages

theorem FirstWithUid.stops {list : List (PagedListItem ContextTrack)}
    (h : FirstWithUid uid list p) (haccepts : ∀ i track, track.uid = uid → f i track = some true) :
    ∃ q x, Stops (seekBody f) list q x ∧ f q x.item ≠ some false ∧ q ≤ p := by
  classical
  have hex : ∃ q : Nat, ∃ x, list[q]? = some x ∧ f q x.item ≠ some false := by
    obtain ⟨x, hx, huid⟩ := h.here
    exact ⟨p, x, hx, by simp [haccepts p x.item huid]⟩
  obtain ⟨x, hx, hf⟩ := Nat.find_spec hex
  have hle : Nat.find hex ≤ p := by
    obtain ⟨y, hy, huid⟩ := h.here
    exact Nat.find_min' hex ⟨y, hy, by simp [haccepts p y.item huid]⟩
  refine ⟨Nat.find hex, x, ⟨hx, fun hbody => hf (seekBody_next.mp hbody).1, ?_⟩, hf, hle⟩
  intro i hi y hy
  have hpass : f i y.item = some false := by
    by_contra hne
    exact Nat.find_min hex hi ⟨y, hy, hne⟩
  exact seekBody_next.mpr ⟨hpass, (h.before i (hi.trans_le hle) y hy).2⟩

theorem seek_uid_iff (hnext : 0 ≤ tl.tracks.nextPageIdx) (hm : Fetched page tl.tracks m)
    (hfirst : FirstWithUid uid m.list p)
    (haccepts : ∀ i track, track.uid = uid → f i track = some true) :
    (∃ tl' x, tl.seek page f = some (none, tl') ∧ tl'.tracks.entry = some x ∧ x.item.uid = uid) ↔
      ∀ i < p, ∀ y, m.list[i]? = some y → f i y.item = some false := by
  obtain ⟨q, x, hstops, hf, hle⟩ := hfirst.stops haccepts
  rcases hle.eq_or_lt with rfl | hlt
  · refine iff_of_true ?_ fun i hi y hy => (seekBody_next.mp (hstops.passed i hi y hy)).1
    obtain ⟨y, hy, huid⟩ := hfirst.here
    obtain rfl := some.inj (hstops.here.symm.trans hy)
    rcases seek_of_stops hnext hm hstops hf with ⟨hnone, -⟩ | ⟨l, -, hx, hseek⟩
    · simp [haccepts q x.item huid] at hnone
    · exact ⟨_, x, hseek, by simp [Marked.entry, hx], huid⟩
  · refine iff_of_false ?_ fun hall => hf (hall q hlt x hstops.here)
    rintro ⟨tl', y, hres, hy, huid⟩
    rcases seek_of_stops hnext hm hstops hf with ⟨-, hseek⟩ | ⟨l, -, hx, hseek⟩
    · simp [hseek] at hres
    · obtain ⟨-, rfl⟩ := Prod.mk.inj (some.inj (hseek.symm.trans hres))
      obtain rfl : x = y := by simpa [Marked.entry, hx] using hy
      exact (hfirst.before q hlt x hstops.here).1 huid

theorem seek_uid_ok {err : Option Err} (hnext : 0 ≤ tl.tracks.nextPageIdx)
    (hm : Fetched page tl.tracks m) (hfirst : FirstWithUid uid m.list p)
    (haccepts : ∀ i track, track.uid = uid → f i track = some true)
    (h : tl.seek page f = some (err, tl')) : err = none := by
  obtain ⟨q, x, hstops, hf, -⟩ := hfirst.stops haccepts
  rcases seek_of_stops hnext hm hstops hf with ⟨-, hseek⟩ | ⟨l, -, -, hseek⟩
  · simp [hseek] at h
  · exact (Prod.mk.inj (some.inj (h.symm.trans hseek))).1

/-! ## Jumping to it -/

theorem trySeekTo_eq (hqueue : tl.playingQueue = true → tl.queue ≠ []) (huid : target.uid ≠ "")
    (hfree : ∀ track ∈ tl.queue, track.uid ≠ target.uid) :
    tl.trySeekTo page target = (contextTrackComparator tl.typ target).bind fun isTarget =>
      (tl.leaveQueue.seek page fun _ => isTarget).bind fun
        | (none, tl) => some (none, tl)
        | (some _, tl) => some (none, { tl with tracks := tl.tracks.moveInjected target }) := by
  have hpassed : ∀ n, dropUntil (fun queued => some (decide (queued.uid = target.uid)))
      (tl.queue.drop n) = some none := fun n =>
    dropUntil_passed fun track htrack => by simp [hfree track (mem_of_mem_drop htrack)]
  have hnil : ¬ (tl.playingQueue = true ∧ tl.queue = []) := fun h => hqueue h.1 h.2
  unfold trySeekTo seekQueue
  simp only [huid, if_false, bind_eq_bind, bind_some, hpassed, hnil, leaveQueue_eq]
  rfl

/-- No entry before `p` is taken for the target, and comparing with them does not panic. -/
def Singled (typ : SpotifyIdType) (target : ContextTrack)
    (list : List (PagedListItem ContextTrack)) (p : Nat) : Prop :=
  ∃ uri, targetUri typ target = some uri ∧
    ∀ i < p, ∀ y, list[i]? = some y → ¬ SameSong typ uri y.item ∧ GidOk y.item

theorem isSame_eq_false {uri : String} {track : ContextTrack} (huid : track.uid ≠ target.uid) :
    isSame typ target uri track = some false ↔ ¬ SameSong typ uri track ∧ GidOk track := by
  constructor
  · intro h
    refine ⟨fun hsame => ?_, ?_⟩
    · rw [isSame_eq_true.mpr (.inr hsame)] at h
      simp at h
    · by_contra hgid
      obtain ⟨hne, hlen⟩ := not_or.mp hgid
      have hnone : gidUri typ track.gid = none := by simp [gidUri, spotifyIdFromGid, hlen]
      unfold isSame at h
      split at h
      · simp at h
      · split at h
        · simp at h
        · rw [hnone] at h
          simp at h
  · rintro ⟨hsame, hgid⟩
    rcases hres : isSame typ target uri track with _ | _ | _
    · exact absurd hres (isSame_total typ target uri hgid)
    · rfl
    · rcases isSame_eq_true.mp hres with hown | hown
      · exact absurd hown.2 huid
      · exact absurd hown hsame

theorem trySeekTo_uid_iff (hqueue : tl.playingQueue = true → tl.queue ≠ [])
    (hpaged : Paged tl.tracks.list) (huid : target.uid ≠ "")
    (hfree : ∀ track ∈ tl.queue, track.uid ≠ target.uid) (hm : Fetched page tl.tracks m)
    (hfirst : FirstWithUid target.uid m.list p) :
    (∃ tl' track, tl.trySeekTo page target = some (none, tl') ∧ tl'.current = some track ∧
      track.uid = target.uid) ↔ Singled tl.typ target m.list p := by
  rw [trySeekTo_eq hqueue huid hfree, comparator_eq]
  unfold Singled
  rcases targetUri tl.typ target with _ | uri
  · simp
  have haccepts : ∀ (i : Int) (track : ContextTrack), track.uid = target.uid →
      isSame tl.typ target uri track = some true := fun _ track h =>
    isSame_eq_true.mpr (.inl ⟨h ▸ huid, h⟩)
  have hnext : 0 ≤ tl.leaveQueue.tracks.nextPageIdx := hpaged.nextPageIdx_nonneg
  have hbefore : (∀ i < p, ∀ y, m.list[i]? = some y → isSame tl.typ target uri y.item = some false) ↔
      ∀ i < p, ∀ y, m.list[i]? = some y → ¬ SameSong tl.typ uri y.item ∧ GidOk y.item :=
    forall₄_congr fun i hi y hy => isSame_eq_false (hfirst.before i hi y hy).1
  rw [← seek_uid_iff hnext hm hfirst haccepts] at hbefore
  simp only [map_some, bind_some, some.injEq, exists_eq_left', ← hbefore]
  constructor
  · rintro ⟨tl', track, hres, hcurrent, htrack⟩
    obtain ⟨⟨err, mid⟩, hseek, hres⟩ := bind_eq_some_iff.mp hres
    obtain rfl := seek_uid_ok hnext hm hfirst haccepts hseek
    obtain rfl : mid = tl' := (Prod.mk.inj (some.inj hres)).2
    have hplaying : mid.playingQueue = false := (seek_sameQueue hseek).2
    simp only [current, hplaying, Bool.false_eq_true, if_false, run_eq_some, some.injEq] at hcurrent
    obtain ⟨x, hx, rfl⟩ := hcurrent
    exact ⟨mid, x, hseek, hx, htrack⟩
  · rintro ⟨mid, x, hseek, hx, hu⟩
    have hplaying : mid.playingQueue = false := (seek_sameQueue hseek).2
    exact ⟨mid, x.item, by rw [hseek]; rfl, current_context hplaying hx, hu⟩

end TrackList

end Librespot.Tracks
