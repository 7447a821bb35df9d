import Librespot.Tracks.RoundTrip
import Mathlib.Data.List.Nodup

/-!
# Which pages the loaded list holds

A resolver is stable when it never answers a page with other items than before. The next page to
ask for is read off the last loaded item, and a shuffle can leave any item there.
-/

open Base.Exchange Base.Run List Option

namespace Librespot.Tracks

open PagedList

variable {α : Type}

def entries (list : List (PagedListItem α)) : List (Int × Int) :=
  (list.filter fun x => 0 ≤ x.pageIdx).map fun x => (x.pageIdx, x.itemIdx)

def pageEntries (P : Int → List α) (k : Nat) : List (Int × Int) :=
  (List.range k).flatMap fun (i : Nat) =>
    (List.range (P i).length).map fun (j : Nat) => ((i : Int), (j : Int))

/-- Every answer is the page of `P`, and not empty. A page can still fail. -/
def Stable (P : Int → List α) (page : Pages α) : Prop :=
  ∀ i items, page i = .ok items → items = P i ∧ items ≠ []

def LoadedOnce (P : Int → List α) (list : List (PagedListItem α)) : Prop :=
  (entries list).Nodup ∧ ∃ k : Nat, ∀ i j : Int,
    (i, j) ∈ entries list ↔ 0 ≤ i ∧ i < k ∧ 0 ≤ j ∧ j < (P i).length

theorem entries_append (xs ys : List (PagedListItem α)) :
    entries (xs ++ ys) = entries xs ++ entries ys := by
  simp [entries]

theorem entries_injected (item : α) (xs : List (PagedListItem α)) :
    entries (⟨item, -1, -1⟩ :: xs) = entries xs := by
  simp [entries]

theorem entries_perm {xs ys : List (PagedListItem α)} (h : xs.Perm ys) :
    (entries xs).Perm (entries ys) := (h.filter _).map _

variable {i : Int} {k : Nat} {P : Int → List α} {list : List (PagedListItem α)} {page : Pages α}
  {l l' : PagedList α}

theorem mem_entries {j : Int} :
    (i, j) ∈ entries list ↔ 0 ≤ i ∧ ∃ x ∈ list, x.pageIdx = i ∧ x.itemIdx = j := by
  simp only [entries, List.mem_map, mem_filter, decide_eq_true_eq, Prod.mk.injEq]
  constructor
  · rintro ⟨x, ⟨hx, h0⟩, rfl, rfl⟩
    exact ⟨h0, x, hx, rfl, rfl⟩
  · rintro ⟨h0, x, hx, rfl, rfl⟩
    exact ⟨x, ⟨hx, h0⟩, rfl, rfl⟩

theorem entries_pageItems {p : Int} (hp : 0 ≤ p) (items : List α) :
    entries (PagedList.pageItems p items) =
      (List.range items.length).map fun (j : Nat) => (p, (j : Int)) := by
  have hall : (pageItems p items).filter (fun x => decide (0 ≤ x.pageIdx)) =
      pageItems p items := by
    apply filter_eq_self.mpr
    intro x hx
    obtain ⟨j, -, hxp, -⟩ := mem_pageItems.mp hx
    simp [hxp, hp]
  unfold entries
  rw [hall]
  unfold pageItems
  rw [List.map_map, range_eq_range', ← zipIdx_map_snd 0 items, List.map_map]
  rfl

theorem mem_pageEntries {j : Int} :
    (i, j) ∈ pageEntries P k ↔ 0 ≤ i ∧ i < k ∧ 0 ≤ j ∧ j < (P i).length := by
  simp only [pageEntries, mem_flatMap, mem_range, List.mem_map, Prod.mk.injEq]
  constructor
  · rintro ⟨i', hi', j', hj', rfl, rfl⟩
    omega
  · rintro ⟨h1, h2, h3, h4⟩
    have hi : ((i.toNat : Nat) : Int) = i := by omega
    exact ⟨i.toNat, by omega, j.toNat, by rw [hi]; omega, hi, by omega⟩

theorem nodup_pageEntries (P : Int → List α) (k : Nat) : (pageEntries P k).Nodup := by
  unfold pageEntries
  rw [nodup_flatMap]
  constructor
  · intro i _
    refine nodup_range.map ?_
    intro a b hab
    simp only [Prod.mk.injEq] at hab
    omega
  · refine nodup_range.imp ?_
    intro a b hab x hx hy
    obtain ⟨j, hj, hxa⟩ := List.mem_map.mp hx
    obtain ⟨j', hj', hxb⟩ := List.mem_map.mp hy
    rw [← hxb, Prod.mk.injEq] at hxa
    omega

theorem pageEntries_succ (P : Int → List α) (k : Nat) :
    pageEntries P (k + 1) =
      pageEntries P k ++ (List.range (P k).length).map fun (j : Nat) => ((k : Int), (j : Int)) := by
  simp [pageEntries, range_succ]

/-! ## The invariant of the list -/

structure Holds (P : Int → List α) (k : Nat) (list : List (PagedListItem α)) : Prop where
  perm : (entries list).Perm (pageEntries P k)
  ge : ∀ x ∈ list, -1 ≤ x.pageIdx
  ne : ∀ i : Nat, i < k → P i ≠ []

theorem Holds.loadedOnce (h : Holds P k list) : LoadedOnce P list := by
  refine ⟨h.perm.nodup_iff.mpr (nodup_pageEntries P k), k, ?_⟩
  intro i j
  rw [h.perm.mem_iff, mem_pageEntries]

theorem holds_nil (P : Int → List α) : Holds P 0 [] :=
  ⟨List.Perm.refl _, by simp, by omega⟩

theorem Holds.of_perm {xs ys : List (PagedListItem α)} (h : Holds P k xs)
    (hp : ys.Perm xs) : Holds P k ys :=
  ⟨(entries_perm hp).trans h.perm, fun x hx => h.ge x (hp.mem_iff.mp hx), h.ne⟩

theorem Holds.injected {xs : List (PagedListItem α)} (h : Holds P k xs)
    (item : α) : Holds P k (⟨item, -1, -1⟩ :: xs) := by
  refine ⟨by rw [entries_injected]; exact h.perm, ?_, h.ne⟩
  intro x hx
  rcases mem_cons.mp hx with rfl | hx
  · exact le_refl _
  · exact h.ge x hx

theorem Holds.lt (h : Holds P k list) {x : PagedListItem α} (hx : x ∈ list) : x.pageIdx < k := by
  rcases lt_or_ge x.pageIdx 0 with h0 | h0
  · omega
  · have hmem : (x.pageIdx, x.itemIdx) ∈ entries list := mem_entries.mpr ⟨h0, x, hx, rfl, rfl⟩
    exact (mem_pageEntries.mp (h.perm.mem_iff.mp hmem)).2.1

theorem Holds.mem_first (h : Holds P k list) (h0 : 0 ≤ i) (hi : i < k) : (i, 0) ∈ entries list := by
  rw [h.perm.mem_iff, mem_pageEntries]
  have hne := h.ne i.toNat (by omega)
  rw [show ((i.toNat : Nat) : Int) = i by omega] at hne
  have := length_pos_of_ne_nil hne
  omega

def AtEnd (l : PagedList α) : Prop := ∀ x ∈ l.list, x.pageIdx < l.nextPageIdx

theorem Holds.nextPageIdx_nonneg (h : Holds P k l.list) : 0 ≤ l.nextPageIdx := by
  unfold nextPageIdx
  split
  · exact le_refl _
  · rename_i x hx
    have := h.ge x (mem_of_getLast? hx)
    omega

theorem Holds.nextPageIdx_eq (h : Holds P k l.list) (he : AtEnd l) : l.nextPageIdx = k := by
  have h0 := h.nextPageIdx_nonneg
  have hle : l.nextPageIdx ≤ k := by
    unfold nextPageIdx
    split
    · omega
    · rename_i x hx
      have := h.lt (mem_of_getLast? hx)
      omega
  have hge : (k : Int) ≤ l.nextPageIdx := by
    rcases Nat.eq_zero_or_pos k with rfl | hk
    · omega
    · have hmem := h.mem_first (show 0 ≤ (k : Int) - 1 by omega) (by omega)
      obtain ⟨-, x, hx, hxi, -⟩ := mem_entries.mp hmem
      have := he x hx
      omega
  omega

theorem Holds.fetchNextPage (hs : Stable P page) (h : Holds P k l.list) (he : AtEnd l)
    (hf : l.fetchNextPage page = (none, l')) : Holds P (k + 1) l'.list ∧ AtEnd l' := by
  obtain ⟨items, hitems, hne, rfl⟩ := fetchNextPage_ok_iff.mp hf
  have hk := h.nextPageIdx_eq he
  obtain ⟨hP, -⟩ := hs _ _ hitems
  have hmem : ∀ x ∈ l.list ++ pageItems l.nextPageIdx items,
      -1 ≤ x.pageIdx ∧ x.pageIdx < (k : Int) + 1 := by
    intro x hx
    rcases mem_append.mp hx with hx | hx
    · have := h.ge x hx
      have := h.lt hx
      omega
    · obtain ⟨j, -, hxp, -⟩ := mem_pageItems.mp hx
      omega
  refine ⟨⟨?_, fun x hx => (hmem x hx).1, ?_⟩, ?_⟩
  · rw [entries_append, entries_pageItems (by omega), hk, pageEntries_succ, ← hk, ← hP]
    exact List.Perm.append_right _ h.perm
  · intro i hi
    by_cases hik : i = k
    · rw [hik, ← hk, ← hP]
      exact hne
    · exact h.ne i (by omega)
  · intro x hx
    rw [nextPageIdx_fetched l _ items hne, hk]
    exact (hmem x hx).2

theorem Holds.fetched (hs : Stable P page) (h : Holds P k l.list) (he : AtEnd l)
    (hf : Fetched page l l') : ∃ k', Holds P k' l'.list := by
  induction hf generalizing k with
  | refl => exact ⟨k, h⟩
  | next hf _ ih =>
    obtain ⟨h', he'⟩ := h.fetchNextPage hs he hf
    exact ih h' he'

theorem Holds.duplicates (h : Holds P k l.list) (he : ¬ AtEnd l)
    (hf : l.fetchNextPage page = (none, l')) : ¬ (entries l'.list).Nodup := by
  obtain ⟨items, hitems, hne, rfl⟩ := fetchNextPage_ok_iff.mp hf
  have h0 := h.nextPageIdx_nonneg
  have hlt : l.nextPageIdx < k := by
    unfold AtEnd at he
    push Not at he
    obtain ⟨x, hx, hge⟩ := he
    have := h.lt hx
    omega
  intro hnd
  rw [entries_append] at hnd
  refine (disjoint_of_nodup_append hnd) (h.mem_first h0 hlt) ?_
  rw [entries_pageItems h0, List.mem_map]
  exact ⟨0, mem_range.mpr (length_pos_of_ne_nil hne), rfl⟩

theorem Fetched.not_nodup (hf : Fetched page l l')
    (h : ¬ (entries l.list).Nodup) : ¬ (entries l'.list).Nodup := by
  obtain ⟨more, rfl⟩ := hf.exists_append
  intro hnd
  rw [entries_append] at hnd
  exact h hnd.of_append_left

def Fits (page : Pages α) (asks : Prop) (l : PagedList α) : Prop :=
  asks → (∃ items, page l.nextPageIdx = .ok items) → AtEnd l

theorem Holds.reads {asks : Prop} (hs : Stable P page) (h : Holds P k l.list)
    (hr : Reads page asks l l') (hfit : Fits page asks l) : ∃ k', Holds P k' l'.list := by
  cases hr with
  | idle | refused => exact ⟨k, h⟩
  | loaded ha hf hm =>
    obtain ⟨items, hitems, -⟩ := fetchNextPage_ok_iff.mp hf
    exact h.fetched hs (hfit ha ⟨items, hitems⟩) (.next hf hm)

theorem Holds.fits_of_nodup {asks : Prop} (hs : Stable P page) (h : Holds P k l.list)
    (hr : Reads page asks l l') (hnd : (entries l'.list).Nodup) : Fits page asks l := by
  rintro ha ⟨items, hitems⟩
  cases hr with
  | idle hna => exact absurd ha hna
  | refused _ hf =>
    have hok := fetchNextPage_ok_iff.mpr ⟨items, hitems, (hs _ _ hitems).2, rfl⟩
    rw [hf] at hok
    simp at hok
  | loaded _ hf hm =>
    by_contra hend
    exact hm.not_nodup (h.duplicates hend hf) hnd

/-! ## Runs of the track list -/

namespace TrackList

def Op.Stable (P : Int → List ContextTrack) (op : Op) : Prop :=
  Tracks.Stable P op.page ∧ Tracks.Stable P op.retry

/-- The operation does not run past the end while the last loaded item is on an earlier page than
another one, unless the page it asks for does not come. -/
def FitsEnd (tl : TrackList) (op : Op) : Prop := Fits op.page (op.asks tl) tl.tracks

structure PagesInv (P : Int → List ContextTrack) (tl : TrackList) : Prop where
  valid : tl.tracks.Valid
  holds : ∃ k, Holds P k tl.tracks.list

theorem pagesInv_new (P : Int → List ContextTrack) (typ : SpotifyIdType) :
    PagesInv P (newTrackList typ) := ⟨valid_new, 0, holds_nil P⟩

variable {P : Int → List ContextTrack} {tl tl' : TrackList}

theorem toggleShuffle_pages {g : Rand} {page : Pages ContextTrack} {draw : UInt64}
    {shuffle : Bool} {err : Option Err} (hs : Tracks.Stable P page) (hinv : PagesInv P tl)
    (h : tl.toggleShuffle g page draw shuffle = some (err, tl')) :
    (FitsEnd tl (.toggleShuffle page draw shuffle) → PagesInv P tl') ∧
    ((entries tl'.tracks.list).Nodup → FitsEnd tl (.toggleShuffle page draw shuffle)) := by
  obtain ⟨hv, k, hk⟩ := hinv
  have hv' := toggleShuffle_valid hv h
  have hfalse : ∀ {p : Prop}, shuffle = tl.shuffled ∨ shuffle = false →
      Op.asks tl (.toggleShuffle page draw shuffle) → p := by
    rintro p hor ⟨h1, h2, -⟩
    rcases hor with h3 | h3 <;> simp_all
  rcases toggleShuffle_cases hv h with ⟨hsame, -, rfl⟩ | ⟨rfl, hsh, -, m, hm, rfl⟩ |
    ⟨rfl, -, -, -, -, rfl⟩ | ⟨rfl, -, -, ⟨-, rfl⟩ | ⟨-, hre⟩⟩
  · exact ⟨fun _ => ⟨hv, k, hk⟩, fun _ ha => hfalse (.inl hsame) ha⟩
  · have hreads : Reads page (Op.asks tl (.toggleShuffle page draw true)) tl.tracks m :=
      (fetchAll_reads hm).congr ⟨fun ha => ⟨rfl, hsh, ha⟩, fun ha => ha.2.2⟩
    have hperm := perm_exchanges m (onSwaps g (draw + 1) m)
    constructor
    · intro hfit
      obtain ⟨k', hk'⟩ := hk.reads hs hreads hfit
      exact ⟨hv', k', hk'.of_perm hperm⟩
    · intro hnd
      exact hk.fits_of_nodup hs hreads ((entries_perm hperm).nodup_iff.mp hnd)
  · refine ⟨fun _ => ?_, fun _ ha => hfalse (.inr rfl) ha⟩
    exact ⟨hv', k, hk.of_perm (perm_exchanges _ _)⟩
  · exact ⟨fun _ => ⟨hv, k, hk⟩, fun _ ha => hfalse (.inr rfl) ha⟩
  · refine ⟨fun _ => ?_, fun _ ha => hfalse (.inr rfl) ha⟩
    obtain ⟨track, isCurrent, m, p, -, -, hf, -, rfl⟩ := hre.hit
    obtain ⟨k', hk'⟩ := (holds_nil P).fetched hs (l := new)
      (fun x hx => by simp [new] at hx) hf
    exact ⟨hv', k', hk'⟩

theorem moved_pages {op : Op} (hs : op.Stable P) (hinv : PagesInv P tl) (h : Moved op tl tl') :
    (FitsEnd tl op → PagesInv P tl') ∧ ((entries tl'.tracks.list).Nodup → FitsEnd tl op) := by
  obtain ⟨-, k, hk⟩ := hinv
  obtain ⟨hv', -, m, hm, hlist⟩ := h
  have hentries : entries tl'.tracks.list = entries m.list := by
    rcases hlist with hl | ⟨item, hl⟩
    · rw [hl]
    · rw [hl, entries_injected]
  have hholds : (∃ k', Holds P k' m.list) → PagesInv P tl' := by
    rintro ⟨k', hk'⟩
    refine ⟨hv', k', ?_⟩
    rcases hlist with hl | ⟨item, hl⟩
    · rw [hl]
      exact hk'
    · rw [hl]
      exact hk'.injected item
  rcases hm with hr | ⟨hnil, hf⟩
  · exact ⟨fun hfit => hholds (hk.reads hs.1 hr hfit),
      fun hnd => hk.fits_of_nodup hs.1 hr (hentries ▸ hnd)⟩
  · constructor
    · intro _
      exact hholds ((holds_nil P).fetched hs.2 (l := new)
        (fun x hx => by simp [new] at hx) hf)
    · rintro - - - x hx
      simp [hnil] at hx

theorem step_pages {g : Rand} {op : Op} (hs : op.Stable P) (hinv : PagesInv P tl)
    (h : step g tl op = some tl') :
    (FitsEnd tl op → PagesInv P tl') ∧ ((entries tl'.tracks.list).Nodup → FitsEnd tl op) := by
  by_cases hop : op.isToggle = false
  · exact moved_pages hs hinv (step_moved hop hinv.valid h)
  · cases op with
    | toggleShuffle =>
      obtain ⟨err, ht⟩ := map_snd_eq_some.mp h
      exact toggleShuffle_pages hs.1 hinv ht
    | _ => exact absurd rfl hop

/-- With a stable resolver, the runs that never hold an item twice, and hold exactly the first
pages throughout, are the runs whose steps all fit. -/
theorem loadedOnce_iff_fits (g : Rand) (P : Int → List ContextTrack) (typ : SpotifyIdType)
    (ops : List Op) (hops : ∀ op ∈ ops, op.Stable P) :
    Always (step g) (fun tl => LoadedOnce P tl.tracks.list) (newTrackList typ) ops ↔
      Meets (step g) FitsEnd (newTrackList typ) ops := by
  refine always_iff_meets (I := PagesInv P) (L := fun op => op.Stable P) ?_ ?_ ?_
    (pagesInv_new P typ) hops
  · intro tl hinv
    obtain ⟨k, hk⟩ := hinv.holds
    exact hk.loadedOnce
  · intro tl op tl' hinv hs hfit h
    exact (step_pages hs hinv h).1 hfit
  · intro tl op tl' hinv hs h hJ
    exact (step_pages hs hinv h).2 hJ.1

def twoPagesItems (i : Int) : List ContextTrack :=
  if i = 0 then [trackA] else if i = 1 then [trackB] else []

theorem stable_twoPages : Tracks.Stable twoPagesItems twoPages := by
  intro i items h
  unfold twoPages at h
  unfold twoPagesItems
  split at h
  · rename_i h0
    simp only [Except.ok.injEq] at h
    simp [h0, ← h]
  · rename_i h0
    split at h
    · rename_i h1
      simp only [Except.ok.injEq] at h
      simp [h1, ← h]
    · simp at h

theorem stable_noPages (P : Int → List ContextTrack) : Tracks.Stable P noPages := by
  intro i items h
  simp [noPages] at h

/-- Both pages are loaded and shuffled, and the list is played to its end. -/
def shuffledRun : List Op :=
  [.trySeekTo twoPages trackB, .toggleShuffle twoPages 0 true, .goNext twoPages, .goNext twoPages]

theorem shuffledRun_stable : ∀ op ∈ shuffledRun, op.Stable twoPagesItems := by
  intro op hop
  simp only [shuffledRun, mem_cons, not_mem_nil, or_false] at hop
  rcases hop with rfl | rfl | rfl | rfl <;> exact ⟨stable_twoPages, stable_noPages _⟩

theorem loadedOnce_fails_after_shuffle : (∀ op ∈ shuffledRun, op.Stable twoPagesItems) ∧
    ∃ tl, exec (step drawZero) (newTrackList "track") shuffledRun = some tl ∧
      entries tl.tracks.list = [(1, 0), (0, 0), (1, 0)] ∧
      ¬ LoadedOnce twoPagesItems tl.tracks.list := by
  refine ⟨shuffledRun_stable, Option.get _ (by decide +kernel), exec_get _, by decide +kernel,
    fun h => ?_⟩
  exact absurd h.1 (by decide +kernel)

theorem loadedOnce_iff_fits_twoPages : (∀ op ∈ shuffledRun, op.Stable twoPagesItems) ∧
    (Always (step drawZero) (fun tl => LoadedOnce twoPagesItems tl.tracks.list)
        (newTrackList "track") shuffledRun ↔
      Meets (step drawZero) FitsEnd (newTrackList "track") shuffledRun) :=
  ⟨shuffledRun_stable, loadedOnce_iff_fits drawZero twoPagesItems "track" _ shuffledRun_stable⟩

end TrackList

end Librespot.Tracks
