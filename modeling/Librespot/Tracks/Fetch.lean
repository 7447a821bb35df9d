import Librespot.Tracks.TrackList
import Mathlib.Data.List.Perm.Subperm

/-! # What the iterator and the walks load -/

open Base.Exchange List Option

namespace Librespot.Tracks

open PagedList

variable {α β : Type} {page : Pages α} {body : Int → PagedListItem α → Option (Option β)}
  {l l' : PagedList α}

theorem fetchNextPage_ok_iff :
    l.fetchNextPage page = (none, l') ↔ ∃ items, page l.nextPageIdx = .ok items ∧ items ≠ [] ∧
      l' = { l with list := l.list ++ PagedList.pageItems l.nextPageIdx items } := by
  unfold fetchNextPage
  split
  · rename_i err h
    simp [h]
  · rename_i h
    simp [h]
  · rename_i items hne h
    simp only [Prod.mk.injEq, true_and, h, Except.ok.injEq]
    constructor
    · rintro rfl
      exact ⟨items, rfl, hne, rfl⟩
    · rintro ⟨items, rfl, -, rfl⟩
      rfl

theorem fetchNextPage_err {err : Err} (h : l.fetchNextPage page = (some err, l')) : l' = l := by
  unfold fetchNextPage at h
  split at h <;> simp_all

inductive Fetched (page : Pages α) : PagedList α → PagedList α → Prop
  | refl (l : PagedList α) : Fetched page l l
  | next {l m l' : PagedList α} : l.fetchNextPage page = (none, m) → Fetched page m l' →
      Fetched page l l'

theorem Fetched.trans {m : PagedList α} (h : Fetched page l m) (h' : Fetched page m l') :
    Fetched page l l' := by
  induction h with
  | refl => exact h'
  | next hf _ ih => exact .next hf (ih h')

theorem Fetched.exists_append (h : Fetched page l l') :
    ∃ more, l' = { l with list := l.list ++ more } := by
  induction h with
  | refl => exact ⟨[], by simp⟩
  | @next l _ _ hf _ ih =>
    obtain ⟨items, -, -, rfl⟩ := fetchNextPage_ok_iff.mp hf
    obtain ⟨more, rfl⟩ := ih
    exact ⟨pageItems l.nextPageIdx items ++ more, by simp⟩

theorem Fetched.pos_eq (h : Fetched page l l') : l'.pos = l.pos := by
  obtain ⟨more, rfl⟩ := h.exists_append
  rfl

theorem Fetched.length_le (h : Fetched page l l') : l.list.length ≤ l'.list.length := by
  obtain ⟨more, rfl⟩ := h.exists_append
  simp

/-- `l'` is what becomes of `l` when a page is asked for exactly if `asks` holds: nothing
changes, or the page is refused, or it is loaded and others may follow. -/
inductive Reads (page : Pages α) (asks : Prop) (l : PagedList α) : PagedList α → Prop
  | idle : ¬ asks → Reads page asks l l
  | refused {err : Err} : asks → l.fetchNextPage page = (some err, l) → Reads page asks l l
  | loaded {m l' : PagedList α} : asks → l.fetchNextPage page = (none, m) → Fetched page m l' →
      Reads page asks l l'

theorem Reads.fetched {asks : Prop} (h : Reads page asks l l') : Fetched page l l' := by
  cases h with
  | idle | refused => exact .refl l
  | loaded _ hf hm => exact .next hf hm

theorem Reads.congr {a b : Prop} (hab : a ↔ b) (h : Reads page a l l') : Reads page b l l' := by
  rwa [← propext hab]

/-! ## The iterator -/

theorem Iter.next_of_lt (page : Pages α) (i : Iter) (l : PagedList α)
    (h : i.pos + 1 < l.list.length) : i.next page l = (true, { pos := i.pos + 1 }, l) := by
  unfold Iter.next
  rw [show (i.pos + 2 - l.list.length).toNat = 0 by omega]
  rfl

theorem Iter.next_of_eq (page : Pages α) (i : Iter) (l : PagedList α) (h : i.pos + 1 = l.list.length) :
    (∃ l', l.fetchNextPage page = (none, l') ∧ i.next page l = (true, { pos := i.pos + 1 }, l')) ∨
    ∃ err e, l.fetchNextPage page = (some err, l) ∧ i.next page l = (false, ⟨i.pos, e⟩, l) := by
  unfold Iter.next
  rw [show (i.pos + 2 - l.list.length).toNat = 1 by omega]
  simp only [Iter.nextLoop, ge_iff_le]
  rw [if_pos (by omega)]
  rcases hf : l.fetchNextPage page with ⟨_ | err, l'⟩
  · exact .inl ⟨l', rfl, rfl⟩
  · obtain rfl := fetchNextPage_err hf
    right
    by_cases he : err.isEOF
    · exact ⟨err, none, rfl, by simp [he]⟩
    · exact ⟨err, _, rfl, by simp [he]; rfl⟩

theorem Iter.next_cases (page : Pages α) (i : Iter) (l : PagedList α) (h : i.pos + 1 ≤ l.list.length) :
    (i.pos + 1 < l.list.length ∧ i.next page l = (true, { pos := i.pos + 1 }, l)) ∨
    (i.pos + 1 = l.list.length ∧ ∃ l', l.fetchNextPage page = (none, l') ∧
      i.next page l = (true, { pos := i.pos + 1 }, l')) ∨
    (i.pos + 1 = l.list.length ∧ ∃ err e, l.fetchNextPage page = (some err, l) ∧
      i.next page l = (false, ⟨i.pos, e⟩, l)) := by
  rcases lt_or_eq_of_le h with h | h
  · exact .inl ⟨h, i.next_of_lt page l h⟩
  · rcases i.next_of_eq page l h with hl | hl
    · exact .inr (.inl ⟨h, hl⟩)
    · exact .inr (.inr ⟨h, hl⟩)

theorem lt_length_of_fetch (h : l.fetchNextPage page = (none, l')) :
    l.list.length < l'.list.length := by
  obtain ⟨items, -, hne, rfl⟩ := fetchNextPage_ok_iff.mp h
  have : 0 < items.length := length_pos_of_ne_nil hne
  simp [pageItems]
  omega

theorem Iter.next_reads (page : Pages α) (i : Iter) (l : PagedList α)
    (h : i.pos + 1 ≤ l.list.length) :
    Reads page (i.pos + 1 = l.list.length) l (i.next page l).2.2 := by
  rcases i.next_cases page l h with ⟨hlt, he⟩ | ⟨heq, l', hf, he⟩ | ⟨heq, err, e, hf, he⟩
  · rw [he]
    exact .idle (by omega)
  · rw [he]
    exact .loaded heq hf (.refl l')
  · rw [he]
    exact .refused heq hf

theorem Iter.next_moves (page : Pages α) (i : Iter) (l : PagedList α)
    (h : i.pos + 1 ≤ l.list.length) :
    (∃ err e, i.pos + 1 = l.list.length ∧ l.fetchNextPage page = (some err, l) ∧
      i.next page l = (false, ⟨i.pos, e⟩, l)) ∨
    ∃ l', (i.pos + 1 < l.list.length ∧ l' = l ∨
        i.pos + 1 = l.list.length ∧ l.fetchNextPage page = (none, l')) ∧
      i.pos + 1 < l'.list.length ∧ i.next page l = (true, { pos := i.pos + 1 }, l') := by
  rcases i.next_cases page l h with ⟨hlt, he⟩ | ⟨heq, l', hf, he⟩ | ⟨heq, err, e, hf, he⟩
  · exact .inr ⟨l, .inl ⟨hlt, rfl⟩, hlt, he⟩
  · have := lt_length_of_fetch hf
    exact .inr ⟨l', .inr ⟨heq, hf⟩, by omega, he⟩
  · exact .inl ⟨err, e, heq, hf, he⟩

def PassesEnd (body : Int → PagedListItem α → Option (Option β)) (pos : Int) (l : PagedList α) :
    Prop :=
  ∀ (i : Nat) (x : PagedListItem α), pos < i → l.list[i]? = some x → body i x = some none

theorem passesEnd_of_ge {pos : Int} (h : (l.list.length : Int) ≤ pos + 1) :
    PassesEnd body pos l := by
  intro i x hi hx
  have := (List.getElem?_eq_some_iff.mp hx).1
  omega

theorem passesEnd_step {pos : Int} {x : PagedListItem α} (hpos : -1 ≤ pos)
    (hx : l.list[(pos + 1).toNat]? = some x) :
    PassesEnd body pos l ↔ body (pos + 1) x = some none ∧ PassesEnd body (pos + 1) l := by
  have hcast : (((pos + 1).toNat : Nat) : Int) = pos + 1 := by omega
  constructor
  · intro h
    refine ⟨?_, fun i y hi hy => h i y (by omega) hy⟩
    have := h (pos + 1).toNat x (by omega) hx
    rwa [hcast] at this
  · rintro ⟨h1, h2⟩ i y hi hy
    by_cases he : (i : Int) = pos + 1
    · have : i = (pos + 1).toNat := by omega
      subst this
      rw [hx, some.injEq] at hy
      rw [hcast, ← hy]
      exact h1
    · exact h2 i y (by omega) hy

theorem walk_succ (body : Int → PagedListItem α → Option (Option β)) (n : Nat) (iter : Iter)
    (l : PagedList α) : walk page body (n + 1) iter l =
      match iter.next page l with
      | (false, iter, l) => some (.ended, iter, l)
      | (true, iter, l) => (iter.get l).bind fun curr => (body iter.pos curr).bind fun
        | some value => some (.left value, iter, l)
        | none => walk page body n iter l := rfl

theorem Iter.get_of_lt (i : Iter) (l : PagedList α) (h0 : 0 ≤ i.pos)
    (h : i.pos < l.list.length) : ∃ x, i.get l = some x ∧ l.list[i.pos.toNat]? = some x := by
  have hlt : i.pos.toNat < l.list.length := by omega
  refine ⟨l.list[i.pos.toNat], ?_, getElem?_eq_getElem hlt⟩
  simp only [Iter.get, Marked.entry]
  rw [if_neg (by omega), getElem?_eq_getElem hlt]

variable {n : Nat} {iter iter' : Iter} {stop : WalkEnd β}

theorem walk_succ_cases
    {r : WalkEnd β × Iter × PagedList α} (hpos : -1 ≤ iter.pos)
    (hle : iter.pos + 1 ≤ l.list.length) (h : walk page body (n + 1) iter l = some r) :
    (∃ err e, iter.pos + 1 = l.list.length ∧ l.fetchNextPage page = (some err, l) ∧
      r = (.ended, ⟨iter.pos, e⟩, l)) ∨
    ∃ l' x, (iter.pos + 1 < l.list.length ∧ l' = l ∨
        iter.pos + 1 = l.list.length ∧ l.fetchNextPage page = (none, l')) ∧
      iter.pos + 1 < l'.list.length ∧ l'.list[(iter.pos + 1).toNat]? = some x ∧
      ((∃ value, body (iter.pos + 1) x = some (some value) ∧
        r = (.left value, { pos := iter.pos + 1 }, l')) ∨
      (body (iter.pos + 1) x = some none ∧
        walk page body n { pos := iter.pos + 1 } l' = some r)) := by
  rw [walk_succ] at h
  rcases iter.next_moves page l hle with ⟨err, e, heq, hf, he⟩ | ⟨l', hload, hlt, he⟩
  · rw [he] at h
    simp only [some.injEq] at h
    exact .inl ⟨err, e, heq, hf, h.symm⟩
  · obtain ⟨x, hget, hx⟩ := Iter.get_of_lt { pos := iter.pos + 1 } l' (by simp; omega) hlt
    rw [he] at h
    simp only [hget, bind_some, bind_eq_some_iff] at h
    obtain ⟨b, hb, h⟩ := h
    refine .inr ⟨l', x, hload, hlt, hx, ?_⟩
    cases b with
    | some value =>
      simp only [some.injEq] at h
      exact .inl ⟨value, hb, h.symm⟩
    | none => exact .inr ⟨hb, h⟩

theorem walk_fetched (hpos : -1 ≤ iter.pos) (hle : iter.pos + 1 ≤ l.list.length)
    (h : walk page body n iter l = some (stop, iter', l')) : Fetched page l l' := by
  induction n generalizing iter l with
  | zero =>
    simp only [walk, some.injEq, Prod.mk.injEq] at h
    rw [← h.2.2]
    exact .refl l
  | succ _ ih =>
    rcases walk_succ_cases hpos hle h with ⟨err, e, -, -, hr⟩ | ⟨m, x, hm, hlt, -, hbody⟩
    · simp only [Prod.mk.injEq] at hr
      rw [hr.2.2]
      exact .refl l
    · have hlm : Fetched page l m := by
        rcases hm with ⟨-, rfl⟩ | ⟨-, hf⟩
        · exact .refl m
        · exact .next hf (.refl m)
      rcases hbody with ⟨value, -, hr⟩ | ⟨-, hw⟩
      · simp only [Prod.mk.injEq] at hr
        exact hr.2.2 ▸ hlm
      · exact hlm.trans (ih (by simp; omega) (by simp; omega) hw)

theorem Fetched.getElem? (h : Fetched page l l') {i : Nat}
    (hi : i < l.list.length) : l'.list[i]? = l.list[i]? := by
  obtain ⟨more, rfl⟩ := h.exists_append
  exact getElem?_append_left hi

theorem walk_left {value : β} (hpos : -1 ≤ iter.pos) (hle : iter.pos + 1 ≤ l.list.length)
    (h : walk page body n iter l = some (.left value, iter', l')) :
    iter.pos < iter'.pos ∧ (∃ x, l'.list[iter'.pos.toNat]? = some x ∧
      body iter'.pos x = some (some value)) ∧
    ∀ (i : Nat) (y : PagedListItem α), iter.pos < i → i < iter'.pos → l'.list[i]? = some y →
      body i y = some none := by
  induction n generalizing iter l with
  | zero => simp [walk] at h
  | succ _ ih =>
    rcases walk_succ_cases hpos hle h with ⟨err, e, -, -, hr⟩ | ⟨m, x, -, hlt, hx, hbody⟩
    · simp at hr
    · rcases hbody with ⟨v, hb, hr⟩ | ⟨hb, hw⟩
      · simp only [Prod.mk.injEq, WalkEnd.left.injEq] at hr
        obtain ⟨rfl, rfl, rfl⟩ := hr
        refine ⟨by simp, ⟨x, hx, hb⟩, ?_⟩
        intro i y h1 h2
        simp only at h2
        omega
      · obtain ⟨h1, h2, h3⟩ := ih (by simp; omega) (by simp; omega) hw
        simp only at h1 h3
        refine ⟨by omega, h2, ?_⟩
        intro i y hi hi' hy
        by_cases he : (i : Int) = iter.pos + 1
        · have hfetch := walk_fetched (by simp; omega) (by simp; omega) hw
          rw [hfetch.getElem? (by omega), show i = (iter.pos + 1).toNat by omega, hx,
            some.injEq] at hy
          rw [he, ← hy]
          exact hb
        · exact h3 i y (by omega) hi' hy

theorem walk_ended (hpos : -1 ≤ iter.pos) (hle : iter.pos + 1 ≤ l.list.length)
    (h : walk page body n iter l = some (.ended, iter', l')) :
    PassesEnd body iter.pos l' ∧ ∃ err, l'.fetchNextPage page = (some err, l') := by
  induction n generalizing iter l with
  | zero => simp [walk] at h
  | succ _ ih =>
    rcases walk_succ_cases hpos hle h with ⟨err, e, heq, hf, hr⟩ | ⟨m, x, -, hlt, hx, hbody⟩
    · simp only [Prod.mk.injEq] at hr
      rw [hr.2.2]
      exact ⟨passesEnd_of_ge (by omega), err, hf⟩
    · rcases hbody with ⟨v, -, hr⟩ | ⟨hb, hw⟩
      · simp at hr
      · obtain ⟨h1, h2⟩ := ih (by simp; omega) (by simp; omega) hw
        have hfetch := walk_fetched (by simp; omega) (by simp; omega) hw
        have hx' : l'.list[(iter.pos + 1).toNat]? = some x := by
          rw [hfetch.getElem? (by omega), hx]
        exact ⟨(passesEnd_step hpos hx').mpr ⟨hb, h1⟩, h2⟩

theorem walk_none (hpos : -1 ≤ iter.pos) (hle : iter.pos + 1 ≤ l.list.length)
    (h : walk page body n iter l = none) :
    ∃ l' p x, Fetched page l l' ∧ iter.pos < p ∧ l'.list[p.toNat]? = some x ∧ body p x = none ∧
      ∀ (i : Nat) (y : PagedListItem α), iter.pos < i → i < p → l'.list[i]? = some y →
        body i y = some none := by
  induction n generalizing iter l with
  | zero => simp [walk] at h
  | succ _ ih =>
    rw [walk_succ] at h
    rcases iter.next_moves page l hle with ⟨err, e, -, -, he⟩ | ⟨m, hload, hlt, he⟩
    · rw [he] at h
      simp at h
    · have hlm : Fetched page l m := by
        rcases hload with ⟨-, rfl⟩ | ⟨-, hf⟩
        · exact .refl m
        · exact .next hf (.refl m)
      obtain ⟨x, hget, hx⟩ := Iter.get_of_lt { pos := iter.pos + 1 } m (by simp; omega) hlt
      rw [he] at h
      simp only [hget, bind_some] at h
      rcases hb : body (iter.pos + 1) x with _ | _ | value
      · refine ⟨m, iter.pos + 1, x, hlm, by omega, hx, hb, ?_⟩
        intro i y h1 h2
        omega
      · simp only [hb, bind_some] at h
        obtain ⟨l', p, z, hf, hp, hz, hbz, hpass⟩ := ih (by simp; omega) (by simp; omega) h
        simp only at hp hpass
        refine ⟨l', p, z, hlm.trans hf, by omega, hz, hbz, ?_⟩
        intro i y h1 h2 hy
        by_cases hi : (i : Int) = iter.pos + 1
        · rw [hf.getElem? (by omega), show i = (iter.pos + 1).toNat by omega] at hy
          simp only at hx
          rw [hx, some.injEq] at hy
          rw [hi, ← hy]
          exact hb
        · exact hpass i y (by omega) h2 hy
      · simp [hb] at h

theorem walk_reads (hpos : -1 ≤ iter.pos) (hle : iter.pos + 1 ≤ l.list.length)
    (hn : l.list.length < iter.pos + 1 + n) (h : walk page body n iter l = some (stop, iter', l')) :
    Reads page (PassesEnd body iter.pos l) l l' := by
  induction n generalizing iter with
  | zero => omega
  | succ _ ih =>
    rcases walk_succ_cases hpos hle h with ⟨err, e, heq, hf, hr⟩ | ⟨m, x, hm, hlt, hx, hbody⟩
    · simp only [Prod.mk.injEq] at hr
      rw [hr.2.2]
      exact .refused (passesEnd_of_ge (by omega)) hf
    · rcases hm with ⟨-, rfl⟩ | ⟨heq, hf⟩
      · rcases hbody with ⟨value, hb, hr⟩ | ⟨hb, hw⟩
        · simp only [Prod.mk.injEq] at hr
          rw [hr.2.2]
          refine .idle fun hp => ?_
          have := ((passesEnd_step hpos hx).mp hp).1
          simp [hb] at this
        · have := ih (by simp; omega) (by simp; omega) (by simp at hn ⊢; omega) hw
          exact this.congr (by simp [passesEnd_step hpos hx, hb])
      · refine .loaded (passesEnd_of_ge (by omega)) hf ?_
        rcases hbody with ⟨value, -, hr⟩ | ⟨-, hw⟩
        · simp only [Prod.mk.injEq] at hr
          rw [hr.2.2]
          exact .refl m
        · exact walk_fetched (by simp; omega) (by simp; omega) hw

theorem mem_pageItems {p : Int} {items : List α} {x : PagedListItem α} :
    x ∈ PagedList.pageItems p items ↔
      ∃ j : Nat, items[j]? = some x.item ∧ x.pageIdx = p ∧ x.itemIdx = j := by
  obtain ⟨item, pageIdx, itemIdx⟩ := x
  unfold pageItems
  simp only [List.mem_map, Prod.exists, PagedListItem.mk.injEq, mem_zipIdx_iff_getElem?]
  constructor
  · rintro ⟨a, j, ha, rfl, rfl, rfl⟩
    exact ⟨j, ha, rfl, rfl⟩
  · rintro ⟨j, ha, rfl, rfl⟩
    exact ⟨item, j, ha, rfl, rfl, rfl⟩

theorem nextPageIdx_fetched (l : PagedList α) (p : Int) (items : List α) (hne : items ≠ []) :
    PagedList.nextPageIdx { l with list := l.list ++ PagedList.pageItems p items } = p + 1 := by
  have hne' : pageItems p items ≠ [] := by
    simpa [pageItems] using hne
  unfold nextPageIdx
  rw [getLast?_append_of_ne_nil _ hne', getLast?_eq_some_getLast hne']
  obtain ⟨j, -, hp, -⟩ := mem_pageItems.mp (getLast_mem hne')
  simp only
  rw [hp]

def restOfPages (page : Pages α) (p : Nat) : Nat :=
  (((List.range (seekMaxPages + 1)).drop p).map (pageLength page)).sum

theorem restOfPages_succ (page : Pages α) {p : Nat} (h : p ≤ seekMaxPages) :
    restOfPages page p = pageLength page p + restOfPages page (p + 1) := by
  unfold restOfPages
  rw [drop_eq_getElem_cons (by simp; omega)]
  simp

theorem restOfPages_le (page : Pages α) (p : Nat) :
    restOfPages page p ≤ ((List.range (seekMaxPages + 1)).map (pageLength page)).sum := by
  unfold restOfPages
  conv_rhs => rw [← take_append_drop p (List.range (seekMaxPages + 1)), map_append, sum_append]
  exact Nat.le_add_left _ _

theorem walk_ends_of_lt (hbody : ∀ i x, body i x = some none → x.pageIdx < seekMaxPages)
    (hpos : -1 ≤ iter.pos) (hle : iter.pos + 1 ≤ l.list.length) (hnext : 0 ≤ l.nextPageIdx)
    (hn : l.list.length + restOfPages page l.nextPageIdx.toNat < iter.pos + 1 + n)
    (h : walk page body n iter l = some (stop, iter', l')) : stop ≠ .outOfFuel := by
  induction n generalizing iter l with
  | zero => omega
  | succ _ ih =>
    rcases walk_succ_cases hpos hle h with ⟨err, e, -, -, hr⟩ | ⟨m, x, hm, hlt, hx, hb⟩
    · simp only [Prod.mk.injEq] at hr
      simp [hr.1]
    · rcases hb with ⟨value, -, hr⟩ | ⟨hb, hw⟩
      · simp only [Prod.mk.injEq] at hr
        simp [hr.1]
      · rcases hm with ⟨-, rfl⟩ | ⟨heq, hf⟩
        · exact ih (by simp; omega) (by simp; omega) hnext (by push_cast at hn; simp; omega) hw
        · obtain ⟨items, hitems, hne, rfl⟩ := fetchNextPage_ok_iff.mp hf
          have hp : l.nextPageIdx < seekMaxPages := by
            have hmem : x ∈ pageItems l.nextPageIdx items := by
              rw [getElem?_append_right (by omega)] at hx
              exact mem_of_getElem? hx
            obtain ⟨j, -, hxp, -⟩ := mem_pageItems.mp hmem
            rw [← hxp]
            exact hbody _ x hb
          have hk : pageLength page l.nextPageIdx.toNat = items.length := by
            unfold pageLength
            rw [show ((l.nextPageIdx.toNat : Nat) : Int) = l.nextPageIdx by omega, hitems]
          have hnext' := nextPageIdx_fetched l l.nextPageIdx items hne
          rw [restOfPages_succ page (by omega), hk] at hn
          refine ih (by simp; omega) (by simp at hlt ⊢; omega) (by rw [hnext']; omega) ?_ hw
          rw [hnext', show (l.nextPageIdx + 1).toNat = l.nextPageIdx.toNat + 1 by omega]
          simp only [length_append, pageItems, length_map, length_zipIdx]
          push_cast at hn ⊢
          omega

theorem walk_ends
    (hbody : ∀ i x, body i x = some none → x.pageIdx < seekMaxPages) (hnext : 0 ≤ l.nextPageIdx)
    (h : walk page body (walkFuel page l) Iter.start l = some (stop, iter', l')) :
    stop ≠ .outOfFuel := by
  refine walk_ends_of_lt hbody (by simp [Iter.start]) (by simp [Iter.start]) hnext ?_ h
  have := restOfPages_le page l.nextPageIdx.toNat
  simp only [Iter.start, walkFuel]
  omega

theorem walk_isSome (page : Pages α) (hbody : ∀ i x, body i x ≠ none) (n : Nat) (iter : Iter)
    (l : PagedList α) (hpos : -1 ≤ iter.pos) (hle : iter.pos + 1 ≤ l.list.length) :
    ∃ r, walk page body n iter l = some r := by
  induction n generalizing iter l with
  | zero => exact ⟨_, rfl⟩
  | succ _ ih =>
    rw [walk_succ]
    rcases iter.next_moves page l hle with ⟨err, e, -, -, he⟩ | ⟨l', -, hlt, he⟩
    · rw [he]
      exact ⟨_, rfl⟩
    · obtain ⟨x, hget, -⟩ := Iter.get_of_lt { pos := iter.pos + 1 } l' (by simp; omega) hlt
      rw [he]
      simp only [hget, bind_some]
      rcases hb : body (iter.pos + 1) x with _ | _ | value
      · exact absurd hb (hbody _ x)
      · exact ih _ _ (by simp; omega) (by simp; omega)
      · exact ⟨_, rfl⟩

end Librespot.Tracks
