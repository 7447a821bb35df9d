import Mathlib.Data.List.Rotate
import Mathlib.Tactic

/-!
# Ring buffers

A ring is a list of cells of which `len` are in use, from `start` on and around
the end. Data is written into the free cells up to the end of the list, and read
in runs of adjacent cells.
-/

open List

namespace Base

structure RingBuffer (α : Type*) where
  cells : List α
  start : Nat
  len : Nat
  start_lt : start < cells.length ∨ cells.length = 0
  len_le : len ≤ cells.length

namespace RingBuffer

variable {α : Type*} {r : RingBuffer α}

def ofCells (cells : List α) : RingBuffer α := ⟨cells, 0, 0, by omega, by omega⟩

def cap (r : RingBuffer α) : Nat := r.cells.length

def toList (r : RingBuffer α) : List α := (r.cells.rotate r.start).take r.len

def cell (r : RingBuffer α) (i : Nat) : Option α := r.cells[(r.start + i) % r.cap]?

theorem length_toList (r : RingBuffer α) : r.toList.length = r.len := by
  simp [toList, r.len_le]

theorem toList_eq_nil (h : r.len = 0) : r.toList = [] := by
  simp [toList, h]

theorem getElem?_toList (r : RingBuffer α) {i : Nat} (h : i < r.len) : r.toList[i]? = r.cell i := by
  have hlt : i < r.cells.length := by have := r.len_le; omega
  rw [toList, getElem?_take_of_lt h, getElem?_rotate hlt, cell, cap, Nat.add_comm]

theorem take_toList (r : RingBuffer α) {n : Nat} (hn : n ≤ r.len) (hc : r.start + n ≤ r.cap) :
    r.toList.take n = (r.cells.drop r.start).take n := by
  rcases Nat.eq_zero_or_pos n with rfl | hpos
  · simp
  have hstart : r.start ≤ r.cells.length := by unfold cap at hc; omega
  rw [toList, take_take, min_eq_left hn, rotate_eq_drop_append_take hstart,
    take_append_of_le_length (by rw [length_drop]; unfold cap at hc; omega)]

def advance (n : Nat) (r : RingBuffer α) : RingBuffer α where
  cells := r.cells
  start := (r.start + n) % r.cap
  len := r.len - n
  start_lt := by
    rcases Nat.eq_zero_or_pos r.cells.length with h | h
    · exact .inr h
    · exact .inl (Nat.mod_lt _ h)
  len_le := by have := r.len_le; omega

theorem toList_advance {n : Nat} (hn : n ≤ r.len) : (r.advance n).toList = r.toList.drop n := by
  have hlen := r.len_le
  have hrot : r.cells.rotate ((r.start + n) % r.cap) = (r.cells.rotate r.start).rotate n := by
    rw [cap, rotate_mod, rotate_rotate]
  have hle : n ≤ (r.cells.rotate r.start).length := by rw [length_rotate]; omega
  show (r.cells.rotate ((r.start + n) % r.cap)).take (r.len - n) = r.toList.drop n
  rw [hrot, rotate_eq_drop_append_take hle, toList, drop_take,
    take_append_of_le_length (by rw [length_drop, length_rotate]; omega)]

def run (want : Nat) (r : RingBuffer α) : Nat := min want (min (r.cap - r.start) r.len)

def popLoop : Nat → Nat → RingBuffer α → List α × RingBuffer α
  | 0, _, r => ([], r)
  | k + 1, want, r =>
    if want = 0 then ([], r)
    else
      let n := r.run want
      let (rest, r') := popLoop k (want - n) (r.advance n)
      ((r.cells.drop r.start).take n ++ rest, r')

def pop (want : Nat) (r : RingBuffer α) : List α × RingBuffer α := popLoop want want r

theorem popLoop_spec {k want : Nat} (hk : want ≤ k) (hw : want ≤ r.len) :
    (popLoop k want r).1 = r.toList.take want ∧
    (popLoop k want r).2.toList = r.toList.drop want ∧ (popLoop k want r).2.cap = r.cap := by
  induction k generalizing want r with
  | zero =>
    obtain rfl : want = 0 := by omega
    simp [popLoop]
  | succ k ih =>
    by_cases h0 : want = 0
    · simp [popLoop, h0]
    · have hstart := r.start_lt
      have hlen := r.len_le
      have hn : r.run want ≤ want ∧ r.run want ≤ r.len ∧ r.start + r.run want ≤ r.cap ∧
          0 < r.run want := by
        unfold run cap
        omega
      obtain ⟨hn1, hn2, hn3, hn4⟩ := hn
      have hlen' : want - r.run want ≤ (r.advance (r.run want)).len := by
        show want - r.run want ≤ r.len - r.run want
        omega
      obtain ⟨h1, h2, h3⟩ := ih (show want - r.run want ≤ k by omega) hlen'
      rw [toList_advance hn2] at h1 h2
      simp only [popLoop, if_neg h0]
      refine ⟨?_, ?_, h3⟩
      · rw [h1, ← take_toList r hn2 hn3, ← take_add, Nat.add_sub_cancel' hn1]
      · rw [h2, drop_drop, Nat.add_sub_cancel' hn1]

theorem pop_spec {want : Nat} (hw : want ≤ r.len) :
    (r.pop want).1 = r.toList.take want ∧ (r.pop want).2.toList = r.toList.drop want ∧
    (r.pop want).2.cap = r.cap :=
  popLoop_spec le_rfl hw

def truncate (n : Nat) (r : RingBuffer α) : RingBuffer α :=
  { r with len := min n r.len, len_le := by have := r.len_le; omega }

theorem truncate_of_le {n : Nat} (h : r.len ≤ n) : r.truncate n = r := by
  simp [truncate, min_eq_right h]

def reset (r : RingBuffer α) : RingBuffer α := ofCells r.cells

def freeStart (r : RingBuffer α) : Nat := (r.start + r.len) % r.cap

def freeLen (r : RingBuffer α) : Nat :=
  min (r.freeStart + (r.cap - r.len)) r.cap - r.freeStart

theorem freeStart_lt (r : RingBuffer α) (h : 0 < r.cap) : r.freeStart < r.cap := Nat.mod_lt _ h

theorem len_add_freeLen_le (r : RingBuffer α) : r.len + r.freeLen ≤ r.cap := by
  have hlen : r.len ≤ r.cap := r.len_le
  unfold freeLen
  omega

theorem freeLen_pos (r : RingBuffer α) (h : r.len < r.cap) : 0 < r.freeLen := by
  have := r.freeStart_lt (by omega)
  unfold freeLen
  omega

def patch (cells : List α) (i : Nat) (data : List α) : List α :=
  cells.take i ++ data ++ cells.drop (i + data.length)

theorem length_patch {cells data : List α} {i : Nat} (h : i + data.length ≤ cells.length) :
    (patch cells i data).length = cells.length := by
  simp only [patch, length_append, length_take, length_drop]
  omega

def write (data : List α) (r : RingBuffer α) : RingBuffer α :=
  if h : data.length ≤ r.freeLen ∧ 0 < r.cap then
    have hlen : (patch r.cells r.freeStart data).length = r.cells.length :=
      length_patch (by
        have := r.freeStart_lt h.2
        have := h.1
        unfold freeLen at this
        unfold cap at *
        omega)
    { cells := patch r.cells r.freeStart data
      start := r.start
      len := r.len + data.length
      start_lt := by rw [hlen]; exact r.start_lt
      len_le := by
        have := r.len_add_freeLen_le
        have := h.1
        unfold cap at *
        omega }
  else r

theorem write_spec {data : List α} (h : data.length ≤ r.freeLen) (hc : 0 < r.cap) :
    (r.write data).toList = r.toList ++ data ∧ (r.write data).cap = r.cap ∧
    (r.write data).len = r.len + data.length := by
  have hfree := r.freeStart_lt hc
  have hroom := r.len_add_freeLen_le
  have hfit : r.freeStart + data.length ≤ r.cells.length := by
    unfold freeLen at h
    unfold cap at *
    omega
  have hw : r.write data = ⟨patch r.cells r.freeStart data, r.start, r.len + data.length,
      by rw [length_patch hfit]; exact r.start_lt,
      by rw [length_patch hfit]; unfold cap at hroom; omega⟩ := by
    unfold write
    rw [dif_pos ⟨h, hc⟩]
  rw [hw]
  refine ⟨?_, length_patch hfit, rfl⟩
  have hstart : r.start < r.cells.length := by
    rcases r.start_lt with hs | hs
    · exact hs
    · unfold cap at hc
      omega
  have hlen := r.len_le
  have hsp : r.start ≤ (patch r.cells r.freeStart data).length := by rw [length_patch hfit]; omega
  simp only [toList]
  rw [rotate_eq_drop_append_take hsp, rotate_eq_drop_append_take hstart.le]
  by_cases hwrap : r.start + r.len < r.cells.length
  · -- The free cells follow the ones in use.
    have hfs : r.freeStart = r.start + r.len := Nat.mod_eq_of_lt hwrap
    have hused : (patch r.cells r.freeStart data).drop r.start =
        (r.cells.drop r.start).take r.len ++ data ++
          r.cells.drop (r.freeStart + data.length) := by
      rw [patch, hfs, append_assoc,
        drop_append_of_le_length (by rw [length_take]; omega), drop_take,
        Nat.add_sub_cancel_left, append_assoc]
    have hold : (r.cells.drop r.start ++ r.cells.take r.start).take r.len =
        (r.cells.drop r.start).take r.len :=
      take_append_of_le_length (by rw [length_drop]; omega)
    rw [hused, hold, append_assoc ((r.cells.drop r.start).take r.len ++ data)]
    exact take_left' (by rw [length_append, length_take, length_drop]; omega)
  · -- The ones in use go around the end, and the free cells lie before the first of them.
    have hfs : r.freeStart = r.start + r.len - r.cells.length := by
      unfold freeStart cap
      rw [Nat.mod_eq_sub_mod (by omega), Nat.mod_eq_of_lt (by omega)]
    have hbefore : r.freeStart + data.length ≤ r.start := by
      unfold cap at hroom
      omega
    have hlast : (patch r.cells r.freeStart data).drop r.start = r.cells.drop r.start := by
      rw [patch, drop_append, drop_eq_nil_of_le
        (by rw [length_append, length_take]; omega), nil_append, drop_drop]
      congr 1
      rw [length_append, length_take]
      omega
    have hfirst : (patch r.cells r.freeStart data).take r.start =
        r.cells.take r.freeStart ++ data ++
          (r.cells.drop (r.freeStart + data.length)).take (r.start - (r.freeStart + data.length)) := by
      rw [patch, take_append, take_of_length_le
        (by rw [length_append, length_take]; omega)]
      congr 2
      rw [length_append, length_take]
      omega
    have hlen' : r.len = (r.cells.drop r.start).length + r.freeStart := by
      rw [length_drop]
      omega
    have hold : (r.cells.drop r.start ++ r.cells.take r.start).take r.len =
        r.cells.drop r.start ++ r.cells.take r.freeStart := by
      rw [hlen', take_append, take_of_length_le (by omega), Nat.add_sub_cancel_left,
        take_take, min_eq_left (by omega)]
    rw [hlast, hfirst, hold, append_assoc (r.cells.drop r.start), ← append_assoc, ← append_assoc]
    exact take_left' (by
      rw [length_append, length_append, length_take, length_drop]
      omega)

end RingBuffer

end Base
