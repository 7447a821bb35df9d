import Mathlib.Data.List.Perm.Basic
import Mathlib.Tactic.Common

/-!
# Exchanging entries of a list under a mark

A marked list is a list with an index that stays on its entry while entries are
exchanged. The index is an integer: a negative one marks nothing.
-/

open List

namespace Base.Exchange

variable {α : Type*}

def follow (i j : Nat) (k : Int) : Int :=
  if (i : Int) = k then j else if (j : Int) = k then i else k

structure Marked (α : Type*) where
  list : List α
  pos : Int
deriving DecidableEq, Repr

def Marked.exchange (m : Marked α) (i j : Nat) : Marked α where
  list := m.list.swap i j
  pos := follow i j m.pos

def Marked.entry (m : Marked α) : Option α := if m.pos < 0 then none else m.list[m.pos.toNat]?

def Marked.exchanges (m : Marked α) (es : List (Nat × Nat)) : Marked α :=
  es.foldl (fun m e => m.exchange e.1 e.2) m

/-! ## One exchange -/

theorem getElem?_swap_follow (l : List α) (i j k : Nat) (hi : i < l.length) (hj : j < l.length) :
    (l.swap i j)[(follow i j k).toNat]? = l[k]? := by
  rw [swap_eq_of_lt hi hj]
  unfold follow
  by_cases hik : i = k
  · subst hik
    simp [hi, hj]
  · by_cases hjk : j = k
    · subst hjk
      rw [if_neg (by omega), if_pos rfl, Int.toNat_natCast, getElem?_set_ne (Ne.symm hik),
        getElem?_set_self hi, getElem?_eq_getElem hj]
    · rw [if_neg (by omega), if_neg (by omega), Int.toNat_natCast, getElem?_set_ne hjk,
        getElem?_set_ne hik]

theorem follow_follow (i j : Nat) (k : Int) : follow i j (follow i j k) = k := by
  unfold follow
  split_ifs <;> omega

theorem follow_neg (i j : Nat) (k : Int) : follow i j k < 0 ↔ k < 0 := by
  unfold follow
  split_ifs <;> omega

theorem follow_lt (i j n : Nat) (k : Int) (hi : i < n) (hj : j < n) (hk : k < n) :
    follow i j k < n := by
  unfold follow
  split_ifs <;> omega

theorem exchange_exchange (m : Marked α) (i j : Nat) : (m.exchange i j).exchange i j = m := by
  simp [Marked.exchange, follow_follow]

@[simp] theorem length_exchange (m : Marked α) (i j : Nat) :
    (m.exchange i j).list.length = m.list.length := length_swap

theorem entry_exchange (m : Marked α) (i j : Nat) (hi : i < m.list.length)
    (hj : j < m.list.length) : (m.exchange i j).entry = m.entry := by
  simp only [Marked.entry, Marked.exchange, follow_neg]
  split
  · rfl
  · have h := getElem?_swap_follow m.list i j m.pos.toNat hi hj
    rwa [show (m.pos.toNat : Int) = m.pos by omega] at h

/-! ## Many exchanges -/

@[simp] theorem exchanges_nil (m : Marked α) : m.exchanges [] = m := rfl

@[simp] theorem exchanges_cons (m : Marked α) (e : Nat × Nat) (es : List (Nat × Nat)) :
    m.exchanges (e :: es) = (m.exchange e.1 e.2).exchanges es := rfl

theorem exchanges_append (m : Marked α) (es fs : List (Nat × Nat)) :
    m.exchanges (es ++ fs) = (m.exchanges es).exchanges fs := foldl_append

theorem exchanges_reverse (m : Marked α) (es : List (Nat × Nat)) :
    (m.exchanges es).exchanges es.reverse = m := by
  induction es generalizing m with
  | nil => rfl
  | cons _ _ ih =>
    rw [exchanges_cons, reverse_cons, exchanges_append, ih, exchanges_cons, exchanges_nil,
      exchange_exchange]

@[simp] theorem length_exchanges (m : Marked α) (es : List (Nat × Nat)) :
    (m.exchanges es).list.length = m.list.length := by
  induction es generalizing m with
  | nil => rfl
  | cons _ _ ih => rw [exchanges_cons, ih, length_exchange]

theorem perm_exchanges (m : Marked α) (es : List (Nat × Nat)) :
    (m.exchanges es).list.Perm m.list := by
  induction es generalizing m with
  | nil => exact List.Perm.refl _
  | cons _ _ ih => exact (ih _).trans (swap_perm _ _ _)

theorem entry_exchanges (m : Marked α) (es : List (Nat × Nat))
    (h : ∀ e ∈ es, e.1 < m.list.length ∧ e.2 < m.list.length) :
    (m.exchanges es).entry = m.entry := by
  induction es generalizing m with
  | nil => rfl
  | cons e _ ih =>
    obtain ⟨h1, h2⟩ := h e mem_cons_self
    rw [exchanges_cons, ih, entry_exchange m _ _ h1 h2]
    intro e' he'
    rw [length_exchange]
    exact h e' (mem_cons_of_mem e he')

theorem pos_exchanges_lt (m : Marked α) (es : List (Nat × Nat))
    (h : ∀ e ∈ es, e.1 < m.list.length ∧ e.2 < m.list.length)
    (hpos : m.pos < m.list.length) : (m.exchanges es).pos < m.list.length := by
  induction es generalizing m with
  | nil => exact hpos
  | cons e _ ih =>
    obtain ⟨h1, h2⟩ := h e mem_cons_self
    have := ih (m.exchange e.1 e.2) (fun e' he' => by
      rw [length_exchange]; exact h e' (mem_cons_of_mem e he')) (by
      rw [length_exchange]; exact follow_lt _ _ _ _ h1 h2 hpos)
    rwa [length_exchange] at this

theorem le_pos_exchanges (m : Marked α) (es : List (Nat × Nat)) {b : Int} (hb : b ≤ 0)
    (hpos : b ≤ m.pos) : b ≤ (m.exchanges es).pos := by
  induction es generalizing m with
  | nil => exact hpos
  | cons _ _ ih =>
    apply ih
    simp only [Marked.exchange, follow]
    split_ifs <;> omega

end Base.Exchange
