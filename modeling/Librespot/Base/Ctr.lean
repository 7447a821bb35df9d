import Mathlib.Data.List.OfFn
import Mathlib.Data.BitVec

/-!
# Counter mode

A block cipher `E` turns a counter of `w` bits into a block of `bs` symbols. The keystream is the
blocks of the counters from `iv` on.
-/

open List

namespace Base.Ctr

variable {w bs : Nat} [NeZero bs] {α κ : Type*}

structure Stream (w : Nat) (κ : Type*) where
  ctr : BitVec w
  out : List κ := []

variable (E : BitVec w → Fin bs → κ) (mix : α → κ → α)

def draw (s : Stream w κ) : κ × Stream w κ :=
  match s.out with
  | k :: out => (k, { s with out })
  | [] => (E s.ctr 0, { ctr := s.ctr + 1, out := (List.ofFn (E s.ctr)).tail })

def xorKeyStream (s : Stream w κ) : List α → List α × Stream w κ
  | [] => ([], s)
  | a :: l =>
    let (k, s) := draw E s
    let (l, s) := xorKeyStream s l
    (mix a k :: l, s)

theorem xorKeyStream_xorKeyStream (hmix : ∀ a k, mix (mix a k) k = a) (s : Stream w κ)
    (l : List α) : (xorKeyStream E mix s (xorKeyStream E mix s l).1).1 = l := by
  induction l generalizing s with
  | nil => rfl
  | cons a l ih => simp only [xorKeyStream, hmix, ih]

def keystream (iv : BitVec w) (i : Nat) : κ :=
  E (iv + BitVec.ofNat w (i / bs)) ⟨i % bs, Nat.mod_lt _ (Nat.pos_of_neZero bs)⟩

def mixed (ks : Nat → κ) (i : Nat) (l : List α) : List α := l.mapIdx fun j a => mix a (ks (i + j))

theorem mixed_cons (ks : Nat → κ) (i : Nat) (a : α) (l : List α) :
    mixed mix ks i (a :: l) = mix a (ks i) :: mixed mix ks (i + 1) l := by
  simp only [mixed, mapIdx_cons, Nat.add_zero]
  congr 2
  funext j a
  rw [Nat.add_assoc, Nat.add_comm 1 j]

theorem mixed_slice (ks : Nat → κ) (i pos n : Nat) (l : List α) :
    ((mixed mix ks i l).drop pos).take n = mixed mix ks (i + pos) ((l.drop pos).take n) := by
  apply ext_getElem?
  intro j
  simp only [mixed, getElem?_take, getElem?_drop, getElem?_mapIdx, Nat.add_assoc]
  split_ifs <;> rfl

variable {E} {iv : BitVec w}

theorem keystream_add (b i : Nat) :
    keystream E (iv + BitVec.ofNat w b) i = keystream E iv (bs * b + i) := by
  unfold keystream
  have hpos := Nat.pos_of_neZero bs
  rw [BitVec.add_assoc, ← BitVec.ofNat_add, ← Nat.mul_add_div hpos]
  simp only [Nat.mul_add_mod]

theorem keystream_block (k : Nat) (j : Fin bs) :
    keystream E iv (bs * k + j) = E (iv + BitVec.ofNat w k) j := by
  rw [← keystream_add]
  simp [keystream, Nat.div_eq_of_lt j.isLt, Nat.mod_eq_of_lt j.isLt]

structure At (E : BitVec w → Fin bs → κ) (iv : BitVec w) (i : Nat) (s : Stream w κ) : Prop where
  out : ∀ j < s.out.length, s.out[j]? = some (keystream E iv (i + j))
  ctr : ∃ k, s.ctr = iv + BitVec.ofNat w k ∧ i + s.out.length = bs * k

theorem at_new (E : BitVec w → Fin bs → κ) (iv : BitVec w) : At E iv 0 { ctr := iv } :=
  ⟨by simp, 0, by simp, by simp⟩

theorem At.draw {i : Nat} {s : Stream w κ} (h : At E iv i s) :
    (draw E s).1 = keystream E iv i ∧ At E iv (i + 1) (draw E s).2 := by
  obtain ⟨k, hctr, hlen⟩ := h.ctr
  have hout := h.out
  unfold Ctr.draw
  rcases hs : s.out with _ | ⟨a, out⟩
  · simp only [hs, length_nil, Nat.add_zero] at hlen ⊢
    refine ⟨?_, ?_, k + 1, ?_, ?_⟩
    · have hfirst : keystream E iv (bs * k + (0 : Fin bs)) = E (iv + BitVec.ofNat w k) 0 :=
        keystream_block k 0
      rw [hlen, hctr, ← hfirst, Fin.val_zero, Nat.add_zero]
    · intro j hj
      simp only [length_tail, length_ofFn] at hj
      have hlt : j + 1 < bs := Nat.add_lt_of_lt_sub hj
      have hnext : keystream E iv (bs * k + (j + 1)) = E (iv + BitVec.ofNat w k) ⟨j + 1, hlt⟩ :=
        keystream_block k ⟨j + 1, hlt⟩
      rw [getElem?_tail, List.getElem?_ofFn, dif_pos hlt, hlen, hctr, ← hnext, Nat.add_assoc,
        Nat.add_comm 1 j]
    · rw [hctr, BitVec.add_assoc, BitVec.ofNat_add]
      rfl
    · simp only [length_tail, length_ofFn]
      have := Nat.pos_of_neZero bs
      rw [hlen, Nat.mul_succ]
      omega
  · simp only [hs, length_cons] at hlen hout ⊢
    refine ⟨?_, ?_, k, hctr, ?_⟩
    · simpa using hout 0 (Nat.succ_pos _)
    · intro j hj
      have := hout (j + 1) (Nat.succ_lt_succ hj)
      rw [getElem?_cons_succ] at this
      rw [this, Nat.add_assoc, Nat.add_comm 1 j]
    · simp only
      omega

theorem At.xorKeyStream {i : Nat} {s : Stream w κ} (h : At E iv i s) (l : List α) :
    (xorKeyStream E mix s l).1 = mixed mix (keystream E iv) i l ∧
    At E iv (i + l.length) (xorKeyStream E mix s l).2 := by
  induction l generalizing i s with
  | nil => exact ⟨rfl, h⟩
  | cons _ _ ih =>
    obtain ⟨hdraw, hat⟩ := h.draw
    obtain ⟨hmixed, hend⟩ := ih hat
    simp only [Ctr.xorKeyStream, mixed_cons, length_cons]
    refine ⟨by rw [hdraw, hmixed], ?_⟩
    rwa [Nat.add_assoc, Nat.add_comm 1] at hend

end Base.Ctr
