import Librespot.Tracks.PagedList

/-!
# Shuffling is a list of exchanges

`shuffle` makes one exchange per draw, and `unshuffle` makes the same exchanges
in reverse order: whatever the generator draws, the second undoes the first.
-/

open Base.Exchange List

namespace Librespot.Tracks

variable {α : Type}

namespace PagedList

def swaps (g : Rand) : Nat → g.Source → List (Nat × Nat)
  | 0, _ => []
  | i + 1, rnd => (i + 1, (g.intn rnd (i + 2)).1) :: swaps g i (g.intn rnd (i + 2)).2

theorem shuffleLoop_eq (g : Rand) (i : Nat) (rnd : g.Source) (l : PagedList α) :
    shuffleLoop g i rnd l = l.exchanges (swaps g i rnd) := by
  induction i generalizing rnd l with
  | zero => rfl
  | succ _ ih =>
    unfold shuffleLoop swaps
    rw [exchanges_cons]
    exact ih _ _

theorem swaps_le (g : Rand) (i : Nat) (rnd : g.Source) :
    ∀ e ∈ swaps g i rnd, e.1 ≤ i ∧ e.2 ≤ i := by
  induction i generalizing rnd with
  | zero => intro e he; simp [swaps] at he
  | succ i ih =>
    intro e he
    unfold swaps at he
    rcases mem_cons.mp he with rfl | he
    · have := g.intn_lt rnd (i + 2) (by omega)
      exact ⟨le_refl _, by simp only; omega⟩
    · have := ih _ e he
      omega

theorem shuffle_eq (g : Rand) (rnd : g.Source) (l : PagedList α) :
    l.shuffle g rnd = l.exchanges (swaps g (l.list.length - 1) rnd) := by
  unfold shuffle
  split
  · rw [show l.list.length - 1 = 0 by omega]
    rfl
  · exact shuffleLoop_eq g _ rnd l

theorem reverse_swaps (g : Rand) (k : Nat) (rnd : g.Source) :
    (List.range' 1 k).map (fun i => (i, (draws g k rnd).getD (k - i) 0)) =
      (swaps g k rnd).reverse := by
  induction k generalizing rnd with
  | zero => rfl
  | succ k ih =>
    unfold draws swaps
    rw [reverse_cons, ← ih, range'_concat, map_append]
    congr 1
    · apply map_congr_left
      intro i hi
      have hik : i ≤ k := by
        have := mem_range'_1.mp hi
        omega
      rw [show k + 1 - i = (k - i) + 1 by omega, getD_cons_succ]
    · simp [Nat.add_comm]

theorem unshuffle_eq (g : Rand) (rnd : g.Source) (l : PagedList α) :
    l.unshuffle g rnd = l.exchanges (swaps g (l.list.length - 1) rnd).reverse := by
  unfold unshuffle
  split
  · rw [show l.list.length - 1 = 0 by omega]
    rfl
  · rw [← reverse_swaps]
    unfold Marked.exchanges
    rw [foldl_map]
    simp only [show ∀ i, l.list.length - i - 1 = l.list.length - 1 - i by omega]

theorem swaps_lt (g : Rand) (rnd : g.Source) (l : PagedList α) (hne : 0 < l.list.length) :
    ∀ e ∈ swaps g (l.list.length - 1) rnd, e.1 < l.list.length ∧ e.2 < l.list.length := by
  intro e he
  have := swaps_le g _ rnd e he
  omega

/-- A shuffle only reorders the entries, the cursor goes with its entry, and unshuffling with the
same source gives the list back. -/
theorem shuffle_undone (g : Rand) (rnd : g.Source) (l : PagedList α) :
    (l.shuffle g rnd).list.Perm l.list ∧ (l.shuffle g rnd).entry = l.entry ∧
      (l.shuffle g rnd).unshuffle g rnd = l := by
  rw [unshuffle_eq, shuffle_eq, length_exchanges]
  refine ⟨perm_exchanges _ _, entry_exchanges _ _ fun e he => ?_, exchanges_reverse _ _⟩
  rcases Nat.eq_zero_or_pos l.list.length with hnil | hne
  · simp [hnil, swaps] at he
  · exact swaps_lt g rnd l hne e he

end PagedList

end Librespot.Tracks
