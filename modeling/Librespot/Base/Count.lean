import Mathlib.Data.List.Basic

/-! # Counting the entries of a list when one of them changes -/

open List

namespace Base.Count

variable {α : Type*} {p : α → Bool} {l : List α} {i : Nat} {a : α}

theorem countP_modify (f : α → α) (h : l[i]? = some a) :
    (l.modify i f).countP p + (p a).toNat = l.countP p + (p (f a)).toNat := by
  induction l generalizing i with
  | nil => simp at h
  | cons b _ ih =>
    rcases i with _ | i
    · obtain rfl : b = a := by simpa using h
      simp only [modify_zero_cons, countP_cons]
      cases p b <;> cases p (f b) <;> simp
    · rw [getElem?_cons_succ] at h
      have := ih h
      simp only [modify_succ_cons, countP_cons]
      omega

theorem countP_set (b : α) (h : l[i]? = some a) :
    (l.set i b).countP p + (p a).toNat = l.countP p + (p b).toNat := by
  rw [set_eq_modify]
  exact countP_modify (fun _ => b) h

end Base.Count
