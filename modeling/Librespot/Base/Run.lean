import Mathlib.Data.List.Basic
import Mathlib.Tactic.Common

/-!
# Runs of a labelled step function

A system is a state type, a label type and a partial step. `none` means that the
label is not enabled in that state, or that the program crashes there: either way
the run ends. All the choices of an environment are in the labels.
-/

theorem Option.run_eq_some.{u} {α β : Type u} {x : Option α} {f : α → Option β} {b : β} :
    (x >>= f) = some b ↔ ∃ a, x = some a ∧ f a = some b :=
  Option.bind_eq_some_iff

theorem Option.map_snd_eq_some {α β : Type*} {x : Option (α × β)} {b : β} :
    x.map (·.2) = some b ↔ ∃ a, x = some (a, b) := by
  simp

namespace Base.Run

variable {σ α : Type*} (step : σ → α → Option σ)

def exec : σ → List α → Option σ
  | s, [] => some s
  | s, a :: as => (step s a).bind fun s' => exec s' as

/-- `I` holds in every state that the run reaches. -/
def Always (I : σ → Prop) : σ → List α → Prop
  | s, [] => I s
  | s, a :: as => I s ∧ ∀ s', step s a = some s' → Always I s' as

/-- Every step that the run takes meets `C`, a condition on its label and the state before it. -/
def Meets (C : σ → α → Prop) : σ → List α → Prop
  | _, [] => True
  | s, a :: as => ∀ s', step s a = some s' → C s a ∧ Meets C s' as

/-- `I` holds in every state up to the first step that `E` is about, if there is one. -/
def Until (I : σ → Prop) (E : σ → α → Prop) : σ → List α → Prop
  | s, [] => I s
  | s, a :: as => I s ∧ ∀ s', step s a = some s' → E s a ∨ Until I E s' as

instance (C : σ → α → Prop) [∀ s a, Decidable (C s a)] : ∀ s as, Decidable (Meets step C s as)
  | _, [] => .isTrue trivial
  | s, a :: as =>
    match h : step s a with
    | none => .isTrue fun _ hs' => nomatch h.symm.trans hs'
    | some s' =>
      have : Decidable (Meets step C s' as) := instDecidableMeets C s' as
      decidable_of_iff (C s a ∧ Meets step C s' as)
        ⟨fun hc _ hs' => Option.some.inj (h.symm.trans hs') ▸ hc, fun hm => hm s' h⟩

variable {step} {as : List α} {I J : σ → Prop} {s t : σ} {C : σ → α → Prop} {L : α → Prop}

@[simp] theorem exec_nil (s : σ) : exec step s [] = some s := rfl

theorem exec_cons (s : σ) (a : α) (as : List α) :
    exec step s (a :: as) = (step s a).bind fun s' => exec step s' as := rfl

theorem exec_get (h : (exec step s as).isSome = true) :
    exec step s as = some ((exec step s as).get h) :=
  (Option.some_get h).symm

theorem exec_cons_eq_some {a : α} :
    exec step s (a :: as) = some t ↔ ∃ s', step s a = some s' ∧ exec step s' as = some t := by
  rw [exec_cons, Option.bind_eq_some_iff]

theorem exec_append (s : σ) (as bs : List α) :
    exec step s (as ++ bs) = (exec step s as).bind fun t => exec step t bs := by
  induction as generalizing s with
  | nil => rfl
  | cons _ _ ih =>
    rw [List.cons_append, exec_cons, exec_cons, Option.bind_assoc]
    exact congrArg _ (funext ih)

theorem exec_invariant (hstep : ∀ s a s', I s → step s a = some s' → I s') (hs : I s)
    (h : exec step s as = some t) : I t := by
  induction as generalizing s with
  | nil => simp only [exec_nil, Option.some.injEq] at h; exact h ▸ hs
  | cons a _ ih =>
    obtain ⟨s', h1, h2⟩ := exec_cons_eq_some.mp h
    exact ih (hstep s a s' hs h1) h2

theorem exec_invariant_of_labels (hstep : ∀ s a s', I s → L a → step s a = some s' → I s')
    (hs : I s) (hL : ∀ a ∈ as, L a) (h : exec step s as = some t) : I t := by
  induction as generalizing s with
  | nil => simp only [exec_nil, Option.some.injEq] at h; exact h ▸ hs
  | cons a _ ih =>
    obtain ⟨s', h1, h2⟩ := exec_cons_eq_some.mp h
    refine ih (hstep s a s' hs (hL a List.mem_cons_self) h1) ?_ h2
    exact fun b hb => hL b (List.mem_cons_of_mem a hb)

theorem meets_of_labels (hL : ∀ a ∈ as, L a) : Meets step (fun _ a => L a) s as := by
  induction as generalizing s with
  | nil => trivial
  | cons a _ ih =>
    intro s' _
    exact ⟨hL a List.mem_cons_self, ih fun b hb => hL b (List.mem_cons_of_mem a hb)⟩

theorem Meets.last {t' : σ} {a : α} (h : Meets step C s (as ++ [a])) (ht : exec step s as = some t)
    (ha : step t a = some t') : C t a := by
  induction as generalizing s with
  | nil =>
    cases ht
    exact (h t' ha).1
  | cons _ _ ih =>
    obtain ⟨s', h1, h2⟩ := exec_cons_eq_some.mp ht
    exact ih (h s' h1).2 h2

theorem always_of_meets (hstep : ∀ s a s', I s → C s a → step s a = some s' → I s') (hs : I s)
    (hm : Meets step C s as) : Always step I s as := by
  induction as generalizing s with
  | nil => exact hs
  | cons a _ ih =>
    refine ⟨hs, fun s' h => ?_⟩
    obtain ⟨hc, hm⟩ := hm s' h
    exact ih (hstep s a s' hs hc h) hm

theorem always_of_step (hstep : ∀ s a s', I s → step s a = some s' → I s')
    (hs : I s) (as : List α) : Always step I s as :=
  always_of_meets (fun s a s' hs _ => hstep s a s' hs) hs
    (meets_of_labels (L := fun _ => True) fun _ _ => trivial)

theorem meets_of_invariant {D : σ → α → Prop}
    (hstep : ∀ s a s', I s → C s a → step s a = some s' → I s')
    (hD : ∀ s a s', I s → C s a → step s a = some s' → D s a) (hs : I s) (hm : Meets step C s as) :
    Meets step D s as := by
  induction as generalizing s with
  | nil => trivial
  | cons a _ ih =>
    intro s' h
    obtain ⟨hc, hm⟩ := hm s' h
    exact ⟨hD s a s' hs hc h, ih (hstep s a s' hs hc h) hm⟩

theorem Always.head (h : Always step I s as) : I s := by
  cases as with
  | nil => exact h
  | cons => exact h.1

theorem Always.last (h : Always step I s as) (ht : exec step s as = some t) : I t := by
  induction as generalizing s with
  | nil =>
    simp only [exec_nil, Option.some.injEq] at ht
    exact ht ▸ h
  | cons _ _ ih =>
    obtain ⟨s', h1, h2⟩ := exec_cons_eq_some.mp ht
    exact ih (h.2 s' h1) h2

theorem Always.imp (h : Always step I s as) (hIJ : ∀ s, I s → J s) : Always step J s as := by
  induction as generalizing s with
  | nil => exact hIJ s h
  | cons _ _ ih => exact ⟨hIJ s h.1, fun s' hs => ih (h.2 s' hs)⟩

theorem until_of_meets {E : σ → α → Prop}
    (hstep : ∀ s a s', I s → C s a → step s a = some s' → E s a ∨ I s') (hs : I s)
    (hm : Meets step C s as) : Until step I E s as := by
  induction as generalizing s with
  | nil => exact hs
  | cons a _ ih =>
    refine ⟨hs, fun s' h => ?_⟩
    obtain ⟨hc, hm⟩ := hm s' h
    exact (hstep s a s' hs hc h).imp_right fun hs' => ih hs' hm

theorem Until.imp {E : σ → α → Prop}
    (h : Until step I E s as) (hIJ : ∀ s, I s → J s) : Until step J E s as := by
  induction as generalizing s with
  | nil => exact hIJ s h
  | cons _ _ ih => exact ⟨hIJ s h.1, fun s' hs => (h.2 s' hs).imp_right ih⟩

/-- Where steps with labels in `L` keep the invariant `I` under `C` and break `J` without it, `C`
says exactly which runs keep `J`. -/
theorem always_iff_meets (hIJ : ∀ s, I s → J s)
    (hkeep : ∀ s a s', I s → L a → C s a → step s a = some s' → I s')
    (hbreak : ∀ s a s', I s → L a → step s a = some s' → J s' → C s a) (hs : I s)
    (hL : ∀ a ∈ as, L a) : Always step J s as ↔ Meets step C s as := by
  induction as generalizing s with
  | nil => exact ⟨fun _ => trivial, fun _ => hIJ s hs⟩
  | cons a as ih =>
    have ha : L a := hL a List.mem_cons_self
    have has : ∀ b ∈ as, L b := fun b hb => hL b (List.mem_cons_of_mem a hb)
    constructor
    · rintro ⟨-, h⟩ s' hs'
      have hc : C s a := hbreak s a s' hs ha hs' (h s' hs').head
      exact ⟨hc, (ih (hkeep s a s' hs ha hc hs') has).mp (h s' hs')⟩
    · intro h
      refine ⟨hIJ s hs, fun s' hs' => ?_⟩
      obtain ⟨hc, hm⟩ := h s' hs'
      exact (ih (hkeep s a s' hs ha hc hs') has).mpr hm

theorem meets_iff_meets {D : σ → α → Prop}
    (hiff : ∀ s a s', I s → step s a = some s' → (C s a ↔ D s a))
    (hkeep : ∀ s a s', I s → D s a → step s a = some s' → I s') (hs : I s) :
    Meets step C s as ↔ Meets step D s as := by
  induction as generalizing s with
  | nil => exact Iff.rfl
  | cons a _ ih =>
    constructor
    · intro h s' hs'
      obtain ⟨hc, hm⟩ := h s' hs'
      have hd : D s a := (hiff s a s' hs hs').mp hc
      exact ⟨hd, (ih (hkeep s a s' hs hd hs')).mp hm⟩
    · intro h s' hs'
      obtain ⟨hd, hm⟩ := h s' hs'
      exact ⟨(hiff s a s' hs hs').mpr hd, (ih (hkeep s a s' hs hd hs')).mpr hm⟩

end Base.Run
