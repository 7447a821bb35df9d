import Librespot.Daemon.ActiveUser
import Librespot.Daemon.Forwarding

/-!
# One `setSession` for the users and the requests

For the users a call of `setSession` is one step. For the requests it goes on after the mutex is
given back, and the end of a `Run` takes three steps. Both see one session in place all the
time, however the steps interleave: it changes under the mutex only.
-/

open Base.Run Option

namespace Librespot.Daemon

namespace Forwarding

variable {players : Nat → Session} {u : Users} {f f' : Forwarding} {ev : Event}

/-- The step as the users see it. `players k` is the session that is installed as number `k`. -/
def users (players : Nat → Session) (f : Forwarding) (u : Users) : Event → Option Users
  | .setSession true => some (u.setSession (some (players f.sessions.length)))
  | .setSession false => some (u.setSession none)
  | .dropEnded k => u.step (.runEnds (players k).player)
  | _ => some u

/-- Both have the same session in place. -/
def Mirrors (players : Nat → Session) (u : Users) (f : Forwarding) : Prop :=
  u.current = f.current.map players

theorem step_current (h : f.step ev = some f') (hset : ∀ install, ev ≠ .setSession install)
    (hdrop : ∀ k, ev ≠ .dropEnded k) : f'.current = f.current := by
  have hretire (k : Option Nat) : (f.retire k).current = f.current := by cases k <;> rfl
  have hstart (k : Option Nat) : (f.start k).current = f.current := by cases k <;> rfl
  cases ev with
  | setSession install => exact absurd rfl (hset install)
  | dropEnded k => exact absurd rfl (hdrop k)
  | _ => grind [step, modifySession]

theorem step_mirrors (hinj : Function.Injective fun k => (players k).player)
    (hm : Mirrors players u f) (h : f.step ev = some f') :
    ∃ u', f.users players u ev = some u' ∧ Mirrors players u' f' := by
  cases ev with
  | setSession install => cases install <;> exact ⟨_, rfl, by cases h; rfl⟩
  | dropEnded k =>
    simp only [step, ite_none_right_eq_some, some.injEq] at h
    obtain ⟨-, rfl⟩ := h
    refine ⟨_, rfl, ?_⟩
    have hplace : u.current.any (·.player = (players k).player) = true ↔ f.current = some k := by
      rw [hm]
      cases f.current with
      | none => simp
      | some j => simpa using hinj.eq_iff
    simp only [Mirrors, hplace]
    split
    · rfl
    · exact hm
  | _ => exact ⟨u, rfl, by rw [Mirrors, step_current h (by simp) (by simp)]; exact hm⟩

/-- The requests' steps and what the users see of them. -/
def both (players : Nat → Session) (s : Forwarding × Users) (ev : Event) :
    Option (Forwarding × Users) := do
  let f ← s.1.step ev
  let u ← s.1.users players s.2 ev
  return (f, u)

/-- However the calls interleave, the users never block a step and have its session in place. -/
theorem mirrors_of_run (hinj : Function.Injective fun k => (players k).player)
    {evs : List Event} (hm : Mirrors players u f) (hrun : exec step f evs = some f') :
    ∃ u', exec (both players) (f, u) evs = some (f', u') ∧ Mirrors players u' f' := by
  induction evs generalizing f u with
  | nil => exact ⟨u, by simpa using hrun, by cases hrun; exact hm⟩
  | cons ev evs ih =>
    obtain ⟨g, hg, hrun⟩ := exec_cons_eq_some.mp hrun
    obtain ⟨v, hv, hmv⟩ := step_mirrors hinj hm hg
    obtain ⟨u', hu', hm'⟩ := ih hmv hrun
    refine ⟨u', exec_cons_eq_some.mpr ⟨(g, v), ?_, hu'⟩, hm'⟩
    simp [both, hg, hv]

end Forwarding

end Librespot.Daemon
