import Mathlib.Logic.Function.Basic
import Mathlib.Tactic.Common

/-!
# Replies matched to calls by a number

A goroutine numbers the calls that it takes and keeps them in a table until their reply arrives.
Each call waits at a buffer with one place, and it may leave before its reply comes.
-/

open List Option

namespace Base

/-- A call: what it asks for, the number it was given, and every reply that was put into its
buffer. -/
structure Call (δ ν ρ : Type*) where
  data : δ
  number : ν
  waits : Bool := true
  buffer : Option ρ := none
  replies : List ρ := []

/-- `stuck` when a reply met a full buffer. -/
structure Pump (δ ν ρ : Type*) where
  pending : ν → Option Nat := fun _ => none
  calls : List (Call δ ν ρ) := []
  stuck : Bool := false

variable {δ ν ρ : Type*}

def Call.put (r : ρ) (c : Call δ ν ρ) : Call δ ν ρ :=
  { c with buffer := some r, replies := c.replies ++ [r] }

namespace Pump

def put (i : Nat) (r : ρ) (p : Pump δ ν ρ) : Pump δ ν ρ :=
  match p.calls[i]? with
  | none => p
  | some c =>
    if c.buffer.isSome then { p with stuck := true }
    else { p with calls := p.calls.set i (c.put r) }

def enter [DecidableEq ν] (data : δ) (n : ν) (p : Pump δ ν ρ) : Pump δ ν ρ :=
  { p with
    pending := Function.update p.pending n (some p.calls.length)
    calls := p.calls ++ [{ data, number := n }] }

def refuse (data : δ) (n : ν) (r : ρ) (p : Pump δ ν ρ) : Pump δ ν ρ :=
  put p.calls.length r { p with calls := p.calls ++ [{ data, number := n }] }

def answer [DecidableEq ν] (n : ν) (r : ρ) (p : Pump δ ν ρ) : Pump δ ν ρ :=
  match p.pending n with
  | none => p
  | some i => put i r { p with pending := Function.update p.pending n none }

def collect (i : Nat) (p : Pump δ ν ρ) : Option (Pump δ ν ρ) :=
  match p.calls[i]? with
  | none => none
  | some c =>
    if c.waits ∧ c.buffer.isSome then
      some { p with calls := p.calls.set i { c with waits := false, buffer := none } }
    else none

def leave (i : Nat) (p : Pump δ ν ρ) : Option (Pump δ ν ρ) :=
  match p.calls[i]? with
  | none => none
  | some c =>
    if c.waits then some { p with calls := p.calls.set i { c with waits := false } } else none

theorem calls_refuse (data : δ) (n : ν) (r : ρ) (p : Pump δ ν ρ) :
    (p.refuse data n r).calls = p.calls ++ [Call.put r { data, number := n }] := by
  simp [refuse, put]

theorem calls_answer_enter [DecidableEq ν] (data : δ) (n : ν) (r : ρ) (p : Pump δ ν ρ) :
    ((p.enter data n).answer n r).calls = p.calls ++ [Call.put r { data, number := n }] := by
  simp [enter, answer, put]

/-! ## Every reply goes to one call, under its number -/

structure Orderly (R : δ → ν → ρ → Prop) (p : Pump δ ν ρ) : Prop where
  free : p.stuck = false
  once : ∀ c ∈ p.calls, c.replies.length ≤ 1
  right : ∀ c ∈ p.calls, ∀ r ∈ c.replies, R c.data c.number r

structure Matched (R : δ → ν → ρ → Prop) (p : Pump δ ν ρ) : Prop extends Orderly R p where
  entered : ∀ n i, p.pending n = some i →
    ∃ c, p.calls[i]? = some c ∧ c.number = n ∧ c.buffer = none ∧ c.replies = []

variable {R : δ → ν → ρ → Prop} {p p' : Pump δ ν ρ}

theorem matched_empty : Matched R ({} : Pump δ ν ρ) :=
  ⟨⟨rfl, by simp, by simp⟩, by simp⟩

variable {i : Nat} {n : ν}

theorem Matched.put {r : ρ} {c : Call δ ν ρ} (hp : Matched R p) (hc : p.calls[i]? = some c)
    (hbuffer : c.buffer = none) (hnone : c.replies = []) (hout : ∀ n, p.pending n ≠ some i)
    (hr : R c.data c.number r) : Matched R (p.put i r) := by
  have hput : p.put i r = { p with calls := p.calls.set i (c.put r) } := by
    simp [Pump.put, hc, hbuffer]
  rw [hput]
  refine ⟨⟨hp.free, fun d hd => ?_, fun d hd q hq => ?_⟩, fun n j hj => ?_⟩
  · rcases mem_or_eq_of_mem_set hd with hd | rfl
    · exact hp.once d hd
    · simp [Call.put, hnone]
  · rcases mem_or_eq_of_mem_set hd with hd | rfl
    · exact hp.right d hd q hq
    · obtain rfl : q = r := by simpa [Call.put, hnone] using hq
      exact hr
  · obtain ⟨d, hd, hrest⟩ := hp.entered n j hj
    have hne : i ≠ j := fun hij => hout n (hij ▸ hj)
    exact ⟨d, by rw [getElem?_set_ne hne, hd], hrest⟩

theorem Matched.append (hp : Matched R p) (data : δ) (n : ν) :
    Matched R { p with calls := p.calls ++ [{ data, number := n }] } := by
  refine ⟨⟨hp.free, fun c hc => ?_, fun c hc => ?_⟩, fun m i hi => ?_⟩
  · rcases mem_append.mp hc with hc | hc
    · exact hp.once c hc
    · simp [mem_singleton.mp hc]
  · rcases mem_append.mp hc with hc | hc
    · exact hp.right c hc
    · simp [mem_singleton.mp hc]
  · obtain ⟨c, hc, hrest⟩ := hp.entered m i hi
    exact ⟨c, by rw [getElem?_append_left (List.getElem?_eq_some_iff.mp hc).1, hc], hrest⟩

theorem Matched.lt_length (hp : Matched R p) (h : p.pending n = some i) : i < p.calls.length := by
  obtain ⟨c, hc, -⟩ := hp.entered n i h
  exact (List.getElem?_eq_some_iff.mp hc).1

theorem Matched.enter [DecidableEq ν] (hp : Matched R p) (data : δ) (n : ν) :
    Matched R (p.enter data n) := by
  have happ := hp.append data n
  refine ⟨⟨happ.free, happ.once, happ.right⟩, fun m i hi => ?_⟩
  by_cases hm : m = n
  · subst hm
    obtain rfl : p.calls.length = i := by simpa [Pump.enter] using hi
    exact ⟨{ data, number := m }, by simp [Pump.enter], rfl, rfl, rfl⟩
  · exact happ.entered m i ((Function.update_of_ne hm _ _).symm.trans hi)

theorem Matched.refuse (hp : Matched R p) {data : δ} {r : ρ} (hr : R data n r) :
    Matched R (p.refuse data n r) := by
  refine (hp.append data n).put (c := { data, number := n }) (by simp) rfl rfl (fun m hm => ?_) hr
  exact absurd (hp.lt_length hm) (Nat.lt_irrefl _)

theorem Matched.remove [DecidableEq ν] (hp : Matched R p) (n : ν) :
    Matched R { p with pending := Function.update p.pending n none } := by
  refine ⟨⟨hp.free, hp.once, hp.right⟩, fun m i hi => ?_⟩
  by_cases hm : m = n
  · subst hm
    simp at hi
  · exact hp.entered m i ((Function.update_of_ne hm _ _).symm.trans hi)

theorem Matched.answer [DecidableEq ν] (hp : Matched R p) {r : ρ}
    (hr : ∀ i c, p.pending n = some i → p.calls[i]? = some c → R c.data n r) :
    Matched R (p.answer n r) := by
  unfold Pump.answer
  cases hn : p.pending n with
  | none => exact hp
  | some i =>
    obtain ⟨c, hc, hnumber, hbuffer, hnone⟩ := hp.entered n i hn
    refine (hp.remove n).put hc hbuffer hnone (fun m hm => ?_) (hnumber ▸ hr i c hn hc)
    -- two numbers of one call would be equal, and the one of this call is no longer in the table
    by_cases hmn : m = n
    · subst hmn
      simp at hm
    · obtain ⟨c', hc', hnumber', -⟩ :=
        hp.entered m i ((Function.update_of_ne hmn _ _).symm.trans hm)
      obtain rfl : c' = c := some.inj (hc'.symm.trans hc)
      exact hmn (hnumber'.symm.trans hnumber)

theorem Matched.mem_answer [DecidableEq ν] (hp : Matched R p) (h : p.pending n = some i)
    (r : ρ) : ∃ c ∈ (p.answer n r).calls, r ∈ c.replies := by
  obtain ⟨c, hc, -, hbuffer, -⟩ := hp.entered n i h
  refine ⟨c.put r, ?_, by simp [Call.put]⟩
  simp only [Pump.answer, h, Pump.put, hc, hbuffer, isSome_none, Bool.false_eq_true, if_false]
  exact mem_set (List.getElem?_eq_some_iff.mp hc).1 _

theorem Matched.modify (hp : Matched R p) {c c' : Call δ ν ρ} (hc : p.calls[i]? = some c)
    (hdata : c'.data = c.data) (hnumber : c'.number = c.number)
    (hreplies : c'.replies = c.replies) (hbuffer : c.buffer = none → c'.buffer = none) :
    Matched R { p with calls := p.calls.set i c' } := by
  have hmem : c ∈ p.calls := mem_of_getElem? hc
  refine ⟨⟨hp.free, fun d hd => ?_, fun d hd => ?_⟩, fun n j hj => ?_⟩
  · rcases mem_or_eq_of_mem_set hd with hd | rfl
    · exact hp.once d hd
    · exact hreplies ▸ hp.once c hmem
  · rcases mem_or_eq_of_mem_set hd with hd | rfl
    · exact hp.right d hd
    · rw [hdata, hnumber, hreplies]
      exact hp.right c hmem
  · obtain ⟨d, hd, hn, hb, hr⟩ := hp.entered n j hj
    by_cases hij : i = j
    · subst hij
      obtain rfl : d = c := some.inj (hd.symm.trans hc)
      refine ⟨c', ?_, hnumber.trans hn, hbuffer hb, hreplies.trans hr⟩
      rw [getElem?_set_self (List.getElem?_eq_some_iff.mp hc).1]
    · exact ⟨d, by rw [getElem?_set_ne hij, hd], hn, hb, hr⟩

theorem Matched.collect (hp : Matched R p) (h : p.collect i = some p') : Matched R p' := by
  unfold Pump.collect at h
  split at h
  · simp at h
  · rename_i c hc
    split at h
    · cases h
      exact hp.modify hc rfl rfl rfl fun _ => rfl
    · simp at h

theorem Matched.leave (hp : Matched R p) (h : p.leave i = some p') : Matched R p' := by
  unfold Pump.leave at h
  split at h
  · simp at h
  · rename_i c hc
    split at h
    · cases h
      exact hp.modify hc rfl rfl rfl id
    · simp at h

end Pump

end Base
