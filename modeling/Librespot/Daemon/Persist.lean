import Librespot.Base.Run
import Librespot.Ids

/-!
# Saving the state in the background (`daemon/app.go`)

Each label is one critical section of `stateMu`, or the `go` statement between two of them. A save
succeeds and stores the state it is given.
-/

open Base.Run List Option

namespace Librespot.Daemon

structure AppCredentials where
  username : String := ""
  data : Bytes := []
deriving DecidableEq, Repr

structure AppState where
  lastVolume : Option UInt32 := none
  credentials : AppCredentials := {}
deriving DecidableEq, Repr

inductive StateChange where
  | volume (newVal : UInt32)
  | credentials (creds : AppCredentials)
deriving DecidableEq, Repr

def AppState.apply (state : AppState) : StateChange → AppState
  | .volume newVal => { state with lastVolume := some newVal }
  | .credentials credentials => { state with credentials }

inductive Saver where
  | checking
  | saving
deriving DecidableEq, Repr

/-- `savers` are the goroutines that run. The other fields from `made` on are history. The changes
are numbered as they were made; `saved` of them are in the stored state. Of the calls of
`requestPersist` that came after a change, `starting` are those before the `go` statement. -/
structure Persist where
  state : AppState := {}
  stored : AppState := {}
  saving : Bool := false
  saveDirty : Bool := false
  savers : List Saver := []
  made : List StateChange := []
  saved : Nat := 0
  starting : List Nat := []
  returned : List Nat := []
deriving DecidableEq, Repr

namespace Persist

inductive Op where
  | change (c : StateChange)
  | request (change : Nat)
  | start (change : Nat)
  | persist
  | saver (goroutine : Nat)
deriving DecidableEq, Repr

def persistState (p : Persist) : Persist := { p with stored := p.state, saved := p.made.length }

def requestPersist (p : Persist) (change : Nat) : Persist :=
  let p := { p with saveDirty := true }
  if p.saving then { p with returned := change :: p.returned }
  else { p with saving := true, starting := change :: p.starting }

def saverStep (p : Persist) (goroutine : Nat) : Option Persist :=
  match p.savers[goroutine]? with
  | none => none
  | some .checking =>
    if p.saveDirty then
      some { p with saveDirty := false, savers := p.savers.set goroutine .saving }
    else some { p with saving := false, savers := p.savers.eraseIdx goroutine }
  | some .saving => some { p.persistState with savers := p.savers.set goroutine .checking }

def step (p : Persist) : Op → Option Persist
  | .change c => some { p with state := p.state.apply c, made := p.made ++ [c] }
  | .request change => if change < p.made.length then some (p.requestPersist change) else none
  | .start change =>
    if change ∈ p.starting then
      some { p with
        starting := p.starting.erase change
        returned := change :: p.returned
        savers := p.savers ++ [.checking] }
    else none
  | .persist => some p.persistState
  | .saver goroutine => p.saverStep goroutine

def new (initial : AppState) : Persist := { state := initial, stored := initial }

/-! ## Nothing is lost -/

structure Inv (initial : AppState) (p : Persist) : Prop where
  one : p.starting.length + p.savers.length = p.saving.toNat
  dirty : p.saveDirty = true → p.saving = true
  state : p.state = p.made.foldl AppState.apply initial
  stored : p.stored = (p.made.take p.saved).foldl AppState.apply initial
  made : ∀ i ∈ p.starting ++ p.returned, i < p.made.length
  requested : ∀ i ∈ p.starting ++ p.returned,
    i < p.saved ∨ p.saveDirty = true ∨ .saving ∈ p.savers
  saved : p.saved ≤ p.made.length

variable {initial : AppState} {p p' : Persist}

theorem inv_new (initial : AppState) : (new initial).Inv initial where
  one := rfl
  dirty h := by simp [new] at h
  state := rfl
  stored := rfl
  made i hi := by simp [new] at hi
  requested i hi := by simp [new] at hi
  saved := Nat.le_refl 0

theorem Inv.change (hp : p.Inv initial) (c : StateChange) :
    ({ p with state := p.state.apply c, made := p.made ++ [c] } : Persist).Inv initial where
  one := hp.one
  dirty := hp.dirty
  state := by rw [foldl_append, ← hp.state]; rfl
  stored := by rw [take_append_of_le_length hp.saved]; exact hp.stored
  made i hi := by
    have hlt := hp.made i hi
    simp only [length_append]
    omega
  requested := hp.requested
  saved := by
    have hle := hp.saved
    simp only [length_append]
    omega

theorem Inv.persistState (hp : p.Inv initial) : p.persistState.Inv initial where
  one := hp.one
  dirty := hp.dirty
  state := hp.state
  stored := by
    simp only [Persist.persistState, take_length]
    exact hp.state
  made := hp.made
  requested i hi := .inl (hp.made i hi)
  saved := Nat.le_refl _

theorem Inv.requestPersist (hp : p.Inv initial) {change : Nat} (h : change < p.made.length) :
    (p.requestPersist change).Inv initial := by
  have hone := hp.one
  unfold Persist.requestPersist
  by_cases hsaving : p.saving = true
  · simp only [hsaving, if_true]
    refine ⟨by simpa [hsaving] using hone, fun _ => rfl, hp.state, hp.stored, ?_,
      fun i _ => .inr (.inl rfl), hp.saved⟩
    intro i hi
    rcases mem_append.mp hi with hi | hi
    · exact hp.made i (mem_append_left _ hi)
    · rcases mem_cons.mp hi with rfl | hi
      · exact h
      · exact hp.made i (mem_append_right _ hi)
  · have hnot : p.saving = false := by simpa using hsaving
    simp only [hnot, Bool.false_eq_true, if_false]
    refine ⟨?_, fun _ => rfl, hp.state, hp.stored, ?_, fun i _ => .inr (.inl rfl), hp.saved⟩
    · simp only [hnot, Bool.toNat_false] at hone
      simp only [length_cons, Bool.toNat_true]
      omega
    · rw [cons_append]
      exact forall_mem_cons.mpr ⟨h, hp.made⟩

theorem Inv.start (hp : p.Inv initial) {change : Nat} (h : change ∈ p.starting) :
    ({ p with
      starting := p.starting.erase change
      returned := change :: p.returned
      savers := p.savers ++ [.checking] } : Persist).Inv initial := by
  have hsub : ∀ i ∈ p.starting.erase change ++ change :: p.returned,
      i ∈ p.starting ++ p.returned := by
    intro i hi
    rcases mem_append.mp hi with hi | hi
    · exact mem_append_left _ (mem_of_mem_erase hi)
    · rcases mem_cons.mp hi with rfl | hi
      · exact mem_append_left _ h
      · exact mem_append_right _ hi
  refine ⟨?_, hp.dirty, hp.state, hp.stored, fun i hi => hp.made i (hsub i hi), fun i hi => ?_,
    hp.saved⟩
  · have hpos := length_pos_of_mem h
    have hone := hp.one
    simp only [length_erase_of_mem h, length_append, length_singleton]
    omega
  · exact (hp.requested i (hsub i hi)).imp_right (Or.imp_right (mem_append_left _))

theorem Inv.only (hp : p.Inv initial) {goroutine : Nat} {phase : Saver}
    (h : p.savers[goroutine]? = some phase) :
    goroutine = 0 ∧ p.savers = [phase] ∧ p.starting = [] ∧ p.saving = true := by
  obtain ⟨hlt, hphase⟩ := List.getElem?_eq_some_iff.mp h
  have hone := hp.one
  have hle := p.saving.toNat_le
  obtain ⟨q, hq⟩ := length_eq_one_iff.mp (by omega : p.savers.length = 1)
  have hstarting : p.starting = [] := length_eq_zero_iff.mp (by omega)
  have hzero : goroutine = 0 := by omega
  subst hzero
  simp only [hq, getElem_cons_zero] at hphase
  refine ⟨rfl, by rw [hq, hphase], hstarting, ?_⟩
  by_contra hnot
  simp only [Bool.not_eq_true] at hnot
  simp only [hnot, Bool.toNat_false] at hone
  omega

theorem Inv.saver (hp : p.Inv initial) {goroutine : Nat} (h : p.saverStep goroutine = some p') :
    p'.Inv initial := by
  unfold saverStep at h
  split at h
  · simp at h
  · rename_i hget
    obtain ⟨rfl, hsavers, hstarting, hsaving⟩ := hp.only hget
    split at h
    · cases h
      refine ⟨by simpa using hp.one, fun _ => hsaving, hp.state, hp.stored, hp.made, fun i _ => ?_,
        hp.saved⟩
      simp [hsavers]
    · rename_i hclean
      cases h
      refine ⟨by simp [hsavers, hstarting], fun hdirty => absurd hdirty hclean, hp.state, hp.stored,
        hp.made, fun i hi => ?_, hp.saved⟩
      -- what was requested is in the store: the flag is clear and no save is on its way
      rcases hp.requested i hi with hlt | hdirty | hmem
      · exact .inl hlt
      · exact absurd hdirty hclean
      · simp [hsavers] at hmem
  · cases h
    have hstored := hp.persistState
    exact ⟨by simpa [Persist.persistState] using hp.one, hp.dirty, hp.state, hstored.stored, hp.made,
      fun i hi => .inl (hp.made i hi), hstored.saved⟩

theorem Inv.step {op : Op} (hp : p.Inv initial) (h : p.step op = some p') : p'.Inv initial := by
  cases op with
  | change c =>
    cases h
    exact hp.change c
  | request =>
    obtain ⟨hlt, hp'⟩ := ite_none_right_eq_some.mp h
    obtain rfl := some.inj hp'
    exact hp.requestPersist hlt
  | start =>
    obtain ⟨hmem, hp'⟩ := ite_none_right_eq_some.mp h
    obtain rfl := some.inj hp'
    exact hp.start hmem
  | persist =>
    cases h
    exact hp.persistState
  | saver => exact hp.saver h

/-! ## The saver comes to its end -/

def Quiet (p : Persist) : Prop := p.starting = [] ∧ p.savers = []

def Op.IsSaver : Op → Prop
  | .start _ => True
  | .saver _ => True
  | _ => False

theorem quiet_of_checking (hsavers : p.savers = [.checking]) (hstarting : p.starting = []) :
    ∃ ops p', (∀ op ∈ ops, op.IsSaver) ∧ exec step p ops = some p' ∧ p'.Quiet ∧
      p'.made = p.made ∧ p'.returned = p.returned := by
  by_cases hdirty : p.saveDirty = true
  · refine ⟨[.saver 0, .saver 0, .saver 0],
      { p.persistState with saveDirty := false, saving := false, savers := [] },
      by simp [Op.IsSaver], ?_, ⟨hstarting, rfl⟩, rfl, rfl⟩
    simp [exec, step, saverStep, hsavers, hdirty, Persist.persistState]
  · refine ⟨[.saver 0], { p with saving := false, savers := [] }, by simp [Op.IsSaver], ?_,
      ⟨hstarting, rfl⟩, rfl, rfl⟩
    simp [exec, step, saverStep, hsavers, hdirty]

theorem Inv.quiet (hp : p.Inv initial) :
    ∃ ops p', (∀ op ∈ ops, op.IsSaver) ∧ exec Persist.step p ops = some p' ∧ p'.Quiet ∧
      p'.made = p.made ∧ p.returned ⊆ p'.returned := by
  have hone := hp.one
  have hle := p.saving.toNat_le
  cases hstarting : p.starting with
  | cons change rest =>
    obtain rfl : rest = [] := length_eq_zero_iff.mp (by simp [hstarting] at hone; omega)
    have hsavers : p.savers = [] :=
      length_eq_zero_iff.mp (by simp [hstarting] at hone; omega)
    obtain ⟨ops, p', hops, hrun, hquiet, hmade, hreturned⟩ := quiet_of_checking
      (p := { p with starting := [], returned := change :: p.returned, savers := [.checking] })
      rfl rfl
    refine ⟨.start change :: ops, p', forall_mem_cons.mpr ⟨trivial, hops⟩, ?_, hquiet, hmade,
      hreturned ▸ subset_cons_self _ _⟩
    simp [exec, Persist.step, hstarting, hsavers, hrun]
  | nil =>
    cases hsavers : p.savers with
    | nil => exact ⟨[], p, by simp, rfl, ⟨hstarting, hsavers⟩, rfl, List.Subset.refl _⟩
    | cons phase rest =>
      obtain rfl : rest = [] := length_eq_zero_iff.mp (by simp [hsavers] at hone; omega)
      cases phase with
      | checking =>
        obtain ⟨ops, p', hops, hrun, hquiet, hmade, hreturned⟩ :=
          quiet_of_checking hsavers hstarting
        exact ⟨ops, p', hops, hrun, hquiet, hmade, hreturned ▸ List.Subset.refl _⟩
      | saving =>
        obtain ⟨ops, p', hops, hrun, hquiet, hmade, hreturned⟩ := quiet_of_checking
          (p := { p.persistState with savers := [.checking] }) rfl hstarting
        refine ⟨.saver 0 :: ops, p', forall_mem_cons.mpr ⟨trivial, hops⟩, ?_, hquiet, hmade,
          hreturned ▸ List.Subset.refl _⟩
        simp [exec, Persist.step, saverStep, hsavers, hrun]

/-! ## Every interleaving -/

structure Saves (initial : AppState) (p : Persist) : Prop where
  one : p.starting.length + p.savers.length ≤ 1
  dirty : p.saveDirty = true → p.saving = true
  running : p.saving = true ↔ ¬ p.Quiet
  stored : p.Quiet → ∃ n, p.stored = (p.made.take n).foldl AppState.apply initial ∧
    ∀ i ∈ p.returned, i < n
  quiet : ∃ ops p', (∀ op ∈ ops, op.IsSaver) ∧ exec step p ops = some p' ∧ p'.Quiet ∧
    p'.made = p.made ∧ p.returned ⊆ p'.returned

theorem Inv.saves (hp : p.Inv initial) : p.Saves initial := by
  have hone := hp.one
  have hle := p.saving.toNat_le
  have hrunning : p.saving = true ↔ ¬ p.Quiet := by
    rw [Quiet, ← length_eq_zero_iff, ← length_eq_zero_iff]
    cases hsaving : p.saving with
    | true =>
      simp only [hsaving, Bool.toNat_true] at hone
      simp only [true_iff]
      omega
    | false =>
      simp only [hsaving, Bool.toNat_false] at hone
      simp only [Bool.false_eq_true, false_iff, not_not]
      omega
  refine ⟨by omega, hp.dirty, hrunning, fun hquiet => ?_, hp.quiet⟩
  refine ⟨p.saved, hp.stored, fun i hi => ?_⟩
  rcases hp.requested i (mem_append_right _ hi) with hlt | hdirty | hmem
  · exact hlt
  · exact absurd hquiet (hrunning.mp (hp.dirty hdirty))
  · simp [hquiet.2] at hmem

theorem saves_always {initial : AppState} {ops : List Op} {p : Persist}
    (h : exec step (new initial) ops = some p) : p.Saves initial :=
  (exec_invariant (fun _ _ _ hp h => Inv.step hp h) (inv_new initial) h).saves

theorem saves_always_overtaken : ∃ p : Persist,
    exec step (new {}) [.change (.volume 1), .request 0, .start 0, .saver 0, .saver 0,
      .change (.volume 2), .request 1, .saver 0, .saver 0, .saver 0] = some p ∧
    p.stored = { lastVolume := some 2 } ∧ p.returned = [1, 0] ∧ p.Saves {} :=
  ⟨Option.get _ (by decide), exec_get _, by decide, by decide, saves_always (exec_get _)⟩

end Persist

end Librespot.Daemon
