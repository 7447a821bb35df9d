import Librespot.Base.Run

/-!
# The pipe output

`outputLoop`, `Pause`, `Resume` and `Close` of `output/driver-pipe.go`, each a critical section, and
what they do with the file.
-/

open Base.Run List Option

namespace Librespot.Output

inductive FileOp
  | write
  | close
deriving DecidableEq, Repr

/-- Where `outputLoop` is: in the loop, before its own call of `Close`, or at its end. -/
inductive LoopStage
  | looping
  | leaving
  | ended
deriving DecidableEq, Repr

inductive ReadErr
  | eof
  | other
deriving DecidableEq, Repr

structure PipeOutput where
  paused : Bool := true
  closed : Bool := false
  stage : LoopStage := .looping
  file : List FileOp := []
deriving DecidableEq, Repr

inductive Op
  | iterate (n : Nat) (readErr : Option ReadErr) (writeFails : Bool)
  | leave
  | closeAtEnd
  | pause
  | resume
  | close
deriving DecidableEq, Repr

/-- An iteration that a write or the source fails. -/
def Op.fails : Op → Bool
  | .iterate n readErr writeFails => (n > 0 && writeFails) || readErr = some .other
  | _ => false

namespace PipeOutput

def close (out : PipeOutput) : PipeOutput :=
  if out.closed then out else { out with file := out.file ++ [.close], closed := true }

def iterate (n : Nat) (readErr : Option ReadErr) (writeFails : Bool) (out : PipeOutput) :
    PipeOutput :=
  let written := if n > 0 then { out with file := out.file ++ [.write] } else out
  if n > 0 ∧ writeFails then { written with closed := true, stage := .leaving }
  else
    match readErr with
    | none => written
    | some .eof => { written with paused := true }
    | some .other => { written with closed := true, stage := .leaving }

def step (out : PipeOutput) : Op → Option PipeOutput
  | .iterate n readErr writeFails =>
    if out.stage = .looping ∧ out.paused = false ∧ out.closed = false then
      some (out.iterate n readErr writeFails)
    else none
  | .leave =>
    if out.stage = .looping ∧ out.closed = true then some { out with stage := .leaving } else none
  | .closeAtEnd => if out.stage = .leaving then some { out.close with stage := .ended } else none
  | .pause => some (if out.closed then out else { out with paused := true })
  | .resume => some (if out.closed then out else { out with paused := false })
  | .close => some out.close

/-- The file is closed when the output is, unless an error has closed the output. -/
structure Inv (failed : Bool) (out : PipeOutput) : Prop where
  file : ∃ n, out.file = List.replicate n .write ++
    if out.closed = true ∧ failed = false then [.close] else []
  failed : failed = true → out.closed = true
  ended : out.stage ≠ .looping → out.closed = true

variable {out out' : PipeOutput} {op : Op} {failed : Bool}

theorem Inv.close (h : out.Inv failed) : out.close.Inv failed := by
  unfold PipeOutput.close
  split
  next => exact h
  next hopen =>
    obtain ⟨n, hfile⟩ := h.file
    have hok : failed = false := by
      by_contra hfailed
      exact hopen (h.failed (by simpa using hfailed))
    refine ⟨⟨n, ?_⟩, fun _ => rfl, fun _ => rfl⟩
    simp [hfile, hopen, hok]

theorem Inv.iterate (h : out.Inv failed) (hopen : out.closed = false) (n : Nat)
    (readErr : Option ReadErr) (writeFails : Bool) :
    (out.iterate n readErr writeFails).Inv (Op.iterate n readErr writeFails).fails := by
  obtain ⟨k, hfile⟩ := h.file
  simp only [hopen, Bool.false_eq_true, false_and, if_false, append_nil] at hfile
  have hwritten : ∃ k, (if n > 0 then { out with file := out.file ++ [.write] } else out) =
      { out with file := List.replicate k .write } := by
    split
    next => exact ⟨k + 1, by rw [hfile, replicate_succ']⟩
    next => exact ⟨k, by rw [← hfile]⟩
  obtain ⟨k, hwritten⟩ := hwritten
  have hloop : out.stage = .looping := by
    by_contra hstage
    simp [h.ended hstage] at hopen
  simp only [PipeOutput.iterate, hwritten]
  split
  next hfails => exact ⟨⟨k, by simp [Op.fails, hfails]⟩, fun _ => rfl, fun _ => rfl⟩
  next hwrote =>
    have hwrote : (decide (n > 0) && writeFails) = false := by simpa using hwrote
    split
    next => exact ⟨⟨k, by simp [hopen]⟩, by simp [Op.fails, hwrote], by simp [hloop]⟩
    next => exact ⟨⟨k, by simp [hopen]⟩, by simp [Op.fails, hwrote], by simp [hloop]⟩
    next => exact ⟨⟨k, by simp [Op.fails]⟩, fun _ => rfl, fun _ => rfl⟩

theorem step_inv (h : out.Inv failed) (hstep : step out op = some out') :
    out'.Inv (failed || op.fails) := by
  cases op with
  | iterate n readErr writeFails =>
    simp only [step, ite_none_right_eq_some] at hstep
    obtain ⟨⟨-, -, hopen⟩, hstep⟩ := hstep
    cases hstep
    have hok : failed = false := by
      by_contra hfailed
      simp [h.failed (by simpa using hfailed)] at hopen
    rw [hok, Bool.false_or]
    exact h.iterate hopen n readErr writeFails
  | leave =>
    simp only [step, ite_none_right_eq_some] at hstep
    obtain ⟨⟨-, hclosed⟩, hstep⟩ := hstep
    cases hstep
    simp only [Op.fails, Bool.or_false]
    exact ⟨h.file, h.failed, fun _ => hclosed⟩
  | closeAtEnd =>
    simp only [step, ite_none_right_eq_some] at hstep
    obtain ⟨hstage, hstep⟩ := hstep
    cases hstep
    simp only [Op.fails, Bool.or_false]
    obtain ⟨hfile, hfailed, -⟩ := h.close
    refine ⟨hfile, hfailed, fun _ => ?_⟩
    have hclosed := h.ended (by simp [hstage])
    simp [PipeOutput.close, hclosed]
  | pause | resume =>
    simp only [step] at hstep
    cases hstep
    simp only [Op.fails, Bool.or_false]
    split
    · exact h
    · exact ⟨h.file, h.failed, h.ended⟩
  | close =>
    cases hstep
    simp only [Op.fails, Bool.or_false]
    exact h.close

theorem run_inv {ops : List Op} (h : out.Inv failed) (hrun : exec step out ops = some out') :
    out'.Inv (failed || ops.any Op.fails) := by
  induction ops generalizing out failed with
  | nil =>
    cases hrun
    simpa using h
  | cons op ops ih =>
    obtain ⟨mid, hstep, hrest⟩ := exec_cons_eq_some.mp hrun
    rw [any_cons, ← Bool.or_assoc]
    exact ih (step_inv h hstep) hrest

/-- Once the loop has ended, and with it its call of `Close`, the file has been closed once exactly
if no iteration has failed, and in any case only writes have been followed by anything. -/
theorem closed_once_iff (ops : List Op) {out : PipeOutput} (h : exec step {} ops = some out)
    (hended : out.stage = .ended) :
    (out.file.count .close = 1 ↔ ∀ op ∈ ops, op.fails = false) ∧
      out.file.Pairwise fun earlier _ => earlier = .write := by
  have hinit : Inv false {} := ⟨⟨0, rfl⟩, nofun, nofun⟩
  have hinv : out.Inv (ops.any Op.fails) := run_inv hinit h
  obtain ⟨n, hfile⟩ := hinv.file
  have hclosed := hinv.ended (by simp [hended])
  have hall : (∀ op ∈ ops, op.fails = false) ↔ ops.any Op.fails = false := by simp
  rw [hall, hfile]
  constructor
  · cases hok : ops.any Op.fails <;> simp [hclosed, count_replicate]
  · refine pairwise_append.mpr ⟨pairwise_replicate.mpr (.inr rfl), ?_, ?_⟩
    · split <;> simp
    · exact fun earlier hearlier _ _ => eq_of_mem_replicate hearlier

def closedRun : List Op :=
  [.resume, .iterate 2 none false, .iterate 1 (some .eof) false, .close, .leave, .pause, .closeAtEnd]

theorem closed_once_iff_closedRun : ∃ out, exec step {} closedRun = some out ∧
    out.file = [.write, .write, .close] ∧ out.file.count .close = 1 :=
  ⟨Option.get _ (by decide), exec_get _, by decide,
    (closed_once_iff closedRun (exec_get _) (by decide)).1.mpr (by decide)⟩

/-- A write fails. Both calls of `Close` find the output closed, and the file stays open. -/
theorem file_left_open :
    (exec step {} [.resume, .iterate 2 none true, .closeAtEnd, .close]).map
      (fun out => (out.stage, out.file)) = some (.ended, [.write]) := by
  decide

end PipeOutput

end Librespot.Output
