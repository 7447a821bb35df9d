import Librespot.Ids
import Mathlib.Logic.Function.Basic

/-!
# The state file (`cmd/daemon/file_state_store.go`)

Every operation on a file may fail. A rename replaces its destination in one step. The name of the
temporary file is new, and nothing else writes to either of the two.
-/

open List

namespace Librespot.Daemon

inductive FileName where
  | state
  | tmp
deriving DecidableEq, Repr

abbrev Files := FileName → Option Bytes

structure Disk where
  files : Files
  past : List Files := []

/-- `notExist` is what `errors.Is(err, os.ErrNotExist)` says. -/
structure FileErr where
  text : String
  notExist : Bool := false
deriving DecidableEq, Repr

def FileErr.wrap (text : String) (err : FileErr) : FileErr := { err with text := text ++ err.text }

/-- How the operations of one `Save` turn out, where they are made: the text of the error of each
that fails. An encoding that fails has written some bytes. A removal that does not fail finds the
file or reports that it does not exist. -/
structure Outcomes where
  createTemp : Option String := none
  encode : Option (String × Bytes) := none
  close : Option String := none
  rename : Option String := none
  remove : Option String := none
  renameAgain : Option String := none
  removeTemp : Option String := none
deriving DecidableEq, Repr

namespace Disk

def become (files : Files) (d : Disk) : Disk := { files, past := d.past ++ [d.files] }

def write (name : FileName) (bytes : Bytes) (d : Disk) : Disk :=
  d.become (Function.update d.files name (some bytes))

def rename (failure : Option String) (src dest : FileName) (d : Disk) : Option FileErr × Disk :=
  match failure, d.files src with
  | some text, _ => (some { text }, d)
  | none, none => (some { text := "file does not exist", notExist := true }, d)
  | none, some bytes =>
    (none, d.become (Function.update (Function.update d.files src none) dest (some bytes)))

def remove (failure : Option String) (name : FileName) (d : Disk) : Option FileErr × Disk :=
  match failure, d.files name with
  | some text, _ => (some { text }, d)
  | none, none => (some { text := "file does not exist", notExist := true }, d)
  | none, some _ => (none, d.become (Function.update d.files name none))

end Disk

def replaceFile (o : Outcomes) (src dest : FileName) (d : Disk) : Option FileErr × Disk :=
  match d.rename o.rename src dest with
  | (none, d) => (none, d)
  | (some _, d) =>
    match d.remove o.remove dest with
    | (some err, d) =>
      if err.notExist then d.rename o.renameAgain src dest else (some err, d)
    | (none, d) => d.rename o.renameAgain src dest

def save (encoded : Bytes) (o : Outcomes) (d : Disk) : Option FileErr × Disk :=
  match o.createTemp with
  | some text => (some { text := "failed creating temporary file for app state: " ++ text }, d)
  | none =>
    let d := d.write .tmp []
    match o.encode with
    | some (text, written) =>
      let d := d.write .tmp written
      (some { text := "failed writing marshalled app state: " ++ text },
        (d.remove o.removeTemp .tmp).2)
    | none =>
      let d := d.write .tmp encoded
      match o.close with
      | some text =>
        (some { text := "failed closing temporary app state file: " ++ text },
          (d.remove o.removeTemp .tmp).2)
      | none =>
        match replaceFile o .tmp .state d with
        | (some err, d) =>
          (some (err.wrap "failed replacing app state file: "), (d.remove o.removeTemp .tmp).2)
        | (none, d) => (none, d)

/-! ## The old state or the new one -/

def Disk.Covers (encoded : Bytes) (d e : Disk) : Prop :=
  ∀ files ∈ e.past ++ [e.files], files ∈ d.past ∨ files .state = d.files .state ∨
    files .state = some encoded ∨ files .tmp = some encoded

/-- After an error the state file is what it was, without one it is the new state; and at every
moment one of the two is there. -/
structure Keeps (encoded : Bytes) (d : Disk) (res : Option FileErr × Disk) : Prop where
  failed : res.1 ≠ none → res.2.files .state = d.files .state
  saved : res.1 = none → res.2.files .state = some encoded
  always : d.Covers encoded res.2

/-- The state file exists and is removed to make room for the new one, and the new one cannot be
moved there either. -/
def Strands (d : Disk) (o : Outcomes) : Prop :=
  o.rename ≠ none ∧ d.files .state ≠ none ∧ o.remove = none ∧ o.renameAgain ≠ none

def Loses (d : Disk) (o : Outcomes) : Prop :=
  o.createTemp = none ∧ o.encode = none ∧ o.close = none ∧ Strands d o

section

variable {encoded : Bytes} {d e : Disk} {files : Files} {o : Outcomes}

theorem Disk.covers_refl : d.Covers encoded d := by
  intro files hfiles
  rcases mem_append.mp hfiles with hfiles | hfiles
  · exact .inl hfiles
  · rw [mem_singleton.mp hfiles]
    exact .inr (.inl rfl)

theorem Disk.Covers.become (h : d.Covers encoded e) (hfiles : files .state = d.files .state ∨
    files .state = some encoded ∨ files .tmp = some encoded) :
    d.Covers encoded (e.become files) := by
  intro f hf
  rcases mem_append.mp hf with hf | hf
  · exact h f hf
  · rw [mem_singleton.mp hf]
    exact .inr hfiles

theorem Disk.Covers.trans {f : Disk} (h : d.Covers encoded e)
    (hstate : e.files .state = d.files .state) (h' : e.Covers encoded f) : d.Covers encoded f := by
  intro files hfiles
  rcases h' files hfiles with hpast | hold | hnew
  · exact h files (mem_append_left _ hpast)
  · exact .inr (.inl (hold.trans hstate))
  · exact .inr (.inr hnew)

theorem Disk.Covers.updateTmp (h : d.Covers encoded e) (hstate : e.files .state = d.files .state)
    (content : Option Bytes) : d.Covers encoded (e.become (Function.update e.files .tmp content)) :=
  h.become (.inl hstate)

theorem Disk.remove_tmp (failure : Option String) (d : Disk) :
    (d.remove failure .tmp).2 = d ∨
      (d.remove failure .tmp).2 = d.become (Function.update d.files .tmp none) := by
  unfold Disk.remove
  split
  · exact .inl rfl
  · exact .inl rfl
  · exact .inr rfl

theorem keeps_of_error (err : FileErr) (failure : Option String) (h : d.Covers encoded e)
    (hstate : e.files .state = d.files .state) :
    Keeps encoded d (some err, (e.remove failure .tmp).2) := by
  rcases e.remove_tmp failure with heq | heq
  · rw [heq]
    exact ⟨fun _ => hstate, (nomatch ·), h⟩
  · rw [heq]
    exact ⟨fun _ => hstate, (nomatch ·), h.updateTmp hstate none⟩

/-! ## The replacement -/

theorem Disk.rename_none {src dest : FileName} {bytes : Bytes} (h : d.files src = some bytes) :
    d.rename none src dest = (none, d.become
      (Function.update (Function.update d.files src none) dest (some bytes))) := by
  simp [Disk.rename, h]

theorem Disk.rename_some (text : String) (src dest : FileName) :
    d.rename (some text) src dest = (some { text }, d) := rfl

theorem replaceFile_cases (o : Outcomes) (htmp : d.files .tmp = some encoded) :
    (∃ e, replaceFile o .tmp .state d = (none, e) ∧ e.files .state = some encoded ∧
      d.Covers encoded e ∧ ¬ Strands d o) ∨
    (∃ err, replaceFile o .tmp .state d = (some err, d) ∧ ¬ Strands d o) ∨
    (∃ err, replaceFile o .tmp .state d =
      (some err, d.become (Function.update d.files .state none)) ∧ Strands d o) := by
  unfold replaceFile Strands
  cases hfirst : o.rename with
  | none =>
    rw [Disk.rename_none htmp]
    exact .inl ⟨_, rfl, rfl, Disk.covers_refl.become (.inr (.inl rfl)), by simp⟩
  | some text =>
    rw [Disk.rename_some]
    cases hremove : o.remove with
    | some text => exact .inr (.inl ⟨{ text }, rfl, by simp⟩)
    | none =>
      cases hstate : d.files .state with
      | none =>
        simp only [Disk.remove, hstate, if_true]
        cases hagain : o.renameAgain with
        | none =>
          rw [Disk.rename_none htmp]
          exact .inl ⟨_, rfl, rfl, Disk.covers_refl.become (.inr (.inl rfl)), by simp⟩
        | some text => exact .inr (.inl ⟨{ text }, rfl, by simp⟩)
      | some =>
        simp only [Disk.remove, hstate]
        -- only the temporary file has the state now
        have hcovers : d.Covers encoded (d.become (Function.update d.files .state none)) :=
          Disk.covers_refl.become (.inr (.inr htmp))
        have htmp : (d.become (Function.update d.files .state none)).files .tmp = some encoded := htmp
        cases hagain : o.renameAgain with
        | none =>
          rw [Disk.rename_none htmp]
          exact .inl ⟨_, rfl, rfl, hcovers.become (.inr (.inl rfl)), by simp⟩
        | some text => exact .inr (.inr ⟨{ text }, rfl, by simp⟩)

end

/-- The state is kept exactly if that does not happen. -/
theorem save_keeps_iff (encoded : Bytes) (o : Outcomes) (d : Disk) :
    Keeps encoded d (save encoded o d) ↔ ¬ Loses d o := by
  have hnew : d.Covers encoded (d.write .tmp []) := Disk.covers_refl.updateTmp rfl (some [])
  have hstate (bytes : Bytes) : ((d.write .tmp []).write .tmp bytes).files .state = d.files .state :=
    rfl
  unfold save Loses
  cases hcreate : o.createTemp with
  | some =>
    have hkeeps (err : FileErr) : Keeps encoded d (some err, d) :=
      ⟨fun _ => rfl, (nomatch ·), Disk.covers_refl⟩
    simp [hkeeps]
  | none =>
    cases hencode : o.encode with
    | some failure =>
      obtain ⟨text, written⟩ := failure
      have hcovers := hnew.updateTmp rfl (some written)
      simp only [reduceCtorEq, false_and, and_false, not_false_eq_true, iff_true]
      exact keeps_of_error _ _ hcovers (hstate written)
    | none =>
      have hcovers := hnew.updateTmp rfl (some encoded)
      cases hclose : o.close with
      | some =>
        simp only [reduceCtorEq, false_and, and_false, not_false_eq_true, iff_true]
        exact keeps_of_error _ _ hcovers (hstate encoded)
      | none =>
        simp only [true_and]
        have htmp : ((d.write .tmp []).write .tmp encoded).files .tmp = some encoded := rfl
        rcases replaceFile_cases o htmp with ⟨e, hres, hsaved, he, hnot⟩ | ⟨err, hres, hnot⟩ |
          ⟨err, hres, hloses⟩
        · rw [hres]
          have hall := hcovers.trans (hstate encoded) he
          exact iff_of_true ⟨fun hsome => absurd rfl hsome, fun _ => hsaved, hall⟩ hnot
        · rw [hres]
          exact iff_of_true (keeps_of_error _ _ hcovers (hstate encoded)) hnot
        · rw [hres]
          refine iff_of_false (fun hkeeps => ?_) (not_not_intro hloses)
          -- the state file is gone, and the removal of the temporary file leaves it so
          have hgone : ∀ disk : Disk, disk.files .state = none →
              (disk.remove o.removeTemp .tmp).2.files .state = none := by
            intro disk hdisk
            rcases disk.remove_tmp o.removeTemp with heq | heq <;> rw [heq] <;> exact hdisk
          have hold := hkeeps.failed (by simp)
          rw [hgone _ rfl] at hold
          exact hloses.2.1 hold.symm

def savedBefore : Disk where
  files
    | .state => some [1]
    | .tmp => none

/-- It cannot be replaced, it can be removed, and then the rename fails once more. -/
theorem save_loses_state :
    let res := save [2] { rename := some "access denied", renameAgain := some "access denied" }
      savedBefore
    res.1 = some { text := "failed replacing app state file: access denied" } ∧
      res.2.files .state = none ∧ res.2.files .tmp = none ∧
      ¬ Keeps [2] savedBefore res := by
  refine ⟨rfl, rfl, rfl, fun hkeeps => ?_⟩
  exact absurd (hkeeps.failed (by decide)) (by decide)

end Librespot.Daemon
