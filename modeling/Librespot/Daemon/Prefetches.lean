import Librespot.Daemon.QueueState
import Librespot.Daemon.Unrun

/-!
# The generations of the prefetches

The prefetch counter never goes back, and a prefetch is submitted with what it stands at. So no
outstanding prefetch is ahead of it.
-/

open Base.Run
open Librespot.Tracks List

namespace Librespot.Daemon.AppPlayer

variable {cfg : Config} {g : Rand} {p p' : AppPlayer}

def Punctual (p : AppPlayer) : Prop := ∀ q ∈ p.jobs, q.cls = .prefetch → q.gen ≤ p.prefetchGen

theorem punctual_new : Punctual {} := by simp [Punctual, AppPlayer.jobs, Worker.jobs]

theorem step_punctual {op : Op} (hok : LaneOk p) (hp : Punctual p)
    (h : p.step cfg g op = some p') : Punctual p' := by
  intro q hq hcls
  cases hlane : op.isLane with
  | true =>
    rw [lane_eq hlane h]
    exact hp q ((lane_jobs hlane hok h).subset hq) hcls
  | false =>
    obtain ⟨hworker, hresults⟩ := step_frame hlane h
    obtain ⟨-, -, hgrows, -⟩ := step_leaves hlane h
    simp only [AppPlayer.jobs, hworker, mem_append] at hq
    rcases hq with hq | hq | hq
    · have hmem := (hresults.map LoaderResult.job).subset hq
      exact (hp q (mem_append_left _ hmem) hcls).trans hgrows.gen
    · exact (hp q (mem_append_right _ (mem_append_left _ hq)) hcls).trans hgrows.gen
    · rcases hgrows.queue q hq hcls with hq | hgen
      · exact (hp q (mem_append_right _ (mem_append_right _ hq)) hcls).trans hgrows.gen
      · exact hgen

end Librespot.Daemon.AppPlayer
