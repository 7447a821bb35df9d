import Librespot.Daemon.ListFlags

/-!
# What the handlers leave to the lane and to the audio player

Only the lane fetches streams and works on the lists. Whatever a handler of the loop
does, it sets no other stream, brings no result and touches no list.
-/

open Librespot.Tracks List

namespace Librespot.Daemon

/-- What the loop is still to hear of: events of the audio player and results of the lane. -/
structure Inputs where
  audioState : AudioState
  finished : List LoaderResult
  lists : List TrackList

structure Inputs.Follows (b b' : Inputs) : Prop where
  audioState : b.audioState.Follows b'.audioState
  finished : ∀ res ∈ b'.finished, res ∈ b.finished
  lists : b'.lists = b.lists

theorem Inputs.Follows.trans {b b' b'' : Inputs} (h : b.Follows b') (h' : b'.Follows b'') :
    b.Follows b'' :=
  ⟨h.audioState.trans h'.audioState, fun res hres => h.finished res (h'.finished res hres),
    h'.lists.trans h.lists⟩

namespace AppPlayer

variable {cfg : Config} {g : Rand} {m : Moment} {p p' : AppPlayer}

def inputs (p : AppPlayer) : Inputs := ⟨p.audioState, p.finished, p.lists⟩

/-! ## What follows the stream that is set -/

theorem Quiet.follows (h : Quiet p p') : p.inputs.Follows p'.inputs := by
  refine ⟨h.audioState, fun res hres => ?_, congrArg Frame.lists h.frame⟩
  have hresults : p'.results = p.results := congrArg Frame.results h.frame
  have hworker : p'.worker = p.worker := congrArg Frame.worker h.frame
  simp only [inputs, finished, hresults, hworker] at hres ⊢
  exact hres

theorem Submits.follows {job : LoaderJob Work} (h : Submits job p p') :
    p.inputs.Follows p'.inputs := by
  refine ⟨h.audioState, fun res hres => ?_, congrArg Frame.lists h.frame⟩
  have hresults : p'.results = p.results := congrArg Frame.results h.frame
  have hworker : p'.worker = p.worker := congrArg Frame.worker h.frame
  simp only [inputs, finished, hresults, hworker] at hres ⊢
  exact hres

theorem Ends.follows (h : Ends p p') : p.inputs.Follows p'.inputs := by
  rcases h with h | ⟨job, h⟩
  · exact h.follows
  · exact h.follows

theorem Touched.follows {op : Op} (hevent : ∀ m ev, op ≠ .event m ev) (h : Touched op p p') :
    p.inputs.Follows p'.inputs := by
  have hraises : p.audio.Raises p'.audio := by
    rw [h.audio]
    exact .refl _
  refine ⟨.of_raises hraises ?_, ?_, h.lists⟩
  · intro ev hev
    exact (h.held ev hev).resolve_right fun ⟨m, hop⟩ => hevent m ev hop
  · intro res hres
    have hres : res ∈ p'.finished := hres
    show res ∈ p.finished
    simp only [finished, h.worker, h.results, mem_append] at hres ⊢
    exact hres.imp_left fun hres => (op.rest_sublist p.results).subset hres

theorem stopPlayback_follows (p : AppPlayer) : p.inputs.Follows p.stopPlayback.inputs := by
  refine ⟨.of_raises (Player.ManageLoop.stop_raises _) ?_, fun _ => id, rfl⟩
  intro ev hev
  simp only [inputs, audioState, stopPlayback, mem_append, not_mem_nil, or_false] at hev ⊢
  exact .inl hev

theorem take_follows {clock : Nat → Int} (h : p.take clock = some p') :
    p.inputs.Follows p'.inputs := by
  unfold take at h
  split at h
  · rename_i job loader hworker hnext
    cases h
    refine ⟨.refl _, fun res hres => ?_, rfl⟩
    simpa [inputs, finished, hworker, Worker.finished] using hres
  · simp at h

theorem deliver_follows (h : p.deliver = some p') : p.inputs.Follows p'.inputs := by
  obtain ⟨res, hworker, rfl⟩ := deliver_spec h
  refine ⟨.refl _, fun res hres => ?_, rfl⟩
  simpa [inputs, finished, hworker, Worker.finished] using hres

theorem step_follows {op : Op} (h : p.step cfg g op = some p') (hevent : ∀ m ev, op ≠ .event m ev)
    (hfinish : ∀ a, op ≠ .finish a) : p.inputs.Follows p'.inputs := by
  cases step_form h with
  | lane hop =>
    cases op with
    | take => exact take_follows (step_effect h)
    | finish a => exact absurd rfl (hfinish a)
    | deliver => exact deliver_follows (step_effect h)
    | _ => simp [Op.isLane] at hop
  | stopped h =>
    subst h
    exact stopPlayback_follows p
  | handled _ htouched hends => exact (htouched.follows hevent).trans hends.follows

end AppPlayer

end Librespot.Daemon
