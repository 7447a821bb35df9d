import Librespot.Daemon.Prefetches
import Librespot.Daemon.QueueJobs

/-!
# The loop and the lane over whole runs

What the player loop leaves with the lane, what the lane's goroutine makes of it, and what only one
of the two touches, whatever the interleaving.
-/

open Base.Run
open Librespot.Tracks
open Librespot.Daemon.LoaderLane (kept)

namespace Librespot.Daemon

variable {cfg : Config} {g : Rand}

theorem snapshot_pos {list list' : TrackList} {page : Pages ContextTrack}
    {nextHint : Option (List ContextTrack)} {snap : TrackList.Snapshot}
    (h : list.snapshot page nextHint = some (snap, list')) : 0 ≤ list'.tracks.pos := by
  simp only [TrackList.snapshot, TrackList.prevTracks, Option.run_eq_some, Option.some.injEq,
    Prod.mk.injEq, Prod.exists] at h
  obtain ⟨current, -, prev, ⟨iter, hiter, -⟩, next, tl, hnext, index, -, -, rfl⟩ := h
  rw [(TrackList.nextTracks_loads hnext).2]
  exact (TrackList.here_eq_some hiter).1

/-- A new list comes with a snapshot, which the source cannot take before the list has been
positioned. -/
theorem runWork_positioned {a : Answers} {lists lists' : List TrackList} {work : Work}
    {commit : Commit} (hlists : ∀ l ∈ lists, l.Positioned)
    (h : runWork g a lists work = some (commit, lists')) : ∀ l ∈ lists', l.Positioned := by
  have hset {id : ListId} {list list' : TrackList} (hid : lists[id]? = some list)
      (hruns : Runs g list list') : ∀ l ∈ lists.set id list', l.Positioned := by
    intro l hl
    rcases List.mem_or_eq_of_mem_set hl with hl | rfl
    · exact hlists l hl
    · obtain ⟨ops, hops⟩ := hruns
      exact TrackList.run_positioned (hlists _ (List.mem_of_getElem? hid)) hops
  have hnew {list : TrackList} (hbuilt : Built g list) (hpos : 0 ≤ list.tracks.pos) :
      ∀ l ∈ lists ++ [list], l.Positioned := by
    obtain ⟨typ, ops, hops⟩ := hbuilt
    rw [List.forall_mem_append, List.forall_mem_singleton]
    exact ⟨hlists, TrackList.reachable_positioned hops hpos⟩
  cases ends_of_runWork h with
  | resolved hlist =>
    obtain ⟨typ, hbrings⟩ := resolveContext_brings hlist
    obtain ⟨_, _, _, _, -, -, -, hsnap⟩ := resolveContext_spec hlist
    exact hnew ⟨typ, hbrings.runs⟩ (snapshot_pos hsnap)
  | transferred hlist =>
    obtain ⟨typ, hbrings⟩ := runTransfer_brings hlist
    obtain ⟨_, _, hrun⟩ := runTransfer_spec hlist
    obtain ⟨_, _, -, -, hsnap⟩ := runTransferList_spec hrun
    exact hnew ⟨typ, hbrings.runs⟩ (snapshot_pos hsnap)
  | walkFailed hid hwalk => exact hset hid (walk_brings hwalk).runs
  | walked hid hwalk hsnap =>
    exact hset hid ((walk_brings hwalk).trans (snapshot_brings hsnap)).runs
  | _ => exact hlists

namespace AppPlayer

variable {p p' : AppPlayer}

theorem step_positioned {op : Op} (hlists : ∀ l ∈ p.lists, l.Positioned)
    (h : p.step cfg g op = some p') : ∀ l ∈ p'.lists, l.Positioned := by
  cases op with
  | finish =>
    obtain ⟨job, commit, lists, -, hrun, rfl⟩ := finish_spec h
    exact runWork_positioned hlists hrun
  | take | deliver =>
    have hsame : p'.lists = p.lists := (step_follows h (by simp) (by simp)).lists
    exact hsame ▸ hlists
  | _ => exact step_lists rfl h ▸ hlists

theorem kept_unrun_of_hands {extra : Bool} (hworker : p'.worker = p.worker)
    (h : Hands extra p.loader p'.loader) : kept p.unrun <+: kept p'.unrun := by
  generalize hl : p'.loader = l at h
  cases h with
  | kept => rw [unrun_congr hworker hl]
  | submitted job =>
    rw [kept_unrun_submit hworker hl]
    exact List.prefix_append _ _
  | dropped =>
    rw [unrun_eq, unrun_eq, hworker, hl, LoaderLane.kept_append, LoaderLane.kept_append,
      kept_dropLoads]

/-- The outstanding jobs in any run. Those that load or navigate have generations of their own, up
to the load counter, so the results that count are those of one job at most. No prefetch is ahead
of its counter. -/
theorem generations_distinct (cfg : Config) (g : Rand) (ops : List Op) :
    Always (step cfg g) (fun p =>
      (p.jobs.Pairwise fun q r => q.cls.loads = true → r.cls.loads = true → q.gen ≠ r.gen) ∧
      (∀ q ∈ p.jobs, q.cls.loads = true → q.gen ≤ p.loadGen) ∧
      ∀ q ∈ p.jobs, q.cls = .prefetch → q.gen ≤ p.prefetchGen) {} ops := by
  have hinv : Always (step cfg g) (fun p => Grounded g p ∧ Punctual p) {} ops := by
    refine always_of_step ?_ ⟨grounded_new, punctual_new⟩ ops
    rintro p op p' ⟨hp, hpunctual⟩ h
    exact ⟨step_grounded hp h, step_punctual hp.sound.lane hpunctual h⟩
  exact hinv.imp fun p ⟨hp, hpunctual⟩ => ⟨hp.ledger.distinct, hp.ledger.current, hpunctual⟩

/-- The track lists in any run. Each has its cursor on a loaded track, and a queued track where it
plays one, as the accessors rely on. The current list and those that the jobs are about are among
them, and only the lane's goroutine touches any. -/
theorem lists_positioned (cfg : Config) (g : Rand) (ops : List Op) :
    Always (step cfg g) (fun p => (∀ list ∈ p.lists, list.Positioned) ∧ p.Below p.lists.length ∧
      ∀ op p', op.isLane = false → p.step cfg g op = some p' → p'.lists = p.lists) {} ops := by
  have hinv : Always (step cfg g) (fun p => p.Sound ∧ ∀ l ∈ p.lists, l.Positioned) {} ops := by
    refine always_of_step ?_ ⟨sound_new, by simp⟩ ops
    rintro p op p' ⟨hp, hlists⟩ h
    exact ⟨step_sound hp h, step_positioned hlists h⟩
  exact hinv.imp fun p ⟨hp, hlists⟩ =>
    ⟨hlists, hp.below _ (length_mem_ahead p), fun _ _ hlane h => step_lists hlane h⟩

end AppPlayer

/-- `accepted` are the steps of navigation and the mutations that the loop has left with the lane,
and `ran` are those that have been run. -/
structure LaneHistory where
  player : AppPlayer := {}
  accepted : List (LoaderJob Work) := []
  ran : List (LoaderJob Work) := []

namespace LaneHistory

def step (cfg : Config) (g : Rand) (s : LaneHistory) (op : Op) : Option LaneHistory :=
  (s.player.step cfg g op).map fun player =>
    let left := if op.isLane then [] else (kept player.unrun).drop (kept s.player.unrun).length
    let done := match op with
      | .finish _ => kept s.player.worker.toRun
      | _ => []
    { player, accepted := s.accepted ++ left, ran := s.ran ++ done }

structure Inv (g : Rand) (s : LaneHistory) : Prop where
  grounded : s.player.Grounded g
  order : s.accepted = s.ran ++ kept s.player.unrun

theorem step_inv {cfg : Config} {g : Rand} {s s' : LaneHistory} {op : Op} (hs : Inv g s)
    (h : s.step cfg g op = some s') : Inv g s' := by
  obtain ⟨player, hplayer, rfl⟩ := Option.map_eq_some_iff.mp h
  refine ⟨AppPlayer.step_grounded hs.grounded hplayer, ?_⟩
  have horder := hs.order
  cases hlane : op.isLane with
  | false =>
    have hworker := (AppPlayer.step_frame hlane hplayer).1
    have hcounts := AppPlayer.step_counts hlane hs.grounded.tame.results hs.grounded.ledger hplayer
    obtain ⟨added, hadded⟩ := AppPlayer.kept_unrun_of_hands hworker hcounts.lane
    cases op with
    | finish => simp [Op.isLane] at hlane
    | _ => simp [horder, ← hadded]
  | true =>
    cases op with
    | take =>
      have hkept := AppPlayer.kept_unrun_take hs.grounded.sound.lane hplayer
      simp [horder, hkept]
    | finish =>
      obtain ⟨job, hw, hunrun⟩ := AppPlayer.unrun_finish hplayer
      simp [horder, hunrun, hw, Worker.toRun, ← LoaderLane.kept_append]
    | deliver => simp [horder, AppPlayer.unrun_deliver hplayer]
    | _ => simp [Op.isLane] at hlane

/-- Navigation and mutations that the lane has accepted are run once each, in the order they were
accepted: in every run of the player, whatever loads and prefetches come and go in between. -/
theorem accepted_run_in_order (cfg : Config) (g : Rand) (ops : List Op) :
    Always (step cfg g) (fun s => s.accepted = s.ran ++ kept s.player.unrun) {} ops := by
  have hinv : Always (step cfg g) (Inv g) {} ops :=
    always_of_step (fun _ _ _ => step_inv) ⟨AppPlayer.grounded_new, rfl⟩ ops
  exact hinv.imp fun s hs => hs.order

end LaneHistory

end Librespot.Daemon
