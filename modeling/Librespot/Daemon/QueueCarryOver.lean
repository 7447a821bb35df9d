import Librespot.Daemon.QueueJobs

/-!
# The queue when a context is started

The queue is read when the load of a context is submitted, and put into the new list
when that list is built. Between the two a queued track can get lost.
-/

open Base.Run
open Librespot.Tracks
open Librespot.Daemon.LoaderLane (accepts)

namespace Librespot.Daemon

open AppPlayer

structure QueueHistory where
  player : AppPlayer := {}
  owed : List Entry := []
  starts : List (List Entry × List Entry) := []

namespace QueueHistory

def moved (s : QueueHistory) (player : AppPlayer) : QueueHistory :=
  if player.state.tracks = s.player.state.tracks then { s with player }
  else { s with player, owed := [] }

def record (s : QueueHistory) (op : Op) (player : AppPlayer) : QueueHistory :=
  match s.player.asks op, s.player.startsList op with
  | some work, _ => { s with player, owed := work.edit s.owed }
  | none, some list =>
    { s with player, starts := s.starts ++ [(s.owed, player.waitingIn list)] }
  | none, none =>
    let s' := s.moved player
    { s' with owed := s'.owed.diff (s.player.passed player) }

def step (cfg : Config) (g : Rand) (s : QueueHistory) (op : Op) : Option QueueHistory :=
  (s.player.step cfg g op).map (s.record op)

def Kept (s : QueueHistory) : Prop := ∀ start ∈ s.starts, start.1.Sublist start.2

/-- The lane takes a change of the queue, and no context is being loaded meanwhile. No change of the
queue has still to be made when the load of a context is submitted. -/
@[mk_iff orderly_iff]
structure Orderly (s : QueueHistory) (op : Op) : Prop where
  asks : s.player.asks op ≠ none → s.player.loader.queue.length < loaderQueueSize ∧
    ∀ q ∈ s.player.jobs, ∀ job, q.run = .resolve job → q.gen ≠ s.player.loadGen
  loads : s.player.opensContext op = true →
    ∀ id, s.player.state.tracks = some id → s.player.edits id = []

variable {cfg : Config} {g : Rand} {s s' : QueueHistory}

structure Inv (g : Rand) (s : QueueHistory) : Prop where
  grounded : s.player.Grounded g
  none : s.player.state.tracks = none → s.owed = []
  holds : ∀ id, s.player.state.tracks = some id → s.player.Holds s.owed id
  sampled : ∀ q ∈ s.player.jobs, ∀ job, q.run = .resolve job → q.gen = s.player.loadGen →
    s.owed.Sublist (entries job.queued)
  landed : s.player.Landed
  kept : Kept s

theorem inv_new : Inv g {} where
  grounded := AppPlayer.grounded_new
  none _ := rfl
  holds id h := by simp at h
  sampled q hq := by simp [AppPlayer.jobs, Worker.jobs] at hq
  landed res hres := by simp [AppPlayer.finished, Worker.finished] at hres
  kept start h := by simp at h

variable {op : Op} {player : AppPlayer}

theorem record_lane (hlane : op.isLane = true) (hs : Inv g s)
    (h : s.player.step cfg g op = some player) : Inv g (s.record op player) := by
  obtain ⟨hstate, hasks, hstarts⟩ := lane_quiet hlane h
  have hrecord : s.record op player =
      { s with player, owed := s.owed.diff (s.player.passed player) } := by
    simp [record, hasks, hstarts, moved, hstate]
  rw [hrecord]
  have hsub : (s.owed.diff (s.player.passed player)).Sublist s.owed := List.diff_sublist ..
  refine ⟨step_grounded hs.grounded h, ?_, ?_, ?_,
    lane_landed hlane hs.grounded h hs.landed, hs.kept⟩
  · intro htracks
    rw [hstate] at htracks
    rw [hs.none htracks] at hsub
    exact List.sublist_nil.mp (by rwa [hs.none htracks])
  · intro id htracks
    rw [hstate] at htracks
    exact lane_holds hlane hs.grounded htracks h (hs.holds id htracks)
  · intro q hq job hrun hgen
    have hq := (lane_jobs hlane hs.grounded.sound.lane h).mem_iff.mp hq
    have hgen := current_of_step hs.grounded h hq hrun hgen
    exact hsub.trans (hs.sampled q hq job hrun hgen)

theorem landed_of_step (hlane : op.isLane = false) (hs : Inv g s)
    (h : s.player.step cfg g op = some player) : player.Landed :=
  hs.landed.of_finished (AppPlayer.step_lists hlane h) fun _ =>
    AppPlayer.finished_of_step hlane h

theorem sampled_of_ordinary (hlane : op.isLane = false) (hs : Inv g s)
    (h : s.player.step cfg g op = some player) (hands : Hands false s.player.loader player.loader)
    {q : LoaderJob Work} (hq : q ∈ player.jobs) {job : ResolveJob} (hrun : q.run = .resolve job)
    (hgen : q.gen = player.loadGen) : s.owed.Sublist (entries job.queued) := by
  have hold := resolve_of_ordinary hlane h hands hq hrun
  exact hs.sampled q hold job hrun (current_of_step hs.grounded h hold hrun hgen)

theorem record_ordinary (hlane : op.isLane = false) (hs : Inv g s)
    (h : s.player.step cfg g op = some player) (hasks : s.player.asks op = Option.none)
    (hstarts : s.player.startsList op = Option.none)
    (hands : Hands false s.player.loader player.loader) : Inv g (s.record op player) := by
  have hlists := step_lists hlane h
  have hworker := (step_frame hlane h).1
  have hgrounded := step_grounded hs.grounded h
  have hlanded := landed_of_step hlane hs h
  simp only [record, hasks, hstarts, passed_of_lists hlists, List.diff_nil]
  by_cases htracks : player.state.tracks = s.player.state.tracks
  · rw [moved, if_pos htracks]
    refine ⟨hgrounded, fun hnone => hs.none (htracks ▸ hnone), ?_, ?_, hlanded, hs.kept⟩
    · intro id hid
      exact (hs.holds id (htracks ▸ hid)).of_same hlists (edits_of_hands hworker hands)
    · intro q hq job hrun hgen
      exact sampled_of_ordinary hlane hs h hands hq hrun hgen
  · rw [moved, if_neg htracks]
    refine ⟨hgrounded, fun _ => rfl, ?_, ?_, hlanded, hs.kept⟩
    · exact fun id hid => List.nil_sublist _
    · exact fun q hq job hrun hgen => List.nil_sublist _

theorem record_started {list : ListId} (hlane : op.isLane = false) (hs : Inv g s)
    (h : s.player.step cfg g op = some player) (hasks : s.player.asks op = Option.none)
    (hstarts : s.player.startsList op = some list)
    (hands : Hands false s.player.loader player.loader) : Inv g (s.record op player) := by
  obtain ⟨htracks, res, job, snap, hres, hgen, hcommit⟩ := startsList_tracks hstarts h
  have hlists := step_lists hlane h
  have hworker := (step_frame hlane h).1
  have hmem := finished_mem_jobs hres
  have hrun : res.job.run = .resolve job := by
    have hgives := hs.grounded.sound.gives res hres
    generalize res.job.run = run at hgives ⊢
    rw [hcommit] at hgives
    cases hgives
    rfl
  have howed : s.owed.Sublist (player.waitingIn list) := by
    rw [waitingIn_of_lists hlists, hs.landed res hres job list snap hcommit]
    exact hs.sampled res.job hmem job hrun hgen
  have hedits : player.edits list = [] := by
    have hlanding : res.commit.landing = some (list, job.shuffle) := by rw [hcommit]; rfl
    have hbelow := hs.grounded.sound.below list (landing_mem_ahead hres hlanding)
    rw [edits_of_hands hworker hands]
    exact edits_of_below hbelow
  simp only [record, hasks, hstarts]
  refine ⟨step_grounded hs.grounded h, ?_, ?_, ?_, landed_of_step hlane hs h, ?_⟩
  · intro hnone
    simp [htracks] at hnone
  · intro id hid
    obtain rfl : list = id := by simpa [htracks] using hid
    unfold AppPlayer.Holds
    rw [hedits]
    exact howed
  · intro q hq job hrun hgen
    exact sampled_of_ordinary hlane hs h hands hq hrun hgen
  · intro start hstart
    rcases List.mem_append.mp hstart with hstart | hstart
    · exact hs.kept start hstart
    · rw [List.mem_singleton.mp hstart]
      exact howed

theorem record_loads {job : ResolveJob} (hlane : op.isLane = false) (hs : Inv g s)
    (h : s.player.step cfg g op = some player)
    (hfree : ∀ id, s.player.state.tracks = some id → s.player.edits id = [])
    (hasks : s.player.asks op = Option.none) (hloads : s.player.opensContext op = true)
    (hqueued : s.player.upcomingQueue = some job.queued)
    (hsame : player.state.tracks = s.player.state.tracks)
    (hgen : player.loadGen = s.player.loadGen + 1)
    (hloader : player.loader = (s.player.loader.submit (s.player.resolveJob job)).2) :
    Inv g (s.record op player) := by
  have hlists := step_lists hlane h
  have hworker := (step_frame hlane h).1
  have howed : s.owed.Sublist (entries job.queued) := by
    cases htracks : s.player.state.tracks with
    | none => rw [hs.none htracks]; exact List.nil_sublist _
    | some id =>
      have hholds := hs.holds id htracks
      rw [AppPlayer.Holds, hfree id htracks, List.foldl_nil] at hholds
      rwa [waitingIn_of_upcoming htracks hqueued] at hholds
  have hrecord : s.record op player = { s with player } := by
    simp [record, hasks, startsList_of_loads hloads, moved, hsame, passed_of_lists hlists]
  rw [hrecord]
  refine ⟨step_grounded hs.grounded h, fun hnone => hs.none (hsame ▸ hnone), ?_, ?_,
    landed_of_step hlane hs h, hs.kept⟩
  · intro id hid
    have hedits : player.edits id = s.player.edits id :=
      edits_of_no_edit hworker hloader rfl
    exact (hs.holds id (hsame ▸ hid)).of_same hlists hedits
  · intro q hq job' hrun hcurrent
    rcases jobs_of_submit hlane h hloader hq with hold | rfl
    · have hbefore := current_of_step hs.grounded h hold hrun hcurrent
      simp only at hcurrent
      omega
    · obtain rfl : job = job' := Work.resolve.inj hrun
      exact howed

theorem record_edited {id : ListId} {work : ListWork} (hlane : op.isLane = false) (hs : Inv g s)
    (h : s.player.step cfg g op = some player)
    (hroom : s.player.loader.queue.length < loaderQueueSize)
    (hfree : ∀ q ∈ s.player.jobs, ∀ job, q.run = .resolve job → q.gen ≠ s.player.loadGen)
    (htracks : s.player.state.tracks = some id) (hasks : s.player.asks op = some work)
    (hedit : work.isEdit = true) (hsame : player.state.tracks = s.player.state.tracks)
    (hgen : player.loadGen = s.player.loadGen)
    (hloader : player.loader = (s.player.loader.submit
      { cls := .mutate, gen := s.player.loadGen, run := .list id work }).2) :
    Inv g (s.record op player) := by
  have hlists := step_lists hlane h
  have hworker := (step_frame hlane h).1
  have haccepts : accepts { cls := .mutate, gen := s.player.loadGen, run := .list id work }
      s.player.loader = true := by
    simp [accepts, hs.grounded.sound.lane.isOpen, LoaderLane.makeRoom, hroom]
  simp only [record, hasks]
  refine ⟨step_grounded hs.grounded h, ?_, ?_, ?_, landed_of_step hlane hs h, hs.kept⟩
  · intro hnone
    simp [hsame, htracks] at hnone
  · intro id' hid
    obtain rfl : id = id' := by simpa [hsame, htracks] using hid
    have hedits : player.edits id = s.player.edits id ++ [work] := by
      rw [edits_submit hworker hloader, if_pos haccepts]
      simp [LoaderLane.kept, LoaderClass.fetches, Work.editOf, hedit]
    have hholds := hs.holds id htracks
    unfold AppPlayer.Holds at hholds ⊢
    rw [hedits, waitingIn_of_lists hlists, List.foldl_append]
    exact foldl_edit_mono [work] hholds
  · intro q hq job hrun hcurrent
    rcases jobs_of_submit hlane h hloader hq with hold | rfl
    · exact absurd (hcurrent.trans hgen) (hfree q hold job hrun)
    · simp at hrun

theorem step_inv (hs : Inv g s) (hc : Orderly s op) (h : s.step cfg g op = some s') : Inv g s' := by
  obtain ⟨player, hplayer, rfl⟩ := Option.map_eq_some_iff.mp h
  cases hlane : op.isLane with
  | true => exact record_lane hlane hs hplayer
  | false =>
    cases step_proceeds hlane hs.grounded hplayer with
    | ordinary hasks hands =>
      cases hstarts : s.player.startsList op with
      | none => exact record_ordinary hlane hs hplayer hasks hstarts hands
      | some => exact record_started hlane hs hplayer hasks hstarts hands
    | edited _ _ htracks hasks hedit hsame hgen hloader =>
      obtain ⟨hroom, hfree⟩ := hc.asks (by simp [hasks])
      exact record_edited hlane hs hplayer hroom hfree htracks hasks hedit hsame hgen hloader
    | loads _ hasks hloads hqueued hsame hgen hloader =>
      exact record_loads hlane hs hplayer (hc.loads hloads) hasks hloads hqueued hsame hgen hloader

/-- The queue survives the start of a context, if it is changed neither while a context is being
loaded nor just before. -/
theorem queue_kept_of_orderly {ops : List Op} (h : Meets (step cfg g) Orderly {} ops) :
    Always (step cfg g) Kept {} ops := by
  have hinv : Always (step cfg g) (Inv g) {} ops :=
    always_of_meets (fun _ _ _ => step_inv) inv_new h
  exact hinv.imp fun s hs => hs.kept

/-! ## Runs in which a queued track is lost, and one in which it is not -/

open AppPlayer (here knownTrack served roundTrip playingRun)

/-- The lane has not come to the change of the queue when the next context is asked for. -/
def hurriedRun : List Op :=
  let answers := served [knownTrack, knownTrack]
  playingRun ++ queuedTrack :: nextContext :: roundTrip 0 answers ++ roundTrip 0 answers

/-- The track is queued while the next context is being loaded. -/
def meanwhileRun : List Op :=
  let answers := served [knownTrack, knownTrack]
  playingRun ++ nextContext :: [.take fun _ => 0, .finish answers] ++ queuedTrack ::
    [.deliver, .receive { now := 0 }]

def lastStart (s : QueueHistory) : Option (Nat × Nat) :=
  s.starts.getLast?.map fun start => (start.1.length, start.2.length)

theorem not_kept_of_lastStart {ops : List Op} {owed there : Nat}
    (hrun : (exec (step here drawZero) {} ops).bind lastStart = some (owed, there))
    (hlost : there < owed) : ¬ Always (step here drawZero) Kept {} ops := by
  intro h
  obtain ⟨t, ht, hend⟩ := Option.bind_eq_some_iff.mp hrun
  obtain ⟨start, hstart, heq⟩ := Option.map_eq_some_iff.mp hend
  have hlen := (h.last ht start (List.mem_of_getLast? hstart)).length_le
  simp only [Prod.mk.injEq] at heq
  omega

theorem queue_lost : ¬ Always (step here drawZero) Kept {} hurriedRun ∧
    ¬ Always (step here drawZero) Kept {} meanwhileRun := by
  have hhurried : (exec (step here drawZero) {} hurriedRun).bind lastStart = some (1, 0) := by
    decide +kernel
  have hmeanwhile : (exec (step here drawZero) {} meanwhileRun).bind lastStart = some (1, 0) := by
    decide +kernel
  exact ⟨not_kept_of_lastStart hhurried Nat.one_pos, not_kept_of_lastStart hmeanwhile Nat.one_pos⟩

instance (s : QueueHistory) (op : Op) : Decidable (Orderly s op) :=
  decidable_of_iff (_ ∧ (_ → ∀ id ∈ s.player.state.tracks, _)) (orderly_iff s op).symm

theorem queue_kept_unhurried : (exec (step here drawZero) {} unhurriedRun).bind lastStart =
      some (1, 1) ∧ Always (step here drawZero) Kept {} unhurriedRun := by
  exact ⟨by decide +kernel, queue_kept_of_orderly (by decide +kernel)⟩

end QueueHistory

end Librespot.Daemon