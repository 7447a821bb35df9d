import Librespot.Daemon.QueueWalks
import Librespot.Daemon.Unrun

/-!
# The jobs that change the queue

A change of the queue is a job of its own on the list that is current when it comes, and the
load of a context is a job that has read the queue.
-/

open Base.Run
open Librespot.Tracks
open Librespot.Daemon.LoaderLane (kept accepts)

namespace Librespot.Daemon

open LoaderLane

/-- The change that the job makes to the queue of the list `id`. -/
def Work.editOf (id : ListId) : Work → Option ListWork
  | .list id' work => if id' = id ∧ work.isEdit = true then some work else none
  | _ => none

/-- The job walks the list `id`, and may take tracks off its queue. -/
def Work.movesIn (id : ListId) : Work → Bool
  | .list id' work => id' = id && !work.isEdit
  | _ => false

variable {work : Work}

theorem Work.editOf_of_not_special (h : work.special = false) (id : ListId) :
    work.editOf id = none := by
  cases work with
  | list _ work => cases work <;> simp_all [Work.editOf, Work.special, ListWork.isEdit]
  | _ => rfl

theorem Work.editOf_eq_some {id : ListId} {edit : ListWork}
    (h : work.editOf id = some edit) : work = .list id edit ∧ edit.isEdit = true := by
  cases work with
  | list =>
    simp only [Work.editOf, Option.ite_none_right_eq_some, Option.some.injEq] at h
    obtain ⟨⟨rfl, hedit⟩, rfl⟩ := h
    exact ⟨rfl, hedit⟩
  | _ => simp [Work.editOf] at h

namespace AppPlayer

variable {cfg : Config} {g : Rand} {m : Moment} {p p' : AppPlayer} {id : ListId}

/-! ## Changes of the queue that have not been made -/

/-- The changes of the queue that the lane has yet to make, in its order. -/
def edits (id : ListId) (p : AppPlayer) : List ListWork :=
  (kept p.unrun).filterMap fun job => job.run.editOf id

variable {job q : LoaderJob Work} {a : Answers} {walk : ListWork} {owed : List Entry}
  {list : ListId} {op : Op} {res : LoaderResult} {lists : List TrackList}

theorem edits_submit (hworker : p'.worker = p.worker)
    (hloader : p'.loader = (p.loader.submit job).2) :
    p'.edits id = p.edits id ++ if accepts job p.loader then
      (kept [job]).filterMap (fun job => job.run.editOf id) else [] := by
  rw [edits, edits, kept_unrun_submit hworker hloader, List.filterMap_append]
  split <;> rfl

theorem kept_no_edit (h : job.run.editOf id = none) :
    (kept [job]).filterMap (fun job => job.run.editOf id) = [] := by
  unfold kept
  cases hf : job.cls.fetches <;> simp [hf, h]

theorem edits_of_no_edit (hworker : p'.worker = p.worker)
    (hloader : p'.loader = (p.loader.submit job).2) (hjob : job.run.editOf id = none) :
    p'.edits id = p.edits id := by
  rw [edits_submit hworker hloader, kept_no_edit hjob]
  split <;> exact List.append_nil _

theorem edits_of_hands (hworker : p'.worker = p.worker) (h : Hands false p.loader p'.loader) :
    p'.edits id = p.edits id := by
  generalize hl : p'.loader = l at h
  cases h with
  | kept => rw [edits, edits, unrun_congr hworker hl]
  | submitted job _ hextra =>
    have hspecial : job.run.special = false := by
      by_contra hne
      simpa using hextra (by simpa using hne)
    exact edits_of_no_edit hworker hl (Work.editOf_of_not_special hspecial id)
  | dropped =>
    rw [edits, edits, unrun_eq, unrun_eq, hworker, hl, kept_append, kept_append, kept_dropLoads]

/-! ## The load of a context -/

/-- The handler has read the queue and left the load of a context with the lane. -/
structure Samples (job : ResolveJob) (p p' : AppPlayer) : Prop where
  queued : p.upcomingQueue = some job.queued
  loader : p'.loader = (p.loader.submit (p.resolveJob job)).2
  loadGen : p'.loadGen = p.loadGen + 1
  worker : p'.worker = p.worker
  results : p'.results = p.results
  lists : p'.lists = p.lists
  tracks : p'.state.tracks = p.state.tracks

theorem Samples.after {q : AppPlayer} {job : ResolveJob} (h : Samples job q p')
    (hground : q.ground = p.ground) (hgen : q.loadGen = p.loadGen) : Samples job p p' := by
  simp only [ground, Prod.mk.injEq] at hground
  obtain ⟨hloader, hworker, hresults, hlists, htracks⟩ := hground
  have hjob : q.resolveJob job = p.resolveJob job := by rw [resolveJob, resolveJob, hgen]
  refine ⟨?_, ?_, hgen ▸ h.loadGen, h.worker.trans hworker, h.results.trans hresults,
    h.lists.trans hlists, h.tracks.trans htracks⟩
  · have hqueued := h.queued
    rwa [upcomingQueue, htracks, hlists] at hqueued
  · rw [h.loader, hloader, hjob]

theorem loadContext_samples {context : Context} {skipTo : Option SkipTo} {paused drop : Bool}
    {k : Then} (h : p.loadContext m context skipTo paused drop k = some p') :
    ∃ job, Samples job p p' := by
  simp only [loadContext, Option.bind_eq_bind, Option.bind_eq_some_iff] at h
  obtain ⟨options, -, queued, hqueued, h⟩ := h
  cases h
  generalize restrict context.restrictions options = restricted at *
  refine ⟨⟨context, skipTo, restricted.shufflingContext, queued, paused, drop, k⟩, ?_⟩
  apply Samples.after (q := p.updatePlayer (claimContext m.now context.uri restricted paused))
  · exact ⟨hqueued, rfl, rfl, rfl, rfl, rfl, rfl⟩
  · rfl
  · rfl

theorem playCommand_samples {req : PlayCommand} (h : p.playCommand m req = some p') :
    ∃ job, Samples job p p' := by
  simp only [playCommand, Option.bind_eq_bind, Option.bind_eq_some_iff] at h
  obtain ⟨origin, -, options, -, h⟩ := h
  obtain ⟨job, hjob⟩ := loadContext_samples h
  refine ⟨job, hjob.after ?_ rfl⟩
  simp [ground, withOptions, updatePlayer]

theorem commit_samples {c : Commit} (hc : c.special = true) (h : p.commit cfg m c = some p') :
    ∃ job, Samples job p p' := by
  cases c with
  | station => exact loadContext_samples h
  | apiPlay =>
    obtain ⟨job, hjob⟩ := loadContext_samples h
    refine ⟨job, hjob.after ?_ rfl⟩
    simp [ground, setPaused, updatePlayer]
  | _ => simp [Commit.special] at hc

/-! ## What a step is about -/

/-- The queue of the list `id`. -/
def waitingIn (id : ListId) (p : AppPlayer) : List Entry :=
  entries ((p.lists[id]?.map TrackList.waiting).getD [])

/-- The list that the step makes the current one by starting a context. -/
def startsList (p : AppPlayer) : Op → Option ListId
  | .receive _ => p.results.head?.bind fun res =>
    match res.commit with
    | .resolved _ list _ =>
      if res.job.cls = .load ∧ res.job.gen = p.loadGen then some list else none
    | _ => none
  | _ => none

/-- What a walk of the lane has taken off the current queue. -/
def passed (p p' : AppPlayer) : List Entry :=
  match p.state.tracks with
  | none => []
  | some id =>
    if p.worker.toRun.any fun job => job.run.movesIn id then
      (p.waitingIn id).take ((p.waitingIn id).length - (p'.waitingIn id).length)
    else []

/-- The change of the queue that the step asks for. -/
def asks (p : AppPlayer) : Op → Option ListWork
  | .command _ (.addToQueue track) => p.state.tracks.map fun _ =>
    .addToQueue (if track.uid = "" then
      { track with uid := s!"q{(p.state.queueID + 1) % 2 ^ 64}" } else track)
  | .command _ (.setQueue next) => p.state.tracks.map fun _ => .setQueue next
  | _ => none

/-- The step may start the load of a context. -/
def opensContext (p : AppPlayer) : Op → Bool
  | .command _ (.play _) => true
  | .receive _ => p.results.head?.any fun res => res.commit.special && !p.stale res.job
  | _ => false

/-! ## The lane's goroutine -/

theorem edits_take (hok : LaneOk p) {clock : Nat → Int} (h : p.take clock = some p') :
    p'.edits id = p.edits id := by
  rw [edits, edits, kept_unrun_take hok h]

theorem edits_deliver (h : p.deliver = some p') : p'.edits id = p.edits id := by
  rw [edits, edits, unrun_deliver h]

theorem edits_finish (id : ListId) (h : p.finish g a = some p') :
    ∃ job, p.worker = .running job ∧
      p.edits id = (kept [job]).filterMap (fun job => job.run.editOf id) ++ p'.edits id := by
  obtain ⟨job, hw, hunrun⟩ := unrun_finish h
  refine ⟨job, hw, ?_⟩
  rw [edits, edits, hunrun, ← List.filterMap_append, ← kept_append]
  rfl

theorem waitingIn_of_lists (h : p'.lists = p.lists) (id : ListId) :
    p'.waitingIn id = p.waitingIn id := by
  rw [waitingIn, waitingIn, h]

theorem passed_of_lists (h : p'.lists = p.lists) : p.passed p' = [] := by
  unfold passed
  split
  · rfl
  · split
    · rw [waitingIn_of_lists h, Nat.sub_self, List.take_zero]
    · rfl

theorem waitingIn_runWork {commit : Commit}
    (hid : id < p.lists.length) (hne : ∀ walk, work ≠ .list id walk)
    (h : runWork g a p.lists work = some (commit, lists)) : lists[id]? = p.lists[id]? := by
  cases runWork_remakes h with
  | nothing => rfl
  | @walked id' work =>
    have hne' : id' ≠ id := fun heq => hne work (heq ▸ rfl)
    exact List.getElem?_set_ne hne'
  | new => exact List.getElem?_append_left hid

theorem waitingIn_walk {commit : Commit}
    (hbuilt : ∀ l ∈ p.lists, Built g l) (hvalid : ∀ l ∈ p.lists, l.tracks.Valid)
    (h : runWork g a p.lists (.list id walk) = some (commit, lists)) :
    ∃ list list', p.lists[id]? = some list ∧ lists[id]? = some list' ∧
      (walk.isEdit = true → entries list'.waiting = walk.edit (entries list.waiting)) ∧
      (walk.isEdit = false →
        list'.waiting <:+ list.waiting ∨ list.waiting.Sublist list'.waiting) := by
  have hqueued {list : TrackList} (hid : p.lists[id]? = some list) :
      list.playingQueue = true → list.queue ≠ [] := by
    obtain ⟨typ, ops, hruns⟩ := hbuilt list (List.mem_of_getElem? hid)
    exact TrackList.reachable_queued hruns
  cases ends_of_runWork h with
  | walkFailed hid hwalk =>
    refine ⟨_, _, hid, List.getElem?_set_self (List.getElem?_eq_some_iff.mp hid).1, ?_, ?_⟩
    · exact fun hedit => (walk_edit hedit (hqueued hid) hwalk).2
    · exact fun hedit => walk_moves hedit (hvalid _ (List.mem_of_getElem? hid)) hwalk
  | walked hid hwalk hsnap =>
    refine ⟨_, _, hid, List.getElem?_set_self (List.getElem?_eq_some_iff.mp hid).1, ?_, ?_⟩
    · rw [snapshot_waiting hsnap]
      exact fun hedit => (walk_edit hedit (hqueued hid) hwalk).2
    · rw [snapshot_waiting hsnap]
      exact fun hedit => walk_moves hedit (hvalid _ (List.mem_of_getElem? hid)) hwalk

/-! ## What is owed -/

/-- The queue still holds what is owed once the lane has caught up. -/
def Holds (owed : List Entry) (id : ListId) (p : AppPlayer) : Prop :=
  owed.Sublist ((p.edits id).foldl ListWork.edit (p.waitingIn id))

theorem passed_suffix {before after : List ContextTrack} (h : after <:+ before) :
    entries before =
      (entries before).take ((entries before).length - (entries after).length) ++ entries after := by
  obtain ⟨front, rfl⟩ := h
  simp [entries]

theorem passed_eq (htracks : p.state.tracks = some id) (hw : p.worker = .running job) :
    p.passed p' = if job.run.movesIn id then
      (p.waitingIn id).take ((p.waitingIn id).length - (p'.waitingIn id).length) else [] := by
  simp [passed, htracks, hw, Worker.toRun]

theorem kept_edit (hlawful : job.Lawful) (hwalk : job.run = .list id walk)
    (hedit : walk.isEdit = true) :
    (kept [job]).filterMap (fun job => job.run.editOf id) = [walk] := by
  have hcls : job.cls.fetches = false := by
    rw [hlawful.cls, hwalk]
    cases walk <;> simp_all [ListWork.isEdit, Work.cls, ListWork.cls, LoaderClass.fetches]
  simp [kept, hcls, hwalk, Work.editOf, hedit]

theorem edited_holds (hlawful : job.Lawful) (hwalk : job.run = .list id walk)
    (hedit : walk.isEdit = true)
    (hedits : p.edits id = (kept [job]).filterMap (fun job => job.run.editOf id) ++ p'.edits id)
    (hwaiting : p'.waitingIn id = walk.edit (p.waitingIn id)) (ho : Holds owed id p) :
    Holds owed id p' := by
  unfold Holds at ho ⊢
  rw [hedits, kept_edit hlawful hwalk hedit, List.singleton_append, List.foldl_cons] at ho
  rw [hwaiting]
  exact ho

theorem moved_holds {list list' : TrackList} (hedits : p'.edits id = p.edits id)
    (hbefore : p.waitingIn id = entries list.waiting)
    (hafter : p'.waitingIn id = entries list'.waiting)
    (hmoves : list'.waiting <:+ list.waiting ∨ list.waiting.Sublist list'.waiting)
    (ho : Holds owed id p) :
    Holds (owed.diff ((p.waitingIn id).take
      ((p.waitingIn id).length - (p'.waitingIn id).length))) id p' := by
  unfold Holds at ho ⊢
  rw [hbefore] at ho ⊢
  rw [hafter, hedits]
  rcases hmoves with hsuffix | hsub
  · rw [passed_suffix hsuffix] at ho
    exact diff_sublist_foldl_edit _ ho
  · have hlen : (entries list.waiting).length - (entries list'.waiting).length = 0 := by
      have := hsub.length_le
      simp only [entries, List.length_map]
      omega
    rw [hlen, List.take_zero, List.diff_nil]
    exact ho.trans (foldl_edit_mono _ (hsub.map entry))

theorem finish_holds (hp : Grounded g p) (htracks : p.state.tracks = some id)
    (hid : id < p.lists.length) (h : p.finish g a = some p') (ho : Holds owed id p) :
    Holds (owed.diff (p.passed p')) id p' := by
  obtain ⟨job, hw, hedits⟩ := edits_finish id h
  obtain ⟨job', commit, lists, hw', hrun, hp'⟩ := finish_spec h
  obtain rfl : job = job' := by rw [hw] at hw'; exact Worker.running.inj hw'
  have hlists : p'.lists = lists := by rw [hp']
  rw [passed_eq htracks hw]
  by_cases hmine : ∃ walk, job.run = .list id walk
  · obtain ⟨walk, hwalk⟩ := hmine
    rw [hwalk] at hrun
    obtain ⟨list, list', hlist, hlist', hedit, hmoves⟩ := waitingIn_walk hp.built hp.sound.valid hrun
    have hbefore : p.waitingIn id = entries list.waiting := by simp [waitingIn, hlist]
    have hafter : p'.waitingIn id = entries list'.waiting := by simp [waitingIn, hlists, hlist']
    cases he : walk.isEdit with
    | true =>
      have hlawful : job.Lawful := hp.tame.jobs job (by simp [jobs, hw, Worker.jobs])
      have hstill : job.run.movesIn id = false := by simp [hwalk, Work.movesIn, he]
      rw [hstill, if_neg Bool.false_ne_true, List.diff_nil]
      exact edited_holds hlawful hwalk he hedits (by rw [hafter, hbefore, hedit he]) ho
    | false =>
      have hnone : job.run.editOf id = none := by simp [hwalk, Work.editOf, he]
      have hmove : job.run.movesIn id = true := by simp [hwalk, Work.movesIn, he]
      rw [kept_no_edit hnone, List.nil_append] at hedits
      rw [if_pos hmove]
      exact moved_holds hedits.symm hbefore hafter (hmoves he) ho
  · have hne : ∀ walk, job.run ≠ .list id walk := fun walk hwalk => hmine ⟨walk, hwalk⟩
    have hsame : p'.waitingIn id = p.waitingIn id := by
      rw [waitingIn, waitingIn, hlists, waitingIn_runWork hid hne hrun]
    have hother : job.run.movesIn id = false := by
      cases hjob : job.run with
      | list id' walk =>
        have : id' ≠ id := fun heq => hne walk (heq ▸ hjob)
        simp [Work.movesIn, this]
      | _ => rfl
    have hnone : job.run.editOf id = none := by
      rw [Option.eq_none_iff_forall_ne_some]
      intro edit hedit
      exact hne edit (Work.editOf_eq_some hedit).1
    rw [kept_no_edit hnone, List.nil_append] at hedits
    rw [hother, if_neg Bool.false_ne_true, List.diff_nil]
    unfold Holds at ho ⊢
    rw [hsame, ← hedits]
    exact ho

/-! ## Steps of the loop -/

theorem step_lists (hlane : op.isLane = false) (h : p.step cfg g op = some p') :
    p'.lists = p.lists := by
  cases step_form h with
  | lane hop => simp [hlane] at hop
  | stopped hstop =>
    subst hstop
    rfl
  | handled q htouched hends =>
    have hlists : p'.lists = q.lists := by
      rcases hends with hq | ⟨job, hs⟩
      · exact congrArg Frame.lists hq.frame
      · exact congrArg Frame.lists hs.frame
    exact hlists.trans htouched.lists

/-- A step leaves the queue alone, asks for a change of it, or takes it into a new context. -/
inductive Proceeds (op : Op) (p p' : AppPlayer) : Prop
  | ordinary (hasks : p.asks op = none) (hands : Hands false p.loader p'.loader)
  | edited (id : ListId) (work : ListWork) (htracks : p.state.tracks = some id)
      (hasks : p.asks op = some work) (hedit : work.isEdit = true)
      (hsame : p'.state.tracks = p.state.tracks) (hgen : p'.loadGen = p.loadGen)
      (hloader : p'.loader =
        (p.loader.submit { cls := .mutate, gen := p.loadGen, run := .list id work }).2)
  | loads (job : ResolveJob) (hasks : p.asks op = none) (hloads : p.opensContext op = true)
      (hqueued : p.upcomingQueue = some job.queued)
      (hsame : p'.state.tracks = p.state.tracks) (hgen : p'.loadGen = p.loadGen + 1)
      (hloader : p'.loader = (p.loader.submit (p.resolveJob job)).2)

theorem command_proceeds {cmd : Command} (hcmd : cmd.special = true)
    (h : p.handleCommand cfg m cmd = some p') : Proceeds (.command m cmd) p p' := by
  cases cmd with
  | play =>
    obtain ⟨job, hjob⟩ := playCommand_samples h
    exact .loads job rfl rfl hjob.queued hjob.tracks hjob.loadGen hjob.loader
  | addToQueue =>
    simp only [handleCommand, addToQueue] at h
    cases htracks : p.state.tracks with
    | none =>
      rw [htracks] at h
      exact Option.some.inj h ▸ .ordinary (by simp [asks, htracks]) .kept
    | some id =>
      simp only [htracks] at h
      split at h
      · rename_i huid
        cases h
        exact .edited id _ htracks (by simp [asks, htracks, huid]) rfl htracks.symm rfl rfl
      · rename_i huid
        cases h
        exact .edited id _ htracks (by simp [asks, htracks, huid]) rfl rfl rfl rfl
  | setQueue =>
    simp only [handleCommand, setQueue] at h
    cases htracks : p.state.tracks with
    | none =>
      rw [htracks] at h
      exact Option.some.inj h ▸ .ordinary (by simp [asks, htracks]) .kept
    | some id =>
      simp only [htracks] at h
      cases h
      exact .edited id _ htracks (by simp [asks, htracks]) rfl rfl rfl rfl
  | _ => simp [Command.special] at hcmd

theorem receive_proceeds {rest : List LoaderResult} (hresults : p.results = res :: rest)
    (hspecial : res.commit.special = true) (hcls : res.job.cls = .load)
    (h : p.handle cfg (.receive m) = some p') : Proceeds (.receive m) p p' := by
  simp only [handle, hresults, applyLoaderResult] at h
  split at h
  · rename_i hcurrent
    simp only [Option.map_eq_some_iff] at h
    obtain ⟨q, hq, rfl⟩ := h
    obtain ⟨job, hqueued, hloader, hgen, -, -, -, htracks⟩ := commit_samples hspecial hq
    have hloads : p.opensContext (.receive m) = true := by
      have hgen : res.job.gen = p.loadGen := hcurrent.2
      simp [opensContext, hresults, hspecial, stale, generation, hcls, hgen]
    exact .loads job rfl hloads hqueued htracks hgen hloader
  · rename_i hcurrent
    have hgen : res.job.gen ≠ p.loadGen := fun hgen => hcurrent ⟨hcls, hgen⟩
    rw [if_pos (by simp [stale, generation, hcls, hgen])] at h
    cases h
    refine .ordinary rfl ?_
    unfold discard
    split
    · split <;> exact .kept
    · exact .kept

theorem step_proceeds (hlane : op.isLane = false) (hp : Grounded g p)
    (h : p.step cfg g op = some p') : Proceeds op p p' := by
  cases hspecial : p.special op with
  | false =>
    have hhands := (step_counts hlane hp.tame.results hp.ledger h).lane
    rw [hspecial] at hhands
    refine .ordinary ?_ hhands
    cases op with
    | command _ cmd => cases cmd <;> first | rfl | simp [special, Command.special] at hspecial
    | _ => rfl
  | true =>
    cases op with
    | command => exact command_proceeds hspecial (handle_of_step rfl h)
    | receive =>
      cases hresults : p.results with
      | nil => simp [special, hresults] at hspecial
      | cons res =>
        simp only [special, hresults, List.head?_cons, Option.any_some] at hspecial
        have hmem := p.head_mem_finished hresults
        have hgives := hp.sound.gives res hmem
        have hcls : res.job.cls = .load := by
          rw [hp.cls (finished_mem_jobs hmem)]
          generalize res.commit = commit at hgives hspecial
          cases hrun : res.job.run <;> rw [hrun] at hgives <;> cases hgives <;>
            first | rfl | simp [Commit.special] at hspecial
        exact receive_proceeds hresults hspecial hcls (handle_of_step rfl h)
    | _ => simp [special] at hspecial

theorem startsList_tracks (hstart : p.startsList op = some list) (h : p.step cfg g op = some p') :
    p'.state.tracks = some list ∧
      ∃ res job snap, res ∈ p.finished ∧ res.job.gen = p.loadGen ∧
        res.commit = .resolved job list snap := by
  cases op with
  | receive =>
    simp only [startsList] at hstart
    obtain ⟨res, hhead, hstart⟩ := Option.bind_eq_some_iff.mp hstart
    obtain ⟨rest, hresults⟩ := List.head?_eq_some_iff.mp hhead
    split at hstart
    · rename_i job id snap hcommit
      simp only [Option.ite_none_right_eq_some, Option.some.injEq] at hstart
      obtain ⟨hcurrent, rfl⟩ := hstart
      have hmem := p.head_mem_finished hresults
      refine ⟨?_, res, job, snap, hmem, hcurrent.2, hcommit⟩
      have h := handle_of_step rfl h
      simp only [handle, hresults, applyLoaderResult] at h
      rw [if_pos hcurrent] at h
      simp only [Option.map_eq_some_iff, hcommit] at h
      obtain ⟨q, hq, rfl⟩ := h
      have hacts : Acts _ q := commit_effect hq
      show q.state.tracks = some id
      rcases hacts with hquiet | ⟨job, -, hsubmits⟩
      · exact hquiet.tracks
      · exact congrArg Frame.tracks hsubmits.frame
    · simp at hstart
  | _ => simp [startsList] at hstart

theorem startsList_of_loads (h : p.opensContext op = true) : p.startsList op = none := by
  cases op with
  | receive =>
    cases hresults : p.results with
    | nil => simp [startsList, hresults]
    | cons res =>
      simp only [opensContext, hresults, List.head?_cons, Option.any_some, Bool.and_eq_true] at h
      have hcommit := h.1
      cases hc : res.commit <;> simp_all [startsList, Commit.special]
  | _ => rfl

/-! ## Jobs that read the queue -/

/-- A list that has been resolved starts with the queue that was read for it. -/
def Landed (p : AppPlayer) : Prop :=
  ∀ res ∈ p.finished, ∀ job list snap, res.commit = .resolved job list snap →
    p.waitingIn list = entries job.queued

theorem Landed.of_finished (hp : Landed p) (hlists : p'.lists = p.lists)
    (hfinished : ∀ res ∈ p'.finished, res ∈ p.finished) : Landed p' := by
  intro res hres job list snap hcommit
  rw [waitingIn_of_lists hlists]
  exact hp res (hfinished res hres) job list snap hcommit

theorem runWork_resolved {lists' : List TrackList} {job : ResolveJob} {snap : TrackList.Snapshot}
    (h : runWork g a lists work = some (.resolved job list snap, lists')) :
    ∃ new, resolveContext g a job = some (.ok (new, snap)) ∧ list = lists.length ∧
      lists' = lists ++ [new] := by
  cases ends_of_runWork h with
  | resolved hnew => exact ⟨_, hnew, rfl, rfl⟩

theorem finished_of_step (hlane : op.isLane = false) (h : p.step cfg g op = some p')
    (hres : res ∈ p'.finished) : res ∈ p.finished := by
  obtain ⟨hworker, hresults⟩ := step_frame hlane h
  rw [finished, hworker] at hres
  rcases List.mem_append.mp hres with hres | hres
  · exact List.mem_append_left _ (hresults.subset hres)
  · exact List.mem_append_right _ hres

theorem finish_ahead_list (hp : Grounded g p) (h : p.finish g a = some p')
    (hres : res ∈ p.finished) {val : Bool} (hlanding : res.commit.landing = some (list, val)) :
    p'.lists[list]? = p.lists[list]? := by
  obtain ⟨-, job, commit, hjob, hrun, -⟩ := finish_finished h
  have hbelow := hp.sound.below list (landing_mem_ahead hres hlanding)
  have hlt : list < p.lists.length := by
    have hbuilt := hp.sound.built res hres list _ hlanding
    simpa [length_flags] using (List.getElem?_eq_some_iff.mp hbuilt).1
  have hmem : job ∈ p.jobs := List.mem_append_right _ (List.mem_append_left _ hjob)
  have hne (walk : ListWork) : job.run ≠ .list list walk :=
    fun hwalk => (hbelow.jobs job hmem list walk hwalk).false
  exact waitingIn_runWork hlt hne hrun

theorem finish_landed (hp : Grounded g p) (h : p.finish g a = some p') (hlanded : Landed p) :
    Landed p' := by
  obtain ⟨-, job, commit, hjob, hrun, hfinished⟩ := finish_finished h
  intro res hres job' list snap hcommit
  rw [hfinished] at hres
  rcases List.mem_append.mp hres with hres | hres
  · have hlanding : res.commit.landing = some (list, job'.shuffle) := by rw [hcommit]; rfl
    rw [waitingIn, finish_ahead_list hp h hres hlanding]
    exact hlanded res hres job' list snap hcommit
  · obtain rfl := List.mem_singleton.mp hres
    simp only at hcommit
    rw [hcommit] at hrun
    obtain ⟨new, hnew, rfl, hlists⟩ := runWork_resolved hrun
    have hlist : p'.lists[p.lists.length]? = some new := by rw [hlists]; simp
    rw [waitingIn, hlist]
    exact resolveContext_waiting hnew

theorem jobs_of_step (hlane : op.isLane = false) (h : p.step cfg g op = some p')
    (hq : q ∈ p'.jobs) : q ∈ p.jobs ∨ q ∈ p'.loader.queue := by
  obtain ⟨hworker, hresults⟩ := step_frame hlane h
  simp only [jobs, List.mem_append, hworker] at hq ⊢
  rcases hq with hq | hq | hq
  · exact .inl (.inl ((hresults.map _).subset hq))
  · exact .inl (.inr (.inl hq))
  · exact .inr hq

theorem resolve_of_ordinary {job : ResolveJob} (hlane : op.isLane = false)
    (h : p.step cfg g op = some p') (hands : Hands false p.loader p'.loader) (hq : q ∈ p'.jobs)
    (hrun : q.run = .resolve job) : q ∈ p.jobs := by
  rcases jobs_of_step hlane h hq with hq | hq
  · exact hq
  · rcases hands.mem_queue hq with hq | ⟨-, hspecial⟩
    · exact List.mem_append_right _ (List.mem_append_right _ hq)
    · simp [hrun, Work.special] at hspecial

theorem jobs_of_submit (hlane : op.isLane = false) (h : p.step cfg g op = some p')
    (hloader : p'.loader = (p.loader.submit job).2) (hq : q ∈ p'.jobs) : q ∈ p.jobs ∨ q = job := by
  rcases jobs_of_step hlane h hq with hq | hq
  · exact .inl hq
  · rw [hloader] at hq
    rcases mem_submit hq with hq | hq
    · exact .inl (List.mem_append_right _ (List.mem_append_right _ hq))
    · exact .inr hq

theorem edits_of_below (h : p.Below id) : p.edits id = [] := by
  rw [edits, List.filterMap_eq_nil_iff]
  intro job hjob
  have hmem : job ∈ p.jobs := p.unrun_subset (mem_kept.mp hjob).1
  rw [Option.eq_none_iff_forall_ne_some]
  intro work hwork
  exact (h.jobs job hmem id work (Work.editOf_eq_some hwork).1).false

theorem current_of_step {job : ResolveJob} (hp : Grounded g p) (h : p.step cfg g op = some p')
    (hq : q ∈ p.jobs) (hrun : q.run = .resolve job) (hgen : q.gen = p'.loadGen) :
    q.gen = p.loadGen := by
  have hloads : q.cls.loads = true := by
    rw [hp.cls hq, hrun]
    rfl
  obtain ⟨new, hadds⟩ := step_adds hp.sound.lane h
  have hle : q.gen ≤ p.loadGen := hp.ledger.current q hq hloads
  have hmono : p.loadGen ≤ p'.loadGen := hadds.gen
  omega

theorem waitingIn_of_upcoming {queued : List ContextTrack} (htracks : p.state.tracks = some id)
    (h : p.upcomingQueue = some queued) : p.waitingIn id = entries queued := by
  rw [upcomingQueue, htracks] at h
  obtain ⟨list, hlist, h⟩ := Option.bind_eq_some_iff.mp h
  simp [waitingIn, hlist, waiting_of_upcomingQueue h]

/-! ## Steps of the lane -/

theorem lane_quiet (hop : op.isLane = true) (h : p.step cfg g op = some p') :
    p'.state = p.state ∧ p.asks op = none ∧ p.startsList op = none := by
  refine ⟨by rw [lane_eq hop h], ?_⟩
  cases op with
  | take | finish | deliver => exact ⟨rfl, rfl⟩
  | _ => simp [Op.isLane] at hop

theorem lane_landed (hop : op.isLane = true) (hp : Grounded g p) (h : p.step cfg g op = some p')
    (hlanded : Landed p) : Landed p' := by
  have he := step_effect h
  cases op with
  | take =>
    obtain ⟨-, -, -, hidle, loader, job, rfl⟩ := take_spec hp.sound.lane he
    refine hlanded.of_finished rfl ?_
    simp [finished, hidle, Worker.finished]
  | finish => exact finish_landed hp he hlanded
  | deliver =>
    obtain ⟨res, hw, rfl⟩ := deliver_spec he
    refine hlanded.of_finished rfl ?_
    simp [finished, hw, Worker.finished]
  | _ => simp [Op.isLane] at hop

theorem Holds.of_same (hlists : p'.lists = p.lists) (hedits : p'.edits id = p.edits id)
    (h : Holds owed id p) : Holds owed id p' := by
  unfold Holds at h ⊢
  rwa [hedits, waitingIn_of_lists hlists]

theorem lane_holds (hop : op.isLane = true) (hp : Grounded g p)
    (htracks : p.state.tracks = some id) (h : p.step cfg g op = some p') (ho : Holds owed id p) :
    Holds (owed.diff (p.passed p')) id p' := by
  have he := step_effect h
  cases op with
  | take =>
    have hlists : p'.lists = p.lists := by
      obtain ⟨-, -, -, -, loader, job, rfl⟩ := take_spec hp.sound.lane he
      rfl
    rw [passed_of_lists hlists, List.diff_nil]
    exact ho.of_same hlists (edits_take hp.sound.lane he)
  | finish =>
    have hbelow := hp.sound.below _ p.length_mem_ahead
    exact finish_holds hp htracks (hbelow.tracks id htracks) he ho
  | deliver =>
    have hlists : p'.lists = p.lists := by
      obtain ⟨res, -, rfl⟩ := deliver_spec he
      rfl
    rw [passed_of_lists hlists, List.diff_nil]
    exact ho.of_same hlists (edits_deliver he)
  | _ => simp [Op.isLane] at hop

end AppPlayer

end Librespot.Daemon
