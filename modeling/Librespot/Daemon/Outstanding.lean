import Librespot.Daemon.Messages

/-!
# The jobs that are outstanding

A job waits in the queue, is run, and its result waits to be delivered and then to
be received. What is outstanding is one list, oldest first.
-/

open Librespot.Tracks
open Librespot.Daemon.LoaderLane (kept accepts Shape)

namespace Librespot.Daemon

open AppPlayer LoaderLane

namespace LoaderLane

variable {κ : Type} {job : LoaderJob κ} {l : LoaderLane κ}

/-- The jobs that have to be run do not fill the queue. -/
def HasRoom (l : LoaderLane κ) : Prop := (kept l.queue).length < loaderQueueSize

instance (l : LoaderLane κ) : Decidable (HasRoom l) := inferInstanceAs (Decidable (_ < _))

theorem accepts_of_loads (hloads : job.cls.loads = true) (hopen : l.closed = false) :
    accepts job l = true ↔ HasRoom l := by
  unfold HasRoom accepts kept
  cases hc : job.cls <;> simp [hc, LoaderClass.loads] at hloads <;>
    simp [hopen, makeRoom, dropLoadsLocked]

theorem sublist_submit : ((l.submit job).2.queue).Sublist (l.queue ++ [job]) := by
  rcases submit_spec job l with ⟨-, hsub, -, -⟩ | ⟨-, -, queue, hq, hsub, -, -⟩
  · exact hsub.trans (List.sublist_append_left _ _)
  · rw [hq]
    exact hsub.append_right _

theorem mem_submit {q : LoaderJob κ} (h : q ∈ (l.submit job).2.queue) : q ∈ l.queue ∨ q = job := by
  have hq := sublist_submit.subset h
  simpa using hq

theorem self_mem_submit (h : accepts job l = true) : job ∈ (l.submit job).2.queue := by
  rcases submit_spec job l with ⟨hno, -⟩ | ⟨-, -, queue, hq, -⟩
  · rw [h] at hno
    simp at hno
  · rw [hq]
    simp

theorem loads_submit (h : job.cls.loads = false) :
    ((l.submit job).2.queue.filter fun q => q.cls.loads) =
      l.queue.filter fun q => q.cls.loads := by
  have hroom : ((l.makeRoom job.cls).2.queue.filter fun q => q.cls.loads) =
      l.queue.filter fun q => q.cls.loads := by
    cases hcls : job.cls with
    | load | nav => simp [hcls, LoaderClass.loads] at h
    | mutate => rfl
    | prefetch =>
      rw [makeRoom, List.filter_filter]
      refine List.filter_congr fun q _ => ?_
      cases q.cls <;> rfl
  unfold submit
  split
  · rfl
  · split
    · rfl
    · simp only
      split
      · exact hroom
      · rw [List.filter_append, hroom]
        simp [h]

theorem mem_submit_of_loads {q : LoaderJob κ} (hq : q ∈ l.queue) (hloads : q.cls.loads = true)
    (hjob : job.cls.loads = false) : q ∈ (l.submit job).2.queue := by
  have hmem : q ∈ l.queue.filter fun q => q.cls.loads := List.mem_filter.mpr ⟨hq, hloads⟩
  rw [← loads_submit hjob] at hmem
  exact (List.mem_filter.mp hmem).1

theorem closed_submit : (l.submit job).2.closed = l.closed := by
  rcases submit_spec job l with ⟨-, -, -, h⟩ | ⟨-, h, -⟩ <;> exact h

theorem shape_submit (h : Shape l.queue) (hlaw : job.notBefore ≠ none → job.cls = .load) :
    Shape (l.submit job).2.queue := by
  rcases submit_spec job l with ⟨-, hsub, -, -⟩ | ⟨-, -, queue, hq, hsub, -, hjob⟩
  · exact h.sublist hsub
  · rw [hq]
    exact (h.sublist hsub).append job hlaw hjob

theorem kept_submit : kept (l.submit job).2.queue =
    kept l.queue ++ if accepts job l then kept [job] else [] := by
  rcases submit_spec job l with ⟨ha, -, hkept, -⟩ | ⟨ha, -, queue, hq, -, hkept, -⟩
  · simp [ha, hkept]
  · simp [ha, hq, kept_append, hkept]

end LoaderLane

/-- A message that the player's loop receives. -/
def Op.isMessage : Op → Bool
  | .drain _ | .take _ | .finish _ | .deliver => false
  | _ => true

def Op.isLane : Op → Bool
  | .take _ | .finish _ | .deliver => true
  | _ => false

/-- The results that the step leaves to be received. -/
def Op.rest : Op → List LoaderResult → List LoaderResult
  | .receive _, results => results.tail
  | _, results => results

theorem Op.rest_sublist (op : Op) (results : List LoaderResult) :
    (op.rest results).Sublist results := by
  cases op with
  | receive => exact List.tail_sublist results
  | _ => exact List.Sublist.refl results

def Worker.jobs : Worker → List (LoaderJob Work)
  | .idle => []
  | .running job => [job]
  | .delivering res => [res.job]

namespace AppPlayer

variable {cfg : Config} {p p' : AppPlayer}

/-- All jobs that are outstanding, the oldest result first. -/
def jobs (p : AppPlayer) : List (LoaderJob Work) :=
  p.results.map LoaderResult.job ++ (p.worker.jobs ++ p.loader.queue)

/-- The lane is open, and what waits in it stands as `submit` leaves it. -/
structure LaneOk (p : AppPlayer) : Prop where
  isOpen : p.loader.closed = false
  shape : Shape p.loader.queue

theorem Quiet.jobs (h : Quiet p p') : p'.jobs = p.jobs := by
  have hres : p'.results = p.results := congrArg Frame.results h.frame
  have hwork : p'.worker = p.worker := congrArg Frame.worker h.frame
  rw [AppPlayer.jobs, AppPlayer.jobs, hres, hwork, h.loader]

theorem Quiet.laneOk (h : Quiet p p') (hok : LaneOk p) : LaneOk p' := by
  constructor
  · rw [h.loader]
    exact hok.isOpen
  · rw [h.loader]
    exact hok.shape

variable {job : LoaderJob Work} {g : Rand} {op : Op} {m : Moment} {rest : List LoaderResult}

theorem Submits.jobs_eq (h : Submits job p p') :
    p'.jobs = p.results.map LoaderResult.job ++ (p.worker.jobs ++ (p.loader.submit job).2.queue) := by
  have hres : p'.results = p.results := congrArg Frame.results h.frame
  have hwork : p'.worker = p.worker := congrArg Frame.worker h.frame
  rw [jobs, hres, hwork, h.loader]

theorem Submits.laneOk (h : Submits job p p') (hok : LaneOk p) : LaneOk p' := by
  constructor
  · rw [h.loader, closed_submit]
    exact hok.isOpen
  · rw [h.loader]
    exact shape_submit hok.shape h.lawful

theorem Submits.mem_jobs {q : LoaderJob Work} (h : Submits job p p') (hq : q ∈ p'.jobs) :
    q ∈ p.jobs ∨ q = job := by
  rw [h.jobs_eq] at hq
  simp only [jobs, List.mem_append] at hq ⊢
  rcases hq with hq | hq | hq
  · exact .inl (.inl hq)
  · exact .inl (.inr (.inl hq))
  · rcases mem_submit hq with hq | hq
    · exact .inl (.inr (.inr hq))
    · exact .inr hq

theorem Submits.self_mem (h : Submits job p p') (ha : accepts job p.loader = true) :
    job ∈ p'.jobs := by
  rw [h.jobs_eq]
  simp [self_mem_submit ha]

theorem Submits.mem_of_loads {q : LoaderJob Work} (h : Submits job p p') (hq : q ∈ p.jobs)
    (hloads : q.cls.loads = true) (hjob : job.cls.loads = false) : q ∈ p'.jobs := by
  rw [h.jobs_eq]
  simp only [jobs, List.mem_append] at hq ⊢
  rcases hq with hq | hq | hq
  · exact .inl hq
  · exact .inr (.inl hq)
  · exact .inr (.inr (mem_submit_of_loads hq hloads hjob))

theorem kept_jobs (p : AppPlayer) : kept p.jobs =
    kept (p.results.map LoaderResult.job) ++ (kept p.worker.jobs ++ kept p.loader.queue) := by
  rw [jobs, kept_append, kept_append]

theorem Submits.kept_jobs (h : Submits job p p') :
    kept p'.jobs = kept p.jobs ++ if accepts job p.loader then kept [job] else [] := by
  rw [h.jobs_eq, AppPlayer.kept_jobs, LoaderLane.kept_append, LoaderLane.kept_append,
    LoaderLane.kept_submit]
  simp only [List.append_assoc]

theorem stopPlayback_queue (hlane : LaneOk p) :
    p.stopPlayback.loader.queue = kept p.loader.queue ∧ p.stopPlayback.loader.closed = false := by
  simp [stopPlayback, dropLoads, dropLoadsLocked, hlane.isOpen, kept]

theorem stopPlayback_laneOk (hlane : LaneOk p) : LaneOk p.stopPlayback := by
  obtain ⟨hqueue, hopen⟩ := stopPlayback_queue hlane
  exact ⟨hopen, hqueue ▸ hlane.shape.sublist List.filter_sublist⟩

theorem stopPlayback_jobs (hlane : LaneOk p) : p.stopPlayback.jobs =
    p.results.map LoaderResult.job ++ (p.worker.jobs ++ kept p.loader.queue) := by
  rw [jobs, (stopPlayback_queue hlane).1]
  rfl

/-! ## The lane's goroutine -/

theorem take_spec {clock : Nat → Int} (hok : LaneOk p) (h : p.take clock = some p') :
    LaneOk p' ∧ p'.jobs.Perm p.jobs ∧ kept p'.jobs = kept p.jobs ∧ p.worker = .idle ∧
      ∃ loader job, p' = { p with loader, worker := .running job } := by
  unfold take at h
  split at h
  · rename_i job loader hw hnext
    cases h
    rcases next_cases clock hok.isOpen hok.shape with ⟨head, rest, hq, h1, h2, h3⟩ |
      ⟨F, head, rest, hq, hF, hm, h1, h2, h3⟩ | ⟨hnone, -⟩
    · rw [hnext] at h1 h2 h3
      obtain rfl : job = head := Option.some.inj h1
      have hshape := hok.shape
      rw [hq] at hshape
      have hjobs : ({ p with loader, worker := .running job } : AppPlayer).jobs = p.jobs := by
        simp only [jobs, hw, hq, Worker.jobs, List.nil_append, List.singleton_append]
        rw [← h2]
      refine ⟨⟨h3, ?_⟩, ?_, ?_, hw, loader, _, rfl⟩
      · rw [h2]
        exact hshape.sublist (List.sublist_cons_self _ _)
      · rw [hjobs]
      · rw [hjobs]
    · rw [hnext] at h1 h2 h3
      obtain rfl : job = head := Option.some.inj h1
      have hshape := hok.shape
      rw [hq] at hshape
      have hp : p.jobs = p.results.map LoaderResult.job ++ (F :: job :: rest) := by
        simp only [jobs, hw, hq, Worker.jobs, List.nil_append]
      have hp' : ({ p with loader, worker := .running job } : AppPlayer).jobs =
          p.results.map LoaderResult.job ++ (job :: F :: rest) := by
        simp only [jobs, Worker.jobs, List.singleton_append]
        rw [← h2]
      refine ⟨⟨h3, ?_⟩, ?_, ?_, hw, loader, _, rfl⟩
      · rw [h2]
        exact hshape.sublist ((List.sublist_cons_self _ _).cons_cons _)
      · rw [hp, hp']
        exact List.Perm.append_left _ (List.Perm.swap _ _ _)
      · have hjf : job.cls.fetches = false := by simp [hm, LoaderClass.fetches]
        rw [hp, hp', kept_append, kept_append]
        simp [kept, hF, hjf]
    · rw [hnext] at hnone
      simp at hnone
  · simp at h

theorem finish_spec {a : Answers} (h : p.finish g a = some p') :
    ∃ job commit lists, p.worker = .running job ∧
      runWork g a p.lists job.run = some (commit, lists) ∧
      p' = { p with
        lists, loader := p.loader.finished, worker := .delivering { job, commit }
        audio := handOver a job.run p.audio } := by
  unfold finish at h
  split at h
  · rename_i job hw
    simp only [Option.bind_eq_bind, Option.bind_eq_some_iff] at h
    obtain ⟨⟨commit, lists⟩, hrun, h⟩ := h
    exact ⟨job, commit, lists, hw, hrun, (Option.some.inj h).symm⟩
  · simp at h

theorem finish_jobs {a : Answers} (h : p.finish g a = some p') : p'.jobs = p.jobs := by
  obtain ⟨job, commit, lists, hw, -, rfl⟩ := finish_spec h
  simp only [jobs, hw, Worker.jobs, finished]

theorem deliver_spec (h : p.deliver = some p') :
    ∃ res, p.worker = .delivering res ∧
      p' = { p with results := p.results ++ [res], worker := .idle } := by
  unfold deliver at h
  split at h
  · rename_i res hw
    split at h
    · exact ⟨res, hw, (Option.some.inj h).symm⟩
    · simp at h
  · simp at h

theorem deliver_jobs (h : p.deliver = some p') : p'.jobs = p.jobs := by
  obtain ⟨res, hw, rfl⟩ := deliver_spec h
  simp [jobs, hw, Worker.jobs]

theorem lane_eq (hop : op.isLane = true) (h : p.step cfg g op = some p') :
    p' = { p with
      loader := p'.loader, worker := p'.worker, results := p'.results, lists := p'.lists
      audio := p'.audio } := by
  cases op with
  | take =>
    simp only [step, take] at h
    split at h
    · exact Option.some.inj h ▸ rfl
    · simp at h
  | finish =>
    obtain ⟨job, commit, lists, -, -, rfl⟩ := finish_spec h
    rfl
  | deliver =>
    obtain ⟨res, -, rfl⟩ := deliver_spec h
    rfl
  | _ => simp [Op.isLane] at hop

theorem lane_jobs (hop : op.isLane = true) (hlane : LaneOk p) (h : p.step cfg g op = some p') :
    p'.jobs.Perm p.jobs := by
  cases op with
  | take =>
    obtain ⟨-, hperm, -⟩ := take_spec hlane h
    exact hperm
  | finish => exact finish_jobs h ▸ List.Perm.refl _
  | deliver => exact deliver_jobs h ▸ List.Perm.refl _
  | _ => simp [Op.isLane] at hop

theorem handle_of_step (hop : op.isMessage = true) (h : p.step cfg g op = some p') :
    p.handle cfg op = some p' := by
  cases op with
  | drain m | take clock | finish a | deliver => simp [Op.isMessage] at hop
  | _ =>
    simp only [step] at h
    split at h
    · exact h
    · simp at h

theorem draining_of_step (hop : op.isMessage = true) (h : p.step cfg g op = some p') :
    p.draining = [] := by
  cases op with
  | drain m | take clock | finish a | deliver => simp [Op.isMessage] at hop
  | _ =>
    simp only [step] at h
    split at h
    · assumption
    · simp at h

/-- What the daemon does about a cluster update. -/
inductive Hears (p p' : AppPlayer) : Prop
  | kept (h : p' = p)
  | stopped (h : p' = p.stopPlayback)
  | noted (timestamp : Int) (h : p' = { p with state.lastClusterTimestamp := timestamp })

theorem handleCluster_hears {cluster : Option Cluster} (h : p.handleCluster cfg cluster = some p') :
    Hears p p' := by
  unfold handleCluster at h
  split at h
  · simp only [Option.bind_eq_bind, Option.bind_eq_some_iff] at h
    obtain ⟨cluster, -, h⟩ := h
    split at h
    · exact .kept (Option.some.inj h).symm
    · simp only [Option.bind_eq_some_iff] at h
      obtain ⟨timestamp, -, h⟩ := h
      cases h
      split
      · exact .stopped rfl
      · exact .kept rfl
  · exact .noted _ (Option.some.inj h).symm

def received (rest : List LoaderResult) (flight : Bool) (p : AppPlayer) : AppPlayer :=
  { p with results := rest, loadInFlight := flight }

theorem discard_quiet (c : Commit) (p : AppPlayer) : Quiet p (p.discard c) := by
  unfold discard
  split
  · split
    · exact withAudio_quiet (Player.ManageLoop.stop_raises _)
    · exact Quiet.refl p
  · exact Quiet.refl p

/-- A result is dropped as stale, or its commit is applied. -/
inductive Receives (res : LoaderResult) (rest : List LoaderResult) (p p' : AppPlayer) : Prop
  | stale (hcls : res.job.cls ≠ .mutate) (h : Quiet (p.received rest p.loadInFlight) p')
  | applied (flight : Bool) (q : AppPlayer)
      (h : Commit.Effect (p.received rest flight) q res.commit) (hq : Quiet q p')

theorem applyLoaderResult_receives {res : LoaderResult}
    (h : { p with results := rest }.applyLoaderResult cfg m res = some p') :
    Receives res rest p p' := by
  unfold applyLoaderResult at h
  split at h
  · simp only [Option.map_eq_some_iff] at h
    obtain ⟨q, hq, rfl⟩ := h
    exact .applied false q (commit_effect hq) (drainPendingPlayerEvents_quiet q)
  · split at h
    · rename_i hstale
      refine .stale ?_ (Option.some.inj h ▸ discard_quiet res.commit _)
      intro hcls
      simp [stale, hcls] at hstale
    · exact .applied p.loadInFlight p' (commit_effect h) (Quiet.refl p')

def holding (pending draining : List PlayerEvent) (p : AppPlayer) : AppPlayer :=
  { p with pendingPlayerEvents := pending, draining }

/-- What each kind of step does, by the handler it calls. -/
def Op.Effect (g : Rand) (p p' : AppPlayer) : Op → Prop
  | .command _ cmd => Command.Effect p p' cmd
  | .cluster _ => Hears p p'
  | .receive _ => ∃ res rest, p.results = res :: rest ∧ Receives res rest p p'
  | .take clock => p.take clock = some p'
  | .finish a => p.finish g a = some p'
  | .deliver => p.deliver = some p'
  | .event .. | .drain _ => ∃ pending draining, Acts (p.holding pending draining) p'
  | .prefetchTimer | .sleepTimer _ => Acts p p'

theorem step_effect (h : p.step cfg g op = some p') : Op.Effect g p p' op := by
  cases op with
  | take clock | finish a | deliver => exact h
  | drain =>
    simp only [step] at h
    split at h
    · simp at h
    · exact ⟨p.pendingPlayerEvents, _, handlePlayerEvent_acts h⟩
  | command => exact handleCommand_effect (handle_of_step rfl h)
  | event =>
    have h := handle_of_step rfl h
    simp only [handle, receivePlayerEvent] at h
    split at h
    · split at h
      all_goals
        cases h
        exact ⟨_, p.draining, .inl (Quiet.refl _)⟩
    · exact ⟨p.pendingPlayerEvents, p.draining, handlePlayerEvent_acts h⟩
  | cluster => exact handleCluster_hears (handle_of_step rfl h)
  | prefetchTimer => exact prefetchNext_acts (handle_of_step rfl h)
  | sleepTimer m => exact Option.some.inj (handle_of_step rfl h) ▸ .inl (pause_quiet m p)
  | receive =>
    have h := handle_of_step rfl h
    simp only [handle] at h
    split at h
    · simp at h
    · rename_i res rest hres
      exact ⟨res, rest, hres, applyLoaderResult_receives h⟩

/-! ## The form of a step -/

/-- A handler leaves at most one job with the lane. -/
def Ends (p p' : AppPlayer) : Prop := Quiet p p' ∨ ∃ job, Submits job p p'

theorem Acts.ends (h : Acts p p') : Ends p p' := h.imp_right fun ⟨job, _, h⟩ => ⟨job, h⟩

theorem Ends.quiet {q : AppPlayer} (h : Ends p q) (h' : Quiet q p') : Ends p p' := by
  rcases h with h | ⟨job, h⟩
  · exact .inl (h.trans h')
  · exact .inr ⟨job, h.quiet h'⟩

def EndsFrom (p p' : AppPlayer) : Prop := ∃ state, Ends { p with state } p'

theorem EndsFrom.of_eq {state : State} (h : p' = { p with state }) : EndsFrom p p' := by
  subst h
  exact ⟨state, .inl (Quiet.refl _)⟩

theorem Reverted.ends {work : ListWork} (h : Reverted work p p') : EndsFrom p p' := by
  cases work with
  | shuffle =>
    obtain ⟨options, -, h⟩ := h
    exact ⟨_, .inl h⟩
  | _ => exact ⟨_, .inl h⟩

theorem LoadsContext.ends {context : Context} (h : LoadsContext context p p') : EndsFrom p p' := by
  obtain ⟨options, restricted, job, -, -, -, h⟩ := h
  exact ⟨_, .inr ⟨_, h⟩⟩

theorem commit_ends {c : Commit} (h : Commit.Effect p p' c) : EndsFrom p p' := by
  cases c with
  | nothing | noStation k | loaded job stream streamGen position | prefetched stream =>
    exact ⟨_, .inl h⟩
  | call | resolved => exact ⟨_, Acts.ends h⟩
  | abandonTransfer => exact ⟨_, .inl h⟩
  | transferred => exact ⟨_, Acts.ends h⟩
  | walkFailed => exact Reverted.ends h
  | walked =>
    simp only [Commit.Effect] at h
    split at h
    · exact ⟨_, (Walks.acts h).ends⟩
    · exact Reverted.ends h
  | station => exact LoadsContext.ends h
  | apiPlay =>
    obtain ⟨state, h⟩ := LoadsContext.ends h
    exact ⟨state, h⟩

theorem command_ends {cmd : Command} (hcmd : cmd ≠ .stop) (h : Command.Effect p p' cmd) :
    EndsFrom p p' := by
  cases cmd with
  | stop => exact absurd rfl hcmd
  | transfer =>
    cases h with
    | refused h => exact .of_eq h
    | idle h => exact ⟨_, .inl h⟩
    | continued _ _ _ h | claimed _ _ _ h => exact ⟨_, .inr ⟨_, h⟩⟩
  | play =>
    obtain ⟨old, -, h⟩ := h
    obtain ⟨state, h⟩ := LoadsContext.ends h
    exact ⟨state, h⟩
  | setOptions =>
    cases h with
    | kept _ _ h => exact ⟨_, .inl h⟩
    | toggled _ _ _ _ _ _ _ _ _ h => exact ⟨_, .inr ⟨_, h⟩⟩
  | _ => exact ⟨_, Acts.ends h⟩

/-- What a step may have changed before its handler runs. -/
structure Touched (op : Op) (p q : AppPlayer) : Prop where
  loadGen : q.loadGen = p.loadGen
  loader : q.loader = p.loader
  worker : q.worker = p.worker
  lists : q.lists = p.lists
  audio : q.audio = p.audio
  results : q.results = op.rest p.results
  held : ∀ ev ∈ q.audioState.held, ev ∈ p.audioState.held ∨ ∃ m, op = .event m ev

/-- A step of the lane, a stop, or a handler that leaves at most one job. -/
inductive Op.Form (op : Op) (p p' : AppPlayer) : Prop
  | lane (h : op.isLane = true)
  | stopped (h : p' = p.stopPlayback)
  | handled (q : AppPlayer) (touched : Touched op p q) (h : Ends q p')

theorem EndsFrom.form (hop : op.rest p.results = p.results) (h : EndsFrom p p') :
    Op.Form op p p' := by
  obtain ⟨state, h⟩ := h
  exact .handled { p with state } ⟨rfl, rfl, rfl, rfl, rfl, hop.symm, fun _ => .inl⟩ h

theorem receive_form {res : LoaderResult}
    (hres : p.results = res :: rest) (h : Receives res rest p p') : Op.Form (.receive m) p p' := by
  have htouched (flight : Bool) (state : State) :
      Touched (.receive m) p { p.received rest flight with state } :=
    ⟨rfl, rfl, rfl, rfl, rfl, by simp [Op.rest, hres, received], fun _ => .inl⟩
  cases h with
  | stale _ h => exact .handled _ (htouched p.loadInFlight p.state) (.inl h)
  | applied flight _ h hq =>
    obtain ⟨state, h⟩ := commit_ends h
    exact .handled _ (htouched flight state) (h.quiet hq)

theorem drain_form (h : p.step cfg g (.drain m) = some p') : Op.Form (.drain m) p p' := by
  simp only [step] at h
  split at h
  · simp at h
  · rename_i ev draining hdraining
    refine .handled { p with draining } ⟨rfl, rfl, rfl, rfl, rfl, rfl, ?_⟩
      (handlePlayerEvent_acts h).ends
    intro e he
    refine .inl ?_
    simp only [audioState, List.mem_append] at he ⊢
    exact he.imp_left fun he => hdraining ▸ List.mem_cons_of_mem ev he

theorem event_form {ev : PlayerEvent} (h : p.handle cfg (.event m ev) = some p') :
    Op.Form (.event m ev) p p' := by
  simp only [handle, receivePlayerEvent] at h
  split at h
  · split at h
    · exact EndsFrom.form rfl (.of_eq (Option.some.inj h).symm)
    · refine .handled p' ?_ (.inl (Quiet.refl p'))
      cases h
      refine ⟨rfl, rfl, rfl, rfl, rfl, rfl, ?_⟩
      intro e he
      simp only [audioState, List.mem_append, List.mem_singleton] at he ⊢
      rcases he with he | he | rfl
      · exact .inl (.inl he)
      · exact .inl (.inr he)
      · exact .inr ⟨m, rfl⟩
  · exact EndsFrom.form rfl ⟨_, (handlePlayerEvent_acts h).ends⟩

theorem step_form (h : p.step cfg g op = some p') : Op.Form op p p' := by
  have he := step_effect h
  cases op with
  | take clock | finish a | deliver => exact .lane rfl
  | command _ cmd =>
    by_cases hcmd : cmd = .stop
    · subst hcmd
      exact .stopped he
    · exact (command_ends hcmd he).form rfl
  | event => exact event_form (handle_of_step rfl h)
  | cluster =>
    cases he with
    | kept h => exact EndsFrom.form rfl (.of_eq h)
    | stopped h => exact .stopped h
    | noted _ h => exact EndsFrom.form rfl (.of_eq h)
  | prefetchTimer | sleepTimer m => exact EndsFrom.form rfl ⟨_, Acts.ends he⟩
  | receive =>
    obtain ⟨res, rest, hres, he⟩ := he
    exact receive_form hres he
  | drain => exact drain_form h

/-- The step asks for no load, and drops none that waits. -/
structure Idles (op : Op) (p p' : AppPlayer) : Prop where
  worker : p'.worker = p.worker
  results : p'.results = op.rest p.results
  came : ∀ q ∈ p'.loader.queue, q ∈ p.loader.queue ∨ q.run.isLoad = false
  stayed : ∀ q ∈ p.loader.queue, q.cls.loads = true → q ∈ p'.loader.queue

theorem Ends.idles (h : Ends p p') (hgen : p'.loadGen = p.loadGen) : Idles .prefetchTimer p p' := by
  rcases h with h | ⟨job, h⟩
  · refine ⟨congrArg Frame.worker h.frame, congrArg Frame.results h.frame, ?_, ?_⟩
    · intro q hq
      exact .inl (h.loader ▸ hq)
    · intro q hq _
      exact h.loader ▸ hq
  · have hcls : job.cls.loads = false := by
      by_contra hne
      have := (h.loads (by simpa using hne)).1
      omega
    refine ⟨congrArg Frame.worker h.frame, congrArg Frame.results h.frame, ?_, ?_⟩
    · intro q hq
      rw [h.loader] at hq
      rcases mem_submit hq with hq | rfl
      · exact .inl hq
      · refine .inr (Bool.eq_false_iff.mpr fun hload => ?_)
        simp [h.fetch hload, LoaderClass.loads] at hcls
    · intro q hq hloads
      rw [h.loader]
      exact mem_submit_of_loads hq hloads hcls

theorem step_idles (h : p.step cfg g op = some p') (hop : op.isLane = false)
    (hgen : p'.loadGen = p.loadGen) : Idles op p p' := by
  cases step_form h with
  | lane hlane => simp [hlane] at hop
  | stopped h =>
    have : p'.loadGen = p.loadGen + 1 := by rw [h]; rfl
    omega
  | handled _ htouched hends =>
    obtain ⟨hworker, hresults, hcame, hstayed⟩ := hends.idles (hgen.trans htouched.loadGen.symm)
    rw [htouched.loader] at hcame hstayed
    exact ⟨hworker.trans htouched.worker, hresults.trans htouched.results, hcame, hstayed⟩

/-! ## What every step keeps -/

/-- A fresh state has the property and every handler keeps it. -/
structure Lasting (P : PlayerState → Prop) : Prop where
  fresh : P .fresh
  quiet : ∀ {p p' : AppPlayer}, Quiet p p' → P p.state.player → P p'.state.player
  submits : ∀ {job : LoaderJob Work} {p p' : AppPlayer}, Submits job p p' →
    P p.state.player → P p'.state.player
  options : ∀ (s : PlayerState) (options : Option ContextPlayerOptions), P s → P { s with options }

namespace Lasting

variable {P : PlayerState → Prop}

theorem acts (hP : Lasting P) (h : Acts p p') (hp : P p.state.player) : P p'.state.player := by
  rcases h with h | ⟨job, -, h⟩
  · exact hP.quiet h hp
  · exact hP.submits h hp

theorem reverted (hP : Lasting P) {work : ListWork} (h : Reverted work p p')
    (hp : P p.state.player) : P p'.state.player := by
  cases work with
  | shuffle =>
    obtain ⟨options, -, h⟩ := h
    exact hP.quiet h (hP.options _ _ hp)
  | _ => exact hP.quiet h hp

theorem loadsContext (hP : Lasting P) {context : Context} (h : LoadsContext context p p')
    (hp : P p.state.player) : P p'.state.player := by
  obtain ⟨options, restricted, job, -, -, -, h⟩ := h
  exact hP.submits h (hP.options _ _ hp)

theorem tookOver (hp : P p.state.player) : P p.tookOver.state.player := by
  rw [AppPlayer.tookOver, State.takeOver_player]
  exact hp

theorem commit (hP : Lasting P) {c : Commit} (h : Commit.Effect p p' c) (hp : P p.state.player) :
    P p'.state.player := by
  cases c with
  | nothing | noStation k | loaded job stream streamGen position | prefetched stream =>
    exact hP.quiet h hp
  | call | resolved => exact hP.acts h hp
  | abandonTransfer => exact hP.quiet h hp
  | transferred => exact hP.acts h (hP.options _ _ hp)
  | walkFailed => exact hP.reverted h hp
  | walked =>
    simp only [Commit.Effect] at h
    split at h
    · exact hP.acts (Walks.acts h) hp
    · exact hP.reverted h hp
  | station => exact hP.loadsContext h hp
  | apiPlay => exact hP.loadsContext h (tookOver hp)

theorem command (hP : Lasting P) {cmd : Command} (he : Command.Effect p p' cmd)
    (hp : P p.state.player) : P p'.state.player := by
  cases cmd with
  | transfer =>
    cases he with
    | refused h => exact h ▸ hp
    | idle h => exact hP.quiet h hp
    | continued _ _ _ h => exact hP.submits h hp
    | claimed _ _ _ h => exact hP.submits h (hP.options _ _ hp)
  | play =>
    obtain ⟨old, -, he⟩ := he
    exact hP.loadsContext he (hP.options _ _ (tookOver hp))
  | setOptions =>
    cases he with
    | kept options _ h => exact hP.quiet h (hP.options _ _ hp)
    | toggled _ _ options _ _ _ _ _ _ h => exact hP.submits h (hP.options _ _ hp)
  | stop =>
    rw [he]
    exact hP.fresh
  | _ => exact hP.acts he hp

theorem step (hP : Lasting P) {g : Rand} {op : Op} (hp : P p.state.player)
    (h : p.step cfg g op = some p') : P p'.state.player := by
  have he := step_effect h
  cases op with
  | take clock | finish a | deliver =>
    rw [lane_eq rfl h]
    exact hp
  | command => exact hP.command he hp
  | cluster =>
    cases he with
    | kept h => exact h ▸ hp
    | stopped h =>
      rw [h]
      exact hP.fresh
    | noted _ h =>
      rw [h]
      exact hp
  | receive =>
    obtain ⟨res, rest, -, he⟩ := he
    cases he with
    | stale _ h => exact hP.quiet h hp
    | applied _ _ h hq => exact hP.quiet hq (hP.commit h hp)
  | event m ev | drain m =>
    obtain ⟨pending, draining, he⟩ := he
    exact hP.acts he hp
  | prefetchTimer | sleepTimer m => exact hP.acts he hp

end Lasting

end AppPlayer

end Librespot.Daemon
