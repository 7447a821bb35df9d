import Librespot.Daemon.QueueJobs
import Librespot.Daemon.QueueState

/-!
# The uids of queued tracks

A track that is queued without a uid gets the next number. Tracks with numbers of
their own come with transfers, with `set_queue` and from the list before.
-/

open Base.Run
open Librespot.Tracks List Option

namespace Librespot.Daemon

def queueNumber (uid : String) : Nat :=
  match uid.toList with
  | 'q' :: digits => (parseUint digits).getD 0
  | _ => 0

theorem parseUint_toDigits {n : Nat} (h : n < 2 ^ 64) : parseUint (Nat.toDigits 10 n) = some n := by
  have hvalue : (Nat.toDigits 10 n).foldl (fun n c => 10 * n + (c.toNat - '0'.toNat)) 0 = n :=
    Nat.ofDigitChars_ten_toDigits
  unfold parseUint
  rw [hvalue, if_pos]
  refine ⟨Nat.toDigits_ne_nil, ?_, h⟩
  rw [List.all_eq_true]
  exact fun c hc => Nat.isDigit_of_mem_toDigits (by decide) (by decide) hc

theorem queueNumber_numbered {n : Nat} (h : n < 2 ^ 64) : queueNumber s!"q{n}" = n := by
  have hlist : (s!"q{n}").toList = 'q' :: Nat.toDigits 10 n := by
    rw [String.toList_append, Nat.toString_eq_ofList_toDigits, String.toList_ofList]
    rfl
  rw [queueNumber, hlist]
  show (parseUint (Nat.toDigits 10 n)).getD 0 = n
  rw [parseUint_toDigits h, getD_some]

def UpTo (n : Nat) (uids : List String) : Prop := ∀ uid ∈ uids, queueNumber uid ≤ n

theorem UpTo.subset {n n' : Nat} {new old : List String} (h : UpTo n old) (hsub : new ⊆ old)
    (hle : n ≤ n') : UpTo n' new :=
  fun uid huid => (h uid (hsub huid)).trans hle

theorem le_highest (queued : List ContextTrack) (highest : Nat) :
    highest ≤ queued.foldl (fun highest track => max highest (queueNumber track.uid)) highest ∧
      UpTo (queued.foldl (fun highest track => max highest (queueNumber track.uid)) highest)
        (uids queued) := by
  induction queued generalizing highest with
  | nil => exact ⟨le_rfl, by simp [uids, UpTo]⟩
  | cons track _ ih =>
    obtain ⟨hle, hrest⟩ := ih (max highest (queueNumber track.uid))
    refine ⟨(le_max_left _ _).trans hle, ?_⟩
    intro uid huid
    rcases mem_cons.mp huid with rfl | huid
    · exact (le_max_right _ _).trans hle
    · exact hrest uid huid

theorem upTo_highestQueueID (queued : List ContextTrack) :
    UpTo (highestQueueID queued) (uids queued) := by
  have hread : highestQueueID queued =
      queued.foldl (fun highest track => max highest (queueNumber track.uid)) 0 := by
    unfold highestQueueID
    congr 1
    funext highest track
    unfold queueNumber
    generalize track.uid.toList = chars
    split
    · rfl
    · simp
  rw [hread]
  exact (le_highest queued 0).2

namespace AppPlayer

variable {cfg : Config} {g : Rand} {m : Moment} {p p' : AppPlayer} {id : ListId} {op : Op}

def queuedIn (id : ListId) (p : AppPlayer) : List String :=
  uids ((p.lists[id]?.map TrackList.queue).getD [])

def queueing (id : ListId) (p : AppPlayer) : List String :=
  p.queuedIn id ++ (p.edits id).flatMap ListWork.uids

def FreshUid (p : AppPlayer) (op : Op) : Prop :=
  ∀ m track queued id, op = .command m (.addToQueue track) → track.uid = "" →
    p.asks op = some (.addToQueue queued) → p.state.tracks = some id →
    queued.uid ∉ p.queueing id

/-- A uid that comes with a track or with an order of the queue has no number above the counter,
the counter does not wrap around, and nothing is transferred without a context while one loads. -/
def Numbered (p : AppPlayer) : Op → Prop
  | .command _ (.addToQueue track) => p.state.tracks ≠ none →
    if track.uid = "" then p.state.queueID + 1 < 2 ^ 64
    else queueNumber track.uid ≤ p.state.queueID
  | .command _ (.setQueue next) => p.state.tracks ≠ none →
    UpTo p.state.queueID (uids (queuedFront next))
  | .command _ (.transfer req) => req.state.Bare →
    ∀ q ∈ p.jobs, ∀ job, q.run = .resolve job → q.gen ≠ p.loadGen
  | _ => True

structure QueueInv (g : Rand) (p : AppPlayer) : Prop where
  grounded : p.Grounded g
  queueing : ∀ id, p.state.tracks = some id → UpTo p.state.queueID (p.queueing id)
  sampled : ∀ q ∈ p.jobs, ∀ job, q.run = .resolve job → q.gen = p.loadGen →
    UpTo p.state.queueID (uids job.queued)
  landed : ∀ res ∈ p.finished, ∀ list new, res.commit.brings = some (list, new) →
    p.queuedIn list ⊆ new

theorem queueInv_new : QueueInv g {} where
  grounded := grounded_new
  queueing id h := by simp at h
  sampled q hq := by simp [jobs, Worker.jobs] at hq
  landed res hres := by simp [finished, Worker.finished] at hres

theorem freshUid_of_numbered (hp : QueueInv g p) (hc : Numbered p op) : FreshUid p op := by
  rintro m track queued id rfl huid hasks htracks hmem
  have hroom : p.state.queueID + 1 < 2 ^ 64 := by
    have hc := hc (by simp [htracks])
    rwa [if_pos huid] at hc
  obtain rfl : { track with uid := s!"q{(p.state.queueID + 1) % 2 ^ 64}" } = queued := by
    simpa [asks, htracks, huid] using hasks
  have hle := hp.queueing id htracks _ hmem
  simp only [Nat.mod_eq_of_lt hroom, queueNumber_numbered hroom] at hle
  omega

/-! ## Steps of the lane -/

theorem queuedIn_of_lists (h : p'.lists[id]? = p.lists[id]?) : p'.queuedIn id = p.queuedIn id := by
  rw [queuedIn, queuedIn, h]

theorem landing_of_brings {commit : Commit} {list : ListId} {new : List String}
    (h : commit.brings = some (list, new)) : ∃ val, commit.landing = some (list, val) := by
  cases commit with
  | resolved job list' snap | transferred job list' snap played =>
    cases h
    exact ⟨_, rfl⟩
  | _ => simp [Commit.brings] at h

theorem finish_brings {a : Answers} (hp : QueueInv g p) (h : p.finish g a = some p') :
    ∀ res ∈ p'.finished, ∀ list new, res.commit.brings = some (list, new) →
      p'.queuedIn list ⊆ new := by
  obtain ⟨-, job, commit, -, hrun, hfinished⟩ := finish_finished h
  intro res hres list new hbrings
  rw [hfinished] at hres
  rcases mem_append.mp hres with hres | hres
  · obtain ⟨val, hlanding⟩ := landing_of_brings hbrings
    rw [queuedIn_of_lists (finish_ahead_list hp.grounded h hres hlanding)]
    exact hp.landed res hres list new hbrings
  · obtain rfl := mem_singleton.mp hres
    generalize hlists : p'.lists = lists at hrun
    generalize job.run = run at hrun
    cases runWork_remakes hrun with
    | nothing _ _ hnone | walked _ _ hnone => simp [hnone] at hbrings
    | @new _ _ uids typ l hl hsome =>
      obtain ⟨rfl, rfl⟩ : p.lists.length = list ∧ uids = new := by simpa [hsome] using hbrings
      have hlist : p'.lists[p.lists.length]? = some l := by rw [hlists]; simp
      have hsub := hl.uids valid_new
      simpa [queuedIn, hlist, Daemon.uids, TrackList.newTrackList] using hsub

theorem finish_queueing {a : Answers} (hp : Grounded g p) (hid : id < p.lists.length)
    (h : p.finish g a = some p') : p'.queueing id ⊆ p.queueing id := by
  obtain ⟨job, hw, hedits⟩ := edits_finish id h
  obtain ⟨job', commit, lists, hw', hrun, hp'⟩ := finish_spec h
  obtain rfl : job = job' := by rw [hw] at hw'; exact Worker.running.inj hw'
  have hlists : p'.lists = lists := by rw [hp']
  have hrest : (p'.edits id).flatMap ListWork.uids ⊆ (p.edits id).flatMap ListWork.uids := by
    rw [hedits, flatMap_append]
    exact subset_append_right _ _
  refine append_subset.mpr ⟨?_, subset_append_of_subset_right _ hrest⟩
  by_cases hmine : ∃ work, job.run = .list id work
  · obtain ⟨work, hwork⟩ := hmine
    have hnew : work.uids ⊆ (p.edits id).flatMap ListWork.uids := by
      cases hedit : work.isEdit with
      | false => cases work <;> simp [ListWork.isEdit, ListWork.uids] at hedit ⊢
      | true =>
        have hlawful : job.Lawful := hp.tame.jobs job (by simp [jobs, hw, Worker.jobs])
        rw [hedits, kept_edit hlawful hwork hedit, flatMap_append, flatMap_singleton]
        exact subset_append_left _ _
    rw [hwork] at hrun
    cases runWork_remakes hrun with
    | nothing =>
      rw [queuedIn_of_lists (congrArg (·[id]?) hlists)]
      exact subset_append_left _ _
    | @walked _ _ _ list list' hlist hbrings =>
      have hlt := (List.getElem?_eq_some_iff.mp hlist).1
      have hsub := hbrings.uids (hp.sound.valid list (mem_of_getElem? hlist))
      have hbefore : p.queuedIn id = uids list.queue := by simp [queuedIn, hlist]
      have hafter : p'.queuedIn id = uids list'.queue := by
        simp [queuedIn, hlists, getElem?_set_self hlt]
      rw [hafter, queueing, hbefore]
      exact List.Subset.trans hsub (append_subset.mpr ⟨subset_append_left _ _,
        subset_append_of_subset_right _ hnew⟩)
    | new =>
      have hsame : p'.lists[id]? = p.lists[id]? := by
        rw [hlists]
        exact getElem?_append_left hid
      rw [queuedIn_of_lists hsame]
      exact subset_append_left _ _
  · have hne : ∀ work, job.run ≠ .list id work := fun work hwork => hmine ⟨work, hwork⟩
    rw [queuedIn_of_lists (hlists ▸ waitingIn_runWork hid hne hrun)]
    exact subset_append_left _ _

theorem lane_queueInv (hlane : op.isLane = true) (hp : QueueInv g p)
    (h : p.step cfg g op = some p') : QueueInv g p' := by
  have hstate : p'.state = p.state ∧ p'.loadGen = p.loadGen := by
    rw [lane_eq hlane h]
    exact ⟨rfl, rfl⟩
  obtain ⟨hstate, hgen⟩ := hstate
  have hok := hp.grounded.sound.lane
  -- only the end of a job touches a list, or brings a new one
  have hlists : (∀ id, p.state.tracks = some id → p'.queueing id ⊆ p.queueing id) ∧
      ∀ res ∈ p'.finished, ∀ list new, res.commit.brings = some (list, new) →
        p'.queuedIn list ⊆ new := by
    have he := step_effect h
    cases op with
    | take =>
      obtain ⟨-, -, -, hidle, loader, job, hp'⟩ := take_spec hok he
      have hsame : p'.lists = p.lists := by rw [hp']
      have hfinished : p'.finished = p.finished := by
        simp [hp', finished, hidle, Worker.finished]
      refine ⟨fun id _ => ?_, ?_⟩
      · rw [queueing, queueing, queuedIn_of_lists (congrArg (·[id]?) hsame), edits_take hok he]
        exact List.Subset.refl _
      · intro res hres list new hbrings
        rw [queuedIn_of_lists (congrArg (·[list]?) hsame)]
        exact hp.landed res (hfinished ▸ hres) list new hbrings
    | finish =>
      have hbelow := hp.grounded.sound.below _ p.length_mem_ahead
      exact ⟨fun id hid => finish_queueing hp.grounded (hbelow.tracks id hid) he,
        finish_brings hp he⟩
    | deliver =>
      obtain ⟨res, hw, hp'⟩ := deliver_spec he
      have hsame : p'.lists = p.lists := by rw [hp']
      have hfinished : ∀ res ∈ p'.finished, res ∈ p.finished := by
        simp [hp', finished, hw, Worker.finished]
      refine ⟨fun id _ => ?_, ?_⟩
      · rw [queueing, queueing, queuedIn_of_lists (congrArg (·[id]?) hsame), edits_deliver he]
        exact List.Subset.refl _
      · intro res hres list new hbrings
        rw [queuedIn_of_lists (congrArg (·[list]?) hsame)]
        exact hp.landed res (hfinished res hres) list new hbrings
    | _ => simp [Op.isLane] at hlane
  refine ⟨step_grounded hp.grounded h, ?_, ?_, hlists.2⟩
  · intro id hid
    rw [hstate] at hid ⊢
    exact (hp.queueing id hid).subset (hlists.1 id hid) le_rfl
  · intro q hq job hrun hcurrent
    have hq := (lane_jobs hlane hok h).mem_iff.mp hq
    rw [hstate]
    exact hp.sampled q hq job hrun (hcurrent.trans hgen)

/-! ## Steps of the loop -/

theorem QueueInv.loop (hlane : op.isLane = false) (hp : QueueInv g p)
    (h : p.step cfg g op = some p') (hqueueing : ∀ id, p'.state.tracks = some id →
      UpTo p'.state.queueID (p.queuedIn id ++ (p'.edits id).flatMap ListWork.uids))
    (hsampled : ∀ q ∈ p'.jobs, ∀ job, q.run = .resolve job → q.gen = p'.loadGen →
      UpTo p'.state.queueID (uids job.queued)) : QueueInv g p' := by
  have hlists := step_lists hlane h
  refine ⟨step_grounded hp.grounded h, ?_, hsampled, ?_⟩
  · intro id hid
    rw [AppPlayer.queueing, queuedIn_of_lists (congrArg (·[id]?) hlists)]
    exact hqueueing id hid
  · intro res hres list new hbrings
    rw [queuedIn_of_lists (congrArg (·[list]?) hlists)]
    exact hp.landed res (finished_of_step hlane h hres) list new hbrings

theorem QueueInv.same (hlane : op.isLane = false) (hp : QueueInv g p)
    (h : p.step cfg g op = some p') (hid : p'.state.queueID = p.state.queueID)
    (htracks : p'.state.tracks = p.state.tracks) (hands : Hands false p.loader p'.loader) :
    QueueInv g p' := by
  refine hp.loop hlane h ?_ ?_
  · intro id hlist
    rw [hid, edits_of_hands (step_frame hlane h).1 hands]
    exact hp.queueing id (htracks ▸ hlist)
  · intro q hq job hrun hcurrent
    have hold := resolve_of_ordinary hlane h hands hq hrun
    rw [hid]
    exact hp.sampled q hold job hrun (current_of_step hp.grounded h hold hrun hcurrent)

theorem QueueInv.replaced (hlane : op.isLane = false) (hp : QueueInv g p)
    (h : p.step cfg g op = some p') (hands : Hands false p.loader p'.loader)
    (hqueueing : ∀ id, p'.state.tracks = some id →
      p.Below id ∧ UpTo p'.state.queueID (p.queuedIn id))
    (hfree : ∀ q ∈ p.jobs, ∀ job, q.run = .resolve job → q.gen ≠ p.loadGen) : QueueInv g p' := by
  refine hp.loop hlane h ?_ ?_
  · intro id hid
    obtain ⟨hbelow, hupTo⟩ := hqueueing id hid
    rw [edits_of_hands (step_frame hlane h).1 hands, edits_of_below hbelow]
    simpa using hupTo
  · intro q hq job hrun hcurrent
    have hold := resolve_of_ordinary hlane h hands hq hrun
    exact absurd (current_of_step hp.grounded h hold hrun hcurrent) (hfree q hold job hrun)

theorem free_of_transfer {res : LoaderResult} {rest : List LoaderResult} {job : TransferJob}
    (hp : Grounded g p) (hresults : p.results = res :: rest) (hrun : res.job.run = .transfer job)
    (hcurrent : p.stale res.job = false) :
    ∀ q ∈ p.jobs, ∀ job, q.run = .resolve job → q.gen ≠ p.loadGen := by
  have hmem : res.job ∈ p.jobs := by simp [jobs, hresults]
  have hcls : res.job.cls = .load := by
    rw [hp.cls hmem, hrun]
    rfl
  have hgen : res.job.gen = p.loadGen := by simpa [stale, generation, hcls] using hcurrent
  intro q hq job' hq'
  have hloads : q.cls.loads = true := by
    rw [hp.cls hq, hq']
    rfl
  rw [jobs, hresults, map_cons, cons_append] at hq
  rcases mem_cons.mp hq with rfl | hq
  · simp [hrun] at hq'
  · exact head_current hp hresults (by rw [hcls]; rfl) hgen q hq hloads

theorem ordinary_queueInv (hlane : op.isLane = false) (hp : QueueInv g p) (hc : Numbered p op)
    (h : p.step cfg g op = some p') (hasks : p.asks op = none)
    (hands : Hands false p.loader p'.loader) : QueueInv g p' := by
  have hstate := step_queueState h
  generalize hn : p'.queueState = n at hstate
  have hid : p'.state.queueID = n.queueID := congrArg QueueState.queueID hn
  have htracks : p'.state.tracks = n.tracks := congrArg QueueState.tracks hn
  cases hstate with
  | kept | timed | slept => exact hp.same hlane h hid htracks hands
  | numbered =>
    have hnone : p.state.tracks = none := by
      cases hlist : p.state.tracks with
      | none => rfl
      | some => simp [asks, hlist] at hasks
    have hsame : p' = p := by
      have h := handle_of_step rfl h
      simpa [handle, handleCommand, addToQueue, hnone] using h.symm
    exact hsame ▸ hp
  | abandoned _ _ hbare =>
    exact hp.replaced hlane h hands (fun id hlist => by simp [htracks] at hlist) (hc hbare)
  | committed _ res hres hcurrent =>
    obtain ⟨rest, hresults⟩ := head?_eq_some_iff.mp hres
    have hmem := p.head_mem_finished hresults
    have hgives := hp.grounded.sound.gives res hmem
    have hlanded := hp.landed res hmem
    have hbelow (list : ListId) (val : Bool) (hlanding : res.commit.landing = some (list, val)) :
        p.Below list := hp.grounded.sound.below list (landing_mem_ahead hmem hlanding)
    generalize hrun : res.job.run = run at hgives
    generalize res.commit = commit at hgives hid htracks hlanded hbelow
    cases hgives with
    | resolved job list =>
      have hjob := finished_mem_jobs hmem
      have hgen : res.job.gen = p.loadGen := by
        have hcls : res.job.cls = .load := by
          rw [hp.grounded.cls hjob, hrun]
          rfl
        simpa [stale, generation, hcls] using hcurrent
      refine hp.loop hlane h ?_ ?_
      · intro id hlist
        obtain rfl : list = id := by simpa [htracks, QueueState.commit] using hlist
        rw [edits_of_hands (step_frame hlane h).1 hands, edits_of_below (hbelow list _ rfl), hid]
        have hupTo := hp.sampled res.job hjob job hrun hgen
        simpa [QueueState.commit, queueState] using hupTo.subset (hlanded list _ rfl) le_rfl
      · intro q hq job' hq' hcurrent'
        have hold := resolve_of_ordinary hlane h hands hq hq'
        rw [hid]
        exact hp.sampled q hold job' hq' (current_of_step hp.grounded h hold hq' hcurrent')
    | abandoned =>
      exact hp.replaced hlane h hands (fun id hlist => by simp [htracks, QueueState.commit] at hlist)
        (free_of_transfer hp.grounded hresults hrun hcurrent)
    | transferred job list =>
      refine hp.replaced hlane h hands ?_ (free_of_transfer hp.grounded hresults hrun hcurrent)
      intro id hlist
      obtain rfl : list = id := by simpa [htracks, QueueState.commit] using hlist
      refine ⟨hbelow list _ rfl, ?_⟩
      rw [hid]
      exact (upTo_highestQueueID job.state.queue).subset (hlanded list _ rfl) le_rfl
    | _ => exact hp.same hlane h hid htracks hands

theorem upcoming_upTo {queued : List ContextTrack} (hp : QueueInv g p)
    (h : p.upcomingQueue = some queued) : UpTo p.state.queueID (uids queued) := by
  cases htracks : p.state.tracks with
  | none =>
    rw [upcomingQueue, htracks] at h
    simp [← some.inj h, uids, UpTo]
  | some id =>
    rw [upcomingQueue, htracks] at h
    obtain ⟨list, hlist, h⟩ := bind_eq_some_iff.mp h
    refine (hp.queueing id htracks).subset (subset_append_of_subset_left _ ?_) le_rfl
    rw [queuedIn, hlist, ← waiting_of_upcomingQueue h]
    exact map_subset _ list.waiting_suffix.subset

theorem asks_upTo {work : ListWork} (hc : Numbered p op) (h : p.step cfg g op = some p')
    (hasks : p.asks op = some work) :
    p.state.queueID ≤ p'.state.queueID ∧ UpTo p'.state.queueID work.uids := by
  have hlist : p.state.tracks ≠ none := by
    intro hnone
    cases op with
    | command _ cmd => cases cmd <;> simp [asks, hnone] at hasks
    | _ => simp [asks] at hasks
  obtain ⟨id, htracks⟩ := ne_none_iff_exists'.mp hlist
  cases op with
  | command _ cmd =>
    have h := handle_of_step rfl h
    cases cmd with
    | addToQueue track =>
      have hc := hc hlist
      simp only [asks, htracks, map_some, some.injEq] at hasks
      simp only [handle, handleCommand, addToQueue, htracks, some.injEq] at h
      by_cases huid : track.uid = ""
      · rw [if_pos huid] at h hasks hc
        subst h hasks
        simp only [listJob, submit, Nat.mod_eq_of_lt hc]
        refine ⟨Nat.le_succ _, fun uid huid => ?_⟩
        rw [mem_singleton.mp huid, queueNumber_numbered hc]
      · rw [if_neg huid] at h hasks hc
        subst h hasks
        exact ⟨le_rfl, fun uid huid => mem_singleton.mp huid ▸ hc⟩
    | setQueue =>
      simp only [asks, htracks, map_some, some.injEq] at hasks
      simp only [handle, handleCommand, setQueue, htracks, some.injEq] at h
      subst h hasks
      exact ⟨le_rfl, hc hlist⟩
    | _ => simp [asks] at hasks
  | _ => simp [asks] at hasks

theorem opensContext_queueState (h : p.step cfg g op = some p') (hopens : p.opensContext op = true) :
    p'.state.queueID = p.state.queueID := by
  have hstate := step_queueState h
  generalize hn : p'.queueState = n at hstate
  have hid : p'.state.queueID = n.queueID := congrArg QueueState.queueID hn
  rw [hid]
  cases hstate with
  | kept | timed | slept => rfl
  | numbered | abandoned => simp [opensContext] at hopens
  | committed _ res hres =>
    simp only [opensContext, hres, any_some, Bool.and_eq_true] at hopens
    cases hcommit : res.commit <;> simp_all [Commit.special, QueueState.commit, queueState]

theorem step_queueInv (hp : QueueInv g p) (hc : Numbered p op) (h : p.step cfg g op = some p') :
    QueueInv g p' := by
  cases hlane : op.isLane with
  | true => exact lane_queueInv hlane hp h
  | false =>
    have hworker := (step_frame hlane h).1
    cases step_proceeds hlane hp.grounded h with
    | ordinary hasks hands => exact ordinary_queueInv hlane hp hc h hasks hands
    | edited id work htracks hasks hedit hsame hgen hloader =>
      obtain ⟨hle, hwork⟩ := asks_upTo hc h hasks
      refine hp.loop hlane h ?_ ?_
      · intro id' hid
        obtain rfl : id = id' := by simpa [hsame, htracks] using hid
        have hedits : (p'.edits id).flatMap ListWork.uids ⊆
            (p.edits id).flatMap ListWork.uids ++ work.uids := by
          rw [edits_submit hworker hloader, flatMap_append]
          refine append_subset.mpr ⟨subset_append_left _ _, ?_⟩
          refine subset_append_of_subset_right _ ?_
          split
          · simp [LoaderLane.kept, LoaderClass.fetches, Work.editOf, hedit]
          · exact nil_subset _
        have hbefore := (hp.queueing id htracks).subset (List.Subset.refl _) hle
        intro uid huid
        rcases mem_append.mp huid with huid | huid
        · exact hbefore uid (mem_append_left _ huid)
        · rcases mem_append.mp (hedits huid) with huid | huid
          · exact hbefore uid (mem_append_right _ huid)
          · exact hwork uid huid
      · intro q hq job hrun hcurrent
        rcases jobs_of_submit hlane h hloader hq with hold | rfl
        · exact (hp.sampled q hold job hrun (hcurrent.trans hgen)).subset (List.Subset.refl _) hle
        · simp at hrun
    | loads job _ hopens hqueued hsame _ hloader =>
      have hid := opensContext_queueState h hopens
      refine hp.loop hlane h ?_ ?_
      · intro id htracks
        rw [hid, edits_of_no_edit hworker hloader rfl]
        exact hp.queueing id (hsame ▸ htracks)
      · intro q hq job' hrun hcurrent
        rcases jobs_of_submit hlane h hloader hq with hold | rfl
        · have := current_of_step hp.grounded h hold hrun hcurrent
          omega
        · obtain rfl : job = job' := Work.resolve.inj hrun
          rw [hid]
          exact upcoming_upTo hp hqueued

/-- The uid that a queued track is given is a new one, as long as all numbers in the queue are the
daemon's own or come with a transfer. -/
theorem uids_fresh_of_numbered {ops : List Op} (h : Meets (step cfg g) Numbered {} ops) :
    Meets (step cfg g) FreshUid {} ops :=
  meets_of_invariant (fun _ _ _ => step_queueInv) (fun _ _ _ hp hc _ => freshUid_of_numbered hp hc)
    queueInv_new h

/-! ## Runs in which a uid is given twice, and one in which none is -/

def setOrder : Op := .command { now := 0 } (.setQueue (some
  [{ knownTrack with uid := "q1", metadata := [("is_queued", "true")] }]))

/-- The order of the queue comes from a controller, with a number of its own. -/
def orderedRun : List Op :=
  playingRun ++ setOrder :: roundTrip 0 (served [knownTrack, knownTrack])

def carriedRun : List Op :=
  let answers := served [knownTrack, knownTrack]
  playingRun ++ queuedTrack :: roundTrip 0 answers ++ nextContext ::
    .command { now := 0 } (.transfer { state := {}, restoreTrack := "always_play_something" }) ::
      roundTrip 0 answers

def asksTwice (p : AppPlayer) (op : Op) : Bool :=
  match p.asks op, p.state.tracks with
  | some (.addToQueue queued), some id => decide (queued.uid ∈ p.queueing id)
  | _, _ => false

theorem not_fresh_of_asksTwice {ops : List Op}
    (h : ((exec (step here drawZero) {} ops).bind fun p =>
      (p.step here drawZero queuedTrack).map fun _ => p.asksTwice queuedTrack) = some true) :
    ¬ Meets (step here drawZero) FreshUid {} (ops ++ [queuedTrack]) := by
  intro hfresh
  simp only [bind_eq_some_iff, map_eq_some_iff] at h
  obtain ⟨p, hp, p', hp', htwice⟩ := h
  unfold asksTwice at htwice
  split at htwice
  · rename_i queued id hasks htracks
    exact hfresh.last hp hp' _ _ queued id rfl rfl hasks htracks (of_decide_eq_true htwice)
  · simp at htwice

theorem uid_given_twice :
    ¬ Meets (step here drawZero) FreshUid {} (orderedRun ++ [queuedTrack]) ∧
    ¬ Meets (step here drawZero) FreshUid {} (carriedRun ++ [queuedTrack]) :=
  ⟨not_fresh_of_asksTwice (by decide +kernel), not_fresh_of_asksTwice (by decide +kernel)⟩

instance (state : TransferState) : Decidable state.Bare := inferInstanceAs (Decidable (_ ∧ _))

instance (p : AppPlayer) (op : Op) : Decidable (Numbered p op) := by
  delta Numbered UpTo
  rcases op with ⟨_, _ | _⟩ | _ <;> infer_instance

theorem uids_fresh_unhurried : Meets (step here drawZero) FreshUid {}
    (unhurriedRun ++ [setOrder, queuedTrack]) :=
  uids_fresh_of_numbered (by decide +kernel)

end AppPlayer

end Librespot.Daemon
