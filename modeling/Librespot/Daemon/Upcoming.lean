import Librespot.Daemon.Lookahead

/-!
# The stream that was prefetched

While no job is outstanding, the stream that is kept ready is that of the track that comes
next, unless the lane has refused a skip.
-/

open Base.Run
open Librespot.Tracks
open Librespot.Daemon.LoaderLane (kept)

namespace Librespot.Daemon

namespace AppPlayer

variable {cfg : Config} {g : Rand} {m : Moment} {p p' : AppPlayer} {id : ListId}

/-- The track that is loaded by an advance that nobody forces: the current one if it repeats, or
the one that `PeekNext` finds, whatever the resolver answers. -/
def LoadsNext (spotId : SpotifyId) (p : AppPlayer) : Prop :=
  if p.state.player.options.any fun options => options.repeatingTrack then
    spotifyIdFromUri p.state.player.trackUri = some (.ok spotId)
  else ∃ id list track, p.state.tracks = some id ∧ p.lists[id]? = some list ∧
    (∀ page, ∃ list', list.peekNext page = some (some track, list')) ∧
    spotifyIdFromUri track.uri = some (.ok spotId)

def Fresh (p : AppPlayer) : Prop :=
  ∀ stream, p.secondaryStream = some stream →
    ∃ spotId, stream.is spotId = true ∧ p.LoadsNext spotId

def Settled (p : AppPlayer) : Prop := p.jobs = [] → p.Fresh

/-- Changes of the queue and of the options, skips that the lane has room for, prefetches, the
lane's progress and its results, and whatever else neither loads nor ends a track. Loads succeed:
every track that a step comes to can be asked for, and the stream that is fetched is one of it. No
step ends in an autoplay station. -/
def Timely (cfg : Config) (p : AppPlayer) : Op → Prop
  | .command m (.skipPrev allowSeeking) =>
    (kept p.loader.queue).length < loaderQueueSize ∨
      allowSeeking ∧ ¬ p.loadInFlight ∧ m.positionMs > 3000
  | .command _ (.skipNext _) => (kept p.loader.queue).length < loaderQueueSize
  | .command _ (.setOptions ..) | .command _ (.setQueue _) | .command _ (.addToQueue _) => True
  | .command _ .resume | .command _ .pause | .command _ (.seek _) => True
  | .command _ (.setSleepTimer _) | .sleepTimer _ => True
  | .prefetchTimer | .take _ | .deliver => True
  | .finish a => ∀ job, p.worker = .running job → PlayPlan.Serves a job
  | .receive _ => ∀ res ∈ p.results.head?, p.stale res.job = false →
    ∀ id work walked snap, res.commit = .walked id work walked snap → work.isStep = true →
      Playable snap.current.uri ∧ ∀ repeating drop delay k, work = .advance repeating drop delay k →
        walked.hasNextTrack = true ∨ p.autoplays cfg = false
  | .event _ ev => ev.type ≠ .notPlaying
  | .drain _ => ∀ ev ∈ p.draining.head?, ev.type ≠ .notPlaying
  | _ => False

theorem loadsNext_iff {spotId : SpotifyId} (hp : Grounded g p) (htracks : p.state.tracks = some id) :
    p.LoadsNext spotId ↔ p.plan.Plans id spotId := by
  show _ ↔ (if p.plan.repeats then _ else _)
  unfold LoadsNext
  cases hrepeats : p.plan.repeats with
  | true =>
    have hany : (p.state.player.options.any fun options => options.repeatingTrack) = true := hrepeats
    simp only [hany, if_true]
    rfl
  | false =>
    have hany : (p.state.player.options.any fun options => options.repeatingTrack) = false := hrepeats
    simp only [hany, Bool.false_eq_true, if_false]
    constructor
    · rintro ⟨id', list, track, hid, hlist, hpeek, huri⟩
      obtain rfl : id = id' := Option.some.inj (htracks.symm.trans hid)
      refine ⟨list, track, hlist, ?_, huri⟩
      have hmem := List.mem_of_getElem? hlist
      obtain ⟨typ, ops, hruns⟩ := hp.built list hmem
      exact TrackList.nextUp_of_peekNext (TrackList.reachable_queued hruns)
        (hp.sound.valid list hmem) hpeek
    · rintro ⟨list, track, hlist, hnext, huri⟩
      have hmem := List.mem_of_getElem? hlist
      obtain ⟨typ, ops, hruns⟩ := hp.built list hmem
      refine ⟨id, list, track, htracks, hlist, fun page => ⟨list, ?_⟩, huri⟩
      exact TrackList.peekNext_of_nextUp (TrackList.reachable_queued hruns)
        (hp.sound.valid list hmem) page hnext

/-! ## Commands and the timer -/

theorem prefetchNext_outlook (h : p.plan.Outlook id) (hn : p.prefetchNext = some p') :
    p'.plan.Outlook id := by
  have htracks : p.state.tracks = some id := h.layout.tracks
  simp only [prefetchNext, Option.bind_eq_bind, Option.bind_eq_some_iff] at hn
  obtain ⟨options, hoptions, hn⟩ := hn
  have hrepeats : p.plan.repeats = options.repeatingTrack := by
    show p.state.player.options.any _ = _
    simp [hoptions]
  split at hn
  · rename_i hrepeating
    rcases submitPrefetch_plan hn with hplan | ⟨spotId, huri, hplan⟩
    · rw [hplan]
      exact h
    · rw [hplan]
      refine h.submit rfl rfl (.inr (.inl ⟨spotId, rfl⟩)) (fun _ => le_rfl) ?_ (by simp)
      intro _ spotId' hrun
      obtain rfl : spotId = spotId' := Work.prefetch.inj hrun
      rw [PlayPlan.Plans, if_pos (hrepeats.trans hrepeating)]
      exact huri
  · rename_i hrepeating
    simp only [htracks] at hn
    rw [← Option.some.inj hn]
    refine h.submit rfl rfl (.inr (.inr ⟨_, rfl⟩)) (fun _ => le_rfl) (by simp) ?_
    intro _
    rw [hrepeats]
    simpa using hrepeating

theorem setModes_outlook (h : p.plan.Outlook id) : p.setModes.plan.Outlook id := by
  refine h.retune ?_ fun _ stream hstream => .inl hstream
  show (some (p.state.player.options.getD {})).any _ = p.state.player.options.any _
  cases p.state.player.options <;> rfl

theorem setOptions_outlook {repeatingContext repeatingTrack shufflingContext : Option Bool}
    (h : p.plan.Outlook id)
    (hs : p.setOptions repeatingContext repeatingTrack shufflingContext = some p') :
    p'.plan.Outlook id := by
  obtain ⟨options, ⟨hplan, hsame⟩ | hplan | ⟨val, hplan⟩⟩ := setOptions_plan h.layout.tracks hs
  · rw [hplan]
    refine h.retune ?_ fun _ stream hstream => .inl hstream
    show options.any _ = p.state.player.options.any _
    cases options <;> cases hold : p.state.player.options <;> simp_all
  · rw [hplan]
    exact h.layout.forget
  · rw [hplan]
    exact (h.layout.submit rfl rfl (.inr (.inr ⟨_, rfl⟩)) (by simp)).forget

theorem command_outlook {cmd : Command} (hp : Grounded g p) (h : p.plan.Outlook id)
    (htimely : p.Timely cfg (.command m cmd)) (hc : p.handleCommand cfg m cmd = some p') :
    p'.plan.Outlook id := by
  have htracks : p.state.tracks = some id := h.layout.tracks
  have hopen : p.plan.loader.closed = false := hp.sound.lane.isOpen
  cases cmd with
  | transfer | play | apiPlay | stop => exact htimely.elim
  | resume => exact Option.some.inj hc ▸ (play_unmoved m p).plan.symm ▸ h
  | pause => exact Option.some.inj hc ▸ (pause_unmoved m p).plan.symm ▸ h
  | seek position => exact Option.some.inj hc ▸ (seek_unmoved m position p).plan.symm ▸ h
  | setSleepTimer =>
    cases hc
    exact h
  | skipPrev allowSeeking =>
    cases hc
    by_cases hseeks : allowSeeking ∧ ¬ p.loadInFlight ∧ m.positionMs > 3000
    · rw [skipPrev, if_pos hseeks, (seek_unmoved ..).plan]
      exact h
    · obtain ⟨delay, hplan⟩ := skipPrev_plan htracks hseeks
      rw [hplan]
      exact h.layout.press hopen (htimely.resolve_right hseeks) rfl rfl rfl rfl
  | skipNext track =>
    cases track with
    | none =>
      obtain ⟨repeating, delay, hplan⟩ := skipNext_plan htracks hc
      rw [hplan]
      exact h.layout.press hopen htimely rfl rfl rfl rfl
    | some =>
      obtain ⟨delay, hplan⟩ := skipTo_plan htracks hc
      rw [hplan]
      exact h.layout.press hopen htimely rfl rfl rfl rfl
  | setOptions _ _ _ modes =>
    obtain ⟨q, hq, hc⟩ := Option.bind_eq_some_iff.mp hc
    have hset := setOptions_outlook h hq
    cases hc
    cases modes with
    | false => exact hset
    | true => exact setModes_outlook hset
  | setQueue next =>
    rw [← Option.some.inj hc, setQueue_plan next htracks]
    exact h.submit rfl rfl (.inr (.inr ⟨_, rfl⟩)) (by simp) (by simp) (by simp)
  | addToQueue track =>
    obtain ⟨track', hplan⟩ := addToQueue_plan track htracks
    rw [← Option.some.inj hc, hplan]
    exact h.submit rfl rfl (.inr (.inr ⟨_, rfl⟩)) (by simp) (by simp) (by simp)

/-! ## The lane's goroutine -/

theorem take_outlook {clock : Nat → Int} (hp : Grounded g p) (h : p.plan.Outlook id)
    (ht : p.take clock = some p') : p'.plan.Outlook id := by
  have hunrun := unrun_take hp.sound.lane ht
  obtain ⟨-, hperm, -, hidle, loader, job, rfl⟩ := take_spec hp.sound.lane ht
  refine h.moved hperm ?_ ?_
  · show p.results ++ _ = p.results ++ p.worker.finished
    rw [hidle]
    rfl
  · rcases hunrun with hsame | ⟨held, mutation, rest, -, hm, hbefore, hafter⟩
    · exact congrArg (List.filter fun q => q.run.isStep) hsame
    · have hstep : mutation.run.isStep = false := by
        by_contra hstep
        have hmem : mutation ∈ p.jobs := p.unrun_subset (by simp [hbefore])
        have hloads := Work.loads_of_isStep (by simpa using hstep)
        rw [← h.layout.cls mutation hmem, hm] at hloads
        simp [LoaderClass.loads] at hloads
      have hb : p.plan.unrun = held :: mutation :: rest := hbefore
      have ha : PlayPlan.unrun { p.plan with loader, worker := .running job } =
        mutation :: held :: rest := hafter
      show PlayPlan.steps { p.plan with loader, worker := .running job } = p.plan.steps
      rw [PlayPlan.steps, PlayPlan.steps, ha, hb]
      simp [List.filter_cons, hstep]

theorem deliver_outlook (h : p.plan.Outlook id) (hd : p.deliver = some p') :
    p'.plan.Outlook id := by
  have hjobs := deliver_jobs hd
  have hunrun := unrun_deliver hd
  obtain ⟨res, hw, rfl⟩ := deliver_spec hd
  refine h.moved (List.Perm.of_eq hjobs) ?_ ?_
  · show (p.results ++ [res]) ++ _ = p.results ++ p.worker.finished
    simp [PlayPlan.laneOnly, hw, Worker.finished]
  · exact congrArg (List.filter fun q => q.run.isStep) hunrun

theorem finish_outlook {a : Answers} (hp : Grounded g p) (h : p.plan.Outlook id)
    (htimely : p.Timely cfg (.finish a)) (hf : p.finish g a = some p') : p'.plan.Outlook id := by
  obtain ⟨job, commit, lists, hw, hrun, rfl⟩ := finish_spec hf
  have hmem : job ∈ p.plan.jobs := by
    refine p.plan.unrun_subset (List.mem_append_left _ ?_)
    show job ∈ p.worker.toRun
    simp [hw, Worker.toRun]
  obtain ⟨hsucceeds, hout⟩ := PlayPlan.runWork_outcome hp.built hp.sound.valid (h.layout.jobs job hmem)
    (htimely job hw) hrun
  exact h.ran hw rfl hsucceeds hout

section Receive

variable {res : LoaderResult} {rest : List LoaderResult}

theorem steps_of_head (hp : Grounded g p) (h : p.plan.Layout id)
    (hresults : p.results = res :: rest) (hcls : res.job.cls.loads = true)
    (hgen : res.job.gen = p.loadGen) : p.plan.steps = [] := by
  by_contra hne
  obtain ⟨q, hq, -, hloads, hcurrent⟩ := h.last_step hne
  exact head_current_unrun hp hresults hcls hgen hq hloads hcurrent

variable {snap : TrackList.Snapshot} {q q' : AppPlayer} {work : ListWork} {walked : Walked}

theorem shows_outlook (hp : Grounded g p) (h : p.plan.Layout id)
    (hresults : p.results = res :: rest) (hcls : res.job.cls.loads = true)
    (hgen : res.job.gen = p.loadGen) (hq : q.plan = { p.plan with results := rest })
    (hshows : q.Shows snap p') : p'.plan.Outlook id := by
  obtain ⟨job, load, hload, hplan⟩ := hshows
  rw [hq] at hplan
  rw [hplan]
  exact (h.drop hresults).load (steps_of_head hp h hresults hcls hgen) hload.run hload.cls

theorem changed_outlook (h : p.plan.Layout id) (hresults : p.results = res :: rest)
    (hwork : work.isChange = true) (hq : q.plan = { p.plan with results := rest })
    (hc : q.listWalked cfg m work walked snap = some q') : q'.plan.Outlook id := by
  have hdropped := h.drop hresults
  rw [← hq] at hdropped
  cases work with
  | shuffle | addToQueue | setQueue =>
    rw [← Option.some.inj hc]
    exact hdropped.forget
  | _ => simp [ListWork.isChange] at hwork

theorem failed_outlook {err : LoadErr} (h : q.plan.Outlook id) (hwork : work.isStep = false)
    (hc : q.listFailed m work err = some q') : q'.plan.Outlook id := by
  cases work with
  | shuffle =>
    simp only [listFailed, Option.bind_eq_bind, Option.bind_eq_some_iff] at hc
    obtain ⟨options, hoptions, hc⟩ := hc
    rw [← Option.some.inj hc]
    refine h.retune ?_ fun _ stream hstream => .inl hstream
    show (some _).any _ = q.state.player.options.any _
    rw [hoptions]
    rfl
  | peekNext | addToQueue | setQueue =>
    rw [← Option.some.inj hc]
    exact h
  | _ => simp [ListWork.isStep] at hwork

theorem step_received (hp : Grounded g p) (h : p.plan.Layout id)
    (hresults : p.results = res :: rest) (hwork : work.isStep = true)
    (hrun : res.job.run = .list id work) (hcurrent : p.stale res.job = false)
    (hplayable : Playable snap.current.uri)
    (hnext : ∀ repeating drop delay k, work = .advance repeating drop delay k →
      walked.hasNextTrack = true ∨ p.autoplays cfg = false)
    (hq : q.plan = { p.plan with results := rest })
    (hc : q.listWalked cfg m work walked snap = some p') : p'.plan.Outlook id := by
  have hmem : res.job ∈ p.plan.jobs := finished_mem_jobs (head_mem_finished hresults)
  have hcls : res.job.cls.loads = true := by
    rw [h.cls res.job hmem, hrun]
    exact Work.loads_of_isStep hwork
  have hshows : q.Shows snap p' := by
    cases work with
    | skipPrev delay | skipTo track delay => exact skipLanded_shows hplayable hc
    | advance =>
      refine advance_shows hplayable ?_ hc
      have huri : q.state.player.contextUri = p.state.player.contextUri :=
        congrArg PlayPlan.contextUri hq
      rw [autoplays, huri]
      exact hnext _ _ _ _ rfl
    | _ => simp [ListWork.isStep] at hwork
  exact shows_outlook hp h hresults hcls (current_of_loads hcls hcurrent) hq hshows

theorem load_received {load : LoadJob} (h : p.plan.Outlook id)
    (hresults : p.results = res :: rest) (hrun : res.job.run = .load load)
    (hgives : res.job.run.Gives res.commit) (hsucceeds : PlayPlan.Succeeds res)
    (hq : q.plan = { p.plan with results := rest }) (hc : q.commit cfg m res.commit = some q') :
    q'.plan.Outlook id := by
  rw [hrun] at hgives
  generalize hcommit : res.commit = commit at hgives hc
  cases hgives with
  | unloaded => exact absurd hcommit (hsucceeds.loads _ _)
  | loaded _ stream =>
    have hdropped := h.drop hresults (by simp [hrun, Work.isStep]) (by simp [hcommit])
    rw [loaded_plan hc, hq]
    exact hdropped.retune rfl fun _ stream hstream => .inl hstream

theorem prefetch_received {spotId : SpotifyId} (h : p.plan.Outlook id)
    (hresults : p.results = res :: rest) (hrun : res.job.run = .prefetch spotId)
    (hgen : res.job.gen = p.prefetchGen) (hgives : res.job.run.Gives res.commit)
    (hsucceeds : PlayPlan.Succeeds res) (hq : q.plan = { p.plan with results := rest })
    (hc : q.commit cfg m res.commit = some q') : q'.plan.Outlook id := by
  have hmem : res.job ∈ p.plan.jobs := finished_mem_jobs (head_mem_finished hresults)
  rw [hrun] at hgives
  generalize hcommit : res.commit = commit at hgives hc
  cases hgives with
  | unfetched =>
    rw [← Option.some.inj hc, hq]
    exact h.drop hresults (by simp [hrun, Work.isStep]) (by simp [hcommit])
  | prefetched _ stream =>
    have hready : PlayPlan.Outlook id { p.plan with secondary := some stream } := by
      refine h.retune rfl fun hclean stream' hstream => .inr ⟨spotId, ?_, ?_⟩
      · exact Option.some.inj hstream ▸ hsucceeds.prefetches spotId stream hrun hcommit
      · exact hclean.fetches res.job hmem spotId hrun hgen
    rw [← Option.some.inj hc, commitPrefetch_plan, hq]
    exact hready.drop hresults (by simp [hrun, Work.isStep]) (by simp [hcommit])

theorem peek_received (h : p.plan.Outlook id) (hresults : p.results = res :: rest)
    (hrun : res.job.run = .list id .peekNext) (hgen : res.job.gen = p.prefetchGen)
    (hcommit : res.commit = .walked id .peekNext walked snap)
    (hq : q.plan = { p.plan with results := rest })
    (hc : q.listWalked cfg m .peekNext walked snap = some q') : q'.plan.Outlook id := by
  have hmem : res ∈ p.plan.finished := by
    show res ∈ p.results ++ _
    simp [hresults]
  have hchange : ∀ work walked snap, res.commit = .walked id work walked snap →
      work.isChange = false := by
    intro work walked' snap' hwalked
    obtain ⟨-, rfl, -⟩ := Commit.walked.inj (hcommit.symm.trans hwalked)
    rfl
  have hstep : res.job.run.isStep = true → res.job.gen ≠ p.loadGen := by
    simp [hrun, Work.isStep, ListWork.isStep]
  have hdropped := h.drop hresults hstep hchange
  cases hnext : walked.next with
  | none =>
    simp only [listWalked, hnext, Option.map_none, Option.getD_none, submitPrefetch] at hc
    rw [← Option.some.inj hc, hq]
    exact hdropped
  | some track =>
    simp only [listWalked, hnext, Option.map_some, Option.getD_some] at hc
    rcases submitPrefetch_plan hc with hplan | ⟨spotId, huri, hplan⟩
    · rw [hplan, hq]
      exact hdropped
    · have hgens : q.prefetchGen = p.prefetchGen := congrArg PlayPlan.prefetchGen hq
      have hloader : q.loader = p.loader := congrArg PlayPlan.loader hq
      rw [hplan, hq, hgens, hloader]
      have hsubmitted : PlayPlan.Outlook id { p.plan with
          loader := (p.loader.submit
            { cls := .prefetch, gen := p.prefetchGen, run := .prefetch spotId }).2 } := by
        refine h.submit rfl rfl (.inr (.inl ⟨spotId, rfl⟩)) (fun _ => le_rfl) ?_ (by simp)
        intro hclean spotId' hfetch
        obtain rfl : spotId = spotId' := Work.prefetch.inj hfetch
        have hrepeats := hclean.looks res.job (PlayPlan.finished_mem_jobs hmem) hrun hgen
        obtain ⟨list, hlist, hup⟩ := hclean.found res hmem hrun hgen walked snap track hcommit hnext
        rw [PlayPlan.Plans, if_neg (by simp [hrepeats])]
        exact ⟨list, track, hlist, hup, huri⟩
      exact hsubmitted.drop hresults hstep hchange

theorem list_received (hp : Grounded g p) (h : p.plan.Outlook id)
    (htimely : p.Timely cfg (.receive m)) (hresults : p.results = res :: rest)
    (hrun : res.job.run = .list id work) (hgives : res.job.run.Gives res.commit)
    (hsucceeds : PlayPlan.Succeeds res) (hcurrent : p.stale res.job = false)
    (hq : q.plan = { p.plan with results := rest }) (hc : q.commit cfg m res.commit = some q') :
    q'.plan.Outlook id := by
  have hmem : res.job ∈ p.plan.jobs := finished_mem_jobs (head_mem_finished hresults)
  have htracks : q.state.tracks = some id := (congrArg PlayPlan.tracks hq).trans h.layout.tracks
  rw [hrun] at hgives
  generalize hcommit : res.commit = commit at hgives hc
  cases hgives with
  | walkFailed _ _ err =>
    have hstep := hsucceeds.moves work err hcommit
    have hdropped := h.drop hresults (by simp [hrun, Work.isStep, hstep]) (by simp [hcommit])
    rw [← hq] at hdropped
    exact failed_outlook hdropped hstep hc
  | walked _ _ walked snap =>
    simp only [commit, if_pos htracks] at hc
    by_cases hstep : work.isStep = true
    · obtain ⟨hplayable, hnext⟩ :=
        htimely res (by simp [hresults]) hcurrent id work walked snap hcommit hstep
      exact step_received hp h.layout hresults hstep hrun hcurrent hplayable hnext hq hc
    by_cases hchange : work.isChange = true
    · exact changed_outlook h.layout hresults hchange hq hc
    · obtain rfl : work = .peekNext := by
        cases work <;> simp_all [ListWork.isStep, ListWork.isChange]
      have hcls : res.job.cls = .prefetch := by
        rw [h.layout.cls res.job hmem, hrun]
        rfl
      exact peek_received h hresults hrun (current_of_prefetch hcls hcurrent) hcommit hq hc

theorem receive_outlook (hp : Grounded g p) (h : p.plan.Outlook id)
    (htimely : p.Timely cfg (.receive m)) (hr : p.handle cfg (.receive m) = some p') :
    p'.plan.Outlook id := by
  cases hresults : p.results with
  | nil => simp [handle, hresults] at hr
  | cons res =>
    have hmem := p.head_mem_finished hresults
    have hcls := h.layout.cls res.job (finished_mem_jobs hmem)
    have hsucceeds := h.layout.results res hmem
    have hgives := hp.sound.gives res hmem
    rcases receive_cases hresults hr with ⟨hstale, hplan⟩ | ⟨hcurrent, q, q', hq, hc, hplan⟩
    · rw [hplan]
      refine h.drop hresults (fun hstep => ?_) fun work walked snap hcommit => ?_
      · refine (stale_iff_of_loads ?_).mp hstale
        rw [hcls]
        exact Work.loads_of_isStep hstep
      · rw [hcommit] at hgives
        generalize hrun : res.job.run = run at hgives
        cases hgives
        cases work with
        | shuffle | addToQueue | setQueue =>
          -- no change of the list is ever stale
          rw [hrun] at hcls
          simp [stale, hcls, Work.cls, ListWork.cls] at hstale
        | _ => rfl
    · rw [hplan]
      rcases h.layout.jobs res.job (finished_mem_jobs hmem) with ⟨load, hrun⟩ | ⟨spotId, hrun⟩ |
        ⟨work, hrun⟩
      · exact load_received h hresults hrun hgives hsucceeds hq hc
      · have hpre : res.job.cls = .prefetch := by
          rw [hcls, hrun]
          rfl
        exact prefetch_received h hresults hrun (current_of_prefetch hpre hcurrent) hgives hsucceeds
          hq hc
      · exact list_received hp h htimely hresults hrun hgives hsucceeds hcurrent hq hc

end Receive

theorem step_outlook {op : Op} (hp : Grounded g p) (h : p.plan.Outlook id)
    (htimely : p.Timely cfg op) (hs : p.step cfg g op = some p') : p'.plan.Outlook id := by
  cases op with
  | command => exact command_outlook hp h htimely (handle_of_step rfl hs)
  | prefetchTimer => exact prefetchNext_outlook h (handle_of_step rfl hs)
  | sleepTimer =>
    rw [← Option.some.inj (handle_of_step rfl hs), (pause_unmoved ..).plan]
    exact h
  | take => exact take_outlook hp h hs
  | finish => exact finish_outlook hp h htimely hs
  | deliver => exact deliver_outlook h hs
  | receive => exact receive_outlook hp h htimely (handle_of_step rfl hs)
  | event =>
    rw [(receivePlayerEvent_unmoved htimely (handle_of_step rfl hs)).plan]
    exact h
  | drain =>
    simp only [step] at hs
    split at hs
    · simp at hs
    · rename_i ev rest hdraining
      rw [(handlePlayerEvent_unmoved (htimely ev (by simp [hdraining])) hs).plan]
      exact h
  | cluster => exact htimely.elim

structure OnlyLoads (p : AppPlayer) : Prop where
  jobs : ∀ q ∈ p.jobs, ∃ load, q.run = .load load
  results : ∀ res ∈ p.finished, ∀ k err, res.commit ≠ .call k err

theorem outlook_start (hp : Grounded g p) (htracks : p.state.tracks = some id)
    (hloads : p.OnlyLoads) (hfresh : p.Fresh) : p.plan.Outlook id := by
  have hrun (q : LoaderJob Work) (hq : q ∈ p.plan.jobs) : ∃ load, q.run = .load load :=
    hloads.jobs q hq
  have hsteps : p.plan.steps = [] := by
    refine List.filter_eq_nil_iff.mpr fun q hq => ?_
    obtain ⟨load, hrun⟩ := hrun q (p.plan.unrun_subset hq)
    simp [hrun, Work.isStep]
  refine ⟨⟨htracks, fun q hq => .inl (hrun q hq), fun _ => hp.cls, ?_, ?_,
    by simp [hsteps]⟩, .inr ⟨?_, ?_, ?_, ?_⟩⟩
  · intro q hq hcls
    obtain ⟨load, hrun⟩ := hrun q hq
    rw [hp.cls hq, hrun] at hcls
    simp [Work.cls] at hcls
  · intro res hres
    obtain ⟨load, hrun⟩ := hrun res.job (PlayPlan.finished_mem_jobs hres)
    have hgives := hp.sound.gives res hres
    rw [hrun] at hgives
    refine ⟨hloads.results res hres, fun work err hcommit => ?_, by simp [hrun]⟩
    rw [hcommit] at hgives
    cases hgives
  · intro stream hstream
    obtain ⟨spotId, his, hnext⟩ := hfresh stream hstream
    exact ⟨spotId, his, (loadsNext_iff hp htracks).mp hnext⟩
  · intro q hq spotId hpre
    obtain ⟨load, hrun⟩ := hrun q hq
    simp [hrun] at hpre
  · intro q hq hlook
    obtain ⟨load, hrun⟩ := hrun q hq
    simp [hrun] at hlook
  · intro res hres hlook
    obtain ⟨load, hrun⟩ := hrun res.job (PlayPlan.finished_mem_jobs hres)
    simp [hrun] at hlook

theorem settled_of_outlook (hp : Grounded g p) (h : p.plan.Outlook id) : p.Settled := by
  intro hjobs stream hstream
  have hnone (q : LoaderJob Work) (hq : q ∈ p.plan.jobs) : False := by
    have hq : q ∈ p.jobs := hq
    simp [hjobs] at hq
  rcases h.plan with hdirty | hclean
  · cases hdirty with
    | step q hq => exact (hnone q hq).elim
    | change _ _ _ _ hres => exact (hnone _ (PlayPlan.finished_mem_jobs hres)).elim
  · obtain ⟨spotId, his, hplans⟩ := hclean.ready stream hstream
    exact ⟨spotId, his, (loadsNext_iff hp h.layout.tracks).mpr hplans⟩

/-- From any state in which only tracks are being loaded. -/
theorem settled_of_timely {past ops : List Op} (hp : exec (step cfg g) {} past = some p)
    (htracks : p.state.tracks = some id) (hloads : p.OnlyLoads) (hfresh : p.Fresh)
    (htimely : Meets (step cfg g) (Timely cfg) p ops) : Always (step cfg g) Settled p ops := by
  have hgrounded : Grounded g p :=
    exec_invariant (fun _ _ _ => step_grounded) grounded_new hp
  have hinv : Always (step cfg g) (fun p => Grounded g p ∧ p.plan.Outlook id) p ops := by
    refine always_of_meets (fun p op p' hp htimely h => ?_)
      ⟨hgrounded, outlook_start hgrounded htracks hloads hfresh⟩ htimely
    exact ⟨step_grounded hp.1 h, step_outlook hp.1 hp.2 htimely h⟩
  exact hinv.imp fun p hp => settled_of_outlook hp.1 hp.2

def servedTwice : Answers :=
  { served [knownTrack, knownTrack] with stream := .ok ownStream, streamGen := 2 }

def prefetching : List Op := .prefetchTimer :: roundTrip 0 servedTwice ++ roundTrip 0 servedTwice

def unhurried : List Op :=
  prefetching ++
    (.command { now := 0 } (.addToQueue knownTrack) :: roundTrip 0 servedTwice) ++ prefetching ++
    (.command { now := 0 } (.skipNext none) :: roundTrip 0 servedTwice ++ roundTrip 0 servedTwice)

instance (cfg : Config) (p : AppPlayer) (op : Op) : Decidable (p.Timely cfg op) := by
  delta Timely
  rcases op with ⟨_, _ | _⟩ | _ <;> infer_instance

def tally (p : AppPlayer) (ops : List Op) : Option (List Nat) :=
  (exec (step here drawZero) p ops).map fun p =>
    [p.jobs.length, p.secondaryStream.toList.length]

theorem settled_unhurried : ∃ p, exec (step here drawZero) {} playingRun = some p ∧
    p.tally prefetching = some [0, 1] ∧ p.tally unhurried = some [0, 0] ∧
    Always (step here drawZero) Settled p unhurried := by
  refine ⟨Option.get _ (by decide +kernel), exec_get _, by decide +kernel, by decide +kernel, ?_⟩
  refine settled_of_timely (exec_get _) (show _ = some 0 by decide +kernel) ⟨?_, ?_⟩ ?_
    (by decide +kernel)
  · exact fun q hq => (List.eq_nil_iff_forall_not_mem.mp (by decide +kernel) q hq).elim
  · exact fun q hq => (List.eq_nil_iff_forall_not_mem.mp (by decide +kernel) q hq).elim
  · exact fun q hq => (Option.eq_none_iff_forall_ne_some.mp (by decide +kernel) q hq).elim

/-! ## A skip that the lane refuses -/

/-- Skips that end with the last track. The lane takes all but the last of them, whose number
makes every other result stale. -/
def crowded : List Op :=
  List.replicate 31 (.command { now := 0 } (.skipPrev false)) ++
    List.replicate 2 (.command { now := 0 } (.skipNext none)) ++
    (List.replicate 32 (roundTrip 0 servedTwice)).flatten

theorem settled_fails_crowded : ∃ p, exec (step here drawZero) {} playingRun = some p ∧
    p.jobs = [] ∧ p.secondaryStream = none ∧
    ¬ Always (step here drawZero) Settled p (prefetching ++ crowded) := by
  have hrun : ((exec (step here drawZero) {} playingRun).bind fun p =>
      (exec (step here drawZero) p (prefetching ++ crowded)).map fun t =>
        ([p.jobs.length, p.secondaryStream.toList.length, t.jobs.length,
          t.secondaryStream.toList.length],
          t.state.player.options.any fun options => options.repeatingTrack,
          t.lists.map fun list => (list.peekNext (onePage [])).map fun found => found.1.isSome)) =
      some ([0, 0, 0, 1], false, [some false]) := by
    decide +kernel
  obtain ⟨p, hp, hrun⟩ := Option.bind_eq_some_iff.mp hrun
  obtain ⟨t, ht, hrun⟩ := Option.map_eq_some_iff.mp hrun
  simp only [Prod.mk.injEq, List.cons.injEq, List.length_eq_zero_iff,
    Option.toList_eq_nil_iff] at hrun
  obtain ⟨⟨hjobs, hnone, hdone, hkept, -⟩, hrepeats, hlists⟩ := hrun
  refine ⟨p, hp, hjobs, hnone, fun h => ?_⟩
  obtain ⟨stream, hstream⟩ : ∃ stream, t.secondaryStream = some stream := by
    cases hs : t.secondaryStream with
    | none => simp [hs] at hkept
    | some stream => exact ⟨stream, rfl⟩
  obtain ⟨spotId, -, hnext⟩ := h.last ht hdone stream hstream
  rw [LoadsNext, if_neg (by simp [hrepeats])] at hnext
  obtain ⟨id, list, track, -, hlist, hpeek, -⟩ := hnext
  obtain ⟨list', hfound⟩ := hpeek (onePage [])
  have hmem := List.mem_map_of_mem (f := fun list : TrackList =>
    (list.peekNext (onePage [])).map fun found => found.1.isSome) (List.mem_of_getElem? hlist)
  rw [hlists, hfound] at hmem
  simp at hmem

end AppPlayer

end Librespot.Daemon
