import Librespot.Daemon.ListFlags
import Librespot.Daemon.LoadInFlight

/-!
# The shuffle option and the list's flag

A set-shuffle command shows the new option at once and hands the shuffle to the lane.
A shuffle that fails, or whose list has been replaced, is taken back by negating what
it asked for. Where the lane refuses the job nothing takes the option back.
-/

open Base.Run
open Librespot.Tracks
open Librespot.Daemon.LoaderLane (kept accepts HasRoom)

namespace Librespot.Daemon

open AppPlayer LoaderLane

def Work.isContext : Work → Bool
  | .resolve _ | .transfer _ => true
  | _ => false

theorem list_of_toggle {work : Work} {t : ListId × Bool} (h : work.toggle = some t) :
    work = .list t.1 (.shuffle t.2) := by
  unfold Work.toggle at h
  split at h
  · cases h
    rfl
  · simp at h

def Commit.isShuffle : Commit → Bool
  | .walkFailed (.shuffle _) _ | .walked _ (.shuffle _) _ _ => true
  | _ => false

theorem Work.Gives.toggle_of_isShuffle {work : Work} {commit : Commit} (h : work.Gives commit) :
    commit.isShuffle = work.toggle.isSome := by
  cases h with
  | walkFailed _ work | walked _ work => cases work <;> rfl
  | _ => rfl

/-- The shuffle option that is shown, the toggles on their way and each list's own flag. -/
structure ShuffleState where
  option : Option Bool
  tracks : Option ListId
  toggles : List (ListId × Bool)
  flags : List Bool

namespace ShuffleState

def Superseded (b : ShuffleState) : Prop := ∃ t ∈ b.toggles, b.tracks ≠ some t.1

def target (id : ListId) (b : ShuffleState) : Option Bool :=
  (b.toggles.getLast?.map Prod.snd).or b.flags[id]?

def Agrees (b : ShuffleState) : Prop := ∀ id, b.tracks = some id → b.option = b.target id

def settled (b : ShuffleState) : ShuffleState := { b with toggles := b.toggles.tail }

end ShuffleState

namespace AppPlayer

variable {cfg : Config} {g : Rand} {m : Moment} {p p' : AppPlayer}

def shuffleOption (p : AppPlayer) : Option Bool :=
  p.state.player.options.map ContextPlayerOptions.shufflingContext

def toggles (p : AppPlayer) : List (ListId × Bool) := (kept p.jobs).filterMap (·.run.toggle)

def shuffles (p : AppPlayer) : ShuffleState :=
  ⟨p.shuffleOption, p.state.tracks, p.toggles, flags p.lists⟩

def Loading (p : AppPlayer) : Prop := ∃ job ∈ p.jobs, job.run.isContext = true

def Unsettled (p : AppPlayer) : Prop := Loading p ∨ p.shuffles.Superseded

/-- Without a shuffle or a context on its way, the option is what the list has. -/
def ShuffleAgrees (p : AppPlayer) : Prop :=
  (∀ job ∈ p.jobs, job.run.toggle = none ∧ job.run.isContext = false) →
    ∀ id, p.state.tracks = some id →
      ∃ options list, p.state.player.options = some options ∧ p.lists[id]? = some list ∧
        options.shufflingContext = list.shuffled

/-! ## What a step has to find -/

def loadsContext (p : AppPlayer) : Op → Bool
  | .command _ (.play _) | .command _ (.transfer _) => true
  | .receive _ =>
    match p.results.head?.map LoaderResult.commit with
    | some (.station ..) | some (.apiPlay ..) => true
    | _ => false
  | _ => false

def FindsResult (id : ListId) (p : AppPlayer) : Commit → Prop
  | .walkFailed (.shuffle val) _ => p.shuffles.settled.target id = some (!val)
  | .walked list (.shuffle val) _ _ =>
    p.state.tracks = some list ∨ p.shuffles.settled.target id = some (!val)
  | .resolved job list _ =>
    if list = id then p.shuffleOption = some job.shuffle else Unsettled p → p.shuffles.Agrees
  | .transferred job list _ _ =>
    if list = id then
      (if job.continuation then job.state.options else p.state.player.options).map
        ContextPlayerOptions.shufflingContext = some job.state.shuffle
    else Unsettled p → p.shuffles.Agrees
  | _ => Unsettled p → p.shuffles.Agrees

def Finds (cfg : Config) (id : ListId) (p : AppPlayer) : Op → Prop
  | .receive _ => ∀ res ∈ p.results.head?, FindsResult id p res.commit
  | .command _ .stop => p.shuffles.target id = some false
  | .cluster cluster =>
    p.TakenOver cfg cluster → p.shuffles.target id = some false
  | _ => Unsettled p → p.shuffles.Agrees

/-- The lane takes every context and every shuffle, and what ends the unsettled state leaves the
option at what the list has or is to have. -/
@[mk_iff settles_iff]
structure Settles (cfg : Config) (g : Rand) (p : AppPlayer) (op : Op) : Prop where
  accepted : ∀ p', p.step cfg g op = some p' → p.loadsContext op = true →
    p'.loadGen ≠ p.loadGen → HasRoom p.loader
  toggled : ∀ m repeatingContext repeatingTrack val modes,
    op = .command m (.setOptions repeatingContext repeatingTrack (some val) modes) →
      p.state.tracks.isSome = true → p.shuffleOption ≠ some val →
        p.loader.queue.length < loaderQueueSize
  finds : ∀ p' id, p.step cfg g op = some p' → ¬ Unsettled p' → p'.state.tracks = some id →
    Finds cfg id p op

def Kept (p : AppPlayer) : Prop := Unsettled p ∨ p.shuffles.Agrees

theorem kept_of_shuffles (hshuffles : p'.shuffles = p.shuffles) (hk : Kept p)
    (hfinds : ∀ id, ¬ Unsettled p' → p'.state.tracks = some id → Unsettled p → p.shuffles.Agrees) :
    Kept p' := by
  by_cases hu : Unsettled p'
  · exact .inl hu
  · right
    intro id hid
    have hagrees : p.shuffles.Agrees := by
      rcases hk with hk | hk
      · exact hfinds id hu hid hk
      · exact hk
    rw [hshuffles] at hid ⊢
    exact hagrees id hid

theorem unsettled_of_same (hshuffles : p'.shuffles = p.shuffles)
    (hjobs : ∀ job ∈ p.jobs, job ∈ p'.jobs) (h : Unsettled p) : Unsettled p' := by
  rcases h with ⟨job, hjob, hctx⟩ | h
  · exact .inl ⟨job, hjobs job hjob, hctx⟩
  · exact .inr (hshuffles ▸ h)

theorem kept_of_same (hshuffles : p'.shuffles = p.shuffles) (hjobs : ∀ job ∈ p.jobs, job ∈ p'.jobs)
    (hk : Kept p) : Kept p' :=
  kept_of_shuffles hshuffles hk fun _ hu _ h => absurd (unsettled_of_same hshuffles hjobs h) hu

theorem Quiet.shuffles (h : Quiet p p') : p'.shuffles = p.shuffles := by
  have hframe := h.frame
  simp only [AppPlayer.frame, Frame.mk.injEq] at hframe
  simp [AppPlayer.shuffles, shuffleOption, toggles, h.jobs, hframe]

variable {job : LoaderJob Work} {id : ListId}

theorem Submits.shuffles (h : Submits job p p') : p'.shuffles =
    { p.shuffles with
      toggles := p.toggles ++
        if accepts job p.loader then (kept [job]).filterMap (·.run.toggle) else [] } := by
  have hframe := h.frame
  simp only [AppPlayer.frame, Frame.mk.injEq] at hframe
  simp only [AppPlayer.shuffles, shuffleOption, toggles, h.kept_jobs, hframe, List.filterMap_append]
  split <;> rfl

theorem Submits.shuffles_of_not_toggle (h : Submits job p p') (hrun : job.run.toggle = none) :
    p'.shuffles = p.shuffles := by
  have hnone : (kept [job]).filterMap (·.run.toggle) = [] := by
    apply List.filterMap_eq_nil_iff.mpr
    intro q hq
    rw [List.mem_singleton.mp (mem_kept.mp hq).1, hrun]
  rw [h.shuffles, hnone, ite_self, List.append_nil]
  rfl

theorem Acts.shuffles (h : Acts p p') : p'.shuffles = p.shuffles := by
  rcases h with h | ⟨job, hplain, h⟩
  · exact h.shuffles
  · exact h.shuffles_of_not_toggle (toggle_of_plain hplain)

theorem Submits.loading (h : Submits job p p') (hlane : LaneOk p)
    (hctx : job.run.isContext = true) (hloads : job.cls.loads = true)
    (hroom : p'.loadGen ≠ p.loadGen → HasRoom p.loader) : Loading p' := by
  have hgen : p'.loadGen ≠ p.loadGen := by
    rw [(h.loads hloads).1]
    omega
  have haccepts := (accepts_of_loads hloads hlane.isOpen).mpr (hroom hgen)
  exact ⟨job, h.self_mem haccepts, hctx⟩

theorem LoadsContext.loading {context : Context} (h : LoadsContext context p p') (hlane : LaneOk p)
    (hroom : p'.loadGen ≠ p.loadGen → HasRoom p.loader) : Loading p' := by
  obtain ⟨options, restricted, job, -, -, -, h⟩ := h
  exact h.loading ⟨hlane.isOpen, hlane.shape⟩ rfl rfl hroom

theorem Submits.shuffles_of_toggle {t : ListId × Bool} (h : Submits job p p') (hlane : LaneOk p)
    (hcls : job.cls = .mutate) (hrun : job.run.toggle = some t)
    (hroom : p.loader.queue.length < loaderQueueSize) :
    p'.shuffles = { p.shuffles with toggles := p.toggles ++ [t] } := by
  have haccepts : accepts job p.loader = true := by
    simp [accepts, hcls, hlane.isOpen, makeRoom, hroom]
  have hself : (kept [job]).filterMap (·.run.toggle) = [t] := by
    simp [kept, hcls, LoaderClass.fetches, hrun]
  rw [h.shuffles, haccepts, if_pos rfl, hself]

theorem target_isSome (hp : Sound p) (h : p.state.tracks = some id) :
    ∃ val, p.shuffles.target id = some val := by
  have hid := (hp.below _ p.length_mem_ahead).tracks id h
  rw [← length_flags] at hid
  have hflag := List.getElem?_eq_getElem hid
  unfold ShuffleState.target
  rcases p.shuffles.toggles.getLast? with _ | t
  · exact ⟨_, hflag⟩
  · exact ⟨t.2, rfl⟩

theorem SetsOptions.settles {shuffle : Option Bool} (h : SetsOptions shuffle p p') (hp : Sound p)
    (hk : Kept p) (hroom : ∀ val, shuffle = some val → p.state.tracks.isSome = true →
      p.shuffleOption ≠ some val → p.loader.queue.length < loaderQueueSize) : Kept p' := by
  cases h with
  | kept _ hshuffle h =>
    have hshuffles := h.shuffles
    have hjobs : p'.jobs = p.jobs := h.jobs
    rcases hk with hk | hk
    · left
      rcases hk with ⟨job, hjob, hctx⟩ | hk
      · exact .inl ⟨job, hjobs ▸ hjob, hctx⟩
      · right
        rw [hshuffles]
        exact hk
    · right
      intro id hid
      rw [hshuffles] at hid ⊢
      have hagrees := hk id hid
      obtain ⟨val, htarget⟩ := target_isSome hp hid
      rw [htarget] at hagrees
      obtain ⟨o, ho, rfl⟩ := Option.map_eq_some_iff.mp hagrees
      obtain ⟨o', rfl, ho'⟩ := hshuffle o ho
      exact (congrArg some ho').trans htarget.symm
  | toggled _ _ options val htracks hold hval hne hoptions h =>
    right
    have hlane : LaneOk (p.withOptions (some options)) := ⟨hp.lane.isOpen, hp.lane.shape⟩
    have hchanged : p.shuffleOption ≠ some val := by
      simp only [shuffleOption, hold, Option.map_some, ne_eq, Option.some.injEq]
      exact fun heq => hne heq.symm
    have hshuffles := h.shuffles_of_toggle hlane rfl rfl (hroom val hval (by simp [htracks]) hchanged)
    intro id _
    rw [hshuffles]
    simp [ShuffleState.target, shuffles, shuffleOption, withOptions, updatePlayer, hoptions]

theorem stopPlayback_shuffles (hp : Sound p) :
    p.stopPlayback.shuffles = { p.shuffles with option := some false } := by
  have htoggles : p.stopPlayback.toggles = p.toggles := by
    rw [toggles, toggles, stopPlayback_jobs hp.lane, kept_jobs, kept_append, kept_append, kept_kept]
  rw [shuffles, htoggles]
  rfl

theorem stopPlayback_kept (hp : Sound p)
    (hfinds : ∀ id, ¬ Unsettled p.stopPlayback → p.state.tracks = some id →
      p.shuffles.target id = some false) : Kept p.stopPlayback := by
  by_cases hu : Unsettled p.stopPlayback
  · exact .inl hu
  · right
    intro id hid
    have htarget := hfinds id hu hid
    rw [stopPlayback_shuffles hp]
    exact htarget.symm

theorem Takes.settles {req : TransferCommand} (h : Takes req p p') (hp : Sound p) (hk : Kept p)
    (hroom : p'.loadGen ≠ p.loadGen → HasRoom p.loader) : Kept p' := by
  cases h with
  | refused h => exact h ▸ hk
  | idle h =>
    right
    intro id hid
    have htracks : p'.state.tracks = none := h.tracks
    exact absurd (htracks.symm.trans hid) (by simp)
  | continued _ _ _ h => exact .inl (.inl (h.loading hp.lane rfl rfl hroom))
  | claimed _ _ _ h =>
    exact .inl (.inl (h.loading ⟨hp.lane.isOpen, hp.lane.shape⟩ rfl rfl hroom))

theorem command_kept {cmd : Command} (h : Command.Effect p p' cmd) (hp : Sound p) (hk : Kept p)
    (hroom : p.loadsContext (.command m cmd) = true → p'.loadGen ≠ p.loadGen → HasRoom p.loader)
    (htoggled : ∀ repeatingContext repeatingTrack val modes,
      cmd = .setOptions repeatingContext repeatingTrack (some val) modes →
        p.state.tracks.isSome = true → p.shuffleOption ≠ some val →
          p.loader.queue.length < loaderQueueSize)
    (hfinds : ∀ id, ¬ Unsettled p' → p'.state.tracks = some id → Finds cfg id p (.command m cmd)) :
    Kept p' := by
  cases cmd with
  | transfer => exact Takes.settles h (hp.retouch rfl) hk (hroom rfl)
  | play req =>
    obtain ⟨old, -, h⟩ := h
    have hlane : LaneOk (p.tookOver.withOptions (some (req.playerOptionsOverride.getD old))) :=
      ⟨hp.lane.isOpen, hp.lane.shape⟩
    exact .inl (.inl (h.loading hlane (hroom rfl)))
  | setOptions repeatingContext repeatingTrack _ modes =>
    apply SetsOptions.settles h hp hk
    intro val hval
    exact htoggled repeatingContext repeatingTrack val modes (hval ▸ rfl)
  | stop =>
    have h : p' = p.stopPlayback := h
    subst h
    exact stopPlayback_kept hp fun id hu hid => hfinds id hu hid
  | _ => exact kept_of_shuffles (Acts.shuffles h) hk hfinds

/-! ## The lane's goroutine -/

theorem take_kept {clock : Nat → Int} (h : p.take clock = some p') (hp : Sound p) (hk : Kept p) :
    Kept p' := by
  obtain ⟨-, hperm, hkept, -, loader, job, rfl⟩ := take_spec hp.lane h
  apply kept_of_same ?_ (fun q hq => hperm.mem_iff.mpr hq) hk
  rw [shuffles, toggles, hkept]
  rfl

theorem deliver_kept (h : p.deliver = some p') (hk : Kept p) : Kept p' := by
  have hjobs := deliver_jobs h
  obtain ⟨res, -, rfl⟩ := deliver_spec h
  apply kept_of_same ?_ (fun q hq => hjobs ▸ hq) hk
  rw [shuffles, toggles, hjobs]
  rfl

theorem mem_toggles {val : Bool} (hp : Sound p) (hjob : job ∈ p.jobs)
    (hrun : job.run = .list id (.shuffle val)) : (id, val) ∈ p.toggles := by
  have htoggle : job.run.toggle = some (id, val) := by
    rw [hrun]
    rfl
  refine List.mem_filterMap.mpr ⟨job, mem_kept.mpr ⟨hjob, ?_⟩, htoggle⟩
  rw [hp.mutates job hjob (id, val) htoggle]
  rfl

theorem finish_target {a : Answers} (h : p.finish g a = some p') (hp : Sound p)
    (hid : p.state.tracks = some id) : p'.shuffles.target id = p.shuffles.target id := by
  have hjobs := finish_jobs h
  obtain ⟨-, job, commit, hjob, hrun, -⟩ := finish_finished h
  have hran := (runWork_ran hp.valid hrun).2
  have htoggles : p'.shuffles.toggles = p.shuffles.toggles := by
    simp only [shuffles, toggles, hjobs]
  have hlt := (hp.below _ p.length_mem_ahead).tracks id hid
  rw [← length_flags] at hlt
  have hflags : p'.shuffles.flags[id]? = (commit.flagOf id).or p.shuffles.flags[id]? := hran.flagOf hlt
  unfold ShuffleState.target
  rw [htoggles, hflags]
  rcases hflag : commit.flagOf id with _ | val
  · rw [Option.none_or]
  · have hrun := Work.Gives.of_flagOf hran.gives hflag
    have hmem : (id, val) ∈ p.shuffles.toggles := mem_toggles hp (worker_mem_jobs hjob) hrun
    rcases hlast : p.shuffles.toggles.getLast? with _ | t
    · rw [List.getLast?_eq_none_iff] at hlast
      simp [hlast] at hmem
    · rfl

theorem finish_kept {a : Answers} (h : p.finish g a = some p') (hp : Sound p) (hk : Kept p) :
    Kept p' := by
  have hjobs := finish_jobs h
  have hstate := (finish_finished h).1
  rcases hk with (⟨job, hjob, hctx⟩ | hk) | hk
  · exact .inl (.inl ⟨job, hjobs ▸ hjob, hctx⟩)
  · obtain ⟨t, ht, hne⟩ := hk
    refine .inl (.inr ⟨t, ?_, ?_⟩)
    · simp only [shuffles, toggles, hjobs]
      exact ht
    · simp only [shuffles, hstate]
      exact hne
  · right
    intro id hid
    simp only [shuffles, hstate] at hid
    rw [finish_target h hp hid, ← hk id hid]
    simp only [shuffles, shuffleOption, hstate]

section Received

variable {res : LoaderResult} {rest : List LoaderResult} (flight : Bool)

theorem toggles_received (hres : p.results = res :: rest) : p.toggles =
    (kept [res.job]).filterMap (·.run.toggle) ++ (p.received rest flight).toggles := by
  rw [toggles, toggles, jobs_received flight hres, ← List.singleton_append, kept_append,
    List.filterMap_append]

theorem shuffles_received (hres : p.results = res :: rest) (hrun : res.job.run.toggle = none) :
    (p.received rest flight).shuffles = p.shuffles := by
  have hnone : (kept [res.job]).filterMap (·.run.toggle) = [] := by
    apply List.filterMap_eq_nil_iff.mpr
    intro q hq
    rw [List.mem_singleton.mp (mem_kept.mp hq).1, hrun]
  have htoggles := toggles_received flight hres
  rw [hnone, List.nil_append] at htoggles
  rw [shuffles, shuffles, htoggles]
  rfl

variable {t : ListId × Bool} {val : Bool} {id : ListId}

theorem toggles_received_of_toggle (hres : p.results = res :: rest) (hp : Sound p)
    (hrun : res.job.run.toggle = some t) : p.toggles = t :: (p.received rest flight).toggles := by
  have hmem : res.job ∈ p.jobs := by simp [jobs, hres]
  have hself : (kept [res.job]).filterMap (·.run.toggle) = [t] := by
    simp [kept, hp.mutates res.job hmem t hrun, LoaderClass.fetches, hrun]
  rw [toggles_received flight hres, hself, List.singleton_append]

theorem shuffles_received_of_toggle (hres : p.results = res :: rest) (hp : Sound p)
    (hrun : res.job.run.toggle = some t) :
    (p.received rest flight).shuffles = p.shuffles.settled := by
  have htoggles := toggles_received_of_toggle flight hres hp hrun
  simp only [shuffles, ShuffleState.settled, htoggles, List.tail_cons]
  rfl

theorem reverted_kept (hres : p.results = res :: rest) (hp : Sound p)
    (hrun : res.job.run.toggle = some t) (h : Reverted (.shuffle val) (p.received rest flight) p')
    (hfinds : ∀ id, ¬ Unsettled p' → p'.state.tracks = some id →
      p.shuffles.settled.target id = some (!val)) : Kept p' := by
  by_cases hu : Unsettled p'
  · exact .inl hu
  · right
    obtain ⟨options, -, h⟩ := h
    intro id hid
    have htarget := hfinds id hu hid
    rw [← shuffles_received_of_toggle flight hres hp hrun] at htarget
    rw [h.shuffles]
    exact htarget.symm

theorem flag_of_last (hres : p.results = res :: rest) (hp : Sound p)
    (hflag : res.commit.flagOf id = some val) (hlast : (p.received rest flight).toggles = []) :
    (flags p.lists)[id]? = some val := by
  have hsound := received_sound flight hres hp
  have hnone : (p.received rest flight).flagsOf id = [] := by
    apply List.filterMap_eq_nil_iff.mpr
    intro r hr
    rw [Option.eq_none_iff_forall_ne_some]
    intro v hv
    have hrun := Work.Gives.of_flagOf (hsound.gives r hr) hv
    have hmem := mem_toggles hsound (finished_mem_jobs hr) hrun
    simp [hlast] at hmem
  apply hp.shuffled id val
  rw [flagsOf_received flight hres, hflag, hnone]
  rfl

theorem unsettled_of_shuffled (hres : p.results = res :: rest) (hp : Sound p)
    (hrun : res.job.run = .list id (.shuffle val)) (htracks : p.state.tracks = some id)
    (h : Quiet (p.received rest flight) p') (hu : Unsettled p) : Unsettled p' := by
  rcases hu with ⟨job, hjob, hctx⟩ | ⟨t, ht, hne⟩
  · rw [jobs_received flight hres] at hjob
    rcases List.mem_cons.mp hjob with rfl | hjob
    · simp [hrun, Work.isContext] at hctx
    · exact .inl ⟨job, h.jobs ▸ hjob, hctx⟩
  · have ht : t ∈ p.toggles := ht
    rw [toggles_received_of_toggle flight hres hp (by rw [hrun]; rfl)] at ht
    rcases List.mem_cons.mp ht with rfl | ht
    · exact absurd htracks hne
    · right
      rw [h.shuffles]
      exact ⟨t, ht, hne⟩

theorem shuffled_kept (hres : p.results = res :: rest) (hp : Sound p) (hk : Kept p)
    (hrun : res.job.run = .list id (.shuffle val)) (hflag : res.commit.flagOf id = some val)
    (htracks : p.state.tracks = some id) (h : Quiet (p.received rest flight) p') : Kept p' := by
  rcases hk with hk | hk
  · exact .inl (unsettled_of_shuffled flight hres hp hrun htracks h hk)
  · right
    intro id' hid
    rw [h.shuffles] at hid ⊢
    obtain rfl : id = id' := Option.some.inj (htracks.symm.trans hid)
    have hagrees := hk id htracks
    have htoggles : p.shuffles.toggles = (id, val) :: (p.received rest flight).toggles :=
      toggles_received_of_toggle flight hres hp (by rw [hrun]; rfl)
    unfold ShuffleState.target at hagrees ⊢
    rw [htoggles] at hagrees
    rcases hlast : (p.received rest flight).shuffles.toggles with _ | ⟨t, ts⟩
    · have hlast : (p.received rest flight).toggles = [] := hlast
      rw [hlast] at hagrees
      exact hagrees.trans (flag_of_last flight hres hp hflag hlast).symm
    · have hlast : (p.received rest flight).toggles = t :: ts := hlast
      rwa [hlast] at hagrees

theorem landed_kept {option : Option Bool} (hres : p.results = res :: rest) (hp : Sound p)
    (hlanding : res.commit.landing = some (id, val))
    (hshuffles : p'.shuffles = { p.shuffles with option := option, tracks := some id })
    (hoption : ¬ Unsettled p' → option = some val) : Kept p' := by
  by_cases hu : Unsettled p'
  · exact .inl hu
  · right
    have hmem : res ∈ p.finished := by simp [finished, hres]
    have hnone : p.toggles = [] := by
      rw [List.eq_nil_iff_forall_not_mem]
      intro t ht
      have hcurrent : some id = some t.1 := by
        by_contra hne
        apply hu
        right
        rw [hshuffles]
        exact ⟨t, ht, hne⟩
      obtain ⟨job, hjob, htoggle⟩ := List.mem_filterMap.mp ht
      have hbelow := hp.below id (landing_mem_ahead hmem hlanding)
      have hlt := hbelow.jobs job (mem_kept.mp hjob).1 t.1 _ (list_of_toggle htoggle)
      exact absurd (Option.some.inj hcurrent) hlt.ne'
    intro id' hid
    rw [hshuffles] at hid ⊢
    obtain rfl : id = id' := Option.some.inj hid
    have hflag := hp.built res hmem id val hlanding
    rw [hoption hu]
    simp [ShuffleState.target, shuffles, hnone, hflag]

theorem FindsResult.agrees {commit : Commit} (h : FindsResult id p commit)
    (hshuffle : commit.isShuffle = false) (hlanding : ∀ val, commit.landing ≠ some (id, val))
    (hu : Unsettled p) : p.shuffles.Agrees := by
  unfold FindsResult at h
  split at h
  · simp [Commit.isShuffle] at hshuffle
  · simp [Commit.isShuffle] at hshuffle
  · rename_i job list snap
    rw [if_neg (fun heq => hlanding job.shuffle (by rw [← heq]; rfl))] at h
    exact h hu
  · rename_i job list snap played
    rw [if_neg (fun heq => hlanding job.state.shuffle (by rw [← heq]; rfl))] at h
    exact h hu
  · exact h hu

theorem commit_kept (hres : p.results = res :: rest) (hp : Sound p) (hk : Kept p)
    (h : Commit.Effect (p.received rest flight) p' res.commit)
    (hroom : p.loadsContext (.receive m) = true → p'.loadGen ≠ p.loadGen → HasRoom p.loader)
    (hfinds : ∀ id, ¬ Unsettled p' → p'.state.tracks = some id → FindsResult id p res.commit) :
    Kept p' := by
  have hgives := hp.gives res (by simp [finished, hres])
  have hlane : LaneOk (p.received rest flight) := ⟨hp.lane.isOpen, hp.lane.shape⟩
  obtain ⟨job, commit⟩ := res
  -- A result that is not about a shuffle leaves the shuffles as it is.
  have hshuffles (hcommit : commit.isShuffle = false) :
      (p.received rest flight).shuffles = p.shuffles := by
    apply shuffles_received flight hres
    rw [hgives.toggle_of_isShuffle] at hcommit
    simpa using hcommit
  cases commit with
  | nothing | noStation k | loaded job stream streamGen position | prefetched stream =>
    exact kept_of_shuffles ((Quiet.shuffles h).trans (hshuffles rfl)) hk hfinds
  | call => exact kept_of_shuffles ((Acts.shuffles h).trans (hshuffles rfl)) hk hfinds
  | resolved _ list =>
    have hlanded : p'.shuffles =
        { p.shuffles with option := p.shuffleOption, tracks := some list } := by
      rw [← hshuffles rfl]
      exact Acts.shuffles h
    refine landed_kept hres hp rfl hlanded fun hu => ?_
    have hfound := hfinds list hu (congrArg ShuffleState.tracks hlanded)
    simpa [FindsResult] using hfound
  | abandonTransfer =>
    right
    intro id hid
    have htracks : p'.state.tracks = none := Quiet.tracks h
    exact absurd (htracks.symm.trans hid) (by simp)
  | transferred job list =>
    have hlanded : p'.shuffles =
        { p.shuffles with
          option := (if job.continuation then job.state.options else p.state.player.options).map
            ContextPlayerOptions.shufflingContext
          tracks := some list } := by
      rw [← hshuffles rfl]
      exact Acts.shuffles h
    refine landed_kept hres hp rfl hlanded fun hu => ?_
    have hfound := hfinds list hu (congrArg ShuffleState.tracks hlanded)
    simp only [FindsResult, if_true] at hfound
    exact hfound
  | walkFailed work =>
    cases work with
    | shuffle =>
      obtain ⟨t, ht⟩ := Option.isSome_iff_exists.mp hgives.toggle_of_isShuffle.symm
      exact reverted_kept flight hres hp ht h hfinds
    | _ => exact kept_of_shuffles ((Quiet.shuffles h).trans (hshuffles rfl)) hk hfinds
  | walked list work =>
    simp only [Commit.Effect] at h
    split at h
    · rename_i htracks
      cases work with
      | shuffle =>
        exact shuffled_kept flight hres hp hk hgives.list_of_walked
          (by simp [Commit.flagOf, Commit.shuffled, Option.filter]) htracks h
      | _ => exact kept_of_shuffles ((Acts.shuffles h).trans (hshuffles rfl)) hk hfinds
    · rename_i htracks
      cases work with
      | shuffle val =>
        refine reverted_kept flight hres hp (t := (list, val)) (by rw [hgives.list_of_walked]; rfl)
          h ?_
        intro id hu hid
        exact (hfinds id hu hid).resolve_left htracks
      | _ => exact kept_of_shuffles ((Quiet.shuffles h).trans (hshuffles rfl)) hk hfinds
  | station =>
    exact .inl (.inl (LoadsContext.loading h hlane (hroom (by simp [loadsContext, hres]))))
  | apiPlay =>
    have htook : LaneOk (p.received rest flight).tookOver := ⟨hp.lane.isOpen, hp.lane.shape⟩
    exact .inl (.inl (LoadsContext.loading h htook (hroom (by simp [loadsContext, hres]))))

theorem receive_kept (hres : p.results = res :: rest) (h : Receives res rest p p') (hp : Sound p)
    (hk : Kept p)
    (hroom : p.loadsContext (.receive m) = true → p'.loadGen ≠ p.loadGen → HasRoom p.loader)
    (hfinds : ∀ id, ¬ Unsettled p' → p'.state.tracks = some id → FindsResult id p res.commit) :
    Kept p' := by
  have hmem : res ∈ p.finished := by simp [finished, hres]
  cases h with
  | stale hcls h =>
    have hnone : res.job.run.toggle = none := by
      rw [Option.eq_none_iff_forall_ne_some]
      intro t ht
      exact hcls (hp.mutates res.job (finished_mem_jobs hmem) t ht)
    refine kept_of_shuffles (h.shuffles.trans (shuffles_received _ hres hnone)) hk fun id hu hid => ?_
    have htracks : p.state.tracks = some id := h.tracks ▸ hid
    apply (hfinds id hu hid).agrees
    · rw [(hp.gives res hmem).toggle_of_isShuffle, hnone]
      rfl
    · intro val hlanding
      exact absurd ((hp.below id (landing_mem_ahead hmem hlanding)).tracks id htracks)
        (lt_irrefl id)
  | applied flight q h hq =>
    have hunsettled : Unsettled p' → Unsettled q :=
      unsettled_of_same hq.shuffles.symm fun job hjob => hq.jobs ▸ hjob
    apply kept_of_same hq.shuffles fun job hjob => hq.jobs ▸ hjob
    apply commit_kept (m := m) flight hres hp hk h
    · rw [← hq.loadGen]
      exact hroom
    · intro id hu hid
      exact hfinds id (fun hu' => hu (hunsettled hu')) (hq.tracks.trans hid)

end Received

theorem step_kept {op : Op} (h : p.step cfg g op = some p') (hp : Sound p) (hk : Kept p)
    (hsettles : Settles cfg g p op) : Kept p' := by
  have hroom := hsettles.accepted p' h
  have hfinds := fun id => hsettles.finds p' id h
  have he := step_effect h
  cases op with
  | command m =>
    apply command_kept he hp hk hroom ?_ hfinds
    intro repeatingContext repeatingTrack val modes hcmd
    exact hsettles.toggled m repeatingContext repeatingTrack val modes (hcmd ▸ rfl)
  | cluster cluster =>
    by_cases htaken : p.TakenOver cfg cluster
    · cases he with
      | kept h => exact h ▸ hk
      | stopped he =>
        subst he
        exact stopPlayback_kept hp fun id hu hid => hfinds id hu hid htaken
      | noted _ h =>
        subst h
        exact hk
    · obtain ⟨timestamp, rfl⟩ := cluster_noted (handle_of_step rfl h) htaken
      exact hk
  | receive =>
    obtain ⟨res, rest, hres, he⟩ := he
    refine receive_kept hres he hp hk hroom fun id hu hid => ?_
    exact hfinds id hu hid res (by simp [hres])
  | take => exact take_kept he hp hk
  | finish => exact finish_kept he hp hk
  | deliver => exact deliver_kept he hk
  | event m ev | drain m =>
    obtain ⟨pending, draining, he⟩ := he
    exact kept_of_shuffles (Acts.shuffles he) hk hfinds
  | prefetchTimer | sleepTimer m =>
    exact kept_of_shuffles (Acts.shuffles he) hk hfinds

theorem Kept.agrees (hp : Sound p) (hk : Kept p) : ShuffleAgrees p := by
  intro hnone id hid
  have htoggles : p.toggles = [] := by
    apply List.filterMap_eq_nil_iff.mpr
    exact fun job hjob => (hnone job (mem_kept.mp hjob).1).1
  have hagrees : p.shuffles.Agrees := by
    rcases hk with (⟨job, hjob, hctx⟩ | ⟨t, ht, -⟩) | hk
    · simp [(hnone job hjob).2] at hctx
    · have ht : t ∈ p.toggles := ht
      simp [htoggles] at ht
    · exact hk
  have hlt := (hp.below _ p.length_mem_ahead).tracks id hid
  have hoption := hagrees id hid
  simp only [ShuffleState.target, shuffles, htoggles, List.getLast?_nil, Option.map_none,
    Option.none_or, flags, List.getElem?_map, List.getElem?_eq_getElem hlt,
    Option.map_some] at hoption
  obtain ⟨options, hoptions, hsame⟩ := Option.map_eq_some_iff.mp hoption
  exact ⟨options, p.lists[id], hoptions, List.getElem?_eq_getElem hlt, hsame⟩

theorem shuffleAgrees_of_settles (cfg : Config) (g : Rand) (ops : List Op)
    (h : Meets (step cfg g) (Settles cfg g) {} ops) : Always (step cfg g) ShuffleAgrees {} ops := by
  have hkept := always_of_meets (I := fun p => Sound p ∧ Kept p)
    (fun p op p' hp hc hstep => ⟨step_sound hp.1 hstep, step_kept hstep hp.1 hp.2 hc⟩)
    ⟨sound_new, .inr fun id hid => by simp [shuffles] at hid⟩ h
  exact hkept.imp fun p hp => hp.2.agrees hp.1

def setShuffle (val : Bool) : Op := .command { now := 0 } (.setOptions none none (some val) false)

/-- A second context is loading while shuffle is set and taken back. Both shuffles are of the
list that this context replaces. -/
def overlappingRun : List Op :=
  playRun [knownTrack] ++
    [.command { now := 0 } (.play { context := {} }), setShuffle true, setShuffle false] ++
    roundTrip 0 (served [knownTrack]) ++ roundTrip 0 (served [knownTrack]) ++
    roundTrip 0 (served [knownTrack])

def ending (p : AppPlayer) : Bool × Option ListId × Option Bool × List Bool :=
  (p.jobs.any fun job => job.run.toggle.isSome || job.run.isContext, p.state.tracks,
    p.shuffleOption, flags p.lists)

theorem ShuffleAgrees.ending {val : Bool} {lists : List Bool} (h : ShuffleAgrees p)
    (hend : p.ending = (false, some id, some val, lists)) : lists[id]? = some val := by
  simp only [AppPlayer.ending, Prod.mk.injEq, List.any_eq_false, Bool.or_eq_true, not_or,
    Bool.not_eq_true, Option.isSome_eq_false_iff, Option.isNone_iff_eq_none] at hend
  obtain ⟨hnone, htracks, hoption, rfl⟩ := hend
  obtain ⟨options, list, hoptions, hlist, hsame⟩ := h hnone id htracks
  simp only [shuffleOption, hoptions, Option.map_some, Option.some.injEq] at hoption
  simp [flags, hlist, ← hsame, hoption]

/-- The first of them goes back to off, the second one to on. The list is not shuffled. -/
theorem shuffleAgrees_fails_on_overlap :
    ¬ Always (step here drawZero) ShuffleAgrees {} overlappingRun := by
  intro h
  have hrun : (exec (step here drawZero) {} overlappingRun).map ending =
      some (false, some 1, some true, [false, false]) := by
    decide +kernel
  obtain ⟨p, hp, hend⟩ := Option.map_eq_some_iff.mp hrun
  have hflag := (h.last hp).ending hend
  simp at hflag

def settledRun : List Op :=
  playRun [knownTrack] ++ setShuffle true :: roundTrip 0 (served [knownTrack]) ++
    roundTrip 0 (served [knownTrack])

instance (p : AppPlayer) : Decidable (Unsettled p) :=
  inferInstanceAs (Decidable ((∃ job ∈ p.jobs, _) ∨ ∃ t ∈ p.shuffles.toggles, _))

instance (b : ShuffleState) : Decidable b.Agrees :=
  inferInstanceAs (Decidable (∀ id ∈ b.tracks, b.option = b.target id))

instance (id : ListId) (p : AppPlayer) (c : Commit) : Decidable (FindsResult id p c) := by
  delta FindsResult
  rcases c with _ | _ | _ | _ | _ | _ | ⟨_ | _⟩ | ⟨_, _ | _⟩ <;> infer_instance

instance (id : ListId) (p : AppPlayer) (op : Op) : Decidable (Finds cfg id p op) := by
  delta Finds
  rcases op with ⟨_, _ | _⟩ | _ <;> infer_instance

instance (p : AppPlayer) (op : Op) : Decidable (Settles cfg g p op) :=
  have : Decidable (∀ m repeatingContext repeatingTrack val modes,
      op = .command m (.setOptions repeatingContext repeatingTrack (some val) modes) →
        p.state.tracks.isSome = true → p.shuffleOption ≠ some val →
          p.loader.queue.length < loaderQueueSize) :=
    match op with
    | .command _ (.setOptions _ _ (some val) _) => decidable_of_iff (p.state.tracks.isSome = true →
        p.shuffleOption ≠ some val → p.loader.queue.length < loaderQueueSize) (by grind)
    | .command _ (.setOptions _ _ none _) | .command _ (.transfer _) | .command _ (.play _)
    | .command _ (.apiPlay _) | .command _ .resume | .command _ .pause | .command _ (.seek _)
    | .command _ (.skipPrev _) | .command _ (.skipNext _) | .command _ (.setQueue _)
    | .command _ (.addToQueue _) | .command _ (.setSleepTimer _) | .command _ .stop | .event ..
    | .cluster _ | .prefetchTimer | .sleepTimer _ | .receive _ | .drain _ | .take _ | .finish _
    | .deliver => .isTrue (by simp)
  have : Decidable (∀ p' id, p.step cfg g op = some p' → ¬ Unsettled p' →
      p'.state.tracks = some id → Finds cfg id p op) :=
    decidable_of_iff (∀ p' ∈ p.step cfg g op, ¬ Unsettled p' → ∀ id ∈ p'.state.tracks,
      Finds cfg id p op) ⟨fun h p' id hp hu => h p' hp hu id, fun h p' hp hu id => h p' id hp hu⟩
  decidable_of_iff ((∀ p' ∈ p.step cfg g op, _) ∧ _) (settles_iff cfg g p op).symm

theorem shuffleAgrees_of_settles_settledRun :
    Meets (step here drawZero) (Settles here drawZero) {} settledRun ∧
      (exec (step here drawZero) {} settledRun).map ending =
        some (false, some 0, some true, [true]) ∧
      Always (step here drawZero) ShuffleAgrees {} settledRun := by
  have hm : Meets (step here drawZero) (Settles here drawZero) {} settledRun := by
    decide +kernel
  exact ⟨hm, by decide +kernel, shuffleAgrees_of_settles here drawZero _ hm⟩

end AppPlayer

end Librespot.Daemon
