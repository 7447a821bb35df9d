import Librespot.Daemon.ListWalks
import Librespot.Daemon.Outstanding

/-!
# The lists that jobs and results are about

The lists have numbers in the order in which they were built, and that is also the
order in which they land. So a list that has not landed is one that no job is about,
and it still has the flag that it was built with.
-/

open Base.Run
open Librespot.Tracks List Option

namespace Librespot.Daemon

def Worker.finished : Worker → List LoaderResult
  | .delivering res => [res]
  | _ => []

variable {res : LoaderResult}

theorem Worker.finished_mem_jobs {w : Worker} (h : res ∈ w.finished) : res.job ∈ w.jobs := by
  cases w with
  | idle | running => simp [finished] at h
  | delivering => simp [jobs, mem_singleton.mp h]

/-- The shuffle flag that the job sets, and the list it sets it in. -/
def Work.toggle : Work → Option (ListId × Bool)
  | .list id (.shuffle val) => some (id, val)
  | _ => none

/-- The shuffle flag that the finished job has left the list `id` with. -/
def Commit.flagOf (id : ListId) (commit : Commit) : Option Bool :=
  (commit.shuffled.filter fun t => t.1 = id).map Prod.snd

variable {id : ListId} {val : Bool} {work : Work}

theorem Commit.eq_walked_of_flagOf {commit : Commit} (h : commit.flagOf id = some val) :
    ∃ res snap, commit = .walked id (.shuffle val) res snap := by
  simp only [Commit.flagOf, map_eq_some_iff, filter_eq_some_iff, decide_eq_true_eq,
    Prod.exists] at h
  obtain ⟨id', val', ⟨h, rfl⟩, rfl⟩ := h
  unfold Commit.shuffled at h
  split at h
  · cases h
    exact ⟨_, _, rfl⟩
  · simp at h

theorem Work.Gives.list_of_walked {walk : ListWork} {res : Walked} {snap : TrackList.Snapshot}
    (h : work.Gives (.walked id walk res snap)) : work = .list id walk := by
  cases h
  rfl

theorem Work.Gives.of_flagOf {commit : Commit} (h : work.Gives commit)
    (hflag : commit.flagOf id = some val) : work = .list id (.shuffle val) := by
  obtain ⟨res, snap, rfl⟩ := Commit.eq_walked_of_flagOf hflag
  exact h.list_of_walked

namespace Ran

variable {before after : List Bool} {work : Work} {commit : Commit}

theorem gives (h : Ran before work commit after) : work.Gives commit := by
  cases h with
  | built _ _ _ hgives => exact hgives
  | shuffled | walked => exact .walked ..
  | failed => exact .walkFailed ..
  | other _ _ hgives => exact hgives

theorem landing (h : Ran before work commit after) :
    (commit.landing = none ∧ after.length = before.length) ∨
    ∃ val, commit.landing = some (before.length, val) ∧ after.length = before.length + 1 ∧
      after[before.length]? = some val := by
  cases h with
  | built _ _ val _ hlanding => exact .inr ⟨val, hlanding, by simp, by simp⟩
  | shuffled => exact .inl ⟨rfl, length_set⟩
  | walked | failed => exact .inl ⟨rfl, rfl⟩
  | other _ _ _ hlanding => exact .inl ⟨hlanding, rfl⟩

theorem flagOf (h : Ran before work commit after) (hid : id < before.length) :
    after[id]? = (commit.flagOf id).or before[id]? := by
  cases h with
  | built _ _ _ _ hlanding =>
    have hnone : commit.flagOf id = none := by
      cases commit <;> first | rfl | simp [Commit.landing] at hlanding
    rw [hnone, none_or, getElem?_append_left hid]
  | shuffled id' =>
    by_cases heq : id' = id
    · subst heq
      simp [Commit.flagOf, Commit.shuffled, Option.filter, hid]
    · simp [Commit.flagOf, Commit.shuffled, heq, Option.filter, getElem?_set_ne heq]
  | walked _ work _ _ hwork =>
    cases work with
    | shuffle val => exact absurd rfl (hwork val)
    | _ => rfl
  | failed => rfl
  | other _ _ _ _ hshuffled => simp [Commit.flagOf, hshuffled]

end Ran

namespace AppPlayer

variable {cfg : Config} {g : Rand} {p p' : AppPlayer}

/-- The results that have not been received, oldest first. -/
def finished (p : AppPlayer) : List LoaderResult := p.results ++ p.worker.finished

/-- The lists that results wait to make the current one, then the next list to be built. -/
def ahead (p : AppPlayer) : List ListId :=
  (p.finished.filterMap fun res => res.commit.landing.map Prod.fst) ++ [p.lists.length]

def flagsOf (id : ListId) (p : AppPlayer) : List Bool :=
  p.finished.filterMap fun res => res.commit.flagOf id

/-- Neither the current list nor a job's list is `n` or later. -/
structure Below (n : ListId) (p : AppPlayer) : Prop where
  tracks : ∀ id, p.state.tracks = some id → id < n
  jobs : ∀ job ∈ p.jobs, ∀ id work, job.run = .list id work → id < n

/-- Every list has the shuffle flag that the last of the results about it names. -/
structure Sound (p : AppPlayer) : Prop where
  lane : LaneOk p
  valid : ∀ list ∈ p.lists, list.tracks.Valid
  mutates : ∀ job ∈ p.jobs, ∀ t, job.run.toggle = some t → job.cls = .mutate
  gives : ∀ res ∈ p.finished, res.job.run.Gives res.commit
  order : p.ahead.Pairwise (· < ·)
  below : ∀ n ∈ p.ahead, p.Below n
  built : ∀ res ∈ p.finished, ∀ id val, res.commit.landing = some (id, val) →
    (flags p.lists)[id]? = some val
  shuffled : ∀ id val, (p.flagsOf id).getLast? = some val → (flags p.lists)[id]? = some val

/-- A new job names no list but the current one, and a toggle is a mutation. -/
structure Fits (tracks : Option ListId) (job : LoaderJob Work) : Prop where
  mutates : ∀ t, job.run.toggle = some t → job.cls = .mutate
  list : ∀ id work, job.run = .list id work → tracks = some id

theorem Sound.of_jobs (hp : Sound p) (hlane : LaneOk p') (hfinished : p'.finished = p.finished)
    (hlists : p'.lists = p.lists) (htracks : p'.state.tracks = p.state.tracks)
    (hjobs : ∀ job ∈ p'.jobs, job ∈ p.jobs ∨ Fits p.state.tracks job) : Sound p' := by
  have hahead : p'.ahead = p.ahead := by rw [ahead, ahead, hfinished, hlists]
  have hflags (id : ListId) : p'.flagsOf id = p.flagsOf id := by rw [flagsOf, flagsOf, hfinished]
  refine ⟨hlane, hlists ▸ hp.valid, ?_, hfinished ▸ hp.gives, hahead ▸ hp.order, ?_, ?_, ?_⟩
  · intro job hjob
    rcases hjobs job hjob with hjob | hfits
    · exact hp.mutates job hjob
    · exact hfits.mutates
  · intro n hn
    have hbelow := hp.below n (hahead ▸ hn)
    refine ⟨htracks ▸ hbelow.tracks, ?_⟩
    intro job hjob id work hrun
    rcases hjobs job hjob with hjob | hfits
    · exact hbelow.jobs job hjob id work hrun
    · exact hbelow.tracks id (hfits.list id work hrun)
  · rw [hfinished, hlists]
    exact hp.built
  · intro id val
    rw [hflags, hlists]
    exact hp.shuffled id val

/-- What `Sound` reads. -/
def ground (p : AppPlayer) :
    LoaderLane Work × Worker × List LoaderResult × List TrackList × Option ListId :=
  (p.loader, p.worker, p.results, p.lists, p.state.tracks)

theorem Sound.retouch (hp : Sound p) (h : p'.ground = p.ground) : Sound p' := by
  simp only [ground, Prod.mk.injEq] at h
  obtain ⟨hloader, hworker, hresults, hlists, htracks⟩ := h
  apply hp.of_jobs ⟨hloader ▸ hp.lane.isOpen, hloader ▸ hp.lane.shape⟩ ?_ hlists htracks
  · intro job hjob
    rw [jobs, hloader, hworker, hresults] at hjob
    exact .inl hjob
  · rw [finished, finished, hworker, hresults]

theorem Quiet.ground (h : Quiet p p') : p'.ground = p.ground := by
  have hframe := h.frame
  simp only [AppPlayer.frame, Frame.mk.injEq] at hframe
  simp [AppPlayer.ground, h.loader, hframe]

theorem Quiet.sound (h : Quiet p p') (hp : Sound p) : Sound p' := hp.retouch h.ground

variable {job : LoaderJob Work} {a : Answers} {tracks : Option ListId}

theorem Submits.sound (h : Submits job p p') (hp : Sound p) (hfits : Fits p.state.tracks job) :
    Sound p' := by
  have hframe := h.frame
  simp only [AppPlayer.frame, Frame.mk.injEq] at hframe
  obtain ⟨-, -, -, -, htracks, hworker, hresults, hlists⟩ := hframe
  apply hp.of_jobs (h.laneOk hp.lane) ?_ hlists htracks
  · intro q hq
    rcases h.mem_jobs hq with hq | rfl
    · exact .inl hq
    · exact .inr hfits
  · rw [finished, finished, hworker, hresults]

theorem Sound.withTracks (hp : Sound p)
    (h : ∀ id, tracks = some id → ∀ n ∈ p.ahead, id < n) : Sound (p.withTracks tracks) where
  lane := ⟨hp.lane.isOpen, hp.lane.shape⟩
  valid := hp.valid
  mutates := hp.mutates
  gives := hp.gives
  order := hp.order
  below n hn := ⟨fun id hid => h id hid n hn, (hp.below n hn).jobs⟩
  built := hp.built
  shuffled := hp.shuffled

theorem fits_of_not_list (h : ∀ id work, job.run ≠ .list id work) : Fits tracks job := by
  refine ⟨?_, fun id work hrun => absurd hrun (h id work)⟩
  intro t ht
  unfold Work.toggle at ht
  split at ht
  · exact absurd ‹_› (h _ _)
  · simp at ht

theorem toggle_of_plain (h : work.Plain tracks) : work.toggle = none := by
  unfold Work.toggle
  split
  · exact h.elim
  · rfl

theorem fits_of_plain (h : job.run.Plain tracks) : Fits tracks job := by
  refine ⟨fun t ht => by simp [toggle_of_plain h] at ht, ?_⟩
  intro id work hrun
  rw [hrun] at h
  cases work with
  | shuffle => exact h.elim
  | _ => exact h

theorem Acts.sound (h : Acts p p') (hp : Sound p) : Sound p' := by
  rcases h with h | ⟨job, hplain, h⟩
  · exact h.sound hp
  · exact h.sound hp (fits_of_plain hplain)

theorem Reverted.sound {work : ListWork} (h : Reverted work p p') (hp : Sound p) : Sound p' := by
  cases work with
  | shuffle =>
    obtain ⟨options, -, h⟩ := h
    exact h.sound (hp.retouch rfl)
  | _ => exact Quiet.sound h hp

theorem LoadsContext.sound {context : Context} (h : LoadsContext context p p') (hp : Sound p) :
    Sound p' := by
  obtain ⟨options, restricted, job, -, -, -, h⟩ := h
  exact h.sound (hp.retouch rfl) (fits_of_not_list (by simp [resolveJob]))

theorem tookOver_sound (hp : Sound p) : Sound p.tookOver := by
  apply hp.retouch
  simp only [ground, tookOver, State.takeOver_tracks]

theorem commit_sound {c : Commit} (h : Commit.Effect p p' c) (hp : Sound p)
    (hland : ∀ id val, c.landing = some (id, val) → ∀ n ∈ p.ahead, id < n) : Sound p' := by
  have htracks (list : ListId) (val : Bool) (hc : c.landing = some (list, val)) :
      Sound (p.withTracks (some list)) :=
    hp.withTracks fun id hid => some.inj hid ▸ hland list val hc
  cases c with
  | nothing | noStation k | loaded job stream streamGen position | prefetched stream =>
    exact Quiet.sound h hp
  | call => exact Acts.sound h hp
  | resolved _ list => exact Acts.sound h (htracks list _ rfl)
  | abandonTransfer => exact Quiet.sound h (hp.withTracks (by simp))
  | transferred _ list => exact Acts.sound h ((htracks list _ rfl).retouch rfl)
  | walkFailed => exact Reverted.sound h hp
  | walked =>
    simp only [Commit.Effect] at h
    split at h
    · exact (Walks.acts h).sound hp
    · exact Reverted.sound h hp
  | station => exact LoadsContext.sound h hp
  | apiPlay => exact LoadsContext.sound h (tookOver_sound hp)

theorem Takes.sound {req : TransferCommand} (h : Takes req p p') (hp : Sound p) : Sound p' := by
  cases h with
  | refused h => exact h ▸ hp
  | idle h => exact h.sound (Sound.withTracks (hp.retouch rfl) (by simp))
  | continued _ _ _ h => exact h.sound hp (fits_of_not_list (by simp))
  | claimed _ _ _ h => exact h.sound (hp.retouch rfl) (fits_of_not_list (by simp))

theorem SetsOptions.sound {shuffle : Option Bool} (h : SetsOptions shuffle p p') (hp : Sound p) :
    Sound p' := by
  cases h with
  | kept _ _ h => exact h.sound (hp.retouch rfl)
  | toggled list _ _ _ htracks _ _ _ _ h =>
    refine h.sound (hp.retouch rfl) ⟨fun _ _ => rfl, ?_⟩
    intro id work hrun
    obtain ⟨rfl, -⟩ := Work.list.inj hrun
    exact htracks

theorem stopPlayback_sound (hp : Sound p) : Sound p.stopPlayback := by
  refine hp.of_jobs (stopPlayback_laneOk hp.lane) rfl rfl rfl ?_
  intro job hjob
  rw [stopPlayback_jobs hp.lane] at hjob
  left
  simp only [jobs, mem_append] at hjob ⊢
  rcases hjob with hjob | hjob | hjob
  · exact .inl hjob
  · exact .inr (.inl hjob)
  · exact .inr (.inr (LoaderLane.mem_kept.mp hjob).1)

theorem command_sound {cmd : Command} (h : Command.Effect p p' cmd) (hp : Sound p) : Sound p' := by
  cases cmd with
  | transfer => exact Takes.sound h (hp.retouch rfl)
  | play =>
    obtain ⟨old, -, h⟩ := h
    exact h.sound ((tookOver_sound hp).retouch rfl)
  | setOptions => exact SetsOptions.sound h hp
  | stop => exact h ▸ stopPlayback_sound hp
  | _ => exact Acts.sound h hp

/-! ## The lane's goroutine -/

theorem take_sound {clock : Nat → Int} (h : p.take clock = some p') (hp : Sound p) : Sound p' := by
  obtain ⟨hlane, hperm, -, hidle, loader, job, rfl⟩ := take_spec hp.lane h
  refine hp.of_jobs hlane ?_ rfl rfl fun q hq => .inl (hperm.mem_iff.mp hq)
  rw [finished, finished, hidle]
  rfl

theorem deliver_sound (h : p.deliver = some p') (hp : Sound p) : Sound p' := by
  have hjobs := deliver_jobs h
  obtain ⟨res, hw, rfl⟩ := deliver_spec h
  refine hp.of_jobs ⟨hp.lane.isOpen, hp.lane.shape⟩ ?_ rfl rfl fun q hq => .inl (hjobs ▸ hq)
  simp [finished, hw, Worker.finished]

theorem finish_finished (h : p.finish g a = some p') :
    p'.state = p.state ∧ ∃ job commit, job ∈ p.worker.jobs ∧
      runWork g a p.lists job.run = some (commit, p'.lists) ∧
      p'.finished = p.finished ++ [⟨job, commit⟩] := by
  obtain ⟨job, commit, lists, hw, hrun, rfl⟩ := finish_spec h
  refine ⟨rfl, job, commit, by simp [hw, Worker.jobs], hrun, ?_⟩
  simp [finished, hw, Worker.finished]

theorem finish_laneOk (h : p.finish g a = some p') (hlane : LaneOk p) : LaneOk p' := by
  obtain ⟨job, commit, lists, -, -, rfl⟩ := finish_spec h
  exact ⟨hlane.isOpen, hlane.shape⟩

theorem Below.mono {n k : ListId} (h : p.Below n) (hle : n ≤ k) : p.Below k :=
  ⟨fun id hid => (h.tracks id hid).trans_le hle,
    fun job hjob id work hrun => (h.jobs job hjob id work hrun).trans_le hle⟩

theorem length_mem_ahead (p : AppPlayer) : p.lists.length ∈ p.ahead := by simp [ahead]

theorem Sound.le_length (hp : Sound p) {n : ListId} (hn : n ∈ p.ahead) : n ≤ p.lists.length := by
  rcases mem_append.mp hn with hn | hn
  · have horder := (pairwise_append.mp hp.order).2.2 n hn p.lists.length (by simp)
    exact horder.le
  · exact (mem_singleton.mp hn).le

theorem length_flags (lists : List TrackList) : (flags lists).length = lists.length := by
  simp [flags]

theorem finish_ahead (h : p.finish g a = some p') (hp : Sound p) :
    p'.ahead = p.ahead ∨ p'.ahead = p.ahead ++ [p.lists.length + 1] := by
  obtain ⟨-, job, commit, -, hrun, hfinished⟩ := finish_finished h
  have hran := (runWork_ran hp.valid hrun).2
  rcases hran.landing with ⟨hnone, hlen⟩ | ⟨val, hsome, hlen, -⟩
  · rw [length_flags, length_flags] at hlen
    left
    simp [ahead, hfinished, hnone, hlen]
  · rw [length_flags, length_flags] at hlen
    rw [length_flags] at hsome
    right
    simp [ahead, hfinished, hsome, hlen]

theorem finish_order (h : p.finish g a = some p') (hp : Sound p) : p'.ahead.Pairwise (· < ·) := by
  rcases finish_ahead h hp with hahead | hahead
  · exact hahead ▸ hp.order
  · rw [hahead]
    refine pairwise_append.mpr ⟨hp.order, pairwise_singleton _ _, ?_⟩
    intro n hn k hk
    rw [mem_singleton.mp hk]
    exact Nat.lt_succ_of_le (hp.le_length hn)

theorem finish_below (h : p.finish g a = some p') (hp : Sound p) : ∀ n ∈ p'.ahead, p'.Below n := by
  have hjobs := finish_jobs h
  have hstate := (finish_finished h).1
  have hbelow (n : ListId) (hn : p.Below n) : p'.Below n :=
    ⟨hstate ▸ hn.tracks, hjobs ▸ hn.jobs⟩
  intro n hn
  rcases finish_ahead h hp with hahead | hahead
  · exact hbelow n (hp.below n (hahead ▸ hn))
  · rw [hahead] at hn
    rcases mem_append.mp hn with hn | hn
    · exact hbelow n (hp.below n hn)
    · rw [mem_singleton.mp hn]
      exact hbelow _ ((hp.below _ p.length_mem_ahead).mono (Nat.le_succ _))

theorem landing_mem_ahead (h : res ∈ p.finished)
    (hlanding : res.commit.landing = some (id, val)) : id ∈ p.ahead := by
  refine mem_append_left _ (mem_filterMap.mpr ⟨res, h, ?_⟩)
  rw [hlanding]
  rfl

theorem finished_mem_jobs (h : res ∈ p.finished) : res.job ∈ p.jobs := by
  rcases mem_append.mp h with h | h
  · exact mem_append_left _ (List.mem_map_of_mem h)
  · exact mem_append_right _ (mem_append_left _ (Worker.finished_mem_jobs h))

theorem worker_mem_jobs (h : job ∈ p.worker.jobs) : job ∈ p.jobs := by
  simp [jobs, h]

theorem finish_built (h : p.finish g a = some p') (hp : Sound p) :
    ∀ res ∈ p'.finished, ∀ id val, res.commit.landing = some (id, val) →
      (flags p'.lists)[id]? = some val := by
  obtain ⟨-, job, commit, hjob, hrun, hfinished⟩ := finish_finished h
  have hran := (runWork_ran hp.valid hrun).2
  intro res hres id val hlanding
  rw [hfinished] at hres
  rcases mem_append.mp hres with hres | hres
  · have hold := hp.built res hres id val hlanding
    have hid := (List.getElem?_eq_some_iff.mp hold).1
    have hnone : commit.flagOf id = none := by
      rw [eq_none_iff_forall_ne_some]
      intro v hv
      have hrun := Work.Gives.of_flagOf hran.gives hv
      have hbelow := hp.below id (landing_mem_ahead hres hlanding)
      exact absurd (hbelow.jobs job (worker_mem_jobs hjob) id _ hrun) (lt_irrefl id)
    rw [hran.flagOf hid, hnone, none_or, hold]
  · obtain rfl := mem_singleton.mp hres
    rcases hran.landing with ⟨hnone, -⟩ | ⟨v, hsome, -, hflag⟩
    · simp [hnone] at hlanding
    · rw [hsome] at hlanding
      cases hlanding
      exact hflag

theorem finish_shuffled (h : p.finish g a = some p') (hp : Sound p) (id : ListId) (val : Bool)
    (hlast : (p'.flagsOf id).getLast? = some val) : (flags p'.lists)[id]? = some val := by
  obtain ⟨-, job, commit, hjob, hrun, hfinished⟩ := finish_finished h
  have hran := (runWork_ran hp.valid hrun).2
  rw [flagsOf, hfinished, filterMap_append] at hlast
  rcases hflag : commit.flagOf id with _ | v
  · simp only [filterMap_cons, hflag, filterMap_nil, append_nil] at hlast
    have hold := hp.shuffled id val hlast
    have hid := (List.getElem?_eq_some_iff.mp hold).1
    rw [hran.flagOf hid, hflag, none_or, hold]
  · have hrun := Work.Gives.of_flagOf hran.gives hflag
    have hid := (hp.below _ p.length_mem_ahead).jobs job (worker_mem_jobs hjob) id _ hrun
    rw [← length_flags] at hid
    simp only [filterMap_cons, hflag, filterMap_nil, getLast?_append,
      getLast?_singleton, some_or, some.injEq] at hlast
    rw [hran.flagOf hid, hflag, some_or, hlast]

theorem finish_sound (h : p.finish g a = some p') (hp : Sound p) : Sound p' := by
  have hjobs := finish_jobs h
  obtain ⟨-, job, commit, -, hrun, hfinished⟩ := finish_finished h
  obtain ⟨hvalid, hran⟩ := runWork_ran hp.valid hrun
  refine ⟨finish_laneOk h hp.lane, hvalid, hjobs ▸ hp.mutates, ?_, finish_order h hp,
    finish_below h hp, finish_built h hp, finish_shuffled h hp⟩
  intro res hres
  rw [hfinished] at hres
  rcases mem_append.mp hres with hres | hres
  · exact hp.gives res hres
  · exact mem_singleton.mp hres ▸ hran.gives

section Received

variable {res : LoaderResult} {rest : List LoaderResult} (flight : Bool)

theorem finished_received (hres : p.results = res :: rest) :
    p.finished = res :: (p.received rest flight).finished := by
  simp [finished, hres, received]

theorem jobs_received (hres : p.results = res :: rest) :
    p.jobs = res.job :: (p.received rest flight).jobs := by
  simp [jobs, hres, received]

theorem ahead_received (hres : p.results = res :: rest) :
    p.ahead = (res.commit.landing.map Prod.fst).toList ++ (p.received rest flight).ahead := by
  have hlists : (p.received rest flight).lists = p.lists := rfl
  rw [ahead, ahead, finished_received flight hres, hlists]
  rcases hlanding : res.commit.landing with _ | ⟨id, val⟩ <;> simp [hlanding]

theorem flagsOf_received (hres : p.results = res :: rest) (id : ListId) :
    p.flagsOf id = (res.commit.flagOf id).toList ++ (p.received rest flight).flagsOf id := by
  rw [flagsOf, flagsOf, finished_received flight hres]
  rcases hflag : res.commit.flagOf id with _ | val <;> simp [hflag]

theorem received_sound (hres : p.results = res :: rest) (hp : Sound p) :
    Sound (p.received rest flight) := by
  have hmem {r : LoaderResult} (hr : r ∈ (p.received rest flight).finished) : r ∈ p.finished := by
    rw [finished_received flight hres]
    exact mem_cons_of_mem res hr
  have hjobs {q : LoaderJob Work} (hq : q ∈ (p.received rest flight).jobs) : q ∈ p.jobs := by
    rw [jobs_received flight hres]
    exact mem_cons_of_mem _ hq
  have hahead := ahead_received flight hres
  refine ⟨⟨hp.lane.isOpen, hp.lane.shape⟩, hp.valid, fun q hq => hp.mutates q (hjobs hq),
    fun r hr => hp.gives r (hmem hr), ?_, ?_, fun r hr => hp.built r (hmem hr), ?_⟩
  · have horder := hp.order
    rw [hahead] at horder
    exact (pairwise_append.mp horder).2.1
  · intro n hn
    have hbelow := hp.below n (hahead ▸ mem_append_right _ hn)
    exact ⟨hbelow.tracks, fun q hq => hbelow.jobs q (hjobs hq)⟩
  · intro id val hlast
    apply hp.shuffled id val
    rw [flagsOf_received flight hres, getLast?_append, hlast, some_or]

theorem landing_lt (hres : p.results = res :: rest) (hp : Sound p)
    (hlanding : res.commit.landing = some (id, val)) :
    ∀ n ∈ (p.received rest flight).ahead, id < n := by
  have horder := hp.order
  rw [ahead_received flight hres, hlanding] at horder
  exact fun n hn => (pairwise_append.mp horder).2.2 id (by simp) n hn

theorem receive_sound (hres : p.results = res :: rest) (h : Receives res rest p p') (hp : Sound p) :
    Sound p' := by
  cases h with
  | stale _ h => exact h.sound (received_sound p.loadInFlight hres hp)
  | applied flight _ h hq =>
    refine hq.sound (commit_sound h (received_sound flight hres hp) ?_)
    exact fun id val hlanding => landing_lt flight hres hp hlanding

end Received

theorem step_sound {op : Op} (hp : Sound p) (h : p.step cfg g op = some p') : Sound p' := by
  have he := step_effect h
  cases op with
  | command => exact command_sound he hp
  | cluster =>
    cases he with
    | kept h => exact h ▸ hp
    | stopped h => exact h ▸ stopPlayback_sound hp
    | noted _ h => exact h ▸ hp.retouch rfl
  | receive =>
    obtain ⟨res, rest, hres, he⟩ := he
    exact receive_sound hres he hp
  | take => exact take_sound he hp
  | finish => exact finish_sound he hp
  | deliver => exact deliver_sound he hp
  | event m ev | drain m =>
    obtain ⟨pending, draining, he⟩ := he
    exact he.sound (hp.retouch rfl)
  | prefetchTimer | sleepTimer m => exact Acts.sound he hp

theorem sound_new : Sound {} where
  lane := ⟨rfl, LoaderLane.Shape.nil⟩
  valid := by simp
  mutates := by simp [jobs, Worker.jobs]
  gives := by simp [finished, Worker.finished]
  order := by simp [ahead, finished, Worker.finished]
  below n _ := ⟨by simp, by simp [jobs, Worker.jobs]⟩
  built := by simp [finished, Worker.finished]
  shuffled := by simp [flagsOf, finished, Worker.finished]

theorem reachable_sound {ops : List Op} (h : exec (step cfg g) {} ops = some p) : Sound p :=
  exec_invariant (fun _ _ _ hs hstep => step_sound hs hstep) sound_new h

end AppPlayer

end Librespot.Daemon
