import Librespot.Daemon.Callbacks

/-!
# How loads land

An advance whose track is refused goes on to the next one and counts it. The counter
is moved by the callback of an advance and by nothing else.
-/

open Librespot.Tracks
open Base.Run
open Librespot.Daemon.AppPlayer (maxConsecutiveUnplayableSkips)

open List Option

namespace Librespot.Daemon

open AppPlayer

inductive Outcome
  | succeeded
  | refused
  | failed
deriving DecidableEq

structure Landing where
  outcome : Outcome
  k : Then

def LoaderResult.landing (res : LoaderResult) : Option Landing :=
  match res.job.run.isLoad, res.commit with
  | _, .loaded job _ _ _ => some ⟨.succeeded, job.k⟩
  | true, .call k err => some ⟨if err.unplayable then .refused else .failed, k⟩
  | _, _ => none

def Commit.special : Commit → Bool
  | .station .. | .apiPlay .. => true
  | _ => false

def LoaderResult.Tame (res : LoaderResult) : Prop := res.commit.Tame res.job.run.isLoad

variable {res : LoaderResult}

theorem LoaderResult.Tame.commit_of_landing (h : res.Tame)
    (hnone : res.landing = none) : res.commit.Tame false := by
  unfold LoaderResult.Tame at h
  unfold landing at hnone
  split at hnone
  · simp at hnone
  · simp at hnone
  · rename_i hloaded hcall
    cases hc : res.commit with
    | call k err =>
      have hload : res.job.run.isLoad = false := by
        by_contra hne
        exact hcall k err (by simpa using hne) hc
      rwa [hc, hload] at h
    | loaded => exact absurd hc (hloaded _ _ _ _)
    | _ =>
      rw [hc] at h
      exact h

namespace AppPlayer

variable {cfg : Config} {g : Rand} {m : Moment} {p q p' : AppPlayer} {k : Then} {extra : Bool}

def special (p : AppPlayer) : Op → Bool
  | .command _ cmd => cmd.special
  | .receive _ => p.results.head?.any fun res => res.commit.special
  | _ => false

def landing (p : AppPlayer) : Op → Option Landing
  | .receive _ => p.results.head?.bind fun res =>
    if res.job.cls = .load ∧ res.job.gen = p.loadGen then res.landing else none
  | _ => none

variable {err : LoadErr} {op : Op} {landing : Option Landing} {rest : List LoaderResult}

theorem land_rests (hk : k.Flat) (h : p.land cfg m k err = some p') : Rests p p' := by
  induction k with
  | log | apiPlay | playerEnd | skipNext => exact settle_rests (by trivial) h
  | autoplayLoaded k => exact settle_rests (k := k) hk h
  | orSkipped _ ih => exact ih hk h
  | orSkip | advanced => exact absurd hk id

theorem call_upholds (hk : k.Tame) (hno : k.isAdvance = false) (h : p.call cfg m k err = some p') :
    Upholds extra p p' := by
  unfold call at h
  split at h
  · cases k with
    | orSkip _ k => exact advanceNext_upholds (k := .orSkipped k) hk h
    | advanced => simp [Then.isAdvance] at hno
    | _ => exact (land_rests hk h).upholds
  · obtain ⟨hloader, -, hskips⟩ := settle_tame hk h
    rw [hno] at hskips
    exact .of_eq hskips hloader

theorem applyPaused_rests (paused : Bool) (p : AppPlayer) : Rests p (p.applyPaused m paused) := by
  unfold applyPaused
  split <;> split <;> exact ⟨rfl, rfl, rfl, rfl⟩

theorem commitLoad_rests (stream : Stream) (paused : Bool) (position : Int) (p : AppPlayer) :
    Rests p (p.commitLoad m stream paused position) := by
  have hasked : Rests p (if p.state.player.isPaused = paused then p
      else p.applyPaused m p.state.player.isPaused) := by
    split
    · exact ⟨rfl, rfl, rfl, rfl⟩
    · exact applyPaused_rests _ p
  exact hasked.trans ⟨rfl, rfl, rfl, rfl⟩

theorem loaded_skips {job : LoadJob} {stream : Stream} {streamGen : Nat} {position : Int}
    (hk : job.k.Tame) (h : p.commit cfg m (.loaded job stream streamGen position) = some p') :
    p'.loader = p.loader ∧ p'.consecutiveUnplayableSkips =
      if job.k.isAdvance then 0 else p.consecutiveUnplayableSkips := by
  obtain ⟨hloader, -, hskips⟩ := settle_tame hk h
  have hcommit := commitLoad_rests (m := m) stream job.paused position
    (p.forgetReplacedStreamEvents streamGen)
  exact ⟨hloader.trans hcommit.loader, hcommit.skips ▸ hskips⟩

theorem listFailed_upholds {work : ListWork} (hwork : work.Tame)
    (h : p.listFailed m work err = some p') : Upholds extra p p' := by
  cases work with
  | shuffle =>
    simp only [listFailed, run_eq_some] at h
    obtain ⟨options, -, h⟩ := h
    exact some.inj h ▸ .of_eq rfl rfl
  | advance _ _ _ k => exact (settle_rests (k := k) hwork h).upholds
  | _ => exact some.inj h ▸ .of_eq rfl rfl

theorem listWalked_upholds {work : ListWork} {res : Walked} {snap : TrackList.Snapshot}
    (hwork : work.Tame) (h : p.listWalked cfg m work res snap = some p') : Upholds extra p p' := by
  cases work with
  | peekNext => exact submitPrefetch_upholds h
  | shuffle | addToQueue | setQueue => exact some.inj h ▸ .of_eq rfl rfl
  | skipPrev | skipTo => exact (loadCurrentTrack_upholds (k := .log) (by trivial) h).after rfl rfl
  | advance _ _ _ k =>
    exact (advanceTo_upholds (k := k) hwork h).after rfl rfl

theorem commit_upholds {c : Commit} (hc : c.Tame false)
    (h : p.commit cfg m c = some p') : Upholds c.special p p' := by
  cases c with
  | nothing | prefetched stream => exact some.inj h ▸ .of_eq rfl rfl
  | call =>
    simp only [commit, call] at h
    split at h
    · exact (land_rests (by exact hc) h).upholds
    · exact (settle_rests (by exact hc) h).upholds
  | noStation k => exact (settle_rests (k := k) hc h).upholds
  | resolved job =>
    exact (loadCurrentTrack_upholds (k := .orSkip job.drop job.k) hc h).after rfl rfl
  | abandonTransfer => exact abandonTransfer_upholds h
  | transferred => exact transferred_upholds h
  | walkFailed => exact listFailed_upholds hc h
  | walked =>
    simp only [commit] at h
    split at h
    · exact listWalked_upholds hc h
    · exact listFailed_upholds hc h
  | loaded => simp [Commit.Tame] at hc
  | station _ _ k => exact loadContext_upholds (k := .autoplayLoaded k) hc h
  | apiPlay => exact (loadContext_upholds (by trivial) h).after rfl rfl

inductive Counts (extra : Bool) (p p' : AppPlayer) : Option Landing → Prop
  | carried {landing : Option Landing}
      (hno : ∀ l, landing = some l → l.k.isAdvance = false ∧ l.outcome ≠ .succeeded)
      (h : Upholds extra p p') : Counts extra p p' landing
  | kept {l : Landing} (hl : l.k.isAdvance = false) (hs : l.outcome = .succeeded)
      (h : p'.consecutiveUnplayableSkips = p.consecutiveUnplayableSkips)
      (hloader : p'.loader = p.loader) : Counts extra p p' (some l)
  | cleared {l : Landing} (hl : l.k.isAdvance = true) (hne : l.outcome ≠ .refused)
      (h : p'.consecutiveUnplayableSkips = 0) (hloader : p'.loader = p.loader) :
      Counts extra p p' (some l)
  | wentOn {l : Landing} (hl : l.k.isAdvance = true) (hrefused : l.outcome = .refused)
      (hlt : p.consecutiveUnplayableSkips < maxConsecutiveUnplayableSkips)
      (h : Upholds extra { p with consecutiveUnplayableSkips := p.consecutiveUnplayableSkips + 1 } p')
      (hgen : p.state.tracks.isSome = true → p'.loadGen ≠ p.loadGen) : Counts extra p p' (some l)
  | gaveUp {l : Landing} (hl : l.k.isAdvance = true) (hrefused : l.outcome = .refused)
      (hle : maxConsecutiveUnplayableSkips ≤ p.consecutiveUnplayableSkips)
      (h : p'.consecutiveUnplayableSkips = 0) (hloader : p'.loader = p.loader)
      (hgen : p'.loadGen = p.loadGen) : Counts extra p p' (some l)

theorem Counts.lane (h : Counts extra p p' landing) : Hands extra p.loader p'.loader := by
  cases h with
  | carried _ h => exact h.lane
  | kept _ _ _ hloader | cleared _ _ _ hloader => exact hloader ▸ .kept
  | wentOn _ _ _ h => exact h.lane
  | gaveUp _ _ _ _ hloader => exact hloader ▸ .kept

theorem Counts.rests (h : Counts extra p q landing) (h' : Rests q p') :
    Counts extra p p' landing := by
  cases h with
  | carried hno h => exact .carried hno (h.rests h')
  | kept hl hs h hloader => exact .kept hl hs (h'.skips.trans h) (h'.loader.trans hloader)
  | cleared hl hne h hloader =>
    exact .cleared hl hne (h'.skips.trans h) (h'.loader.trans hloader)
  | wentOn hl hrefused hlt h hgen =>
    refine .wentOn hl hrefused hlt (h.rests h') ?_
    rw [h'.loadGen]
    exact hgen
  | gaveUp hl hrefused hle h hloader hgen =>
    exact .gaveUp hl hrefused hle (h'.skips.trans h) (h'.loader.trans hloader)
      (h'.loadGen.trans hgen)

theorem Counts.of_received {flight : Bool}
    (h : Counts extra (p.received rest flight) p' landing) : Counts extra p p' landing := by
  cases h with
  | carried hno h => exact .carried hno (h.after rfl rfl)
  | kept hl hs h hloader => exact .kept hl hs h hloader
  | cleared hl hne h hloader => exact .cleared hl hne h hloader
  | wentOn hl hrefused hlt h hgen => exact .wentOn hl hrefused hlt (h.after rfl rfl) hgen
  | gaveUp hl hrefused hle h hloader hgen => exact .gaveUp hl hrefused hle h hloader hgen

theorem advanceNext_forced {drop : Bool} {delay : Int}
    (h : p.advanceNext cfg m true drop delay k = some p') (htracks : p.state.tracks.isSome = true) :
    p'.loadGen = p.loadGen + 1 := by
  obtain ⟨list, hlist⟩ := isSome_iff_exists.mp htracks
  simp only [advanceNext, hlist, not_true_eq_false, false_and, if_false, run_eq_some] at h
  obtain ⟨options, -, h⟩ := h
  exact some.inj h ▸ rfl

theorem call_counts (hk : k.Tame) (h : p.call cfg m k err = some p') :
    Counts extra p p' (some ⟨if err.unplayable then .refused else .failed, k⟩) := by
  cases hadv : k.isAdvance with
  | false =>
    refine .carried ?_ (call_upholds hk hadv h)
    rintro _ ⟨⟩
    refine ⟨hadv, ?_⟩
    dsimp only
    split <;> simp
  | true =>
    unfold call at h
    split at h
    · rename_i herr
      rw [if_pos herr]
      cases k with
      | advanced _ _ k =>
        simp only [land] at h
        split at h
        · obtain ⟨hskips, hgen, hloader, -⟩ := land_rests (k := k) hk h
          exact .gaveUp hadv rfl (by omega) hskips hloader hgen
        · refine .wentOn hadv rfl (by omega) (advanceNext_upholds (k := k) hk h) ?_
          intro htracks
          have hgen := advanceNext_forced h htracks
          exact hgen ▸ Nat.succ_ne_self _
      | _ => simp [Then.isAdvance] at hadv
    · rename_i herr
      rw [if_neg herr]
      obtain ⟨hloader, -, hskips⟩ := settle_tame hk h
      rw [if_pos hadv] at hskips
      exact .cleared hadv (by simp) hskips hloader

theorem landing_counts {l : Landing} (hres : res.Tame) (hl : res.landing = some l)
    (h : p.commit cfg m res.commit = some p') : Counts extra p p' (some l) := by
  unfold LoaderResult.landing at hl
  unfold LoaderResult.Tame at hres
  split at hl
  · rename_i job stream gen position hc
    cases hl
    rw [hc] at h hres
    obtain ⟨hloader, hskips⟩ := loaded_skips hres.2 h
    cases hadv : job.k.isAdvance with
    | false =>
      rw [hadv] at hskips
      exact .kept hadv rfl hskips hloader
    | true =>
      rw [hadv] at hskips
      exact .cleared hadv (by simp) hskips hloader
  · rename_i k err hload hc
    cases hl
    rw [hc] at h
    rw [hc, hload] at hres
    exact call_counts hres h
  · simp at hl

structure Tame (p : AppPlayer) : Prop where
  jobs : ∀ q ∈ p.jobs, q.Lawful
  delivering : ∀ res, p.worker = .delivering res → res.Tame
  results : ∀ res ∈ p.results, res.Tame

theorem Upholds.counts (h : Upholds extra p p') : Counts extra p p' none := .carried (by simp) h

theorem receive_counts (hres : res.Tame) (hfetch : res.job.run.isLoad = true → res.job.cls = .load)
    (hresults : p.results = res :: rest) (h : p.handle cfg (.receive m) = some p') :
    Counts (p.special (.receive m)) p p' (p.landing (.receive m)) := by
  simp only [handle, hresults, applyLoaderResult] at h
  simp only [landing, special, hresults, head?_cons, bind_some, any_some]
  split at h
  · rename_i hcurrent
    rw [if_pos hcurrent]
    simp only [map_eq_some_iff] at h
    obtain ⟨q, hq, rfl⟩ := h
    refine Counts.rests (q := q) ?_ ⟨rfl, rfl, rfl, rfl⟩
    cases hl : res.landing with
    | none =>
      have hupholds := commit_upholds (hres.commit_of_landing hl) hq
      exact (hupholds.after (p := p) rfl rfl).counts
    | some => exact (landing_counts hres hl hq).of_received
  · rename_i hcurrent
    rw [if_neg hcurrent]
    apply Upholds.counts
    split at h
    · cases h
      unfold discard
      split
      · split <;> exact .of_eq rfl rfl
      · exact .of_eq rfl rfl
    · rename_i hstale
      -- What is neither current nor stale is no load.
      have hload : res.job.run.isLoad = false := by
        by_contra hne
        have hcls := hfetch (by simpa using hne)
        simp only [stale, generation, hcls] at hstale
        simp_all
      unfold LoaderResult.Tame at hres
      rw [hload] at hres
      exact (commit_upholds hres h).after rfl rfl

theorem handleCluster_upholds {cluster : Option Cluster}
    (h : p.handleCluster cfg cluster = some p') : Upholds extra p p' := by
  cases handleCluster_hears h with
  | kept h => exact h ▸ .of_eq rfl rfl
  | stopped h => exact h ▸ stopPlayback_upholds p
  | noted _ h => exact h ▸ .of_eq rfl rfl

theorem step_counts (hlane : op.isLane = false) (hp : ∀ res ∈ p.results, res.Tame)
    (htallied : p.ledger.Tallied) (h : p.step cfg g op = some p') :
    Counts (p.special op) p p' (p.landing op) := by
  cases op with
  | take | finish | deliver => simp [Op.isLane] at hlane
  | command => exact (handleCommand_upholds (handle_of_step rfl h)).counts
  | event =>
    have h := handle_of_step rfl h
    simp only [handle, receivePlayerEvent] at h
    refine Upholds.counts ?_
    split at h
    · split at h <;> exact some.inj h ▸ .of_eq rfl rfl
    · exact handlePlayerEvent_upholds h
  | cluster => exact (handleCluster_upholds (handle_of_step rfl h)).counts
  | prefetchTimer => exact (prefetchNext_upholds (handle_of_step rfl h)).counts
  | sleepTimer m =>
    exact some.inj (handle_of_step rfl h) ▸ (pause_rests m p).upholds.counts
  | drain =>
    simp only [step] at h
    split at h
    · simp at h
    · exact ((handlePlayerEvent_upholds h).after (p := p) rfl rfl).counts
  | receive =>
    have h := handle_of_step rfl h
    cases hresults : p.results with
    | nil => simp [handle, hresults] at h
    | cons res =>
      have hmem : res.job ∈ p.jobs := by simp [jobs, hresults]
      exact receive_counts (hp res (by simp [hresults])) (htallied.fetch res.job hmem) hresults h

theorem step_frame (hlane : op.isLane = false) (h : p.step cfg g op = some p') :
    p'.worker = p.worker ∧ p'.results.Sublist p.results := by
  cases step_form h with
  | lane hop => simp [hlane] at hop
  | stopped hstop =>
    subst hstop
    exact ⟨rfl, List.Sublist.refl _⟩
  | handled q htouched hends =>
    have hframe : p'.frame = q.frame := by
      rcases hends with hq | ⟨job, hs⟩
      · exact hq.frame
      · exact hs.frame
    refine ⟨(congrArg Frame.worker hframe).trans htouched.worker, ?_⟩
    have hresults : p'.results = q.results := congrArg Frame.results hframe
    rw [hresults, htouched.results]
    exact op.rest_sublist p.results

theorem tame_new : Tame {} := by
  refine ⟨?_, ?_, ?_⟩ <;> simp [jobs, Worker.jobs]

theorem Tame.handled (hp : Tame p) (hworker : p'.worker = p.worker)
    (hresults : p'.results.Sublist p.results)
    (hlane : Hands extra p.loader p'.loader) : Tame p' := by
  refine ⟨?_, ?_, fun res hres => hp.results res (hresults.subset hres)⟩
  · intro q hq
    simp only [AppPlayer.jobs, hworker, mem_append] at hq
    rcases hq with hq | hq | hq
    · exact hp.jobs q (mem_append_left _ ((hresults.map LoaderResult.job).subset hq))
    · exact hp.jobs q (mem_append_right _ (mem_append_left _ hq))
    · rcases hlane.mem_queue hq with hq | hq
      · exact hp.jobs q (mem_append_right _ (mem_append_right _ hq))
      · exact hq.1
  · rw [hworker]
    exact hp.delivering

theorem step_tame (hp : Tame p) (hok : LaneOk p) (htallied : p.ledger.Tallied)
    (h : p.step cfg g op = some p') : Tame p' := by
  cases hlane : op.isLane with
  | false =>
    obtain ⟨hworker, hresults⟩ := step_frame hlane h
    exact hp.handled hworker hresults (step_counts hlane hp.results htallied h).lane
  | true =>
    have hjobs := lane_jobs hlane hok h
    have htame : ∀ q ∈ p'.jobs, q.Lawful := fun q hq => hp.jobs q (hjobs.subset hq)
    have he := step_effect h
    cases op with
    | take =>
      obtain ⟨-, -, -, -, loader, job, rfl⟩ := take_spec hok he
      exact ⟨htame, by simp, hp.results⟩
    | finish =>
      obtain ⟨job, commit, lists, hrunning, hrun, rfl⟩ := finish_spec he
      have hjob := hp.jobs job (by simp [jobs, hrunning, Worker.jobs])
      refine ⟨htame, ?_, hp.results⟩
      rintro res ⟨⟩
      exact runWork_tame hjob.tame hrun
    | deliver =>
      obtain ⟨res, hres, rfl⟩ := deliver_spec he
      refine ⟨htame, by simp, ?_⟩
      intro r hr
      rcases mem_append.mp hr with hr | hr
      · exact hp.results r hr
      · exact mem_singleton.mp hr ▸ hp.delivering res hres
    | _ => simp [Op.isLane] at hlane

end AppPlayer

end Librespot.Daemon
