import Librespot.Daemon.Outstanding

/-!
# What a load in flight waits for

What ends a load in flight is the result of a load of the current generation. The loader may
refuse the job that replaces it, and a step of navigation may land where there is nothing to load:
on a uri that does not parse, or at the end of a context.
-/

open Base.Run
open Librespot.Tracks
open Librespot.Daemon.LoaderLane (HasRoom)

namespace Librespot.Daemon.AppPlayer

variable {cfg : Config} {g : Rand} {m : Moment} {p p' : AppPlayer} {job : LoaderJob Work}

def Waits (p : AppPlayer) : Prop :=
  p.loadInFlight = true → ∃ job ∈ p.jobs, job.cls.loads = true ∧ job.gen = p.loadGen

def Lands (cfg : Config) (p : AppPlayer) : Commit → Prop
  | .walked list (.skipPrev _) _ snap => p.state.tracks = some list ∧ Playable snap.current.uri
  | .walked list (.advance ..) res snap =>
    p.state.tracks = some list ∧ GoesOn cfg res.hasNextTrack res.seed (p.publishSnapshot snap)
  | _ => False

/-- The loader has room when the step moves the load counter on and leaves a load in flight, and a
step of navigation that comes back while a load is in flight leads to another one. -/
@[mk_iff loads_iff]
structure Loads (cfg : Config) (g : Rand) (p : AppPlayer) (op : Op) : Prop where
  accepted : ∀ p', p.step cfg g op = some p' → p'.loadGen ≠ p.loadGen → p'.loadInFlight = true →
    HasRoom p.loader
  landed : ∀ m res rest, op = .receive m → p.results = res :: rest → res.job.cls = .nav →
    res.job.gen = p.loadGen → p.loadInFlight = true → Lands cfg p res.commit

structure Good (p : AppPlayer) : Prop where
  lane : LaneOk p
  waits : Waits p

def loading (p : AppPlayer) : LoaderLane Work × Worker × List LoaderResult × Nat × Bool :=
  (p.loader, p.worker, p.results, p.loadGen, p.loadInFlight)

theorem Good.retouch (hgood : Good p) (h : p'.loading = p.loading) : Good p' := by
  simp only [loading, Prod.mk.injEq] at h
  obtain ⟨hloader, hworker, hresults, hgen, hflight⟩ := h
  refine ⟨⟨?_, ?_⟩, ?_⟩
  · rw [hloader]
    exact hgood.lane.isOpen
  · rw [hloader]
    exact hgood.lane.shape
  · unfold Waits jobs
    rw [hloader, hworker, hresults, hgen, hflight]
    exact hgood.waits

theorem Quiet.good (h : Quiet p p') (hgood : Good p) : Good p' := by
  refine ⟨h.laneOk hgood.lane, ?_⟩
  unfold Waits
  rw [h.jobs, h.loadGen, h.loadInFlight]
  exact hgood.waits

theorem Submits.good_of_loads (h : Submits job p p') (hlane : LaneOk p)
    (hloads : job.cls.loads = true) (hroom : p'.loadInFlight = true → HasRoom p.loader) :
    Good p' := by
  refine ⟨h.laneOk hlane, ?_⟩
  intro hflight
  have ha := (LoaderLane.accepts_of_loads hloads hlane.isOpen).mpr (hroom hflight)
  exact ⟨job, h.self_mem ha, hloads, (h.loads hloads).2⟩

theorem Submits.good (h : Submits job p p') (hgood : Good p)
    (hroom : p'.loadGen ≠ p.loadGen → p'.loadInFlight = true → HasRoom p.loader) : Good p' := by
  rcases hloads : job.cls.loads with _ | _
  · refine ⟨h.laneOk hgood.lane, ?_⟩
    intro hflight
    have hold : p.loadInFlight = true := by
      rcases h.loadInFlight with heq | ⟨hl, -⟩
      · exact heq ▸ hflight
      · rw [hloads] at hl
        simp at hl
    obtain ⟨q, hq, hqloads, hgen⟩ := hgood.waits hold
    exact ⟨q, h.mem_of_loads hq hqloads hloads, hqloads, hgen.trans (h.keeps hloads).symm⟩
  · apply h.good_of_loads hgood.lane hloads
    apply hroom
    rw [(h.loads hloads).1]
    omega

theorem Acts.good (h : Acts p p') (hgood : Good p)
    (hroom : p'.loadGen ≠ p.loadGen → p'.loadInFlight = true → HasRoom p.loader) : Good p' := by
  rcases h with h | ⟨job, -, h⟩
  · exact h.good hgood
  · exact h.good hgood hroom

theorem Reverted.good {work : ListWork} (h : Reverted work p p') (hgood : Good p) : Good p' := by
  cases work with
  | shuffle =>
    obtain ⟨options, -, h⟩ := h
    exact h.good (hgood.retouch rfl)
  | _ => exact Quiet.good h hgood

theorem LoadsContext.good {context : Context} (h : LoadsContext context p p') (hgood : Good p)
    (hroom : p'.loadGen ≠ p.loadGen → p'.loadInFlight = true → HasRoom p.loader) : Good p' := by
  obtain ⟨options, restricted, job, -, -, -, h⟩ := h
  exact h.good (hgood.retouch rfl) hroom

theorem commit_good {c : Commit} (h : Commit.Effect p p' c) (hgood : Good p)
    (hroom : p'.loadGen ≠ p.loadGen → p'.loadInFlight = true → HasRoom p.loader) : Good p' := by
  cases c with
  | nothing | noStation k | loaded job stream streamGen position | prefetched stream =>
    exact Quiet.good h hgood
  | call => exact Acts.good h hgood hroom
  | resolved => exact Acts.good h (hgood.retouch rfl) hroom
  | abandonTransfer => exact Quiet.good h (hgood.retouch rfl)
  | transferred =>
    exact Acts.good h (hgood.retouch rfl) hroom
  | walkFailed => exact Reverted.good h hgood
  | walked =>
    simp only [Commit.Effect] at h
    split at h
    · exact (Walks.acts h).good hgood hroom
    · exact Reverted.good h hgood
  | station => exact LoadsContext.good h hgood hroom
  | apiPlay =>
    exact LoadsContext.good h (hgood.retouch rfl) hroom

theorem Takes.good {req : TransferCommand} (h : Takes req p p') (hgood : Good p)
    (hroom : p'.loadGen ≠ p.loadGen → p'.loadInFlight = true → HasRoom p.loader) : Good p' := by
  cases h with
  | refused h => exact h ▸ hgood
  | idle h => exact h.good (hgood.retouch rfl)
  | continued _ _ _ h => exact h.good hgood hroom
  | claimed _ _ _ h => exact h.good (hgood.retouch rfl) hroom

theorem SetsOptions.good {shuffle : Option Bool} (h : SetsOptions shuffle p p') (hgood : Good p) :
    Good p' := by
  cases h with
  | kept _ _ h => exact h.good (hgood.retouch rfl)
  | toggled _ _ _ _ _ _ _ _ _ h =>
    apply h.good (hgood.retouch rfl)
    intro hne
    exact absurd (h.keeps rfl) hne

theorem stopPlayback_good (hlane : LaneOk p) : Good p.stopPlayback := by
  refine ⟨stopPlayback_laneOk hlane, ?_⟩
  intro h
  simp [stopPlayback] at h

theorem command_good {cmd : Command} (he : Command.Effect p p' cmd) (hgood : Good p)
    (hroom : p'.loadGen ≠ p.loadGen → p'.loadInFlight = true → HasRoom p.loader) : Good p' := by
  cases cmd with
  | transfer => exact Takes.good he (hgood.retouch rfl) hroom
  | play =>
    obtain ⟨old, -, he⟩ := he
    exact he.good (hgood.retouch rfl) hroom
  | setOptions => exact SetsOptions.good he hgood
  | stop => exact he ▸ stopPlayback_good hgood.lane
  | _ => exact Acts.good he hgood hroom

theorem commit_good_of_lands {c : Commit} (h : p.commit cfg m c = some p') (hlane : LaneOk p)
    (hlands : Lands cfg p c)
    (hroom : p'.loadGen ≠ p.loadGen → p'.loadInFlight = true → HasRoom p.loader) : Good p' := by
  have hgood {job : LoaderJob Work} {q : AppPlayer} (hq : Quiet p q) (hs : Submits job q p')
      (hloads : job.cls.loads = true) : Good p' := by
    have hs := hq.submits hs
    apply hs.good_of_loads hlane hloads
    apply hroom
    rw [(hs.loads hloads).1]
    omega
  cases c with
  | walked _ work res snap =>
    cases work with
    | skipPrev =>
      obtain ⟨htracks, hplayable⟩ := hlands
      simp only [commit, htracks, if_true, listWalked, skipLanded] at h
      have hq := (publishSnapshot_quiet snap p).trans (moveTo_quiet m.now 0 _)
      rcases loadCurrentTrack_cases h with ⟨hno, -⟩ | ⟨-, -, job, hs, hcls, -⟩
      · exact absurd hplayable hno
      · exact hgood hq hs (by simp [hcls, LoaderClass.loads])
    | advance =>
      obtain ⟨htracks, hgoes⟩ := hlands
      simp only [commit, htracks, if_true, listWalked] at h
      have hq : Quiet p ((p.updatePlayer fun s =>
          { s with isPaused := !res.hasNextTrack }).publishSnapshot snap) :=
        Quiet.trans (updatePlayer_quiet rfl id rfl) (publishSnapshot_quiet snap _)
      rcases advanceTo_cases h with ⟨hno, -⟩ | ⟨-, job, -, hloads, hs⟩
      · exact absurd hgoes hno
      · exact hgood hq hs hloads
    | _ => exact absurd hlands id
  | _ => exact absurd hlands id

theorem generation_of_loads {cls : LoaderClass} (h : cls.loads = true) :
    p.generation cls = p.loadGen := by
  cases cls <;> first | rfl | simp [LoaderClass.loads] at h

theorem stale_of_loads (h : job.cls.loads = true) : p.stale job = true ↔ job.gen ≠ p.loadGen := by
  have hm : job.cls ≠ .mutate := by
    intro hm
    simp [hm, LoaderClass.loads] at h
  simp [stale, generation_of_loads h, hm]

theorem receive_good {res : LoaderResult} {rest : List LoaderResult}
    (hres : p.results = res :: rest)
    (h : { p with results := rest }.applyLoaderResult cfg m res = some p') (hgood : Good p)
    (hlanded : res.job.cls = .nav → res.job.gen = p.loadGen → p.loadInFlight = true →
      Lands cfg p res.commit)
    (hroom : p'.loadGen ≠ p.loadGen → p'.loadInFlight = true → HasRoom p.loader) : Good p' := by
  have hlane : LaneOk { p with results := rest } := ⟨hgood.lane.isOpen, hgood.lane.shape⟩
  -- What the load waits for is not this result, unless it is a load of the current generation.
  have hother (hne : res.job.cls.loads = true → res.job.gen ≠ p.loadGen) :
      Good { p with results := rest } := by
    refine ⟨hlane, ?_⟩
    intro hflight
    obtain ⟨job, hjob, hloads, hgen⟩ := hgood.waits hflight
    rw [jobs, hres] at hjob
    rcases List.mem_cons.mp hjob with rfl | hjob
    · exact absurd hgen (hne hloads)
    · exact ⟨job, hjob, hloads, hgen⟩
  unfold applyLoaderResult at h
  split at h
  · simp only [Option.map_eq_some_iff] at h
    obtain ⟨q, hq, rfl⟩ := h
    have hbase : Good { p with results := rest, loadInFlight := false } :=
      ⟨⟨hgood.lane.isOpen, hgood.lane.shape⟩, fun hf => by simp at hf⟩
    exact (commit_good (commit_effect hq) hbase hroom).retouch rfl
  · rename_i hload
    split at h
    · rename_i hstale
      cases h
      apply (discard_quiet res.commit _).good
      apply hother
      intro hloads
      exact (stale_of_loads hloads).mp hstale
    · rename_i hfresh
      rcases hcls : res.job.cls with _ | _ | _ | _
      · -- A load of an older generation is stale.
        have hne : res.job.gen ≠ p.loadGen := fun hgen => hload ⟨hcls, hgen⟩
        exact absurd ((stale_of_loads (by simp [hcls, LoaderClass.loads])).mpr hne) hfresh
      · have hgen : res.job.gen = p.loadGen := by
          by_contra hne
          exact hfresh ((stale_of_loads (by simp [hcls, LoaderClass.loads])).mpr hne)
        rcases hflight : p.loadInFlight with _ | _
        · refine commit_good (commit_effect h) ⟨hlane, ?_⟩ hroom
          intro hf
          rw [hflight] at hf
          simp at hf
        · exact commit_good_of_lands h hlane (hlanded hcls hgen hflight) hroom
      · exact commit_good (commit_effect h) (hother (by simp [hcls, LoaderClass.loads])) hroom
      · exact commit_good (commit_effect h) (hother (by simp [hcls, LoaderClass.loads])) hroom

theorem step_good {op : Op} (h : p.step cfg g op = some p') (hgood : Good p)
    (hloads : Loads cfg g p op) : Good p' := by
  have hroom := hloads.accepted p' h
  have he := step_effect h
  cases op with
  | take =>
    obtain ⟨hlane, hperm, -, -, loader, job, rfl⟩ := take_spec hgood.lane h
    refine ⟨hlane, ?_⟩
    intro hflight
    obtain ⟨job, hjob, hrest⟩ := hgood.waits hflight
    exact ⟨job, hperm.mem_iff.mpr hjob, hrest⟩
  | finish =>
    have hjobs := finish_jobs h
    obtain ⟨job, commit, lists, hw, -, rfl⟩ := finish_spec h
    refine ⟨⟨hgood.lane.isOpen, hgood.lane.shape⟩, ?_⟩
    unfold Waits
    rw [hjobs]
    exact hgood.waits
  | deliver =>
    have hjobs := deliver_jobs h
    obtain ⟨res, hw, rfl⟩ := deliver_spec h
    refine ⟨⟨hgood.lane.isOpen, hgood.lane.shape⟩, ?_⟩
    unfold Waits
    rw [hjobs]
    exact hgood.waits
  | command => exact command_good he hgood hroom
  | cluster =>
    cases he with
    | kept h => exact h ▸ hgood
    | stopped h => exact h ▸ stopPlayback_good hgood.lane
    | noted _ h => exact h ▸ hgood.retouch rfl
  | event m ev | drain m =>
    obtain ⟨pending, draining, he⟩ := he
    exact he.good (hgood.retouch rfl) hroom
  | prefetchTimer | sleepTimer m => exact Acts.good he hgood hroom
  | receive m =>
    have h := handle_of_step rfl h
    simp only [handle] at h
    split at h
    · simp at h
    · rename_i res rest hres
      exact receive_good hres h hgood (hloads.landed m res rest rfl hres) hroom

theorem good_new : Good {} :=
  ⟨⟨rfl, LoaderLane.Shape.nil⟩, fun h => by simp at h⟩

theorem waits_of_loads (cfg : Config) (g : Rand) (ops : List Op)
    (h : Meets (step cfg g) (Loads cfg g) {} ops) : Always (step cfg g) Waits {} ops := by
  have := always_of_meets (I := Good) (fun s a s' hs hc hstep => step_good hstep hs hc) good_new h
  exact this.imp fun s hs => hs.waits

def knownTrack : ContextTrack := { uri := "spotify:track:0000000000000000000001" }

def localTrack : ContextTrack := { uri := "spotify:local:file" }

def onePage (tracks : List ContextTrack) : Pages ContextTrack := fun i =>
  if i = 0 then .ok tracks else .error { text := "EOF", isEOF := true }

def served (tracks : List ContextTrack) : Answers where
  newList _ := .ok "track"
  pages _ := onePage tracks
  draw _ := 0
  context := .ok {}
  stream := .error { err := { text := "no stream" } }

def here : Config := { deviceId := "here" }

def roundTrip (now : Int) (a : Answers) : List Op :=
  [.take fun _ => now, .finish a, .deliver, .receive { now }]

def playRun (tracks : List ContextTrack) : List Op :=
  .command { now := 0 } (.play { context := {} }) :: roundTrip 0 (served tracks)

/-- The track of a context is loading. A skip supersedes that load and lands on a local file. -/
def skippedRun : List Op :=
  playRun [knownTrack, localTrack] ++
    .command { now := 0 } (.skipNext none) :: roundTrip 0 (served [knownTrack, localTrack])

theorem waits_fails_on_local_file : ¬ Always (step here drawZero) Waits {} skippedRun := fun h =>
  absurd (h.last (exec_get (by decide +kernel)) (by decide +kernel)) (by decide +kernel)

instance (cfg : Config) (p : AppPlayer) (c : Commit) : Decidable (Lands cfg p c) := by
  delta Lands GoesOn
  rcases c with _ | _ | _ | _ | _ | _ | _ | ⟨_, _ | _⟩ <;> infer_instance

instance (p : AppPlayer) (op : Op) : Decidable (Loads cfg g p op) :=
  decidable_of_iff ((∀ p' ∈ p.step cfg g op, _) ∧ _) (loads_iff cfg g p op).symm

theorem waits_of_loads_playRun :
    Meets (step here drawZero) (Loads here drawZero) {} (playRun [knownTrack]) ∧
      (exec (step here drawZero) {} (playRun [knownTrack])).map loadInFlight = some true ∧
      Always (step here drawZero) Waits {} (playRun [knownTrack]) := by
  have hm : Meets (step here drawZero) (Loads here drawZero) {} (playRun [knownTrack]) := by
    decide +kernel
  exact ⟨hm, by decide +kernel, waits_of_loads here drawZero _ hm⟩

end Librespot.Daemon.AppPlayer
