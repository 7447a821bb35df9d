import Librespot.Base.Run
import Librespot.Ids

/-!
# Reporting how far an episode was heard (`daemon/resume.go`, `spclient/resumption.go`)

Every report is a request on a goroutine of its own. It is repeated on a failure, so the server may
get it more than once, and nothing orders it with the other ones.
-/

open Base.Run List Option

namespace Librespot.Daemon

inductive ResumePoint
  | position (seconds : Nat)
  | finished
deriving DecidableEq, Repr

structure PlaybackStream where
  requestedId : SpotifyId
  playbackId : Bytes
deriving DecidableEq, Repr

/-- A report on its way. `delivered` says that the server has got it at least once. -/
structure ResumeRequest where
  id : SpotifyId
  point : ResumePoint
  delivered : Bool := false
deriving DecidableEq, Repr

/-- `revisions` is what the server got and `reports` what was reported, both newest first. `ended`
are the episodes heard to the end and not played since. -/
structure Resume where
  primaryStream : Option PlaybackStream := none
  resumeFinishedPlaybackId : Bytes := []
  requests : List ResumeRequest := []
  revisions : List (SpotifyId × ResumePoint) := []
  reports : List (SpotifyId × ResumePoint) := []
  ended : List SpotifyId := []
deriving DecidableEq, Repr

namespace Resume

def goDetached (s : Resume) (id : SpotifyId) (point : ResumePoint) : Resume :=
  { s with requests := s.requests ++ [{ id, point }], reports := (id, point) :: s.reports }

def reportsPosition (s : Resume) (stream : PlaybackStream) (positionMs : Int) : Bool :=
  stream.requestedId.typ = "episode" ∧ 0 < positionMs ∧
    stream.playbackId ≠ s.resumeFinishedPlaybackId

def reportResumePosition (s : Resume) (stream : Option PlaybackStream) (positionMs : Int) :
    Resume :=
  match stream with
  | none => s
  | some stream =>
    if s.reportsPosition stream positionMs then
      s.goDetached stream.requestedId (.position (positionMs.toNat / 1000))
    else s

def reportResumeFinished (s : Resume) (stream : Option PlaybackStream) : Resume :=
  match stream with
  | none => s
  | some stream =>
    if stream.requestedId.typ ≠ "episode" then s
    else
      { s with
        resumeFinishedPlaybackId := stream.playbackId
        ended := stream.requestedId :: s.ended }.goDetached stream.requestedId .finished

/-- `unload` is the head of `loadCurrentTrack` and `commit` the end of the load. -/
inductive Event
  | commit (stream : PlaybackStream)
  | pause (positionMs : Int)
  | unload (positionMs : Int)
  | notPlaying
  | deliver (request : Nat)
  | settle (request : Nat)
deriving DecidableEq, Repr

/-- A request settles when its goroutine is through with it and the server has got it. -/
def step (s : Resume) : Event → Option Resume
  | .commit stream => some { s with
      primaryStream := some stream, ended := s.ended.filter (· ≠ stream.requestedId) }
  | .pause positionMs => some (s.reportResumePosition s.primaryStream positionMs)
  | .unload positionMs =>
    some { s.reportResumePosition s.primaryStream positionMs with primaryStream := none }
  | .notPlaying => some (s.reportResumeFinished s.primaryStream)
  | .deliver i =>
    match s.requests[i]? with
    | some req => some { s with
        requests := s.requests.set i { req with delivered := true }
        revisions := (req.id, req.point) :: s.revisions }
    | none => none
  | .settle i =>
    match s.requests[i]? with
    | some req => if req.delivered then some { s with requests := s.requests.eraseIdx i } else none
    | none => none

def newest (points : List (SpotifyId × ResumePoint)) (id : SpotifyId) : Option ResumePoint :=
  (points.find? (·.1 = id)).map Prod.snd

theorem newest_cons (points : List (SpotifyId × ResumePoint)) (id : SpotifyId)
    (point : ResumePoint) (id' : SpotifyId) :
    newest ((id, point) :: points) id' = if id = id' then some point else newest points id' := by
  unfold newest
  rw [find?_cons]
  by_cases h : id = id' <;> simp [h]

def InFlight (s : Resume) (id : SpotifyId) : Prop := ∃ req ∈ s.requests, req.id = id

instance (s : Resume) (id : SpotifyId) : Decidable (s.InFlight id) :=
  inferInstanceAs (Decidable (∃ req ∈ s.requests, req.id = id))

/-- Once every report about an episode has got to the server, the newest one is what it keeps, and
that is `finished` for an episode that was heard to the end. -/
def Remains (s : Resume) : Prop :=
  ∀ id, ¬ s.InFlight id → newest s.revisions id = newest s.reports id ∧
    (id ∈ s.ended → newest s.revisions id = some .finished)

def reported (s : Resume) : Event → Option SpotifyId
  | .pause positionMs | .unload positionMs =>
    (s.primaryStream.filter (s.reportsPosition · positionMs)).map PlaybackStream.requestedId
  | .notPlaying =>
    (s.primaryStream.filter (·.requestedId.typ = "episode")).map PlaybackStream.requestedId
  | _ => none

/-- No report is made about an episode while another one about it is on its way. -/
def Orderly (s : Resume) (ev : Event) : Prop := ∀ id ∈ s.reported ev, ¬ s.InFlight id

/-! ## What a step preserves -/

structure Delivers (s : Resume) : Prop where
  current : ∀ req ∈ s.requests, newest s.reports req.id = some req.point ∧
    (req.delivered = true → newest s.revisions req.id = some req.point)
  settled : ∀ id, ¬ s.InFlight id → newest s.revisions id = newest s.reports id

def Ended (s : Resume) : Prop :=
  ∀ id ∈ s.ended, newest s.reports id = some .finished ∧
    ∀ stream ∈ s.primaryStream, stream.requestedId = id →
      stream.playbackId = s.resumeFinishedPlaybackId

variable {s : Resume} {ev : Event}

theorem goDetached_delivers {id : SpotifyId} {point : ResumePoint} (hs : s.Delivers)
    (hfree : ¬ s.InFlight id) : (s.goDetached id point).Delivers := by
  have hother : ∀ req ∈ s.requests, id ≠ req.id := fun req hreq he => hfree ⟨req, hreq, he.symm⟩
  refine ⟨fun req hreq => ?_, fun id' hid' => ?_⟩
  · simp only [goDetached, mem_append, mem_singleton, newest_cons] at hreq ⊢
    rcases hreq with hreq | rfl
    · rw [if_neg (hother req hreq)]
      exact hs.current req hreq
    · simp
  · have hne : id ≠ id' := fun he => hid' ⟨⟨id, point, false⟩, by simp [goDetached], he⟩
    simp only [goDetached, newest_cons, if_neg hne]
    exact hs.settled id' fun ⟨req, hreq, he⟩ => hid' ⟨req, by simp [goDetached, hreq], he⟩

theorem reportResumePosition_delivers {positionMs : Int} (hs : s.Delivers)
    (hfree : ∀ id ∈ s.reported (.pause positionMs), ¬ s.InFlight id) :
    (s.reportResumePosition s.primaryStream positionMs).Delivers := by
  unfold reportResumePosition
  split
  · exact hs
  · rename_i stream hstream
    split
    · rename_i hreports
      exact goDetached_delivers hs (hfree _ (by simp [reported, hstream, hreports]))
    · exact hs

theorem step_delivers {s' : Resume} (hs : s.Delivers) (hc : s.Orderly ev)
    (h : step s ev = some s') : s'.Delivers := by
  cases ev with
  | commit =>
    cases h
    exact ⟨hs.current, hs.settled⟩
  | pause =>
    cases h
    exact reportResumePosition_delivers hs hc
  | unload positionMs =>
    cases h
    have hreport : (s.reportResumePosition s.primaryStream positionMs).Delivers :=
      reportResumePosition_delivers hs hc
    exact ⟨hreport.current, hreport.settled⟩
  | notPlaying =>
    cases h
    unfold reportResumeFinished
    split
    · exact hs
    · rename_i stream hstream
      split
      · exact hs
      · rename_i htyp
        refine goDetached_delivers ⟨hs.current, hs.settled⟩ (hc _ ?_)
        simpa [reported, hstream] using htyp
  | deliver i =>
    simp only [step] at h
    split at h
    · rename_i req hreq
      cases h
      have hmem := mem_of_getElem? hreq
      have hset : ∀ r ∈ s.requests.set i { req with delivered := true },
          r ∈ s.requests ∨ r = { req with delivered := true } := fun r => mem_or_eq_of_mem_set
      have hlt := (List.getElem?_eq_some_iff.mp hreq).1
      refine ⟨fun r hr => ?_, fun id hid => ?_⟩
      · -- Whatever request this is, it carries the newest report.
        have hcurrent : newest s.reports r.id = some r.point := by
          rcases hset r hr with hr | rfl
          · exact (hs.current r hr).1
          · exact (hs.current req hmem).1
        refine ⟨hcurrent, fun hd => ?_⟩
        rw [newest_cons]
        by_cases he : req.id = r.id
        · rw [if_pos he, ← hcurrent, ← he, (hs.current req hmem).1]
        · rw [if_neg he]
          rcases hset r hr with hr | rfl
          · exact (hs.current r hr).2 hd
          · exact absurd rfl he
      · have hne : req.id ≠ id := fun he =>
          hid ⟨{ req with delivered := true }, mem_set hlt _, he⟩
        rw [newest_cons, if_neg hne]
        refine hs.settled id fun ⟨r, hr, he⟩ => hid ⟨r, ?_, he⟩
        obtain ⟨j, hj⟩ := mem_iff_getElem?.mp hr
        refine mem_iff_getElem?.mpr ⟨j, ?_⟩
        rw [getElem?_set_ne ?_]
        · exact hj
        · rintro rfl
          obtain rfl : req = r := some.inj (hreq.symm.trans hj)
          exact hne he
    · cases h
  | settle =>
    simp only [step] at h
    split at h
    · rename_i req hreq
      simp only [ite_none_right_eq_some, some.injEq] at h
      obtain ⟨hdelivered, rfl⟩ := h
      have hmem := mem_of_getElem? hreq
      refine ⟨fun r hr => hs.current r (mem_of_mem_eraseIdx hr), fun id hid => ?_⟩
      by_cases he : req.id = id
      · -- The last request about it: the server has its point.
        subst he
        obtain ⟨hreport, hstored⟩ := hs.current req hmem
        exact (hstored hdelivered).trans hreport.symm
      · refine hs.settled id fun ⟨r, hr, hrid⟩ => hid ⟨r, ?_, hrid⟩
        obtain ⟨j, hj⟩ := mem_iff_getElem?.mp hr
        refine mem_eraseIdx_iff_getElem?.mpr ⟨j, ?_, hj⟩
        rintro rfl
        obtain rfl : req = r := some.inj (hreq.symm.trans hj)
        exact he hrid
    · cases h

theorem reportResumePosition_ended (hs : s.Ended) (positionMs : Int) :
    (s.reportResumePosition s.primaryStream positionMs).Ended := by
  unfold reportResumePosition
  split
  · exact hs
  · rename_i stream hstream
    split
    · rename_i hreports
      intro id hid
      obtain ⟨hlast, hsame⟩ := hs id hid
      have hne : stream.requestedId ≠ id := by
        intro he
        have hplayback := hsame stream (by simp [hstream]) he
        simp [reportsPosition, hplayback] at hreports
      refine ⟨?_, hsame⟩
      simpa only [goDetached, newest_cons, if_neg hne] using hlast
    · exact hs

theorem step_ended {s' : Resume} (hs : s.Ended) (h : step s ev = some s') : s'.Ended := by
  cases ev with
  | commit =>
    cases h
    intro id hid
    obtain ⟨hid, hne⟩ := mem_filter.mp hid
    refine ⟨(hs id hid).1, fun other hother he => ?_⟩
    cases hother
    simp [he] at hne
  | pause positionMs =>
    cases h
    exact reportResumePosition_ended hs positionMs
  | unload positionMs =>
    cases h
    intro id hid
    exact ⟨(reportResumePosition_ended hs positionMs id hid).1, by simp⟩
  | notPlaying =>
    cases h
    unfold reportResumeFinished
    split
    · exact hs
    · rename_i stream hstream
      split
      · exact hs
      · intro id hid
        simp only [goDetached, newest_cons] at hid ⊢
        refine ⟨?_, fun other hother _ => ?_⟩
        · split
          · rfl
          · rename_i hne
            rcases mem_cons.mp hid with rfl | hid
            · exact absurd rfl hne
            · exact (hs id hid).1
        · obtain rfl : stream = other := some.inj (hstream.symm.trans hother)
          rfl
  | deliver =>
    simp only [step] at h
    split at h
    · cases h
      exact hs
    · cases h
  | settle =>
    simp only [step] at h
    split at h
    · simp only [ite_none_right_eq_some, some.injEq] at h
      obtain ⟨-, rfl⟩ := h
      exact hs
    · cases h

/-- If no report is made while another one about the same episode is on its way, the report made
last is the one that remains. -/
theorem remains_of_orderly {evs : List Event} (h : Meets step Orderly {} evs) :
    Always step Remains {} evs := by
  have hinv : Always step (fun s => s.Delivers ∧ s.Ended) {} evs := by
    refine always_of_meets ?_ ?_ h
    · intro s ev s' hs hc hstep
      exact ⟨step_delivers hs.1 hc hstep, step_ended hs.2 hstep⟩
    · exact ⟨⟨by simp, fun _ _ => rfl⟩, by simp [Ended]⟩
  refine hinv.imp fun s hs id hid => ?_
  have hsettled := hs.1.settled id hid
  exact ⟨hsettled, fun hended => hsettled.trans (hs.2 id hended).1⟩

def anEpisode : PlaybackStream :=
  { requestedId := { typ := "episode", id := List.replicate 16 7 }, playbackId := [1] }

/-- The report of a pause three seconds before the end is still on its way when the episode comes to
its end, and gets to the server after the report of that. -/
def overtakenRun : List Event :=
  [.commit anEpisode, .pause 597000, .notPlaying, .unload 599500, .deliver 1, .settle 1, .deliver 0,
    .settle 0]

theorem finished_overwritten_by_pause : ∃ s, exec step {} overtakenRun = some s ∧
    s.requests = [] ∧ anEpisode.requestedId ∈ s.ended ∧
    newest s.reports anEpisode.requestedId = some .finished ∧
    newest s.revisions anEpisode.requestedId = some (.position 597) ∧ ¬ s.Remains := by
  refine ⟨Option.get _ (by decide +kernel), exec_get _, by decide +kernel, by decide +kernel,
    by decide +kernel, by decide +kernel, fun hremains => ?_⟩
  exact absurd ((hremains anEpisode.requestedId (by decide +kernel)).2 (by decide +kernel))
    (by decide +kernel)

def orderlyRun : List Event :=
  [.commit anEpisode, .pause 597000, .deliver 0, .deliver 0, .settle 0, .notPlaying, .unload 599500,
    .deliver 0, .settle 0]

instance (s : Resume) (ev : Event) : Decidable (s.Orderly ev) :=
  inferInstanceAs (Decidable (∀ id ∈ s.reported ev, ¬ s.InFlight id))

theorem remains_of_orderly_orderlyRun : ∃ s, exec step {} orderlyRun = some s ∧
    s.requests = [] ∧ newest s.revisions anEpisode.requestedId = some .finished := by
  have hmeets : Meets step Orderly {} orderlyRun := by decide +kernel
  refine ⟨Option.get _ (by decide +kernel), exec_get _, by decide +kernel, ?_⟩
  exact ((remains_of_orderly hmeets).last (exec_get _) anEpisode.requestedId (by decide +kernel)).2
    (by decide +kernel)

end Resume

end Librespot.Daemon
