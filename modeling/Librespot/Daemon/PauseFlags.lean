import Librespot.Daemon.StreamEnds

/-!
# The pause flags

The daemon sets its own flag with a command and that of the audio player through a call that
raises an event, which sets the daemon's flag again when it is handled. While a track loads a
command only sets the daemon's flag.
-/

open Librespot.Tracks List Option

namespace Librespot.Player

/-- What the daemon's flag becomes when it handles the event. -/
def Event.paused (ev : Event) : Option Bool :=
  match ev.type with
  | .play | .resume => some false
  | .pause => some true
  | .notPlaying | .stop => none

namespace ManageLoop

variable {reply : OutputReply} {l : ManageLoop}

/-- The call `Play` or `Pause` of an audio player whose output works. -/
def told (paused : Bool) (l : ManageLoop) : ManageLoop :=
  { l with paused }.raise (if paused then .pause else .resume)

theorem pause_eq_told (hout : l.out = true) (hworks : reply.works = true) :
    l.pause true reply = l.told true := by
  simp [pause, runOutputOp, told, hout, hworks]

theorem play_eq_told (hout : l.out = true) (hworks : reply.works = true) :
    l.play true reply = l.told false := by
  obtain ⟨out, paused, streamGen, ev⟩ := l
  obtain rfl : out = true := hout
  simp [play, ensureOutput, runOutputOp, told, hworks]

theorem seek_eq_self (hout : l.out = true) (hworks : reply.works = true)
    (hdrops : reply.drops = true) : l.seek true reply = l := by
  obtain ⟨out, paused, streamGen, ev⟩ := l
  obtain rfl : out = true := hout
  simp [seek, ensureOutput, runOutputOp, hworks, hdrops]

end ManageLoop

end Librespot.Player

namespace Librespot.Daemon

/-- The daemon's flag once these events are handled. -/
def pausedAfter (evs : List PlayerEvent) (paused : Bool) : Bool :=
  evs.foldl (fun paused ev => ev.paused.getD paused) paused

theorem pausedAfter_append (evs evs' : List PlayerEvent) (paused : Bool) :
    pausedAfter (evs ++ evs') paused = pausedAfter evs' (pausedAfter evs paused) :=
  foldl_append

theorem pausedAfter_filter {keep : PlayerEvent → Bool}
    (h : ∀ ev, keep ev = false → ev.paused = none) (evs : List PlayerEvent) (paused : Bool) :
    pausedAfter (evs.filter keep) paused = pausedAfter evs paused := by
  induction evs generalizing paused with
  | nil => rfl
  | cons ev _ ih =>
    rcases hkeep : keep ev with _ | _
    · rw [filter_cons_of_neg (by simp [hkeep]), ih, pausedAfter, pausedAfter, foldl_cons,
        h ev hkeep]
      rfl
    · rw [filter_cons_of_pos hkeep]
      exact ih _

variable {paused : Bool}

theorem pausedAfter_same {evs : List PlayerEvent}
    (h : ∀ ev ∈ evs, ∀ b, ev.paused = some b → b = paused) : pausedAfter evs paused = paused := by
  induction evs with
  | nil => rfl
  | cons ev _ ih =>
    have hhead : ev.paused.getD paused = paused := by
      rcases hev : ev.paused with _ | b
      · rfl
      · exact h ev mem_cons_self b hev
    rw [pausedAfter, foldl_cons, hhead]
    exact ih fun e he => h e (mem_cons_of_mem _ he)

namespace Transport

variable {t : Transport}

/-- The events on their way, in the order they will be handled. -/
def events (t : Transport) : List PlayerEvent := t.draining ++ (t.pending ++ t.audio.ev)

/-- A command to pause or to resume, as the daemon takes it. -/
def asked (paused : Bool) (t : Transport) : Transport :=
  if t.stream.isSome then { t with isPaused := paused, audio := t.audio.told paused }
  else if t.loadInFlight then { t with isPaused := paused }
  else t

/-- The commit of a load that was fetched with the flag `paused`. -/
def committed (stream : Stream) (paused : Bool) (t : Transport) : Transport :=
  { t with
    stream := some stream
    audio := if t.isPaused = paused then t.audio else t.audio.told t.isPaused }

def drained (t : Transport) : Transport := { t with draining := t.pending, pending := [] }

/-- Once the events are handled both flags are the same. -/
structure Synced (t : Transport) : Prop where
  stream : t.stream.isSome = true
  out : t.audio.out = true
  agrees : pausedAfter t.events t.isPaused = t.audio.paused

structure Settled (t : Transport) : Prop extends Synced t where
  landed : t.loadInFlight = false
  released : t.pending = []

/-- A track is being loaded, and none plays. -/
@[mk_iff inFlight_iff]
structure InFlight (t : Transport) : Prop where
  flight : t.loadInFlight = true
  noStream : t.stream = none

/-- The daemon's flag is `paused` and no event that is drained changes it. -/
structure Shows (paused : Bool) (t : Transport) : Prop where
  isPaused : t.isPaused = paused
  draining : ∀ ev ∈ t.draining, ∀ b, ev.paused = some b → b = paused

/-- The audio player has been left with `paused`, and its last event says so. -/
structure Fetched (paused : Bool) (t : Transport) : Prop where
  out : t.audio.out = true
  flag : t.audio.paused = paused
  last : ∀ b, pausedAfter (t.pending ++ t.audio.ev) b = paused

/-- No event on its way changes the daemon's flag. -/
def Caught (t : Transport) : Prop := ∀ ev ∈ t.events, ∀ b, ev.paused = some b → b = t.isPaused

theorem told_last (evs : List PlayerEvent) (paused b : Bool) (audio : Player.ManageLoop) :
    pausedAfter (evs ++ (audio.told paused).ev) b = paused := by
  simp only [Player.ManageLoop.told, Player.ManageLoop.raise, ← append_assoc]
  rw [pausedAfter_append]
  cases paused <;> rfl

theorem synced_asked (paused : Bool) (hstream : t.stream.isSome = true)
    (hout : t.audio.out = true) : (t.asked paused).Synced := by
  rw [asked, if_pos hstream]
  refine ⟨hstream, hout, ?_⟩
  simp only [events, ← append_assoc]
  exact told_last _ paused paused t.audio

theorem settled_asked (paused : Bool) (hstream : t.stream.isSome = true) (hout : t.audio.out = true)
    (hlanded : t.loadInFlight = false) (hreleased : t.pending = []) : (t.asked paused).Settled := by
  have hsynced := synced_asked paused hstream hout
  rw [asked, if_pos hstream] at hsynced ⊢
  exact ⟨hsynced, hlanded, hreleased⟩

theorem asked_paused (paused : Bool) (hstream : t.stream.isSome = true) :
    (t.asked paused).audio.paused = paused := by
  rw [asked, if_pos hstream]
  rfl

theorem InFlight.asked (h : t.InFlight) (paused : Bool) :
    t.asked paused = { t with isPaused := paused } := by
  rw [Transport.asked, if_neg (by simp [h.noStream]), if_pos h.flight]

theorem Synced.isPaused_of_caught (h : t.Synced) (hcaught : t.Caught) :
    t.isPaused = t.audio.paused := by
  rw [← h.agrees, pausedAfter_same hcaught]

end Transport

/-- No call fails in this step. -/
@[mk_iff works_iff]
structure Moment.Works (m : Moment) : Prop where
  seek : m.seekFails = false
  play : m.playFails = false
  pause : m.pauseFails = false
  output : m.outputLost = false

theorem Moment.Works.reply {m : Moment} (hm : m.Works) : m.reply.works = true := by
  simp [Moment.reply, hm.output]

/-- The command resumes what it has loaded. -/
def Then.resumes : Then → Bool
  | .apiPlay position paused => decide (position > 0) && !paused
  | .autoplayLoaded k | .orSkip _ k | .orSkipped k | .advanced _ _ k => k.resumes
  | .log | .playerEnd | .skipNext => false

variable {ev : PlayerEvent}

namespace AppPlayer

variable {cfg : Config} {m : Moment} {p p' : AppPlayer}

theorem asked_of_none (paused : Bool) (hstream : p.primaryStream = none) :
    (if p.loadInFlight then p.setPaused paused else p).transport = p.transport.asked paused := by
  have hnone : p.transport.stream.isSome = false := by simp [transport, hstream]
  have hasked : p.transport.asked paused =
      if p.loadInFlight then { p.transport with isPaused := paused } else p.transport := by
    rw [Transport.asked, if_neg (by simp [hnone])]
    rfl
  rw [hasked]
  split <;> rfl

section Works

variable (hm : m.Works) (hout : p.primaryStream.isSome = true → p.audio.out = true)
include hm hout

theorem pause_transport : (p.pause m).transport = p.transport.asked true := by
  unfold pause
  split
  · exact asked_of_none true ‹_›
  · rename_i stream hstream
    have htold := Player.ManageLoop.pause_eq_told (hout (by simp [hstream])) hm.reply
    simp [transport, Transport.asked, hstream, hm.pause, withAudio, updatePlayer,
      PlayerState.setPaused, htold]

theorem play_transport : (p.play m).transport = p.transport.asked false := by
  unfold play
  split
  · exact asked_of_none false ‹_›
  · rename_i stream hstream
    have hout := hout (by simp [hstream])
    have hseek := @Player.ManageLoop.seek_eq_self {} p.audio hout rfl rfl
    have htold := Player.ManageLoop.play_eq_told hout hm.reply
    simp [transport, Transport.asked, hstream, hm.seek, hm.play, withAudio, updatePlayer,
      PlayerState.setPaused, hseek, htold]

theorem seek_transport (position : Int) : (p.seek m position).transport = p.transport := by
  unfold seek
  split
  · rfl
  · rename_i stream hstream
    have hseek := Player.ManageLoop.seek_eq_self (hout (by simp [hstream])) hm.reply rfl
    simp [transport, hm.seek, withAudio, updatePlayer, PlayerState.moveTo, hseek]

theorem settle_transport {k : Then} {hasNext : Bool} (h : p.settle m k hasNext none = some p') :
    p'.transport = p.transport ∨ k.resumes = true ∧ p'.transport = p.transport.asked false := by
  induction k generalizing hasNext p with
  | log | skipNext =>
    cases h
    exact .inl rfl
  | apiPlay position =>
    simp only [settle] at h
    split at h
    · exact .inl (some.inj h ▸ rfl)
    · rename_i hpos
      have hseek := seek_transport hm hout position
      split at h
      · exact .inl (some.inj h ▸ hseek)
      · rename_i hpaused
        refine .inr ⟨by simp [Then.resumes, hpaused]; omega, ?_⟩
        rw [← some.inj h, ← hseek]
        apply play_transport hm
        intro hstream
        have hstream : (p.seek m position).transport.stream.isSome = true := hstream
        show (p.seek m position).transport.audio.out = true
        rw [hseek] at hstream ⊢
        exact hout hstream
  | autoplayLoaded k ih | orSkip drop k ih | orSkipped k ih => exact ih hout h
  | advanced _ _ _ ih =>
    exact ih (p := { p with consecutiveUnplayableSkips := 0 }) hout h
  | playerEnd =>
    simp only [settle] at h
    split at h
    · exact .inl (some.inj h ▸ rfl)
    · exact .inl (emitMprisUpdate_eq h ▸ rfl)

end Works

theorem handlePlayerEvent_transport (hev : ev.type ≠ .notPlaying)
    (h : p.handlePlayerEvent cfg m ev = some p') :
    p'.transport = { p.transport with isPaused := ev.paused.getD p.transport.isPaused } := by
  have hchanged (paused : Bool) (h : p.playbackChanged paused = some p') :
      p'.transport = { p.transport with isPaused := paused } := by
    rw [emitMprisUpdate_eq h]
    rfl
  unfold handlePlayerEvent at h
  split at h <;> rename_i htype
  · rw [Player.Event.paused, htype]
    exact hchanged false h
  · rw [Player.Event.paused, htype]
    exact hchanged false h
  · rw [Player.Event.paused, htype]
    exact hchanged true h
  · exact absurd htype hev
  · rw [Player.Event.paused, htype, emitMprisUpdate_eq h]
    rfl

/-! ## A track that lands -/

theorem commitLoad_transport {stream : Stream} {position : Int} (hm : m.Works)
    (hout : p.audio.out = true) :
    (p.commitLoad m stream paused position).transport = p.transport.committed stream paused := by
  have hpause := Player.ManageLoop.pause_eq_told hout hm.reply
  have hplay := Player.ManageLoop.play_eq_told hout hm.reply
  by_cases heq : p.state.player.isPaused = paused
  · simp [commitLoad, transport, Transport.committed, heq, updatePlayer, PlayerState.setPaused]
  · rcases hasked : p.state.player.isPaused with _ | _
    · rw [hasked] at heq
      simp [commitLoad, transport, Transport.committed, hasked, heq, updatePlayer,
        PlayerState.setPaused, applyPaused, hm.play, withAudio, hplay]
    · rw [hasked] at heq
      simp [commitLoad, transport, Transport.committed, hasked, heq, updatePlayer,
        PlayerState.setPaused, applyPaused, hm.pause, withAudio, hpause]

end AppPlayer

namespace Transport

variable {t : Transport} {rest : List PlayerEvent}

theorem Fetched.synced (h : t.Fetched paused) (hdraining : t.draining = []) (stream : Stream) :
    (t.committed stream paused).Synced ∧
      (t.committed stream paused).audio.paused = t.isPaused := by
  unfold committed
  by_cases heq : t.isPaused = paused
  · simp only [heq, if_true]
    refine ⟨⟨rfl, h.out, ?_⟩, h.flag⟩
    simp only [events, hdraining, nil_append]
    exact (h.last _).trans h.flag.symm
  · simp only [heq, if_false]
    refine ⟨⟨rfl, h.out, ?_⟩, rfl⟩
    simp only [events, hdraining, nil_append]
    exact told_last _ _ _ t.audio

theorem Synced.settled (h : t.Synced) (hdraining : t.draining = [])
    (hlanded : t.loadInFlight = false) : t.drained.Settled := by
  refine ⟨⟨h.stream, h.out, ?_⟩, hlanded, rfl⟩
  have hagrees := h.agrees
  simp only [events, hdraining, nil_append] at hagrees ⊢
  exact hagrees

theorem Settled.event (h : t.Settled)
    (hdraining : t.draining = []) (hev : t.audio.ev = ev :: rest) :
    Settled { t with
      isPaused := ev.paused.getD t.isPaused, audio := { t.audio with ev := rest } } := by
  refine ⟨⟨h.stream, h.out, ?_⟩, h.landed, h.released⟩
  have hagrees := h.agrees
  simp only [events, hdraining, h.released, hev, nil_append] at hagrees ⊢
  exact hagrees

theorem Settled.drain (h : t.Settled) (hdraining : t.draining = ev :: rest) :
    Settled { t with isPaused := ev.paused.getD t.isPaused, draining := rest } := by
  refine ⟨⟨h.stream, h.out, ?_⟩, h.landed, h.released⟩
  have hagrees := h.agrees
  simp only [events, hdraining] at hagrees ⊢
  exact hagrees

end Transport

namespace AppPlayer

variable {cfg : Config} {m : Moment} {p p' : AppPlayer}

theorem loaded_settled {load : LoadJob} {stream : Stream} {streamGen : Nat} {position : Int}
    (hm : m.Works) (hfetched : p.transport.Fetched load.paused) (hdraining : p.draining = [])
    (h : ({ p with loadInFlight := false } : AppPlayer).commit cfg m
      (.loaded load stream streamGen position) = some p') :
    p'.drainPendingPlayerEvents.transport.Settled ∧
      (p'.audio.paused = p.state.player.isPaused ∨
        load.k.resumes = true ∧ p'.audio.paused = false) := by
  let q := ({ p with loadInFlight := false } : AppPlayer).forgetReplacedStreamEvents streamGen
  have hq : q.transport.Fetched load.paused := by
    refine ⟨hfetched.out, hfetched.flag, fun b => ?_⟩
    rw [← hfetched.last b, pausedAfter_append, pausedAfter_append]
    congr 1
    apply pausedAfter_filter
    rintro ⟨type, gen⟩ hdropped
    cases type <;> first | rfl | simp at hdropped
  obtain ⟨hsynced, hflag⟩ := hq.synced hdraining stream
  have htransport : (q.commitLoad m stream load.paused position).transport =
      q.transport.committed stream load.paused := commitLoad_transport hm hq.out
  rw [← htransport] at hsynced hflag
  have h : (q.commitLoad m stream load.paused position).settle m load.k false none = some p' := h
  show p'.transport.drained.Settled ∧
    (p'.transport.audio.paused = _ ∨ _ ∧ p'.transport.audio.paused = _)
  rcases settle_transport hm (fun _ => hsynced.out) h with hsame | ⟨hresumes, hplays⟩
  · rw [hsame]
    refine ⟨hsynced.settled ?_ ?_, .inl hflag⟩
    · rw [htransport]
      exact hdraining
    · rw [htransport]
      rfl
  · rw [hplays]
    refine ⟨(Transport.synced_asked false hsynced.stream hsynced.out).settled ?_ ?_,
      .inr ⟨hresumes, Transport.asked_paused false hsynced.stream⟩⟩
    · rw [Transport.asked, if_pos hsynced.stream, htransport]
      exact hdraining
    · rw [Transport.asked, if_pos hsynced.stream, htransport]
      rfl

end AppPlayer

end Librespot.Daemon
