import Librespot.Base.Run
import Librespot.Player.Source

/-!
# The manage loop (`player/player.go`)

One goroutine owns the output device and the switching source. It takes commands,
and it raises the events that the daemon receives. The output's own goroutine reads
the source meanwhile. The volume and the position are left out: asking for them
changes nothing here.
-/

namespace Librespot.Player

inductive EventType
  | play
  | resume
  | pause
  | notPlaying
  | stop
deriving DecidableEq, Repr

structure Event where
  type : EventType
  streamGen : Nat := 0
deriving DecidableEq, Repr

def Event.isEnd (ev : Event) : Bool := ev.type = .notPlaying || ev.type = .stop

structure OutputReply where
  opens : Bool := true
  drops : Bool := true
  works : Bool := true
deriving DecidableEq, Repr

structure ManageLoop where
  out : Bool := false
  paused : Bool := false
  streamGen : Nat := 0
  ev : List Event := []
deriving DecidableEq, Repr

namespace ManageLoop

def raise (type : EventType) (l : ManageLoop) : ManageLoop :=
  { l with ev := l.ev ++ [{ type, streamGen := l.streamGen }] }

def closeOutput (l : ManageLoop) : ManageLoop := { l with out := false }

/-- Gives `none` if there is no output and none can be opened. -/
def ensureOutput (reply : OutputReply) (l : ManageLoop) : Option ManageLoop :=
  if l.out || reply.opens then some { l with out := true } else none

variable (optimistic : Bool) (reply : OutputReply)

def runOutputOp (onSuccess : ManageLoop → ManageLoop) (l : ManageLoop) : ManageLoop :=
  if optimistic then
    let l := onSuccess l
    if reply.works then l else l.closeOutput
  else if reply.works then onSuccess l
  else l.closeOutput

def setPrimary (paused : Bool) (l : ManageLoop) : ManageLoop :=
  { l with streamGen := l.streamGen + 1 }.runOutputOp optimistic reply fun l =>
    { l with paused }.raise (if paused then .pause else .play)

def play (l : ManageLoop) : ManageLoop :=
  match l.ensureOutput reply with
  | none => l
  | some l => l.runOutputOp optimistic reply fun l => { l with paused := false }.raise .resume

def pause (l : ManageLoop) : ManageLoop :=
  if l.out then l.runOutputOp optimistic reply fun l => { l with paused := true }.raise .pause
  else { l with paused := true }

def stop (l : ManageLoop) : ManageLoop := l.closeOutput.raise .stop

def seek (l : ManageLoop) : ManageLoop :=
  if l.out && !reply.drops then l.closeOutput
  else if l.paused then l
  else
    match l.ensureOutput reply with
    | none => l
    | some l => l.runOutputOp optimistic reply id

def reopen (l : ManageLoop) : ManageLoop :=
  if l.out then { l with out := reply.opens && reply.works } else l

def outputFailed (l : ManageLoop) : ManageLoop := l.closeOutput.raise .stop

/-! ### The events that a turn raises -/

structure Raises (l l' : ManageLoop) : Prop where
  streamGen : l'.streamGen = l.streamGen
  ev : ∃ new, l'.ev = l.ev ++ new ∧ ∀ ev ∈ new, ev.streamGen = l.streamGen

variable {optimistic reply} {l l' l'' : ManageLoop}

theorem Raises.silent (hgen : l'.streamGen = l.streamGen) (hev : l'.ev = l.ev) : Raises l l' :=
  ⟨hgen, [], by simp [hev]⟩

theorem Raises.raised (type : EventType) (hgen : l'.streamGen = l.streamGen)
    (hev : l'.ev = l.ev ++ [{ type, streamGen := l.streamGen }]) : Raises l l' :=
  ⟨hgen, _, hev, by simp⟩

theorem Raises.refl (l : ManageLoop) : Raises l l := .silent rfl rfl

theorem Raises.trans (h : Raises l l') (h' : Raises l' l'') : Raises l l'' := by
  obtain ⟨new, hev, hnew⟩ := h.ev
  obtain ⟨new', hev', hnew'⟩ := h'.ev
  refine ⟨h'.streamGen.trans h.streamGen, new ++ new', by rw [hev', hev, List.append_assoc], ?_⟩
  intro ev hmem
  rcases List.mem_append.mp hmem with hmem | hmem
  · exact hnew ev hmem
  · exact (hnew' ev hmem).trans h.streamGen

theorem closeOutput_raises (l : ManageLoop) : Raises l l.closeOutput := .silent rfl rfl

theorem runOutputOp_raises {onSuccess : ManageLoop → ManageLoop} (h : ∀ l, Raises l (onSuccess l))
    (l : ManageLoop) : Raises l (l.runOutputOp optimistic reply onSuccess) := by
  unfold runOutputOp
  split
  · split
    · exact h l
    · exact (h l).trans (closeOutput_raises _)
  · split
    · exact h l
    · exact closeOutput_raises l

theorem ensureOutput_raises (h : l.ensureOutput reply = some l') : Raises l l' := by
  unfold ensureOutput at h
  split at h
  · exact Option.some.inj h ▸ .silent rfl rfl
  · simp at h

theorem setPrimary_raises (paused : Bool) (l : ManageLoop) :
    Raises { l with streamGen := l.streamGen + 1 } (l.setPrimary optimistic reply paused) := by
  apply runOutputOp_raises
  intro l
  exact .raised _ rfl rfl

theorem play_raises (l : ManageLoop) : Raises l (l.play optimistic reply) := by
  unfold play
  split
  · exact .refl l
  · rename_i l' hl
    apply (ensureOutput_raises hl).trans
    apply runOutputOp_raises
    intro l
    exact .raised .resume rfl rfl

theorem pause_raises (l : ManageLoop) : Raises l (l.pause optimistic reply) := by
  unfold pause
  split
  · apply runOutputOp_raises
    intro l
    exact .raised .pause rfl rfl
  · exact .silent rfl rfl

theorem stop_raises (l : ManageLoop) : Raises l l.stop := .raised .stop rfl rfl

theorem seek_raises (l : ManageLoop) : Raises l (l.seek optimistic reply) := by
  unfold seek
  split
  · exact closeOutput_raises l
  · split
    · exact .refl l
    · split
      · exact .refl l
      · rename_i l' hl
        exact (ensureOutput_raises hl).trans (runOutputOp_raises .refl l')

theorem reopen_raises (l : ManageLoop) : Raises l (l.reopen reply) := by
  unfold reopen
  split
  · exact .silent rfl rfl
  · exact .refl l

end ManageLoop

structure AudioPlayer (S : Type) where
  loop : ManageLoop := {}
  source : SwitchingAudioSource S

/-- One turn of the loop, a read of the output, or the daemon receiving an event. -/
inductive Op (S : Type)
  | set (src : AudioSource S) (paused : Bool) (reply : OutputReply)
  | setSecondary (src : Option (AudioSource S))
  | play (reply : OutputReply)
  | pause (reply : OutputReply)
  | stop
  | seek (answer : Except Err (List S × List Reply)) (reply : OutputReply)
  | reopen (reply : OutputReply)
  | outputFailed
  | done
  | read (len : Nat)
  | receive

namespace AudioPlayer

variable {S : Type} (m : Mixing S) (optimistic : Bool)

/-- The generation is counted before the source changes, but only this loop reads it: a read in
between might as well have come first. -/
def set (src : AudioSource S) (paused : Bool) (reply : OutputReply) (p : AudioPlayer S) :
    AudioPlayer S :=
  match p.loop.ensureOutput reply with
  | none => p
  | some loop =>
    { loop := loop.setPrimary optimistic reply paused, source := p.source.setPrimary src }

def seek (answer : Except Err (List S × List Reply)) (reply : OutputReply) (p : AudioPlayer S) :
    AudioPlayer S :=
  match p.source.setPositionMs answer with
  | (some _, source) => { p with source }
  | (none, source) => { loop := p.loop.seek optimistic reply, source }

def step (p : AudioPlayer S) : Op S → Option (AudioPlayer S)
  | .set src paused reply => some (p.set optimistic src paused reply)
  | .setSecondary src => some { p with source := p.source.setSource (!p.source.which) src }
  | .play reply => some { p with loop := p.loop.play optimistic reply }
  | .pause reply => some { p with loop := p.loop.pause optimistic reply }
  | .stop => some { p with loop := p.loop.stop }
  | .seek answer reply => some (p.seek optimistic answer reply)
  | .reopen reply => some { p with loop := p.loop.reopen reply }
  | .outputFailed => if p.loop.out then some { p with loop := p.loop.outputFailed } else none
  | .done =>
    if p.source.done then
      some { loop := p.loop.raise .notPlaying, source := { p.source with done := false } }
    else none
  | .read len => (p.source.read m len).map fun res => { p with source := res.2 }
  | .receive =>
    match p.loop.ev with
    | [] => none
    | _ :: ev => some { p with loop := { p.loop with ev } }

end AudioPlayer

end Librespot.Player
