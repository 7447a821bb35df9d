import Librespot.Base.Run
import Librespot.Ids

/-!
# The loader lane (`daemon/loader.go`)

A job's work is a payload of type `κ`: the lane never looks at it. A context's
cancel function is a flag. The waiting of `close` for its goroutine and the wake
channel are left out, since nothing that the lane does depends on them.
-/

namespace Librespot.Daemon

/-- Who a job answers. Calling the same reply twice has no effect: `replyTo.done` goes through a
`sync.Once`. -/
abbrev Ticket := Nat

inductive LoaderClass
  | load
  | nav
  | mutate
  | prefetch
deriving DecidableEq, Repr

namespace LoaderClass

def fetches (c : LoaderClass) : Bool := c = .load || c = .prefetch

def loads (c : LoaderClass) : Bool := c = .load || c = .nav

end LoaderClass

structure LoaderJob (κ : Type) where
  name : String := ""
  cls : LoaderClass
  gen : Nat
  reply : Option Ticket := none
  run : κ
  notBefore : Option Int := none
deriving DecidableEq, Repr

def LoaderJob.held {κ : Type} (now : Int) (job : LoaderJob κ) : Bool :=
  match job.notBefore with
  | some t => now < t
  | none => false

structure RunningJob where
  cls : LoaderClass
  cancelled : Bool := false
deriving DecidableEq, Repr

def loaderQueueSize : Nat := 32

structure LoaderLane (κ : Type) where
  queue : List (LoaderJob κ) := []
  running : Option RunningJob := none
  closed : Bool := false
deriving DecidableEq, Repr

inductive LaneAnswer
  | noSession
  | superseded
  | loaderBusy
  | nothing
deriving DecidableEq, Repr

namespace LoaderLane

variable {κ : Type}

def cancelIf (p : LoaderClass → Bool) : Option RunningJob → Option RunningJob
  | some r => if p r.cls then some { r with cancelled := true } else some r
  | none => none

def hasPendingLoad (l : LoaderLane κ) : Bool :=
  (match l.running with
    | some r => r.cls.loads
    | none => false) || l.queue.any fun q => q.cls.loads

def dropLoadsLocked (l : LoaderLane κ) : List (LoaderJob κ) × LoaderLane κ :=
  (l.queue.filter fun q => q.cls.fetches,
    { l with
      queue := l.queue.filter fun q => !q.cls.fetches
      running := cancelIf LoaderClass.fetches l.running })

def makeRoom (cls : LoaderClass) (l : LoaderLane κ) : List (LoaderJob κ) × LoaderLane κ :=
  match cls with
  | .load | .nav => l.dropLoadsLocked
  | .mutate => ([], l)
  | .prefetch =>
    (l.queue.filter fun q => q.cls = .prefetch,
      { l with
        queue := l.queue.filter fun q => !decide (q.cls = .prefetch)
        running := cancelIf (fun c => c = .prefetch) l.running })

def submit (job : LoaderJob κ) (l : LoaderLane κ) :
    List (Option Ticket × LaneAnswer) × LoaderLane κ :=
  if l.closed then ([(job.reply, .noSession)], l)
  else if job.cls = .prefetch ∧ l.hasPendingLoad then ([(job.reply, .nothing)], l)
  else
    let (dropped, l) := l.makeRoom job.cls
    let superseded := dropped.map fun q => (q.reply, LaneAnswer.superseded)
    if l.queue.length ≥ loaderQueueSize then ((job.reply, .loaderBusy) :: superseded, l)
    else (superseded, { l with queue := l.queue ++ [job] })

def dropLoads (l : LoaderLane κ) : List (Option Ticket × LaneAnswer) × LoaderLane κ :=
  if l.closed then ([], l)
  else
    let (dropped, l) := l.dropLoadsLocked
    (dropped.map fun q => (q.reply, .superseded), l)

/-- The index that `next` takes. The clock is read for the head, and again for every mutation that
could go ahead of it. -/
def nextIdx (clock : Nat → Int) (queue : List (LoaderJob κ)) : Option Nat :=
  match queue with
  | [] => none
  | job :: _ =>
    if job.held (clock 0) then
      (queue.zipIdx.find? fun (q, i) => q.cls = .mutate && !q.held (clock (i + 1))).map Prod.snd
    else some 0

def next (clock : Nat → Int) (l : LoaderLane κ) : Option (LoaderJob κ) × LoaderLane κ :=
  if l.closed then (none, l)
  else
    match nextIdx clock l.queue with
    | none => (none, l)
    | some idx =>
      match l.queue[idx]? with
      | none => (none, l)
      | some job =>
        (some job, { l with queue := l.queue.eraseIdx idx, running := some { cls := job.cls } })

def finished (l : LoaderLane κ) : LoaderLane κ := { l with running := none }

def lockClosed (l : LoaderLane κ) : List (LoaderJob κ) × LoaderLane κ :=
  (l.queue, { l with queue := [], closed := true })

end LoaderLane

end Librespot.Daemon
