import Librespot.Base.Run
import Librespot.Audio.ChunkedReader

/-!
# The goroutines of a chunked reader

Any number of `ReadAt` calls and prefetches run at once. One step is what a goroutine does under one
lock, or the end of a download.
-/

namespace Librespot.Audio

/-- Where a goroutine is. `prefetching` is the loop of `prefetchChunks`, the others are places in
`fetchChunk`. -/
inductive Stage where
  | prefetching (next : Nat)
  | locking
  | waiting
  | downloading
  | marking (data : Bytes)
  | checking (data : Bytes)
  | done
deriving DecidableEq, Repr

structure ReadCall where
  len : Nat
  pos : Nat
  rd : Reading
deriving DecidableEq, Repr

/-- A goroutine works on the chunk `idx`, for a call of `ReadAt` or as a prefetch. -/
structure Goroutine where
  idx : Nat
  stage : Stage
  call : Option ReadCall := none
deriving DecidableEq, Repr

structure ReadDone where
  len : Nat
  pos : Nat
  out : Bytes
  err : Option Err
deriving DecidableEq, Repr

/-- What a step of a goroutine does. A broadcast wakes the goroutines that wait for a chunk. -/
structure Outcome where
  reader : HttpChunkedReader
  self : Goroutine
  wakes : Option Nat := none
  spawned : List Goroutine := []
  reads : List ReadDone := []
deriving DecidableEq, Repr

inductive Act where
  | prefetch
  | lock
  | downloaded (response : Response)
  | mark
  | check
deriving DecidableEq, Repr

namespace Goroutine

def follow (r : HttpChunkedReader) (call : ReadCall) : Progress → Outcome
  | .needs rd =>
    { reader := r, self := { idx := rd.chunkIdx, stage := .locking, call := some { call with rd } } }
  | .returns out err =>
    { reader := r
      self := { idx := call.rd.chunkIdx, stage := .done }
      reads := [{ len := call.len, pos := call.pos, out, err }] }

def receive (r : HttpChunkedReader) (res : Except Err Bytes) (g : Goroutine) : Outcome :=
  match g.call with
  | none => { reader := r, self := { g with stage := .done } }
  | some call =>
    match res with
    | .error err => follow r call (call.rd.fail err)
    | .ok chunk => follow r call (call.rd.take r.chunks.length chunk)

def act (r : HttpChunkedReader) (g : Goroutine) : Act → Option Outcome
  | .prefetch =>
    match g.stage, g.call with
    | .prefetching next, some call =>
      if next ≥ g.idx + 1 + prefetchCount ∨ next ≥ r.chunks.length ∨ r.closed then
        some (follow r call (call.rd.next r.chunks.length))
      else some {
        reader := r
        self := { g with stage := .prefetching (next + 1) }
        spawned := [{ idx := next, stage := .locking }] }
    | _, _ => none
  | .lock =>
    match g.stage with
    | .locking => do
      let (found, r) ← r.lockChunk g.idx
      match found with
      | .closed => some (g.receive r (.error errClosed))
      | .present data => some (g.receive r (.ok data))
      | .wait => some { reader := r, self := { g with stage := .waiting } }
      | .fetch => some { reader := r, self := { g with stage := .downloading } }
    | _ => none
  | .downloaded response =>
    match g.stage with
    | .downloading =>
      match r.downloadAndRead g.idx response with
      | .error err => some { g.receive (r.giveUp g.idx) (.error err) with wakes := some g.idx }
      | .ok data => some {
          reader := r.storeChunk g.idx data
          self := { g with stage := .marking data }
          wakes := some g.idx }
    | _ => none
  | .mark =>
    match g.stage with
    | .marking data =>
      some { reader := r.markChunkComplete, self := { g with stage := .checking data } }
    | _ => none
  | .check =>
    match g.stage with
    | .checking data => some (g.receive r (r.checkOpen data))
    | _ => none

def wake (idx : Nat) (g : Goroutine) : Goroutine :=
  if g.stage = .waiting ∧ g.idx = idx then { g with stage := .locking } else g

end Goroutine

structure World where
  reader : HttpChunkedReader
  goroutines : List Goroutine := []
  reads : List ReadDone := []
deriving DecidableEq, Repr

namespace World

/-- `Close` cancels and then broadcasts to each chunk. -/
inductive Label where
  | readAt (len pos : Nat)
  | act (i : Nat) (a : Act)
  | onComplete (cb : Option Nat)
  | cancel
  | broadcast (idx : Nat)
deriving DecidableEq, Repr

def apply (w : World) (i : Nat) (o : Outcome) : World where
  reader := o.reader
  goroutines :=
    (match o.wakes with
      | none => w.goroutines
      | some idx => w.goroutines.map (Goroutine.wake idx)).set i o.self ++ o.spawned
  reads := w.reads ++ o.reads

def step (w : World) : Label → Option World
  | .readAt len pos =>
    match w.reader.startRead len pos with
    | .returns out err => some { w with reads := w.reads ++ [{ len, pos, out, err }] }
    | .needs rd => some { w with
        goroutines := w.goroutines ++ [{
          idx := rd.chunkIdx
          stage := .prefetching (rd.chunkIdx + 1)
          call := some { len, pos, rd } }] }
  | .act i a => do
    let g ← w.goroutines[i]?
    let o ← g.act w.reader a
    some (w.apply i o)
  | .onComplete cb => some { w with reader := w.reader.registerOnComplete cb }
  | .cancel => some { w with reader := { w.reader with closed := true } }
  | .broadcast idx => some { w with goroutines := w.goroutines.map (Goroutine.wake idx) }

end World

end Librespot.Audio
