import Librespot.Ids

/-!
# The chunked reader (`audio/chunked-reader.go`)

The parts of a call that run under one lock are one definition each, so that the same definitions
make up a call that runs alone and the steps of goroutines that run together. Where the Go code
panics or would wait for another goroutine, the definition gives `none`. An `int` has 64 bits.
-/

namespace Librespot.Audio

def defaultChunkSize : Nat := 512 * 1024

def prefetchCount : Nat := 3

def errClosed : Err := { text := "use of closed network connection" }

structure ChunkItem where
  data : Option Bytes := none
  fetching : Bool := false
deriving DecidableEq, Repr

/-- The context is only asked whether it has been cancelled. A callback stands for a function. -/
structure HttpChunkedReader where
  chunks : List ChunkItem
  len : Nat
  pos : Nat := 0
  closed : Bool := false
  completedChunks : Nat
  onComplete : Option Nat := none
  onCompleteFired : Bool := false
  /-- The callbacks that have been started and the size that each was given. -/
  fired : List (Nat × Nat) := []
deriving DecidableEq, Repr

/-- How a download ends: with the body of a 206 response, with the error of the last attempt, or
with a body that breaks off. -/
inductive Response where
  | partialContent (body : Bytes)
  | failed (err : Err)
  | broken (err : Err)
deriving DecidableEq, Repr

namespace HttpChunkedReader

def requestedRange (len idx : Nat) : Nat × Nat :=
  (idx * defaultChunkSize,
    min (max len defaultChunkSize) ((idx + 1) * defaultChunkSize) - 1)

def newHttpChunkedReader (size : Nat) (first : Response) : Option (Except Err HttpChunkedReader) :=
  match first with
  | .failed err => some (.error (err.wrap "failed requesting first chunk: "))
  | .broken err =>
    if size = 0 then none else some (.error (err.wrap "failed reading first chunk: "))
  | .partialContent body =>
    let totalChunks := (size + defaultChunkSize - 1) / defaultChunkSize
    -- There is no chunk to put the body in.
    if totalChunks = 0 then none
    else some (.ok {
      chunks := { data := some body } :: List.replicate (totalChunks - 1) {}
      len := size
      completedChunks := 1 })

def maybeFireComplete (r : HttpChunkedReader) : HttpChunkedReader :=
  if r.onCompleteFired then r
  else
    match r.onComplete with
    | none => r
    | some cb =>
      if r.completedChunks < r.chunks.length then r
      else { r with onCompleteFired := true, fired := r.fired ++ [(cb, r.len)] }

def registerOnComplete (cb : Option Nat) (r : HttpChunkedReader) : HttpChunkedReader :=
  { r with onComplete := cb }.maybeFireComplete

def markChunkComplete (r : HttpChunkedReader) : HttpChunkedReader :=
  { r with completedChunks := r.completedChunks + 1 }.maybeFireComplete

/-! ## Fetching a chunk -/

def updateChunk (idx : Nat) (f : ChunkItem → ChunkItem) (r : HttpChunkedReader) :
    HttpChunkedReader :=
  { r with chunks := r.chunks.modify idx f }

inductive Locked where
  | closed
  | present (data : Bytes)
  | fetch
  | wait
deriving DecidableEq, Repr

def lockChunk (idx : Nat) (r : HttpChunkedReader) : Option (Locked × HttpChunkedReader) := do
  let chunk ← r.chunks[idx]?
  if r.closed then some (.closed, r)
  else
    match chunk.data with
    | some data => some (.present data, r)
    | none =>
      if chunk.fetching then some (.wait, r)
      else some (.fetch, r.updateChunk idx fun chunk => { chunk with fetching := true })

def closeErr (err : Err) (r : HttpChunkedReader) : Err := if r.closed then errClosed else err

def downloadAndRead (idx : Nat) (response : Response) (r : HttpChunkedReader) : Except Err Bytes :=
  match response with
  | .failed err => .error ((r.closeErr err).wrap ("failed downloading chunk " ++ toString idx ++ ": "))
  | .broken err => .error ((r.closeErr err).wrap ("failed reading chunk " ++ toString idx ++ ": "))
  | .partialContent body => .ok body

def giveUp (idx : Nat) (r : HttpChunkedReader) : HttpChunkedReader :=
  r.updateChunk idx fun chunk => { chunk with fetching := false }

def storeChunk (idx : Nat) (data : Bytes) (r : HttpChunkedReader) : HttpChunkedReader :=
  r.updateChunk idx fun _ => { data := some data, fetching := false }

def checkOpen (data : Bytes) (r : HttpChunkedReader) : Except Err Bytes :=
  if r.closed then .error errClosed else .ok data

/-- A fetch that no other goroutine gets in the way of. The response is used if there has to be a
download. -/
def fetchChunk (response : Response) (idx : Nat) (r : HttpChunkedReader) :
    Option (Except Err Bytes × HttpChunkedReader) := do
  let (found, r) ← r.lockChunk idx
  match found with
  | .closed => some (.error errClosed, r)
  | .present data => some (.ok data, r)
  | .wait => none
  | .fetch =>
    match r.downloadAndRead idx response with
    | .error err => some (.error err, r.giveUp idx)
    | .ok data =>
      let r := (r.storeChunk idx data).markChunkComplete
      some (r.checkOpen data, r)

end HttpChunkedReader

/-- The local variables of `ReadAt`: the rest of the buffer has room for `want` bytes, and `out` has
been copied. -/
structure Reading where
  chunkIdx : Nat
  off : Nat
  want : Nat
  out : Bytes := []
deriving DecidableEq, Repr

/-- The loop of `ReadAt` either needs the next chunk or returns. -/
inductive Progress where
  | needs (rd : Reading)
  | returns (out : Bytes) (err : Option Err)
deriving DecidableEq, Repr

def Reading.next (total : Nat) (rd : Reading) : Progress :=
  if rd.want = 0 then .returns rd.out none
  else if rd.chunkIdx ≥ total then .returns rd.out (some ioEOF)
  else .needs rd

def Reading.take (total : Nat) (chunk : Bytes) (rd : Reading) : Progress :=
  let c := chunk.drop (min rd.off chunk.length)
  if c.length > rd.want then .returns (rd.out ++ c.take rd.want) none
  else
    Reading.next total
      { chunkIdx := rd.chunkIdx + 1, off := 0, want := rd.want - c.length, out := rd.out ++ c }

def Reading.fail (err : Err) (rd : Reading) : Progress :=
  .returns rd.out (some (err.wrap ("failed reading chunk " ++ toString rd.chunkIdx ++ ": ")))

namespace HttpChunkedReader

def startRead (len pos : Nat) (r : HttpChunkedReader) : Progress :=
  if r.closed then .returns [] (some errClosed)
  else if pos / defaultChunkSize ≥ r.chunks.length then .returns [] (some ioEOF)
  else .needs { chunkIdx := pos / defaultChunkSize, off := pos % defaultChunkSize, want := len }

/-- The loop of a `ReadAt` that runs alone. The first argument bounds the number of chunks. -/
def readLoop (download : Nat → Response) : Nat → Progress → HttpChunkedReader →
    Option ((Bytes × Option Err) × HttpChunkedReader)
  | _, .returns out err, r => some ((out, err), r)
  | 0, .needs _, _ => none
  | k + 1, .needs rd, r => do
    let (res, r) ← r.fetchChunk (download rd.chunkIdx) rd.chunkIdx
    match res with
    | .error err => readLoop download k (rd.fail err) r
    | .ok chunk => readLoop download k (rd.take r.chunks.length chunk) r

/-- A `ReadAt` that runs alone. A prefetch is a fetch of a goroutine of its own. -/
def readAt (download : Nat → Response) (len pos : Nat) (r : HttpChunkedReader) :
    Option ((Bytes × Option Err) × HttpChunkedReader) :=
  match r.startRead len pos with
  | .returns out err => some ((out, err), r)
  | .needs rd => readLoop download (r.chunks.length + 1) (rd.next r.chunks.length) r

def read (download : Nat → Response) (len : Nat) (r : HttpChunkedReader) :
    Option ((Bytes × Option Err) × HttpChunkedReader) := do
  let ((out, err), r) ← r.readAt download len r.pos
  some ((out, err), { r with pos := r.pos + out.length })

/-- The check that each case of `Seek` makes. A sum that overflows is refused, like the sum
itself. -/
def seekTo (target : Int) (r : HttpChunkedReader) : Except Err Int × HttpChunkedReader :=
  if target < 0 ∨ target ≥ r.len then (.error { text := "invalid seek position" }, r)
  else (.ok target, { r with pos := target.toNat })

/-- `whence` is 0 for `io.SeekStart`, 1 for `io.SeekCurrent` and 2 for `io.SeekEnd`. -/
def seek (offset : Int) (whence : Nat) (r : HttpChunkedReader) :
    Option (Except Err Int × HttpChunkedReader) :=
  match whence with
  | 0 => some (r.seekTo offset)
  | 1 => some (r.seekTo (r.pos + offset))
  | 2 => some (r.seekTo (r.len + offset))
  | _ => none

/-! ## Saving the whole file -/

/-- `io.Copy` from an `io.SectionReader` over the first `size` bytes, with a buffer of `buf` bytes.
The first argument bounds the number of reads. -/
def copySection (download : Nat → Response) (buf size : Nat) : Nat → Nat → HttpChunkedReader →
    Option ((Bytes × Option Err) × HttpChunkedReader)
  | 0, _, _ => none
  | k + 1, off, r =>
    if off ≥ size then some (([], none), r)
    else do
      let ((out, err), r) ← r.readAt download (min buf (size - off)) off
      match err with
      | some err => some ((out, if err = ioEOF then none else some err), r)
      | none => do
        let ((rest, err), r) ← copySection download buf size k (off + out.length) r
        some ((out ++ rest, err), r)

def saved (download : Nat → Response) (buf : Nat) (r : HttpChunkedReader) :
    Option ((Bytes × Option Err) × HttpChunkedReader) :=
  copySection download buf r.len (r.len + 1) 0 r

end HttpChunkedReader

end Librespot.Audio
