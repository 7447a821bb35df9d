import Librespot.Base.RingBuffer
import Librespot.Ids

/-!
# The switching audio source (`player/source.go`)

A read that has to wait for a source, or that never returns, gives `none`.
-/

open Base

namespace Librespot.Player

def channels : Nat := 2

def lookaheadHeadroom : Nat := 8 * 1024

def scratchLen : Nat := 8 * 1024

/-- How a source answers one read: with at most `max` samples, with `io.EOF` if they are the last
ones and `eof` is set, or with an error. -/
structure Reply where
  max : Nat
  eof : Bool := false
  fail : Option Err := none
deriving DecidableEq, Repr

/-- `librespot.AudioSource`: the samples still to come and how the next reads are answered. When
the plan has run out, a read fills its buffer. -/
structure AudioSource (S : Type) where
  id : Nat
  samples : List S
  plan : List Reply := []
  /-- The source gives whole frames when there is room for one. -/
  framed : Bool := false
  noCrossfade : Bool := false
deriving DecidableEq, Repr

namespace AudioSource

variable {S : Type}

def give (src : AudioSource S) (max len : Nat) : Nat :=
  let n := min (min max len) src.samples.length
  if src.framed ∧ channels ≤ n then n - n % channels else n

def read (len : Nat) (src : AudioSource S) : List S × Option Err × AudioSource S :=
  if src.samples.isEmpty then ([], some ioEOF, src)
  else
    match src.plan with
    | [] =>
      let n := src.give len len
      (src.samples.take n, none, { src with samples := src.samples.drop n })
    | reply :: plan =>
      let n := src.give reply.max len
      let err := if reply.eof ∧ src.samples.length ≤ n then some ioEOF else none
      (src.samples.take n, reply.fail.or err, { src with samples := src.samples.drop n, plan })

end AudioSource

/-- The arithmetic of a fade on `float32`. The gains are those of `fadePos` samples into a fade of
`fadeTotal`. -/
structure Mixing (S : Type) where
  mul : S → S → S
  add : S → S → S
  gt : S → S → Bool
  maxSampleValue : S
  minusOne : S
  gainOut : Nat → Nat → S
  gainIn : Nat → Nat → S

def Mixing.clamp {S : Type} (m : Mixing S) (sample : S) : S :=
  if m.gt sample m.maxSampleValue then m.maxSampleValue
  else if m.gt m.minusOne sample then m.minusOne
  else sample

def Mixing.mix {S : Type} (m : Mixing S) (pos total : Nat) (out : S) (inn : Option S) : S :=
  let sample := m.mul out (m.gainOut pos total)
  match inn with
  | some s => m.clamp (m.add sample (m.mul s (m.gainIn pos total)))
  | none => m.clamp sample

/-! ## The switching source -/

/-- The lookahead ring `buf`, `bufStart`, `bufLen` is one field. -/
structure SwitchingAudioSource (S : Type) where
  source : Bool → Option (AudioSource S) := fun _ => none
  which : Bool := false
  done : Bool := false
  eofReported : Bool := false
  crossfadeSamples : Nat
  buf : RingBuffer S
  primaryEOF : Bool := false
  pendingErr : Option Err := none
  fading : Bool := false
  fadeTotal : Nat := 0
  fadePos : Nat := 0

/-- What a read returns, whether it sent the done signal, and the length of the tail if it began a
fade. -/
structure ReadResult (S : Type) where
  data : List S := []
  err : Option Err := none
  signalled : Bool := false
  fadeStart : Option Nat := none
deriving DecidableEq, Repr

namespace SwitchingAudioSource

variable {S : Type}

def newSwitchingAudioSource (zero : S) (crossfadeSamples : Int) : SwitchingAudioSource S :=
  let samples := crossfadeSamples.toNat
  let samples := samples - samples % channels
  { crossfadeSamples := samples
    buf :=
      if samples > 0 then RingBuffer.ofCells (List.replicate (samples + lookaheadHeadroom) zero)
      else RingBuffer.ofCells [] }

def setSource (slot : Bool) (src : Option (AudioSource S)) (s : SwitchingAudioSource S) :
    SwitchingAudioSource S :=
  { s with source := Function.update s.source slot src }

def finishFade (s : SwitchingAudioSource S) : SwitchingAudioSource S :=
  { s with
    fading := false, fadeTotal := 0, fadePos := 0, buf := s.buf.reset, primaryEOF := false }

def resetCrossfade (s : SwitchingAudioSource S) : SwitchingAudioSource S :=
  if s.crossfadeSamples = 0 then s else { s with pendingErr := none }.finishFade

def sameSource (a b : Option (AudioSource S)) : Bool := a.map (·.id) = b.map (·.id)

def setPrimary (src : AudioSource S) (s : SwitchingAudioSource S) : SwitchingAudioSource S :=
  let s :=
    if sameSource (s.source s.which) (some src) then s
    else s.resetCrossfade.setSource s.which (some src)
  let s :=
    if sameSource (s.source !s.which) (some src) then s.setSource (!s.which) none else s
  { s with eofReported := false }

def setSecondary (src : AudioSource S) (s : SwitchingAudioSource S) : SwitchingAudioSource S :=
  s.setSource (!s.which) (some src)

/-- What the source has to give from the new position on, or why it cannot be sought. The position
itself is the source's own business. -/
def setPositionMs (answer : Except Err (List S × List Reply)) (s : SwitchingAudioSource S) :
    Option Err × SwitchingAudioSource S :=
  match s.source s.which with
  | none => (none, s)
  | some src =>
    let s := s.resetCrossfade
    match answer with
    | .error err => (some err, s)
    | .ok (samples, plan) =>
      let s := s.setSource s.which (some { src with samples, plan })
      -- A seek revives a source whose end has been reported, but only when there is a crossfade.
      (none, if s.crossfadeSamples > 0 then { s with eofReported := false } else s)

/-- The signal is dropped when nobody has taken the last one. Also tells whether it was sent. -/
def reportDone (s : SwitchingAudioSource S) : Bool × SwitchingAudioSource S :=
  if s.eofReported then (false, s)
  else (!s.done, { s with eofReported := true, done := true })

def switchOver (s : SwitchingAudioSource S) : SwitchingAudioSource S :=
  { s.setSource s.which none with which := !s.which }

def readDirect (len : Nat) (s : SwitchingAudioSource S) :
    Option (ReadResult S × SwitchingAudioSource S) := do
  let src ← s.source s.which
  let (data, err, src) := src.read len
  let s := s.setSource s.which (some src)
  match err with
  | none => some ({ data }, s)
  | some err =>
    if err.isEOF then
      let (signalled, s) := s.reportDone
      if (s.source !s.which).isNone then some ({ data, err := some err, signalled }, s)
      else some ({ data, signalled }, s.switchOver)
    else some ({ data, err := some err }, s)

/-! ## Reading ahead -/

def fill : Nat → Int → SwitchingAudioSource S → Option (SwitchingAudioSource S)
  | 0, _, _ => none
  | k + 1, budget, s =>
    if s.primaryEOF = false ∧ s.pendingErr = none ∧ s.buf.len < s.buf.cap ∧
        (s.buf.len = 0 ∨ budget > 0) then do
      let src ← s.source s.which
      let (data, err, src) := src.read (min s.buf.freeLen scratchLen)
      let s := { s.setSource s.which (some src) with buf := s.buf.write data }
      match err with
      | none => fill k (budget - data.length) s
      | some err =>
        if err.isEOF then
          fill k (budget - data.length) { s with
            buf := s.buf.truncate (s.buf.len - s.buf.len % channels), primaryEOF := true }
        else fill k (budget - data.length) { s with pendingErr := some err }
    else some s

/-- Every read of the loop uses up a reply or gives a sample, or ends the source. -/
def fillFuel (s : SwitchingAudioSource S) : Nat :=
  match s.source s.which with
  | none => 1
  | some src => src.plan.length + src.samples.length + 2

def popChunk (len limit : Nat) (s : SwitchingAudioSource S) : List S × SwitchingAudioSource S :=
  let want := min (min len limit) s.buf.len
  let (data, buf) := s.buf.pop (want - want % channels)
  (data, { s with buf })

def readIncoming (want : Nat) (s : SwitchingAudioSource S) :
    List S × Option Err × SwitchingAudioSource S :=
  match s.source s.which with
  | none => ([], none, s)
  | some src =>
    let (data, err, src) := src.read want
    (data.take (data.length - data.length % channels), err, s.setSource s.which (some src))

def mixChunk (m : Mixing S) (inn : List S) (chunk : Nat) (s : SwitchingAudioSource S) :
    Option (List S) :=
  (List.range chunk).mapM fun i => do
    let out ← s.buf.cell i
    some (m.mix (s.fadePos + (i - i % channels)) s.fadeTotal out inn[i]?)

def readFade (m : Mixing S) (len : Nat) (s : SwitchingAudioSource S) :
    Option (ReadResult S × SwitchingAudioSource S) :=
  let want := min (min len (s.fadeTotal - s.fadePos)) scratchLen
  let want := want - want % channels
  if want = 0 then some ({}, s.finishFade)
  else
    let (inn, err, s) := s.readIncoming want
    if err.any (!·.isEOF) then some ({ err }, s)
    else do
      let chunk := if inn.length > 0 then inn.length else want
      let data ← s.mixChunk m inn chunk
      let s := { s with buf := s.buf.advance chunk, fadePos := s.fadePos + chunk }
      some ({ data }, if s.fadePos ≥ s.fadeTotal then s.finishFade else s)

def readTail (m : Mixing S) (len : Nat) (s : SwitchingAudioSource S) :
    Option (ReadResult S × SwitchingAudioSource S) :=
  if (s.source !s.which).isSome then
    if s.buf.len > s.crossfadeSamples then
      let (data, s) := s.popChunk len (s.buf.len - s.crossfadeSamples)
      some ({ data }, s)
    else do
      let (signalled, s) := s.reportDone
      let s := { s.switchOver with fading := true, fadeTotal := s.buf.len, fadePos := 0 }
      let (result, s') ← s.readFade m len
      some ({ result with signalled, fadeStart := some s.fadeTotal }, s')
  else if s.buf.len = 0 then
    let (signalled, s) := s.reportDone
    some ({ err := some ioEOF, signalled }, s)
  else
    let (data, s) := s.popChunk len s.buf.len
    if s.buf.len = 0 then
      let (signalled, s) := s.reportDone
      some ({ data, err := some ioEOF, signalled }, s)
    else some ({ data }, s)

def readCrossfade (m : Mixing S) (len : Nat) (s : SwitchingAudioSource S) :
    Option (ReadResult S × SwitchingAudioSource S) :=
  if s.fading then s.readFade m len
  else if (s.source s.which).isNone ∧ ¬ (s.primaryEOF = true ∧ s.buf.len > 0) then none
  else do
    let s ← fill s.fillFuel (2 * scratchLen) s
    if s.primaryEOF then s.readTail m len
    else
      match s.pendingErr with
      | none =>
        -- Only what lies above the reserve is served, or all there is while the reserve builds up.
        let limit :=
          if s.buf.len > s.crossfadeSamples then s.buf.len - s.crossfadeSamples
          else min s.buf.len len
        let (data, s) := s.popChunk len limit
        some ({ data }, s)
      | some err =>
        if s.buf.len > 0 then
          let (data, s) := s.popChunk len s.buf.len
          some ({ data }, s)
        else some ({ err := some err }, { s with pendingErr := none })

def primaryDeclinesCrossfade (s : SwitchingAudioSource S) : Bool :=
  if s.fading ∨ s.buf.len > 0 ∨ s.primaryEOF then false
  else (s.source s.which).any (·.noCrossfade)

def read (m : Mixing S) (len : Nat) (s : SwitchingAudioSource S) :
    Option (ReadResult S × SwitchingAudioSource S) :=
  if s.crossfadeSamples = 0 ∨ s.primaryDeclinesCrossfade then s.readDirect len
  else s.readCrossfade m len

end SwitchingAudioSource

end Librespot.Player
