import Librespot.Ap.Exchange
import Librespot.Base.Hex
import Librespot.Base.Pump

/-!
# Audio keys (`audio/provider.go`)

A reply is kept together with the packet it was made from. Where the Go code panics, the step is
`none`.
-/

open Base

namespace Librespot.Audio

open Ap
open Base.Hex (hexEncode)

structure KeyRequest where
  gid : Bytes
  fileId : Bytes
deriving DecidableEq, Repr

/-- A `KeyProviderError` is what the other side refuses with. -/
inductive KeyError where
  | refused (code : Nat)
  | other (err : Err)
deriving DecidableEq, Repr

structure KeyResponse where
  key : Bytes := []
  err : Option KeyError := none
deriving DecidableEq, Repr

/-- The variables of `recvLoop` and the calls it has taken. -/
structure KeyProvider where
  seq : UInt32 := 0
  reqs : Pump KeyRequest UInt32 (KeyResponse × Option Packet) := {}

/-- A `Request` that has reached the loop, a packet, or a caller that gets its response or gives
up. Other goroutines send over the connection too, so a request comes with it as it is then. -/
inductive KeyOp (σ : Type) where
  | request (req : KeyRequest) (net : Net) (conn : ShannonConn σ)
  | packet (pkt : Packet)
  | collect (call : Nat)
  | leave (call : Nat)

def keyRequestBytes (req : KeyRequest) (reqSeq : UInt32) : Bytes :=
  req.fileId ++ req.gid ++ Numeral.toBytes 4 reqSeq.toNat ++ Numeral.toBytes 2 0

def keyResponse (respSeq : UInt32) (r : Bytes) : KeyResponse :=
  if 16 ≤ r.length then { key := r.take 16 }
  else
    let err := if r.isEmpty then ioEOF else ioErrUnexpectedEOF
    { err := some (.other (err.wrap
      ("malformed aes key response for sequence " ++ toString respSeq ++ ": "))) }

variable {σ : Type}

namespace KeyProvider

def handlePacket (p : KeyProvider) (pkt : Packet) : Option KeyProvider :=
  let (respSeq, r) := readUint 4 pkt.payload
  let respSeq := UInt32.ofNat respSeq
  if p.reqs.pending respSeq = none then some p
  else if pkt.type = packetTypeAesKey then
    some { p with reqs := p.reqs.answer respSeq (keyResponse respSeq r, some pkt) }
  else if pkt.type = packetTypeAesKeyError then
    let (errCode, _) := readUint 2 r
    some { p with reqs := p.reqs.answer respSeq ({ err := some (.refused errCode) }, some pkt) }
  else none

def handleRequest (C : Ap.Cipher σ) (p : KeyProvider) (req : KeyRequest) (net : Net)
    (conn : ShannonConn σ) : Option KeyProvider :=
  let reqSeq := p.seq
  let p := { p with seq := p.seq + 1, reqs := p.reqs.enter req reqSeq }
  (gidToBase62 req.gid).map fun gid =>
    match (send C net packetTypeRequestKey (keyRequestBytes req reqSeq) conn).1 with
    | .error err =>
      let err := err.wrap ("failed sending key request for file " ++ hexEncode req.fileId ++
        ", gid: " ++ gid ++ ": ")
      { p with reqs := p.reqs.answer reqSeq ({ err := some (.other err) }, none) }
    | .ok () => p

def step (C : Ap.Cipher σ) (p : KeyProvider) : KeyOp σ → Option KeyProvider
  | .request req net conn => if p.reqs.stuck then none else p.handleRequest C req net conn
  | .packet pkt => if p.reqs.stuck then none else p.handlePacket pkt
  | .collect call => (p.reqs.collect call).map fun reqs => { p with reqs }
  | .leave call => (p.reqs.leave call).map fun reqs => { p with reqs }

end KeyProvider

end Librespot.Audio
