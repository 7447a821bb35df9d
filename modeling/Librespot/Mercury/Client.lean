import Librespot.Ap.Exchange
import Librespot.Base.Pump

/-!
# Mercury requests (`mercury/client.go`)

The marshalling of headers is a parameter. The fields of a request are given in the order in which
the loop over the map happens to visit them. A reply is kept together with the packet it was made
from.
-/

open Base

namespace Librespot.Mercury

open Ap

structure MercuryUserField where
  key : String
  value : Bytes
deriving DecidableEq, Repr

structure MercuryHeader where
  method : String := ""
  uri : String := ""
  statusCode : Option Int := none
  userFields : List MercuryUserField := []
deriving DecidableEq, Repr

structure HermesRequest where
  header : MercuryHeader
  parts : List Bytes
deriving DecidableEq, Repr

structure HermesResponse where
  header : Option MercuryHeader := none
  parts : List Bytes := []
  err : Option Err := none
deriving DecidableEq, Repr

structure Proto where
  marshal : MercuryHeader → Except Err Bytes
  unmarshal : Bytes → Except Err MercuryHeader

/-- The loop over the payload, from the offset `i`. It runs at most once for each byte. -/
def partsFrom (payload : Bytes) : Nat → Nat → List Bytes
  | 0, _ => []
  | fuel + 1, i =>
    if i < payload.length then
      (payload.take (min payload.length (i + 0xffff))).drop i ::
        partsFrom payload fuel (i + 0xffff)
    else []

def newRequest (method uri : String) (fields : List (String × Bytes)) (payload : Bytes) :
    HermesRequest where
  header := { method, uri, userFields := fields.map fun (key, value) => { key, value } }
  parts := partsFrom payload payload.length 0

def uint16 (n : Nat) : Bytes := Numeral.toBytes 2 (n % 2 ^ 16)

def framePart (part : Bytes) : Bytes := uint16 part.length ++ part

def requestBytes (reqSeq : UInt64) (headerBytes : Bytes) (parts : List Bytes) : Bytes :=
  uint16 8 ++ (Numeral.toBytes 8 reqSeq.toNat ++ (1 :: (uint16 (1 + parts.length) ++
    (framePart headerBytes ++ parts.flatMap framePart))))

def readSeq (r : Bytes) : Option (UInt64 × Bytes) :=
  let (seqLen, r) := readUint 2 r
  if seqLen = 8 ∨ seqLen = 4 ∨ seqLen = 2 then
    let (respSeq, r) := readUint seqLen r
    some (UInt64.ofNat respSeq, r)
  else none

def readParts : Nat → Bytes → List Bytes
  | 0, _ => []
  | count + 1, r =>
    let (partLen, r) := readUint 2 r
    (r.take partLen ++ List.replicate (partLen - r.length) 0) :: readParts count (r.drop partLen)

def response (P : Proto) : List Bytes → HermesResponse
  | [] => { err := some { text := "received empty mercury response" } }
  | headerBytes :: parts =>
    match P.unmarshal headerBytes with
    | .error err => { err := some (err.wrap "failed unmarshaling mercury header: ") }
    | .ok header => { header := some header, parts }

/-- The variables of `recvLoop` and the calls it has taken. `wire` is what the accesspoint has
taken to send. -/
structure Client where
  seq : UInt64 := 0
  reqs : Pump HermesRequest UInt64 (HermesResponse × Option Packet) := {}
  wire : List Bytes := []

/-- A `Request` that has reached the loop, a packet, or a caller that gets its response or gives
up. Other goroutines send over the connection too, so a request comes with it as it is then. -/
inductive Op (σ : Type) where
  | request (req : HermesRequest) (net : Net) (conn : ShannonConn σ)
  | packet (pkt : Packet)
  | collect (call : Nat)
  | leave (call : Nat)

variable {σ : Type}

namespace Client

def handlePacket (P : Proto) (c : Client) (pkt : Packet) : Client :=
  if pkt.type ≠ packetTypeMercuryReq then c
  else
    match readSeq pkt.payload with
    | none => c
    | some (respSeq, r) =>
      let (flags, r) := readUint 1 r
      if flags ≠ 1 then c
      else
        let (partsCount, r) := readUint 2 r
        { c with reqs := c.reqs.answer respSeq (response P (readParts partsCount r), some pkt) }

def handleRequest (C : Cipher σ) (P : Proto) (c : Client) (req : HermesRequest) (net : Net)
    (conn : ShannonConn σ) : Client :=
  let reqSeq := c.seq
  let c := { c with seq := c.seq + 1 }
  match P.marshal req.header with
  | .error err =>
    let err := err.wrap "failed marshaling mercury header: "
    { c with reqs := c.reqs.refuse req reqSeq ({ err := some err }, none) }
  | .ok headerBytes =>
    let buf := requestBytes reqSeq headerBytes req.parts
    let c := { c with reqs := c.reqs.enter req reqSeq }
    match (send C net packetTypeMercuryReq buf conn).1 with
    | .error err =>
      let err := err.wrap "failed sending mercury request: "
      { c with reqs := c.reqs.answer reqSeq ({ err := some err }, none) }
    | .ok () => { c with wire := c.wire ++ [buf] }

def step (C : Cipher σ) (P : Proto) (c : Client) : Op σ → Option Client
  | .request req net conn =>
    if c.reqs.stuck then none else some (c.handleRequest C P req net conn)
  | .packet pkt => if c.reqs.stuck then none else some (c.handlePacket P pkt)
  | .collect call => (c.reqs.collect call).map fun reqs => { c with reqs }
  | .leave call => (c.reqs.leave call).map fun reqs => { c with reqs }

end Client

end Librespot.Mercury
