import Librespot.Base.Numeral
import Librespot.Base.Run
import Librespot.Base.StreamCipher
import Librespot.Ids

/-!
# Packets over an encrypted connection (`ap/shannon.go`)

The cipher is a parameter. A connection is the pieces in which the transport hands over what the
other side has sent, up to the end of the stream. A write takes everything.
-/

open Base

namespace Librespot.Ap

abbrev PacketType := UInt8

abbrev Cipher (σ : Type) := StreamCipher σ UInt8

structure ShannonConn (σ : Type) where
  conn : List Bytes := []
  written : List Bytes := []
  sendCipher : σ
  sendNonce : UInt32 := 0
  recvCipher : σ
  recvNonce : UInt32 := 0
  unreadBytes : Bytes := []

/-- `io.ReadFull` with a buffer of `count` bytes. What has been read before the stream ends is
lost. -/
def readFull (count : Nat) : List Bytes → Except Err Bytes × List Bytes
  | [] => if count = 0 then (.ok [], []) else (.error ioEOF, [])
  | piece :: conn =>
    if count ≤ piece.length then (.ok (piece.take count), piece.drop count :: conn)
    else
      match readFull (count - piece.length) conn with
      | (.ok rest, conn) => (.ok (piece ++ rest), conn)
      | (.error err, conn) => (.error (if piece = [] then err else ioErrUnexpectedEOF), conn)

namespace ShannonConn

variable {σ : Type} (C : Cipher σ)

def sendPacket (pktType : PacketType) (payload : Bytes) (c : ShannonConn σ) :
    Except Err Unit × ShannonConn σ :=
  if payload.length > 65535 then
    (.error { text := "payload too big: " ++ toString payload.length }, c)
  else
    let packet := pktType :: (Numeral.toBytes 2 payload.length ++ payload)
    let s := C.nonce c.sendNonce c.sendCipher
    let (packet, s) := C.encrypt packet s
    let (mac, s) := C.finish s
    (.ok (), { c with
      sendCipher := s
      sendNonce := c.sendNonce + 1
      written := c.written ++ [packet, mac] })

def peekUnencrypted (count : Nat) (c : ShannonConn σ) :
    Option (Except Err Bytes × ShannonConn σ) :=
  if c.unreadBytes.length > 0 then none
  else
    match readFull count c.conn with
    | (.error err, conn) => some (.error (err.wrap "failed peeking uncrypted: "), { c with conn })
    | (.ok buf, conn) => some (.ok buf, { c with conn, unreadBytes := buf })

/-- `io.ReadFull` on the peeked bytes and then on the connection. What is left of the peeked bytes
is put back when the packet has been received, also after an error. -/
def readUnread (count : Nat) (c : ShannonConn σ) : Except Err Bytes × ShannonConn σ :=
  if count ≤ c.unreadBytes.length then
    (.ok (c.unreadBytes.take count), { c with unreadBytes := c.unreadBytes.drop count })
  else
    match readFull (count - c.unreadBytes.length) c.conn with
    | (.ok rest, conn) => (.ok (c.unreadBytes ++ rest), { c with conn, unreadBytes := [] })
    | (.error err, conn) =>
      (.error (if c.unreadBytes = [] then err else ioErrUnexpectedEOF),
        { c with conn, unreadBytes := [] })

def decrypt (data : Bytes) (c : ShannonConn σ) : Bytes × ShannonConn σ :=
  let (data, s) := C.decrypt data c.recvCipher
  (data, { c with recvCipher := s })

def receivePacket (c : ShannonConn σ) : Except Err (PacketType × Bytes) × ShannonConn σ :=
  let c := { c with
    recvCipher := C.nonce c.recvNonce c.recvCipher
    recvNonce := c.recvNonce + 1 }
  match c.readUnread 3 with
  | (.error err, c) => (.error (err.wrap "failed reading packet header: "), c)
  | (.ok packetHeader, c) =>
    let (packetHeader, c) := c.decrypt C packetHeader
    let payloadLen := Numeral.ofBytes ((packetHeader.drop 1).take 2)
    match c.readUnread payloadLen with
    | (.error err, c) => (.error (err.wrap "failed reading packet payload: "), c)
    | (.ok payload, c) =>
      let (payload, c) := c.decrypt C payload
      match c.readUnread 4 with
      | (.error err, c) => (.error (err.wrap "failed reading packet mac: "), c)
      | (.ok expectedMac, c) =>
        let (ok, s) := C.checkMac expectedMac c.recvCipher
        let c := { c with recvCipher := s }
        if ok then (.ok (packetHeader.headD 0, payload), c)
        else (.error { text := "invalid packet mac" }, c)

end ShannonConn

end Librespot.Ap
