import Librespot.Ap.Shannon

/-!
# Requests and replies over an accesspoint (`ap/ap.go`)

What a goroutine that sends requests and reads their replies takes from the accesspoint.
-/

open Base

namespace Librespot.Ap

def packetTypeRequestKey : PacketType := 0x0c
def packetTypeAesKey : PacketType := 0x0d
def packetTypeAesKeyError : PacketType := 0x0e
def packetTypeMercuryReq : PacketType := 0xb2

structure Packet where
  type : PacketType
  payload : Bytes
deriving DecidableEq, Repr

def errAccesspointClosed : Err := { text := "accesspoint closed" }

/-- What happens around a `Send`: whether the accesspoint is closed before it and after it, and the
error of the write. -/
structure Net where
  closed : Bool := false
  writeErr : Option Err := none
  closedAfter : Bool := false
deriving DecidableEq, Repr

variable {σ : Type}

def send (C : Cipher σ) (net : Net) (pktType : PacketType) (payload : Bytes) (c : ShannonConn σ) :
    Except Err Unit × ShannonConn σ :=
  if net.closed then (.error errAccesspointClosed, c)
  else
    match c.sendPacket C pktType payload with
    | (.error err, c) => (.error (if net.closedAfter then errAccesspointClosed else err), c)
    | (.ok (), c) =>
      match net.writeErr with
      | some err => (.error (if net.closedAfter then errAccesspointClosed else err), c)
      | none => (.ok (), c)

theorem length_le_of_send {C : Cipher σ} {net : Net} {pktType : PacketType} {payload : Bytes}
    {c : ShannonConn σ} (h : (send C net pktType payload c).1 = .ok ()) :
    payload.length ≤ 65535 := by
  by_contra hlong
  have hsend : c.sendPacket C pktType payload =
      (.error { text := "payload too big: " ++ toString payload.length }, c) :=
    if_pos (Nat.lt_of_not_le hlong)
  unfold send at h
  rw [hsend] at h
  split at h <;> simp at h

/-! ## Reading numbers -/

/-- `binary.Read` of an unsigned number of `k` bytes with its error ignored. What is left of a
reader that is too short is lost. -/
def readUint (k : Nat) (r : Bytes) : Nat × Bytes :=
  if k ≤ r.length then (Numeral.ofBytes (r.take k), r.drop k) else (0, [])

theorem readUint_short {k : Nat} {r : Bytes} (h : r.length < k) : readUint k r = (0, []) :=
  if_neg (Nat.not_le_of_lt h)

end Librespot.Ap
