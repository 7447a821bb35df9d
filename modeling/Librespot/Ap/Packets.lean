import Librespot.Ap.Shannon

/-! # Packets come out as they went in -/

open Base Base.Run List Option

namespace Librespot.Ap

open Numeral ShannonConn

variable {count : Nat}

theorem readFull_ok {conn : List Bytes} (h : count ≤ conn.flatten.length) :
    ∃ conn', readFull count conn = (.ok (conn.flatten.take count), conn') ∧
      conn'.flatten = conn.flatten.drop count := by
  induction conn generalizing count with
  | nil =>
    obtain rfl : count = 0 := by simpa using h
    exact ⟨[], rfl, rfl⟩
  | cons piece conn ih =>
    rw [flatten_cons, length_append] at h
    unfold readFull
    by_cases hle : count ≤ piece.length
    · refine ⟨piece.drop count :: conn, ?_, ?_⟩
      · rw [if_pos hle, flatten_cons, take_append_of_le_length hle]
      · rw [flatten_cons, flatten_cons, drop_append_of_le_length hle]
    · have hcount : count - piece.length ≤ conn.flatten.length := by omega
      obtain ⟨conn', hread, hrest⟩ := ih hcount
      refine ⟨conn', ?_, ?_⟩
      · rw [if_neg hle, hread, flatten_cons, take_append, take_of_length_le (Nat.le_of_not_le hle)]
      · rw [hrest, flatten_cons, drop_append, drop_eq_nil_of_le (Nat.le_of_not_le hle), nil_append]

theorem readFull_short {conn : List Bytes} (h : conn.flatten.length < count) :
    ∃ err, readFull count conn = (.error err, []) := by
  induction conn generalizing count with
  | nil => exact ⟨ioEOF, if_neg (Nat.ne_of_gt h)⟩
  | cons piece conn ih =>
    rw [flatten_cons, length_append] at h
    have hcount : conn.flatten.length < count - piece.length := by omega
    obtain ⟨err, hread⟩ := ih hcount
    refine ⟨if piece = [] then err else ioErrUnexpectedEOF, ?_⟩
    unfold readFull
    rw [if_neg (by omega), hread]

namespace ShannonConn

variable {σ κ : Type} {C : Cipher σ} {key : σ → κ} {c : ShannonConn σ}

def incoming (c : ShannonConn σ) : Bytes := c.unreadBytes ++ c.conn.flatten

theorem readUnread_ok {x rest : Bytes} (h : c.incoming = x ++ rest) :
    ∃ c', c.readUnread x.length = (.ok x, c') ∧ c'.incoming = rest ∧
      c'.recvCipher = c.recvCipher ∧ c'.recvNonce = c.recvNonce := by
  unfold incoming at h
  unfold readUnread
  by_cases hle : x.length ≤ c.unreadBytes.length
  · obtain ⟨tail, htail⟩ : ∃ tail, c.unreadBytes = x ++ tail := by
      have hprefix := prefix_of_prefix_length_le ⟨rest, h.symm⟩
        (prefix_append c.unreadBytes c.conn.flatten) hle
      exact ⟨_, hprefix.choose_spec.symm⟩
    refine ⟨{ c with unreadBytes := tail }, ?_, ?_, rfl, rfl⟩
    · rw [if_pos hle, htail, take_left, drop_left]
    · rw [htail, append_assoc] at h
      exact append_cancel_left h
  · obtain ⟨tail, htail⟩ : ∃ tail, x = c.unreadBytes ++ tail := by
      have hprefix := prefix_of_prefix_length_le
        (prefix_append c.unreadBytes c.conn.flatten) ⟨rest, h.symm⟩ (Nat.le_of_not_le hle)
      exact ⟨_, hprefix.choose_spec.symm⟩
    subst htail
    rw [append_assoc] at h
    have hconn : c.conn.flatten = tail ++ rest := append_cancel_left h
    have hcount : (c.unreadBytes ++ tail).length - c.unreadBytes.length = tail.length := by
      rw [length_append, Nat.add_sub_cancel_left]
    obtain ⟨conn', hread, hrest⟩ : ∃ conn', readFull tail.length c.conn = (.ok tail, conn') ∧
        conn'.flatten = rest := by
      have hcount : tail.length ≤ c.conn.flatten.length := by
        rw [hconn, length_append]
        exact Nat.le_add_right _ _
      obtain ⟨conn', hread, hrest⟩ := readFull_ok hcount
      rw [hconn, take_left] at hread
      rw [hconn, drop_left] at hrest
      exact ⟨conn', hread, hrest⟩
    refine ⟨{ c with unreadBytes := [], conn := conn' }, ?_, hrest, rfl, rfl⟩
    rw [if_neg hle, hcount, hread]

theorem readUnread_end (h : c.incoming = []) (hcount : 0 < count) :
    ∃ err, c.readUnread count = (.error err, { c with unreadBytes := [], conn := [] }) := by
  obtain ⟨hunread, hconn⟩ := append_eq_nil_iff.mp h
  obtain ⟨err, hread⟩ := readFull_short (show c.conn.flatten.length < count by simpa [hconn])
  refine ⟨err, ?_⟩
  simp [readUnread, hunread, hread, Nat.not_le_of_lt hcount]

def header (pkt : PacketType × Bytes) : Bytes := pkt.1 :: Numeral.toBytes 2 pkt.2.length

theorem length_header (pkt : PacketType × Bytes) : (header pkt).length = 3 := by
  rw [header, length_cons, length_toBytes]

variable {pkt : PacketType × Bytes}

theorem payloadLen_header (h : pkt.2.length ≤ 65535) :
    Numeral.ofBytes (((header pkt).drop 1).take 2) = pkt.2.length := by
  rw [header, drop_succ_cons, drop_zero, take_of_length_le (Nat.le_of_eq (length_toBytes 2 _))]
  exact ofBytes_toBytes (by omega)

def frame (C : Cipher σ) (s : σ) (n : UInt32) (pkt : PacketType × Bytes) : Bytes :=
  let (packet, s) := C.encrypt (header pkt ++ pkt.2) (C.nonce n s)
  packet ++ (C.finish s).1

theorem frame_eq (hC : C.Lawful key 4) {s t : σ} (h : key s = key t) (n : UInt32)
    (pkt : PacketType × Bytes) : frame C s n pkt = frame C t n pkt := by
  unfold frame
  rw [hC.nonce_eq n s t h]

theorem sendPacket_frame (hC : C.Lawful key 4) (h : pkt.2.length ≤ 65535) : ∃ s written,
      c.sendPacket C pkt.1 pkt.2 = (.ok (), { c with
        sendCipher := s, sendNonce := c.sendNonce + 1, written }) ∧
      key s = key c.sendCipher ∧
      written.flatten = c.written.flatten ++ frame C c.sendCipher c.sendNonce pkt := by
  unfold sendPacket
  rw [if_neg (Nat.not_lt_of_le h)]
  refine ⟨_, _, rfl, ?_, ?_⟩
  · rw [hC.key_finish, hC.key_encrypt, hC.key_nonce]
  · simp [frame, header]

theorem receivePacket_frame (hC : C.Lawful key 4) {s : σ} (hkey : key c.recvCipher = key s)
    (hlen : pkt.2.length ≤ 65535) {rest : Bytes}
    (h : c.incoming = frame C s c.recvNonce pkt ++ rest) :
    ∃ c', c.receivePacket C = (.ok pkt, c') ∧ c'.incoming = rest ∧ key c'.recvCipher = key s ∧
      c'.recvNonce = c.recvNonce + 1 := by
  obtain ⟨packet, s₁, henc⟩ : ∃ packet s₁,
      C.encrypt (header pkt ++ pkt.2) (C.nonce c.recvNonce s) = (packet, s₁) := ⟨_, _, rfl⟩
  have hpacket : packet.length = 3 + pkt.2.length := by
    have hcipher := hC.length_encrypt (header pkt ++ pkt.2) (C.nonce c.recvNonce s)
    rwa [henc, length_append, length_header] at hcipher
  -- The header and the payload are decrypted one after the other.
  obtain ⟨x, y, rfl, hx⟩ : ∃ x y, packet = x ++ y ∧ x.length = 3 :=
    ⟨packet.take 3, packet.drop 3, (take_append_drop 3 packet).symm, by
      rw [length_take]
      omega⟩
  have hy : y.length = pkt.2.length := by
    rw [length_append] at hpacket
    omega
  obtain ⟨hheader, hpayload⟩ := hC.decrypt_pieces henc (hx.trans (length_header pkt).symm)
  have hincoming : c.incoming = x ++ (y ++ ((C.finish s₁).1 ++ rest)) := by
    rw [h, frame, henc]
    simp only [append_assoc]
  obtain ⟨c₁, hread₁, hin₁, hcipher₁, hnonce₁⟩ := readUnread_ok
    (c := { c with recvCipher := C.nonce c.recvNonce s, recvNonce := c.recvNonce + 1 }) hincoming
  obtain ⟨c₂, hread₂, hin₂, hcipher₂, hnonce₂⟩ := readUnread_ok
    (c := { c₁ with recvCipher := (C.decrypt x (C.nonce c.recvNonce s)).2 }) hin₁
  obtain ⟨c₃, hread₃, hin₃, hcipher₃, hnonce₃⟩ := readUnread_ok
    (c := { c₂ with recvCipher := s₁ }) hin₂
  rw [hx] at hread₁
  rw [hy] at hread₂
  rw [hC.length_finish] at hread₃
  refine ⟨{ c₃ with recvCipher := (C.checkMac (C.finish s₁).1 s₁).2 }, ?_, hin₃, ?_, ?_⟩
  · unfold receivePacket
    simp only [hC.nonce_eq c.recvNonce c.recvCipher s hkey, hread₁, decrypt, hcipher₁, hheader,
      payloadLen_header hlen, hread₂, hcipher₂, hpayload, hread₃, hcipher₃, hC.checkMac_finish]
    rfl
  · rw [hC.key_checkMac]
    have hkey₁ := hC.key_encrypt (header pkt ++ pkt.2) (C.nonce c.recvNonce s)
    rwa [henc, hC.key_nonce] at hkey₁
  · exact hnonce₃.trans (hnonce₂.trans hnonce₁)

theorem receivePacket_end (h : c.incoming = []) :
    ∃ err c', c.receivePacket C = (.error err, c') ∧ c'.incoming = [] := by
  obtain ⟨err, hread⟩ := readUnread_end
    (c := { c with recvCipher := C.nonce c.recvNonce c.recvCipher, recvNonce := c.recvNonce + 1 })
    h (Nat.succ_pos 2)
  unfold receivePacket
  simp only [hread]
  exact ⟨_, _, rfl, rfl⟩

def sendAll (C : Cipher σ) (pkts : List (PacketType × Bytes)) (c : ShannonConn σ) :
    ShannonConn σ :=
  pkts.foldl (fun c pkt => (c.sendPacket C pkt.1 pkt.2).2) c

def frames (C : Cipher σ) (s : σ) : UInt32 → List (PacketType × Bytes) → Bytes
  | _, [] => []
  | n, pkt :: pkts => frame C s n pkt ++ frames C s (n + 1) pkts

theorem frames_eq (hC : C.Lawful key 4) {s t : σ} (h : key s = key t) (n : UInt32)
    (pkts : List (PacketType × Bytes)) : frames C s n pkts = frames C t n pkts := by
  induction pkts generalizing n with
  | nil => rfl
  | cons _ _ ih => rw [frames, frames, frame_eq hC h, ih]

theorem sendAll_frames (hC : C.Lawful key 4) {pkts : List (PacketType × Bytes)}
    (h : ∀ pkt ∈ pkts, pkt.2.length ≤ 65535) :
    (c.sendAll C pkts).written.flatten =
      c.written.flatten ++ frames C c.sendCipher c.sendNonce pkts := by
  induction pkts generalizing c with
  | nil => exact (append_nil _).symm
  | cons pkt _ ih =>
    obtain ⟨s, written, hsend, hkey, hwritten⟩ :=
      sendPacket_frame (c := c) hC (h pkt mem_cons_self)
    unfold sendAll at ih ⊢
    rw [foldl_cons, hsend, ih fun p hp => h p (mem_cons_of_mem pkt hp)]
    simp only [hwritten, frames, append_assoc, frames_eq hC hkey]

end ShannonConn

/-- A connection and the packets that have been received from it. `calls` counts the calls of
`receivePacket`. -/
structure Receiver (σ : Type) where
  conn : ShannonConn σ
  received : List (PacketType × Bytes) := []
  calls : Nat := 0

namespace Receiver

variable {σ κ : Type}

inductive Op where
  | peek (count : Nat)
  | receive
deriving DecidableEq, Repr

def step (C : Cipher σ) (r : Receiver σ) : Op → Option (Receiver σ)
  | .peek count => do
    let (_, conn) ← r.conn.peekUnencrypted count
    some { r with conn }
  | .receive =>
    let (res, conn) := r.conn.receivePacket C
    some { conn, received := r.received ++ res.toOption.toList, calls := r.calls + 1 }

/-- A peek asks for no more than there still is to come. Once there is nothing, it may ask for
anything. -/
def Peekable (r : Receiver σ) (op : Op) : Prop :=
  ∀ count, op = .peek count → count ≤ r.conn.incoming.length ∨ r.conn.incoming = []

variable {C : Cipher σ} {key : σ → κ} {s : σ} {pkts : List (PacketType × Bytes)} {r r' : Receiver σ}

structure Inv (C : Cipher σ) (key : σ → κ) (s : σ) (pkts : List (PacketType × Bytes))
    (r : Receiver σ) : Prop where
  received : r.received = pkts.take r.calls
  incoming : ∃ n, r.conn.incoming = ShannonConn.frames C s n (pkts.drop r.calls) ∧
    (r.calls < pkts.length → r.conn.recvNonce = n ∧ key r.conn.recvCipher = key s)

theorem peek_incoming {c c' : ShannonConn σ} {res : Except Err Bytes}
    (hcount : count ≤ c.incoming.length ∨ c.incoming = [])
    (h : c.peekUnencrypted count = some (res, c')) :
    c'.incoming = c.incoming ∧ c'.recvNonce = c.recvNonce ∧ c'.recvCipher = c.recvCipher := by
  unfold peekUnencrypted at h
  split_ifs at h with hpending
  have hunread : c.unreadBytes = [] := length_eq_zero_iff.mp (by omega)
  have hincoming : c.incoming = c.conn.flatten := by
    rw [incoming, hunread, nil_append]
  rw [hincoming] at hcount ⊢
  by_cases hle : count ≤ c.conn.flatten.length
  · obtain ⟨conn', hread, hrest⟩ := readFull_ok hle
    rw [hread] at h
    cases h
    refine ⟨?_, rfl, rfl⟩
    rw [incoming, hrest, take_append_drop]
  · obtain ⟨err, hread⟩ := readFull_short (Nat.lt_of_not_le hle)
    rw [hread] at h
    cases h
    refine ⟨?_, rfl, rfl⟩
    rw [incoming, hunread, hcount.resolve_left hle]
    rfl

theorem Inv.peek (h : r.Inv C key s pkts) (hpeek : r.Peekable (.peek count))
    (hstep : r.step C (.peek count) = some r') : r'.Inv C key s pkts := by
  simp only [step, run_eq_some, Prod.exists, some.injEq] at hstep
  obtain ⟨res, conn, hconn, rfl⟩ := hstep
  obtain ⟨hincoming, hnonce, hcipher⟩ := peek_incoming (hpeek count rfl) hconn
  obtain ⟨n, hframes, hkey⟩ := h.incoming
  refine ⟨h.received, n, hincoming.trans hframes, ?_⟩
  rw [hnonce, hcipher]
  exact hkey

theorem Inv.receive (hC : C.Lawful key 4) (hlen : ∀ pkt ∈ pkts, pkt.2.length ≤ 65535)
    (h : r.Inv C key s pkts) (hstep : r.step C .receive = some r') : r'.Inv C key s pkts := by
  obtain ⟨n, hframes, hkey⟩ := h.incoming
  simp only [step, some.injEq] at hstep
  subst hstep
  by_cases hcalls : r.calls < pkts.length
  · obtain ⟨hnonce, hkey⟩ := hkey hcalls
    rw [drop_eq_getElem_cons hcalls, frames, ← hnonce] at hframes
    obtain ⟨c', hreceive, hincoming, hkey', hnonce'⟩ := receivePacket_frame hC hkey
      (hlen _ (getElem_mem hcalls)) hframes
    rw [hreceive]
    refine ⟨?_, r.conn.recvNonce + 1, hincoming, fun _ => ⟨hnonce', hkey'⟩⟩
    rw [h.received, take_succ_eq_append_getElem hcalls]
    rfl
  · have hdone := Nat.le_of_not_lt hcalls
    rw [drop_eq_nil_of_le hdone, frames] at hframes
    obtain ⟨err, c', hreceive, hincoming⟩ := receivePacket_end (C := C) hframes
    rw [hreceive]
    refine ⟨?_, n, ?_, fun hlt => ?_⟩
    · rw [h.received, take_of_length_le hdone, take_of_length_le (Nat.le_succ_of_le hdone)]
      exact append_nil _
    · rw [drop_eq_nil_of_le (Nat.le_succ_of_le hdone)]
      exact hincoming
    · simp only at hlt
      omega

/-- The packets come out in the order they went in, one for each call, and no peek changes that. -/
theorem packets_received_in_order (hC : C.Lawful key 4) {sender : ShannonConn σ}
    (hfresh : sender.written = [] ∧ sender.sendNonce = 0)
    (hlen : ∀ pkt ∈ pkts, pkt.2.length ≤ 65535) {c : ShannonConn σ}
    (hconn : c.conn.flatten = (sender.sendAll C pkts).written.flatten)
    (hstart : c.unreadBytes = [] ∧ c.recvNonce = 0 ∧ key c.recvCipher = key sender.sendCipher)
    {ops : List Op} (hpeeks : Meets (step C) Peekable { conn := c } ops)
    (hrun : exec (step C) { conn := c } ops = some r) : r.received = pkts.take r.calls := by
  have hinv : ({ conn := c } : Receiver σ).Inv C key sender.sendCipher pkts := by
    refine ⟨rfl, 0, ?_, fun _ => hstart.2⟩
    rw [incoming, hstart.1, hconn, sendAll_frames hC hlen, hfresh.1, hfresh.2]
    rfl
  have hend : r.Inv C key sender.sendCipher pkts := by
    refine Always.last (always_of_meets ?_ hinv hpeeks) hrun
    intro r op r' h hpeek hstep
    cases op with
    | peek => exact h.peek hpeek hstep
    | receive => exact h.receive hC hlen hstep
  exact hend.received

/-! ## A small cipher -/

structure Shift where
  key : UInt8
  place : UInt8 := 0
  sum : UInt8 := 0
deriving DecidableEq, Repr

def Shift.pass (f : UInt8 → UInt8 → UInt8) (plain : UInt8 → UInt8 → UInt8) :
    Bytes → Shift → Bytes × Shift
  | [], s => ([], s)
  | b :: text, s =>
    let (text, s') := Shift.pass f plain text
      { s with place := s.place + 1, sum := s.sum + plain b (s.key + s.place) }
    (f b (s.key + s.place) :: text, s')

def shift : Cipher Shift where
  nonce n s := { key := s.key, place := UInt8.ofNat n.toNat }
  encrypt := Shift.pass (· + ·) fun b _ => b
  decrypt := Shift.pass (· - ·) (· - ·)
  finish s := ([s.sum, s.place, 0, 0], s)
  checkMac mac s := (mac = [s.sum, s.place, 0, 0], s)

theorem pass_key (f plain : UInt8 → UInt8 → UInt8) (x : Bytes) (s : Shift) :
    (Shift.pass f plain x s).2.key = s.key := by
  induction x generalizing s with
  | nil => rfl
  | cons _ _ ih => exact ih _

theorem pass_length (f plain : UInt8 → UInt8 → UInt8) (x : Bytes) (s : Shift) :
    (Shift.pass f plain x s).1.length = x.length := by
  induction x generalizing s with
  | nil => rfl
  | cons _ _ ih => exact congrArg Nat.succ (ih _)

theorem pass_append (f plain : UInt8 → UInt8 → UInt8) (x y : Bytes) (s : Shift) :
    Shift.pass f plain (x ++ y) s =
      ((Shift.pass f plain x s).1 ++ (Shift.pass f plain y (Shift.pass f plain x s).2).1,
        (Shift.pass f plain y (Shift.pass f plain x s).2).2) := by
  induction x generalizing s with
  | nil => rfl
  | cons _ _ ih => simp only [cons_append, Shift.pass, ih]

theorem shift_decrypt_encrypt (x : Bytes) (s : Shift) :
    shift.decrypt (shift.encrypt x s).1 s = (x, (shift.encrypt x s).2) := by
  simp only [shift]
  induction x generalizing s with
  | nil => rfl
  | cons _ _ ih => simp only [Shift.pass, UInt8.add_sub_cancel, ih]

theorem shift_lawful : shift.Lawful Shift.key 4 where
  key_nonce _ _ := rfl
  key_encrypt := pass_key _ _
  key_decrypt := pass_key _ _
  key_finish _ := rfl
  key_checkMac _ _ := rfl
  nonce_eq n _ _ h := congrArg (fun k => ({ key := k, place := UInt8.ofNat n.toNat } : Shift)) h
  length_encrypt := pass_length _ _
  length_decrypt := pass_length _ _
  decrypt_encrypt := shift_decrypt_encrypt
  decrypt_append := pass_append _ _
  length_finish _ := rfl
  checkMac_finish _ := decide_eq_true rfl

instance (r : Receiver σ) : DecidablePred r.Peekable
  | .peek count =>
    decidable_of_iff (count ≤ r.conn.incoming.length ∨ r.conn.incoming = []) (by simp [Peekable])
  | .receive => .isTrue (by simp [Peekable])

def shiftSender : ShannonConn Shift where
  sendCipher := { key := 3 }
  recvCipher := { key := 5 }

def shiftReceiver (pkts : List (PacketType × Bytes)) : ShannonConn Shift :=
  let sent := (shiftSender.sendAll shift pkts).written.flatten
  { conn := [sent.take 4, [], sent.drop 4], sendCipher := { key := 5 }, recvCipher := { key := 3 } }

def twoPackets : List (PacketType × Bytes) := [(172, []), (178, [9, 8])]

theorem packets_received_in_order_peekNine : ∃ r : Receiver Shift,
    exec (step shift) { conn := shiftReceiver twoPackets } [.peek 9, .receive, .receive] = some r ∧
    r.calls = 2 ∧ r.received = twoPackets := by
  have hpeeks : Meets (step shift) Peekable { conn := shiftReceiver twoPackets }
      [.peek 9, .receive, .receive] := by decide +kernel
  have hlen : ∀ pkt ∈ twoPackets, pkt.2.length ≤ 65535 := by decide
  have hconn : (shiftReceiver twoPackets).conn.flatten =
      (shiftSender.sendAll shift twoPackets).written.flatten := by decide +kernel
  exact ⟨Option.get _ (by decide +kernel), exec_get _, by decide +kernel, packets_received_in_order
    shift_lawful ⟨rfl, rfl⟩ hlen hconn ⟨rfl, rfl, rfl⟩ hpeeks (exec_get _)⟩

/-- The connection ends after a packet of seven bytes. With a peek of nine bytes before it, the
packet is not received. -/
theorem packet_lost_after_failed_peek :
    (exec (step shift) { conn := shiftReceiver [(172, [])] } [.receive]).map (·.received) =
      some [(172, [])] ∧
    (exec (step shift) { conn := shiftReceiver [(172, [])] } [.peek 9, .receive]).map (·.received) =
      some [] := by
  decide +kernel

end Receiver

end Librespot.Ap
