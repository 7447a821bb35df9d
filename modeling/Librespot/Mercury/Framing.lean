import Librespot.Mercury.Client

/-! # A request that is sent can be read -/

open Base List

namespace Librespot.Mercury

open Numeral

open Ap

/-! ## Reading a packet -/

structure Frame where
  seq : Nat
  flags : Nat
  parts : List Bytes
deriving DecidableEq, Repr

def takeUint (k : Nat) (r : Bytes) : Option (Nat × Bytes) :=
  if k ≤ r.length then some (Numeral.ofBytes (r.take k), r.drop k) else none

def takePart (r : Bytes) : Option (Bytes × Bytes) := do
  let (len, r) ← takeUint 2 r
  if len ≤ r.length then some (r.take len, r.drop len) else none

def takeParts : Nat → Bytes → Option (List Bytes × Bytes)
  | 0, r => some ([], r)
  | count + 1, r => do
    let (part, r) ← takePart r
    let (parts, r) ← takeParts count r
    some (part :: parts, r)

def decode (packet : Bytes) : Option Frame := do
  let (seqLen, r) ← takeUint 2 packet
  let (seq, r) ← takeUint seqLen r
  let (flags, r) ← takeUint 1 r
  let (count, r) ← takeUint 2 r
  let (parts, r) ← takeParts count r
  if r = [] then some { seq, flags, parts } else none

theorem takeUint_append {k n : Nat} (h : n < 256 ^ k) (r : Bytes) :
    takeUint k (Numeral.toBytes k n ++ r) = some (n, r) := by
  have hlen : (toBytes k n).length = k := length_toBytes k n
  rw [takeUint, if_pos (by simp [hlen]), take_left' hlen, drop_left' hlen,
    ofBytes_toBytes h]

theorem takeUint_uint16 {n : Nat} (h : n ≤ 0xffff) (r : Bytes) :
    takeUint 2 (uint16 n ++ r) = some (n, r) := by
  rw [uint16, Nat.mod_eq_of_lt (by omega)]
  exact takeUint_append (by omega) r

theorem takePart_framePart {part : Bytes} (h : part.length ≤ 0xffff) (r : Bytes) :
    takePart (framePart part ++ r) = some (part, r) := by
  simp [takePart, framePart, takeUint_uint16 h]

variable {parts : List Bytes}

theorem takeParts_flatMap (h : ∀ part ∈ parts, part.length ≤ 0xffff)
    (r : Bytes) : takeParts parts.length (parts.flatMap framePart ++ r) = some (parts, r) := by
  induction parts with
  | nil => rfl
  | cons part parts ih =>
    have hpart := takePart_framePart (h part mem_cons_self) (parts.flatMap framePart ++ r)
    have hparts := ih fun q hq => h q (mem_cons_of_mem _ hq)
    simp [takeParts, hpart, hparts]

/-! ## Lengths that fit -/

structure Fits (headerBytes : Bytes) (parts : List Bytes) : Prop where
  header : headerBytes.length ≤ 0xffff
  part : ∀ part ∈ parts, part.length ≤ 0xffff
  count : 1 + parts.length ≤ 0xffff

theorem decode_requestBytes {headerBytes : Bytes} (seq : UInt64)
    (h : Fits headerBytes parts) : decode (requestBytes seq headerBytes parts) =
      some { seq := seq.toNat, flags := 1, parts := headerBytes :: parts } := by
  have hseq : seq.toNat < 256 ^ 8 := seq.toNat_lt
  have hflag (r : Bytes) : takeUint 1 (1 :: r) = some (1, r) := by
    simp [takeUint, ofBytes, value]
  have hall : ∀ part ∈ headerBytes :: parts, part.length ≤ 0xffff :=
    forall_mem_cons.mpr ⟨h.header, h.part⟩
  have hparts := takeParts_flatMap hall []
  rw [length_cons, Nat.add_comm, flatMap_cons, append_nil] at hparts
  simp [decode, requestBytes, takeUint_uint16 (show 8 ≤ 0xffff by omega), takeUint_append hseq,
    hflag, takeUint_uint16 h.count, hparts]

theorem length_uint16 (n : Nat) : (uint16 n).length = 2 := Numeral.length_toBytes 2 _

theorem length_framePart (part : Bytes) : (framePart part).length = 2 + part.length := by
  rw [framePart, length_append, length_uint16]

theorem length_flatMap_framePart (parts : List Bytes) :
    (parts.flatMap framePart).length = 2 * parts.length + parts.flatten.length := by
  induction parts with
  | nil => rfl
  | cons _ _ ih =>
    rw [flatMap_cons, length_append, length_framePart, ih, length_cons, flatten_cons, length_append]
    omega

theorem length_requestBytes (seq : UInt64) (headerBytes : Bytes) (parts : List Bytes) :
    (requestBytes seq headerBytes parts).length =
      15 + headerBytes.length + 2 * parts.length + parts.flatten.length := by
  simp only [requestBytes, length_append, length_cons, length_uint16, length_framePart,
    length_flatMap_framePart, length_toBytes]
  omega

theorem fits_of_length_le {seq : UInt64} {headerBytes : Bytes}
    (h : (requestBytes seq headerBytes parts).length ≤ 65535) : Fits headerBytes parts := by
  rw [length_requestBytes] at h
  refine ⟨by omega, fun part hpart => ?_, by omega⟩
  have hle := (sublist_flatten_of_mem hpart).length_le
  omega

/-! ## The parts of a payload -/

theorem flatten_partsFrom {payload : Bytes} {fuel i : Nat} (h : payload.length ≤ i + fuel) :
    (partsFrom payload fuel i).flatten = payload.drop i := by
  induction fuel generalizing i with
  | zero => rw [partsFrom, flatten_nil, drop_eq_nil_of_le (by omega)]
  | succ _ ih =>
    unfold partsFrom
    split
    · rename_i hi
      rw [flatten_cons, ih (by omega), drop_take]
      have hrest : payload.drop (i + 0xffff) =
          (payload.drop i).drop (min payload.length (i + 0xffff) - i) := by
        rw [drop_drop]
        rcases Nat.le_total (i + 0xffff) payload.length with hle | hle
        · rw [Nat.min_eq_right hle]
          congr 1
          omega
        · rw [Nat.min_eq_left hle, drop_eq_nil_of_le hle, drop_eq_nil_of_le (by omega)]
      rw [hrest, take_append_drop]
    · rw [flatten_nil, drop_eq_nil_of_le (by omega)]

theorem flatten_newRequest (method uri : String) (fields : List (String × Bytes))
    (payload : Bytes) : (newRequest method uri fields payload).parts.flatten = payload :=
  flatten_partsFrom (Nat.le_add_left _ _)

variable {σ : Type}

namespace Client

def Rejects (c : Client) (req : HermesRequest) (c' : Client) : Prop :=
  c'.wire = c.wire ∧ ∃ err : Err, c'.reqs.calls = c.reqs.calls ++
    [Call.put ({ err := some err }, none) { data := req, number := c.seq }]

theorem handleRequest_rejects {C : Cipher σ} {P : Proto} {c : Client} {req : HermesRequest}
    {net : Net} {conn : ShannonConn σ}
    (h : ∀ headerBytes, P.marshal req.header = .ok headerBytes →
      (send C net packetTypeMercuryReq (requestBytes c.seq headerBytes req.parts) conn).1 ≠ .ok ()) :
    c.Rejects req (c.handleRequest C P req net conn) := by
  unfold handleRequest
  cases hheader : P.marshal req.header with
  | error => exact ⟨rfl, _, Pump.calls_refuse _ _ _ _⟩
  | ok headerBytes =>
    have hsend := h headerBytes hheader
    cases hres : (send C net packetTypeMercuryReq (requestBytes c.seq headerBytes req.parts)
      conn).1 with
    | error =>
      simp only [hres]
      exact ⟨rfl, _, Pump.calls_answer_enter _ _ _ _⟩
    | ok => exact absurd hres hsend

/-- The bytes that the loop gets onto the wire are read as the number, the header and the parts of
the payload. What does not fit is rejected. -/
theorem handleRequest_sends (C : Cipher σ) (P : Proto) (c : Client) (method uri : String)
    (fields : List (String × Bytes)) (payload : Bytes) (net : Net) (conn : ShannonConn σ) :
    let req := newRequest method uri fields payload
    let c' := c.handleRequest C P req net conn
    (c.Rejects req c' ∨ ∃ headerBytes packet,
      P.marshal req.header = .ok headerBytes ∧ c'.wire = c.wire ++ [packet] ∧
      (send C net packetTypeMercuryReq packet conn).1 = .ok () ∧
      decode packet = some { seq := c.seq.toNat, flags := 1, parts := headerBytes :: req.parts } ∧
      req.parts.flatten = payload) ∧
    ∀ headerBytes, P.marshal req.header = .ok headerBytes → ¬ Fits headerBytes req.parts →
      c.Rejects req c' := by
  intro req c'
  constructor
  · by_cases hsent : ∃ headerBytes, P.marshal req.header = .ok headerBytes ∧
        (send C net packetTypeMercuryReq (requestBytes c.seq headerBytes req.parts) conn).1 = .ok ()
    · obtain ⟨headerBytes, hheader, hsend⟩ := hsent
      refine .inr ⟨headerBytes, requestBytes c.seq headerBytes req.parts, hheader, ?_, hsend,
        decode_requestBytes c.seq (fits_of_length_le (length_le_of_send hsend)),
        flatten_newRequest method uri fields payload⟩
      simp only [c', handleRequest, hheader, hsend]
    · exact .inl (handleRequest_rejects fun headerBytes hheader hsend =>
        hsent ⟨headerBytes, hheader, hsend⟩)
  · intro headerBytes hheader hfits
    apply handleRequest_rejects
    intro headerBytes' hheader' hsend
    obtain rfl : headerBytes = headerBytes' := by simpa [hheader] using hheader'
    exact hfits (fits_of_length_le (length_le_of_send hsend))

end Client

end Librespot.Mercury
