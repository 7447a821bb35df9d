import Librespot.Mercury.Framing

/-! # What a requester makes of a response -/

open Base List Option

namespace Librespot.Mercury

open Ap

/-- What the loop reads of the payload of a response, zeros for what is missing: the sequence
number and the parts. -/
def received (payload : Bytes) : Option (UInt64 × List Bytes) :=
  match readSeq payload with
  | none => none
  | some (respSeq, r) =>
    let (flags, r) := readUint 1 r
    if flags ≠ 1 then none
    else
      let (partsCount, r) := readUint 2 r
      some (respSeq, readParts partsCount r)

/-- The call that gets a reply, and the reply. -/
def reply (P : Proto) (payload : Bytes) : Option (UInt64 × HermesResponse) :=
  (received payload).map fun (respSeq, parts) => (respSeq, response P parts)

theorem handlePacket_eq_reply (P : Proto) (c : Client) {pkt : Packet}
    (h : pkt.type = packetTypeMercuryReq) :
    c.handlePacket P pkt = (reply P pkt.payload).elim c fun res =>
      { c with reqs := c.reqs.answer res.1 (res.2, some pkt) } := by
  unfold Client.handlePacket reply received
  rw [if_neg (not_not.mpr h)]
  cases readSeq pkt.payload with
  | none => rfl
  | some res =>
    simp only
    split <;> rfl

/-- The end of `Request`. A header without a status code panics. -/
def result (resp : HermesResponse) : Option (Except Err Bytes) :=
  match resp.err with
  | some err => some (.error err)
  | none => do
    let header ← resp.header
    let statusCode ← header.statusCode
    if statusCode ≠ 200 then
      some (.error { text := s!"mercury request failed with status code: {statusCode}" })
    else some (.ok resp.parts.flatten)

def declared (payload : Bytes) : Option Frame := do
  let (seqLen, r) ← takeUint 2 payload
  let (seq, r) ← takeUint seqLen r
  let (flags, r) ← takeUint 1 r
  let (count, r) ← takeUint 2 r
  let (parts, _) ← takeParts count r
  some { seq, flags, parts }

theorem readUint_of_takeUint {k : Nat} {r : Bytes} {res : Nat × Bytes}
    (h : takeUint k r = some res) : readUint k r = res := by
  rw [takeUint, ite_none_right_eq_some] at h
  rw [readUint, if_pos h.1]
  exact some.inj h.2

theorem readParts_of_takeParts {count : Nat} {r rest : Bytes} {parts : List Bytes}
    (h : takeParts count r = some (parts, rest)) : readParts count r = parts := by
  induction count generalizing r parts with
  | zero =>
    cases h
    rfl
  | succ count ih =>
    simp only [takeParts, takePart, run_eq_some, ite_none_right_eq_some] at h
    obtain ⟨⟨part, r'⟩, ⟨⟨len, r''⟩, hlen, hle, hpart⟩, ⟨parts', rest'⟩, hparts, h⟩ := h
    cases hpart
    cases h
    simp only [readParts, readUint_of_takeUint hlen, ih hparts]
    rw [Nat.sub_eq_zero_of_le hle, replicate_zero, append_nil]

theorem result_response (P : Proto) (parts : List Bytes) (bytes : Bytes) :
    (result (response P parts) = some (.ok bytes) ↔ ∃ headerBytes rest header,
      parts = headerBytes :: rest ∧ P.unmarshal headerBytes = .ok header ∧
        header.statusCode = some 200 ∧ bytes = rest.flatten) ∧
    (result (response P parts) = none ↔ ∃ headerBytes rest header,
      parts = headerBytes :: rest ∧ P.unmarshal headerBytes = .ok header ∧
        header.statusCode = none) := by
  cases parts with
  | nil => simp [response, result]
  | cons headerBytes rest =>
    cases hheader : P.unmarshal headerBytes with
    | error => simp [response, result, hheader]
    | ok header =>
      cases hstatus : header.statusCode with
      | none => simp [response, result, hheader, hstatus]
      | some statusCode =>
        by_cases h200 : statusCode = 200
        · simp [response, result, hheader, hstatus, h200, eq_comm]
        · simp [response, result, hheader, hstatus, h200]

theorem received_of_declared {payload : Bytes} {frame : Frame} {respSeq : UInt64}
    {parts : List Bytes} (hwhole : declared payload = some frame)
    (hread : received payload = some (respSeq, parts)) :
    respSeq = .ofNat frame.seq ∧ frame.flags = 1 ∧ parts = frame.parts := by
  simp only [declared, run_eq_some] at hwhole
  obtain ⟨⟨seqLen, r⟩, hlen, ⟨seq, r₁⟩, hseq, ⟨flags, r₂⟩, hflags, ⟨count, r₃⟩, hcount,
    ⟨parts, rest⟩, hparts, hframe⟩ := hwhole
  cases hframe
  simp only [received, readSeq, readUint_of_takeUint hlen] at hread
  split_ifs at hread with hcase
  · simp only [readUint_of_takeUint hseq, readUint_of_takeUint hflags,
      readUint_of_takeUint hcount, readParts_of_takeParts hparts] at hread
    split_ifs at hread with hone
    cases hread
    exact ⟨rfl, not_not.mp hone, rfl⟩

/-- A requester gets what a well-formed payload declares, an error or nothing, and does not panic,
exactly if the header that is read has a status code, and 200 only where all that is declared is
there. -/
theorem response_sound_iff (P : Proto) (payload : Bytes) :
    (∀ respSeq resp, reply P payload = some (respSeq, resp) → result resp ≠ none ∧
      ∀ bytes, result resp = some (.ok bytes) → ∃ frame headerBytes parts header,
        declared payload = some frame ∧ respSeq = .ofNat frame.seq ∧ frame.flags = 1 ∧
          frame.parts = headerBytes :: parts ∧ P.unmarshal headerBytes = .ok header ∧
          header.statusCode = some 200 ∧ bytes = parts.flatten) ↔
    ∀ respSeq headerBytes parts header, received payload = some (respSeq, headerBytes :: parts) →
      P.unmarshal headerBytes = .ok header → ∃ statusCode, header.statusCode = some statusCode ∧
        (statusCode = 200 → (declared payload).isSome) := by
  constructor
  · intro h respSeq headerBytes parts header hread hheader
    have hreply : reply P payload = some (respSeq, response P (headerBytes :: parts)) := by
      rw [reply, hread, map_some]
    obtain ⟨hpanics, hok⟩ := h _ _ hreply
    rcases hstatus : header.statusCode with _ | statusCode
    · exact absurd ((result_response P _ []).2.mpr ⟨_, _, header, rfl, hheader, hstatus⟩) hpanics
    refine ⟨statusCode, rfl, ?_⟩
    rintro rfl
    obtain ⟨frame, _, _, _, hwhole, -⟩ :=
      hok _ ((result_response P _ _).1.mpr ⟨_, _, header, rfl, hheader, hstatus, rfl⟩)
    rw [hwhole, isSome_some]
  · intro h respSeq resp hreply
    obtain ⟨⟨_, read⟩, hread, hresp⟩ := map_eq_some_iff.mp hreply
    cases hresp
    refine ⟨fun hpanics => ?_, fun bytes hok => ?_⟩
    · obtain ⟨headerBytes, parts, header, rfl, hheader, hnone⟩ :=
        (result_response P _ []).2.mp hpanics
      obtain ⟨statusCode, hstatus, -⟩ := h _ _ _ header hread hheader
      simp [hnone] at hstatus
    · obtain ⟨headerBytes, parts, header, rfl, hheader, h200, rfl⟩ :=
        (result_response P _ bytes).1.mp hok
      obtain ⟨statusCode, hstatus, hwhole⟩ := h _ _ _ header hread hheader
      obtain ⟨frame, hframe⟩ :=
        isSome_iff_exists.mp (hwhole (some.inj (hstatus.symm.trans h200)))
      obtain ⟨hseq, hflags, hparts⟩ := received_of_declared hframe hread
      exact ⟨frame, headerBytes, parts, header, hframe, hseq, hflags, hparts.symm, hheader, h200,
        rfl⟩

def oneByteHeader : Proto where
  marshal _ := .ok []
  unmarshal
    | [] => .ok {}
    | b :: _ => .ok { statusCode := some b.toNat }

/-- Two of the three bytes of the last part are missing, and the requester gets zeros for them.
The header of the other payload has no status code. -/
theorem cut_part_succeeds :
    declared [0, 2, 0, 9, 1, 0, 2, 0, 1, 200, 0, 3, 5] = none ∧
    (reply oneByteHeader [0, 2, 0, 9, 1, 0, 2, 0, 1, 200, 0, 3, 5]).map
      (fun res => (res.1, (result res.2).map Except.toOption)) =
      some (9, some (some [5, 0, 0])) ∧
    (reply oneByteHeader [0, 2, 0, 9, 1, 0, 1, 0, 0]).map
      (fun res => (res.1, (result res.2).map Except.toOption)) = some (9, none) := by
  decide

end Librespot.Mercury
