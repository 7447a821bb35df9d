import Librespot.Ap.Packets

/-!
# Handshake messages

`writeMessage` and `readMessage` of `ap/conn.go`. The length field is 32 bits wide, unsigned,
and counts itself. The protobuf encoding is a parameter.
-/

open Base List

namespace Librespot.Ap

open Numeral

variable {M : Type} (marshal : M → Except Err Bytes) (unmarshal : Bytes → Except Err M)

def writeMessage (withHello : Bool) (m : M) : Except Err Bytes :=
  match marshal m with
  | .error err => .error (err.wrap "failed marshalling message: ")
  | .ok data =>
    let hello : Bytes := if withHello then [0, 4] else []
    .ok (hello ++ Numeral.toBytes 4 ((hello.length + 4 + data.length) % 2 ^ 32) ++ data)

/-- How many bytes are allocated for the body, the result, and what is left of the stream. -/
structure MessageRead (M : Type) where
  allocated : Nat
  result : Except Err M
  conn : List Bytes

def readMessage (maxLength : Int) (conn : List Bytes) : MessageRead M :=
  match readFull 4 conn with
  | (.error err, conn) => ⟨0, .error (err.wrap "failed reading message length: "), conn⟩
  | (.ok header, conn) =>
    let length := Numeral.ofBytes header
    if 0 < maxLength ∧ maxLength % 2 ^ 32 < length then
      ⟨0, .error { text := "message too long: " ++ toString length }, conn⟩
    else
      -- the subtraction of 4 wraps around
      let size := (length + (2 ^ 32 - 4)) % 2 ^ 32
      match readFull size conn with
      | (.error err, conn) => ⟨size, .error (err.wrap "failed reading message body: "), conn⟩
      | (.ok data, conn) =>
        match unmarshal data with
        | .error err => ⟨size, .error (err.wrap "failed unmarshalling message: "), conn⟩
        | .ok m => ⟨size, .ok m, conn⟩

variable {marshal unmarshal} {maxLength : Int} {conn : List Bytes}

theorem readFull_append {xs ys : Bytes} (h : conn.flatten = xs ++ ys) :
    ∃ conn', readFull xs.length conn = (.ok xs, conn') ∧ conn'.flatten = ys := by
  obtain ⟨conn', hread, hrest⟩ := readFull_ok (show xs.length ≤ conn.flatten.length by simp [h])
  rw [h, take_left] at hread
  rw [h, drop_left] at hrest
  exact ⟨conn', hread, hrest⟩

theorem readMessage_written {m : M} {data written rest : Bytes} (hmarshal : marshal m = .ok data)
    (hwritten : writeMessage marshal false m = .ok written) (hconn : conn.flatten = written ++ rest) :
    ∃ conn₁, readFull 4 conn = (.ok (toBytes 4 ((4 + data.length) % 2 ^ 32)), conn₁) ∧
      ∃ conn₂, readFull (data.length % 2 ^ 32) conn₁ =
        (.ok (data.take (data.length % 2 ^ 32)), conn₂) := by
  simp only [writeMessage, hmarshal, Bool.false_eq_true, if_false, nil_append,
    length_nil, Nat.zero_add, Except.ok.injEq] at hwritten
  rw [← hwritten, append_assoc] at hconn
  obtain ⟨conn₁, hheader, hconn₁⟩ := readFull_append hconn
  rw [length_toBytes] at hheader
  have hsize : data.length % 2 ^ 32 ≤ data.length := Nat.mod_le _ _
  obtain ⟨conn₂, hbody, -⟩ := readFull_ok
    (show data.length % 2 ^ 32 ≤ conn₁.flatten.length by rw [hconn₁, length_append]; omega)
  rw [hconn₁, take_append_of_le_length hsize] at hbody
  exact ⟨conn₁, hheader, conn₂, hbody⟩

/-- The length field and the subtraction wrap around, so what is read is what the encoding has
modulo 2^32. -/
theorem result_readMessage_written {m m' : M} {data written rest : Bytes}
    (hmarshal : marshal m = .ok data) (hwritten : writeMessage marshal false m = .ok written)
    (hconn : conn.flatten = written ++ rest) :
    (readMessage unmarshal maxLength conn).result = .ok m' ↔
      ¬ (0 < maxLength ∧ maxLength % 2 ^ 32 < ((4 + data.length) % 2 ^ 32 : Nat)) ∧
        unmarshal (data.take (data.length % 2 ^ 32)) = .ok m' := by
  obtain ⟨conn₁, hheader, conn₂, hbody⟩ := readMessage_written hmarshal hwritten hconn
  have hfield : (4 + data.length) % 2 ^ 32 < 256 ^ 4 := Nat.mod_lt _ (by decide)
  have hsize : ((4 + data.length) % 2 ^ 32 + (2 ^ 32 - 4)) % 2 ^ 32 = data.length % 2 ^ 32 := by
    omega
  simp only [readMessage, hheader, ofBytes_toBytes hfield]
  split
  next hlong => exact iff_of_false (by simp) fun h => h.1 hlong
  next hshort =>
    rw [hsize, hbody, and_iff_right hshort]
    dsimp only
    split <;> rename_i hunmarshal <;> simp only [hunmarshal, reduceCtorEq]

theorem readMessage_returns_iff {m : M} {data written rest : Bytes}
    (hmarshal : marshal m = .ok data) (hwritten : writeMessage marshal false m = .ok written)
    (hconn : conn.flatten = written ++ rest) :
    (∀ unmarshal : Bytes → Except Err M, unmarshal data = .ok m →
      (readMessage unmarshal maxLength conn).result = .ok m) ↔
    data.length < 2 ^ 32 ∧
      (maxLength ≤ 0 ∨ ((data.length + 4 : Nat) : Int) % 2 ^ 32 ≤ maxLength % 2 ^ 32) := by
  simp only [result_readMessage_written hmarshal hwritten hconn]
  constructor
  · intro h
    -- the decoder that knows this one encoding only
    obtain ⟨hshort, hdata⟩ := h
      (fun bytes => if bytes = data then .ok m else .error { text := "" }) (if_pos rfl)
    have htake : data.take (data.length % 2 ^ 32) = data := by
      by_contra hne
      rw [if_neg hne] at hdata
      cases hdata
    have hlength := congrArg length htake
    rw [length_take] at hlength
    exact ⟨by omega, by omega⟩
  · rintro ⟨hdata, hmax⟩ unmarshal hunmarshal
    rw [Nat.mod_eq_of_lt hdata, take_length]
    exact ⟨by omega, hunmarshal⟩

def MessageRead.Within (read : MessageRead M) (conn : List Bytes) (maxLength : Int) : Prop :=
  read.allocated ≤ maxLength ∧ conn.flatten.length ≤ 4 + maxLength + read.conn.flatten.length

theorem readMessage_within_iff (hmax : 0 < maxLength) :
    (readMessage unmarshal maxLength conn).Within conn maxLength ↔
      conn.flatten.length < 4 ∨ maxLength % 2 ^ 32 < ofBytes (conn.flatten.take 4) ∨
        4 ≤ ofBytes (conn.flatten.take 4) ∨
        2 ^ 32 - 4 + (ofBytes (conn.flatten.take 4) : Int) ≤ maxLength := by
  unfold readMessage MessageRead.Within
  by_cases hheader : conn.flatten.length < 4
  · obtain ⟨err, hread⟩ := readFull_short hheader
    rw [hread]
    dsimp only
    omega
  · obtain ⟨conn₁, hread, hrest⟩ := readFull_ok (not_lt.mp hheader)
    have hleft : conn₁.flatten.length + 4 = conn.flatten.length := by
      rw [hrest, length_drop]
      omega
    have hbound : ofBytes (conn.flatten.take 4) < 256 ^ 4 :=
      ofBytes_lt (by rw [length_take]; omega)
    rw [hread]
    dsimp only
    generalize ofBytes (conn.flatten.take 4) = length at hbound
    split
    next => dsimp only; omega
    next hshort =>
      by_cases hbody : conn₁.flatten.length < (length + (2 ^ 32 - 4)) % 2 ^ 32
      · obtain ⟨err, hread⟩ := readFull_short hbody
        rw [hread]
        dsimp only
        omega
      · obtain ⟨conn₂, hread, hrest⟩ := readFull_ok (not_lt.mp hbody)
        have hleft₂ : conn₂.flatten.length + (length + (2 ^ 32 - 4)) % 2 ^ 32 =
            conn₁.flatten.length := by
          rw [hrest, length_drop]
          omega
        rw [hread]
        dsimp only
        split <;> dsimp only <;> omega

/-- Exactly when messages come back as they were written, and when a limit is kept. -/
theorem messages_read {M : Type} (marshal : M → Except Err Bytes) (maxLength : Int)
    (conn : List Bytes) :
    (∀ m data written rest, marshal m = .ok data →
      (maxLength = 0 ∨ data.length + 4 ≤ maxLength) →
      writeMessage marshal false m = .ok written → conn.flatten = written ++ rest →
      ((∀ unmarshal : Bytes → Except Err M, unmarshal data = .ok m →
          (readMessage unmarshal maxLength conn).result = .ok m) ↔
        data.length < 2 ^ 32 ∧
          (maxLength = 0 ∨ ((data.length + 4 : Nat) : Int) % 2 ^ 32 ≤ maxLength % 2 ^ 32))) ∧
    ∀ unmarshal : Bytes → Except Err M, 0 < maxLength →
      ((readMessage unmarshal maxLength conn).Within conn maxLength ↔
        conn.flatten.length < 4 ∨ maxLength % 2 ^ 32 < Numeral.ofBytes (conn.flatten.take 4) ∨
          4 ≤ Numeral.ofBytes (conn.flatten.take 4) ∨
          2 ^ 32 - 4 + (Numeral.ofBytes (conn.flatten.take 4) : Int) ≤ maxLength) := by
  refine ⟨?_, fun unmarshal => readMessage_within_iff⟩
  intro m data written rest hmarshal hmax hwritten hconn
  rw [readMessage_returns_iff hmarshal hwritten hconn]
  omega

theorem messages_read_byte :
    (readMessage (M := Bytes) .ok 9 [[0, 0], [0, 5, 7]]).result = .ok [7] ∧
      (readMessage (M := Bytes) .ok 9 [[0, 0], [0, 5, 7]]).Within [[0, 0], [0, 5, 7]] 9 := by
  have hread := messages_read (M := Bytes) .ok 9 [[0, 0], [0, 5, 7]]
  have hreturns := hread.1 [7] [7] [0, 0, 0, 5, 7] [] rfl (.inr (by decide)) (by decide) rfl
  refine ⟨hreturns.mpr ⟨by decide, .inr (by decide)⟩ .ok rfl, (hread.2 .ok (by decide)).mpr ?_⟩
  exact .inr (.inr (.inl (by decide)))

/-- A length of 0 allocates 4 GiB under a limit of 9 bytes, and reads on past it; a limit of
2^32 refuses every message. -/
theorem short_length_read :
    (readMessage (M := Bytes) .ok 9 [[0, 0, 0, 0, 1, 2, 3, 4, 5, 6, 7, 8, 9, 10]]).allocated =
        2 ^ 32 - 4 ∧
      (readMessage (M := Bytes) .ok 9 [[0, 0, 0, 0, 1, 2, 3, 4, 5, 6, 7, 8, 9, 10]]).conn = [] ∧
      (readMessage (M := Bytes) .ok (2 ^ 32) [[0, 0, 0, 5, 7]]).result =
        .error { text := "message too long: 5" } :=
  ⟨rfl, rfl, rfl⟩

end Librespot.Ap
