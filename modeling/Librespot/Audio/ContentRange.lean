import Librespot.Audio.Fetching

/-!
# The size in the first response

`parseContentRange` of `audio/chunked-reader.go`, and `NewHttpChunkedReader` on what it reads.
The size is any number that fits 63 bits, and the number of chunks is computed in 64.
-/

namespace Librespot.Audio

/-- The digits in `^bytes (\d+)-(\d+)/(\d+)$`. -/
def matchContentRange (header : String) : Option (List Char × List Char × List Char) :=
  let chars := header.toList
  let start := (chars.drop 6).takeWhile Char.isDigit
  let rest := (chars.drop 6).dropWhile Char.isDigit
  let stop := (rest.drop 1).takeWhile Char.isDigit
  let rest' := (rest.drop 1).dropWhile Char.isDigit
  let size := rest'.drop 1
  if chars.take 6 = "bytes ".toList ∧ rest.head? = some '-' ∧ rest'.head? = some '/' ∧
      start ≠ [] ∧ stop ≠ [] ∧ size ≠ [] ∧ size.all Char.isDigit then
    some (start, stop, size)
  else none

def parseInt (digits : List Char) : Except Err Nat :=
  match (decimal digits).filter (· < 2 ^ 63) with
  | some n => .ok n
  | none =>
    .error { text :=
      "strconv.ParseInt: parsing \"" ++ String.ofList digits ++ "\": value out of range" }

def parseContentRange (header : String) : Except Err (Nat × Nat × Nat) :=
  if header = "" then
    .error { text := "invalid first chunk response status: no Content-Range header" }
  else
    match matchContentRange header with
    | none => .error { text := "invalid content range header: " ++ header }
    | some (start, stop, size) => do
      let start ← (parseInt start).mapError (Err.wrap "invalid content range start: ")
      let stop ← (parseInt stop).mapError (Err.wrap "invalid content range end: ")
      let size ← (parseInt size).mapError (Err.wrap "invalid content range size: ")
      return (start, stop, size)

namespace HttpChunkedReader

def totalChunks (size : Nat) : Int :=
  ((size + defaultChunkSize - 1 : Int).bmod (2 ^ 64)).tdiv defaultChunkSize

/-- `make` panics on a negative length. -/
def newFromRange (first : Response) :
    Except Err (Nat × Nat × Nat) → Option (Except Err HttpChunkedReader)
  | .error err => some (.error (err.wrap "invalid first chunk content range response: "))
  | .ok (_, _, size) => if totalChunks size < 0 then none else newHttpChunkedReader size first

def newFromHeader (header : String) (first : Response) : Option (Except Err HttpChunkedReader) :=
  match first with
  | .failed _ => newHttpChunkedReader 0 first
  | _ => newFromRange first (parseContentRange header)

/-! ## Sizes that make a reader -/

theorem parseInt_lt {digits : List Char} {n : Nat} (h : parseInt digits = .ok n) : n < 2 ^ 63 := by
  unfold parseInt at h
  split at h
  next m hm =>
    cases h
    simpa using (Option.filter_eq_some_iff.mp hm).2
  next => cases h

theorem parseContentRange_lt {header : String} {start stop size : Nat}
    (h : parseContentRange header = .ok (start, stop, size)) : size < 2 ^ 63 := by
  unfold parseContentRange at h
  split at h
  next => cases h
  next =>
    split at h
    next => cases h
    next first second third _ =>
      cases hfirst : parseInt first with
      | error => simp [hfirst, Except.mapError] at h; cases h
      | ok =>
        cases hsecond : parseInt second with
        | error => simp [hfirst, hsecond, Except.mapError] at h; cases h
        | ok =>
          cases hthird : parseInt third with
          | error => simp [hfirst, hsecond, hthird, Except.mapError] at h; cases h
          | ok =>
            simp only [hfirst, hsecond, hthird, Except.mapError] at h
            cases h
            exact parseInt_lt hthird

def Fits (size : Nat) : Prop := 1 ≤ size ∧ size + defaultChunkSize ≤ 2 ^ 63

theorem totalChunks_neg_iff {size : Nat} (h : size < 2 ^ 63) :
    totalChunks size < 0 ↔ 2 ^ 63 < size + defaultChunkSize := by
  have hcs : (defaultChunkSize : Int) = 524288 := rfl
  have hcs' : defaultChunkSize = 524288 := rfl
  rw [totalChunks, hcs, hcs']
  constructor
  · intro hneg
    by_contra hle
    rw [Int.bmod_eq_of_le (by omega) (by omega)] at hneg
    exact absurd (Int.tdiv_nonneg (by omega) (by decide)) (not_le.mpr hneg)
  · intro hlarge
    have hwrap : ((size : Int) + 524288 - 1).bmod (2 ^ 64) = -(2 ^ 64 - (size + 524288 - 1)) := by
      rw [← Int.sub_bmod_right, Int.bmod_eq_of_le (by omega) (by omega)]
      omega
    rw [hwrap, Int.neg_tdiv, Int.tdiv_eq_ediv_of_nonneg (by omega)]
    omega

theorem isSome_newHttpChunkedReader (size : Nat) {first : Response}
    (hfirst : ∀ err, first ≠ .failed err) :
    (newHttpChunkedReader size first).isSome = true ↔ 1 ≤ size := by
  have hcs : defaultChunkSize = 524288 := rfl
  unfold newHttpChunkedReader
  cases first with
  | failed err => exact absurd rfl (hfirst err)
  | broken => dsimp only; split <;> simp <;> omega
  | partialContent => dsimp only; rw [hcs]; split <;> simp <;> omega

structure Ranged (r : HttpChunkedReader) : Prop where
  count : r.chunks.length = (r.len + defaultChunkSize - 1) / defaultChunkSize
  pos : 1 ≤ r.chunks.length
  ranges : ∀ idx < r.chunks.length, (idx + 1) * defaultChunkSize < 2 ^ 63 ∧
    (defaultChunkSize < r.len →
      (requestedRange r.len idx).1 ≤ (requestedRange r.len idx).2 ∧
        (requestedRange r.len idx).2 ≤ r.len - 1)

theorem ranged_of_new {size : Nat} {first : Response} {r : HttpChunkedReader}
    (hsize : size + defaultChunkSize ≤ 2 ^ 63)
    (h : newHttpChunkedReader size first = some (.ok r)) : r.len = size ∧ r.Ranged := by
  have hcs : defaultChunkSize = 524288 := rfl
  obtain ⟨body, n, -, hn, rfl⟩ := new_ok h
  refine ⟨rfl, ⟨by simpa using hn, by simp, ?_⟩⟩
  intro idx hidx
  simp only [List.length_cons, List.length_replicate] at hidx
  simp only [requestedRange, hcs] at *
  omega

/-- A reader is made, or an error is returned, exactly where the size is not 0 and leaves room
for the rounding; its chunks cover the size, and their ranges lie within it. -/
theorem newFromHeader_ranged (header : String) (first : Response) :
    ((newFromHeader header first).isSome = true ↔ (∃ err, first = .failed err) ∨
      ∀ start stop size, parseContentRange header = .ok (start, stop, size) → Fits size) ∧
    ∀ r, newFromHeader header first = some (.ok r) →
      r.Ranged ∧ ∃ start stop, parseContentRange header = .ok (start, stop, r.len) := by
  by_cases hfailed : ∃ err, first = .failed err
  · obtain ⟨err, rfl⟩ := hfailed
    simp [newFromHeader, newHttpChunkedReader]
  · have hfirst : ∀ err, first ≠ .failed err := fun err herr => hfailed ⟨err, herr⟩
    have hnew : newFromHeader header first = newFromRange first (parseContentRange header) := by
      cases first with
      | failed err => exact absurd rfl (hfirst err)
      | _ => rfl
    rw [hnew]
    cases hparse : parseContentRange header with
    | error => simp [newFromRange]
    | ok range =>
      obtain ⟨start, stop, size⟩ := range
      have hneg := totalChunks_neg_iff (parseContentRange_lt hparse)
      have hsome := isSome_newHttpChunkedReader size hfirst
      rw [newFromRange]
      split
      next hlarge =>
        rw [hneg] at hlarge
        refine ⟨?_, by simp⟩
        simp [hfailed, Fits]
        omega
      next hfits =>
        rw [hneg, not_lt] at hfits
        refine ⟨?_, fun r hr => ?_⟩
        · rw [hsome]
          simp only [hfailed, false_or, Except.ok.injEq, Prod.mk.injEq]
          constructor
          · rintro hpos _ _ _ ⟨-, -, rfl⟩
            exact ⟨hpos, hfits⟩
          · exact fun h => (h start stop size ⟨rfl, rfl, rfl⟩).1
        · obtain ⟨hlen, hranged⟩ := ranged_of_new hfits hr
          exact ⟨hranged, start, stop, by rw [hlen]⟩

/-- A size of 0 has no chunk for the first body, and the largest sizes give a negative number
of chunks. -/
theorem size_panics :
    newFromHeader "bytes 0-0/0" (.partialContent []) = none ∧
      newFromHeader "bytes 0-524287/9223372036854775807" (.partialContent []) = none := by
  decide

end HttpChunkedReader

end Librespot.Audio
