import Librespot.Ids.RoundTrip

/-!
# Which ids fit

A uri may carry 22 digits of base 62, and those can write more than 128 bits. `FillBytes` panics on
such an id.
-/

open Base List Option

namespace Librespot

open Numeral

def Answers (res : Option (Except Err SpotifyId)) : Prop :=
  ∃ answer, res = some answer ∧ ∀ id, answer = .ok id → id.id.length = 16

def greatestId : List Char := "7N42dgm5tFLK9N8MT7fHC7".toList

/-- Without leading zeros there are less than 22 digits, or they are not after `greatestId` in the
order of the alphabet. -/
def Fits (digits : List Char) : Prop :=
  (digits.dropWhile (· = '0')).length < 22 ∨
    (digits.dropWhile (· = '0')).length = 22 ∧
      ¬ List.Lex (· < ·) (greatestId.map base62Alphabet.idxOf)
        ((digits.dropWhile (· = '0')).map base62Alphabet.idxOf)

theorem base62Value_greatestId : base62Value greatestId + 1 = 256 ^ 16 := by decide +kernel

theorem idxOf_lt {digits : List Char} (h : ∀ c ∈ digits, c ∈ base62Alphabet) :
    ∀ d ∈ digits.map base62Alphabet.idxOf, d < 62 := by
  intro d hd
  obtain ⟨c, hc, rfl⟩ := List.mem_map.mp hd
  rw [← base62Alphabet_length]
  exact idxOf_lt_length_iff.mpr (h c hc)

theorem base62Value_dropZeros (digits : List Char) :
    base62Value (digits.dropWhile (· = '0')) = base62Value digits := by
  have hzeros : ∀ c ∈ digits.takeWhile (· = '0'), c = '0' := by
    intro c hc
    simpa using List.all_eq_true.mp all_takeWhile c hc
  have hsplit := takeWhile_append_dropWhile (p := (· = '0')) (l := digits)
  rw [eq_replicate_of_mem hzeros] at hsplit
  have hzero : base62Alphabet.idxOf '0' = 0 := by decide
  calc base62Value (digits.dropWhile (· = '0'))
      = value 62 ((digits.dropWhile (· = '0')).map base62Alphabet.idxOf) :=
        base62Value_eq _
    _ = base62Value (List.replicate (digits.takeWhile (· = '0')).length '0' ++
          digits.dropWhile (· = '0')) := by
        rw [base62Value_eq, map_append, map_replicate, hzero, value_zeros_append]
    _ = base62Value digits := by rw [hsplit]

theorem fits_iff {digits : List Char} (h : ∀ c ∈ digits, c ∈ base62Alphabet) :
    Fits digits ↔ base62Value digits < 256 ^ 16 := by
  have hmem : ∀ c ∈ digits.dropWhile (· = '0'), c ∈ base62Alphabet :=
    fun c hc => h c ((dropWhile_sublist _).subset hc)
  have hhead : ∀ c ∈ (digits.dropWhile (· = '0')).head?, c ≠ '0' := by
    intro c hc
    have hnot := head?_dropWhile_not (· = '0') digits
    rw [mem_def.mp hc] at hnot
    simpa using hnot
  rw [← base62Value_dropZeros, Fits]
  generalize digits.dropWhile (· = '0') = significant at hmem hhead ⊢
  have hlt := value_lt (by decide) (idxOf_lt hmem)
  rw [← base62Value_eq, length_map] at hlt
  rcases Nat.lt_trichotomy significant.length 22 with hless | hsame | hmore
  · have hpow : 62 ^ significant.length ≤ 62 ^ 21 := Nat.pow_le_pow_right (by decide) (by omega)
    have hfits : base62Value significant < 256 ^ 16 :=
      hlt.trans_le (hpow.trans (by norm_num))
    exact ⟨fun _ => hfits, fun _ => .inl hless⟩
  · have hall : greatestId.all base62Alphabet.contains = true := by decide +kernel
    have hgreatest (c : Char) (hc : c ∈ greatestId) : c ∈ base62Alphabet :=
      contains_iff_mem.mp (List.all_eq_true.mp hall c hc)
    have hlen : (greatestId.map base62Alphabet.idxOf).length =
        (significant.map base62Alphabet.idxOf).length := by
      rw [length_map, length_map, hsame]
      decide +kernel
    have horder := value_lt_value_iff (by decide) (idxOf_lt hgreatest) (idxOf_lt hmem) hlen
    rw [← base62Value_eq, ← base62Value_eq] at horder
    have hbound := base62Value_greatestId
    constructor
    · rintro (h | ⟨-, h⟩)
      · omega
      · have hle : ¬ base62Value greatestId < base62Value significant := mt horder.mp h
        omega
    · intro h
      refine .inr ⟨hsame, fun hgt => ?_⟩
      have := horder.mpr hgt
      omega
  · have hne : significant ≠ [] := by
      rintro rfl
      simp at hmore
    obtain ⟨c, tail, rfl⟩ := exists_cons_of_ne_nil hne
    have hc : base62Alphabet.idxOf c ≠ 0 := by
      have hzero : base62Alphabet.idxOf '0' = 0 := by decide
      rw [← hzero]
      intro hidx
      exact hhead c rfl ((idxOf_inj (hmem c mem_cons_self)).mp hidx)
    have hlen : (tail.map base62Alphabet.idxOf).length = tail.length := length_map _
    have hle : 62 ^ tail.length ≤ base62Value (c :: tail) := by
      rw [base62Value_eq, map_cons, ← hlen]
      exact le_value hc
    have hpow : 62 ^ 22 ≤ 62 ^ tail.length := by
      refine Nat.pow_le_pow_right (by decide) ?_
      simp only [length_cons] at hmore
      omega
    have hbig : 256 ^ 16 ≤ base62Value (c :: tail) := by
      refine le_trans ?_ (hpow.trans hle)
      norm_num
    constructor
    · rintro (h | ⟨h, -⟩) <;> omega
    · intro h
      omega

/-! ## What is answered -/

theorem length_natToBytes16 (n : Nat) : (natToBytes16 n).length = 16 := by simp [natToBytes16]

theorem answers_ite {n : Nat} {typ : SpotifyIdType} :
    Answers (if n < 256 ^ 16 then some (.ok ⟨typ, natToBytes16 n⟩) else none) ↔ n < 256 ^ 16 := by
  constructor
  · rintro ⟨answer, hanswer, -⟩
    by_contra hbig
    rw [if_neg hbig] at hanswer
    simp at hanswer
  · intro hfits
    refine ⟨_, if_pos hfits, fun id hid => ?_⟩
    obtain rfl : (⟨typ, natToBytes16 n⟩ : SpotifyId) = id := Except.ok.inj hid
    exact length_natToBytes16 n

theorem answers_error (err : Err) : Answers (some (.error err)) :=
  ⟨_, rfl, fun _ hid => nomatch hid⟩

def unsigned : List Char → List Char
  | '-' :: digits => digits
  | '+' :: digits => digits
  | digits => digits

theorem setString62_eq (id : List Char) :
    ∃ f : Nat → Int, (∀ n, (f n).natAbs = n) ∧ setString62 id = (parse62 (unsigned id)).map f := by
  unfold setString62
  split
  · exact ⟨fun n => -Int.ofNat n, fun n => by simp, rfl⟩
  · exact ⟨Int.ofNat, fun n => rfl, rfl⟩
  · rename_i hminus hplus
    have hsame : unsigned id = id := by
      unfold unsigned
      split
      · exact (hminus _ rfl).elim
      · exact (hplus _ rfl).elim
      · rfl
    exact ⟨Int.ofNat, fun n => rfl, by rw [hsame]⟩

theorem spotifyIdFromBase62_answers (typ : SpotifyIdType) (id : String) :
    Answers (spotifyIdFromBase62 typ id) ↔
      ((∀ c ∈ unsigned id.toList, c ∈ base62Alphabet) → Fits (unsigned id.toList)) := by
  obtain ⟨f, habs, hset⟩ := setString62_eq id.toList
  by_cases hdigits : unsigned id.toList ≠ [] ∧
      (unsigned id.toList).all (base62Alphabet.contains ·) = true
  · have hall : ∀ c ∈ unsigned id.toList, c ∈ base62Alphabet := by simpa using hdigits.2
    simp only [spotifyIdFromBase62, hset, parse62, if_pos hdigits, map_some, habs]
    rw [answers_ite, fits_iff hall]
    exact ⟨fun h _ => h, fun h => h hall⟩
  · simp only [spotifyIdFromBase62, hset, parse62, if_neg hdigits, map_none]
    refine ⟨fun _ hall => ?_, fun _ => answers_error _⟩
    have hnil : unsigned id.toList = [] := by
      by_contra hne
      exact hdigits ⟨hne, by simpa using hall⟩
    rw [hnil]
    exact .inl (by decide)

/-- For every string: the digits of its uri fit, and those of its id. -/
theorem ids_answer_iff (uri id : String) (typ : SpotifyIdType) :
    (Answers (spotifyIdFromUri uri) ↔
      ∀ word digits, matchUri uri = some (word, digits) → Fits digits) ∧
    (Answers (spotifyIdFromBase62 typ id) ↔
      ((∀ c ∈ unsigned id.toList, c ∈ base62Alphabet) → Fits (unsigned id.toList))) := by
  refine ⟨?_, spotifyIdFromBase62_answers typ id⟩
  cases hmatch : matchUri uri with
  | none =>
    simp only [spotifyIdFromUri, hmatch]
    exact ⟨fun _ word digits h => absurd h (by simp), fun _ => answers_error _⟩
  | some found =>
    obtain ⟨word, digits⟩ := found
    simp only [spotifyIdFromUri, hmatch]
    rw [answers_ite, ← fits_iff (matchUri_id hmatch).2]
    constructor
    · intro h word' digits' heq
      cases heq
      exact h
    · exact fun h => h word digits rfl

/-- The first 22 digits in the alphabet's order that are too many. -/
theorem ids_panic :
    matchUri "spotify:track:8000000000000000000000" =
      some ("track", "8000000000000000000000".toList) ∧
    spotifyIdFromUri "spotify:track:8000000000000000000000" = none ∧
    spotifyIdFromBase62 "playlist" "8000000000000000000000" = none := by
  decide +kernel

end Librespot
