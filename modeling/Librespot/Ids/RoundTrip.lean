import Librespot.Base.Numeral
import Librespot.Ids

/-!
# Gids, base 62 and uris

A gid is a number of 128 bits and its uri writes it with 22 digits in base 62. The digits are enough
because `62 ^ 21 < 2 ^ 128 < 62 ^ 22`.
-/

open Base List Option

namespace Librespot

open Numeral

/-! ## Parsing base 62 -/

def parse62 (digits : List Char) : Option Nat :=
  if digits ≠ [] ∧ digits.all (base62Alphabet.contains ·) then some (base62Value digits) else none

/-- `big.Int.SetString` in base 62: a sign may stand in front of the digits. -/
def setString62 : List Char → Option Int
  | '-' :: digits => (parse62 digits).map fun n => -Int.ofNat n
  | '+' :: digits => (parse62 digits).map Int.ofNat
  | digits => (parse62 digits).map Int.ofNat

/-- `FillBytes` takes the absolute value and panics when it does not fit the 16 bytes. -/
def spotifyIdFromBase62 (typ : SpotifyIdType) (id : String) : Option (Except Err SpotifyId) :=
  match setString62 id.toList with
  | none => some (.error { text := "failed decoding base62: " ++ id })
  | some i => if i.natAbs < 256 ^ 16 then some (.ok ⟨typ, natToBytes16 i.natAbs⟩) else none

variable {id : List Char} {typ : SpotifyIdType} {d : Nat}

theorem setString62_digits (hne : id ≠ []) (hall : ∀ c ∈ id, c ∈ base62Alphabet) :
    setString62 id = some (Int.ofNat (base62Value id)) := by
  have hdigits : id ≠ [] ∧ id.all (base62Alphabet.contains ·) = true := ⟨hne, by simpa using hall⟩
  unfold setString62
  split
  · exact absurd (hall '-' mem_cons_self) (by decide)
  · exact absurd (hall '+' mem_cons_self) (by decide)
  · rw [parse62, if_pos hdigits, map_some]

theorem matchUri_id {uri : String} (h : matchUri uri = some (typ, id)) :
    id ≠ [] ∧ ∀ c ∈ id, c ∈ base62Alphabet := by
  unfold matchUri at h
  simp only at h
  split at h
  · split at h
    · split at h
      · rename_i hid
        cases h
        refine ⟨fun hnil => ?_, by simpa using hid.2⟩
        have := hid.1
        simp [hnil] at this
      · simp at h
    · simp at h
  · simp at h

theorem spotifyIdFromUri_matched {uri : String} (h : matchUri uri = some (typ, id)) :
    spotifyIdFromUri uri = spotifyIdFromBase62 typ (String.ofList id) := by
  obtain ⟨hne, hall⟩ := matchUri_id h
  simp only [spotifyIdFromUri, h, spotifyIdFromBase62, String.toList_ofList,
    setString62_digits hne hall, Int.ofNat_eq_natCast, Int.natAbs_natCast]

/-! ## The digits of a gid -/

theorem base62Alphabet_nodup : base62Alphabet.Nodup := by decide

theorem base62Alphabet_length : base62Alphabet.length = 62 := by decide

def digit62 (d : Nat) : Char := base62Alphabet.getD d '0'

theorem digit62_eq (h : d < 62) :
    digit62 d = base62Alphabet.get ⟨d, by rw [base62Alphabet_length]; exact h⟩ := by
  have hlt : d < base62Alphabet.length := by rw [base62Alphabet_length]; exact h
  rw [digit62, getD_eq_getElem?_getD, getElem?_eq_getElem hlt, getD_some, get_eq_getElem]

theorem digit62_mem (h : d < 62) : digit62 d ∈ base62Alphabet := by
  rw [digit62_eq h]
  exact getElem_mem _

theorem idxOf_digit62 (h : d < 62) : base62Alphabet.idxOf (digit62 d) = d := by
  rw [digit62_eq h]
  exact base62Alphabet_nodup.idxOf_getElem d _

theorem base62Value_eq (id : List Char) :
    base62Value id = Numeral.value 62 (id.map base62Alphabet.idxOf) :=
  Numeral.value_map_foldl 62 _ id

theorem base62Value_digits {digits : List Nat} (h : ∀ d ∈ digits, d < 62) :
    base62Value (digits.map digit62) = Numeral.value 62 digits := by
  have hsame : digits.map (base62Alphabet.idxOf ∘ digit62) = digits :=
    (map_congr_left fun d hd => idxOf_digit62 (h d hd)).trans (List.map_id' digits)
  rw [base62Value_eq, List.map_map, hsame]

theorem text62_eq (n : Nat) : ∃ digits : List Nat, text62 n = digits.map digit62 ∧
    (∀ d ∈ digits, d < 62) ∧ Numeral.value 62 digits = n ∧
    ∀ k, 0 < k → n < 62 ^ k → digits.length ≤ k := by
  unfold text62
  by_cases h0 : n = 0
  · subst h0
    exact ⟨[0], rfl, by simp, rfl, fun k hk _ => hk⟩
  · refine ⟨(Nat.digits 62 n).reverse, if_neg h0, fun d hd => ?_, value_digits 62 n,
      fun k _ hk => ?_⟩
    · exact Nat.digits_lt_base (by decide) (mem_reverse.mp hd)
    · rw [length_reverse]
      exact (Nat.digits_length_le_iff (by decide) n).mpr hk

theorem bytesToNat_eq (id : Bytes) : bytesToNat id = Numeral.value 256 (id.map UInt8.toNat) :=
  Numeral.value_map_foldl 256 _ id

theorem byte_lt (id : Bytes) : ∀ d ∈ id.map UInt8.toNat, d < 256 := by
  intro d hd
  obtain ⟨b, -, rfl⟩ := List.mem_map.mp hd
  exact b.toNat_lt

theorem bytesToNat_lt (id : Bytes) : bytesToNat id < 256 ^ id.length := by
  have h := value_lt (by decide) (byte_lt id)
  rwa [← bytesToNat_eq, length_map] at h

theorem gidToBase62_eq {id : Bytes} (h : id.length = 16) : ∃ digits : List Char,
    gidToBase62 id = some (String.ofList digits) ∧ digits.length = 22 ∧
    (∀ c ∈ digits, c ∈ base62Alphabet) ∧ base62Value digits = bytesToNat id := by
  obtain ⟨digits, htext, hlt, hvalue, hlength⟩ := text62_eq (bytesToNat id)
  have hbound : bytesToNat id < 62 ^ 22 := by
    have := bytesToNat_lt id
    rw [h] at this
    exact this.trans (by norm_num)
  have hlen := hlength 22 (by decide) hbound
  have hpad : List.replicate (22 - digits.length) '0' ++ digits.map digit62 =
      (List.replicate (22 - digits.length) 0 ++ digits).map digit62 := by
    rw [map_append, map_replicate]
    rfl
  have hall : ∀ d ∈ List.replicate (22 - digits.length) 0 ++ digits, d < 62 := by
    intro d hd
    rcases mem_append.mp hd with hz | hd
    · rw [eq_of_mem_replicate hz]
      decide
    · exact hlt d hd
  refine ⟨(List.replicate (22 - digits.length) 0 ++ digits).map digit62, ?_, ?_, ?_, ?_⟩
  · simp only [gidToBase62, htext, length_map, if_pos hlen, hpad]
  · rw [length_map, length_append, length_replicate]
    omega
  · intro c hc
    obtain ⟨d, hd, rfl⟩ := List.mem_map.mp hc
    exact digit62_mem (hall d hd)
  · rw [base62Value_digits hall, value_zeros_append, hvalue]

theorem gidUri_isSome (typ : SpotifyIdType) {gid : Bytes} (h : gid.length = 16) :
    (gidUri typ gid).isSome = true := by
  obtain ⟨digits, h62, -⟩ := gidToBase62_eq h
  simp [gidUri, spotifyIdFromGid, h, SpotifyId.uri, h62]

theorem natToBytes16_bytesToNat {id : Bytes} (h : id.length = 16) :
    natToBytes16 (bytesToNat id) = id := by
  have hexpand := expand_value (by decide) (byte_lt id)
  rw [← bytesToNat_eq, length_map, h] at hexpand
  calc natToBytes16 (bytesToNat id)
      = (expand 256 16 (bytesToNat id)).map UInt8.ofNat := by
        rw [natToBytes16, expand, List.map_map]
        refine map_congr_left fun i _ => ?_
        exact UInt8.ofNat_mod_size.symm
    _ = id := by
        rw [hexpand, List.map_map]
        exact (map_congr_left fun b _ => UInt8.ofNat_toNat).trans (List.map_id' id)

/-! ## The round trip -/

def IsTypeWord (typ : SpotifyIdType) : Prop := typ ≠ "" ∧ ∀ c ∈ typ.toList, 'a' ≤ c ∧ c ≤ 'z'

instance (typ : SpotifyIdType) : Decidable (IsTypeWord typ) :=
  inferInstanceAs (Decidable (_ ∧ _))

theorem matchUri_of_parts (htyp : IsTypeWord typ) (hlen : id.length = 21 ∨ id.length = 22)
    (hall : ∀ c ∈ id, c ∈ base62Alphabet) :
    matchUri ("spotify:" ++ typ ++ ":" ++ String.ofList id) = some (typ, id) := by
  have hchars : ("spotify:" ++ typ ++ ":" ++ String.ofList id).toList =
      "spotify:".toList ++ (typ.toList ++ ':' :: id) := by
    simp
  have hlow : ∀ c ∈ typ.toList, c.isLower = true := by
    intro c hc
    obtain ⟨hge, hle⟩ := htyp.2 c hc
    exact Bool.and_eq_true_iff.mpr ⟨decide_eq_true hge, decide_eq_true hle⟩
  have htake : ("spotify:".toList ++ (typ.toList ++ ':' :: id)).take 8 = "spotify:".toList :=
    take_left' rfl
  have hdrop : ("spotify:".toList ++ (typ.toList ++ ':' :: id)).drop 8 = typ.toList ++ ':' :: id :=
    drop_left' rfl
  have hword : (typ.toList ++ ':' :: id).takeWhile Char.isLower = typ.toList := by
    rw [takeWhile_append_of_pos hlow, takeWhile_cons_of_neg (by decide), append_nil]
  have hrest : (typ.toList ++ ':' :: id).dropWhile Char.isLower = ':' :: id := by
    rw [dropWhile_append_of_pos hlow, dropWhile_cons_of_neg (by decide)]
  obtain ⟨c, word, htoList⟩ : ∃ c word, typ.toList = c :: word :=
    exists_cons_of_ne_nil fun hnil => htyp.1 (String.toList_eq_nil_iff.mp hnil)
  have hdigits : (id.length = 21 ∨ id.length = 22) ∧ id.all (base62Alphabet.contains ·) = true :=
    ⟨hlen, by simpa using hall⟩
  simp only [matchUri, hchars, htake, if_true, hdrop, hword, hrest]
  have hback : String.ofList (c :: word) = typ := by rw [← htoList, String.ofList_toList]
  simp only [htoList, if_pos hdigits, hback]

/-- The uri of a gid is always well formed, and the gid is read back from it. -/
theorem uri_roundTrip (typ : SpotifyIdType) (gid : Bytes) (htyp : IsTypeWord typ)
    (hgid : gid.length = 16) :
    ∃ id base62 uri, spotifyIdFromGid typ gid = some id ∧ gidToBase62 gid = some base62 ∧
      base62.toList.length = 22 ∧ (∀ c ∈ base62.toList, c ∈ base62Alphabet) ∧
      id.uri = some uri ∧ matchUri uri = some (typ, base62.toList) ∧
      spotifyIdFromUri uri = some (.ok ⟨typ, gid⟩) := by
  obtain ⟨digits, h62, hlen, hall, hvalue⟩ := gidToBase62_eq hgid
  have hmatch := matchUri_of_parts htyp (.inr hlen) hall
  refine ⟨⟨typ, gid⟩, String.ofList digits, _, if_pos hgid, h62, by simpa using hlen,
    by simpa using hall, by rw [SpotifyId.uri, h62, map_some], by simpa using hmatch, ?_⟩
  have hfit : (Int.ofNat (base62Value digits)).natAbs < 256 ^ 16 := by
    have := bytesToNat_lt gid
    rw [hgid] at this
    rwa [hvalue]
  have hne : digits ≠ [] := fun hnil => by simp [hnil] at hlen
  rw [spotifyIdFromUri_matched hmatch, spotifyIdFromBase62, String.toList_ofList,
    setString62_digits hne hall]
  simp only [if_pos hfit]
  rw [Int.ofNat_eq_natCast, Int.natAbs_natCast, hvalue, natToBytes16_bytesToNat hgid]

theorem uri_roundTrip_zero : IsTypeWord "track" ∧ (List.replicate 16 (0 : UInt8)).length = 16 ∧
    ∃ id base62 uri, spotifyIdFromGid "track" (List.replicate 16 0) = some id ∧
      gidToBase62 (List.replicate 16 0) = some base62 ∧ base62.toList.length = 22 ∧
      id.uri = some uri ∧ spotifyIdFromUri uri = some (.ok ⟨"track", List.replicate 16 0⟩) := by
  have htyp : IsTypeWord "track" := by simp [IsTypeWord]
  obtain ⟨id, base62, uri, h1, h2, h3, -, h4, -, h5⟩ :=
    uri_roundTrip "track" (List.replicate 16 0) htyp rfl
  exact ⟨htyp, rfl, id, base62, uri, h1, h2, h3, h4, h5⟩

end Librespot
