import Librespot.Base.Ctr
import Librespot.Base.Numeral
import Librespot.Ids

/-! # The audio decryptor (`audio/decryptor.go`) -/

open Base List

namespace Librespot.Audio

open Numeral

def baseIv : Bytes :=
  [0x72, 0xe0, 0x67, 0xfb, 0xdd, 0xcb, 0xcf, 0x77, 0xeb, 0xe8, 0xbc, 0x64, 0x3f, 0x63, 0x0d, 0x93]

def beUint64 (b : Bytes) : UInt64 := UInt64.ofNat (Numeral.ofBytes b)

def putUint64 (v : UInt64) : Bytes := Numeral.toBytes 8 v.toNat

abbrev Cipher := BitVec 128 → Fin 16 → UInt8

def newCTR (iv : Bytes) : Ctr.Stream 128 UInt8 where
  ctr := BitVec.ofNat 128 (Numeral.ofBytes iv)

def xorKeyStream (cipher : Cipher) (stream : Ctr.Stream 128 UInt8) (src : Bytes) :
    Bytes × Ctr.Stream 128 UInt8 :=
  Ctr.xorKeyStream cipher (· ^^^ ·) stream src

/-- The reader is given the length of the buffer and the position, and gives the bytes it has
copied. -/
structure Decryptor where
  reader : Nat → Nat → Bytes × Option Err
  cipher : Cipher

def Decryptor.readAt (a : Decryptor) (len pos : Nat) : Bytes × Option Err :=
  let bs := 16
  let block := UInt64.ofNat (pos / bs)
  let off := pos % bs
  let counter := beUint64 (baseIv.drop 8) + block
  let newIv := baseIv.take 8 ++ putUint64 counter
  let stream := newCTR newIv
  let stream :=
    if off > 0 then (xorKeyStream a.cipher stream (List.replicate off 0)).2 else stream
  let (out, err) := a.reader len pos
  let out := if out.length > 0 then (xorKeyStream a.cipher stream out).1 else out
  (out, err)

def decrypted (cipher : Cipher) (text : Bytes) : Bytes :=
  (xorKeyStream cipher (newCTR baseIv) text).1

/-! ## Random access -/

variable {pos : Nat}

theorem counter_lt (h : pos < 2 ^ 63) : (beUint64 (baseIv.drop 8)).toNat + pos / 16 < 2 ^ 64 := by
  have hbase : (beUint64 (baseIv.drop 8)).toNat = 0xebe8bc643f630d93 := by decide
  omega

theorem newIv_counter (h : pos < 2 ^ 63) :
    newCTR (baseIv.take 8 ++ putUint64 (beUint64 (baseIv.drop 8) + UInt64.ofNat (pos / 16))) =
      { ctr := (newCTR baseIv).ctr + BitVec.ofNat 128 (pos / 16) } := by
  have hlt := counter_lt h
  have hsum : (beUint64 (baseIv.drop 8) + UInt64.ofNat (pos / 16)).toNat =
      ofBytes (baseIv.drop 8) + pos / 16 := by
    rw [UInt64.toNat_add, UInt64.toNat_ofNat_of_lt' (by rw [UInt64.size]; omega), Nat.mod_eq_of_lt hlt]
    rfl
  have hbase : ofBytes baseIv =
      256 ^ 8 * ofBytes (baseIv.take 8) + ofBytes (baseIv.drop 8) := by decide
  unfold newCTR
  rw [ofBytes_append, putUint64, length_toBytes,
    ofBytes_toBytes (UInt64.toNat_lt _), hsum, ← Nat.add_assoc, ← hbase, BitVec.ofNat_add]

theorem readAt_mixed (a : Decryptor) (len : Nat) (h : pos < 2 ^ 63) :
    a.readAt len pos =
      (Ctr.mixed (· ^^^ ·) (Ctr.keystream a.cipher (newCTR baseIv).ctr) pos (a.reader len pos).1,
        (a.reader len pos).2) := by
  have hnew := newIv_counter h
  unfold Decryptor.readAt
  simp only [hnew]
  generalize hiv : (newCTR baseIv).ctr + BitVec.ofNat 128 (pos / 16) = iv
  generalize hstream : (if pos % 16 > 0 then
    (xorKeyStream a.cipher { ctr := iv } (List.replicate (pos % 16) 0)).2
    else { ctr := iv }) = stream
  have hat : Ctr.At a.cipher iv (pos % 16) stream := by
    rw [← hstream]
    split_ifs with hoff
    · have hthrown := ((Ctr.at_new a.cipher iv).xorKeyStream (· ^^^ ·)
        (List.replicate (pos % 16) (0 : UInt8))).2
      rwa [length_replicate, Nat.zero_add] at hthrown
    · rw [Nat.eq_zero_of_not_pos hoff]
      exact Ctr.at_new a.cipher iv
  have hshift : ∀ j, Ctr.keystream a.cipher iv (pos % 16 + j) =
      Ctr.keystream a.cipher (newCTR baseIv).ctr (pos + j) := by
    intro j
    rw [← hiv, Ctr.keystream_add, ← Nat.add_assoc, Nat.div_add_mod]
  rcases hout : (a.reader len pos).1 with _ | ⟨b, out⟩
  · rfl
  · rw [if_pos (length_pos_of_mem mem_cons_self)]
    simp only [xorKeyStream, (hat.xorKeyStream _ _).1, Ctr.mixed, hshift]

/-- A read at any position gives what decrypting the file from its start gives there. -/
theorem readAt_eq_sequential (a : Decryptor) (len : Nat) (h : pos < 2 ^ 63) :
    (beUint64 (baseIv.drop 8)).toNat + pos / 16 < 2 ^ 64 ∧
    a.readAt len pos =
      (Ctr.mixed (· ^^^ ·) (Ctr.keystream a.cipher (newCTR baseIv).ctr) pos (a.reader len pos).1,
        (a.reader len pos).2) ∧
    ∀ (text : Bytes) (n : Nat), (a.reader len pos).1 = (text.drop pos).take n →
      (a.readAt len pos).1 = ((decrypted a.cipher text).drop pos).take n := by
  refine ⟨counter_lt h, readAt_mixed a len h, ?_⟩
  intro text n hread
  have hwhole : decrypted a.cipher text =
      Ctr.mixed (· ^^^ ·) (Ctr.keystream a.cipher (newCTR baseIv).ctr) 0 text :=
    ((Ctr.at_new a.cipher (newCTR baseIv).ctr).xorKeyStream (· ^^^ ·) text).1
  rw [readAt_mixed a len h, hread, hwhole, Ctr.mixed_slice, Nat.zero_add]

def twentyBytes : Decryptor where
  reader len pos := (((List.replicate 20 7).drop pos).take len, none)
  cipher block i := UInt8.ofNat (block.toNat + i)

theorem readAt_eq_sequential_twentyBytes :
    twentyBytes.readAt 2 17 = ([0x92, 0x91], none) ∧
    (twentyBytes.readAt 2 17).1 =
      ((decrypted twentyBytes.cipher (List.replicate 20 7)).drop 17).take 2 :=
  ⟨by decide, (readAt_eq_sequential twentyBytes 2 (by decide)).2.2 (List.replicate 20 7) 2 rfl⟩

end Librespot.Audio
