import Librespot.Audio.Decryptor

/-!
# Pairing over zeroconf (`dh/dh.go`, `zeroconf/zeroconf.go`)

The hash, the MAC and the block cipher are parameters, and so is the decoding of base 64.
-/

open Base List

namespace Librespot.Zeroconf

def dhGenerator : Nat := 2

def dhPrime : Nat :=
  0xffffffffffffffffc90fdaa22168c234c4c6628b80dc1cd129024e088a67cc74 * 2 ^ 512 +
    0x020bbea63b139b22514a08798e3404ddef9519b3cd3a431b302b0a6df25f1437 * 2 ^ 256 +
    0x4fe1356d6d51c245e485b576625e7ec6f44c42e9a63a3620ffffffffffffffff

/-- `Bytes` of a `big.Int`: without leading zeros. -/
def bigBytes (n : Nat) : Bytes := (Nat.digits 256 n).reverse.map UInt8.ofNat

theorem ofBytes_bigBytes (n : Nat) : Numeral.ofBytes (bigBytes n) = n := by
  have hdigits : (bigBytes n).map UInt8.toNat = (Nat.digits 256 n).reverse := by
    rw [bigBytes, map_map]
    refine (map_congr_left fun d hd => ?_).trans (map_id _)
    exact UInt8.toNat_ofNat_of_lt' (Nat.digits_lt_base (by decide) (mem_reverse.mp hd))
  rw [Numeral.ofBytes, hdigits, Numeral.value_digits]

structure DiffieHellman where
  privateKey : Nat
  publicKey : Nat
  power : publicKey = dhGenerator ^ privateKey % dhPrime

namespace DiffieHellman

def new (privateKeyData : Bytes) : DiffieHellman where
  privateKey := Numeral.ofBytes privateKeyData
  publicKey := dhGenerator ^ Numeral.ofBytes privateKeyData % dhPrime
  power := rfl

def exchange (dh : DiffieHellman) (remoteKeyBytes : Bytes) : Bytes :=
  bigBytes (Numeral.ofBytes remoteKeyBytes ^ dh.privateKey % dhPrime)

def publicKeyBytes (dh : DiffieHellman) : Bytes := bigBytes dh.publicKey

theorem exchange_comm (a b : DiffieHellman) :
    a.exchange b.publicKeyBytes = b.exchange a.publicKeyBytes := by
  unfold exchange publicKeyBytes
  rw [ofBytes_bigBytes, ofBytes_bigBytes, a.power, b.power, ← Nat.pow_mod, ← Nat.pow_mod,
    ← Nat.pow_mul, ← Nat.pow_mul, Nat.mul_comm]

end DiffieHellman

section Blob

variable (hash : Bytes → Bytes) (mac : Bytes → Bytes → Bytes) (aes : Bytes → Audio.Cipher)

def checksum (secret encrypted : Bytes) : Bytes :=
  let baseKey := (hash secret).take 16
  mac (mac baseKey "checksum".toUTF8.toList) encrypted

def crypt (secret iv text : Bytes) : Bytes :=
  let baseKey := (hash secret).take 16
  let encryptionKey := (mac baseKey "encryption".toUTF8.toList).take 16
  (Audio.xorKeyStream (aes encryptionKey) (Audio.newCTR iv) text).1

/-- `none` is the answer to a bad checksum. -/
def openBlob (dh : DiffieHellman) (blob clientKey : Bytes) : Except Err (Option Bytes) :=
  if blob.length < 16 + 1 + 20 then
    .error { text := "invalid blob: too short (" ++ toString blob.length ++ " bytes)" }
  else
    let sharedSecret := dh.exchange clientKey
    let iv := blob.take 16
    let encrypted := (blob.take (blob.length - 20)).drop 16
    if checksum hash mac sharedSecret encrypted ≠ blob.drop (blob.length - 20) then .ok none
    else .ok (some (crypt hash mac aes sharedSecret iv encrypted))

def sealBlob (secret iv data : Bytes) : Bytes :=
  let encrypted := crypt hash mac aes secret iv data
  iv ++ encrypted ++ checksum hash mac secret encrypted

theorem crypt_crypt (secret iv text : Bytes) :
    crypt hash mac aes secret iv (crypt hash mac aes secret iv text) = text := by
  apply Ctr.xorKeyStream_xorKeyStream
  intro a k
  rw [UInt8.xor_assoc, UInt8.xor_self, UInt8.xor_zero]

theorem crypt_ne_nil (secret iv : Bytes) {text : Bytes} (h : text ≠ []) :
    crypt hash mac aes secret iv text ≠ [] := by
  intro hnil
  have htext := crypt_crypt hash mac aes secret iv text
  rw [hnil] at htext
  exact h htext.symm

theorem slices {iv sum : Bytes} (hiv : iv.length = 16) (hsum : sum.length = 20) (text : Bytes) :
    (iv ++ text ++ sum).length = 16 + text.length + 20 ∧ (iv ++ text ++ sum).take 16 = iv ∧
      ((iv ++ text ++ sum).take (16 + text.length + 20 - 20)).drop 16 = text ∧
      (iv ++ text ++ sum).drop (16 + text.length + 20 - 20) = sum := by
  have hcut : 16 + text.length + 20 - 20 = (iv ++ text).length := by simp [hiv]
  refine ⟨by simp [hiv, hsum, Nat.add_assoc], ?_, ?_, ?_⟩
  · rw [append_assoc, take_left' hiv]
  · rw [hcut, take_left, drop_left' hiv]
  · rw [hcut, drop_left]

end Blob

/-- A blob is opened, to `data`, exactly if the holder of the other key has sealed `data` with the
secret that this key makes of the daemon's. -/
theorem openBlob_iff_sealed {hash : Bytes → Bytes} {mac : Bytes → Bytes → Bytes}
    (hmac : ∀ key text, (mac key text).length = 20) (aes : Bytes → Audio.Cipher)
    (dh other : DiffieHellman) (blob data : Bytes) :
    openBlob hash mac aes dh blob other.publicKeyBytes = .ok (some data) ↔
      ∃ iv, iv.length = 16 ∧ data ≠ [] ∧
        blob = sealBlob hash mac aes (other.exchange dh.publicKeyBytes) iv data := by
  rw [← dh.exchange_comm other]
  unfold openBlob
  generalize dh.exchange other.publicKeyBytes = secret
  constructor
  · intro h
    split at h
    · cases h
    · rename_i hlen
      simp only [ne_eq, ite_not] at h
      split at h
      · rename_i hsum
        cases h
        refine ⟨blob.take 16, by rw [length_take]; omega, ?_, ?_⟩
        · apply crypt_ne_nil
          apply ne_nil_of_length_pos
          rw [length_drop, length_take]
          omega
        · have hiv : blob.take 16 = (blob.take (blob.length - 20)).take 16 := by
            rw [take_take, min_eq_left (by omega)]
          simp only [sealBlob]
          rw [crypt_crypt, hsum, hiv, take_append_drop, take_append_drop]
      · cases h
  · rintro ⟨iv, hiv, hdata, rfl⟩
    have hpos := length_pos_of_ne_nil (crypt_ne_nil hash mac aes secret iv hdata)
    have hback := crypt_crypt hash mac aes secret iv data
    unfold sealBlob
    generalize crypt hash mac aes secret iv data = encrypted at hpos hback ⊢
    have hsum : (checksum hash mac secret encrypted).length = 20 := hmac _ encrypted
    obtain ⟨hlen, hhead, hbody, htail⟩ := slices hiv hsum encrypted
    simp only [hlen, hhead, hbody, htail]
    rw [if_neg (by omega), if_neg (by simp), hback]

def paddedMac (key text : Bytes) : Bytes := (key ++ text ++ replicate 20 0).take 20

theorem openBlob_iff_sealed_oneByte :
    openBlob reverse paddedMac (fun key _ _ => key.foldl (· ^^^ ·) 0) (.new [3])
      (sealBlob reverse paddedMac (fun key _ _ => key.foldl (· ^^^ ·) 0)
        ((DiffieHellman.new [4]).exchange (DiffieHellman.new [3]).publicKeyBytes)
        (replicate 16 0) [7]) (DiffieHellman.new [4]).publicKeyBytes = .ok (some [7]) :=
  (openBlob_iff_sealed (fun _ _ => by simp [paddedMac]; omega) _ _ _ _ _).mpr ⟨_, rfl, by simp, rfl⟩

end Librespot.Zeroconf
