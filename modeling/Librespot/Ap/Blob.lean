import Librespot.Ids
import Mathlib.Logic.Equiv.Defs
import Mathlib.Data.List.OfFn

/-!
# The credentials in a blob (`ap/ap.go`, `ConnectBlob`)

The decoding of base 64 is a parameter, and so is the permutation that AES decrypts a block with
under the key of a username. `none` is a panic, and `maxAlloc` is the most that `make` allocates.
-/

open List Option

namespace Librespot.Ap

abbrev Block : Type := Fin 16 → UInt8

structure LoginCredentials where
  typ : Int
  username : String
  authData : Bytes
deriving DecidableEq, Repr

/-- The blocks of `encrypted`, one for each step of the loop. A last byte of its own is left zero,
and `Decrypt` panics on any other part of a block. -/
def decryptBlocks (aes : Equiv.Perm Block) : Nat → Bytes → Option Bytes
  | 0, encrypted => some (List.replicate encrypted.length 0)
  | steps + 1, encrypted =>
    if encrypted.length ≤ 1 then some (List.replicate encrypted.length 0)
    else if encrypted.length < 16 then none
    else
      (decryptBlocks aes steps (encrypted.drop 16)).map
        (List.ofFn (aes fun i => encrypted.getD i 0) ++ ·)

def unchain (decrypted : Bytes) : Bytes :=
  (List.range (decrypted.length - 16)).foldl (fun blob i =>
    blob.set (blob.length - i - 1)
      (blob.getD (blob.length - i - 1) 0 ^^^ blob.getD (blob.length - i - 17) 0)) decrypted

structure Reader where
  data : Bytes
  i : Nat := 0
deriving DecidableEq, Repr

namespace Reader

def seekCurrent (offset : Int) (r : Reader) : Reader :=
  let abs := Int.bmod (r.i + offset) (2 ^ 64)
  if abs < 0 then r else { r with i := abs.toNat }

/-- The loop of `binary.ReadUvarint` for the last `n` of its ten bytes. It returns what it has when
there is an error. -/
def uvarintFrom (x s : UInt64) : Nat → Reader → UInt64 × Reader
  | 0, r => (x, r)
  | n + 1, r =>
    match r.data[r.i]? with
    | none => (x, r)
    | some b =>
      let r := { r with i := r.i + 1 }
      if b < 0x80 then
        if n = 0 ∧ b > 1 then (x, r) else (x ||| b.toUInt64 <<< s, r)
      else uvarintFrom (x ||| (b &&& 0x7f).toUInt64 <<< s) (s + 7) n r

def readUvarint (r : Reader) : UInt64 × Reader := uvarintFrom 0 0 10 r

def read (n : Nat) (r : Reader) : Bytes :=
  let copied := (r.data.drop r.i).take n
  copied ++ List.replicate (n - copied.length) 0

end Reader

/-- Where the authentication type is read: after a byte, what is discarded, and another byte. -/
def authTypReader (decrypted : Bytes) : Reader :=
  let discardLen := (Reader.seekCurrent 1 { data := decrypted }).readUvarint
  (discardLen.2.seekCurrent (Int.bmod discardLen.1.toNat (2 ^ 64))).seekCurrent 1

def readAuthDataLen (decrypted : Bytes) : UInt64 × Reader :=
  ((authTypReader decrypted).readUvarint.2.seekCurrent 1).readUvarint

def blobCredentials (maxAlloc : Nat) (username : String) (decrypted : Bytes) :
    Option LoginCredentials :=
  let authTyp := (authTypReader decrypted).readUvarint.1
  let authDataLen := readAuthDataLen decrypted
  if maxAlloc < authDataLen.1.toNat then none
  else
    some {
      typ := Int.bmod authTyp.toNat (2 ^ 32), username
      authData := authDataLen.2.read authDataLen.1.toNat }

def connectBlob (decode64 : Bytes → Except Err Bytes) (aes : String → Equiv.Perm Block)
    (maxAlloc : Nat) (username : String) (encryptedBlob64 : Bytes) :
    Option (Except Err LoginCredentials) :=
  match decode64 encryptedBlob64 with
  | .error err => some (.error (err.wrap "failed decoding encrypted blob: "))
  | .ok encrypted =>
    match decryptBlocks (aes username) encrypted.length encrypted with
    | none => none
    | some decrypted => (blobCredentials maxAlloc username (unchain decrypted)).map .ok

/-! ## What a blob holds -/

/-- A number that is wholly there, and what follows it. -/
def takeUvarintFrom (x s : UInt64) : Nat → Bytes → Option (UInt64 × Bytes)
  | n + 1, b :: l =>
    if b < 0x80 then
      if n = 0 ∧ b > 1 then none else some (x ||| b.toUInt64 <<< s, l)
    else takeUvarintFrom (x ||| (b &&& 0x7f).toUInt64 <<< s) (s + 7) n l
  | _, _ => none

namespace Reader

variable {r : Reader} {x s v : UInt64} {n : Nat} {l : Bytes}

def rest (r : Reader) : Bytes := r.data.drop r.i

@[simp]
theorem data_seekCurrent (offset : Int) (r : Reader) : (r.seekCurrent offset).data = r.data := by
  unfold seekCurrent
  dsimp only
  split <;> rfl

theorem data_uvarintFrom : (uvarintFrom x s n r).2.data = r.data := by
  fun_induction uvarintFrom x s n r with
  | case5 => assumption
  | _ => rfl

@[simp]
theorem data_readUvarint (r : Reader) : r.readUvarint.2.data = r.data := data_uvarintFrom

theorem uvarintFrom_of_take (h : takeUvarintFrom x s n r.rest = some (v, l)) :
    (uvarintFrom x s n r).1 = v := by
  induction n generalizing r x s with
  | zero => simp [takeUvarintFrom] at h
  | succ n ih =>
    rcases hget : r.data[r.i]? with _ | b
    · rw [rest, drop_eq_nil_of_le (getElem?_eq_none_iff.mp hget)] at h
      cases h
    · have hrest : r.rest = b :: { r with i := r.i + 1 }.rest := by
        obtain ⟨hlt, rfl⟩ := List.getElem?_eq_some_iff.mp hget
        exact drop_eq_getElem_cons hlt
      simp only [hrest, takeUvarintFrom] at h
      simp only [uvarintFrom, hget]
      split_ifs at h ⊢ with hlast hbig
      · cases h
        rfl
      · exact ih h

theorem read_isPrefix_iff : r.read n <+: r.rest ↔ n ≤ r.rest.length := by
  simp only [read]
  constructor
  · intro h
    have hle := h.length_le
    simp only [length_append, length_replicate] at hle
    omega
  · intro hn
    have hcopied : ((r.data.drop r.i).take n).length = n := length_take_of_le hn
    rw [hcopied, Nat.sub_self, replicate_zero, append_nil]
    exact take_prefix n r.rest

end Reader

/-- The type is a number that is wholly there, and the data what follows its length. -/
structure Contained (blob : Bytes) (creds : LoginCredentials) : Prop where
  typ : ∃ authTyp l, takeUvarintFrom 0 0 10 (blob.drop (authTypReader blob).i) = some (authTyp, l) ∧
    creds.typ = authTyp.toNat
  authData : creds.authData <+: blob.drop (readAuthDataLen blob).2.i

structure Declared (maxAlloc : Nat) (blob : Bytes) : Prop where
  typ : ∃ authTyp l, takeUvarintFrom 0 0 10 (blob.drop (authTypReader blob).i) = some (authTyp, l) ∧
    authTyp.toNat < 2 ^ 31
  authData : (readAuthDataLen blob).1.toNat ≤ (blob.drop (readAuthDataLen blob).2.i).length
  alloc : (readAuthDataLen blob).1.toNat ≤ maxAlloc

theorem data_authTypReader (blob : Bytes) : (authTypReader blob).data = blob := by
  rw [authTypReader, Reader.data_seekCurrent, Reader.data_seekCurrent, Reader.data_readUvarint,
    Reader.data_seekCurrent]

theorem contained_iff_declared (maxAlloc : Nat) (username : String) (blob : Bytes) :
    (∃ creds, blobCredentials maxAlloc username blob = some creds ∧ Contained blob creds) ↔
      Declared maxAlloc blob := by
  have htyp : (authTypReader blob).rest = blob.drop (authTypReader blob).i := by
    rw [Reader.rest, data_authTypReader]
  have hdata : (readAuthDataLen blob).2.rest = blob.drop (readAuthDataLen blob).2.i := by
    rw [Reader.rest, readAuthDataLen, Reader.data_readUvarint, Reader.data_seekCurrent,
      Reader.data_readUvarint, data_authTypReader]
  have hcast {authTyp : UInt64} {l : Bytes}
      (h : takeUvarintFrom 0 0 10 (blob.drop (authTypReader blob).i) = some (authTyp, l)) :
      Int.bmod (authTypReader blob).readUvarint.1.toNat (2 ^ 32) = authTyp.toNat ↔
        authTyp.toNat < 2 ^ 31 := by
    rw [← htyp] at h
    rw [Reader.readUvarint, Reader.uvarintFrom_of_take h]
    constructor
    · intro hcast
      have hlt := Int.bmod_lt (x := authTyp.toNat) (m := 2 ^ 32) (by decide)
      omega
    · intro hsmall
      rw [Int.bmod_eq_of_le] <;> omega
  simp only [blobCredentials, ite_none_left_eq_some, some.injEq]
  constructor
  · rintro ⟨creds, ⟨halloc, rfl⟩, ⟨authTyp, l, htake, hauthTyp⟩, hauthData⟩
    rw [← hdata, Reader.read_isPrefix_iff, hdata] at hauthData
    dsimp only at hauthTyp
    rw [hcast htake] at hauthTyp
    exact ⟨⟨authTyp, l, htake, hauthTyp⟩, hauthData, not_lt.mp halloc⟩
  · rintro ⟨⟨authTyp, l, htake, hauthTyp⟩, hauthData, halloc⟩
    refine ⟨_, ⟨not_lt.mpr halloc, rfl⟩, ⟨authTyp, l, htake, ?_⟩, ?_⟩
    · dsimp only
      rwa [hcast htake]
    · rw [← hdata] at hauthData ⊢
      exact Reader.read_isPrefix_iff.mpr hauthData

theorem decryptBlocks_eq_some (aes : Equiv.Perm Block) {steps : Nat} {encrypted : Bytes}
    (h : encrypted.length ≤ steps) :
    ((∃ decrypted, decryptBlocks aes steps encrypted = some decrypted) ↔
      encrypted.length % 16 ≤ 1) ∧
    ∀ decrypted, decryptBlocks aes steps encrypted = some decrypted →
      decrypted.length = encrypted.length := by
  induction steps generalizing encrypted with
  | zero =>
    rw [length_eq_zero_iff.mp (Nat.le_zero.mp h)]
    simp [decryptBlocks]
  | succ steps ih =>
    rw [decryptBlocks]
    split_ifs with hone hpart
    · simp [show encrypted.length % 16 ≤ 1 by omega]
    · have hmod : ¬ encrypted.length % 16 ≤ 1 := by omega
      simp [hmod]
    · have hdrop : (encrypted.drop 16).length = encrypted.length - 16 := length_drop
      obtain ⟨hsome, hlen⟩ := ih (hdrop.trans_le (by omega))
      rw [hdrop] at hsome hlen
      simp only [map_eq_some_iff]
      constructor
      · rw [show encrypted.length % 16 = (encrypted.length - 16) % 16 by omega, ← hsome]
        constructor
        · rintro ⟨_, rest, hrest, -⟩
          exact ⟨rest, hrest⟩
        · rintro ⟨rest, hrest⟩
          exact ⟨_, rest, hrest, rfl⟩
      · rintro decrypted ⟨rest, hrest, rfl⟩
        rw [length_append, length_ofFn, hlen rest hrest]
        omega

theorem length_unchain (decrypted : Bytes) : (unchain decrypted).length = decrypted.length := by
  unfold unchain
  generalize List.range (decrypted.length - 16) = indices
  induction indices generalizing decrypted with
  | nil => rfl
  | cons i indices ih => rw [foldl_cons, ih, length_set]

/-- `ConnectBlob` gives an error, or connects with what the blob holds and no more than its size,
exactly if the blob is not decoded, or consists of whole blocks and at most one more byte, has the
whole of an authentication type of 31 bits, and as much data as it declares. -/
theorem connectBlob_contained_iff (decode64 : Bytes → Except Err Bytes)
    (aes : String → Equiv.Perm Block) (maxAlloc : Nat) (username : String)
    (encryptedBlob64 : Bytes) :
    (∃ res, connectBlob decode64 aes maxAlloc username encryptedBlob64 = some res ∧
      ∀ creds, res = .ok creds → ∃ encrypted decrypted,
        decode64 encryptedBlob64 = .ok encrypted ∧
        decryptBlocks (aes username) encrypted.length encrypted = some decrypted ∧
        Contained (unchain decrypted) creds ∧ creds.authData.length ≤ encrypted.length) ↔
    ∀ encrypted, decode64 encryptedBlob64 = .ok encrypted → encrypted.length % 16 ≤ 1 ∧
      ∀ decrypted, decryptBlocks (aes username) encrypted.length encrypted = some decrypted →
        Declared maxAlloc (unchain decrypted) := by
  rcases hdecode : decode64 encryptedBlob64 with err | encrypted
  · simp [connectBlob, hdecode]
  obtain ⟨hsome, hlen⟩ := decryptBlocks_eq_some (aes username) (Nat.le_refl encrypted.length)
  simp only [connectBlob, hdecode, Except.ok.injEq, forall_eq', ← hsome]
  rcases hdecrypt : decryptBlocks (aes username) encrypted.length encrypted with _ | decrypted
  · simp
  simp only [some.injEq, exists_eq', true_and, forall_eq',
    ← contained_iff_declared maxAlloc username]
  rcases hcreds : blobCredentials maxAlloc username (unchain decrypted) with _ | creds
  · simp
  simp only [map_some, some.injEq, exists_eq_left', Except.ok.injEq, forall_eq']
  constructor
  · rintro ⟨_, other, rfl, hother, hcontained, -⟩
    cases hdecrypt.symm.trans hother
    exact hcontained
  · intro hcontained
    have hle := hcontained.authData.length_le
    rw [length_drop, length_unchain, hlen decrypted hdecrypt] at hle
    exact ⟨encrypted, decrypted, rfl, hdecrypt, hcontained, hle.trans (Nat.sub_le _ _)⟩

/-- Two bytes are no block. The next blob declares 200 bytes of data and holds nine, and the last
one declares more than can be allocated. -/
theorem small_blobs_panic_and_allocate :
    connectBlob .ok (fun _ => .refl _) (2 ^ 48) "ada" [0, 0] = none ∧
    (connectBlob .ok (fun _ => .refl _) (2 ^ 48) "ada"
      [9, 0, 0, 5, 0, 200, 1, 1, 2, 3, 4, 5, 6, 7, 8, 9]).map
        (fun res => res.toOption.map fun creds => creds.authData.length) = some (some 200) ∧
    connectBlob .ok (fun _ => .refl _) (2 ^ 48) "ada"
      [9, 0, 0, 5, 0, 255, 255, 255, 255, 255, 255, 255, 127, 0, 0, 0] = none := by
  decide +kernel

end Librespot.Ap
