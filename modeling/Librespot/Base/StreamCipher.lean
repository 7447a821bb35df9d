import Mathlib.Data.List.Basic

/-! # Stream ciphers with a nonce and a message authentication code -/

namespace Base

/-- The operations of a stream cipher whose object has the state `σ`. -/
structure StreamCipher (σ τ : Type*) where
  nonce : UInt32 → σ → σ
  encrypt : List τ → σ → List τ × σ
  decrypt : List τ → σ → List τ × σ
  finish : σ → List τ × σ
  checkMac : List τ → σ → Bool × σ

namespace StreamCipher

variable {σ τ κ : Type*}

/-- A nonce puts the object in a state that depends on its key only. From there decryption takes an
encrypted text back, in as many pieces as one likes, and ends in the state that encryption ends
in, where the code checks. -/
structure Lawful (C : StreamCipher σ τ) (key : σ → κ) (macLen : Nat) : Prop where
  key_nonce : ∀ n s, key (C.nonce n s) = key s
  key_encrypt : ∀ x s, key (C.encrypt x s).2 = key s
  key_decrypt : ∀ x s, key (C.decrypt x s).2 = key s
  key_finish : ∀ s, key (C.finish s).2 = key s
  key_checkMac : ∀ mac s, key (C.checkMac mac s).2 = key s
  nonce_eq : ∀ n s t, key s = key t → C.nonce n s = C.nonce n t
  length_encrypt : ∀ x s, (C.encrypt x s).1.length = x.length
  length_decrypt : ∀ x s, (C.decrypt x s).1.length = x.length
  decrypt_encrypt : ∀ x s, C.decrypt (C.encrypt x s).1 s = (x, (C.encrypt x s).2)
  decrypt_append : ∀ x y s, C.decrypt (x ++ y) s =
    ((C.decrypt x s).1 ++ (C.decrypt y (C.decrypt x s).2).1, (C.decrypt y (C.decrypt x s).2).2)
  length_finish : ∀ s, (C.finish s).1.length = macLen
  checkMac_finish : ∀ s, (C.checkMac (C.finish s).1 s).1 = true

variable {C : StreamCipher σ τ} {key : σ → κ} {macLen : Nat}

theorem Lawful.decrypt_pieces (h : C.Lawful key macLen) {x y c d : List τ} {s s' : σ}
    (henc : C.encrypt (x ++ y) s = (c ++ d, s')) (hlen : c.length = x.length) :
    (C.decrypt c s).1 = x ∧ C.decrypt d (C.decrypt c s).2 = (y, s') := by
  have hwhole := h.decrypt_encrypt (x ++ y) s
  rw [henc, h.decrypt_append] at hwhole
  obtain ⟨htext, hstate⟩ := Prod.mk.inj hwhole
  have hfirst : (C.decrypt c s).1.length = x.length := (h.length_decrypt c s).trans hlen
  obtain ⟨hx, hy⟩ := List.append_inj htext hfirst
  exact ⟨hx, Prod.ext hy hstate⟩

end StreamCipher

end Base
