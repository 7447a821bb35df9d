import Librespot.Mercury.Client

/-! # A mercury response answers the request whose number it carries -/

open Base Base.Run List Option

namespace Librespot.Mercury

open Numeral

open Ap

def Carries (pkt : Packet) (n : UInt64) : Prop :=
  ∃ seqBytes : Bytes, (seqBytes.length = 8 ∨ seqBytes.length = 4 ∨ seqBytes.length = 2) ∧
    uint16 seqBytes.length ++ seqBytes <+: pkt.payload ∧ Numeral.ofBytes seqBytes = n.toNat

def Replied (_ : HermesRequest) (n : UInt64) (reply : HermesResponse × Option Packet) : Prop :=
  ∀ pkt, reply.2 = some pkt → Carries pkt n

theorem carries_of_readSeq {pkt : Packet} {n : UInt64} {r : Bytes}
    (h : readSeq pkt.payload = some (n, r)) (hr : r ≠ []) : Carries pkt n := by
  unfold readSeq at h
  by_cases hlen : 2 ≤ pkt.payload.length
  · rw [readUint, if_pos hlen] at h
    generalize hk : ofBytes (pkt.payload.take 2) = k at h
    have hbytes : uint16 k = pkt.payload.take 2 := by
      have hlen' : (pkt.payload.take 2).length = 2 := length_take_of_le hlen
      have hlt := ofBytes_lt hlen'
      rw [uint16, ← hk, Nat.mod_eq_of_lt (by omega), toBytes_ofBytes hlen']
    simp only at h
    split at h
    · rename_i hcases
      by_cases hwhole : k ≤ (pkt.payload.drop 2).length
      · rw [readUint, if_pos hwhole] at h
        obtain ⟨rfl, -⟩ : UInt64.ofNat (ofBytes ((pkt.payload.drop 2).take k)) = n ∧
            (pkt.payload.drop 2).drop k = r := by simpa using h
        have hk' : ((pkt.payload.drop 2).take k).length = k := length_take_of_le hwhole
        refine ⟨(pkt.payload.drop 2).take k, hk'.symm ▸ hcases, ?_, ?_⟩
        · rw [hk', hbytes, ← take_add]
          exact take_prefix _ _
        · refine (UInt64.toNat_ofNat_of_lt (Nat.lt_of_lt_of_le (ofBytes_lt hk') ?_)).symm
          exact Nat.pow_le_pow_right (by omega) (by omega : k ≤ 8)
      · rw [readUint_short (Nat.lt_of_not_le hwhole)] at h
        obtain ⟨-, rfl⟩ : UInt64.ofNat 0 = n ∧ [] = r := by simpa using h
        exact absurd rfl hr
    · simp at h
  · rw [readUint_short (Nat.lt_of_not_le hlen)] at h
    simp at h

namespace Client

variable {σ : Type} {C : Cipher σ} {P : Proto} {c c' : Client}

theorem handlePacket_matched (hc : c.reqs.Matched Replied) (pkt : Packet) :
    (c.handlePacket P pkt).reqs.Matched Replied := by
  unfold handlePacket
  split
  · exact hc
  · cases hseq : readSeq pkt.payload with
    | none => exact hc
    | some res =>
      obtain ⟨respSeq, r⟩ := res
      by_cases hflags : (readUint 1 r).1 = 1
      · simp only [hflags, ne_eq, not_true_eq_false, if_false]
        refine hc.answer fun i call _ _ pkt' hpkt => ?_
        obtain rfl : pkt = pkt' := some.inj hpkt
        refine carries_of_readSeq hseq ?_
        rintro rfl
        simp [readUint_short] at hflags
      · simp only [ne_eq, hflags, not_false_eq_true, if_true]
        exact hc

theorem handleRequest_matched (hc : c.reqs.Matched Replied) (req : HermesRequest) (net : Net)
    (conn : ShannonConn σ) : (c.handleRequest C P req net conn).reqs.Matched Replied := by
  have hlocal (err : Err) : Replied req c.seq ({ err := some err }, none) := by
    intro pkt hpkt
    simp at hpkt
  unfold handleRequest
  cases P.marshal req.header with
  | error => exact hc.refuse (hlocal _)
  | ok =>
    have henter := hc.enter req c.seq
    simp only
    split
    · exact henter.answer fun i call _ _ pkt hpkt => by simp at hpkt
    · exact henter

theorem step_matched {op : Op σ} (hc : c.reqs.Matched Replied) (h : c.step C P op = some c') :
    c'.reqs.Matched Replied := by
  cases op with
  | request req net conn =>
    obtain ⟨-, rfl⟩ : ¬ c.reqs.stuck ∧ c.handleRequest C P req net conn = c' := by
      simpa [step] using h
    exact handleRequest_matched hc req net conn
  | packet pkt =>
    obtain ⟨-, rfl⟩ : ¬ c.reqs.stuck ∧ c.handlePacket P pkt = c' := by simpa [step] using h
    exact handlePacket_matched hc pkt
  | collect =>
    obtain ⟨reqs, hreqs, rfl⟩ := map_eq_some_iff.mp h
    exact hc.collect hreqs
  | leave =>
    obtain ⟨reqs, hreqs, rfl⟩ := map_eq_some_iff.mp h
    exact hc.leave hreqs

theorem always_orderly (ops : List (Op σ)) :
    Always (step C P) (fun c => c.reqs.Orderly Replied) {} ops := by
  have hrun : Meets (step C P) (fun _ _ => True) {} ops := meets_of_labels fun _ _ => trivial
  exact (always_of_meets (fun s a s' hs _ h => step_matched hs h) Pump.matched_empty hrun).imp
    fun s hs => hs.toOrderly

end Client

end Librespot.Mercury
