import Librespot.Ap.Packets
import Librespot.Audio.KeyProvider
import Librespot.Mercury.Replies

/-!
# A key answers the request whose number its packet starts with

That holds unless the packet is too short for a number. Such a packet is read as one for the request
with the number zero.
-/

open Base Base.Run List Option

namespace Librespot.Audio

open Numeral

open Ap Ap.Receiver

def seqBytes (req : KeyRequest) (n : UInt32) : Bytes :=
  ((keyRequestBytes req n).drop (req.fileId.length + req.gid.length)).take 4

theorem seqBytes_eq (req : KeyRequest) (n : UInt32) :
    seqBytes req n = Numeral.toBytes 4 n.toNat := by
  have hids : (req.fileId ++ req.gid).length = req.fileId.length + req.gid.length :=
    length_append
  rw [seqBytes, keyRequestBytes, append_assoc, drop_left' hids, take_left' (length_toBytes _ _)]

/-- A key or a refusal is made from a packet that starts with the number of the request. Without a
packet there is only another error. -/
def Replied (req : KeyRequest) (n : UInt32) : KeyResponse × Option Packet → Prop
  | (_, some pkt) => seqBytes req n <+: pkt.payload
  | (reply, none) => ∃ err, reply = { err := some (.other err) }

namespace KeyProvider

variable {σ : Type} {C : Ap.Cipher σ} {p p' : KeyProvider} {pkt : Packet}

def Whole (p : KeyProvider) : KeyOp σ → Prop
  | .packet pkt => 4 ≤ pkt.payload.length ∨ p.reqs.pending 0 = none
  | _ => True

theorem handlePacket_spec (h : p.handlePacket pkt = some p') :
    p' = p ∧ p.reqs.pending (UInt32.ofNat (readUint 4 pkt.payload).1) = none ∨
      ∃ reply, p' = { p with
        reqs := p.reqs.answer (UInt32.ofNat (readUint 4 pkt.payload).1) (reply, some pkt) } := by
  unfold handlePacket at h
  simp only at h
  split at h
  · rename_i hnone
    exact .inl ⟨(some.inj h).symm, hnone⟩
  · split at h
    · exact .inr ⟨_, (some.inj h).symm⟩
    · split at h
      · exact .inr ⟨_, (some.inj h).symm⟩
      · simp at h

theorem seqBytes_prefix (h : 4 ≤ pkt.payload.length) (req : KeyRequest) :
    seqBytes req (UInt32.ofNat (readUint 4 pkt.payload).1) <+: pkt.payload := by
  have hlen : (pkt.payload.take 4).length = 4 := length_take_of_le h
  have hnat : (UInt32.ofNat (ofBytes (pkt.payload.take 4))).toNat =
      ofBytes (pkt.payload.take 4) := UInt32.toNat_ofNat_of_lt (ofBytes_lt hlen)
  rw [seqBytes_eq, readUint, if_pos h, hnat, toBytes_ofBytes hlen]
  exact take_prefix _ _

theorem handlePacket_matched (hp : p.reqs.Matched Replied)
    (hwhole : 4 ≤ pkt.payload.length ∨ p.reqs.pending 0 = none)
    (h : p.handlePacket pkt = some p') : p'.reqs.Matched Replied := by
  rcases handlePacket_spec h with ⟨rfl, -⟩ | ⟨reply, rfl⟩
  · exact hp
  · by_cases hlen : 4 ≤ pkt.payload.length
    · exact hp.answer fun i call _ _ => seqBytes_prefix hlen call.data
    · refine hp.answer fun i call hpending _ => ?_
      rw [readUint_short (Nat.lt_of_not_le hlen)] at hpending
      exact absurd ((hwhole.resolve_left hlen).symm.trans hpending) (by simp)

theorem handleRequest_matched {req : KeyRequest} {net : Net} {conn : ShannonConn σ}
    (hp : p.reqs.Matched Replied) (h : p.handleRequest C req net conn = some p') :
    p'.reqs.Matched Replied := by
  obtain ⟨gid, -, rfl⟩ := map_eq_some_iff.mp h
  have henter := hp.enter req p.seq
  simp only
  split
  · exact henter.answer fun i call _ _ => ⟨_, rfl⟩
  · exact henter

theorem step_matched {op : KeyOp σ} (hp : p.reqs.Matched Replied) (hwhole : p.Whole op)
    (h : p.step C op = some p') : p'.reqs.Matched Replied := by
  cases op with
  | request =>
    simp only [step] at h
    split at h
    · simp at h
    · exact handleRequest_matched hp h
  | packet =>
    simp only [step] at h
    split at h
    · simp at h
    · exact handlePacket_matched hp hwhole h
  | collect =>
    obtain ⟨reqs, hreqs, rfl⟩ := map_eq_some_iff.mp h
    exact hp.collect hreqs
  | leave =>
    obtain ⟨reqs, hreqs, rfl⟩ := map_eq_some_iff.mp h
    exact hp.leave hreqs

theorem whole_of_orderly {op : KeyOp σ} (hp : p.reqs.Matched Replied)
    (h : p.step C op = some p') (hp' : p'.reqs.Orderly Replied) : p.Whole op := by
  cases op with
  | packet pkt =>
    by_contra hwhole
    obtain ⟨hlen, hzero⟩ := not_or.mp hwhole
    obtain ⟨i, hi⟩ := ne_none_iff_exists'.mp hzero
    have hseq : UInt32.ofNat (readUint 4 pkt.payload).1 = 0 := by
      rw [readUint_short (Nat.lt_of_not_le hlen)]
      rfl
    simp only [step, hp.free, Bool.false_eq_true, if_false] at h
    rcases handlePacket_spec h with ⟨-, hnone⟩ | ⟨reply, rfl⟩
    · exact hzero (hseq ▸ hnone)
    · obtain ⟨call, hcall, hreply⟩ := hp.mem_answer (hseq.symm ▸ hi) (reply, some pkt)
      have hprefix : seqBytes call.data call.number <+: pkt.payload := hp'.right call hcall _ hreply
      have hle := hprefix.length_le
      rw [seqBytes_eq, length_toBytes] at hle
      exact hlen hle
  | request | collect | leave => trivial

end KeyProvider

/-- The key provider keeps to that in a run exactly when no packet without a number arrives while
the request with the number zero is open. The mercury client always does. -/
theorem replies_orderly {σ : Type} (C : Ap.Cipher σ) (P : Mercury.Proto)
    (keyOps : List (KeyOp σ)) (ops : List (Mercury.Op σ)) :
    (Always (KeyProvider.step C) (fun p => p.reqs.Orderly Replied) {} keyOps ↔
      Meets (KeyProvider.step C) KeyProvider.Whole {} keyOps) ∧
    Always (Mercury.Client.step C P) (fun c => c.reqs.Orderly Mercury.Replied) {} ops := by
  refine ⟨?_, Mercury.Client.always_orderly ops⟩
  exact always_iff_meets (L := fun _ => True) (fun p hp => hp.toOrderly)
    (fun p op p' hp _ hwhole h => KeyProvider.step_matched hp hwhole h)
    (fun p op p' hp _ h hp' => KeyProvider.whole_of_orderly hp h hp') Pump.matched_empty
    fun _ _ => trivial

/-- The first request is open when an empty packet arrives. -/
def truncatedRun : List (KeyOp Shift) :=
  [.request { gid := List.replicate 16 7, fileId := List.replicate 20 9 } {} shiftSender,
    .packet { type := packetTypeAesKeyError, payload := [] }]

/-- It is taken for the refusal of that request. -/
theorem refused_by_truncated :
    (exec (KeyProvider.step shift) {} truncatedRun).map
      (fun p => p.reqs.calls.map (·.replies)) = some [[({ err := some (.refused 0) },
        some { type := packetTypeAesKeyError, payload := [] })]] ∧
    ¬ Always (KeyProvider.step shift) (fun p => p.reqs.Orderly Replied) {} truncatedRun := by
  refine (and_iff_left_of_imp fun hrun halways => ?_).mpr (by decide +kernel)
  obtain ⟨p, hp, hreplies⟩ := map_eq_some_iff.mp hrun
  obtain ⟨call, hcalls, hcall⟩ := map_eq_singleton_iff.mp hreplies
  have hreply : (({ err := some (.refused 0) }, some { type := packetTypeAesKeyError, payload := [] })
      : KeyResponse × Option Packet) ∈ call.replies := by simp [hcall]
  have hright : seqBytes call.data call.number <+: [] :=
    (halways.last hp).right call (by simp [hcalls]) _ hreply
  have hlen := hright.length_le
  rw [seqBytes_eq, length_toBytes] at hlen
  simp at hlen

end Librespot.Audio
