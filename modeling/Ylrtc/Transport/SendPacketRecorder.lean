import Ylrtc.Base.SequenceNumber
import Ylrtc.Rtp.Packet

/-!
# Packets kept for retransmission

`SendPacketRecorder` of `transport/send_packet_recorder.cpp`. The queue is ordered
by sequence number; a place without a packet is one that was skipped or removed.
-/
namespace Ylrtc.Recorder
open Packet SequenceNumber

abbrev kMaxCapacity : ℕ := 9600
abbrev kMinPacketDurationMs : ℤ := 1000
abbrev kMinPacketDurationRtt : ℤ := 3
abbrev kPacketCullingDelayFactor : ℤ := 3
abbrev kSeqNumSpan : ℤ := 65536

structure RecordedPacket where
  packet : Option RtpPacket
  sendTimeMs : ℤ
  timesRetransmitted : ℕ := 0

structure SendPacketRecorder where
  packetQueue : List RecordedPacket := []
  rttMs : ℤ := -1

/-- `RemovePacket`, without the packet it returns. -/
def removePacket (queue : List RecordedPacket) (packetIndex : ℕ) : List RecordedPacket :=
  let removed := queue.modify packetIndex fun stored => { stored with packet := none }
  if packetIndex = 0 then removed.dropWhile fun stored => stored.packet.isNone else removed

/-- The loop of `CullOldPackets`. Each round removes an entry or is the last. -/
def cull (packetDurationMs nowMs : ℤ) : ℕ → List RecordedPacket → List RecordedPacket
  | 0,queue => queue
  | n+1,queue =>
      match queue with
      | [] => []
      | stored::rest =>
          if kMaxCapacity ≤ (stored::rest).length then
            cull packetDurationMs nowMs n (removePacket (stored::rest) 0)
          else if stored.sendTimeMs + packetDurationMs > nowMs then stored::rest
          else if stored.sendTimeMs + packetDurationMs*kPacketCullingDelayFactor ≤ nowMs then
            cull packetDurationMs nowMs n (removePacket (stored::rest) 0)
          else stored::rest

/-- The first entry always has a packet; without one the source would follow a
null pointer. -/
def getPacketIndex (queue : List RecordedPacket) (sequenceNumber : BitVec 16) : ℤ :=
  match queue.head?.bind RecordedPacket.packet with
  | none => 0
  | some front =>
      let firstSeq := front.sequenceNumber
      let packetIndex : ℤ := (sequenceNumber.toNat : ℤ) - firstSeq.toNat
      if packetIndex ≠ 0 then
        if seqNumGT sequenceNumber firstSeq then
          if sequenceNumber.toNat < firstSeq.toNat then packetIndex + kSeqNumSpan else packetIndex
        else if sequenceNumber.toNat > firstSeq.toNat then packetIndex - kSeqNumSpan
        else packetIndex
      else packetIndex

/-- The entry at an index that holds a packet, if there is one. -/
def packetAt (queue : List RecordedPacket) (index : ℤ) : Option RtpPacket :=
  if index < 0 then none else queue[index.toNat]?.bind RecordedPacket.packet

/-- The two loops that make room for an index, and the index it then has. -/
def expand (queue : List RecordedPacket) (packetIndex : ℤ) : List RecordedPacket × ℕ :=
  let front := List.replicate (-packetIndex).toNat ⟨none,0,0⟩ ++ queue
  let index := packetIndex.toNat
  (front ++ List.replicate (index+1-front.length) ⟨none,0,0⟩,index)

namespace SendPacketRecorder

def cullOldPackets (r : SendPacketRecorder) (nowMs : ℤ) : SendPacketRecorder :=
  let packetDurationMs := max (kMinPacketDurationRtt*r.rttMs) kMinPacketDurationMs
  { r with packetQueue := cull packetDurationMs nowMs r.packetQueue.length r.packetQueue }

def setRtt (r : SendPacketRecorder) (rttMs nowMs : ℤ) : SendPacketRecorder :=
  cullOldPackets { r with rttMs := rttMs } nowMs

/-- The queue without the packet that has this number already. -/
def removeDuplicate (queue : List RecordedPacket) (sequenceNumber : BitVec 16) :
    List RecordedPacket :=
  let packetIndex := getPacketIndex queue sequenceNumber
  if (packetAt queue packetIndex).isSome then removePacket queue packetIndex.toNat else queue

def record (r : SendPacketRecorder) (packet : RtpPacket) (nowMs : ℤ) : SendPacketRecorder :=
  let r := r.cullOldPackets nowMs
  let queue := removeDuplicate r.packetQueue packet.sequenceNumber
  let (queue,index) := expand queue (getPacketIndex queue packet.sequenceNumber)
  { r with packetQueue := queue.set index ⟨some packet,nowMs,0⟩ }

/-- The packet to send again, and the recorder after the call. -/
def query (r : SendPacketRecorder) (sequenceNumber : BitVec 16) (nowMs : ℤ) :
    Option RtpPacket × SendPacketRecorder :=
  let index := getPacketIndex r.packetQueue sequenceNumber
  if index < 0 then (none,r)
  else
    match r.packetQueue[index.toNat]? with
    | none => (none,r)
    | some stored =>
        match stored.packet with
        | none => (none,r)
        | some packet =>
            if stored.sendTimeMs ≠ 0 ∧ 0 < stored.timesRetransmitted ∧
                nowMs < stored.sendTimeMs + r.rttMs then (none,r)
            else
              let timesRetransmitted :=
                if stored.sendTimeMs ≠ 0 then stored.timesRetransmitted+1
                else stored.timesRetransmitted
              let queue := r.packetQueue.set index.toNat ⟨packet,nowMs,timesRetransmitted⟩
              (some packet.copy,{ r with packetQueue := queue })

/-! ### What the recorder holds -/

/-- Every recorded packet has a property. -/
def Holds (r : SendPacketRecorder) (P : RtpPacket → Prop) : Prop :=
  ∀ stored ∈ r.packetQueue, ∀ packet, stored.packet = some packet → P packet

end SendPacketRecorder
open SendPacketRecorder

theorem mem_of_mem_removePacket {queue : List RecordedPacket} {index : ℕ} {stored : RecordedPacket}
    {packet : RtpPacket} (h : stored ∈ removePacket queue index)
    (hpacket : stored.packet = some packet) : stored ∈ queue := by
  have hmodified : stored ∈ queue.modify index fun stored => { stored with packet := none } := by
    rw [removePacket] at h
    split at h
    · exact (List.dropWhile_sublist _).subset h
    · exact h
  rw [List.mem_iff_getElem?] at hmodified ⊢
  cases hmodified with
  | intro i hi =>
      refine ⟨i,?_⟩
      rw [List.getElem?_modify] at hi
      cases hold : queue[i]? with
      | none =>
          rw [hold] at hi
          simp at hi
      | some old =>
          rw [hold,Option.map_eq_map,Option.map_some,Option.some.injEq] at hi
          split at hi
          · -- the removed entry has no packet left
            rw [← hi] at hpacket
            simp at hpacket
          · rw [hi]

theorem mem_of_mem_cull {duration nowMs : ℤ} {n : ℕ} {queue : List RecordedPacket}
    {stored : RecordedPacket} {packet : RtpPacket} (h : stored ∈ cull duration nowMs n queue)
    (hpacket : stored.packet = some packet) : stored ∈ queue := by
  induction n generalizing queue with
  | zero => exact h
  | succ n ih =>
      cases queue with
      | nil => exact h
      | cons first rest =>
          rw [cull] at h
          split at h
          · exact mem_of_mem_removePacket (ih h) hpacket
          split at h
          · exact h
          split at h
          · exact mem_of_mem_removePacket (ih h) hpacket
          · exact h

namespace SendPacketRecorder
variable {P : RtpPacket → Prop} {r : SendPacketRecorder}

theorem holds_empty (P : RtpPacket → Prop) : Holds {} P :=
  fun _ h => absurd h List.not_mem_nil

theorem Holds.mono {Q : RtpPacket → Prop} (h : r.Holds P) (hPQ : ∀ p, P p → Q p) : r.Holds Q :=
  fun stored hstored packet hpacket => hPQ packet (h stored hstored packet hpacket)

theorem Holds.cullOldPackets (h : r.Holds P) (nowMs : ℤ) : (r.cullOldPackets nowMs).Holds P :=
  fun stored hstored packet hpacket => h stored (mem_of_mem_cull hstored hpacket) packet hpacket

theorem Holds.setRtt (h : r.Holds P) (rttMs nowMs : ℤ) : (r.setRtt rttMs nowMs).Holds P := by
  apply Holds.cullOldPackets
  exact h

/-- An entry with a packet is the new one or was there. -/
theorem mem_record {stored : RecordedPacket} {packet p : RtpPacket} {nowMs : ℤ}
    (h : stored ∈ (r.record packet nowMs).packetQueue) (hp : stored.packet = some p) :
    stored = ⟨some packet,nowMs,0⟩ ∨ stored ∈ r.packetQueue := by
  rw [SendPacketRecorder.record] at h
  simp only [expand] at h
  cases List.mem_or_eq_of_mem_set h with
  | inr hnew => exact .inl hnew
  | inl hold =>
      have hplaceholder : ∀ {n}, stored ∈ List.replicate n (⟨none,0,0⟩ : RecordedPacket) → False := by
        intro n hmem
        rw [List.eq_of_mem_replicate hmem] at hp
        simp at hp
      rw [List.mem_append,List.mem_append] at hold
      cases hold with
      | inr hback => exact (hplaceholder hback).elim
      | inl hold =>
          cases hold with
          | inl hfront => exact (hplaceholder hfront).elim
          | inr hqueue =>
              rw [removeDuplicate] at hqueue
              apply Or.inr
              split at hqueue
              · exact mem_of_mem_cull (mem_of_mem_removePacket hqueue hp) hp
              · exact mem_of_mem_cull hqueue hp

theorem Holds.record (h : r.Holds P) {packet : RtpPacket} (hpacket : P packet) (nowMs : ℤ) :
    (r.record packet nowMs).Holds P := by
  intro stored hstored p hp
  cases mem_record hstored hp with
  | inl hnew =>
      rw [hnew,Option.some.injEq] at hp
      exact hp ▸ hpacket
  | inr hold => exact h stored hold p hp

/-- A query changes the time of one entry at most. -/
theorem mem_query {sequenceNumber : BitVec 16} {nowMs : ℤ} {stored : RecordedPacket}
    (h : stored ∈ (r.query sequenceNumber nowMs).2.packetQueue) :
    stored ∈ r.packetQueue ∨
      stored.sendTimeMs = nowMs ∧ ∃ old ∈ r.packetQueue, stored.packet = old.packet := by
  rw [SendPacketRecorder.query] at h
  split at h
  · exact .inl h
  split at h
  · exact .inl h
  rename_i old hold
  split at h
  · exact .inl h
  rename_i packet hpacket
  split at h
  · exact .inl h
  · cases List.mem_or_eq_of_mem_set h with
    | inl hstays => exact .inl hstays
    | inr hnew =>
        rw [hnew]
        exact .inr ⟨rfl,old,List.mem_of_getElem? hold,hpacket.symm⟩

/-- A packet that is sent again is the copy of the one recorded under its number. -/
theorem query_eq_some {sequenceNumber : BitVec 16} {nowMs : ℤ} {packet : RtpPacket}
    (h : (r.query sequenceNumber nowMs).1 = some packet) :
    ∃ stored p, 0 ≤ getPacketIndex r.packetQueue sequenceNumber ∧
      r.packetQueue[(getPacketIndex r.packetQueue sequenceNumber).toNat]? = some stored ∧
      stored.packet = some p ∧ packet = p.copy := by
  rw [SendPacketRecorder.query] at h
  split at h
  · simp at h
  rename_i hindex
  split at h
  · simp at h
  rename_i old hold
  split at h
  · simp at h
  rename_i p hp
  split at h
  · simp at h
  · rw [Option.some.injEq] at h
    exact ⟨old,p,Int.not_lt.mp hindex,hold,hp,h.symm⟩

/-- A packet that is sent again is the copy of a recorded one, and the recorder
holds the same packets as before. -/
theorem Holds.query (h : r.Holds P) (sequenceNumber : BitVec 16) (nowMs : ℤ) :
    (r.query sequenceNumber nowMs).2.Holds P ∧
      ∀ packet, (r.query sequenceNumber nowMs).1 = some packet → ∃ p, P p ∧ packet = p.copy := by
  constructor
  · intro stored hstored p hp
    cases mem_query hstored with
    | inl hold => exact h stored hold p hp
    | inr hnew =>
        obtain ⟨_,old,hold,hpacket⟩ := hnew
        exact h old hold p (hpacket.symm.trans hp)
  · intro packet hpacket
    obtain ⟨stored,p,_,hstored,hp,hcopy⟩ := query_eq_some hpacket
    exact ⟨p,h stored (List.mem_of_getElem? hstored) p hp,hcopy⟩

end SendPacketRecorder
end Ylrtc.Recorder
