import Ylrtc.Transport.RecorderQueue

/-!
# How long a recorded packet is found

The comments at `kMinPacketDurationMs` promise that no packet is removed within
`max(1000 ms, 3 * RTT)`. The queue is culled by its number of entries too, and most of them
may be empty places; and an index is a distance from the front modulo `2^16`.
-/
namespace Ylrtc.Recorder
open NumberedDeque Packet Run SendPacketRecorder SequenceNumber

/-- `GetRecordedPacket`. -/
def getRecordedPacket (r : SendPacketRecorder) (sequenceNumber : BitVec 16) : Option RtpPacket :=
  packetAt r.packetQueue (getPacketIndex r.packetQueue sequenceNumber)

def packetDurationMs (rttMs : ℤ) : ℤ := max (kMinPacketDurationRtt*rttMs) kMinPacketDurationMs

def Call.nowMs : Call → ℤ
  | .record _ nowMs => nowMs
  | .query _ nowMs => nowMs
  | .setRtt _ nowMs => nowMs

def recordedAt : Call → Option (RtpPacket × ℤ)
  | .record packet nowMs => some (packet,nowMs)
  | _ => none

/-- The packet most recently recorded under a number, and when. -/
def lastRecording (calls : List Call) (s : BitVec 16) : Option (RtpPacket × ℤ) :=
  (calls.filterMap recordedAt).reverse.find? fun e => e.1.sequenceNumber = s

theorem lastRecording_nil (s : BitVec 16) : lastRecording [] s = none := rfl

theorem lastRecording_record (calls : List Call) (packet : RtpPacket) (nowMs : ℤ) (s : BitVec 16) :
    lastRecording (calls++[.record packet nowMs]) s =
      if packet.sequenceNumber = s then some (packet,nowMs) else lastRecording calls s := by
  simp only [lastRecording,List.filterMap_append,
    List.filterMap_cons_some (show recordedAt (.record packet nowMs) = some (packet,nowMs) from rfl),
    List.filterMap_nil,List.reverse_append,List.reverse_singleton,List.singleton_append,
    List.find?_cons]
  split
  · rename_i hs
    rw [if_pos (of_decide_eq_true hs)]
  · rename_i hs
    rw [if_neg (of_decide_eq_false hs)]

theorem lastRecording_other (calls : List Call) {c : Call} (hc : recordedAt c = none)
    (s : BitVec 16) : lastRecording (calls++[c]) s = lastRecording calls s := by
  simp only [lastRecording,List.filterMap_append,List.filterMap_cons_none hc,List.filterMap_nil,
    List.append_nil]

/-- A recording has the number it is found under and the time of its call. -/
theorem lastRecording_spec {calls : List Call} {s : BitVec 16} {p : RtpPacket} {t : ℤ}
    (h : lastRecording calls s = some (p,t)) :
    p.sequenceNumber = s ∧ ∃ c ∈ calls, c.nowMs = t := by
  have hmem := List.mem_of_find?_eq_some h
  have hnumber := List.find?_some h
  rw [List.mem_reverse,List.mem_filterMap] at hmem
  refine ⟨of_decide_eq_true hnumber,?_⟩
  cases hmem with
  | intro c hc =>
      cases c with
      | record packet nowMs =>
          have heq := Option.some.inj hc.2
          exact ⟨_,hc.1,congrArg Prod.snd heq⟩
      | query _ _ => exact absurd hc.2 (by simp [recordedAt])
      | setRtt _ _ => exact absurd hc.2 (by simp [recordedAt])

/-! ### What culling leaves -/

section Culled
variable {queue : List RecordedPacket} {i : ℕ} {stored : RecordedPacket}

theorem dropWhile_keeps (hi : queue[i]? = some stored) (hp : stored.packet.isSome) :
    ∃ k ≤ i, (queue.dropWhile fun stored => stored.packet.isNone) = queue.drop k := by
  induction queue generalizing i with
  | nil => simp at hi
  | cons first rest ih =>
      rw [List.dropWhile_cons]
      split
      · rename_i hnone
        cases i with
        | zero =>
            rw [List.getElem?_cons_zero,Option.some.injEq] at hi
            rw [hi,Option.isNone_iff_eq_none] at hnone
            simp [hnone] at hp
        | succ i =>
            cases ih hi with
            | intro k hk => exact ⟨k+1,by omega,hk.2⟩
      · exact ⟨0,Nat.zero_le _,rfl⟩

theorem removePacket_keeps (hi : queue[i]? = some stored) (hp : stored.packet.isSome)
    (hpos : 0 < i) : ∃ k, 0 < k ∧ k ≤ i ∧ removePacket queue 0 = queue.drop k := by
  rw [removePacket_zero]
  have htail : queue.tail[i-1]? = some stored := by
    rw [List.getElem?_tail,Nat.sub_add_cancel hpos]
    exact hi
  cases dropWhile_keeps htail hp with
  | intro k hk =>
      refine ⟨k+1,Nat.succ_pos _,by omega,?_⟩
      rw [hk.2,← List.drop_one,List.drop_drop,Nat.add_comm]

/-- An entry with a packet stays when there is room for it and what is behind it, and it is
not three durations old. -/
theorem cull_keeps (duration nowMs : ℤ) (n : ℕ) (hi : queue[i]? = some stored)
    (hp : stored.packet.isSome) (hroom : queue.length < i+kMaxCapacity)
    (htime : nowMs < stored.sendTimeMs + duration*kPacketCullingDelayFactor) :
    ∃ k ≤ i, cull duration nowMs n queue = queue.drop k := by
  induction n generalizing queue i with
  | zero => exact ⟨0,Nat.zero_le _,rfl⟩
  | succ n ih =>
      cases queue with
      | nil => exact ⟨0,Nat.zero_le _,rfl⟩
      | cons first rest =>
          have hremove : 0 < i → ∃ k ≤ i,
              cull duration nowMs n (removePacket (first::rest) 0) = (first::rest).drop k := by
            intro hpos
            obtain ⟨j,hj,hji,hdrop⟩ := removePacket_keeps hi hp hpos
            have hlater : ((first::rest).drop j)[i-j]? = some stored := by
              rw [List.getElem?_drop,show j+(i-j) = i by omega]
              exact hi
            have hinside := (List.getElem?_eq_some_iff.mp hi).1
            obtain ⟨k,hk,hcull⟩ := ih hlater (by rw [List.length_drop]; omega)
            refine ⟨j+k,by omega,?_⟩
            rw [hdrop,hcull,List.drop_drop]
          rw [cull]
          split
          · exact hremove (by omega)
          split
          · exact ⟨0,Nat.zero_le _,rfl⟩
          split
          · rename_i hold
            apply hremove
            by_contra hzero
            rw [show i = 0 by omega,List.getElem?_cons_zero,Option.some.injEq] at hi
            rw [hi] at hold
            omega
          · exact ⟨0,Nat.zero_le _,rfl⟩

end Culled

/-- The packet is so near to the end of the queue that capacity does not touch it. -/
def Spared (queue : List RecordedPacket) (p : RtpPacket) : Prop :=
  ∃ i : ℕ, (contents queue)[i]? = some (some p) ∧ queue.length < i+kMaxCapacity

/-- Every packet was sent, the last time, when it was recorded or later. -/
def Dated (calls : List Call) (queue : List RecordedPacket) : Prop :=
  ∀ stored ∈ queue, ∀ p p' : RtpPacket, ∀ t, stored.packet = some p →
    lastRecording calls p.sequenceNumber = some (p',t) → t ≤ stored.sendTimeMs

section Cull
variable {r : SendPacketRecorder} {calls : List Call} {p : RtpPacket} {s : BitVec 16} {t nowMs : ℤ}

theorem stored_of_contents {queue : List RecordedPacket} {i : ℕ}
    (h : (contents queue)[i]? = some (some p)) :
    ∃ stored, queue[i]? = some stored ∧ stored.packet = some p := by
  rw [getElem?_contents,Option.map_eq_some_iff] at h
  exact h

theorem sparedPacket_of_mem_cull (h : ∃ i : ℕ,
    (contents (r.cullOldPackets nowMs).packetQueue)[i]? = some (some p))
    (hfirst : (contents r.packetQueue)[0]? ≠ some none) : Spared r.packetQueue p := by
  have hshort := length_cullOldPackets r nowMs
  rw [SendPacketRecorder.cullOldPackets] at h hshort
  simp only at h hshort
  cases exists_drop_cull (max (kMinPacketDurationRtt*r.rttMs) kMinPacketDurationMs) nowMs
    r.packetQueue.length hfirst with
  | intro k hk =>
      rw [hk.1,List.length_drop] at hshort
      rw [hk.1,contents_drop] at h
      cases h with
      | intro i hi =>
          rw [List.getElem?_drop] at hi
          exact ⟨k+i,hi,by omega⟩

/-- Within its duration a packet is culled only for want of room. -/
theorem mem_cull_iff (hdated : Dated calls r.packetQueue)
    (hfirst : (contents r.packetQueue)[0]? ≠ some none)
    (hlast : lastRecording calls p.sequenceNumber = some (p,t))
    (hnow : nowMs < t + packetDurationMs r.rttMs) :
    (∃ i : ℕ, (contents (r.cullOldPackets nowMs).packetQueue)[i]? = some (some p)) ↔
      Spared r.packetQueue p := by
  constructor
  · intro h
    exact sparedPacket_of_mem_cull h hfirst
  · intro h
    cases h with
    | intro i hi =>
        cases stored_of_contents hi.1 with
        | intro stored hstored =>
            have hsent := hdated stored (List.mem_of_getElem? hstored.1) p p t hstored.2 hlast
            rw [packetDurationMs] at hnow
            have hkeeps := cull_keeps (max (kMinPacketDurationRtt*r.rttMs) kMinPacketDurationMs)
              nowMs r.packetQueue.length hstored.1 (by rw [hstored.2]; rfl) hi.2 (by
                simp only [kPacketCullingDelayFactor,kMinPacketDurationMs] at hnow ⊢
                omega)
            cases hkeeps with
            | intro k hk =>
                refine ⟨i-k,?_⟩
                rw [SendPacketRecorder.cullOldPackets]
                simp only
                rw [hk.2,contents_drop,List.getElem?_drop,show k+(i-k) = i by omega]
                exact hi.1

end Cull

/-! ### What recording leaves -/

section Index
variable {queue : List RecordedPacket} {p : RtpPacket} {s : BitVec 16} {i : ℕ}

/-- In the first half of the range, a packet is found where it is. -/
theorem getPacketIndex_of_contents (h : QueueOrdered queue)
    (hi : (contents queue)[i]? = some (some p)) (hlt : i < 32768) :
    getPacketIndex queue p.sequenceNumber = i := by
  have hlength := (List.getElem?_eq_some_iff.mp hi).1
  rw [length_contents] at hlength
  cases exists_front h.first (by omega) with
  | intro front hfront =>
      have hnumber := congrArg BitVec.toNat (h.numbered i p hi)
      rw [frontNumber_eq hfront,BitVec.toNat_add,BitVec.toNat_ofNat] at hnumber
      have hspec := serialOffset_spec p.sequenceNumber front.sequenceNumber
      rw [getPacketIndex_eq hfront]
      omega

theorem getRecordedPacket_eq_some {r : SendPacketRecorder} (h : QueueOrdered r.packetQueue) :
    getRecordedPacket r s = some p ↔ p.sequenceNumber = s ∧
      ∃ i : ℕ, getPacketIndex r.packetQueue s = i ∧
        (contents r.packetQueue)[i]? = some (some p) := by
  rw [getRecordedPacket,packetAt_eq_some]
  constructor
  · intro hfound
    exact ⟨sequenceNumber_of_index h hfound.1 hfound.2,_,(Int.toNat_of_nonneg hfound.1).symm,
      hfound.2⟩
  · intro hfound
    cases hfound.2 with
    | intro i hi =>
        rw [hi.1]
        exact ⟨Int.natCast_nonneg i,hi.2⟩

/-- The other packets are there, and every packet is numbered from the front. -/
structure Without (queue rest : List RecordedPacket) (s : BitVec 16) : Prop where
  others : ∀ p : RtpPacket, p.sequenceNumber ≠ s →
    ((∃ i : ℕ, (contents rest)[i]? = some (some p)) ↔ ∃ i : ℕ, (contents queue)[i]? = some (some p))
  first : (contents rest)[0]? ≠ some none
  numbered : ∀ (i : ℕ) (p : RtpPacket), (contents rest)[i]? = some (some p) →
    p.sequenceNumber = frontNumber rest + BitVec.ofNat 16 i

theorem without_front (h : QueueOrdered queue) {old : RtpPacket}
    (hold : (contents queue)[0]? = some (some old)) :
    Without queue (removePacket queue 0) old.sequenceNumber := by
  cases exists_drop_removePacket queue with
  | intro k hk =>
      have hfirst := hk.2
      rw [hk.1] at hfirst
      refine ⟨fun p hp => ?_,hk.2,by rw [hk.1]; exact (h.drop hfirst).numbered⟩
      constructor
      · intro hmem
        rw [hk.1,contents_drop] at hmem
        cases hmem with
        | intro i hi =>
            rw [List.getElem?_drop] at hi
            exact ⟨_,hi⟩
      · intro hmem
        cases hmem with
        | intro i hi =>
            cases stored_of_contents hi with
            | intro stored hstored =>
                have hpos : 0 < i := by
                  by_contra hzero
                  rw [show i = 0 by omega,hold,Option.some.injEq,Option.some.injEq] at hi
                  exact hp (hi ▸ rfl)
                obtain ⟨j,_,hj,hdrop⟩ := removePacket_keeps hstored.1 (by rw [hstored.2]; rfl) hpos
                refine ⟨i-j,?_⟩
                rw [hdrop,contents_drop,List.getElem?_drop,show j+(i-j) = i by omega]
                exact hi

theorem frontNumber_congr {other : List RecordedPacket}
    (h : (contents queue)[0]? = (contents other)[0]?) : frontNumber queue = frontNumber other := by
  have hhead : queue.head?.bind RecordedPacket.packet = other.head?.bind RecordedPacket.packet := by
    ext front
    rw [head?_bind_iff,head?_bind_iff,h]
  rw [frontNumber,frontNumber,hhead]

theorem without_inner (h : QueueOrdered queue) {j : ℕ} {old : RtpPacket} (hj : j ≠ 0)
    (hold : (contents queue)[j]? = some (some old)) :
    Without queue (removePacket queue j) old.sequenceNumber := by
  have hcontents := contents_removePacket queue hj
  have hzero : (contents (removePacket queue j))[0]? = (contents queue)[0]? := by
    rw [hcontents,List.getElem?_set,if_neg hj]
  have hsame : ∀ (i : ℕ) (p : RtpPacket), (contents (removePacket queue j))[i]? = some (some p) →
      (contents queue)[i]? = some (some p) := by
    intro i p hi
    rw [hcontents,List.getElem?_set] at hi
    split at hi
    · split at hi
      · simp at hi
      · simp at hi
    · exact hi
  refine ⟨fun p hp => ?_,by rw [hzero]; exact h.first,fun i p hi => ?_⟩
  · constructor
    · intro hmem
      cases hmem with
      | intro i hi => exact ⟨i,hsame i p hi⟩
    · intro hmem
      cases hmem with
      | intro i hi =>
          refine ⟨i,?_⟩
          rw [hcontents,List.getElem?_set,if_neg]
          · exact hi
          · intro hij
            rw [← hij,hold,Option.some.injEq,Option.some.injEq] at hi
            exact hp (hi ▸ rfl)
  · rw [frontNumber_congr hzero]
    exact h.numbered i p (hsame i p hi)

theorem without_removeDuplicate (h : QueueOrdered queue) (s : BitVec 16) :
    Without queue (removeDuplicate queue s) s := by
  simp only [removeDuplicate]
  split
  · rename_i hsome
    cases hold : packetAt queue (getPacketIndex queue s) with
    | none => simp [hold] at hsome
    | some old =>
        have hindex := packetAt_eq_some.mp hold
        have hnumber := sequenceNumber_of_index (r := ⟨queue,-1⟩) h hindex.1 hindex.2
        rw [← hnumber]
        by_cases hzero : (getPacketIndex queue old.sequenceNumber).toNat = 0
        · rw [hzero]
          apply without_front h
          rw [← hzero,hnumber]
          exact hindex.2
        · apply without_inner h hzero
          rw [hnumber]
          exact hindex.2
  · exact ⟨fun p _ => Iff.rfl,h.first,h.numbered⟩

end Index

/-! ### Recording among others -/

/-- The index of `Record` when it starts to make room. -/
def recordIndex (r : SendPacketRecorder) (packet : RtpPacket) (nowMs : ℤ) : ℤ :=
  getPacketIndex (removeDuplicate (r.cullOldPackets nowMs).packetQueue packet.sequenceNumber)
    packet.sequenceNumber

section Record
variable {r : SendPacketRecorder} {packet p : RtpPacket} {nowMs : ℤ}

theorem contents_record (r : SendPacketRecorder) (packet : RtpPacket) (nowMs : ℤ) :
    contents (r.record packet nowMs).packetQueue =
      insertAt (contents (removeDuplicate (r.cullOldPackets nowMs).packetQueue
        packet.sequenceNumber)) (recordIndex r packet nowMs) packet := by
  rw [record_packetQueue,contents_insertPacket,recordIndex]

theorem recordIndex_bounds (r : SendPacketRecorder) (packet : RtpPacket) (nowMs : ℤ) :
    -32768 ≤ recordIndex r packet nowMs ∧ recordIndex r packet nowMs ≤ 32768 :=
  getPacketIndex_bounds _ _

/-- The packet that is recorded is found. -/
theorem getRecordedPacket_record_self (h : QueueOrdered r.packetQueue) (packet : RtpPacket)
    (nowMs : ℤ) : getRecordedPacket (r.record packet nowMs) packet.sequenceNumber = some packet := by
  have hordered := h.record packet nowMs
  have hself : (contents (r.record packet nowMs).packetQueue)[(recordIndex r packet nowMs).toNat]? =
      some (some packet) := by
    rw [contents_record]
    exact getElem?_insertAt_self _ _ _
  refine (getRecordedPacket_eq_some hordered).mpr ⟨rfl,_,?_,hself⟩
  by_cases hpos : 0 < recordIndex r packet nowMs
  · -- the front stays, and with it the index
    have hfront : (contents (r.record packet nowMs).packetQueue)[0]? =
        (contents (removeDuplicate (r.cullOldPackets nowMs).packetQueue
          packet.sequenceNumber))[0]? := by
      rw [contents_record,getElem?_insertAt,if_neg (by omega),if_neg (by omega)]
      have hne : 0 < (contents (removeDuplicate (r.cullOldPackets nowMs).packetQueue
          packet.sequenceNumber)).length := by
        rw [length_contents]
        by_contra hempty
        have hnil := List.length_eq_zero_iff.mp (Nat.le_zero.mp (Nat.not_lt.mp hempty))
        rw [recordIndex,hnil,getPacketIndex_nil] at hpos
        omega
      rw [if_pos (by omega),show 0-(-recordIndex r packet nowMs).toNat = 0 by omega]
    rw [getPacketIndex_congr hfront,Int.toNat_of_nonneg (by omega)]
    rfl
  · rw [getPacketIndex_of_contents hordered hself (by omega)]

theorem getElem?_record_self (r : SendPacketRecorder) (packet : RtpPacket) (nowMs : ℤ) :
    (r.record packet nowMs).packetQueue[(recordIndex r packet nowMs).toNat]? =
      some ⟨some packet,nowMs,0⟩ := by
  rw [record_packetQueue,insertPacket]
  simp only [expand]
  apply List.getElem?_set_self
  simp only [List.length_append,List.length_replicate]
  omega

/-- A packet in front of the queue is its new front. -/
theorem getPacketIndex_record_of_neg (r : SendPacketRecorder) {packet : RtpPacket} {nowMs : ℤ}
    (hneg : recordIndex r packet nowMs < 0) (s : BitVec 16) :
    getPacketIndex (r.record packet nowMs).packetQueue s =
      serialOffset s packet.sequenceNumber := by
  apply getPacketIndex_eq
  have hself := getElem?_insertAt_self (contents (removeDuplicate
    (r.cullOldPackets nowMs).packetQueue packet.sequenceNumber)) (recordIndex r packet nowMs) packet
  rw [contents_record]
  rwa [show (recordIndex r packet nowMs).toNat = 0 by omega] at hself

/-- A packet that stays is found, unless it is more than half the range behind a new front. -/
theorem getRecordedPacket_record_other (h : QueueOrdered r.packetQueue)
    (hp : p.sequenceNumber ≠ packet.sequenceNumber) :
    getRecordedPacket (r.record packet nowMs) p.sequenceNumber = some p ↔
      (∃ i : ℕ, (contents (r.cullOldPackets nowMs).packetQueue)[i]? = some (some p)) ∧
        (recordIndex r packet nowMs < 0 →
          seqNumGT p.sequenceNumber packet.sequenceNumber = true) := by
  have hordered := h.record packet nowMs
  have hcontents := contents_record r packet nowMs
  have hbounds := recordIndex_bounds r packet nowMs
  have hwithout := without_removeDuplicate (h.cullOldPackets nowMs) packet.sequenceNumber
  have hneg := @getPacketIndex_record_of_neg r packet nowMs
  have hshort := lt_of_le_of_lt (length_removeDuplicate_le (r.cullOldPackets nowMs).packetQueue
    packet.sequenceNumber) (length_cullOldPackets r nowMs)
  have hcapacity : kMaxCapacity = 9600 := rfl
  rw [getRecordedPacket_eq_some hordered,← hwithout.others p hp]
  have hindex : recordIndex r packet nowMs = getPacketIndex (removeDuplicate
    (r.cullOldPackets nowMs).packetQueue packet.sequenceNumber) packet.sequenceNumber := rfl
  rw [← length_contents] at hshort
  generalize recordIndex r packet nowMs = d at *
  generalize removeDuplicate (r.cullOldPackets nowMs).packetQueue packet.sequenceNumber = rest at *
  constructor
  · intro hfound
    obtain ⟨_,i,hi,hat⟩ := hfound
    have hold : (-d).toNat ≤ i ∧ (contents rest)[i-(-d).toNat]? = some (some p) := by
      rw [hcontents] at hat
      cases getElem?_of_insertAt _ _ _ hat with
      | inl hnew => exact absurd (congrArg RtpPacket.sequenceNumber hnew.2) hp
      | inr hold => exact hold
    refine ⟨⟨_,hold.2⟩,fun hd => ?_⟩
    rw [hneg hd] at hi
    rw [seqNumGT_iff]
    omega
  · intro hstays
    obtain ⟨⟨j,hj⟩,hahead⟩ := hstays
    have hinside := (List.getElem?_eq_some_iff.mp hj).1
    have hplace : j+(-d).toNat ≠ d.toNat := by
      intro heq
      have hd : d = j := by omega
      cases exists_front hwithout.first (by rw [← length_contents]; omega) with
      | intro front hfront =>
          have hnumber := number_eq_add_getPacketIndex hfront packet.sequenceNumber
          rw [← hindex,hd,BitVec.ofInt_natCast] at hnumber
          exact hp ((hwithout.numbered j p hj).trans hnumber.symm)
    have hat : (contents (r.record packet nowMs).packetQueue)[j+(-d).toNat]? = some (some p) := by
      rw [hcontents,getElem?_insertAt,if_neg hplace,if_neg (by omega),if_pos (by omega),
        Nat.add_sub_cancel]
      exact hj
    refine ⟨rfl,j+(-d).toNat,?_,hat⟩
    by_cases hd : d < 0
    · have hgt := (seqNumGT_iff _ _).mp (hahead hd)
      have hspec := serialOffset_spec p.sequenceNumber packet.sequenceNumber
      have hself : (contents (r.record packet nowMs).packetQueue)[0]? = some (some packet) := by
        rw [hcontents,show 0 = d.toNat by omega]
        exact getElem?_insertAt_self _ _ _
      have hnumber := congrArg BitVec.toNat (hordered.numbered _ p hat)
      rw [frontNumber_eq hself,BitVec.toNat_add,BitVec.toNat_ofNat] at hnumber
      rw [hneg hd]
      omega
    · exact getPacketIndex_of_contents hordered hat (by omega)

end Record

/-! ### Runs -/

/-- The queue after some calls, with the times in it. -/
structure Kept (calls : List Call) (r : SendPacketRecorder) : Prop where
  ordered : QueueOrdered r.packetQueue
  length_le : r.packetQueue.length ≤ 2^16
  dated : Dated calls r.packetQueue

/-- At any time from the last call on, a packet within its duration is found. -/
def Retains (calls : List Call) : Prop :=
  ∀ (nowMs t : ℤ) (p : RtpPacket) (s : BitVec 16), (∀ c ∈ calls, c.nowMs ≤ nowMs) →
    lastRecording calls s = some (p,t) →
    nowMs < t + packetDurationMs (run callStep {} calls).rttMs →
    getRecordedPacket (run callStep {} calls) s = some p

/-- What a call must meet: each packet that is within its duration has room, and is not more
than half the range away from a packet that goes in front of it; the duration is not raised
over packets that are gone. -/
def CallKeeps (calls : List Call) (c : Call) : Prop :=
  let r := run callStep {} calls
  match c with
  | .record packet nowMs => ∀ (t : ℤ) (p : RtpPacket) (s : BitVec 16),
      lastRecording calls s = some (p,t) → s ≠ packet.sequenceNumber →
      nowMs < t + packetDurationMs r.rttMs → Spared r.packetQueue p ∧
        (recordIndex r packet nowMs < 0 → seqNumGT s packet.sequenceNumber = true)
  | .query _ _ => True
  | .setRtt rttMs nowMs => ∀ (t : ℤ) (p : RtpPacket) (s : BitVec 16),
      lastRecording calls s = some (p,t) → nowMs < t + packetDurationMs rttMs →
      Spared r.packetQueue p

section Runs
variable {calls : List Call} {r : SendPacketRecorder}

theorem kept_empty : Kept [] {} :=
  ⟨ordered_nil _ _,Nat.zero_le _,fun _ h => absurd h List.not_mem_nil⟩

theorem Kept.record (h : Kept calls r) (packet : RtpPacket) (nowMs : ℤ) :
    Kept (calls++[.record packet nowMs]) (r.record packet nowMs) := by
  have hordered := h.ordered.record packet nowMs
  have hlength := length_record_le r packet nowMs
  refine ⟨hordered,hlength,fun stored hstored p p' t hp hlast => ?_⟩
  rw [lastRecording_record] at hlast
  cases List.mem_iff_getElem?.mp hstored with
  | intro i hi =>
      have hcontents : (contents (r.record packet nowMs).packetQueue)[i]? = some (some p) := by
        rw [getElem?_contents,hi,Option.map_some,hp]
      by_cases hnumber : packet.sequenceNumber = p.sequenceNumber
      · -- only the new entry has this number
        rw [if_pos hnumber,Option.some.injEq,Prod.mk.injEq] at hlast
        have hself : (contents (r.record packet nowMs).packetQueue)[(recordIndex r packet
            nowMs).toNat]? = some (some packet) := by
          rw [contents_record]
          exact getElem?_insertAt_self _ _ _
        rw [← length_contents] at hlength
        have hsame := hordered.index_injective hself hcontents
          (lt_of_lt_of_le (List.getElem?_eq_some_iff.mp hself).1 hlength)
          (lt_of_lt_of_le (List.getElem?_eq_some_iff.mp hcontents).1 hlength) hnumber
        have hnew := getElem?_record_self r packet nowMs
        rw [hsame,hi,Option.some.injEq] at hnew
        rw [hnew]
        exact hlast.2.ge
      · rw [if_neg hnumber] at hlast
        cases mem_record hstored hp with
        | inl heq =>
            rw [heq,Option.some.injEq] at hp
            exact absurd (congrArg RtpPacket.sequenceNumber hp) hnumber
        | inr hold => exact h.dated stored hold p p' t hp hlast

theorem Kept.query (h : Kept calls r) (s : BitVec 16) {nowMs : ℤ}
    (hnow : ∀ c ∈ calls, c.nowMs ≤ nowMs) :
    Kept (calls++[.query s nowMs]) (r.query s nowMs).2 := by
  have hcontents := contents_query r s nowMs
  refine ⟨?_,?_,?_⟩
  · apply QueueOrdered.of_ordered
    rw [hcontents]
    exact h.ordered
  · rw [← length_contents,hcontents,length_contents]
    exact h.length_le
  · intro stored hstored p p' t hp hlast
    rw [lastRecording_other calls rfl] at hlast
    cases mem_query hstored with
    | inl hold => exact h.dated stored hold p p' t hp hlast
    | inr hnew =>
        cases (lastRecording_spec hlast).2 with
        | intro c hc =>
            rw [hnew.1,← hc.2]
            exact hnow c hc.1

theorem Kept.setRtt (h : Kept calls r) (rttMs nowMs : ℤ) :
    Kept (calls++[.setRtt rttMs nowMs]) (r.setRtt rttMs nowMs) := by
  have hlength := length_cullOldPackets { r with rttMs := rttMs } nowMs
  have hcapacity : kMaxCapacity = 9600 := rfl
  refine ⟨QueueOrdered.cullOldPackets (r := { r with rttMs := rttMs }) h.ordered nowMs,?_,?_⟩
  · rw [SendPacketRecorder.setRtt]
    omega
  · intro stored hstored p p' t hp hlast
    rw [lastRecording_other calls rfl] at hlast
    exact h.dated stored (mem_of_mem_cull hstored hp) p p' t hp hlast

/-- Times never go back. -/
def Forward (calls : List Call) : Prop := (calls.map Call.nowMs).Pairwise (· ≤ ·)

instance : DecidablePred Forward := fun calls =>
  inferInstanceAs (Decidable ((calls.map Call.nowMs).Pairwise (· ≤ ·)))

theorem forward_snoc {c : Call} :
    Forward (calls++[c]) ↔ Forward calls ∧ ∀ c' ∈ calls, c'.nowMs ≤ c.nowMs := by
  rw [Forward,List.map_append,List.map_singleton,List.pairwise_append]
  constructor
  · intro h
    exact ⟨h.1,fun c' hc' => h.2.2 _ (List.mem_map_of_mem hc') _ (List.mem_singleton_self _)⟩
  · intro h
    refine ⟨h.1,List.pairwise_singleton _ _,fun a ha b hb => ?_⟩
    rw [List.mem_singleton] at hb
    rw [List.mem_map] at ha
    cases ha with
    | intro c' hc' =>
        rw [← hc'.2,hb]
        exact h.2 c' hc'.1

theorem kept_run (h : Forward calls) : Kept calls (run callStep {} calls) := by
  induction calls using List.reverseRecOn with
  | nil => exact kept_empty
  | append_singleton calls c ih =>
      rw [forward_snoc] at h
      rw [run_snoc]
      cases c with
      | record packet nowMs => exact (ih h.1).record packet nowMs
      | query s nowMs => exact (ih h.1).query s h.2
      | setRtt rttMs nowMs => exact (ih h.1).setRtt rttMs nowMs

/-- What is left of a packet's duration at a call was left before. -/
theorem retains_snoc_iff {c : Call} : Retains (calls++[c]) ↔
    ∀ (nowMs t : ℤ) (p : RtpPacket) (s : BitVec 16), c.nowMs ≤ nowMs →
      (∀ c' ∈ calls, c'.nowMs ≤ nowMs) → lastRecording (calls++[c]) s = some (p,t) →
      nowMs < t + packetDurationMs (callStep (run callStep {} calls) c).rttMs →
      getRecordedPacket (callStep (run callStep {} calls) c) s = some p := by
  rw [Retains,run_snoc]
  constructor
  · intro h nowMs t p s hc hcalls
    apply h
    intro c' hc'
    rw [List.mem_append,List.mem_singleton] at hc'
    cases hc' with
    | inl hold => exact hcalls c' hold
    | inr hnew => exact hnew ▸ hc
  · intro h nowMs t p s hcalls
    exact h nowMs t p s (hcalls c (List.mem_append_right _ (List.mem_singleton_self c)))
      fun c' hc' => hcalls c' (List.mem_append_left _ hc')

theorem record_rttMs (r : SendPacketRecorder) (packet : RtpPacket) (nowMs : ℤ) :
    (r.record packet nowMs).rttMs = r.rttMs := by
  rw [SendPacketRecorder.record]
  simp only [cullOldPackets]

theorem query_rttMs (r : SendPacketRecorder) (s : BitVec 16) (nowMs : ℤ) :
    (r.query s nowMs).2.rttMs = r.rttMs := by
  rw [SendPacketRecorder.query]
  split
  · rfl
  split
  · rfl
  split
  · rfl
  split
  · rfl
  · rfl

theorem retains_record_iff (h : Kept calls (run callStep {} calls)) {packet : RtpPacket} {nowMs : ℤ}
    (hnow : ∀ c ∈ calls, c.nowMs ≤ nowMs) :
    Retains (calls++[.record packet nowMs]) ↔ CallKeeps calls (.record packet nowMs) := by
  rw [retains_snoc_iff,CallKeeps]
  simp only [callStep,call,Call.nowMs]
  generalize run callStep {} calls = r at *
  simp only [record_rttMs]
  have hother : ∀ {t : ℤ} {p : RtpPacket} {s : BitVec 16},
      lastRecording calls s = some (p,t) → s ≠ packet.sequenceNumber →
      nowMs < t + packetDurationMs r.rttMs →
      (getRecordedPacket (r.record packet nowMs) s = some p ↔ Spared r.packetQueue p ∧
        (recordIndex r packet nowMs < 0 → seqNumGT s packet.sequenceNumber = true)) := by
    intro t p s hlast hne hkept
    have hnumber := (lastRecording_spec hlast).1
    rw [← hnumber] at hlast hne ⊢
    rw [getRecordedPacket_record_other h.ordered hne,
      mem_cull_iff h.dated h.ordered.first hlast hkept]
  constructor
  · intro hretains t p s hlast hne hkept
    apply (hother hlast hne hkept).mp
    apply hretains nowMs t p s le_rfl hnow
    · rw [lastRecording_record,if_neg (Ne.symm hne)]
      exact hlast
    · exact hkept
  · intro hkeeps later t p s hlater _ hlast hkept
    rw [lastRecording_record] at hlast
    split at hlast
    · rename_i hs
      rw [Option.some.injEq,Prod.mk.injEq] at hlast
      rw [← hs,← hlast.1]
      exact getRecordedPacket_record_self h.ordered packet nowMs
    · rename_i hs
      exact (hother hlast (Ne.symm hs) (by omega)).mpr
        (hkeeps t p s hlast (Ne.symm hs) (by omega))

theorem retains_setRtt_iff (h : Kept calls (run callStep {} calls)) {rttMs nowMs : ℤ}
    (hnow : ∀ c ∈ calls, c.nowMs ≤ nowMs) :
    Retains (calls++[.setRtt rttMs nowMs]) ↔ CallKeeps calls (.setRtt rttMs nowMs) := by
  rw [retains_snoc_iff,CallKeeps]
  simp only [callStep,call,Call.nowMs,lastRecording_other calls (c := .setRtt rttMs nowMs) rfl]
  have hafter := (h.setRtt rttMs nowMs).ordered
  generalize run callStep {} calls = r at *
  have hshort := length_cullOldPackets ⟨r.packetQueue,rttMs⟩ nowMs
  have hcapacity : kMaxCapacity = 9600 := rfl
  have hmem : ∀ {t : ℤ} {p : RtpPacket} {s : BitVec 16}, lastRecording calls s = some (p,t) →
      nowMs < t + packetDurationMs rttMs →
      (getRecordedPacket (r.setRtt rttMs nowMs) s = some p ↔ Spared r.packetQueue p) := by
    intro t p s hlast hkept
    have hnumber := (lastRecording_spec hlast).1
    rw [← hnumber] at hlast ⊢
    rw [getRecordedPacket_eq_some hafter,
      ← mem_cull_iff (r := { r with rttMs := rttMs }) h.dated h.ordered.first hlast hkept]
    constructor
    · intro hfound
      cases hfound.2 with
      | intro i hi => exact ⟨i,hi.2⟩
    · intro hstays
      cases hstays with
      | intro i hi =>
          have hinside := (List.getElem?_eq_some_iff.mp hi).1
          rw [length_contents] at hinside
          exact ⟨rfl,i,getPacketIndex_of_contents hafter hi (by omega),hi⟩
  constructor
  · intro hretains t p s hlast hkept
    exact (hmem hlast hkept).mp (hretains nowMs t p s le_rfl hnow hlast hkept)
  · intro hkeeps later t p s hlater _ hlast hkept
    have hkept' : nowMs < t + packetDurationMs rttMs := lt_of_le_of_lt hlater hkept
    exact (hmem hlast hkept').mpr (hkeeps t p s hlast hkept')

theorem retains_query (h : Retains calls) (s : BitVec 16) {nowMs : ℤ} :
    Retains (calls++[.query s nowMs]) := by
  rw [retains_snoc_iff]
  intro later t p s' _ hcalls hlast hkept
  rw [lastRecording_other calls rfl] at hlast
  simp only [callStep,call,query_rttMs] at hkept ⊢
  have hfound := h later t p s' hcalls hlast hkept
  have hcontents := contents_query (run callStep {} calls) s nowMs
  rw [getRecordedPacket,packetAt_eq_some] at hfound ⊢
  rw [getPacketIndex_congr (congrArg (·[0]?) hcontents) s',hcontents]
  exact hfound

theorem retains_of_along (h : Along (fun before c => Retains (before++[c])) calls) :
    Retains calls := by
  cases calls using List.reverseRecOn with
  | nil => exact fun _ _ _ s _ hlast => by simp [lastRecording_nil] at hlast
  | append_singleton calls c => exact (along_snoc.mp h).2

/-- In a run forward in time, every packet is found for its duration after every call exactly
when every call keeps the packets that are within theirs. -/
theorem run_retains_iff (h : Forward calls) :
    Along (fun before c => Retains (before++[c])) calls ↔ Along CallKeeps calls := by
  induction calls using List.reverseRecOn with
  | nil => exact ⟨fun _ => along_nil _,fun _ => along_nil _⟩
  | append_singleton calls c ih =>
      rw [forward_snoc] at h
      rw [along_snoc,along_snoc,← ih h.1]
      have hkept := kept_run h.1
      apply and_congr_right
      intro hold
      cases c with
      | record packet nowMs => exact retains_record_iff hkept h.2
      | query s nowMs => exact ⟨fun _ => trivial,fun _ => retains_query (retains_of_along hold) s⟩
      | setRtt rttMs nowMs => exact retains_setRtt_iff hkept h.2

end Runs

/-- A bare header. -/
def numbered (s : BitVec 16) : RtpPacket :=
  ⟨false,96,0,s,0,1,12,0,[],0,[0x80,96]++ByteBuffer.storeUInt16BE s++[0,0,0,0,0,0,0,1],{},{},[]⟩

/-- Packets in front of, behind and between others, over a wrap and with a new RTT. -/
def mixedCalls : List Call :=
  [.record (numbered 65534) 5,.record (numbered 1) 5,.record (numbered 65533) 6,
    .record (numbered 0) 9,.query 65534 300,.setRtt 500 400,.query 1 1400,
    .record (numbered 2) 1600]

theorem run_retains_iff_mixedCalls :
    Along (fun before c => Retains (before++[c])) mixedCalls ↔ Along CallKeeps mixedCalls :=
  run_retains_iff (by decide)

/-- Of the packets 0, 1 and 32769, recorded at once, the second is not found any more. -/
theorem not_retains : ¬∀ calls : List Call, Forward calls →
    (calls.filterMap recordedPacket).length < kMaxCapacity →
    Along (fun before c => Retains (before++[c])) calls := by
  intro h
  have hforward : Forward [.record (numbered 0) 0,.record (numbered 1) 0] := by decide
  have halong := h ([.record (numbered 0) 0,.record (numbered 1) 0]++[.record (numbered 32769) 0])
    (by decide) (by decide)
  have hkeeps := (retains_record_iff (kept_run hforward) (by decide)).mp (along_snoc.mp halong).2
  have hpair := hkeeps 0 (numbered 1) 1 rfl (by decide) (by decide)
  exact absurd (hpair.2 (by decide)) (by decide)

end Ylrtc.Recorder
