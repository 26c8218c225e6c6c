import Mathlib.Data.List.TakeWhile
import Ylrtc.Lib.NumberedDeque
import Ylrtc.Lib.Run
import Ylrtc.Transport.SendPacketRecorder

/-!
# The queue of recorded packets

What the comment at `packet_queue_` promises, over every sequence of calls: both ends
hold packets, a packet sits at the distance of its number from the front's, and every
access of the source is in range. A query is answered from the latest recording.
-/
namespace Ylrtc.Recorder
open NumberedDeque Packet Run SendPacketRecorder SequenceNumber

def contents (queue : List RecordedPacket) : List (Option RtpPacket) :=
  queue.map RecordedPacket.packet

/-- The number of the first packet. -/
def frontNumber (queue : List RecordedPacket) : BitVec 16 :=
  match queue.head?.bind RecordedPacket.packet with
  | none => 0
  | some front => front.sequenceNumber

def QueueOrdered (queue : List RecordedPacket) : Prop :=
  Ordered RtpPacket.sequenceNumber (frontNumber queue) (contents queue)

section Index
variable {queue : List RecordedPacket} {front : RtpPacket} {s : BitVec 16}

theorem getElem?_contents (queue : List RecordedPacket) (i : ℕ) :
    (contents queue)[i]? = queue[i]?.map RecordedPacket.packet := List.getElem?_map

theorem length_contents (queue : List RecordedPacket) : (contents queue).length = queue.length :=
  List.length_map _

theorem getElem?_contents_some {i : ℕ} {packet : RtpPacket} :
    (contents queue)[i]? = some (some packet) ↔
      queue[i]?.bind RecordedPacket.packet = some packet := by
  rw [getElem?_contents]
  cases queue[i]? with
  | none => simp
  | some stored => simp

theorem head?_bind_iff :
    queue.head?.bind RecordedPacket.packet = some front ↔
      (contents queue)[0]? = some (some front) := by
  rw [getElem?_contents_some,List.head?_eq_getElem?]

/-- The distance that the comparison of sequence numbers decides. -/
theorem getPacketIndex_eq (h : (contents queue)[0]? = some (some front)) (s : BitVec 16) :
    getPacketIndex queue s = serialOffset s front.sequenceNumber := by
  have hspec := serialOffset_spec s front.sequenceNumber
  have hgt := seqNumGT_iff s front.sequenceNumber
  have hs := s.isLt
  have hf := front.sequenceNumber.isLt
  rw [getPacketIndex,head?_bind_iff.mpr h]
  simp only [kSeqNumSpan,ne_eq,ite_not]
  split
  · omega
  split
  · rename_i hgt'
    have hpos := hgt.mp hgt'
    split <;> omega
  · rename_i hgt'
    have hnonpos := mt hgt.mpr hgt'
    split <;> omega

theorem getPacketIndex_nil (s : BitVec 16) : getPacketIndex [] s = 0 := rfl

theorem getPacketIndex_bounds (queue : List RecordedPacket) (s : BitVec 16) :
    -32768 ≤ getPacketIndex queue s ∧ getPacketIndex queue s ≤ 32768 := by
  cases h : queue.head?.bind RecordedPacket.packet with
  | none =>
      rw [getPacketIndex,h]
      simp
  | some front =>
      rw [getPacketIndex_eq (head?_bind_iff.mp h)]
      have := serialOffset_spec s front.sequenceNumber
      omega

theorem add_serialOffset (s f : BitVec 16) : s = f + BitVec.ofInt 16 (serialOffset s f) := by
  have hspec := serialOffset_spec s f
  have hs := s.isLt
  rw [← BitVec.toNat_inj,BitVec.toNat_add,BitVec.toNat_ofInt]
  omega

theorem frontNumber_eq (h : (contents queue)[0]? = some (some front)) :
    frontNumber queue = front.sequenceNumber := by
  rw [frontNumber,head?_bind_iff.mpr h]

/-- The index of a number is its distance from the front's. -/
theorem number_eq_add_getPacketIndex (h : (contents queue)[0]? = some (some front)) (s : BitVec 16) :
    s = frontNumber queue + BitVec.ofInt 16 (getPacketIndex queue s) := by
  rw [getPacketIndex_eq h,frontNumber_eq h]
  exact add_serialOffset s front.sequenceNumber

end Index

section Ends
variable {queue : List RecordedPacket}

/-- An entry of a queue whose first entry holds a packet. -/
theorem exists_front (h : (contents queue)[0]? ≠ some none) (hlength : 0 < queue.length) :
    ∃ front, (contents queue)[0]? = some (some front) := by
  rw [← length_contents] at hlength
  rw [List.getElem?_eq_getElem hlength] at h ⊢
  cases hfront : (contents queue)[0] with
  | none => exact absurd (by rw [hfront]) h
  | some front => exact ⟨front,rfl⟩

/-- The base of an ordered queue is the number of its first packet. -/
theorem QueueOrdered.of_ordered {base : BitVec 16}
    (h : Ordered RtpPacket.sequenceNumber base (contents queue)) : QueueOrdered queue := by
  cases queue with
  | nil => exact ordered_nil _ _
  | cons stored rest =>
      have hfront := exists_front h.first (Nat.succ_pos _)
      cases hfront with
      | intro front hfront =>
          have hbase : frontNumber (stored::rest) = base := by
            rw [frontNumber_eq hfront,h.numbered 0 front hfront]
            simp
          rw [QueueOrdered,hbase]
          exact h

theorem contents_drop (queue : List RecordedPacket) (k : ℕ) :
    contents (queue.drop k) = (contents queue).drop k := List.map_drop

theorem QueueOrdered.drop (h : QueueOrdered queue) {k : ℕ}
    (hk : (contents (queue.drop k))[0]? ≠ some none) : QueueOrdered (queue.drop k) := by
  apply @QueueOrdered.of_ordered _ (frontNumber queue + BitVec.ofNat 16 k)
  rw [contents_drop,List.getElem?_drop] at hk
  rw [contents_drop]
  exact Ordered.drop h hk

theorem removePacket_zero (queue : List RecordedPacket) :
    removePacket queue 0 = queue.tail.dropWhile fun stored => stored.packet.isNone := by
  cases queue with
  | nil => rfl
  | cons stored rest => simp [removePacket]

theorem first_dropWhile (queue : List RecordedPacket) :
    (contents (queue.dropWhile fun stored => stored.packet.isNone))[0]? ≠ some none := by
  induction queue with
  | nil => simp [contents]
  | cons stored rest ih =>
      rw [List.dropWhile_cons]
      split
      · exact ih
      · rename_i hstored
        simpa [contents] using hstored

/-- Removing the first packet drops it and the empty places behind it. -/
theorem exists_drop_removePacket (queue : List RecordedPacket) :
    ∃ k, removePacket queue 0 = queue.drop (k+1) ∧
      (contents (removePacket queue 0))[0]? ≠ some none := by
  rw [removePacket_zero]
  exact ⟨_,by rw [List.dropWhile_eq_drop_findIdx_not,← List.drop_one,List.drop_drop,Nat.add_comm],
    first_dropWhile queue.tail⟩

theorem length_removePacket_zero_lt (h : 0 < queue.length) :
    (removePacket queue 0).length < queue.length := by
  cases exists_drop_removePacket queue with
  | intro k hk =>
      rw [hk.1,List.length_drop]
      omega

end Ends

section Cull
variable {queue : List RecordedPacket} (duration nowMs : ℤ)

theorem exists_drop_cull (n : ℕ) (h : (contents queue)[0]? ≠ some none) :
    ∃ k, cull duration nowMs n queue = queue.drop k ∧
      (contents (cull duration nowMs n queue))[0]? ≠ some none := by
  induction n generalizing queue with
  | zero => exact ⟨0,rfl,h⟩
  | succ n ih =>
      have hremove : ∃ k, cull duration nowMs n (removePacket queue 0) = queue.drop k ∧
          (contents (cull duration nowMs n (removePacket queue 0)))[0]? ≠ some none := by
        cases exists_drop_removePacket queue with
        | intro j hj =>
            cases ih hj.2 with
            | intro k hk =>
                refine ⟨j+1+k,?_,hk.2⟩
                rw [hk.1,hj.1,List.drop_drop]
      cases queue with
      | nil => exact ⟨0,rfl,h⟩
      | cons stored rest =>
          rw [cull]
          split
          · exact hremove
          split
          · exact ⟨0,rfl,h⟩
          split
          · exact hremove
          · exact ⟨0,rfl,h⟩

/-- The loop has ended when its rounds are used up. -/
theorem length_cull {n : ℕ} (h : queue.length ≤ n) :
    (cull duration nowMs n queue).length < kMaxCapacity := by
  have hcapacity : 0 < kMaxCapacity := by decide
  induction n generalizing queue with
  | zero =>
      rw [cull]
      omega
  | succ n ih =>
      cases queue with
      | nil => exact hcapacity
      | cons stored rest =>
          have hshorter := @length_removePacket_zero_lt (stored::rest) (Nat.succ_pos _)
          rw [cull]
          split
          · exact ih (by omega)
          split
          · omega
          split
          · exact ih (by omega)
          · omega

variable {r : SendPacketRecorder}

theorem QueueOrdered.cullOldPackets (h : QueueOrdered r.packetQueue) (nowMs : ℤ) :
    QueueOrdered (r.cullOldPackets nowMs).packetQueue := by
  rw [SendPacketRecorder.cullOldPackets]
  cases exists_drop_cull (max (kMinPacketDurationRtt*r.rttMs) kMinPacketDurationMs) nowMs
    r.packetQueue.length h.first with
  | intro k hk =>
      have hfirst := hk.2
      simp only
      rw [hk.1] at hfirst ⊢
      exact h.drop hfirst

theorem length_cullOldPackets (r : SendPacketRecorder) (nowMs : ℤ) :
    (r.cullOldPackets nowMs).packetQueue.length < kMaxCapacity := length_cull _ _ le_rfl

end Cull

/-! ### Recording -/

section Record
variable {queue : List RecordedPacket} {r : SendPacketRecorder}

/-- The queue with room for a packet, and the packet in it. -/
def insertPacket (queue : List RecordedPacket) (packet : RtpPacket) (nowMs : ℤ) :
    List RecordedPacket :=
  let expanded := expand queue (getPacketIndex queue packet.sequenceNumber)
  expanded.1.set expanded.2 ⟨some packet,nowMs,0⟩

theorem record_packetQueue (r : SendPacketRecorder) (packet : RtpPacket) (nowMs : ℤ) :
    (r.record packet nowMs).packetQueue =
      insertPacket (removeDuplicate (r.cullOldPackets nowMs).packetQueue packet.sequenceNumber)
        packet nowMs := by
  simp only [SendPacketRecorder.record,insertPacket]

theorem contents_insertPacket (queue : List RecordedPacket) (packet : RtpPacket) (nowMs : ℤ) :
    contents (insertPacket queue packet nowMs) =
      insertAt (contents queue) (getPacketIndex queue packet.sequenceNumber) packet := by
  simp only [insertPacket,expand,insertAt,contents,List.map_set,List.map_append,List.map_replicate,
    List.length_append,List.length_replicate,List.length_map]

theorem QueueOrdered.insertPacket (h : QueueOrdered queue) (packet : RtpPacket) (nowMs : ℤ) :
    QueueOrdered (insertPacket queue packet nowMs) := by
  cases queue with
  | nil =>
      have hinsert := (ordered_nil RtpPacket.sequenceNumber packet.sequenceNumber).insertAt
        (d := 0) (a := packet) (fun _ => rfl) (by simp)
      apply QueueOrdered.of_ordered
      rw [contents_insertPacket]
      exact hinsert
  | cons stored rest =>
      cases exists_front h.first (Nat.succ_pos _) with
      | intro front hfront =>
          apply QueueOrdered.of_ordered
          rw [contents_insertPacket]
          apply Ordered.insertAt h
          · intro hnil
            simp [contents] at hnil
          · exact number_eq_add_getPacketIndex hfront packet.sequenceNumber

theorem getPacketIndex_congr {other : List RecordedPacket}
    (h : (contents queue)[0]? = (contents other)[0]?) (s : BitVec 16) :
    getPacketIndex queue s = getPacketIndex other s := by
  have hhead : queue.head?.bind RecordedPacket.packet = other.head?.bind RecordedPacket.packet := by
    ext front
    rw [head?_bind_iff,head?_bind_iff,h]
  rw [getPacketIndex,getPacketIndex,hhead]

theorem contents_removePacket (queue : List RecordedPacket) {i : ℕ} (hi : i ≠ 0) :
    contents (removePacket queue i) = (contents queue).set i none := by
  simp only [removePacket,if_neg hi]
  apply List.ext_getElem?
  intro j
  rw [getElem?_contents,List.getElem?_modify,List.getElem?_set,getElem?_contents,length_contents]
  by_cases hij : i = j
  · cases hj : queue[j]? with
    | none => simp [hij,List.getElem?_eq_none_iff.mp hj]
    | some stored => simp [hij,(List.getElem?_eq_some_iff.mp hj).1]
  · simp [hij]

/-- A packet that replaces one of its number behind the front. -/
theorem contents_replace (h : QueueOrdered queue) {packet old : RtpPacket} (nowMs : ℤ)
    (hindex : 0 < getPacketIndex queue packet.sequenceNumber)
    (hold : (contents queue)[(getPacketIndex queue packet.sequenceNumber).toNat]? =
      some (some old)) :
    contents (insertPacket
        (removePacket queue (getPacketIndex queue packet.sequenceNumber).toNat) packet nowMs) =
      (contents queue).set (getPacketIndex queue packet.sequenceNumber).toNat (some packet) ∧
      packet.sequenceNumber = old.sequenceNumber := by
  generalize hgen : getPacketIndex queue packet.sequenceNumber = index at hindex hold ⊢
  have hlength : index.toNat < (contents queue).length := (List.getElem?_eq_some_iff.mp hold).1
  have hcontents := contents_removePacket queue (i := index.toNat) (by omega)
  constructor
  · have hsame : getPacketIndex (removePacket queue index.toNat) packet.sequenceNumber = index := by
      apply Eq.trans _ hgen
      apply getPacketIndex_congr
      rw [hcontents,List.getElem?_set,if_neg (by omega)]
    rw [contents_insertPacket,hsame,hcontents]
    exact insertAt_set_none _ _ _ (by omega) hlength
  · rw [length_contents] at hlength
    cases exists_front h.first (by omega) with
    | intro front hfront =>
        have hnumber := number_eq_add_getPacketIndex hfront packet.sequenceNumber
        rw [hgen,ofInt_eq_sub,show (-index).toNat = 0 by omega] at hnumber
        rw [h.numbered _ old hold,hnumber]
        simp

theorem packetAt_eq_some {index : ℤ} {packet : RtpPacket} :
    packetAt queue index = some packet ↔
      0 ≤ index ∧ (contents queue)[index.toNat]? = some (some packet) := by
  rw [packetAt,getElem?_contents_some]
  split
  · simp only [reduceCtorEq,false_iff]
    omega
  · simp only [iff_and_self]
    omega

theorem QueueOrdered.record (h : QueueOrdered r.packetQueue) (packet : RtpPacket) (nowMs : ℤ) :
    QueueOrdered (r.record packet nowMs).packetQueue := by
  have hculled := h.cullOldPackets nowMs
  rw [record_packetQueue]
  generalize (r.cullOldPackets nowMs).packetQueue = queue at hculled ⊢
  simp only [removeDuplicate]
  split
  · rename_i hsome
    cases hold : packetAt queue (getPacketIndex queue packet.sequenceNumber) with
    | none => simp [hold] at hsome
    | some old =>
        rw [packetAt_eq_some] at hold
        by_cases hzero : getPacketIndex queue packet.sequenceNumber = 0
        · -- the front goes, with the empty places behind it, and comes back
          rw [hzero]
          apply QueueOrdered.insertPacket
          cases exists_drop_removePacket queue with
          | intro k hk =>
              have hfirst := hk.2
              rw [Int.toNat_zero]
              rw [hk.1] at hfirst ⊢
              exact hculled.drop hfirst
        · have hreplace := contents_replace hculled nowMs (by omega) hold.2
          apply QueueOrdered.of_ordered
          rw [hreplace.1]
          exact Ordered.set hculled hold.2 hreplace.2
  · exact hculled.insertPacket packet nowMs

theorem length_removeDuplicate_le (queue : List RecordedPacket) (s : BitVec 16) :
    (removeDuplicate queue s).length ≤ queue.length := by
  simp only [removeDuplicate,removePacket]
  split
  · split
    · have hle := List.Sublist.length_le (List.dropWhile_sublist (l := queue.modify
        (getPacketIndex queue s).toNat fun stored => { stored with packet := none })
        fun stored : RecordedPacket => stored.packet.isNone)
      rw [List.length_modify] at hle
      exact hle
    · rw [List.length_modify]
  · exact le_rfl

/-- All numbers of the queue are within one span. -/
theorem length_record_le (r : SendPacketRecorder) (packet : RtpPacket) (nowMs : ℤ) :
    (r.record packet nowMs).packetQueue.length ≤ 2^16 := by
  have hcull := length_cullOldPackets r nowMs
  have hcapacity : kMaxCapacity = 9600 := rfl
  rw [record_packetQueue,← length_contents,contents_insertPacket,length_insertAt,length_contents]
  generalize (r.cullOldPackets nowMs).packetQueue = queue at hcull ⊢
  have hle := length_removeDuplicate_le queue packet.sequenceNumber
  have hbounds := getPacketIndex_bounds (removeDuplicate queue packet.sequenceNumber)
    packet.sequenceNumber
  omega

end Record

/-! ### Accesses

The same operations with the accesses that the source makes without a test: an entry
out of range or a packet that is not there gives `none`. -/

/-- `GetPacketIndex` follows the packet of the first entry. -/
def getPacketIndexChecked (queue : List RecordedPacket) (s : BitVec 16) : Option ℤ :=
  match queue with
  | [] => some 0
  | stored::rest => stored.packet.map fun _ => getPacketIndex (stored::rest) s

def removePacketChecked (queue : List RecordedPacket) (packetIndex : ℕ) :
    Option (List RecordedPacket) :=
  queue[packetIndex]?.map fun _ => removePacket queue packetIndex

def cullChecked (packetDurationMs nowMs : ℤ) : ℕ → List RecordedPacket → Option (List RecordedPacket)
  | 0,queue => some queue
  | n+1,queue =>
      if queue.isEmpty then some queue
      else if kMaxCapacity ≤ queue.length then
        (removePacketChecked queue 0).bind (cullChecked packetDurationMs nowMs n)
      else queue[0]?.bind fun stored =>
        if stored.sendTimeMs + packetDurationMs > nowMs then some queue
        else if stored.sendTimeMs + packetDurationMs*kPacketCullingDelayFactor ≤ nowMs then
          (removePacketChecked queue 0).bind (cullChecked packetDurationMs nowMs n)
        else some queue

namespace SendPacketRecorder

def cullOldPacketsChecked (r : SendPacketRecorder) (nowMs : ℤ) : Option SendPacketRecorder :=
  let packetDurationMs := max (kMinPacketDurationRtt*r.rttMs) kMinPacketDurationMs
  (cullChecked packetDurationMs nowMs r.packetQueue.length r.packetQueue).map fun queue =>
    { r with packetQueue := queue }

def removeDuplicateChecked (queue : List RecordedPacket) (s : BitVec 16) :
    Option (List RecordedPacket) :=
  (getPacketIndexChecked queue s).bind fun packetIndex =>
    if (packetAt queue packetIndex).isSome then removePacketChecked queue packetIndex.toNat
    else some queue

def recordChecked (r : SendPacketRecorder) (packet : RtpPacket) (nowMs : ℤ) :
    Option SendPacketRecorder := do
  let r ← r.cullOldPacketsChecked nowMs
  let queue ← removeDuplicateChecked r.packetQueue packet.sequenceNumber
  let packetIndex ← getPacketIndexChecked queue packet.sequenceNumber
  let (queue,index) := expand queue packetIndex
  if index < queue.length then
    some { r with packetQueue := queue.set index ⟨some packet,nowMs,0⟩ }
  else none

/-- The other accesses of `Query` are behind its tests. -/
def queryChecked (r : SendPacketRecorder) (s : BitVec 16) (nowMs : ℤ) :
    Option (Option RtpPacket × SendPacketRecorder) :=
  (getPacketIndexChecked r.packetQueue s).map fun _ => r.query s nowMs

end SendPacketRecorder

section Checked
variable {queue : List RecordedPacket} {r : SendPacketRecorder}

theorem getPacketIndexChecked_eq (h : (contents queue)[0]? ≠ some none) (s : BitVec 16) :
    getPacketIndexChecked queue s = some (getPacketIndex queue s) := by
  cases queue with
  | nil => rfl
  | cons stored rest =>
      cases hstored : stored.packet with
      | none =>
          simp [contents,hstored] at h
      | some front =>
          rw [getPacketIndexChecked,hstored]
          rfl

theorem removePacketChecked_eq (queue : List RecordedPacket) {i : ℕ} (h : i < queue.length) :
    removePacketChecked queue i = some (removePacket queue i) := by
  rw [removePacketChecked,List.getElem?_eq_getElem h]
  rfl

theorem cullChecked_eq (packetDurationMs nowMs : ℤ) (n : ℕ) (queue : List RecordedPacket) :
    cullChecked packetDurationMs nowMs n queue = some (cull packetDurationMs nowMs n queue) := by
  induction n generalizing queue with
  | zero => rfl
  | succ n ih =>
      cases queue with
      | nil => rfl
      | cons stored rest =>
          have hremove := removePacketChecked_eq (stored::rest) (i := 0) (Nat.succ_pos _)
          rw [cullChecked,cull,hremove]
          simp only [List.isEmpty_cons,Bool.false_eq_true,if_false,List.getElem?_cons_zero,
            Option.bind_some,ih]
          split
          · rfl
          split
          · rfl
          split
          · rfl
          · rfl

theorem cullOldPacketsChecked_eq (r : SendPacketRecorder) (nowMs : ℤ) :
    r.cullOldPacketsChecked nowMs = some (r.cullOldPackets nowMs) := by
  simp only [cullOldPacketsChecked,cullChecked_eq]
  rfl

/-- The queue without the duplicate is empty or starts with a packet. -/
theorem first_removeDuplicate (h : QueueOrdered queue) (s : BitVec 16) :
    (contents (removeDuplicate queue s))[0]? ≠ some none := by
  simp only [removeDuplicate]
  split
  · by_cases hzero : (getPacketIndex queue s).toNat = 0
    · rw [hzero]
      cases exists_drop_removePacket queue with
      | intro k hk => exact hk.2
    · rw [contents_removePacket _ hzero,List.getElem?_set,if_neg hzero]
      exact h.first
  · exact h.first

theorem removeDuplicateChecked_eq (h : QueueOrdered queue) (s : BitVec 16) :
    removeDuplicateChecked queue s = some (removeDuplicate queue s) := by
  simp only [removeDuplicateChecked,removeDuplicate,getPacketIndexChecked_eq h.first,
    Option.bind_some]
  split
  · rename_i hsome
    cases hold : packetAt queue (getPacketIndex queue s) with
    | none => simp [hold] at hsome
    | some old =>
        have hindex := (List.getElem?_eq_some_iff.mp (packetAt_eq_some.mp hold).2).1
        rw [length_contents] at hindex
        exact removePacketChecked_eq _ hindex
  · rfl

theorem recordChecked_eq (h : QueueOrdered r.packetQueue) (packet : RtpPacket) (nowMs : ℤ) :
    r.recordChecked packet nowMs = some (r.record packet nowMs) := by
  have hculled := h.cullOldPackets nowMs
  have hrest := first_removeDuplicate hculled packet.sequenceNumber
  simp only [recordChecked,cullOldPacketsChecked_eq,Option.bind_eq_bind,Option.bind_some,
    removeDuplicateChecked_eq hculled,getPacketIndexChecked_eq hrest]
  rw [if_pos]
  · rfl
  · simp only [expand,List.length_append,List.length_replicate]
    omega

theorem queryChecked_eq (h : QueueOrdered r.packetQueue) (s : BitVec 16) (nowMs : ℤ) :
    r.queryChecked s nowMs = some (r.query s nowMs) := by
  rw [queryChecked,getPacketIndexChecked_eq h.first]
  rfl

end Checked

/-! ### Runs -/

/-- A call with the packet or number it is given and the time it reads. -/
inductive Call where
  | record (packet : RtpPacket) (nowMs : ℤ)
  | query (sequenceNumber : BitVec 16) (nowMs : ℤ)
  | setRtt (rttMs nowMs : ℤ)

/-- What a call answers, and the recorder after it. -/
def call (r : SendPacketRecorder) : Call → Option RtpPacket × SendPacketRecorder
  | .record packet nowMs => (none,r.record packet nowMs)
  | .query s nowMs => r.query s nowMs
  | .setRtt rttMs nowMs => (none,r.setRtt rttMs nowMs)

def callChecked (r : SendPacketRecorder) : Call → Option (Option RtpPacket × SendPacketRecorder)
  | .record packet nowMs => (r.recordChecked packet nowMs).map fun r => (none,r)
  | .query s nowMs => r.queryChecked s nowMs
  | .setRtt rttMs nowMs =>
      (cullOldPacketsChecked { r with rttMs := rttMs } nowMs).map fun r => (none,r)

def callStep (r : SendPacketRecorder) (c : Call) : SendPacketRecorder := (call r c).2

def recordedPacket : Call → Option RtpPacket
  | .record packet _ => some packet
  | _ => none

/-- The packet most recently recorded under a number. -/
def lastRecorded (calls : List Call) (s : BitVec 16) : Option RtpPacket :=
  (calls.filterMap recordedPacket).reverse.find? fun packet => packet.sequenceNumber = s

section Runs
variable {r : SendPacketRecorder} {calls : List Call}

theorem lastRecorded_snoc (calls : List Call) (c : Call) (s : BitVec 16) :
    lastRecorded (calls++[c]) s =
      match recordedPacket c with
      | none => lastRecorded calls s
      | some packet => if packet.sequenceNumber = s then some packet else lastRecorded calls s := by
  simp only [lastRecorded,List.filterMap_append]
  cases hc : recordedPacket c with
  | none => simp [hc]
  | some packet =>
      rw [List.filterMap_cons_some hc]
      simp only [List.filterMap_nil,List.reverse_append,List.reverse_singleton,List.singleton_append,
        List.find?_cons]
      split
      · rename_i hs
        rw [if_pos (of_decide_eq_true hs)]
      · rename_i hs
        rw [if_neg (of_decide_eq_false hs)]

/-- Queries replace an entry by one with its packet. -/
theorem contents_query (r : SendPacketRecorder) (s : BitVec 16) (nowMs : ℤ) :
    contents (r.query s nowMs).2.packetQueue = contents r.packetQueue := by
  rw [SendPacketRecorder.query]
  split
  · rfl
  cases hstored : r.packetQueue[(getPacketIndex r.packetQueue s).toNat]? with
  | none => rfl
  | some stored =>
      simp only
      cases hpacket : stored.packet with
      | none => rfl
      | some packet =>
          simp only
          split
          · rfl
          · simp only [contents,List.map_set]
            apply List.ext_getElem?
            intro i
            rw [List.getElem?_set,List.length_map,List.getElem?_map]
            split
            · rename_i hi
              rw [← hi,hstored,if_pos (List.getElem?_eq_some_iff.mp hstored).1,Option.map_some,
                hpacket]
            · rfl

/-- A packet found under a number has that number. -/
theorem sequenceNumber_of_index (h : QueueOrdered r.packetQueue) {s : BitVec 16} {p : RtpPacket}
    (hindex : 0 ≤ getPacketIndex r.packetQueue s)
    (hp : (contents r.packetQueue)[(getPacketIndex r.packetQueue s).toNat]? = some (some p)) :
    p.sequenceNumber = s := by
  have hlength := (List.getElem?_eq_some_iff.mp hp).1
  rw [length_contents] at hlength
  cases exists_front h.first (by omega) with
  | intro front hfront =>
      have hs := number_eq_add_getPacketIndex hfront s
      rw [ofInt_eq_sub,show (-getPacketIndex r.packetQueue s).toNat = 0 by omega] at hs
      rw [h.numbered _ p hp]
      conv_rhs => rw [hs]
      simp

theorem query_answer (h : QueueOrdered r.packetQueue) {s : BitVec 16} {nowMs : ℤ}
    {answer : RtpPacket} (hanswer : (r.query s nowMs).1 = some answer) :
    ∃ (p : RtpPacket) (i : ℕ), (contents r.packetQueue)[i]? = some (some p) ∧ p.sequenceNumber = s ∧
      answer = p.copy := by
  obtain ⟨stored,p,hindex,hstored,hpacket,hcopy⟩ := query_eq_some hanswer
  have hp : (contents r.packetQueue)[(getPacketIndex r.packetQueue s).toNat]? = some (some p) := by
    rw [getElem?_contents,hstored,Option.map_some,hpacket]
  exact ⟨p,_,hp,sequenceNumber_of_index h (by omega) hp,hcopy⟩

/-- What holds of the recorder after some calls. -/
structure Recorded (calls : List Call) (r : SendPacketRecorder) : Prop where
  ordered : QueueOrdered r.packetQueue
  length_le : r.packetQueue.length ≤ 2^16
  latest : r.Holds fun packet => lastRecorded calls packet.sequenceNumber = some packet

theorem holds_iff {P : RtpPacket → Prop} :
    r.Holds P ↔ ∀ (i : ℕ) (p : RtpPacket), (contents r.packetQueue)[i]? = some (some p) → P p := by
  constructor
  · intro h i p hp
    rw [getElem?_contents,Option.map_eq_some_iff] at hp
    cases hp with
    | intro stored hstored => exact h stored (List.mem_of_getElem? hstored.1) p hstored.2
  · intro h stored hstored p hp
    cases List.mem_iff_getElem?.mp hstored with
    | intro i hi =>
        apply h i p
        rw [getElem?_contents,hi,Option.map_some,hp]

theorem recorded_empty : Recorded [] {} where
  ordered := ordered_nil _ _
  length_le := Nat.zero_le _
  latest := holds_empty _

theorem Recorded.record (h : Recorded calls r) (packet : RtpPacket) (nowMs : ℤ) :
    Recorded (calls++[.record packet nowMs]) (r.record packet nowMs) where
  ordered := h.ordered.record packet nowMs
  length_le := length_record_le r packet nowMs
  latest := by
    have hordered := h.ordered.record packet nowMs
    have hlength := length_record_le r packet nowMs
    -- every packet is the new one or was the latest of its number
    have hstored : (r.record packet nowMs).Holds fun p =>
        p = packet ∨ lastRecorded calls p.sequenceNumber = some p :=
      (h.latest.mono fun _ => .inr).record (.inl rfl) nowMs
    -- the new one is there, so no other has its number
    have hnew : ∃ i : ℕ,
        (contents (r.record packet nowMs).packetQueue)[i]? = some (some packet) := by
      rw [record_packetQueue,contents_insertPacket]
      exact ⟨_,getElem?_insertAt_self _ _ _⟩
    rw [holds_iff] at hstored ⊢
    intro i p hp
    rw [lastRecorded_snoc]
    simp only [recordedPacket]
    split
    · rename_i hnumber
      cases hnew with
      | intro j hj =>
          rw [← length_contents] at hlength
          have hij := hordered.index_injective hj hp
            (lt_of_lt_of_le (List.getElem?_eq_some_iff.mp hj).1 hlength)
            (lt_of_lt_of_le (List.getElem?_eq_some_iff.mp hp).1 hlength) hnumber
          rw [← hij,hj,Option.some.injEq] at hp
          exact hp
    · rename_i hnumber
      cases hstored i p hp with
      | inl heq => exact absurd (congrArg RtpPacket.sequenceNumber heq.symm) hnumber
      | inr hlast => exact hlast

theorem Recorded.query (h : Recorded calls r) (s : BitVec 16) (nowMs : ℤ) :
    Recorded (calls++[.query s nowMs]) (r.query s nowMs).2 where
  ordered := by
    apply QueueOrdered.of_ordered
    rw [contents_query]
    exact h.ordered
  length_le := by
    rw [← length_contents,contents_query,length_contents]
    exact h.length_le
  latest := by
    simp only [lastRecorded_snoc,recordedPacket]
    exact (h.latest.query s nowMs).1

theorem Recorded.setRtt (h : Recorded calls r) (rttMs nowMs : ℤ) :
    Recorded (calls++[.setRtt rttMs nowMs]) (r.setRtt rttMs nowMs) where
  ordered := QueueOrdered.cullOldPackets (r := { r with rttMs := rttMs }) h.ordered nowMs
  length_le := by
    have hlength := length_cullOldPackets { r with rttMs := rttMs } nowMs
    have hcapacity : kMaxCapacity = 9600 := rfl
    rw [SendPacketRecorder.setRtt]
    omega
  latest := by
    simp only [lastRecorded_snoc,recordedPacket]
    exact h.latest.setRtt rttMs nowMs

theorem Recorded.step (h : Recorded calls r) (c : Call) : Recorded (calls++[c]) (callStep r c) := by
  cases c with
  | record packet nowMs => exact h.record packet nowMs
  | query s nowMs => exact h.query s nowMs
  | setRtt rttMs nowMs => exact h.setRtt rttMs nowMs

theorem recorded_run (calls : List Call) : Recorded calls (run callStep {} calls) := by
  induction calls using List.reverseRecOn with
  | nil => exact recorded_empty
  | append_singleton calls c ih =>
      rw [run_snoc]
      exact ih.step c

theorem callChecked_eq (h : QueueOrdered r.packetQueue) (c : Call) :
    callChecked r c = some (call r c) := by
  cases c with
  | record packet nowMs =>
      rw [callChecked,recordChecked_eq h]
      rfl
  | query s nowMs => exact queryChecked_eq h s nowMs
  | setRtt rttMs nowMs =>
      rw [callChecked,cullOldPacketsChecked_eq]
      rfl

end Runs

/-- The promise at `packet_queue_` after any calls: packets at both ends, the packet at
index `i` numbered `i` behind the first, different numbers at different indices. The next
call makes no access out of range or through a null packet, and a query answers with a
copy of the packet last recorded under its number or with nothing. -/
theorem packetQueue_promise (calls : List Call) :
    let r := run callStep {} calls
    (∀ stored, r.packetQueue.head? = some stored → stored.packet.isSome) ∧
      (∀ stored, r.packetQueue.getLast? = some stored → stored.packet.isSome) ∧
      (∀ (first p : RtpPacket) (i : ℕ), packetAt r.packetQueue 0 = some first →
        packetAt r.packetQueue i = some p →
        p.sequenceNumber = first.sequenceNumber + BitVec.ofNat 16 i) ∧
      (∀ (p q : RtpPacket) (i j : ℕ), packetAt r.packetQueue i = some p →
        packetAt r.packetQueue j = some q → i ≠ j → p.sequenceNumber ≠ q.sequenceNumber) ∧
      (∀ c, callChecked r c = some (call r c)) ∧
      ∀ s nowMs answer, (r.query s nowMs).1 = some answer →
        ∃ packet, lastRecorded calls s = some packet ∧ answer = packet.copy := by
  intro r
  have h : Recorded calls r := recorded_run calls
  have hlength := h.length_le
  rw [← length_contents] at hlength
  have hat : ∀ {i : ℕ} {p : RtpPacket}, packetAt r.packetQueue i = some p →
      (contents r.packetQueue)[i]? = some (some p) := fun hp => (packetAt_eq_some.mp hp).2
  refine ⟨?_,?_,?_,?_,callChecked_eq h.ordered,?_⟩
  · intro stored hstored
    have hfirst := h.ordered.first
    rw [getElem?_contents,← List.head?_eq_getElem?,hstored] at hfirst
    simpa [Option.isSome_iff_ne_none] using hfirst
  · intro stored hstored
    have hlast := h.ordered.last
    rw [length_contents,getElem?_contents,← List.getLast?_eq_getElem?,hstored] at hlast
    simpa [Option.isSome_iff_ne_none] using hlast
  · intro first p i hfirst hp
    have hbase := h.ordered.numbered i p (hat hp)
    rw [frontNumber_eq (hat (i := 0) hfirst)] at hbase
    exact hbase
  · intro p q i j hp hq hij hnumber
    apply hij
    exact h.ordered.index_injective (hat hp) (hat hq)
      (lt_of_lt_of_le (List.getElem?_eq_some_iff.mp (hat hp)).1 hlength)
      (lt_of_lt_of_le (List.getElem?_eq_some_iff.mp (hat hq)).1 hlength) hnumber
  · intro s nowMs answer hanswer
    cases query_answer h.ordered hanswer with
    | intro p hp =>
        cases hp with
        | intro i hp =>
            have hlatest := holds_iff.mp h.latest i p hp.1
            rw [hp.2.1] at hlatest
            exact ⟨p,hlatest,hp.2.2⟩

end Ylrtc.Recorder
