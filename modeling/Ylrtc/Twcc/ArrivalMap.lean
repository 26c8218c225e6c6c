import Ylrtc.Lib.IndexedDeque

/-!
# The map of packet arrival times

`PacketArrivalTimeMap` of `congestion_controller/packet_arrival_map.cpp`. A packet
that was not received has arrival time zero. An addition may be refused, may
expand the map on either side and may drop old packets on the left;
`addPacket_spec` says all that at once.
-/
namespace Ylrtc.ArrivalMap
open IndexedDeque

abbrev kMaxNumberOfPackets : ℕ := 32768

/-- `arrival_times` with `begin_sequence_number_` as its front, and
`has_seen_packet_`. -/
structure PacketArrivalTimeMap where
  arrivalTimes : Deque ℤ := ⟨0,[]⟩
  hasSeenPacket : Bool := false
  deriving DecidableEq, Repr

/-- The removal of old packets in `AddPacket`, for a packet behind the buffer.
The caller recomputes `pos` from the new front. -/
def makeRoom (d : Deque ℤ) (sequenceNumber : ℤ) : Deque ℤ :=
  let pos := (sequenceNumber - d.front).toNat
  if pos ≥ kMaxNumberOfPackets then
    let packetsToRemove := pos - kMaxNumberOfPackets + 1
    if packetsToRemove ≥ d.items.length then ⟨sequenceNumber,[]⟩
    else (d.dropFront packetsToRemove).popWhile fun _ time => time == 0
  else d

namespace PacketArrivalTimeMap

abbrev beginSequenceNumber (m : PacketArrivalTimeMap) : ℤ := m.arrivalTimes.front

abbrev endSequenceNumber (m : PacketArrivalTimeMap) : ℤ := m.arrivalTimes.stop

def get (m : PacketArrivalTimeMap) (sequenceNumber : ℤ) : ℤ :=
  m.arrivalTimes.items.getD (sequenceNumber - m.beginSequenceNumber).toNat 0

def hasReceived (m : PacketArrivalTimeMap) (sequenceNumber : ℤ) : Bool :=
  decide (0 ≤ sequenceNumber - m.beginSequenceNumber ∧
    sequenceNumber - m.beginSequenceNumber < m.arrivalTimes.items.length ∧
    m.get sequenceNumber ≠ 0)

def clamp (m : PacketArrivalTimeMap) (sequenceNumber : ℤ) : ℤ :=
  if sequenceNumber < m.beginSequenceNumber then m.beginSequenceNumber
  else if m.endSequenceNumber < sequenceNumber then m.endSequenceNumber
  else sequenceNumber

def addPacket (m : PacketArrivalTimeMap) (sequenceNumber arrivalTimeMs : ℤ) :
    PacketArrivalTimeMap :=
  if !m.hasSeenPacket then
    ⟨⟨sequenceNumber,m.arrivalTimes.items++[arrivalTimeMs]⟩,true⟩
  else
    let pos := sequenceNumber - m.beginSequenceNumber
    if 0 ≤ pos ∧ pos < m.arrivalTimes.items.length then
      { m with arrivalTimes := m.arrivalTimes.put sequenceNumber arrivalTimeMs }
    else if pos < 0 then
      let missingPackets := (-pos).toNat
      if missingPackets+m.arrivalTimes.items.length > kMaxNumberOfPackets then m
      else { m with arrivalTimes := m.arrivalTimes.growFront missingPackets arrivalTimeMs }
    else
      let room := makeRoom m.arrivalTimes sequenceNumber
      { m with arrivalTimes := room.growBack (sequenceNumber - room.stop).toNat arrivalTimeMs }

def removeOldPackets (m : PacketArrivalTimeMap) (sequenceNumber arrivalTimeLimit : ℤ) :
    PacketArrivalTimeMap :=
  { m with arrivalTimes := m.arrivalTimes.popWhile fun front time =>
      decide (front < sequenceNumber) && decide (time ≤ arrivalTimeLimit) }

def eraseTo (m : PacketArrivalTimeMap) (sequenceNumber : ℤ) : PacketArrivalTimeMap :=
  if sequenceNumber > m.beginSequenceNumber then
    let count := min (sequenceNumber - m.beginSequenceNumber).toNat m.arrivalTimes.items.length
    { m with arrivalTimes := m.arrivalTimes.dropFront count }
  else m

/-- Arrival time of a packet, zero when the map does not hold it as received. -/
def timeAt (m : PacketArrivalTimeMap) (n : ℤ) : ℤ := m.arrivalTimes.value n

theorem hasReceived_iff (m : PacketArrivalTimeMap) (n : ℤ) :
    m.hasReceived n = true ↔ m.timeAt n ≠ 0 := by
  rw [hasReceived,decide_eq_true_iff]
  simp only [get,timeAt,beginSequenceNumber]
  constructor
  · rintro ⟨h0,_,h2⟩
    rwa [Deque.value_of_ge _ (by omega)]
  · intro h
    have hr := Deque.range_of_value_ne _ h
    have hs : m.arrivalTimes.stop = m.arrivalTimes.front+m.arrivalTimes.items.length := rfl
    rw [Deque.value_of_ge _ hr.1] at h
    exact ⟨by omega,by omega,h⟩

theorem get_of_begin_le (m : PacketArrivalTimeMap) {n : ℤ} (h : m.beginSequenceNumber ≤ n) :
    m.get n = m.timeAt n :=
  (Deque.value_of_ge _ h).symm

theorem clamp_of_mem (m : PacketArrivalTimeMap) {n : ℤ} (h : m.beginSequenceNumber ≤ n)
    (h' : n ≤ m.endSequenceNumber) : m.clamp n = n := by
  unfold clamp
  rw [if_neg (by omega),if_neg (by omega)]

end PacketArrivalTimeMap

/-- "The last packet should always be received". -/
def EndsReceived (d : Deque ℤ) : Prop := d.items ≠ [] → d.value (d.stop-1) ≠ 0

theorem length_pos_iff_stop (d : Deque ℤ) : d.items ≠ [] ↔ d.front < d.stop := by
  rw [← List.length_pos_iff]
  unfold Deque.stop
  omega

/-- What making room does: the buffer then reaches back less than the capacity,
no packet that recent is lost, and what is left starts with a received packet. -/
theorem makeRoom_spec {d : Deque ℤ} {seq : ℤ} (hend : EndsReceived d) (hseq : d.stop ≤ seq) :
    (makeRoom d seq).stop ≤ seq ∧ seq < (makeRoom d seq).front+32768 ∧
      d.front ≤ (makeRoom d seq).front ∧
      (∀ n, (makeRoom d seq).front ≤ n → (makeRoom d seq).value n = d.value n) ∧
      (∀ n, d.value n ≠ 0 → seq < n+32768 → (makeRoom d seq).front ≤ n) ∧
      (makeRoom d seq = d ∨ makeRoom d seq = ⟨seq,[]⟩ ∨
        (makeRoom d seq).value (makeRoom d seq).front ≠ 0) := by
  have hmax : kMaxNumberOfPackets = 32768 := rfl
  have hstop : d.stop = d.front+d.items.length := rfl
  unfold makeRoom
  simp only
  split
  · rename_i hpos
    split
    · -- everything is too old
      rename_i hclear
      have hseqStop : (⟨seq,[]⟩ : Deque ℤ).stop = seq := by simp [Deque.stop]
      refine ⟨hseqStop.le,by simp only; omega,by simp only; omega,fun n hn => ?_,fun n hn hr => ?_,
        Or.inr (Or.inl rfl)⟩
      · change seq ≤ n at hn
        rw [Deque.value_of_stop_le _ (by omega),Deque.value_of_stop_le _ (by omega)]
      · have := Deque.range_of_value_ne d hn
        simp only
        omega
    · rename_i hkeep
      generalize hr : (seq - d.front).toNat - kMaxNumberOfPackets + 1 = r at hkeep ⊢
      obtain ⟨k,hk,heq,hzero,hfirst⟩ := Deque.popWhile_spec (fun _ time : ℤ => time == 0)
        (d.dropFront r)
      rw [heq]
      have hlen : (d.dropFront r).items.length = d.items.length - r := List.length_drop
      have hfront : (d.dropFront r).front = d.front+r := rfl
      have hfront' : ((d.dropFront r).dropFront k).front = d.front+r+k := rfl
      have hstop' : ((d.dropFront r).dropFront k).stop = d.stop := by
        rw [Deque.stop_dropFront _ hk,Deque.stop_dropFront _ (by omega)]
      have hvalue : ∀ n, d.front+r ≤ n → (d.dropFront r).value n = d.value n := by
        intro n hn
        rw [Deque.value_dropFront,if_neg (by omega)]
      -- the last packet was received, so trimming stops before it
      have hlt : k < (d.dropFront r).items.length := by
        by_contra hge
        have hlast := hzero (d.stop-1) (by omega) (by omega)
        rw [hvalue _ (by omega),beq_iff_eq] at hlast
        exact hend (by rw [length_pos_iff_stop]; omega) hlast
      refine ⟨hstop'.le.trans hseq,by omega,by omega,fun n hn => ?_,fun n hn hr' => ?_,
        Or.inr (Or.inr ?_)⟩
      · rw [Deque.value_dropFront,if_neg (by omega),hvalue n (by omega)]
      · by_contra hlow
        have hz := hzero n (by omega) (by omega)
        rw [hvalue n (by omega),beq_iff_eq] at hz
        exact hn hz
      · have hnz := hfirst hlt
        rw [hfront',Deque.value_dropFront,if_neg (by omega)]
        simpa [hfront] using hnz
  · exact ⟨hseq,by omega,le_rfl,fun _ _ => rfl,fun n hn _ => (Deque.range_of_value_ne d hn).1,
      Or.inl rfl⟩

/-- A packet `seq` with arrival time `t` was stored. The last field lists how the
map can have reached its capacity. -/
structure Stored (d d' : Deque ℤ) (seq t : ℤ) : Prop where
  value_self : d'.value seq = t
  value_other : ∀ n, n ≠ seq → d'.front ≤ n → d'.value n = d.value n
  length_le : d'.items.length ≤ kMaxNumberOfPackets
  kept : ∀ n, d.value n ≠ 0 → seq < n+32768 → d'.front ≤ n
  stop : d'.stop = max d.stop (seq+1)
  capacity : d'.items.length < kMaxNumberOfPackets ∨ (∃ n < d'.stop-1, d'.value n ≠ 0) ∨
    (d.items = [] ∧ d'.front = d.front ∧ d'.stop = seq+1)

theorem Stored.front_le {d d' : Deque ℤ} {seq t : ℤ} (h : Stored d d' seq t) (ht : t ≠ 0) :
    d'.front ≤ seq ∧ seq < d'.stop :=
  Deque.range_of_value_ne d' (by rw [h.value_self]; exact ht)

theorem Stored.endsReceived {d d' : Deque ℤ} {seq t : ℤ} (h : Stored d d' seq t) (ht : t ≠ 0)
    (hend : EndsReceived d) (hfront : d.items = [] → d.stop ≤ seq) : EndsReceived d' := by
  intro _
  have hs := h.stop
  have hle := h.front_le ht
  by_cases hlast : d'.stop-1 = seq
  · rw [hlast,h.value_self]
    exact ht
  · have hd : d.items ≠ [] := by
      intro hnil
      have := hfront hnil
      omega
    have hds : d'.stop = d.stop := by omega
    rw [h.value_other _ hlast (by omega),hds]
    exact hend hd

/-- A gap of the map is filled. -/
theorem put_stored {d : Deque ℤ} {seq t : ℤ} (hlen : d.items.length ≤ kMaxNumberOfPackets)
    (hend : EndsReceived d) (ht : t ≠ 0) (hnew : d.value seq = 0) (hlo : d.front ≤ seq)
    (hhi : seq < d.stop) : Stored d (d.put seq t) seq t := by
  have hvalue := Deque.value_put d hlo hhi t
  have hlast := hend (by rw [length_pos_iff_stop]; omega)
  have hne : seq ≠ d.stop-1 := fun he => hlast (he ▸ hnew)
  refine ⟨?_,fun n hn _ => ?_,?_,fun n hn _ => (Deque.range_of_value_ne d hn).1,?_,
    Or.inr (Or.inl ⟨seq,?_,?_⟩)⟩
  · rw [hvalue,if_pos rfl]
  · rw [hvalue,if_neg hn]
  · simpa only [Deque.put,List.length_set] using hlen
  · rw [Deque.stop_put]
    omega
  · rw [Deque.stop_put]
    omega
  · rw [hvalue,if_pos rfl]
    exact ht

/-- The map is expanded to the left. -/
theorem growFront_stored {d : Deque ℤ} {seq t : ℤ} (hd : d.items ≠ []) (ht : t ≠ 0)
    (hlt : seq < d.front)
    (hfit : (-(seq - d.front)).toNat+d.items.length ≤ kMaxNumberOfPackets) :
    Stored d (d.growFront (-(seq - d.front)).toNat t) seq t := by
  have hpos := (length_pos_iff_stop d).mp hd
  have hk : d.front - (-(seq - d.front)).toNat = seq := by omega
  have hvalue := Deque.value_growFront d (k := (-(seq - d.front)).toNat) (by omega) t
  rw [hk] at hvalue
  refine ⟨?_,fun n hn _ => ?_,?_,fun n hn _ => ?_,?_,Or.inr (Or.inl ⟨seq,?_,?_⟩)⟩
  · rw [hvalue,if_pos rfl]
  · rw [hvalue,if_neg hn]
  · simpa only [Deque.growFront,List.length_set,List.length_append,List.length_replicate]
      using hfit
  · have := (Deque.range_of_value_ne d hn).1
    change d.front - _ ≤ n
    omega
  · rw [Deque.stop_growFront]
    omega
  · rw [Deque.stop_growFront]
    omega
  · rw [hvalue,if_pos rfl]
    exact ht

/-- The packet goes behind the map, which drops old packets for it. -/
theorem growBack_stored {d : Deque ℤ} {seq t : ℤ} (hend : EndsReceived d) (hseq : d.stop ≤ seq) :
    Stored d ((makeRoom d seq).growBack (seq - (makeRoom d seq).stop).toNat t) seq t := by
  have hmax : kMaxNumberOfPackets = 32768 := rfl
  obtain ⟨hstop,hcap,hfront,hval,hkept,hcases⟩ := makeRoom_spec hend hseq
  generalize makeRoom d seq = room at hstop hcap hfront hval hkept hcases ⊢
  have hk : room.stop+(seq - room.stop).toNat = seq := by omega
  have hvalue := Deque.value_growBack room (seq - room.stop).toNat t
  have hstop' := Deque.stop_growBack room (seq - room.stop).toNat t
  have hlen : (room.growBack (seq - room.stop).toNat t).stop =
    room.front+(room.growBack (seq - room.stop).toNat t).items.length := rfl
  rw [hk] at hvalue hstop'
  have hother : ∀ n, n ≠ seq → room.front ≤ n →
      (room.growBack (seq - room.stop).toNat t).value n = d.value n := by
    intro n hn hle
    rw [hvalue,if_neg hn,hval n hle]
  refine ⟨by rw [hvalue,if_pos rfl],hother,by omega,hkept,by omega,?_⟩
  rcases hcases with hsame | hclear | hfirst
  · by_cases hd : d.items = []
    · have hfront₁ : room.front = d.front := congrArg Deque.front hsame
      exact Or.inr (Or.inr ⟨hd,hfront₁,hstop'⟩)
    · -- the old last packet is still there
      have hpos := (length_pos_iff_stop d).mp hd
      refine Or.inr (Or.inl ⟨d.stop-1,by omega,?_⟩)
      rw [hother _ (by omega) (by rw [hsame]; omega)]
      exact hend hd
  · have hfront₁ : room.front = seq := congrArg Deque.front hclear
    exact Or.inl (by omega)
  · have hrange := Deque.range_of_value_ne room hfirst
    refine Or.inr (Or.inl ⟨room.front,by omega,?_⟩)
    rw [hvalue,if_neg (by omega)]
    exact hfirst

/-- `AddPacket` of a packet that is not in the map yet: refused, because the map
would grow too far to the left, or stored. -/
theorem addPacket_spec {d : Deque ℤ} {seq t : ℤ}
    (hlen : d.items.length ≤ kMaxNumberOfPackets) (hend : EndsReceived d)
    (hempty : d.items = [] → d.front ≤ seq) (ht : t ≠ 0) (hnew : d.value seq = 0) :
    (PacketArrivalTimeMap.addPacket ⟨d,true⟩ seq t = ⟨d,true⟩ ∧ seq < d.front) ∨
      ∃ d', PacketArrivalTimeMap.addPacket ⟨d,true⟩ seq t = ⟨d',true⟩ ∧ Stored d d' seq t := by
  have hstop : d.stop = d.front+d.items.length := rfl
  unfold PacketArrivalTimeMap.addPacket
  simp only [Bool.not_true,Bool.false_eq_true,if_false,PacketArrivalTimeMap.beginSequenceNumber]
  split
  · rename_i hin
    exact Or.inr ⟨_,rfl,put_stored hlen hend ht hnew (by omega) (by omega)⟩
  split
  · rename_i hleft
    split
    · exact Or.inl ⟨rfl,by omega⟩
    · rename_i hfit
      have hd : d.items ≠ [] := fun hnil => by
        have := hempty hnil
        omega
      exact Or.inr ⟨_,rfl,growFront_stored hd ht (by omega) (by omega)⟩
  · exact Or.inr ⟨_,rfl,growBack_stored hend (by omega)⟩

theorem addPacket_first {m : PacketArrivalTimeMap} (h : m.hasSeenPacket = false)
    (hitems : m.arrivalTimes.items = []) (seq t : ℤ) :
    m.addPacket seq t = ⟨⟨seq,[t]⟩,true⟩ := by
  simp [PacketArrivalTimeMap.addPacket,h,hitems]

/-- Culling drops a prefix of the map and keeps its end. -/
theorem removeOldPackets_spec (m : PacketArrivalTimeMap) (seq limit : ℤ) :
    ∃ k ≤ m.arrivalTimes.items.length,
      m.removeOldPackets seq limit = { m with arrivalTimes := m.arrivalTimes.dropFront k } ∧
      (0 < k → m.beginSequenceNumber+k ≤ seq) := by
  obtain ⟨k,hk,heq,hall,_⟩ := Deque.popWhile_spec
    (fun front time => decide (front < seq) && decide (time ≤ limit)) m.arrivalTimes
  refine ⟨k,hk,by simp only [PacketArrivalTimeMap.removeOldPackets,heq],fun hpos => ?_⟩
  have hlast := hall (m.arrivalTimes.front+k-1) (by omega) (by omega)
  simp only [Bool.and_eq_true,decide_eq_true_eq] at hlast
  simp only [PacketArrivalTimeMap.beginSequenceNumber]
  omega

theorem eraseTo_spec (m : PacketArrivalTimeMap) (seq : ℤ) :
    ∃ k ≤ m.arrivalTimes.items.length,
      m.eraseTo seq = { m with arrivalTimes := m.arrivalTimes.dropFront k } := by
  unfold PacketArrivalTimeMap.eraseTo
  split
  · exact ⟨_,Nat.min_le_right _ _,rfl⟩
  · refine ⟨0,Nat.zero_le _,?_⟩
    simp only [Deque.dropFront,Nat.cast_zero,add_zero,List.drop_zero]

end Ylrtc.ArrivalMap
