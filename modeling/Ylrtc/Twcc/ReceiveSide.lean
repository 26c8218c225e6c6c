import Ylrtc.Rtcp.FeedbackBuilder
import Ylrtc.Twcc.ArrivalMap

/-!
# The receiving side of transport-wide congestion control

`ReceiveSideTWCC` of `congestion_controller/receive_side_twcc.cpp`. The observer
is taken to be alive, so every feedback that is built is emitted.
-/
namespace Ylrtc.ReceiveSide
open ArrivalMap FeedbackBuilder IndexedDeque SequenceNumber

abbrev kMaxTimeMs : ℤ := 9223372036854775
abbrev kBackWindowMillis : ℤ := 100

structure ReceiveSideTWCC where
  mediaSsrc : BitVec 32 := 0
  feedbackPacketCount : BitVec 8 := 0
  unwrapper : SeqNumUnwrapper 16 := {}
  periodicWindowStartSeq : Option ℤ := none
  packetArrivalTimes : PacketArrivalTimeMap := {}
  deriving DecidableEq, Repr

/-- The feedback under construction in `MaybeBuildFeedbackPacket`, the running
`feedback_packet_count_` and `next_sequence_number`. -/
structure Building where
  feedbackPacket : Option TransportFeedback
  feedbackPacketCount : BitVec 8
  nextSequenceNumber : ℤ

/-- The window start after a packet: lowered to it, or set by the first one. -/
def lowerTo (start : Option ℤ) (seq : ℤ) : ℤ :=
  match start with
  | none => seq
  | some start => if seq < start then seq else start

namespace ReceiveSideTWCC

def maybeCullOldPackets (s : ReceiveSideTWCC) (sequenceNumber arrivalTimeMs : ℤ) :
    ReceiveSideTWCC :=
  match s.periodicWindowStartSeq with
  | none => s
  | some start =>
      if start ≥ s.packetArrivalTimes.endSequenceNumber then
        { s with packetArrivalTimes := s.packetArrivalTimes.removeOldPackets sequenceNumber
                   (arrivalTimeMs - kBackWindowMillis) }
      else s

/-- `IncomingPacket`, once the number is unwrapped. -/
def recordPacket (s : ReceiveSideTWCC) (seq arrivalTimeMs : ℤ) : ReceiveSideTWCC :=
  let s := s.maybeCullOldPackets seq arrivalTimeMs
  let start := lowerTo s.periodicWindowStartSeq seq
  if s.packetArrivalTimes.hasReceived seq then { s with periodicWindowStartSeq := some start }
  else
    let map := s.packetArrivalTimes.addPacket seq arrivalTimeMs
    { s with
      packetArrivalTimes := map
      periodicWindowStartSeq :=
        some (if start < map.beginSequenceNumber then map.beginSequenceNumber else start) }

def incomingPacket (s : ReceiveSideTWCC) (arrivalTimeMs : ℤ) (ssrc : BitVec 32)
    (transportSequenceNumber : BitVec 16) : ReceiveSideTWCC :=
  if arrivalTimeMs < 0 ∨ arrivalTimeMs > kMaxTimeMs then s
  else
    let (seq,unwrapper) := s.unwrapper.unwrap transportSequenceNumber
    { s with mediaSsrc := ssrc, unwrapper := unwrapper }.recordPacket seq arrivalTimeMs

/-- The packet of the loop, made on demand. -/
def feedbackFor (s : ReceiveSideTWCC) (includeTimestamps : Bool) (beginSequenceNumber : ℤ)
    (arrivalTimeMs : ℤ) (b : Building) : TransportFeedback × BitVec 8 :=
  match b.feedbackPacket with
  | some feedbackPacket => (feedbackPacket,b.feedbackPacketCount)
  | none =>
      (((({ includeTimestamps := includeTimestamps, includeLost := false } :
        TransportFeedback).setMediaSsrc s.mediaSsrc).setBase (low16 beginSequenceNumber)
          (arrivalTimeMs*1000)).setFeedbackSequenceNumber b.feedbackPacketCount,
        b.feedbackPacketCount+1)

/-- The loop of `MaybeBuildFeedbackPacket` over the next `n` numbers from `seq`. -/
def buildLoop (s : ReceiveSideTWCC) (includeTimestamps : Bool) (beginSequenceNumber : ℤ) :
    ℕ → ℤ → Building → Building
  | 0,_,b => b
  | n+1,seq,b =>
      let arrivalTimeMs := s.packetArrivalTimes.get seq
      if arrivalTimeMs = 0 then s.buildLoop includeTimestamps beginSequenceNumber n (seq+1) b
      else
        let (feedbackPacket,count) :=
          s.feedbackFor includeTimestamps beginSequenceNumber arrivalTimeMs b
        match feedbackPacket.addReceivedPacket (low16 seq) (arrivalTimeMs*1000) with
        | (false,feedbackPacket) => ⟨some feedbackPacket,count,b.nextSequenceNumber⟩
        | (true,feedbackPacket) =>
            s.buildLoop includeTimestamps beginSequenceNumber n (seq+1)
              ⟨some feedbackPacket,count,seq+1⟩

def maybeBuildFeedbackPacket (s : ReceiveSideTWCC) (includeTimestamps : Bool)
    (beginSequenceNumberInclusive endSequenceNumberExclusive : ℤ) (isPeriodicUpdate : Bool) :
    Option TransportFeedback × ReceiveSideTWCC :=
  let startSeq := s.packetArrivalTimes.clamp beginSequenceNumberInclusive
  let endSeq := s.packetArrivalTimes.clamp endSequenceNumberExclusive
  let b := s.buildLoop includeTimestamps beginSequenceNumberInclusive (endSeq - startSeq).toNat
    startSeq ⟨none,s.feedbackPacketCount,beginSequenceNumberInclusive⟩
  (b.feedbackPacket,
    { s with
      feedbackPacketCount := b.feedbackPacketCount
      periodicWindowStartSeq :=
        if isPeriodicUpdate then some b.nextSequenceNumber else s.periodicWindowStartSeq })

/-- The loop of `SendPeriodicFeedbacks`; it may not come to an end by itself, so
it is given a number of rounds. The result lists the feedbacks emitted. -/
def sendLoop (packetArrivalTimesEndSeq : ℤ) :
    ℕ → ReceiveSideTWCC → Option (List TransportFeedback × ReceiveSideTWCC)
  | 0,_ => none
  | fuel+1,s =>
      match s.periodicWindowStartSeq with
      | none => some ([],s)
      | some start =>
          if start < packetArrivalTimesEndSeq then
            match s.maybeBuildFeedbackPacket true start packetArrivalTimesEndSeq true with
            | (none,s) => some ([],s)
            | (some feedbackPacket,s) =>
                (sendLoop packetArrivalTimesEndSeq fuel s).map fun r => (feedbackPacket::r.1,r.2)
          else some ([],s)

def sendPeriodicFeedbacks (fuel : ℕ) (s : ReceiveSideTWCC) :
    Option (List TransportFeedback × ReceiveSideTWCC) :=
  match s.periodicWindowStartSeq with
  | none => some ([],s)
  | some _ => sendLoop s.packetArrivalTimes.endSequenceNumber fuel s

/-- The unwrapped number a packet would get. -/
def unwrapped (s : ReceiveSideTWCC) (transportSequenceNumber : BitVec 16) : ℤ :=
  (s.unwrapper.unwrap transportSequenceNumber).1

end ReceiveSideTWCC
open ReceiveSideTWCC

/-- A map at full capacity whose only received packet is the last one came from
an exact half-range jump, which is forward for these numbers only. -/
def HalfRange (d : Deque ℤ) : Prop :=
  d.items.length = kMaxNumberOfPackets → (∀ n < d.stop-1, d.value n = 0) →
    (d.front-1) % 65536 < 32768

/-- The map and the unwrapper, once the first packet has set the window start. -/
structure Window (d : Deque ℤ) (u : SeqNumUnwrapper 16) (start : ℤ) : Prop where
  nonempty : d.items ≠ []
  length_le : d.items.length ≤ kMaxNumberOfPackets
  ends : EndsReceived d
  half : HalfRange d
  front_le : d.front ≤ start
  le_stop : start ≤ d.stop
  consistent : u.Consistent
  last_lt : u.lastUnwrapped < d.stop
  started : u.lastValue ≠ none
  times : ∀ n, 0 ≤ d.value n ∧ d.value n ≤ kMaxTimeMs

theorem Window.advance {d : Deque ℤ} {u : SeqNumUnwrapper 16} {start next : ℤ}
    (h : Window d u start) (hle : start ≤ next) (hle' : next ≤ d.stop) : Window d u next := by
  have hfront := h.front_le
  exact ⟨h.nonempty,h.length_le,h.ends,h.half,by omega,hle',h.consistent,h.last_lt,h.started,
    h.times⟩

/-- The invariant of every state a run reaches. -/
inductive Inv : ReceiveSideTWCC → Prop
  | initial (ssrc : BitVec 32) (count : BitVec 8) {u : SeqNumUnwrapper 16} :
      u.lastValue = none → Inv ⟨ssrc,count,u,none,{}⟩
  | running (ssrc : BitVec 32) (count : BitVec 8) {d : Deque ℤ} {u : SeqNumUnwrapper 16}
      {start : ℤ} : Window d u start → Inv ⟨ssrc,count,u,some start,⟨d,true⟩⟩

section Packet
variable (ssrc : BitVec 32) (count : BitVec 8) (u : SeqNumUnwrapper 16)

/-- Culling happens only when everything in the map was already sent, and drops
no number from the arriving one on. -/
theorem maybeCull_spec (d : Deque ℤ) (start seq t : ℤ) :
    ∃ k ≤ d.items.length,
      maybeCullOldPackets ⟨ssrc,count,u,some start,⟨d,true⟩⟩ seq t =
        ⟨ssrc,count,u,some start,⟨d.dropFront k,true⟩⟩ ∧
      (0 < k → d.stop ≤ start ∧ d.front+k ≤ seq) := by
  unfold maybeCullOldPackets
  simp only
  split
  · rename_i hend
    obtain ⟨k,hk,heq,hseq⟩ := removeOldPackets_spec ⟨d,true⟩ seq (t - kBackWindowMillis)
    exact ⟨k,hk,by rw [heq],fun hpos => ⟨hend,hseq hpos⟩⟩
  · exact ⟨0,Nat.zero_le _,by simp [Deque.dropFront],fun h => absurd h (Nat.lt_irrefl 0)⟩

/-- How one packet changes the culled map: it is known, refused or stored. -/
inductive Recorded (d : Deque ℤ) (seq t : ℤ) : Deque ℤ → Prop
  | known : d.value seq ≠ 0 → Recorded d seq t d
  | refused : d.value seq = 0 → seq < d.front → Recorded d seq t d
  | stored {d' : Deque ℤ} : d.value seq = 0 → Stored d d' seq t → Recorded d seq t d'

theorem lowerTo_some (start seq : ℤ) : lowerTo (some start) seq = min start seq := by
  simp only [lowerTo]
  omega

theorem dropFront_endsReceived {d : Deque ℤ} {k : ℕ} (hk : k ≤ d.items.length)
    (h : EndsReceived d) : EndsReceived (d.dropFront k) := by
  intro hne
  have hpos := (length_pos_iff_stop _).mp hne
  have hstop := Deque.stop_dropFront d hk
  have hfront : (d.dropFront k).front = d.front+k := rfl
  rw [hstop,Deque.value_dropFront,if_neg (by omega)]
  exact h (by rw [length_pos_iff_stop]; omega)

/-- One packet after the first: the map is culled and the packet recorded, and
the window start is lowered to it, but not below the map. -/
theorem recordPacket_spec {d : Deque ℤ} {u₀ : SeqNumUnwrapper 16} {start : ℤ}
    (h : Window d u₀ start) (seq : ℤ) {t : ℤ} (ht : t ≠ 0) :
    ∃ k ≤ d.items.length, ∃ d',
      (0 < k → d.stop ≤ start ∧ d.front+k ≤ seq) ∧
      (maybeCullOldPackets ⟨ssrc,count,u,some start,⟨d,true⟩⟩ seq t).packetArrivalTimes =
        ⟨d.dropFront k,true⟩ ∧
      recordPacket ⟨ssrc,count,u,some start,⟨d,true⟩⟩ seq t =
        ⟨ssrc,count,u,some (max d'.front (min start seq)),⟨d',true⟩⟩ ∧
      Recorded (d.dropFront k) seq t d' := by
  obtain ⟨k,hk,heq,hcull⟩ := maybeCull_spec ssrc count u d start seq t
  have hstop : d.stop = d.front+d.items.length := rfl
  have hlength : (d.dropFront k).items.length = d.items.length - k := List.length_drop
  have hfront : (d.dropFront k).front = d.front+k := rfl
  have hempty : (d.dropFront k).items = [] → (d.dropFront k).front ≤ seq := by
    intro hnil
    have hne := List.length_pos_iff.mpr h.nonempty
    rw [hnil,List.length_nil] at hlength
    have := hcull (by omega)
    omega
  have hlen := h.length_le
  unfold recordPacket
  rw [heq]
  simp only [lowerTo_some]
  by_cases hr : PacketArrivalTimeMap.hasReceived ⟨d.dropFront k,true⟩ seq = true
  · rw [if_pos hr]
    have hne : (d.dropFront k).value seq ≠ 0 := (PacketArrivalTimeMap.hasReceived_iff _ _).mp hr
    have hrange := Deque.range_of_value_ne _ hne
    have hbegin := h.front_le
    have hlow : max (d.dropFront k).front (min start seq) = min start seq := by
      have := h.le_stop
      omega
    exact ⟨k,hk,_,hcull,rfl,by rw [hlow],.known hne⟩
  rw [if_neg hr]
  have hnew : (d.dropFront k).value seq = 0 := by
    by_contra hne
    exact hr ((PacketArrivalTimeMap.hasReceived_iff _ _).mpr hne)
  have hmax : ∀ front : ℤ, (if min start seq < front then front else min start seq) =
      max front (min start seq) := by
    intro front
    omega
  rcases addPacket_spec (by omega) (dropFront_endsReceived hk h.ends) hempty ht hnew with
    ⟨hadd,hlt⟩ | ⟨d',hadd,hstored⟩
  · rw [hadd]
    exact ⟨k,hk,_,hcull,rfl,by simp only [hmax],.refused hnew hlt⟩
  · rw [hadd]
    exact ⟨k,hk,_,hcull,rfl,by simp only [hmax],.stored hnew hstored⟩

/-- The first packet ever. -/
theorem recordPacket_first (seq t : ℤ) :
    recordPacket ⟨ssrc,count,u,none,{}⟩ seq t =
      ⟨ssrc,count,u,some seq,⟨⟨seq,[t]⟩,true⟩⟩ := by
  simp [recordPacket,maybeCullOldPackets,lowerTo,PacketArrivalTimeMap.hasReceived,
    PacketArrivalTimeMap.get,addPacket_first]

end Packet

theorem Recorded.value_cases {d d' : Deque ℤ} {seq t : ℤ} (h : Recorded d seq t d') (n : ℤ) :
    d'.value n = 0 ∨ d'.value n = d.value n ∨ (n = seq ∧ d'.value n = t) := by
  cases h with
  | known _ => exact Or.inr (Or.inl rfl)
  | refused _ _ => exact Or.inr (Or.inl rfl)
  | stored _ hs =>
      by_cases hn : n = seq
      · exact Or.inr (Or.inr ⟨hn,by rw [hn,hs.value_self]⟩)
      by_cases hf : n < d'.front
      · exact Or.inl (Deque.value_of_lt _ hf)
      · exact Or.inr (Or.inl (hs.value_other n hn (by omega)))

/-- An exact half-range jump over an emptied map was a forward jump. -/
theorem halfRange_of_jump {d : Deque ℤ} {u : SeqNumUnwrapper 16} {start : ℤ}
    (h : Window d u start) (value : BitVec 16)
    (hjump : (u.unwrap value).1 = d.stop+32767) : (d.stop-1) % 65536 < 32768 := by
  obtain ⟨last,hlast⟩ := Option.ne_none_iff_exists'.mp h.started
  have hu := u.unwrap_some value last hlast
  obtain ⟨_,_,hhi,htie,_⟩ := serialOffset_spec value last
  have hlt := h.last_lt
  have hlow := low16_toNat u.lastUnwrapped
  rw [← h.consistent last hlast] at hlow
  have hstop : u.lastUnwrapped = d.stop-1 := by omega
  have := htie (by omega)
  rw [hstop] at hlow
  omega

/-- The invariant survives a packet. -/
theorem Window.record {d d' : Deque ℤ} {u : SeqNumUnwrapper 16} {start t : ℤ} {k : ℕ}
    {value : BitVec 16} (h : Window d u start) (ht : 0 < t) (ht' : t ≤ kMaxTimeMs)
    (hk : k ≤ d.items.length)
    (hcull : 0 < k → d.stop ≤ start ∧ d.front+k ≤ (u.unwrap value).1)
    (hr : Recorded (d.dropFront k) (u.unwrap value).1 t d') :
    Window d' (u.unwrap value).2 (max d'.front (min start (u.unwrap value).1)) := by
  have hcapacity : kMaxNumberOfPackets = 32768 := rfl
  have hjump := halfRange_of_jump h value
  have hconsistent := u.unwrap_consistent value h.consistent
  generalize hn : (u.unwrap value).1 = n at hcull hr hjump ⊢
  have hstop : d.stop = d.front+d.items.length := rfl
  have hdrop := Deque.stop_dropFront d hk
  have hfront : (d.dropFront k).front = d.front+k := rfl
  have hlength : (d.dropFront k).items.length = d.items.length - k := List.length_drop
  have hends := dropFront_endsReceived hk h.ends
  have hlen := h.length_le
  have hstop' : d'.stop = d'.front+d'.items.length := rfl
  have hle := Deque.front_le_stop d'
  have htimes : ∀ m, 0 ≤ d'.value m ∧ d'.value m ≤ kMaxTimeMs := by
    intro m
    have hd := h.times m
    have hm := Deque.value_dropFront d k m
    have hmax : (0 : ℤ) ≤ kMaxTimeMs := by decide
    rcases hr.value_cases m with h0 | hsame | ⟨_,hself⟩
    · omega
    · rw [hsame,hm]
      split <;> omega
    · omega
  have hsame : d.dropFront 0 = d := by simp [Deque.dropFront]
  -- a map that was not culled keeps its shape, a culled one is below capacity
  have hhalf : HalfRange (d.dropFront k) := by
    by_cases hk0 : k = 0
    · rw [hk0,hsame]
      exact h.half
    · intro hfull
      omega
  cases hr with
  | known hne =>
      have hrange := Deque.range_of_value_ne _ hne
      have hnonempty := (length_pos_iff_stop (d.dropFront k)).mpr (by omega)
      exact ⟨hnonempty,by omega,hends,hhalf,by omega,by omega,hconsistent,
        by rw [SeqNumUnwrapper.unwrap_lastUnwrapped,hn]; omega,by simp,htimes⟩
  | refused _ hlt =>
      have hpos := (length_pos_iff_stop d).mp h.nonempty
      have hnonempty := (length_pos_iff_stop (d.dropFront k)).mpr (by omega)
      exact ⟨hnonempty,by omega,hends,hhalf,by omega,by omega,hconsistent,
        by rw [SeqNumUnwrapper.unwrap_lastUnwrapped,hn]; omega,by simp,htimes⟩
  | stored _ hs =>
      have hrange := hs.front_le (by omega)
      have hnonempty := (length_pos_iff_stop d').mpr (by omega)
      have hmax := hs.stop
      have hempty : (d.dropFront k).items = [] → (d.dropFront k).stop ≤ n := by
        intro hnil
        have hpos := (length_pos_iff_stop d).mp h.nonempty
        rw [hnil,List.length_nil] at hlength
        have := hcull (by omega)
        omega
      refine ⟨hnonempty,hs.length_le,hs.endsReceived (by omega) hends hempty,?_,by omega,by omega,
        hconsistent,by rw [SeqNumUnwrapper.unwrap_lastUnwrapped,hn]; omega,by simp,htimes⟩
      intro hfull hzero
      rcases hs.capacity with hlt | ⟨m,hm,hne⟩ | ⟨hnil,hsameFront,hend⟩
      · omega
      · exact absurd (hzero m hm) hne
      · -- the map was emptied and the packet is 32767 behind its old end
        rw [hnil,List.length_nil] at hlength
        have := hjump (by omega)
        rw [hsameFront,hfront]
        rwa [show d.front+(k : ℤ) = d.stop by omega]

theorem incomingPacket_eq (s : ReceiveSideTWCC) {t : ℤ} (ht : 0 < t) (ht' : t ≤ kMaxTimeMs)
    (ssrc : BitVec 32) (value : BitVec 16) :
    s.incomingPacket t ssrc value =
      recordPacket { s with mediaSsrc := ssrc, unwrapper := (s.unwrapper.unwrap value).2 }
        (s.unwrapped value) t := by
  unfold incomingPacket
  rw [if_neg (by omega)]
  rfl

theorem first_window {u : SeqNumUnwrapper 16} (hu : u.lastValue = none) {t : ℤ} (ht : 0 < t)
    (ht' : t ≤ kMaxTimeMs) (value : BitVec 16) :
    Window ⟨(u.unwrap value).1,[t]⟩ (u.unwrap value).2 (u.unwrap value).1 := by
  have hconsistent : u.Consistent := fun v hv => by simp [hu] at hv
  have hc := u.unwrap_consistent value hconsistent
  generalize hn : (u.unwrap value).1 = n
  have hstop : (⟨n,[t]⟩ : Deque ℤ).stop = n+1 := by simp [Deque.stop]
  have hvalue : ∀ m, (⟨n,[t]⟩ : Deque ℤ).value m = if m = n then t else 0 := by
    intro m
    by_cases hm : m = n
    · rw [if_pos hm,hm]
      simp [Deque.value]
    · rw [if_neg hm]
      by_contra hne
      have hr := Deque.range_of_value_ne _ hne
      simp only at hr
      omega
  refine ⟨by simp,by simp,fun _ => ?_,fun hfull => by simp at hfull,le_rfl,by omega,hc,
    by rw [SeqNumUnwrapper.unwrap_lastUnwrapped,hn]; omega,by simp,fun m => ?_⟩
  · rw [hstop,hvalue,if_pos (by omega)]
    omega
  · rw [hvalue]
    split <;> omega

theorem incomingPacket_inv {s : ReceiveSideTWCC} (h : Inv s) {t : ℤ} (ht : 0 < t)
    (ht' : t ≤ kMaxTimeMs) (ssrc : BitVec 32) (value : BitVec 16) :
    Inv (s.incomingPacket t ssrc value) := by
  rw [incomingPacket_eq s ht ht']
  cases h with
  | @initial ssrc₀ count u hu =>
      simp only [unwrapped,recordPacket_first]
      exact .running ssrc count (first_window hu ht ht' value)
  | @running ssrc₀ count d u start hw =>
      obtain ⟨k,hk,d',hcull,_,heq,hr⟩ := recordPacket_spec ssrc count (u.unwrap value).2 hw
        (u.unwrap value).1 (by omega : t ≠ 0)
      simp only [unwrapped,heq]
      exact .running ssrc count (hw.record ht ht' hk hcull hr)

/-! ### Packets waiting to be reported -/

/-- The map when `IncomingPacket` asks whether it knows the packet. -/
def culledMap (s : ReceiveSideTWCC) (arrivalTimeMs : ℤ) (value : BitVec 16) :
    PacketArrivalTimeMap :=
  (s.maybeCullOldPackets (s.unwrapped value) arrivalTimeMs).packetArrivalTimes

/-- This call stores a packet that was not in the map. -/
def Stores (s : ReceiveSideTWCC) (arrivalTimeMs : ℤ) (ssrc : BitVec 32) (value : BitVec 16) :
    Prop :=
  (culledMap s arrivalTimeMs value).hasReceived (s.unwrapped value) = false ∧
    (s.incomingPacket arrivalTimeMs ssrc value).packetArrivalTimes.hasReceived
      (s.unwrapped value) = true

/-- A packet that is in the map, not before the window start. -/
def Pending (s : ReceiveSideTWCC) (n t : ℤ) : Prop :=
  s.packetArrivalTimes.timeAt n = t ∧ t ≠ 0 ∧
    ∃ start, s.periodicWindowStartSeq = some start ∧ start ≤ n

/-- What `IncomingPacket` does to a state that has a window. -/
theorem incomingPacket_spec (ssrc ssrc' : BitVec 32) (count : BitVec 8) {d : Deque ℤ}
    {u : SeqNumUnwrapper 16} {start : ℤ} (h : Window d u start) {t : ℤ} (ht : 0 < t)
    (ht' : t ≤ kMaxTimeMs) (value : BitVec 16) :
    ∃ k ≤ d.items.length, ∃ d',
      (0 < k → d.stop ≤ start ∧ d.front+k ≤ (u.unwrap value).1) ∧
      culledMap ⟨ssrc,count,u,some start,⟨d,true⟩⟩ t value = ⟨d.dropFront k,true⟩ ∧
      incomingPacket ⟨ssrc,count,u,some start,⟨d,true⟩⟩ t ssrc' value =
        ⟨ssrc',count,(u.unwrap value).2,some (max d'.front (min start (u.unwrap value).1)),
          ⟨d',true⟩⟩ ∧
      Recorded (d.dropFront k) (u.unwrap value).1 t d' := by
  have hmap : culledMap ⟨ssrc,count,u,some start,⟨d,true⟩⟩ t value =
      (maybeCullOldPackets ⟨ssrc',count,(u.unwrap value).2,some start,⟨d,true⟩⟩
        (u.unwrap value).1 t).packetArrivalTimes := by
    unfold culledMap maybeCullOldPackets
    simp only
    split <;> rfl
  rw [incomingPacket_eq _ ht ht',hmap]
  exact recordPacket_spec ssrc' count (u.unwrap value).2 h (u.unwrap value).1
    (by omega : t ≠ 0)

theorem stores_pending {s : ReceiveSideTWCC} (h : Inv s) {t : ℤ} (ht : 0 < t)
    (ht' : t ≤ kMaxTimeMs) {ssrc : BitVec 32} {value : BitVec 16}
    (hs : Stores s t ssrc value) :
    Pending (s.incomingPacket t ssrc value) (s.unwrapped value) t := by
  obtain ⟨hculled,hafter⟩ := hs
  cases h with
  | @initial ssrc₀ count u hu =>
      rw [incomingPacket_eq _ ht ht',recordPacket_first]
      refine ⟨?_,by omega,_,rfl,le_rfl⟩
      simp [PacketArrivalTimeMap.timeAt,Deque.value]
  | @running ssrc₀ count d u start hw =>
      obtain ⟨k,hk,d',hcull,hmap,heq,hr⟩ := incomingPacket_spec ssrc₀ ssrc count hw ht ht' value
      change culledMap _ _ _ = _ at hmap
      rw [heq] at hafter ⊢
      have hafter' := (PacketArrivalTimeMap.hasReceived_iff _ _).mp hafter
      cases hr with
      | known hne =>
          have hyes := (PacketArrivalTimeMap.hasReceived_iff ⟨d.dropFront k,true⟩ _).mpr hne
          rw [← hmap] at hyes
          exact absurd hyes (by rw [Bool.not_eq_true]; exact hculled)
      | refused hz _ => exact absurd hz hafter'
      | stored _ hstored =>
          have hfront := hstored.front_le (by omega)
          refine ⟨hstored.value_self,by omega,_,rfl,?_⟩
          simp only [unwrapped]
          omega

/-- A packet keeps waiting while no packet half the range ahead arrives: its map
entry is neither culled nor trimmed, and the window start stays at or before it. -/
theorem Pending.incomingPacket {s : ReceiveSideTWCC} (h : Inv s) {n t t' : ℤ}
    (hp : Pending s n t) (ht : 0 < t') (ht' : t' ≤ kMaxTimeMs) (ssrc : BitVec 32)
    {value : BitVec 16} (hvalue : s.unwrapped value < n+32768) :
    Pending (s.incomingPacket t' ssrc value) n t := by
  obtain ⟨htime,hne,start₀,hstart₀,hle⟩ := hp
  cases h with
  | @initial ssrc₀ count u hu => exact absurd hstart₀ (by simp)
  | @running ssrc₀ count d u start hw =>
      obtain rfl : start = start₀ := Option.some.inj hstart₀
      obtain ⟨k,hk,d',hcull,_,heq,hr⟩ := incomingPacket_spec ssrc₀ ssrc count hw ht ht' value
      simp only [PacketArrivalTimeMap.timeAt] at htime
      simp only [unwrapped] at hvalue
      have hrange := Deque.range_of_value_ne d (by omega : d.value n ≠ 0)
      -- nothing is culled, since this packet is still to be sent
      have hk0 : k = 0 := by
        by_contra hpos
        have := hcull (by omega)
        omega
      rw [hk0,show d.dropFront 0 = d by simp [Deque.dropFront]] at hr
      rw [heq]
      cases hr with
      | known _ => exact ⟨htime,hne,_,rfl,by omega⟩
      | refused _ _ => exact ⟨htime,hne,_,rfl,by omega⟩
      | stored hz hstored =>
          have hfront := hstored.kept n (by omega) hvalue
          have hn : n ≠ (u.unwrap value).1 := fun he => by
            rw [he,hz] at htime
            exact hne htime.symm
          exact ⟨(hstored.value_other n hn hfront).trans htime,hne,_,rfl,by omega⟩

end Ylrtc.ReceiveSide
