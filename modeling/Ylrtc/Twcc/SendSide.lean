import Mathlib.Data.List.Induction
import Ylrtc.Rtcp.FeedbackWire

/-!
# The sending side of transport-wide congestion control

`SendSideTWCC` of `congestion_controller/send_side_twcc.cpp`. The delay estimator
behind it is not modelled: what it is passed is the result of
`receiveTransportFeedback`, which lists for each packet of the feedback the
status that was pushed for it, if any.
-/
namespace Ylrtc.SendSide
open FeedbackBuilder FeedbackWire SequenceNumber

abbrev kSendTimeWindowMillis : ℤ := 60000

structure PacketStatus where
  sentTimeMillis : ℤ := -1
  receiveTimeMillis : ℤ := -1
  size : ℕ := 0
  transportWideSequenceNumber : ℤ := -1
  deriving DecidableEq, Repr

def PacketStatus.isSent (p : PacketStatus) : Bool :=
  p.sentTimeMillis != -1 && p.size != 0 && p.transportWideSequenceNumber != -1

/-- A `std::map` ordered by key. -/
abbrev History := Std.TreeMap ℤ PacketStatus compare

structure SendSideTWCC where
  history : History := ∅
  seqNumUnwrapper : SeqNumUnwrapper 16 := {}

/-- The eviction loop of `SendPacket`. Each round erases one entry, so as many
rounds as there are entries are enough. -/
def evict (sentTimeMillis : ℤ) : ℕ → History → History
  | 0,history => history
  | n+1,history =>
      match history.minKey? with
      | none => history
      | some key =>
          if sentTimeMillis - (history.getD key {}).sentTimeMillis > kSendTimeWindowMillis then
            evict sentTimeMillis n (history.erase key)
          else history

/-- The variables of the loop in `ReceiveTransportFeedback`. -/
structure Matching where
  history : History
  seqNumUnwrapper : SeqNumUnwrapper 16
  timeOffsetMicros : ℤ := 0

namespace SendSideTWCC

def sendPacket (s : SendSideTWCC) (packet : PacketStatus) : SendSideTWCC :=
  if !packet.isSent then s
  else
    { s with history := (evict packet.sentTimeMillis s.history.size s.history).insertIfNew
               packet.transportWideSequenceNumber packet }

/-- One round of the loop over the packets of a feedback. -/
def matchPacket (baseTimeMicros : ℤ) (m : Matching) (packet : ReceivedPacket) :
    Option PacketStatus × Matching :=
  let (seqNum,unwrapper) := m.seqNumUnwrapper.unwrap packet.sequenceNumber
  let m := { m with seqNumUnwrapper := unwrapper }
  match m.history[seqNum]? with
  | none => (none,m)
  | some status =>
      if !status.isSent then (none,m)
      else if packet.received then
        let offset := m.timeOffsetMicros + packet.deltaUs
        (some { status with receiveTimeMillis := (baseTimeMicros + offset).tdiv 1000 },
          { m with history := m.history.erase seqNum, timeOffsetMicros := offset })
      else (none,m)

def matchPackets (baseTimeMicros : ℤ) :
    Matching → List ReceivedPacket → List (Option PacketStatus) × Matching
  | m,[] => ([],m)
  | m,packet::packets =>
      let first := matchPacket baseTimeMicros m packet
      let rest := matchPackets baseTimeMicros first.2 packets
      (first.1::rest.1,rest.2)

def receiveTransportFeedback (s : SendSideTWCC) (feedback : TransportFeedback) :
    List (Option PacketStatus) × SendSideTWCC :=
  if feedback.getPacketStatusCount = 0 then ([],s)
  else
    let r := matchPackets feedback.getBaseTimeUs ⟨s.history,s.seqNumUnwrapper,0⟩
      feedback.allPackets
    (r.1,⟨r.2.history,r.2.seqNumUnwrapper⟩)

end SendSideTWCC
open SendSideTWCC

/-! ### The history -/

/-- Eviction only removes entries that are too old. -/
theorem evict_getElem? {t : ℤ} {n : ℕ} {history : History} {key : ℤ} {status : PacketStatus}
    (h : history[key]? = some status) (hrecent : t - status.sentTimeMillis ≤ kSendTimeWindowMillis) :
    (evict t n history)[key]? = some status := by
  induction n generalizing history with
  | zero => exact h
  | succ n ih =>
      unfold evict
      cases hmin : history.minKey? with
      | none => exact h
      | some first =>
          simp only
          by_cases hold : t - (history.getD first {}).sentTimeMillis > kSendTimeWindowMillis
          · rw [if_pos hold]
            apply ih
            have hne : first ≠ key := by
              intro he
              rw [he,Std.TreeMap.getD_eq_getD_getElem?,h,Option.getD_some] at hold
              exact absurd hrecent (by omega)
            rw [Std.TreeMap.getElem?_erase,if_neg (by simpa using hne)]
            exact h
          · rw [if_neg hold]
            exact h

theorem getElem?_of_evict {t : ℤ} {n : ℕ} {history : History} {key : ℤ} {status : PacketStatus}
    (h : (evict t n history)[key]? = some status) : history[key]? = some status := by
  induction n generalizing history with
  | zero => exact h
  | succ n ih =>
      unfold evict at h
      cases hmin : history.minKey? with
      | none =>
          rw [hmin] at h
          exact h
      | some first =>
          rw [hmin] at h
          simp only at h
          split at h
          · have := ih h
            rw [Std.TreeMap.getElem?_erase] at this
            split at this
            · simp at this
            · exact this
          · exact h

/-! ### What a feedback matches -/

/-- The unwrapper after the numbers of a list of packets. -/
def unwrapAll (u : SeqNumUnwrapper 16) (packets : List ReceivedPacket) : SeqNumUnwrapper 16 :=
  packets.foldl (fun u p => (u.unwrap p.sequenceNumber).2) u

/-- The unwrapped number of a packet that comes after others in a feedback. -/
def numberAfter (u : SeqNumUnwrapper 16) (before : List ReceivedPacket) (p : ReceivedPacket) : ℤ :=
  ((unwrapAll u before).unwrap p.sequenceNumber).1

/-- The unwrapped numbers that a list of packets reports as received. -/
def receivedNumbers (u : SeqNumUnwrapper 16) : List ReceivedPacket → List ℤ
  | [] => []
  | p::ps =>
      if p.received then (u.unwrap p.sequenceNumber).1::receivedNumbers (u.unwrap p.sequenceNumber).2 ps
      else receivedNumbers (u.unwrap p.sequenceNumber).2 ps

/-- The history has a sent packet under this number. -/
def recorded (history : History) (n : ℤ) : Bool :=
  match history[n]? with
  | none => false
  | some status => status.isSent

/-- A packet is matched: reported as received, recorded, and not reported as
received before in the same feedback. -/
def matched (s : SendSideTWCC) (before : List ReceivedPacket) (p : ReceivedPacket) : Bool :=
  p.received && recorded s.history (numberAfter s.seqNumUnwrapper before p) &&
    !(receivedNumbers s.seqNumUnwrapper before).contains (numberAfter s.seqNumUnwrapper before p)

/-- Sum of the deltas a list of packets reports. -/
def receivedDelta (packets : List ReceivedPacket) : ℤ :=
  (packets.map fun p => if p.received then p.deltaUs else 0).sum

/-- Sum of the deltas of the packets of `rest` that are reported but not matched. -/
def skippedDelta (s : SendSideTWCC) : List ReceivedPacket → List ReceivedPacket → ℤ
  | _,[] => 0
  | before,p::rest =>
      (if p.received && !matched s before p then p.deltaUs else 0) +
        skippedDelta s (before++[p]) rest

/-- The loop variables after a list of packets. -/
structure After (s : SendSideTWCC) (before : List ReceivedPacket) (m : Matching) : Prop where
  unwrapper : m.seqNumUnwrapper = unwrapAll s.seqNumUnwrapper before
  history : ∀ n, m.history[n]? =
    if (receivedNumbers s.seqNumUnwrapper before).contains n && recorded s.history n then none
    else s.history[n]?
  offset : m.timeOffsetMicros = receivedDelta before - skippedDelta s [] before

theorem unwrapAll_snoc (u : SeqNumUnwrapper 16) (ps : List ReceivedPacket) (p : ReceivedPacket) :
    unwrapAll u (ps++[p]) = ((unwrapAll u ps).unwrap p.sequenceNumber).2 := by
  simp only [unwrapAll,List.foldl_append,List.foldl_cons,List.foldl_nil]

theorem receivedNumbers_snoc (u : SeqNumUnwrapper 16) (ps : List ReceivedPacket)
    (p : ReceivedPacket) :
    receivedNumbers u (ps++[p]) =
      receivedNumbers u ps++if p.received then [numberAfter u ps p] else [] := by
  induction ps generalizing u with
  | nil => simp only [receivedNumbers,List.nil_append,numberAfter,unwrapAll,List.foldl_nil]
  | cons q ps ih =>
      rw [List.cons_append,receivedNumbers,receivedNumbers,ih]
      cases hq : q.received with
      | true => rfl
      | false => rfl

theorem receivedDelta_snoc (ps : List ReceivedPacket) (p : ReceivedPacket) :
    receivedDelta (ps++[p]) = receivedDelta ps + if p.received then p.deltaUs else 0 := by
  simp only [receivedDelta,List.map_append,List.sum_append,List.map_singleton,List.sum_singleton]

theorem skippedDelta_snoc (s : SendSideTWCC) (before ps : List ReceivedPacket)
    (p : ReceivedPacket) :
    skippedDelta s before (ps++[p]) = skippedDelta s before ps +
      if p.received && !matched s (before++ps) p then p.deltaUs else 0 := by
  induction ps generalizing before with
  | nil => simp only [List.nil_append,skippedDelta,List.append_nil,Int.add_zero,Int.zero_add]
  | cons q ps ih =>
      rw [List.cons_append,skippedDelta,skippedDelta,ih,List.append_assoc,List.singleton_append,
        Int.add_assoc]

theorem matched_eq_true_iff (s : SendSideTWCC) (before : List ReceivedPacket) (p : ReceivedPacket) :
    matched s before p = true ↔ p.received = true ∧
      recorded s.history (numberAfter s.seqNumUnwrapper before p) = true ∧
      numberAfter s.seqNumUnwrapper before p ∉ receivedNumbers s.seqNumUnwrapper before := by
  simp only [matched,Bool.and_eq_true,Bool.not_eq_true',List.contains_eq_mem,decide_eq_false_iff_not,
    and_assoc]

theorem mem_receivedNumbers_snoc (u : SeqNumUnwrapper 16) (before : List ReceivedPacket)
    (p : ReceivedPacket) (n : ℤ) :
    n ∈ receivedNumbers u (before++[p]) ↔
      n ∈ receivedNumbers u before ∨ (p.received = true ∧ n = numberAfter u before p) := by
  rw [receivedNumbers_snoc,List.mem_append]
  cases p.received with
  | true => simp
  | false => simp

/-- A packet that is passed over changes the unwrapper only. -/
theorem After.skip {s : SendSideTWCC} {before : List ReceivedPacket} {m : Matching}
    (h : After s before m) {p : ReceivedPacket} (hp : matched s before p = false) :
    After s (before++[p])
      { m with seqNumUnwrapper := (m.seqNumUnwrapper.unwrap p.sequenceNumber).2 } := by
  refine ⟨?_,fun n => ?_,?_⟩
  · rw [unwrapAll_snoc,← h.unwrapper]
  · simp only [h.history n]
    congr 1
    rw [eq_iff_iff,Bool.and_eq_true,Bool.and_eq_true,List.contains_eq_mem,List.contains_eq_mem,
      decide_eq_true_iff,decide_eq_true_iff,mem_receivedNumbers_snoc]
    constructor
    · rintro ⟨hmem,hrec⟩
      exact ⟨Or.inl hmem,hrec⟩
    · rintro ⟨hmem | ⟨hreceived,rfl⟩,hrec⟩
      · exact ⟨hmem,hrec⟩
      · -- reported and recorded, so it was reported before
        by_contra hnot
        have : matched s before p = true := (matched_eq_true_iff s before p).mpr
          ⟨hreceived,hrec,fun hmem => hnot ⟨hmem,hrec⟩⟩
        rw [hp] at this
        simp at this
  · rw [receivedDelta_snoc,skippedDelta_snoc,h.offset,List.nil_append,hp]
    cases p.received <;> simp

/-- A matched packet leaves the history and adds its delta. -/
theorem After.take {s : SendSideTWCC} {before : List ReceivedPacket} {m : Matching}
    (h : After s before m) {p : ReceivedPacket} (hp : matched s before p = true) :
    After s (before++[p])
      { history := m.history.erase (numberAfter s.seqNumUnwrapper before p)
        seqNumUnwrapper := (m.seqNumUnwrapper.unwrap p.sequenceNumber).2
        timeOffsetMicros := m.timeOffsetMicros + p.deltaUs } := by
  obtain ⟨hreceived,hrec,_⟩ := (matched_eq_true_iff s before p).mp hp
  refine ⟨?_,fun n => ?_,?_⟩
  · rw [unwrapAll_snoc,← h.unwrapper]
  · rw [Std.TreeMap.getElem?_erase,h.history n]
    by_cases hn : n = numberAfter s.seqNumUnwrapper before p
    · subst hn
      rw [if_pos (by simp),if_pos]
      rw [Bool.and_eq_true,List.contains_eq_mem,decide_eq_true_iff,mem_receivedNumbers_snoc]
      exact ⟨Or.inr ⟨hreceived,rfl⟩,hrec⟩
    · rw [if_neg (by simpa using fun he => hn he.symm)]
      congr 1
      rw [eq_iff_iff,Bool.and_eq_true,Bool.and_eq_true,List.contains_eq_mem,List.contains_eq_mem,
        decide_eq_true_iff,decide_eq_true_iff,mem_receivedNumbers_snoc]
      simp only [hn,and_false,or_false]
  · rw [receivedDelta_snoc,skippedDelta_snoc,h.offset,List.nil_append,hp,hreceived]
    simp only [if_true,Bool.not_true,Bool.and_false,Bool.false_eq_true,if_false]
    ring

theorem matchPacket_pass (base : ℤ) (m : Matching) (p : ReceivedPacket)
    (h : (p.received && recorded m.history (m.seqNumUnwrapper.unwrap p.sequenceNumber).1) = false) :
    matchPacket base m p =
      (none,{ m with seqNumUnwrapper := (m.seqNumUnwrapper.unwrap p.sequenceNumber).2 }) := by
  unfold matchPacket
  simp only [recorded] at h ⊢
  cases hfound : m.history[(m.seqNumUnwrapper.unwrap p.sequenceNumber).1]? with
  | none => rfl
  | some status =>
      rw [hfound] at h
      simp only [Bool.and_eq_false_iff] at h ⊢
      rcases h with hreceived | hsent
      · simp only [hreceived,Bool.false_eq_true,if_false,ite_self]
      · simp only [hsent,Bool.not_false,if_true]

theorem matchPacket_push (base : ℤ) {m : Matching} {p : ReceivedPacket} {status : PacketStatus}
    (hfound : m.history[(m.seqNumUnwrapper.unwrap p.sequenceNumber).1]? = some status)
    (hsent : status.isSent = true) (hreceived : p.received = true) :
    matchPacket base m p =
      (some { status with
          receiveTimeMillis := (base + (m.timeOffsetMicros + p.deltaUs)).tdiv 1000 },
        { history := m.history.erase (m.seqNumUnwrapper.unwrap p.sequenceNumber).1
          seqNumUnwrapper := (m.seqNumUnwrapper.unwrap p.sequenceNumber).2
          timeOffsetMicros := m.timeOffsetMicros + p.deltaUs }) := by
  unfold matchPacket
  simp only [hfound,hsent,hreceived,Bool.not_true,Bool.false_eq_true,if_false,if_true]

/-- The remaining history decides what is matched next. -/
theorem After.matched_eq {s : SendSideTWCC} {before : List ReceivedPacket} {m : Matching}
    (h : After s before m) (p : ReceivedPacket) :
    matched s before p =
      (p.received && recorded m.history (m.seqNumUnwrapper.unwrap p.sequenceNumber).1) := by
  have hnumber : (m.seqNumUnwrapper.unwrap p.sequenceNumber).1 =
      numberAfter s.seqNumUnwrapper before p := by
    rw [h.unwrapper,numberAfter]
  rw [hnumber,matched]
  generalize numberAfter s.seqNumUnwrapper before p = n
  have hn := h.history n
  cases hc : (receivedNumbers s.seqNumUnwrapper before).contains n with
  | false =>
      rw [hc,Bool.false_and,if_neg Bool.false_ne_true] at hn
      simp only [recorded,hn,Bool.not_false,Bool.and_true]
  | true =>
      have hgone : recorded m.history n = false := by
        rw [hc,Bool.true_and] at hn
        cases hr : recorded s.history n with
        | true =>
            rw [hr,if_pos rfl] at hn
            simp only [recorded,hn]
        | false =>
            rw [hr,if_neg Bool.false_ne_true] at hn
            simpa only [recorded,hn] using hr
      simp only [hgone,Bool.not_true,Bool.and_false]

/-- One round: a matched packet is pushed with the running time, any other packet
is passed over, and its delta is lost. -/
theorem matchPacket_spec {s : SendSideTWCC} {before : List ReceivedPacket} {m : Matching}
    (h : After s before m) (base : ℤ) (p : ReceivedPacket) :
    After s (before++[p]) (matchPacket base m p).2 ∧
      (matched s before p = false → (matchPacket base m p).1 = none) ∧
      (matched s before p = true → ∃ status,
        s.history[numberAfter s.seqNumUnwrapper before p]? = some status ∧
        (matchPacket base m p).1 = some { status with
          receiveTimeMillis := (base + (receivedDelta (before++[p]) -
            skippedDelta s [] before)).tdiv 1000 }) := by
  have hmatched := h.matched_eq p
  cases hp : matched s before p with
  | false =>
      rw [matchPacket_pass base m p (hmatched.symm.trans hp)]
      exact ⟨h.skip hp,fun _ => rfl,fun ht => by simp at ht⟩
  | true =>
      have htake := h.take hp
      have hnumber : (m.seqNumUnwrapper.unwrap p.sequenceNumber).1 =
          numberAfter s.seqNumUnwrapper before p := by
        rw [h.unwrapper,numberAfter]
      obtain ⟨hreceived,hrec,hmem⟩ := (matched_eq_true_iff s before p).mp hp
      have hlookup := h.history (numberAfter s.seqNumUnwrapper before p)
      rw [if_neg (by simp [hmem])] at hlookup
      rw [recorded] at hrec
      cases hfound : s.history[numberAfter s.seqNumUnwrapper before p]? with
      | none =>
          rw [hfound] at hrec
          simp at hrec
      | some status =>
          rw [hfound] at hrec hlookup
          rw [← hnumber] at hlookup htake
          rw [matchPacket_push base hlookup hrec hreceived]
          refine ⟨htake,fun hf => by simp at hf,fun _ => ⟨status,rfl,?_⟩⟩
          simp only [receivedDelta_snoc,hreceived,if_true,h.offset]
          congr 3
          ring

theorem matchPackets_append (base : ℤ) (m : Matching) (ps qs : List ReceivedPacket) :
    matchPackets base m (ps++qs) =
      ((matchPackets base m ps).1++(matchPackets base (matchPackets base m ps).2 qs).1,
        (matchPackets base (matchPackets base m ps).2 qs).2) := by
  induction ps generalizing m with
  | nil => rfl
  | cons p ps ih => simp only [List.cons_append,matchPackets,ih]

theorem matchPackets_length (base : ℤ) (m : Matching) (ps : List ReceivedPacket) :
    (matchPackets base m ps).1.length = ps.length := by
  induction ps generalizing m with
  | nil => rfl
  | cons p ps ih => simp only [matchPackets,List.length_cons,ih]

/-- The loop variables after any part of a feedback. -/
theorem matchPackets_after (s : SendSideTWCC) (base : ℤ) (before : List ReceivedPacket) :
    After s before (matchPackets base ⟨s.history,s.seqNumUnwrapper,0⟩ before).2 := by
  induction before using List.reverseRecOn with
  | nil => exact ⟨rfl,fun n => by simp [matchPackets,receivedNumbers],rfl⟩
  | append_singleton ps p ih =>
      rw [matchPackets_append]
      exact (matchPacket_spec ih base p).1

/-- What the loop pushes for the packet at a position. -/
theorem receiveTransportFeedback_at {s : SendSideTWCC} {feedback : TransportFeedback}
    (hcount : feedback.getPacketStatusCount ≠ 0) {before after : List ReceivedPacket}
    {p : ReceivedPacket} (hp : feedback.allPackets = before++p::after) :
    (receiveTransportFeedback s feedback).1[before.length]? =
      some (matchPacket feedback.getBaseTimeUs (matchPackets feedback.getBaseTimeUs
        ⟨s.history,s.seqNumUnwrapper,0⟩ before).2 p).1 := by
  rw [receiveTransportFeedback,if_neg hcount,hp,matchPackets_append]
  simp only
  rw [List.getElem?_append_right (by rw [matchPackets_length]),matchPackets_length,Nat.sub_self]
  rfl

/-! ### Receive times -/

/-- Every packet that is matched gets the time of all deltas up to it. -/
def RightTimes (s : SendSideTWCC) (feedback : TransportFeedback) : Prop :=
  ∀ before p after status, feedback.allPackets = before++p::after →
    (receiveTransportFeedback s feedback).1[before.length]? = some (some status) →
    status.receiveTimeMillis =
      (feedback.getBaseTimeUs + receivedDelta (before++[p])).tdiv 1000

/-- At each matched packet, the deltas of the packets skipped before it do not
reach the millisecond. -/
def SkippedHarmless (s : SendSideTWCC) (feedback : TransportFeedback) : Prop :=
  feedback.getPacketStatusCount ≠ 0 → ∀ before p after, feedback.allPackets = before++p::after →
    matched s before p = true →
    (feedback.getBaseTimeUs + (receivedDelta (before++[p]) - skippedDelta s [] before)).tdiv 1000 =
      (feedback.getBaseTimeUs + receivedDelta (before++[p])).tdiv 1000

/-- The receive times are right exactly when the skipped deltas are harmless. -/
theorem rightTimes_iff (s : SendSideTWCC) (feedback : TransportFeedback) :
    RightTimes s feedback ↔ SkippedHarmless s feedback := by
  constructor
  · intro h hcount before p after hp hm
    obtain ⟨_,_,hmatch⟩ :=
      matchPacket_spec (matchPackets_after s feedback.getBaseTimeUs before) feedback.getBaseTimeUs p
    obtain ⟨status,_,heq⟩ := hmatch hm
    have hat := receiveTransportFeedback_at (s := s) hcount hp
    rw [heq] at hat
    exact h before p after _ hp hat
  · intro h before p after status hp hat
    by_cases hcount : feedback.getPacketStatusCount = 0
    · rw [receiveTransportFeedback,if_pos hcount] at hat
      simp at hat
    obtain ⟨_,hskip,hmatch⟩ :=
      matchPacket_spec (matchPackets_after s feedback.getBaseTimeUs before) feedback.getBaseTimeUs p
    rw [receiveTransportFeedback_at hcount hp,Option.some.injEq] at hat
    cases hm : matched s before p with
    | false =>
        rw [hskip hm] at hat
        simp at hat
    | true =>
        obtain ⟨status',_,heq⟩ := hmatch hm
        rw [heq,Option.some.injEq] at hat
        rw [← hat,← h hcount before p after hp hm]

/-- Two packets are reported and only the second is in the history: its receive
time misses the four milliseconds of the first one. -/
theorem not_rightTimes : ¬∀ s feedback, RightTimes s feedback := by
  intro h
  have hwrong := (rightTimes_iff
    ⟨(∅ : History).insertIfNew 2 ⟨10,-1,100,2⟩,{}⟩
    (addAll (start true 1 0 0 0 0) [(1,4000),(2,5000)])).mp (h _ _)
    (by decide) [.withDelta 1 16] (.withDelta 2 4) [] (by decide) (by decide)
  exact absurd hwrong (by decide)

end Ylrtc.SendSide
