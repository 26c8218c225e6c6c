import Ylrtc.Rtcp.FeedbackWire

/-!
# Feedbacks built by any sequence of calls

`SetBase` and `AddReceivedPacket` of `rtp_rtcp/transport_feedback.cpp` in any order their
assertions allow. Every emitted chunk carries at least seven statuses, so the status count
reaches its limit long before the size does. The reported times never drift, and a refused
call changes the object exactly when the gap before its packet runs into the status limit.
-/
namespace Ylrtc.FeedbackBuilder
open FeedbackWire MachineInt SequenceNumber StatusChunk TransportFeedback

section Reached

/-- The objects a user of the class can hold. `SetBase` asserts that nothing is reported
yet and that the time is not negative. -/
inductive Reached (includeTimestamps includeLost : Bool) : TransportFeedback → Prop
  | constructed :
      Reached includeTimestamps includeLost
        { includeTimestamps := includeTimestamps, includeLost := includeLost }
  | setBase {fb : TransportFeedback} (h : Reached includeTimestamps includeLost fb)
      (baseSequence : BitVec 16) {refTimestampUs : ℤ} (hempty : fb.numSeqNo = 0)
      (href : 0 ≤ refTimestampUs) :
      Reached includeTimestamps includeLost (fb.setBase baseSequence refTimestampUs)
  | setFeedbackSequenceNumber {fb : TransportFeedback}
      (h : Reached includeTimestamps includeLost fb) (feedbackSequence : BitVec 8) :
      Reached includeTimestamps includeLost (fb.setFeedbackSequenceNumber feedbackSequence)
  | setSenderSsrc {fb : TransportFeedback} (h : Reached includeTimestamps includeLost fb)
      (ssrc : BitVec 32) : Reached includeTimestamps includeLost (fb.setSenderSsrc ssrc)
  | setMediaSsrc {fb : TransportFeedback} (h : Reached includeTimestamps includeLost fb)
      (ssrc : BitVec 32) : Reached includeTimestamps includeLost (fb.setMediaSsrc ssrc)
  | addReceivedPacket {fb : TransportFeedback} (h : Reached includeTimestamps includeLost fb)
      (sequenceNumber : BitVec 16) (timestampUs : ℤ) :
      Reached includeTimestamps includeLost (fb.addReceivedPacket sequenceNumber timestampUs).2

/-- Every emitted chunk carries seven statuses or more. -/
def Dense (fb : TransportFeedback) : Prop :=
  7*fb.encodedChunks.length+fb.lastChunk.size ≤ fb.numSeqNo.toNat

/-- The running time is the base time plus the deltas reported so far. -/
def OnTime (fb : TransportFeedback) : Prop :=
  fb.lastTimestampUs = fb.getBaseTimeUs + kDeltaScaleFactor*ticksSum fb.receivedPackets

theorem emit_size {c : LastChunk} {d : ℕ} (hc : c.canAdd d = false) :
    c.emit.2.size+7 ≤ c.size := by
  have hfull : 7 ≤ c.size := by
    have hn := (LastChunk.canAdd_iff (c := c) d).not.mp (by simp [hc])
    omega
  unfold LastChunk.emit
  split_ifs with _ h14
  · simp only [cleared]
    omega
  · simp only [cleared,h14,kMaxOneBitCapacity]
    omega
  · simp only [kMaxTwoBitCapacity]
    omega

theorem numSeqNo_add_one {n : BitVec 16} (h : n ≠ kMaxReportedPackets) :
    (n+1).toNat = n.toNat+1 := by
  have hlt := n.isLt
  have hne : n.toNat ≠ 65535 := fun e => h (BitVec.eq_of_toNat_eq e)
  have hone : (1 : BitVec 16).toNat = 1 := rfl
  rw [BitVec.toNat_add,hone]
  omega

theorem Dense.addDeltaSize {fb fb' : TransportFeedback} {d : ℕ} (h : Dense fb)
    (ha : fb.addDeltaSize d = some fb') : Dense fb' := by
  obtain ⟨hn,chunks,last,bytes,rfl,hcase⟩ := addDeltaSize_cases ha
  have hsucc := numSeqNo_add_one hn
  unfold Dense at h ⊢
  simp only [hsucc]
  cases hcase with
  | inl hjoin =>
      obtain ⟨_,rfl,rfl,_⟩ := hjoin
      simp only [LastChunk.add]
      omega
  | inr hemit =>
      obtain ⟨hc,rfl,rfl,_⟩ := hemit
      have := emit_size hc
      simp only [LastChunk.add,List.length_append,List.length_singleton]
      omega

theorem Dense.addMissing {n : ℕ} (next : BitVec 16) {fb : TransportFeedback} (h : Dense fb) :
    Dense (addMissing n next fb).2 := by
  induction n generalizing next fb with
  | zero => exact h
  | succ n ih =>
      rw [TransportFeedback.addMissing]
      cases hd : fb.addDeltaSize 0 with
      | none => exact h
      | some g =>
          have hg : Dense g := h.addDeltaSize hd
          exact ih (next+1) hg

theorem Dense.addNext {fb : TransportFeedback} (seq delta : BitVec 16) (h : Dense fb) :
    Dense (fb.addNext seq delta).2 := by
  unfold TransportFeedback.addNext
  cases hd : fb.addDeltaSize (deltaSizeOf delta) with
  | none => exact h
  | some g =>
      have hg : Dense g := h.addDeltaSize hd
      exact hg

theorem Dense.addReceivedPacket {fb : TransportFeedback} (seq : BitVec 16) (t : ℤ)
    (h : Dense fb) : Dense (fb.addReceivedPacket seq t).2 := by
  unfold TransportFeedback.addReceivedPacket
  generalize (if fb.includeTimestamps then deltaFull t fb.lastTimestampUs else 0) = full
  simp only
  split
  · exact h
  split
  · exact h.addNext _ _
  split
  · exact h
  have hm := h.addMissing (n := (seq-(fb.baseSeqNo+fb.numSeqNo)).toNat)
    (fb.baseSeqNo+fb.numSeqNo)
  generalize TransportFeedback.addMissing _ _ fb = r at hm ⊢
  obtain ⟨ok,g⟩ := r
  cases ok with
  | false => exact hm
  | true => exact hm.addNext _ _

theorem OnTime.addReceivedPacket {fb : TransportFeedback} {syms : List ℕ} (seq : BitVec 16)
    (t : ℤ) (hb : Built fb syms) (h : OnTime fb) : OnTime (fb.addReceivedPacket seq t).2 := by
  obtain ⟨hh,hno,hyes⟩ := addReceivedPacket_spec hb
    (Prod.mk.eta (p := fb.addReceivedPacket seq t)).symm
  have hbase : (fb.addReceivedPacket seq t).2.getBaseTimeUs = fb.getBaseTimeUs := by
    rw [getBaseTimeUs,hh.2.2.2.2.1,getBaseTimeUs]
  unfold OnTime at h ⊢
  cases hok : (fb.addReceivedPacket seq t).1 with
  | false =>
      obtain ⟨hr,hl,_⟩ := hno hok
      rw [hr,hl,hbase,h]
  | true =>
      obtain ⟨delta,_,hr,hl,_⟩ := hyes hok
      rw [hr,hl,hbase,h,ticksSum_append,ticksSum_withDelta]
      ring

/-- What holds of every feedback its user can hold. -/
structure Legal (includeTimestamps : Bool) (fb : TransportFeedback) : Prop where
  built : ∃ syms, Built fb syms
  dense : Dense fb
  onTime : OnTime fb
  timestamps : fb.includeTimestamps = includeTimestamps
  ticks : 0 ≤ fb.baseTimeTicks ∧ fb.baseTimeTicks < 2^24

theorem Built.symbols_nil {fb : TransportFeedback} {syms : List ℕ} (h : Built fb syms)
    (hempty : fb.numSeqNo = 0) : syms = [] := by
  have hc := h.count
  rw [hempty] at hc
  exact List.length_eq_zero_iff.mp hc

theorem Legal.setBase {includeTimestamps : Bool} {fb : TransportFeedback}
    (h : Legal includeTimestamps fb) (base : BitVec 16) {t : ℤ} (hempty : fb.numSeqNo = 0)
    (ht : 0 ≤ t) : Legal includeTimestamps (fb.setBase base t) := by
  obtain ⟨syms,hb⟩ := h.built
  have hnil := hb.symbols_nil hempty
  rw [hnil] at hb
  have hreceived : fb.receivedPackets = [] := by
    have hr := hb.reports
    generalize fb.receivedPackets = rs at hr
    cases hr
    rfl
  constructor
  · refine ⟨[],⟨hb.pending,hb.split,hb.count,hb.nonempty⟩,?_,hb.size,?_⟩
    · change Reports base [] fb.receivedPackets
      rw [hreceived]
      exact .nil base
    · intro _
      simp only [TransportFeedback.setBase,getBaseTimeUs,hreceived,ticksSum_nil]
      ring
  · exact h.dense
  · unfold OnTime
    simp only [TransportFeedback.setBase,getBaseTimeUs,hreceived,ticksSum_nil]
    ring
  · exact h.timestamps
  · exact baseTicks_range ht

theorem Legal.addReceivedPacket {includeTimestamps : Bool} {fb : TransportFeedback}
    (h : Legal includeTimestamps fb) (seq : BitVec 16) (t : ℤ) :
    Legal includeTimestamps (fb.addReceivedPacket seq t).2 := by
  obtain ⟨syms,hb⟩ := h.built
  obtain ⟨hh,hno,hyes⟩ := addReceivedPacket_spec hb
    (Prod.mk.eta (p := fb.addReceivedPacket seq t)).symm
  constructor
  · cases hok : (fb.addReceivedPacket seq t).1 with
    | false =>
        obtain ⟨_,_,_,hb'⟩ := hno hok
        exact ⟨_,hb'⟩
    | true =>
        obtain ⟨_,_,_,_,hb'⟩ := hyes hok
        exact ⟨_,hb'⟩
  · exact h.dense.addReceivedPacket seq t
  · exact h.onTime.addReceivedPacket seq t hb
  · exact hh.1.trans h.timestamps
  · rw [hh.2.2.2.2.1]
    exact h.ticks

/-- The fields that only `Serialize` uses. -/
theorem Legal.setFields {includeTimestamps : Bool} {fb : TransportFeedback}
    (h : Legal includeTimestamps fb) (senderSsrc mediaSsrc : BitVec 32) (feedbackSeq : BitVec 8) :
    Legal includeTimestamps
      { fb with senderSsrc := senderSsrc, mediaSsrc := mediaSsrc, feedbackSeq := feedbackSeq } := by
  obtain ⟨syms,hb⟩ := h.built
  exact ⟨⟨syms,⟨hb.pending,hb.split,hb.count,hb.nonempty⟩,hb.reports,hb.size,hb.timestamp⟩,
    h.dense,h.onTime,h.timestamps,h.ticks⟩

theorem Reached.legal {includeTimestamps includeLost : Bool} {fb : TransportFeedback}
    (h : Reached includeTimestamps includeLost fb) : Legal includeTimestamps fb := by
  induction h with
  | constructed =>
      have hfresh : Fresh { includeTimestamps := includeTimestamps, includeLost := includeLost } :=
        ⟨rfl,rfl,rfl,rfl,rfl,rfl⟩
      have hticks : (0 : ℤ) ≤ 0 ∧ (0 : ℤ) < 2^24 := by decide
      exact ⟨⟨[],hfresh.built⟩,Nat.le_refl 0,rfl,rfl,hticks⟩
  | setBase _ base hempty href ih => exact ih.setBase base hempty href
  | setFeedbackSequenceNumber _ _ ih => exact ih.setFields _ _ _
  | setSenderSsrc _ _ ih => exact ih.setFields _ _ _
  | setMediaSsrc _ _ ih => exact ih.setFields _ _ _
  | addReceivedPacket _ seq t ih => exact ih.addReceivedPacket seq t

end Reached

/-! ### The running time -/

section Times

/-- After every accepted packet the reported deltas add up to its time, to within half a
tick and modulo the wrap period. -/
theorem addReceivedPacket_time {includeLost : Bool} {fb : TransportFeedback}
    (h : Reached true includeLost fb) (seq : BitVec 16) {t : ℤ} (ht : 0 ≤ t) (ht' : t < 2^63)
    (hok : (fb.addReceivedPacket seq t).1 = true) :
    ∃ k e : ℤ, t = (fb.addReceivedPacket seq t).2.getBaseTimeUs +
        kDeltaScaleFactor*ticksSum (fb.addReceivedPacket seq t).2.receivedPackets +
        k*kTimeWrapPeriodUs + e ∧ -125 ≤ e ∧ e ≤ 125 := by
  obtain ⟨syms,hb⟩ := h.legal.built
  have htime : OnTime (fb.addReceivedPacket seq t).2 :=
    h.legal.onTime.addReceivedPacket seq t hb
  unfold OnTime at htime
  rw [← htime]
  exact hb.accepted_time h.legal.timestamps h.legal.ticks ht ht' (Prod.ext hok rfl)

/-- Three packets, one of them lost and the last one earlier than the one before, behind a
reference time that is no multiple of a base tick. -/
def threePackets : TransportFeedback :=
  let fb := ({ includeTimestamps := true, includeLost := true } : TransportFeedback).setBase 7 66000
  ((fb.addReceivedPacket 7 130300).2.addReceivedPacket 8 131125).2.addReceivedPacket 10 200010 |>.2

theorem reached_threePackets : Reached true true threePackets :=
  ((((Reached.constructed : Reached true true _).setBase 7 rfl (by decide)).addReceivedPacket 7
    130300).addReceivedPacket 8 131125).addReceivedPacket 10 200010

theorem addReceivedPacket_time_threePackets :
    ∃ k e : ℤ, (199990 : ℤ) = (threePackets.addReceivedPacket 12 199990).2.getBaseTimeUs +
        kDeltaScaleFactor*ticksSum (threePackets.addReceivedPacket 12 199990).2.receivedPackets +
        k*kTimeWrapPeriodUs + e ∧ -125 ≤ e ∧ e ≤ 125 :=
  addReceivedPacket_time reached_threePackets 12 (by decide) (by decide) (by decide +kernel)

end Times

/-! ### Refused calls -/

section Refused

/-- The gap before the packet does not fit under the status limit. -/
def Overruns (fb : TransportFeedback) (sequenceNumber : BitVec 16) : Prop :=
  fb.numSeqNo ≠ kMaxReportedPackets ∧
    65535 ≤ fb.numSeqNo.toNat+(sequenceNumber-(fb.baseSeqNo+fb.numSeqNo)).toNat

/-- The delta fits sixteen bits and the packet is behind none reported so far. -/
def Admissible (fb : TransportFeedback) (sequenceNumber : BitVec 16) (timestampUs : ℤ) : Prop :=
  (fb.includeTimestamps = true → -32768 ≤ deltaFull timestampUs fb.lastTimestampUs ∧
      deltaFull timestampUs fb.lastTimestampUs ≤ 32767) ∧
    (sequenceNumber = fb.baseSeqNo+fb.numSeqNo ∨
      seqNumGT sequenceNumber (fb.baseSeqNo+fb.numSeqNo-1) = true)

/-- At seven statuses a chunk the packet stays far below the size limit. -/
theorem Built.sizeBytes_dense {fb : TransportFeedback} {syms : List ℕ} (h : Built fb syms)
    (hdense : Dense fb) : fb.sizeBytes ≤ 160000 := by
  have hsum := sum_le_two_mul h.reports.le_two
  have hs := h.size
  have hc := h.count
  have hlt := fb.numSeqNo.isLt
  unfold Dense at hdense
  simp only [chunkBytes,kTransportFeedbackHeaderSizeBytes] at hs
  split at hs <;> split at hs <;> omega

theorem addDeltaSize_iff {fb : TransportFeedback} {syms : List ℕ} {d : ℕ} (h : Built fb syms)
    (hdense : Dense fb) (hd : d ≤ 2) :
    (∃ fb', fb.addDeltaSize d = some fb') ↔ fb.numSeqNo ≠ kMaxReportedPackets := by
  constructor
  · intro hsome
    obtain ⟨fb',ha⟩ := hsome
    exact (addDeltaSize_cases ha).1
  · intro hn
    have hsize := h.sizeBytes_dense hdense
    exact addDeltaSize_isSome hn (by simp only [kMaxSizeBytes]; omega)

/-- The loop over the missing packets stops at the status limit. -/
theorem addMissing_limit {n : ℕ} (next : BitVec 16) {fb : TransportFeedback} {syms : List ℕ}
    (h : Built fb syms) (hdense : Dense fb) :
    ((addMissing n next fb).1 = true ↔ fb.numSeqNo.toNat+n ≤ 65535) ∧
      (addMissing n next fb).2.numSeqNo.toNat = min (fb.numSeqNo.toNat+n) 65535 := by
  have hlt := fb.numSeqNo.isLt
  induction n generalizing next fb syms with
  | zero =>
      rw [addMissing]
      simp only [true_iff]
      omega
  | succ n ih =>
      by_cases hn : fb.numSeqNo = kMaxReportedPackets
      · have hnone : fb.addDeltaSize 0 = none := by
          unfold TransportFeedback.addDeltaSize
          rw [if_pos hn]
        have hnat : fb.numSeqNo.toNat = 65535 := by rw [hn]; rfl
        rw [addMissing,hnone]
        simp only [Bool.false_eq_true,false_iff]
        omega
      · obtain ⟨g,hg⟩ := (addDeltaSize_iff h hdense (Nat.zero_le 2)).mpr hn
        have hone := addMissing_spec (n := 1) next h Prod.mk.eta.symm
        obtain ⟨_,_,_,k,_,hb,_⟩ := hone
        have hd : Dense (addMissing 1 next fb).2 := hdense.addMissing next
        have hsucc := numSeqNo_add_one hn
        obtain ⟨_,_,_,_,hgeq,_⟩ := addDeltaSize_cases hg
        have hnum : g.numSeqNo.toNat = fb.numSeqNo.toNat+1 := by rw [hgeq,← hsucc]
        simp only [addMissing,hg] at hb hd ⊢
        have hih := ih (next+1) hb hd (by simp only [hnum]; omega)
        simp only [hnum] at hih
        rw [hih.1,hih.2]
        omega

theorem addDeltaSize_full {fb : TransportFeedback} (d : ℕ)
    (hfull : fb.numSeqNo = kMaxReportedPackets) : fb.addDeltaSize d = none := by
  unfold TransportFeedback.addDeltaSize
  rw [if_pos hfull]

theorem addNext_full {fb : TransportFeedback} (seq delta : BitVec 16)
    (hfull : fb.numSeqNo = kMaxReportedPackets) : fb.addNext seq delta = (false,fb) := by
  unfold TransportFeedback.addNext
  rw [addDeltaSize_full _ hfull]

theorem addNext_accepts {fb : TransportFeedback} {syms : List ℕ} (seq delta : BitVec 16)
    (h : Built fb syms) (hdense : Dense fb) (hn : fb.numSeqNo ≠ kMaxReportedPackets) :
    (fb.addNext seq delta).1 = true := by
  have hd := deltaSizeOf_range delta
  obtain ⟨g,hg⟩ := (addDeltaSize_iff h hdense (d := deltaSizeOf delta) (by omega)).mpr hn
  unfold TransportFeedback.addNext
  rw [hg]

/-- What is left of a call that passes its first two checks. -/
theorem addReceivedPacket_admissible {fb : TransportFeedback} {seq : BitVec 16} {t : ℤ}
    (h : Admissible fb seq t) :
    ∃ delta : BitVec 16, fb.addReceivedPacket seq t =
      if seq = fb.baseSeqNo+fb.numSeqNo then fb.addNext seq delta
      else
        match addMissing (seq-(fb.baseSeqNo+fb.numSeqNo)).toNat (fb.baseSeqNo+fb.numSeqNo) fb with
        | (false,fb') => (false,fb')
        | (true,fb') => fb'.addNext seq delta := by
  obtain ⟨hdelta,hseq⟩ := h
  unfold TransportFeedback.addReceivedPacket
  generalize hfull : (if fb.includeTimestamps then deltaFull t fb.lastTimestampUs else 0) = full
  have hfits : -32768 ≤ full ∧ full ≤ 32767 := by
    rw [← hfull]
    split
    · exact hdelta ‹_›
    · decide
  refine ⟨BitVec.ofInt 16 full,?_⟩
  simp only
  rw [if_neg (by rw [ne_eq,not_not,toInt_ofInt16_iff]; exact hfits)]
  split
  · rfl
  · rename_i hne
    have hahead : ¬(!seqNumGT seq (fb.baseSeqNo+fb.numSeqNo-1)) = true := by
      rw [hseq.resolve_left hne]
      decide
    exact if_neg hahead

theorem addReceivedPacket_inadmissible {fb : TransportFeedback} {seq : BitVec 16} {t : ℤ}
    (h : ¬Admissible fb seq t) : fb.addReceivedPacket seq t = (false,fb) := by
  unfold TransportFeedback.addReceivedPacket
  generalize hfull : (if fb.includeTimestamps then deltaFull t fb.lastTimestampUs else 0) = full
  simp only
  split
  · rfl
  · rename_i hfits
    rw [ne_eq,not_not,toInt_ofInt16_iff] at hfits
    have hseq : ¬(seq = fb.baseSeqNo+fb.numSeqNo ∨
        seqNumGT seq (fb.baseSeqNo+fb.numSeqNo-1) = true) := by
      intro hseq
      apply h
      refine ⟨?_,hseq⟩
      intro hts
      rw [if_pos hts] at hfull
      rw [hfull]
      exact hfits
    rw [not_or] at hseq
    rw [if_neg hseq.1,if_pos (by simpa using hseq.2)]

theorem gap_pos {fb : TransportFeedback} {seq : BitVec 16}
    (hne : seq ≠ fb.baseSeqNo+fb.numSeqNo) :
    0 < (seq-(fb.baseSeqNo+fb.numSeqNo)).toNat := by
  apply Nat.pos_of_ne_zero
  intro h0
  apply hne
  generalize fb.baseSeqNo+fb.numSeqNo = next at h0 ⊢
  bv_omega

/-- A full feedback refuses every packet before it touches anything. -/
theorem addReceivedPacket_full {fb : TransportFeedback} (seq : BitVec 16) (t : ℤ)
    (hfull : fb.numSeqNo = kMaxReportedPackets) : fb.addReceivedPacket seq t = (false,fb) := by
  by_cases h : Admissible fb seq t
  · obtain ⟨delta,ha⟩ := addReceivedPacket_admissible h
    rw [ha]
    split
    · exact addNext_full seq delta hfull
    · rename_i hne
      obtain ⟨n,hn⟩ := Nat.exists_eq_succ_of_ne_zero (gap_pos hne).ne'
      rw [hn,addMissing,addDeltaSize_full 0 hfull]
  · exact addReceivedPacket_inadmissible h

/-- An overrun fills the feedback with lost packets and then refuses. -/
theorem addReceivedPacket_overruns {fb : TransportFeedback} {syms : List ℕ} {seq : BitVec 16}
    {t : ℤ} (hb : Built fb syms) (hdense : Dense fb) (h : Admissible fb seq t)
    (hover : Overruns fb seq) :
    (fb.addReceivedPacket seq t).1 = false ∧
      (fb.addReceivedPacket seq t).2.numSeqNo = kMaxReportedPackets := by
  obtain ⟨delta,ha⟩ := addReceivedPacket_admissible h
  have hlt := fb.numSeqNo.isLt
  have hnat : fb.numSeqNo.toNat ≠ 65535 := fun e => hover.1 (BitVec.eq_of_toNat_eq e)
  have hgap := hover.2
  have hne : seq ≠ fb.baseSeqNo+fb.numSeqNo := by
    intro e
    rw [e,BitVec.sub_self] at hgap
    simp only [BitVec.toNat_zero,Nat.add_zero] at hgap
    omega
  have hlimit := addMissing_limit (n := (seq-(fb.baseSeqNo+fb.numSeqNo)).toNat)
    (fb.baseSeqNo+fb.numSeqNo) hb hdense
  rw [ha,if_neg hne]
  generalize addMissing _ _ fb = r at hlimit ⊢
  obtain ⟨ok,g⟩ := r
  have hg : g.numSeqNo = kMaxReportedPackets := by
    apply BitVec.eq_of_toNat_eq
    have hmin := hlimit.2
    rw [Nat.min_eq_right hgap] at hmin
    exact hmin
  cases ok with
  | false => exact ⟨rfl,hg⟩
  | true =>
      simp only
      rw [addNext_full _ _ hg]
      exact ⟨rfl,hg⟩

/-- Everywhere else an admissible packet is accepted. -/
theorem addReceivedPacket_fits {fb : TransportFeedback} {syms : List ℕ} {seq : BitVec 16}
    {t : ℤ} (hb : Built fb syms) (hdense : Dense fb) (h : Admissible fb seq t)
    (hn : fb.numSeqNo ≠ kMaxReportedPackets) (hover : ¬Overruns fb seq) :
    (fb.addReceivedPacket seq t).1 = true := by
  obtain ⟨delta,ha⟩ := addReceivedPacket_admissible h
  have hgap : fb.numSeqNo.toNat+(seq-(fb.baseSeqNo+fb.numSeqNo)).toNat < 65535 := by
    by_contra hge
    exact hover ⟨hn,by omega⟩
  rw [ha]
  split
  · exact addNext_accepts _ _ hb hdense hn
  · have hlimit := addMissing_limit (n := (seq-(fb.baseSeqNo+fb.numSeqNo)).toNat)
      (fb.baseSeqNo+fb.numSeqNo) hb hdense
    have hd : Dense (addMissing (seq-(fb.baseSeqNo+fb.numSeqNo)).toNat
        (fb.baseSeqNo+fb.numSeqNo) fb).2 := hdense.addMissing _
    obtain ⟨_,_,_,k,_,hb',_⟩ := addMissing_spec (n := (seq-(fb.baseSeqNo+fb.numSeqNo)).toNat)
      (fb.baseSeqNo+fb.numSeqNo) hb Prod.mk.eta.symm
    have hok := hlimit.1.mpr (by omega)
    have hcount := hlimit.2
    generalize addMissing _ _ fb = r at hok hcount hd hb' ⊢
    obtain ⟨ok,g⟩ := r
    simp only at hok hcount hd hb'
    subst hok
    apply addNext_accepts _ _ hb' hd
    intro e
    rw [e,Nat.min_eq_left (by omega)] at hcount
    have hmax : (kMaxReportedPackets).toNat = 65535 := rfl
    omega

/-- A refused call leaves the feedback as it was, unless an admissible packet lies behind a
gap that runs into the status limit. -/
theorem refused_unchanged_iff {includeTimestamps includeLost : Bool} {fb : TransportFeedback}
    (h : Reached includeTimestamps includeLost fb) (seq : BitVec 16) (t : ℤ) :
    ((fb.addReceivedPacket seq t).1 = false → (fb.addReceivedPacket seq t).2 = fb) ↔
      ¬(Admissible fb seq t ∧ Overruns fb seq) := by
  obtain ⟨syms,hb⟩ := h.legal.built
  have hdense := h.legal.dense
  constructor
  · intro hsame hboth
    obtain ⟨hrefused,hnum⟩ := addReceivedPacket_overruns hb hdense hboth.1 hboth.2
    rw [hsame hrefused] at hnum
    exact hboth.2.1 hnum
  · intro hnot hrefused
    by_cases hadm : Admissible fb seq t
    · have hover : ¬Overruns fb seq := fun hover => hnot ⟨hadm,hover⟩
      by_cases hn : fb.numSeqNo = kMaxReportedPackets
      · rw [addReceivedPacket_full seq t hn]
      · rw [addReceivedPacket_fits hb hdense hadm hn hover] at hrefused
        cases hrefused
    · rw [addReceivedPacket_inadmissible hadm]

/-- A packet that has been reported already, refused behind others. -/
theorem refused_unchanged_threePackets :
    ((threePackets.addReceivedPacket 8 200000).1 = false →
        (threePackets.addReceivedPacket 8 200000).2 = threePackets) ↔
      ¬(Admissible threePackets 8 200000 ∧ Overruns threePackets 8) :=
  refused_unchanged_iff reached_threePackets 8 200000

/-- A packet at the running time, inside the limits. -/
theorem addReceivedPacket_advances {includeLost : Bool} {fb : TransportFeedback}
    (h : Reached true includeLost fb) (seq : BitVec 16) (htime : fb.lastTimestampUs = 0)
    (hseq : seqNumGT seq (fb.baseSeqNo+fb.numSeqNo-1) = true)
    (hlimit : fb.numSeqNo.toNat+(seq-(fb.baseSeqNo+fb.numSeqNo)).toNat < 65535) :
    (fb.addReceivedPacket seq 0).2.numSeqNo =
        fb.numSeqNo+(seq-(fb.baseSeqNo+fb.numSeqNo))+1 ∧
      (fb.addReceivedPacket seq 0).2.baseSeqNo = fb.baseSeqNo ∧
      (fb.addReceivedPacket seq 0).2.lastTimestampUs = 0 := by
  obtain ⟨syms,hb⟩ := h.legal.built
  have hzero : deltaFull 0 0 = 0 := by decide
  have hadm : Admissible fb seq 0 := by
    refine ⟨fun _ => ?_,Or.inr hseq⟩
    rw [htime,hzero]
    decide
  have hmax : fb.numSeqNo ≠ kMaxReportedPackets := by
    intro e
    rw [e,show (kMaxReportedPackets).toNat = 65535 from rfl] at hlimit
    omega
  have hok := addReceivedPacket_fits hb h.legal.dense hadm hmax
    (fun hover => absurd hover.2 (by omega))
  obtain ⟨hh,_,hyes⟩ := addReceivedPacket_spec hb
    (Prod.mk.eta (p := fb.addReceivedPacket seq 0)).symm
  obtain ⟨delta,hdelta,_,hlast,hbuilt⟩ := hyes hok
  rw [h.legal.timestamps,if_pos rfl,htime,hzero] at hdelta
  refine ⟨?_,hh.2.2.2.1,?_⟩
  · have hcount := hbuilt.count
    rw [List.length_append,List.length_append,List.length_replicate,List.length_singleton,
      hb.count] at hcount
    apply BitVec.eq_of_toNat_eq
    have hone : (1 : BitVec 16).toNat = 1 := rfl
    rw [← hcount,BitVec.toNat_add,BitVec.toNat_add,hone]
    omega
  · rw [hlast,hdelta,htime]
    rfl

/-- 65533 statuses, then a packet behind a gap of four: two lost packets join before the
third hits the limit. -/
theorem refused_changes :
    ¬ ∀ (includeTimestamps includeLost : Bool) (fb : TransportFeedback),
      Reached includeTimestamps includeLost fb → ∀ (seq : BitVec 16) (t : ℤ),
        (fb.addReceivedPacket seq t).1 = false → (fb.addReceivedPacket seq t).2 = fb := by
  intro h
  have h₀ : Reached true true _ := Reached.constructed
  obtain ⟨hn₁,hb₁,ht₁⟩ := addReceivedPacket_advances h₀ 32766 rfl (by decide) (by decide)
  have h₁ := h₀.addReceivedPacket 32766 0
  obtain ⟨hn₂,hb₂,ht₂⟩ := addReceivedPacket_advances h₁ 65532 ht₁
    (by rw [hn₁,hb₁]; decide) (by rw [hn₁,hb₁]; decide)
  have h₂ := h₁.addReceivedPacket 65532 0
  rw [hn₁,hb₁] at hn₂
  rw [hb₁] at hb₂
  generalize TransportFeedback.addReceivedPacket (TransportFeedback.addReceivedPacket _ _ _).2
    _ _ = r at hn₂ hb₂ ht₂ h₂
  obtain ⟨syms,hb⟩ := h₂.legal.built
  have hadm : Admissible r.2 1 0 := by
    refine ⟨fun _ => ?_,Or.inr ?_⟩
    · rw [ht₂]
      decide
    · rw [hn₂,hb₂]
      decide
  have hover : Overruns r.2 1 := by
    unfold Overruns
    rw [hn₂,hb₂]
    decide
  obtain ⟨hrefused,hnum⟩ := addReceivedPacket_overruns hb h₂.legal.dense hadm hover
  rw [h true true r.2 h₂ 1 0 hrefused,hn₂] at hnum
  revert hnum
  decide

end Refused
end Ylrtc.FeedbackBuilder
