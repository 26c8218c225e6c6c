import Ylrtc.Rtcp.FeedbackParsed

/-!
# `IsConsistent` of a transport feedback

`IsConsistent` of `rtp_rtcp/transport_feedback.cpp`, which decodes the chunks again and
compares statuses, packets, running time and size. Its own base time is a product of two
`int`s and overflows for the upper half of the 24-bit range.
-/
namespace Ylrtc.FeedbackWire
open ByteBuffer CursorParser FeedbackBuilder MachineInt RtcpHeader StatusChunk TransportFeedback

section Check

/-- The loop over the delta sizes: the packets it does not reach, the time and the size. -/
def checkPackets (includeTimestamps : Bool) :
    List ℕ → BitVec 16 → List ReceivedPacket → ℤ → ℕ → Option (List ReceivedPacket × ℤ × ℕ)
  | [],_,packets,timestampUs,packetSize => some (packets,timestampUs,packetSize)
  | deltaSize::deltaSizes,seqNo,packets,timestampUs,packetSize =>
      let packetSize := if includeTimestamps then packetSize+deltaSize else packetSize
      if 0 < deltaSize then
        match packets with
        | [] => none
        | packet::packets =>
            if packet.sequenceNumber ≠ seqNo then none
            else if deltaSize = 1 ∧ (packet.deltaTicks.toInt < 0 ∨ 0xff < packet.deltaTicks.toInt)
            then none
            else checkPackets includeTimestamps deltaSizes (seqNo+1) packets
              (timestampUs+packet.deltaUs) packetSize
      else checkPackets includeTimestamps deltaSizes (seqNo+1) packets timestampUs packetSize

/-- The delta sizes of all chunks, each emitted chunk decoded on its own. -/
def statuses (fb : TransportFeedback) : List ℕ :=
  fb.encodedChunks.flatMap (fun chunk => symbols chunk kMaxReportedPackets.toNat) ++
    if fb.lastChunk.empty then [] else fb.lastChunk.contents

def isConsistent (fb : TransportFeedback) : Bool :=
  let packetSize := kTransportFeedbackHeaderSizeBytes+kChunkSizeBytes*fb.encodedChunks.length+
    if fb.lastChunk.empty then 0 else kChunkSizeBytes
  if fb.numSeqNo.toNat ≠ (statuses fb).length then false
  else
    let timestampUs := int32 (fb.baseTimeTicks*kBaseScaleFactor)
    match checkPackets fb.includeTimestamps (statuses fb) fb.baseSeqNo fb.receivedPackets
        timestampUs packetSize with
    | none => false
    | some (packets,timestampUs,packetSize) =>
        packets.isEmpty && decide (timestampUs = fb.lastTimestampUs) &&
          decide (fb.sizeBytes = packetSize)

/-- Packets that go with a status list, each one-byte delta in its range. -/
inductive Carries : BitVec 16 → List ℕ → List ReceivedPacket → Prop
  | nil (s : BitVec 16) : Carries s [] []
  | lost {s : BitVec 16} {ds : List ℕ} {rs : List ReceivedPacket} :
      Carries (s+1) ds rs → Carries s (0::ds) rs
  | received {s delta : BitVec 16} {d : ℕ} {ds : List ℕ} {rs : List ReceivedPacket} : 0 < d →
      (d = 1 → 0 ≤ delta.toInt ∧ delta.toInt ≤ 0xff) → Carries (s+1) ds rs →
      Carries s (d::ds) (.withDelta s delta::rs)

theorem checkPackets_of_carries {s : BitVec 16} {ds : List ℕ} {rs : List ReceivedPacket}
    (h : Carries s ds rs) (includeTimestamps : Bool) (timestampUs : ℤ) (packetSize : ℕ) :
    checkPackets includeTimestamps ds s rs timestampUs packetSize =
      some ([],timestampUs + kDeltaScaleFactor*ticksSum rs,
        packetSize + if includeTimestamps then ds.sum else 0) := by
  induction h generalizing timestampUs packetSize with
  | nil => simp [checkPackets]
  | lost _ ih =>
      unfold checkPackets
      simp only [Nat.lt_irrefl,if_false,ih,List.sum_cons,Nat.zero_add,Nat.add_zero,ite_self]
  | @received s delta d ds rs hpos hbyte _ ih =>
      have hrange : ¬(d = 1 ∧ (delta.toInt < 0 ∨ 0xff < delta.toInt)) := by
        intro hbad
        have := hbyte hbad.1
        omega
      have htime : timestampUs + delta.toInt*kDeltaScaleFactor + kDeltaScaleFactor*ticksSum rs =
          timestampUs + kDeltaScaleFactor*ticksSum (.withDelta s delta::rs) := by
        simp only [ticksSum,List.map_cons,List.sum_cons]
        ring
      unfold checkPackets
      simp only [hpos,if_true,ne_eq,not_true_eq_false,if_false,hrange,ih,ReceivedPacket.deltaUs,
        htime,List.sum_cons,Option.some.injEq,Prod.mk.injEq,true_and]
      split <;> omega

/-- The statuses, packets and count of an object go together. -/
structure Represents (fb : TransportFeedback) (syms : List ℕ) : Prop where
  statuses : statuses fb = syms
  count : syms.length = fb.numSeqNo.toNat
  carries : Carries fb.baseSeqNo syms fb.receivedPackets

theorem isConsistent_of_represents {fb : TransportFeedback} {syms : List ℕ}
    (h : Represents fb syms) :
    isConsistent fb = true ↔
      int32 (fb.baseTimeTicks*kBaseScaleFactor) + kDeltaScaleFactor*ticksSum fb.receivedPackets =
          fb.lastTimestampUs ∧
        fb.sizeBytes = kTransportFeedbackHeaderSizeBytes + chunkBytes fb +
          if fb.includeTimestamps then syms.sum else 0 := by
  have hchunks : kTransportFeedbackHeaderSizeBytes+kChunkSizeBytes*fb.encodedChunks.length+
      (if fb.lastChunk.empty then 0 else kChunkSizeBytes) =
        kTransportFeedbackHeaderSizeBytes+chunkBytes fb := by
    simp only [chunkBytes,LastChunk.empty,beq_iff_eq,kChunkSizeBytes,Nat.add_assoc]
  unfold isConsistent
  simp only [h.statuses,hchunks]
  rw [if_neg (by rw [h.count]; simp),checkPackets_of_carries h.carries]
  simp only [List.isEmpty_nil,Bool.true_and,Bool.and_eq_true,decide_eq_true_eq]

/-- The product of two `int`s is the base time up to 33554 ticks, 2147 seconds. -/
theorem int32_base_iff {ticks : ℤ} (h : 0 ≤ ticks ∧ ticks < 2^24) :
    int32 (ticks*kBaseScaleFactor) = ticks*kBaseScaleFactor ↔ ticks ≤ 33554 := by
  unfold int32
  simp only [kBaseScaleFactor]
  rw [Int.bmod_def]
  split <;> omega

end Check

section Built

theorem symbols_of_full {chunks : List Chunk} {syms : List ℕ} (h : Full chunks syms) {n : ℕ}
    (hn : syms.length ≤ n) : chunks.flatMap (fun chunk => symbols chunk n) = syms := by
  induction h with
  | nil => rfl
  | cons _ hread _ ih =>
      rw [List.length_append] at hn
      rw [List.flatMap_cons,hread n (by omega),ih (by omega)]

theorem carries_of_reports {s : BitVec 16} {ds : List ℕ} {rs : List ReceivedPacket}
    (h : Reports s ds rs) : Carries s ds rs := by
  induction h with
  | nil s => exact .nil s
  | lost _ ih => exact .lost ih
  | @received s delta ds rs _ ih =>
      have hpos := deltaSizeOf_range delta
      apply Carries.received (by omega) _ ih
      intro hone
      by_contra hrange
      have : deltaSizeOf delta = 2 := if_neg hrange
      omega

theorem statuses_of_built {fb : TransportFeedback} {syms : List ℕ} (h : Built fb syms) :
    statuses fb = syms := by
  obtain ⟨emitted,hfull,hsyms⟩ := h.split
  have hcount := h.count
  have hlt := fb.numSeqNo.isLt
  have hmax : kMaxReportedPackets.toNat = 65535 := rfl
  have hlen := congrArg List.length hsyms
  rw [List.length_append] at hlen
  unfold statuses
  rw [symbols_of_full hfull (by omega),hsyms]
  congr 1
  split
  · rename_i hempty
    have hzero := h.pending.contents_length
    simp only [LastChunk.empty,beq_iff_eq] at hempty
    rw [hempty] at hzero
    exact (List.length_eq_zero_iff.mp hzero).symm
  · rfl

/-- Every feedback its user can hold is consistent up to a base time of 33554 ticks. -/
theorem isConsistent_reached {includeTimestamps includeLost : Bool} {fb : TransportFeedback}
    (h : Reached includeTimestamps includeLost fb) :
    isConsistent fb = true ↔ fb.baseTimeTicks ≤ 33554 := by
  obtain ⟨syms,hb⟩ := h.legal.built
  have htime := h.legal.onTime
  unfold OnTime at htime
  rw [isConsistent_of_represents ⟨statuses_of_built hb,hb.count,carries_of_reports hb.reports⟩,
    htime,← int32_base_iff h.legal.ticks,getBaseTimeUs]
  constructor
  · intro hcheck
    exact add_right_cancel hcheck.1
  · intro hbase
    rw [hbase]
    exact ⟨rfl,hb.size⟩

end Built
section Parsed

theorem carries_deltasAt (bytes : ℕ → Byte) {ds : List ℕ} (hds : ∀ d ∈ ds, d ≤ 2)
    (s : BitVec 16) (i : ℕ) : Carries s ds (deltasAt bytes ds s i) := by
  induction ds generalizing s i with
  | nil => exact .nil s
  | cons d ds ih =>
      simp only [List.mem_cons,forall_eq_or_imp] at hds
      match d,hds.1 with
      | 0,_ => exact .lost (ih hds.2 (s+1) i)
      | 1,_ =>
          apply Carries.received Nat.one_pos _ (ih hds.2 (s+1) (i+1))
          intro _
          have hlt := (bytes i).isLt
          have hcond := BitVec.toInt_eq_toNat_cond ((bytes i).setWidth 16)
          have hnat : ((bytes i).setWidth 16).toNat = (bytes i).toNat :=
            BitVec.toNat_setWidth_of_le (by omega)
          rw [hnat] at hcond
          split at hcond <;> omega
      | 2,_ =>
          apply Carries.received Nat.two_pos _ (ih hds.2 (s+1) (i+2))
          intro hone
          cases hone

theorem carries_withoutDeltas (ds : List ℕ) (s : BitVec 16) :
    Carries s ds (withoutDeltas ds s) := by
  induction ds generalizing s with
  | nil => exact .nil s
  | cons d ds ih =>
      cases d with
      | zero => exact .lost (ih (s+1))
      | succ d =>
          apply Carries.received (Nat.succ_pos d) _ (ih (s+1))
          intro _
          decide

theorem sum_eq_zero_iff {s : BitVec 16} {ds : List ℕ} {rs : List ReceivedPacket}
    (h : Reports s ds rs) : ds.sum = 0 ↔ rs = [] := by
  induction h with
  | nil => simp
  | lost _ ih => rw [List.sum_cons,Nat.zero_add,ih]
  | @received s delta ds rs _ _ =>
      have := deltaSizeOf_range delta
      rw [List.sum_cons]
      constructor
      · intro h0
        omega
      · intro h0
        cases h0

variable {fb : TransportFeedback} {syms : List ℕ}

/-- The chunks of `Parse` stand for the same statuses. -/
theorem statuses_parsed (h : Built fb syms) (hcount : fb.numSeqNo ≠ 0)
    {parsed : TransportFeedback} (hchunks : parsed.encodedChunks = fb.encodedChunks)
    (hlast : parsed.lastChunk = decode fb.lastChunk.encodeLast fb.lastChunk.size) :
    statuses parsed = syms ∧ chunkBytes parsed = 2*(fb.encodedChunks.length+1) := by
  have hne := pending_ne_zero h hcount
  have hcontents : parsed.lastChunk.contents = fb.lastChunk.contents := by
    rw [hlast]
    exact h.pending.encodeLast_symbols
  have hsize : parsed.lastChunk.size ≠ 0 := by
    intro h0
    have hlen := congrArg List.length hcontents
    rw [h.pending.contents_length] at hlen
    have hzero : parsed.lastChunk.contents.length = 0 := by
      unfold LastChunk.contents
      split
      · rw [List.length_replicate,h0]
      · rw [h0,List.take_zero,List.length_nil]
    omega
  have hempty : parsed.lastChunk.empty = false := by
    simp only [LastChunk.empty,beq_eq_false_iff_ne,ne_eq]
    exact hsize
  have hempty' : fb.lastChunk.empty = false := by
    simp only [LastChunk.empty,beq_eq_false_iff_ne,ne_eq]
    exact hne
  constructor
  · rw [← statuses_of_built h]
    unfold statuses
    rw [hchunks,hcontents,hempty,hempty']
  · unfold chunkBytes
    rw [if_neg hsize,hchunks]
    omega

/-- Packets that go with the parsed chunks leave the base time and the size to check. -/
theorem isConsistent_withPackets (h : Built fb syms) (hcount : fb.numSeqNo ≠ 0)
    (hticks : 0 ≤ fb.baseTimeTicks ∧ fb.baseTimeTicks < 2^24) (receiver : TransportFeedback)
    {rs : List ReceivedPacket} (hcarries : Carries fb.baseSeqNo syms rs)
    (all : List ReceivedPacket) (flag : Bool) (bytes : ℕ) :
    isConsistent { withPackets (parsedChunks receiver fb) rs all with
        includeTimestamps := flag, sizeBytes := bytes } = true ↔
      fb.baseTimeTicks ≤ 33554 ∧ bytes = kTransportFeedbackHeaderSizeBytes +
        2*(fb.encodedChunks.length+1) + if flag then syms.sum else 0 := by
  generalize hparsed : ({ withPackets (parsedChunks receiver fb) rs all with
    includeTimestamps := flag, sizeBytes := bytes } : TransportFeedback) = parsed
  have hchunks : parsed.encodedChunks = fb.encodedChunks := by rw [← hparsed]; rfl
  have hlast : parsed.lastChunk = decode fb.lastChunk.encodeLast fb.lastChunk.size := by
    rw [← hparsed]; rfl
  have hreceived : parsed.receivedPackets = rs := by rw [← hparsed]; rfl
  have hbase : parsed.baseSeqNo = fb.baseSeqNo := by rw [← hparsed]; rfl
  have hnum : parsed.numSeqNo = fb.numSeqNo := by rw [← hparsed]; rfl
  have hbaseTicks : parsed.baseTimeTicks = fb.baseTimeTicks := by rw [← hparsed]; rfl
  have htime : parsed.lastTimestampUs =
      fb.baseTimeTicks*kBaseScaleFactor + kDeltaScaleFactor*ticksSum rs := by
    rw [← hparsed]; rfl
  have hflag : parsed.includeTimestamps = flag := by rw [← hparsed]
  have hsize : parsed.sizeBytes = bytes := by rw [← hparsed]
  obtain ⟨hstatuses,hbytes⟩ := statuses_parsed h hcount hchunks hlast
  have hrepresents : Represents parsed syms := by
    refine ⟨hstatuses,?_,?_⟩
    · rw [hnum,h.count]
    · rw [hbase,hreceived]
      exact hcarries
  rw [isConsistent_of_represents hrepresents,hbaseTicks,hreceived,htime,hsize,hbytes,hflag,
    ← int32_base_iff hticks]
  constructor
  · intro hcheck
    exact ⟨add_right_cancel hcheck.1,hcheck.2⟩
  · intro hcheck
    rw [hcheck.1]
    exact ⟨rfl,hcheck.2⟩

/-- A parsed feedback is consistent unless its base time overflows or deltas were counted
by a receiver that has no timestamps. -/
theorem isConsistent_parsed {includeTimestamps includeLost : Bool}
    (h : Reached includeTimestamps includeLost fb) (hb : Built fb syms)
    (hcount : fb.numSeqNo ≠ 0) (receiver : TransportFeedback) (bytes : ℕ → Byte)
    (all : List ReceivedPacket) :
    isConsistent (parsedFeedback receiver fb syms bytes all) = true ↔
      fb.baseTimeTicks ≤ 33554 ∧
        (TakesDeltas fb syms → receiver.includeTimestamps = true ∨ fb.receivedPackets = []) := by
  have hsum := sum_eq_zero_iff hb.reports
  unfold parsedFeedback
  by_cases htakes : TakesDeltas fb syms
  · rw [if_pos htakes]
    have hiff := isConsistent_withPackets hb hcount h.legal.ticks receiver
      (carries_deltasAt bytes hb.reports.le_two fb.baseSeqNo
        (4+(16+2*(fb.encodedChunks.length+1)))) all receiver.includeTimestamps
      (kHeaderLength+(16+2*(fb.encodedChunks.length+1)+syms.sum))
    refine hiff.trans (and_congr_right fun _ => ?_)
    rw [← hsum]
    simp only [htakes,true_implies,kHeaderLength,kTransportFeedbackHeaderSizeBytes]
    cases receiver.includeTimestamps with
    | true =>
        simp only [if_true,true_or,iff_true]
        omega
    | false =>
        simp only [Bool.false_eq_true,if_false,false_or]
        omega
  · rw [if_neg htakes]
    have hiff := isConsistent_withPackets hb hcount h.legal.ticks receiver
      (carries_withoutDeltas syms fb.baseSeqNo) all false
      (kHeaderLength+(16+2*(fb.encodedChunks.length+1)))
    refine hiff.trans (and_congr_right fun _ => ?_)
    simp only [htakes,false_implies,iff_true,Bool.false_eq_true,if_false,kHeaderLength,
      kTransportFeedbackHeaderSizeBytes]
    omega

/-- The deltas of a feedback that carries them always fit. -/
theorem takesDeltas_of_timestamps (hb : Built fb syms) (hcount : fb.numSeqNo ≠ 0)
    (hts : fb.includeTimestamps = true) : TakesDeltas fb syms := by
  have hindex := deltas_index hb hcount
  have hspec := size_spec fb
  rw [hts,if_pos rfl] at hindex
  unfold TakesDeltas
  omega

/-- The receiver has timestamps, or the feedback is not read as one with deltas. -/
def CountsDeltas (receiver fb : TransportFeedback) : Prop :=
  receiver.includeTimestamps = true ∨ fb.receivedPackets = [] ∨
    (fb.includeTimestamps = false ∧ paddingLength fb < fb.receivedPackets.length)

theorem countsDeltas_iff {includeTimestamps includeLost : Bool}
    (h : Reached includeTimestamps includeLost fb) (hb : Built fb syms)
    (hcount : fb.numSeqNo ≠ 0) (receiver : TransportFeedback) :
    (TakesDeltas fb syms → receiver.includeTimestamps = true ∨ fb.receivedPackets = []) ↔
      CountsDeltas receiver fb := by
  have hts := h.legal.timestamps
  unfold CountsDeltas
  cases includeTimestamps with
  | true =>
      have htakes := takesDeltas_of_timestamps hb hcount hts
      simp only [htakes,true_implies,hts,Bool.true_eq_false,false_and,or_false]
  | false =>
      rw [takesDeltas_iff h hb hcount,← or_assoc,hts]
      simp only [true_and]
      constructor
      · intro himp
        by_cases hle : fb.receivedPackets.length ≤ paddingLength fb
        · exact Or.inl (himp hle)
        · exact Or.inr (by omega)
      · intro hor hle
        cases hor with
        | inl hor => exact hor
        | inr hlt => omega

/-- An empty feedback is never parsed. -/
theorem parse_empty {includeTimestamps includeLost : Bool}
    (h : Reached includeTimestamps includeLost fb) (hb : Built fb syms)
    (hcount : fb.numSeqNo = 0) (receiver : TransportFeedback) {b : Region}
    (hbytes : b.Holds 0 (wireBytes fb)) :
    ∃ c, (parse receiver).run b ⟨0,[]⟩ = (none,c) := by
  obtain ⟨t,ht⟩ := parse_fixed hb h.legal.ticks (sizeBytes_le_max h hb) receiver hbytes
  refine ⟨⟨12,t⟩,?_⟩
  rw [ht,Parser.guard,if_neg (by rw [ne_eq,not_not]; exact hcount)]
  rfl

/-- `IsConsistent` holds after any calls exactly when the base time is at most 33554 ticks,
and after a successful parse of a serialized feedback when besides no deltas are counted by
a receiver without timestamps. -/
theorem isConsistent_iff {includeTimestamps includeLost : Bool}
    (h : Reached includeTimestamps includeLost fb) :
    (isConsistent fb = true ↔ fb.baseTimeTicks ≤ 33554) ∧
      ∀ (receiver parsed : TransportFeedback) (buffer bytes : List Byte) (n : ℕ)
        (behind : ℕ → Byte) (hlt : bytes.length < 2^63) (c : Cursor),
        buffer.length = size fb → serialize fb (.on buffer) = some ⟨bytes,n⟩ →
        (parse receiver).run (Region.ofList bytes behind hlt) ⟨0,[]⟩ = (some parsed,c) →
        (isConsistent parsed = true ↔ fb.baseTimeTicks ≤ 33554 ∧ CountsDeltas receiver fb) := by
  refine ⟨isConsistent_reached h,?_⟩
  intro receiver parsed buffer bytes n behind hlt c hbuffer hser hparse
  obtain ⟨syms,hb⟩ := h.legal.built
  rw [serialize_built hb buffer hbuffer] at hser
  simp only [Option.some.injEq,ByteWriter.mk.injEq] at hser
  obtain ⟨rfl,_⟩ := hser
  have hholds := Region.ofList_holds (wireBytes fb) behind hlt
  by_cases hcount : fb.numSeqNo = 0
  · obtain ⟨d,hd⟩ := parse_empty h hb hcount receiver hholds
    rw [hparse] at hd
    simp at hd
  · obtain ⟨t,all,ht⟩ := parse_run hb hcount h.legal.ticks (sizeBytes_le_max h hb) receiver
      (wireBytes_length hb) hholds
    rw [hparse] at ht
    simp only [Prod.mk.injEq,Option.some.injEq] at ht
    rw [ht.1,isConsistent_parsed h hb hcount,countsDeltas_iff h hb hcount]

theorem isConsistent_iff_one :
    (isConsistent reportsOne = true ↔ reportsOne.baseTimeTicks ≤ 33554) ∧
      ∃ (hlt : (wireBytes reportsOne).length < 2^63) (parsed : TransportFeedback) (c : Cursor),
        (parse { includeTimestamps := true, includeLost := true }).run
          (Region.ofList (wireBytes reportsOne) (fun _ => 0) hlt) ⟨0,[]⟩ = (some parsed,c) ∧
        (isConsistent parsed = true ↔ reportsOne.baseTimeTicks ≤ 33554 ∧
          CountsDeltas { includeTimestamps := true, includeLost := true } reportsOne) := by
  have h := reportsOne_reached
  obtain ⟨syms,hb⟩ := h.legal.built
  have hmax := sizeBytes_le_max h hb
  have hlt := wireBytes_lt hb hmax
  obtain ⟨t,all,ht⟩ := parse_run hb (by decide) h.legal.ticks hmax
    { includeTimestamps := true, includeLost := true } (wireBytes_length hb)
    (Region.ofList_holds (wireBytes reportsOne) (fun _ => 0) hlt)
  have hboth := isConsistent_iff reportsOne_reached
  exact ⟨hboth.1,hlt,_,_,ht,hboth.2 _ _ (List.replicate 24 0) _ _ _ hlt _ rfl
    (serialize_built hb _ rfl) ht⟩

/-- A reference time of 2147.52 s: `base_time_ticks_ * kBaseScaleFactor` is negative. -/
theorem not_always_consistent :
    ¬ ∀ (includeTimestamps includeLost : Bool) (fb : TransportFeedback),
      Reached includeTimestamps includeLost fb → isConsistent fb = true := by
  intro h
  have hcheck := h true true _
    (Reached.constructed.setBase 0 rfl (show (0 : ℤ) ≤ 2147520000 by decide))
  revert hcheck
  decide

end Parsed
end Ylrtc.FeedbackWire
