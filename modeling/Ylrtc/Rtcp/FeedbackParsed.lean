import Ylrtc.Rtcp.FeedbackLimits

/-!
# What `Parse` makes of a serialized feedback

Whether deltas are in the packet is not encoded. `Parse` of
`rtp_rtcp/transport_feedback.cpp` takes them to be there when they fit into what is left of
the declared length, which includes the padding. The result is given here for every receiver
and every feedback, with and without timestamps.
-/
namespace Ylrtc.FeedbackWire
open ByteBuffer CursorParser FeedbackBuilder RtcpHeader StatusChunk TransportFeedback

section Deltas

/-- The packets that the delta loop finds in the bytes from offset `i` on. -/
def deltasAt (bytes : ℕ → Byte) : List ℕ → BitVec 16 → ℕ → List ReceivedPacket
  | 1::ds,s,i => .withDelta s ((bytes i).setWidth 16) :: deltasAt bytes ds (s+1) (i+1)
  | 2::ds,s,i =>
      .withDelta s (loadUInt16BE fun j => bytes (i+j)) :: deltasAt bytes ds (s+1) (i+2)
  | _::ds,s,i => deltasAt bytes ds (s+1) i
  | [],_,_ => []

/-- The packets of a list of statuses without deltas. -/
def withoutDeltas : List ℕ → BitVec 16 → List ReceivedPacket
  | [],_ => []
  | 0::ds,s => withoutDeltas ds (s+1)
  | _::ds,s => .withDelta s 0 :: withoutDeltas ds (s+1)

theorem deltasAt_of_reports {s : BitVec 16} {ds : List ℕ} {rs : List ReceivedPacket}
    (h : Reports s ds rs) {b : Region} (i : ℕ) (hb : b.Holds i (rs.flatMap deltaBytes)) :
    deltasAt b.bytes ds s i = rs := by
  induction h generalizing i with
  | nil => rfl
  | lost _ ih => exact ih i hb
  | @received s delta ds rs _ ih =>
      rw [List.flatMap_cons,Region.holds_append,deltaBytes_withDelta_length] at hb
      by_cases hd : 0 ≤ delta.toInt ∧ delta.toInt ≤ 0xff
      · have hsize : deltaSizeOf delta = 1 := if_pos hd
        rw [hsize] at hb ⊢
        have hbyte := hb.1
        simp only [deltaBytes,if_pos hd] at hbyte
        have h0 := hbyte.2 0 (by simp)
        simp only [Nat.add_zero,List.getElem_cons_zero] at h0
        rw [deltasAt,ih (i+1) hb.2,h0,setWidth_delta hd]
      · have hsize : deltaSizeOf delta = 2 := if_neg hd
        rw [hsize] at hb ⊢
        have hbyte := hb.1
        simp only [deltaBytes,if_neg hd] at hbyte
        rw [deltasAt,ih (i+2) hb.2,loadUInt16BE_of_holds hbyte]

theorem withoutDeltas_of_reports {s : BitVec 16} {ds : List ℕ} {rs : List ReceivedPacket}
    (h : Reports s ds rs) (hzero : ∀ p ∈ rs, p.deltaTicks = 0) : withoutDeltas ds s = rs := by
  induction h with
  | nil => rfl
  | lost _ ih => exact ih hzero
  | @received s delta ds rs _ ih =>
      simp only [List.mem_cons,forall_eq_or_imp] at hzero
      obtain ⟨hdelta,hrest⟩ := hzero
      subst hdelta
      have hsize : deltaSizeOf 0 = 1 := rfl
      rw [hsize,withoutDeltas,ih hrest]
      intro h0
      cases h0

/-- An object with more received packets, its running time moved on by their deltas. -/
def withPackets (fb : TransportFeedback) (rs all : List ReceivedPacket) : TransportFeedback :=
  { fb with receivedPackets := fb.receivedPackets++rs, allPackets := all
            lastTimestampUs := fb.lastTimestampUs + kDeltaScaleFactor*ticksSum rs }

theorem withPackets_nil (fb : TransportFeedback) : withPackets fb [] fb.allPackets = fb := by
  unfold withPackets
  rw [List.append_nil,ticksSum_nil,mul_zero,add_zero]

theorem withPackets_addParsed (fb : TransportFeedback) (p : ReceivedPacket)
    (rs all : List ReceivedPacket) :
    withPackets (addParsed fb p) rs all = withPackets fb (p::rs) all := by
  have hsum : ticksSum (p::rs) = p.deltaTicks.toInt+ticksSum rs := by
    simp only [ticksSum,List.map_cons,List.sum_cons]
  unfold withPackets addParsed
  simp only [hsum,List.append_assoc,List.singleton_append,TransportFeedback.mk.injEq,and_true,
    true_and,ReceivedPacket.deltaUs]
  ring

theorem addStatuses_run (ds : List ℕ) (s : BitVec 16) (fb : TransportFeedback) :
    ∃ all, addStatuses ds s fb = withPackets fb (withoutDeltas ds s) all := by
  induction ds generalizing s fb with
  | nil => exact ⟨fb.allPackets,(withPackets_nil fb).symm⟩
  | cons d ds ih =>
      cases d with
      | zero =>
          obtain ⟨all,hall⟩ := ih (s+1) (addParsedLost fb s)
          exact ⟨all,hall⟩
      | succ d =>
          obtain ⟨all,hall⟩ := ih (s+1) (addParsed fb (.withDelta s 0))
          refine ⟨all,?_⟩
          rw [withPackets_addParsed] at hall
          exact hall

variable {b : Region} (payload endIndex : ℕ)

/-- The delta loop never fails on symbols that fit. -/
theorem parseDeltas_run {ds : List ℕ} (hds : ∀ d ∈ ds, d ≤ 2) (s : BitVec 16) (index : ℕ)
    (fb : TransportFeedback) (c : Cursor) (hend : index+ds.sum ≤ endIndex) :
    ∃ t all, (parseDeltas payload endIndex ds s index fb).run b c =
      (some (index+ds.sum,withPackets fb (deltasAt b.bytes ds s (payload+index)) all),
        ⟨c.start,t⟩) := by
  induction ds generalizing s index fb c with
  | nil =>
      refine ⟨c.touched,fb.allPackets,?_⟩
      rw [deltasAt,withPackets_nil]
      rfl
  | cons d ds ih =>
      simp only [List.mem_cons,forall_eq_or_imp] at hds
      rw [List.sum_cons,← Nat.add_assoc] at hend ⊢
      match d,hds.1 with
      | 0,_ =>
          obtain ⟨t,all,ht⟩ := ih hds.2 (s+1) index (addParsedLost fb s) c hend
          exact ⟨t,all,(parseDeltas_lost payload endIndex s fb c (by omega)).trans ht⟩
      | 1,_ =>
          obtain ⟨t,all,ht⟩ := ih hds.2 (s+1) (index+1)
            (addParsed fb (.withDelta s ((b.bytes (payload+index)).setWidth 16)))
            ⟨c.start,List.range' (payload+index) 1++c.touched⟩ hend
          refine ⟨t,all,?_⟩
          rw [withPackets_addParsed] at ht
          rw [parseDeltas,Parser.bind_of_some (Parser.guard_of (by omega) b c),
            Parser.bind_of_some (Parser.run_load _ _ _ _)]
          exact ht
      | 2,_ =>
          obtain ⟨t,all,ht⟩ := ih hds.2 (s+1) (index+2)
            (addParsed fb (.withDelta s (loadUInt16BE fun j => b.bytes (payload+index+j))))
            ⟨c.start,List.range' (payload+index) 2++c.touched⟩ hend
          refine ⟨t,all,?_⟩
          rw [withPackets_addParsed] at ht
          rw [parseDeltas,Parser.bind_of_some (Parser.guard_of (by omega) b c),
            Parser.bind_of_some (Parser.run_load _ _ _ _)]
          exact ht

end Deltas

section Serialized

/-- The deltas of the statuses fit into what is left of the declared length. -/
abbrev TakesDeltas (fb : TransportFeedback) (syms : List ℕ) : Prop :=
  16+2*(fb.encodedChunks.length+1)+syms.sum ≤ size fb-4

/-- The object `Parse` makes of a serialized feedback, with a receiver that keeps whether it
has timestamps. -/
def parsedFeedback (receiver fb : TransportFeedback) (syms : List ℕ) (bytes : ℕ → Byte)
    (all : List ReceivedPacket) : TransportFeedback :=
  let index := 16+2*(fb.encodedChunks.length+1)
  if TakesDeltas fb syms then
    { withPackets (parsedChunks receiver fb) (deltasAt bytes syms fb.baseSeqNo (4+index)) all with
      sizeBytes := kHeaderLength+(index+syms.sum) }
  else
    { withPackets (parsedChunks receiver fb) (withoutDeltas syms fb.baseSeqNo) all with
      includeTimestamps := false, sizeBytes := kHeaderLength+index }

theorem parse_run {fb : TransportFeedback} {syms : List ℕ} (h : Built fb syms)
    (hcount : fb.numSeqNo ≠ 0) (htime : 0 ≤ fb.baseTimeTicks ∧ fb.baseTimeTicks < 2^24)
    (hmax : fb.sizeBytes ≤ kMaxSizeBytes) (receiver : TransportFeedback) {b : Region}
    (hsize : b.size = size fb) (hb : b.Holds 0 (wireBytes fb)) :
    ∃ t all, (parse receiver).run b ⟨0,[]⟩ =
      (some (parsedFeedback receiver fb syms b.bytes all),⟨size fb,t⟩) := by
  have hparts := hb
  simp only [wireBytes,fixedBytes,Region.holds_append,RtcpCommonHeader.bytes_length,
    storeUInt32BE_length,storeUInt24BE_length,storeUInt16BE_length,List.length_append,
    List.length_singleton,Nat.zero_add,Nat.reduceAdd] at hparts
  obtain ⟨_,_,_,hchunks,_⟩ := hparts
  obtain ⟨t₁,h₁⟩ := parse_fixed h htime hmax receiver hb
  rw [Parser.bind_of_some (Parser.guard_of hcount _ _)] at h₁
  obtain ⟨t₂,h₂⟩ := parseStatuses_chunks h hcount receiver b t₁ (Region.holds_append.mpr hchunks)
  have hspec := size_spec fb
  have hindex := deltas_index h hcount
  have hend : 12+(size fb-4-kCommonFeedbackLength) = size fb := by
    simp only [kCommonFeedbackLength]
    omega
  have hskip : ∀ t, (Parser.trySkip (size fb-4-kCommonFeedbackLength)).run b ⟨12,t⟩ =
      (some (),⟨size fb,t⟩) := by
    intro t
    rw [Parser.trySkip_of_le (by rw [hend,hsize]),hend]
  rw [h₁,h₂,parseTail,parseReceived]
  unfold parsedFeedback
  by_cases htakes : TakesDeltas fb syms
  · obtain ⟨t,all,ht⟩ := parseDeltas_run 4 (size fb-4) h.reports.le_two
      (parsedChunks receiver fb).baseSeqNo (16+2*(fb.encodedChunks.length+1))
      (parsedChunks receiver fb) ⟨12,t₂⟩ htakes
    refine ⟨t,all,?_⟩
    rw [if_pos htakes,if_pos htakes,Parser.bind_of_some ht]
    simp only
    rw [Parser.bind_of_some (hskip t)]
    rfl
  · obtain ⟨all,hall⟩ := addStatuses_run syms (parsedChunks receiver fb).baseSeqNo
      { parsedChunks receiver fb with includeTimestamps := false }
    refine ⟨t₂,all,?_⟩
    rw [if_neg htakes,if_neg htakes,hall,Parser.bind_of_some (Parser.run_pure _ b _)]
    simp only
    rw [Parser.bind_of_some (hskip t₂)]
    rfl

end Serialized
/-! ### Feedbacks without timestamps -/

section WithoutTimestamps
variable {includeLost : Bool} {fb : TransportFeedback}

theorem reached_deltas_zero (h : Reached false includeLost fb) :
    ∀ p ∈ fb.receivedPackets, p.deltaTicks = 0 := by
  induction h with
  | constructed =>
      intro p hp
      cases hp
  | setBase _ _ _ _ ih => exact ih
  | setFeedbackSequenceNumber _ _ ih => exact ih
  | setSenderSsrc _ _ ih => exact ih
  | setMediaSsrc _ _ ih => exact ih
  | @addReceivedPacket fb hfb seq t ih =>
      obtain ⟨syms,hb⟩ := hfb.legal.built
      obtain ⟨_,hno,hyes⟩ := addReceivedPacket_spec hb
        (Prod.mk.eta (p := fb.addReceivedPacket seq t)).symm
      cases hok : (fb.addReceivedPacket seq t).1 with
      | false =>
          rw [(hno hok).1]
          exact ih
      | true =>
          obtain ⟨delta,hdelta,hr,_⟩ := hyes hok
          rw [hfb.legal.timestamps] at hdelta
          have hzero : delta = 0 := BitVec.eq_of_toInt_eq hdelta
          intro p hp
          rw [hr,List.mem_append,List.mem_singleton] at hp
          cases hp with
          | inl hp => exact ih p hp
          | inr hp => rw [hp,hzero]

theorem sum_of_deltas_zero {s : BitVec 16} {ds : List ℕ} {rs : List ReceivedPacket}
    (h : Reports s ds rs) (hzero : ∀ p ∈ rs, p.deltaTicks = 0) : ds.sum = rs.length := by
  induction h with
  | nil => rfl
  | lost _ ih =>
      rw [List.sum_cons,Nat.zero_add]
      exact ih hzero
  | @received s delta ds rs _ ih =>
      simp only [List.mem_cons,forall_eq_or_imp] at hzero
      obtain ⟨hdelta,hrest⟩ := hzero
      subst hdelta
      have hsize : deltaSizeOf 0 = 1 := rfl
      rw [List.sum_cons,ih hrest,hsize,List.length_cons,Nat.add_comm]

/-- Other deltas of the same sizes make the same statuses. -/
theorem reports_replace {s : BitVec 16} {ds : List ℕ} {rs qs : List ReceivedPacket}
    (h : Reports s ds rs)
    (hqs : List.Forall₂ (fun p q => ∃ delta, q = .withDelta p.sequenceNumber delta ∧
      deltaSizeOf delta = deltaSizeOf p.deltaTicks) rs qs) : Reports s ds qs := by
  induction h generalizing qs with
  | nil s =>
      cases hqs
      exact .nil s
  | lost _ ih => exact .lost (ih hqs)
  | @received s delta ds rs _ ih =>
      cases hqs with
      | cons hq hrest =>
          obtain ⟨delta',rfl,hsize⟩ := hq
          simp only at hsize
          rw [← hsize]
          exact .received (ih hrest)

/-- What is to come back of a feedback: everything but the times. -/
structure RecoversStatuses (fb parsed : TransportFeedback) : Prop where
  timestamps : parsed.includeTimestamps = false
  base : parsed.baseSeqNo = fb.baseSeqNo
  count : parsed.getPacketStatusCount = fb.getPacketStatusCount
  numbers : parsed.receivedPackets.map (·.sequenceNumber) =
    fb.receivedPackets.map (·.sequenceNumber)
  deltas : ∀ p ∈ parsed.receivedPackets, p.deltaTicks = 0

/-- The padding passes for deltas when there are no more packets than padding bytes. -/
theorem takesDeltas_iff {syms : List ℕ} (h : Reached false includeLost fb)
    (hb : Built fb syms) (hcount : fb.numSeqNo ≠ 0) :
    TakesDeltas fb syms ↔ fb.receivedPackets.length ≤ paddingLength fb := by
  have hindex := deltas_index hb hcount
  have hsum := sum_of_deltas_zero hb.reports (reached_deltas_zero h)
  have hspec := size_spec fb
  have hts : fb.includeTimestamps = false := h.legal.timestamps
  simp only [hts,Bool.false_eq_true,if_false] at hindex
  unfold TakesDeltas paddingLength
  omega

/-- Without deltas the packet is padded by nothing or by two bytes. -/
theorem padding_of_reached {syms : List ℕ} (h : Reached false includeLost fb)
    (hb : Built fb syms) (hcount : fb.numSeqNo ≠ 0) :
    paddingLength fb = 0 ∨ paddingLength fb = 2 := by
  have hindex := deltas_index hb hcount
  have hts : fb.includeTimestamps = false := h.legal.timestamps
  simp only [hts,Bool.false_eq_true,if_false] at hindex
  unfold paddingLength size
  omega

theorem takes_padding {syms : List ℕ} (h : Reached false includeLost fb) (hb : Built fb syms)
    (hcount : fb.numSeqNo ≠ 0) (htakes : TakesDeltas fb syms) (hsome : fb.receivedPackets ≠ []) :
    paddingLength fb = 2 ∧ fb.receivedPackets.length ≤ 2 := by
  have hroom := (takesDeltas_iff h hb hcount).mp htakes
  have hpadding := padding_of_reached h hb hcount
  have hpos := List.length_pos_iff.mpr hsome
  omega

theorem holds_padding {syms : List ℕ} (h : Reached false includeLost fb) (hb : Built fb syms)
    (hcount : fb.numSeqNo ≠ 0) {b : Region} (hbytes : b.Holds 0 (wireBytes fb)) :
    b.Holds (4+(16+2*(fb.encodedChunks.length+1))) (paddingBytes (paddingLength fb)) := by
  have hlast : (lastChunkBytes fb).length = 2 := by
    simp only [lastChunkBytes,LastChunk.empty,beq_iff_eq,if_neg (pending_ne_zero hb hcount)]
    rfl
  have hnone : allDeltaBytes fb = [] := by
    unfold allDeltaBytes
    rw [h.legal.timestamps]
    rfl
  simp only [wireBytes,fixedBytes,Region.holds_append,RtcpCommonHeader.bytes_length,
    storeUInt32BE_length,storeUInt24BE_length,storeUInt16BE_length,List.length_append,
    List.length_singleton,Nat.zero_add,Nat.reduceAdd,chunks_length,hlast,hnone,List.length_nil,
    Nat.add_zero] at hbytes
  obtain ⟨_,_,_,_,_,hpadding⟩ := hbytes
  have hoffset : 4+(16+2*(fb.encodedChunks.length+1)) =
      20+(2*fb.encodedChunks.length+2) := by omega
  rw [hoffset]
  exact hpadding

theorem deltaBytes_zero {p : ReceivedPacket} (hp : p.deltaTicks = 0) : deltaBytes p = [0] := by
  unfold deltaBytes
  rw [hp]
  rfl

theorem deltasAt_single {syms : List ℕ} {p : ReceivedPacket} (h : Reached false includeLost fb)
    (hb : Built fb syms) {b : Region} {i : ℕ} (hpadding : b.Holds i (paddingBytes 2))
    (hone : fb.receivedPackets = [p]) :
    deltasAt b.bytes syms fb.baseSeqNo i = fb.receivedPackets := by
  have hp : p.deltaTicks = 0 := reached_deltas_zero h p (by rw [hone]; simp)
  apply deltasAt_of_reports hb.reports
  have hsplit : paddingBytes 2 = [0]++[2] := rfl
  rw [hsplit,Region.holds_append] at hpadding
  rw [hone,List.flatMap_singleton,deltaBytes_zero hp]
  exact hpadding.1

/-- Of two packets the second takes the padding count for its delta. -/
theorem deltasAt_pair {syms : List ℕ} {p q : ReceivedPacket} (h : Reached false includeLost fb)
    (hb : Built fb syms) {b : Region} {i : ℕ} (hpadding : b.Holds i (paddingBytes 2))
    (htwo : fb.receivedPackets = [p,q]) :
    deltasAt b.bytes syms fb.baseSeqNo i =
      [.withDelta p.sequenceNumber 0,.withDelta q.sequenceNumber 2] := by
  have hzero := reached_deltas_zero h
  have hp : p.deltaTicks = 0 := hzero p (by rw [htwo]; simp)
  have hq : q.deltaTicks = 0 := hzero q (by rw [htwo]; simp)
  have hreports := hb.reports
  rw [htwo] at hreports
  apply deltasAt_of_reports (reports_replace hreports _) i hpadding
  refine .cons ⟨0,rfl,by rw [hp]⟩ (.cons ⟨2,rfl,?_⟩ .nil)
  rw [hq]
  rfl

/-- What is recovered from a feedback whose statuses leave room for their deltas. -/
theorem recovers_of_takes {syms : List ℕ} (h : Reached false includeLost fb) (hb : Built fb syms)
    (hcount : fb.numSeqNo ≠ 0) (receiver : TransportFeedback) {b : Region}
    (hbytes : b.Holds 0 (wireBytes fb)) (all : List ReceivedPacket)
    (htakes : TakesDeltas fb syms) :
    RecoversStatuses fb (parsedFeedback receiver fb syms b.bytes all) ↔
      receiver.includeTimestamps = false ∧ fb.receivedPackets.length ≤ 1 := by
  have hparsed : parsedFeedback receiver fb syms b.bytes all =
      { withPackets (parsedChunks receiver fb) (deltasAt b.bytes syms fb.baseSeqNo
          (4+(16+2*(fb.encodedChunks.length+1)))) all with
        sizeBytes := kHeaderLength+(16+2*(fb.encodedChunks.length+1)+syms.sum) } := by
    unfold parsedFeedback
    rw [if_pos htakes]
  have hreceived : (parsedFeedback receiver fb syms b.bytes all).receivedPackets =
      deltasAt b.bytes syms fb.baseSeqNo (4+(16+2*(fb.encodedChunks.length+1))) := by
    rw [hparsed]
    rfl
  have hflag : (parsedFeedback receiver fb syms b.bytes all).includeTimestamps =
      receiver.includeTimestamps := by
    rw [hparsed]
    rfl
  have hbase : (parsedFeedback receiver fb syms b.bytes all).baseSeqNo = fb.baseSeqNo := by
    rw [hparsed]
    rfl
  have hstatuses : (parsedFeedback receiver fb syms b.bytes all).getPacketStatusCount =
      fb.getPacketStatusCount := by
    rw [hparsed]
    rfl
  have hzero := reached_deltas_zero h
  have hpadding := holds_padding h hb hcount hbytes
  -- at most one packet is recovered as it was; of two the second gets a delta
  have hsame : fb.receivedPackets.length ≤ 1 →
      deltasAt b.bytes syms fb.baseSeqNo (4+(16+2*(fb.encodedChunks.length+1))) =
        fb.receivedPackets := by
    intro hle
    match hcase : fb.receivedPackets with
    | [] =>
        have hreports := hb.reports
        rw [hcase] at hreports
        rw [← List.nil_append (paddingBytes _),Region.holds_append] at hpadding
        exact deltasAt_of_reports hreports _ hpadding.1
    | [p] =>
        rw [(takes_padding h hb hcount htakes (by rw [hcase]; simp)).1] at hpadding
        rw [← hcase]
        exact deltasAt_single h hb hpadding hcase
    | p::q::rest =>
        rw [hcase] at hle
        simp at hle
  constructor
  · intro hrecovers
    refine ⟨hflag ▸ hrecovers.timestamps,?_⟩
    by_contra hmany
    match hcase : fb.receivedPackets with
    | [] => simp [hcase] at hmany
    | [p] => simp [hcase] at hmany
    | [p,q] =>
        rw [(takes_padding h hb hcount htakes (by rw [hcase]; simp)).1] at hpadding
        have hdeltas := hrecovers.deltas
        rw [hreceived,deltasAt_pair h hb hpadding hcase] at hdeltas
        have hlast : (2 : BitVec 16) = 0 := hdeltas (.withDelta q.sequenceNumber 2) (by simp)
        revert hlast
        decide
    | p::q::r::rest =>
        have hle := (takes_padding h hb hcount htakes (by rw [hcase]; simp)).2
        rw [hcase] at hle
        simp only [List.length_cons] at hle
        omega
  · intro hcond
    have heq := hsame hcond.2
    refine ⟨hflag.trans hcond.1,hbase,hstatuses,by rw [hreceived,heq],?_⟩
    rw [hreceived,heq]
    exact hzero

theorem recovers_of_not_takes {syms : List ℕ} (h : Reached false includeLost fb)
    (hb : Built fb syms) (receiver : TransportFeedback) (bytes : ℕ → Byte)
    (all : List ReceivedPacket) (htakes : ¬TakesDeltas fb syms) :
    RecoversStatuses fb (parsedFeedback receiver fb syms bytes all) := by
  have hzero := reached_deltas_zero h
  have hpackets := withoutDeltas_of_reports hb.reports hzero
  unfold parsedFeedback
  rw [if_neg htakes,hpackets]
  exact ⟨rfl,rfl,rfl,rfl,hzero⟩

theorem sizeBytes_le_max {includeTimestamps includeLost : Bool} {fb : TransportFeedback}
    {syms : List ℕ} (h : Reached includeTimestamps includeLost fb) (hb : Built fb syms) :
    fb.sizeBytes ≤ kMaxSizeBytes :=
  (hb.sizeBytes_dense h.legal.dense).trans (Nat.le_of_ble_eq_true rfl)

theorem numSeqNo_ne_zero (hcount : 1 ≤ fb.getPacketStatusCount) : fb.numSeqNo ≠ 0 := by
  intro h0
  rw [getPacketStatusCount,h0] at hcount
  exact absurd hcount (by decide)

theorem recovered_iff {syms : List ℕ} (h : Reached false includeLost fb) (hb : Built fb syms)
    (hcount : fb.numSeqNo ≠ 0) (receiver : TransportFeedback) (behind : ℕ → Byte)
    (hlt : (wireBytes fb).length < 2^63) :
    (∃ parsed touched, (parse receiver).run (Region.ofList (wireBytes fb) behind hlt) ⟨0,[]⟩ =
        (some parsed,⟨(wireBytes fb).length,touched⟩) ∧ RecoversStatuses fb parsed) ↔
      paddingLength fb < fb.receivedPackets.length ∨
        (receiver.includeTimestamps = false ∧ fb.receivedPackets.length ≤ 1) := by
  have hholds := Region.ofList_holds (wireBytes fb) behind hlt
  obtain ⟨t,all,ht⟩ := parse_run hb hcount h.legal.ticks (sizeBytes_le_max h hb) receiver
    (wireBytes_length hb) hholds
  have hrun : (∃ parsed touched, (parse receiver).run (Region.ofList (wireBytes fb) behind hlt)
        ⟨0,[]⟩ = (some parsed,⟨(wireBytes fb).length,touched⟩) ∧ RecoversStatuses fb parsed) ↔
      RecoversStatuses fb (parsedFeedback receiver fb syms
        (Region.ofList (wireBytes fb) behind hlt).bytes all) := by
    constructor
    · intro hex
      obtain ⟨parsed,touched,hp,hrecovers⟩ := hex
      rw [ht] at hp
      simp only [Prod.mk.injEq,Option.some.injEq] at hp
      rw [hp.1]
      exact hrecovers
    · intro hrecovers
      refine ⟨_,t,?_,hrecovers⟩
      rw [ht,wireBytes_length hb]
  rw [hrun]
  have hroom := takesDeltas_iff h hb hcount
  by_cases htakes : TakesDeltas fb syms
  · rw [recovers_of_takes h hb hcount receiver hholds all htakes]
    constructor
    · exact Or.inr
    · intro hcond
      cases hcond with
      | inl hmore =>
          have := hroom.mp htakes
          omega
      | inr hcond => exact hcond
  · constructor
    · intro _
      exact Or.inl (Nat.lt_of_not_le (hroom.not.mp htakes))
    · intro _
      exact recovers_of_not_takes h hb receiver _ all htakes

/-- Parsing a serialized feedback without timestamps recovers it exactly when it reports
more packets than it has padding bytes, or when the receiver had no timestamps before and
there is at most one packet. -/
theorem parse_without_timestamps_iff (h : Reached false includeLost fb)
    (hcount : 1 ≤ fb.getPacketStatusCount) (receiver : TransportFeedback) (buffer : List Byte)
    (behind : ℕ → Byte) (hbuffer : buffer.length = size fb) :
    ∃ bytes : List Byte, ∃ hlt : bytes.length < 2^63,
      serialize fb (.on buffer) = some ⟨bytes,buffer.length⟩ ∧
      ((∃ parsed touched, (parse receiver).run (Region.ofList bytes behind hlt) ⟨0,[]⟩ =
            (some parsed,⟨bytes.length,touched⟩) ∧ RecoversStatuses fb parsed) ↔
        paddingLength fb < fb.receivedPackets.length ∨
          (receiver.includeTimestamps = false ∧ fb.receivedPackets.length ≤ 1)) := by
  obtain ⟨syms,hb⟩ := h.legal.built
  have hlt := wireBytes_lt hb (sizeBytes_le_max h hb)
  exact ⟨wireBytes fb,hlt,serialize_built hb buffer hbuffer,
    recovered_iff h hb (numSeqNo_ne_zero hcount) receiver behind hlt⟩

/-- A feedback without timestamps that reports one packet. -/
def reportsOne : TransportFeedback :=
  (({ includeTimestamps := false, includeLost := true } : TransportFeedback).addReceivedPacket
    0 0).2

theorem reportsOne_reached : Reached false true reportsOne :=
  Reached.constructed.addReceivedPacket 0 0

theorem parse_without_timestamps_one :
    ∃ bytes : List Byte, ∃ hlt : bytes.length < 2^63,
      serialize reportsOne (.on (List.replicate 24 0)) = some ⟨bytes,24⟩ ∧
      ((∃ parsed touched, (parse { includeTimestamps := true, includeLost := true }).run
            (Region.ofList bytes (fun _ => 0) hlt) ⟨0,[]⟩ =
              (some parsed,⟨bytes.length,touched⟩) ∧ RecoversStatuses reportsOne parsed) ↔
        paddingLength reportsOne < reportsOne.receivedPackets.length ∨
          (true = false ∧ reportsOne.receivedPackets.length ≤ 1)) :=
  parse_without_timestamps_iff reportsOne_reached (by decide)
    { includeTimestamps := true, includeLost := true } (List.replicate 24 0) (fun _ => 0) rfl

/-- The two bytes of padding have room for the delta of one packet. -/
theorem not_always_recovered :
    ¬ ∀ (includeLost : Bool) (fb : TransportFeedback), Reached false includeLost fb →
      1 ≤ fb.getPacketStatusCount → ∀ (receiver : TransportFeedback) (buffer : List Byte)
        (behind : ℕ → Byte), buffer.length = size fb →
        ∃ bytes : List Byte, ∃ hlt : bytes.length < 2^63,
          serialize fb (.on buffer) = some ⟨bytes,buffer.length⟩ ∧
          ∃ parsed touched, (parse receiver).run (Region.ofList bytes behind hlt) ⟨0,[]⟩ =
            (some parsed,⟨bytes.length,touched⟩) ∧ RecoversStatuses fb parsed := by
  intro h
  obtain ⟨syms,hb⟩ := reportsOne_reached.legal.built
  obtain ⟨bytes,hlt,hser,hrecovered⟩ := h true reportsOne reportsOne_reached (by decide)
    { includeTimestamps := true, includeLost := true } (List.replicate 24 0) (fun _ => 0) rfl
  rw [serialize_built hb _ rfl] at hser
  simp only [Option.some.injEq,ByteWriter.mk.injEq] at hser
  obtain ⟨rfl,_⟩ := hser
  rw [recovered_iff reportsOne_reached hb (by decide)] at hrecovered
  revert hrecovered
  decide

end WithoutTimestamps
end Ylrtc.FeedbackWire
