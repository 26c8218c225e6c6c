import Ylrtc.Base.SequenceNumber
import Ylrtc.Lib.MachineInt
import Ylrtc.Rtcp.Header
import Ylrtc.Rtcp.StatusChunk

/-!
# Building a transport feedback

The writer's half of `rtp_rtcp/transport_feedback.cpp`: `SetBase`,
`AddReceivedPacket` and `AddDeltaSize`. A call of `AddReceivedPacket` that is
refused may already have appended lost packets; the object it leaves is part of
the result here.
-/
namespace Ylrtc.FeedbackBuilder
open CursorParser MachineInt RtcpHeader SequenceNumber StatusChunk

abbrev kDeltaScaleFactor : ℤ := 250
abbrev kBaseScaleFactor : ℤ := 64000
abbrev kTimeWrapPeriodUs : ℤ := 1073741824000
abbrev kMaxReportedPackets : BitVec 16 := 0xffff
abbrev kMaxSizeBytes : ℕ := 262144
abbrev kTransportFeedbackHeaderSizeBytes : ℕ := 20
abbrev kChunkSizeBytes : ℕ := 2

/-- `delta_ticks_` is an `int16_t`; it stays uninitialised for a lost packet. -/
structure ReceivedPacket where
  sequenceNumber : BitVec 16
  deltaTicks : BitVec 16
  received : Bool
  deriving DecidableEq, Repr

abbrev ReceivedPacket.withDelta (sequenceNumber deltaTicks : BitVec 16) : ReceivedPacket :=
  ⟨sequenceNumber,deltaTicks,true⟩

abbrev ReceivedPacket.lost (sequenceNumber : BitVec 16) : ReceivedPacket := ⟨sequenceNumber,0,false⟩

def ReceivedPacket.deltaUs (p : ReceivedPacket) : ℤ := p.deltaTicks.toInt*kDeltaScaleFactor

/-- The members of `TransportFeedback` and of its bases, with the values the
constructor gives them. -/
structure TransportFeedback where
  includeTimestamps : Bool
  includeLost : Bool
  senderSsrc : BitVec 32 := 0
  mediaSsrc : BitVec 32 := 0
  baseSeqNo : BitVec 16 := 0
  numSeqNo : BitVec 16 := 0
  baseTimeTicks : ℤ := 0
  feedbackSeq : BitVec 8 := 0
  lastTimestampUs : ℤ := 0
  receivedPackets : List ReceivedPacket := []
  allPackets : List ReceivedPacket := []
  encodedChunks : List Chunk := []
  lastChunk : LastChunk := cleared
  sizeBytes : ℕ := kTransportFeedbackHeaderSizeBytes
  deriving DecidableEq, Repr

namespace TransportFeedback

def getBaseTimeUs (fb : TransportFeedback) : ℤ := fb.baseTimeTicks*kBaseScaleFactor

def getPacketStatusCount (fb : TransportFeedback) : ℕ := fb.numSeqNo.toNat

def setSenderSsrc (fb : TransportFeedback) (ssrc : BitVec 32) : TransportFeedback :=
  { fb with senderSsrc := ssrc }

def setMediaSsrc (fb : TransportFeedback) (ssrc : BitVec 32) : TransportFeedback :=
  { fb with mediaSsrc := ssrc }

def setBase (fb : TransportFeedback) (baseSequence : BitVec 16) (refTimestampUs : ℤ) :
    TransportFeedback :=
  let ticks := (refTimestampUs.tmod kTimeWrapPeriodUs).tdiv kBaseScaleFactor
  { fb with baseSeqNo := baseSequence, baseTimeTicks := ticks
            lastTimestampUs := ticks*kBaseScaleFactor }

def setFeedbackSequenceNumber (fb : TransportFeedback) (feedbackSequence : BitVec 8) :
    TransportFeedback := { fb with feedbackSeq := feedbackSequence }

def addDeltaSize (fb : TransportFeedback) (deltaSize : ℕ) : Option TransportFeedback :=
  if fb.numSeqNo = kMaxReportedPackets then none
  else
    let addChunkSize := if fb.lastChunk.empty then kChunkSizeBytes else 0
    if fb.sizeBytes+deltaSize+addChunkSize > kMaxSizeBytes then none
    else if fb.lastChunk.canAdd deltaSize then
      some { fb with sizeBytes := fb.sizeBytes+addChunkSize
                     lastChunk := fb.lastChunk.add deltaSize
                     numSeqNo := fb.numSeqNo+1 }
    else if fb.sizeBytes+deltaSize+kChunkSizeBytes > kMaxSizeBytes then none
    else
      some { fb with encodedChunks := fb.encodedChunks++[fb.lastChunk.emit.1]
                     sizeBytes := fb.sizeBytes+kChunkSizeBytes
                     lastChunk := fb.lastChunk.emit.2.add deltaSize
                     numSeqNo := fb.numSeqNo+1 }

/-- `delta_full` of `AddReceivedPacket`, in ticks. Only the subtraction can
overflow, for a timestamp close to the largest `int64_t`. -/
def deltaFull (timestampUs lastTimestampUs : ℤ) : ℤ :=
  let wrapped := (int64 (timestampUs - lastTimestampUs)).tmod kTimeWrapPeriodUs
  let nearest := if wrapped > kTimeWrapPeriodUs/2 then wrapped - kTimeWrapPeriodUs else wrapped
  let rounded := nearest + (if nearest < 0 then -(kDeltaScaleFactor/2) else kDeltaScaleFactor/2)
  rounded.tdiv kDeltaScaleFactor

/-- Bytes a delta takes on the wire. -/
def deltaSizeOf (delta : BitVec 16) : ℕ := if 0 ≤ delta.toInt ∧ delta.toInt ≤ 0xff then 1 else 2

/-- The loop over `n` packets missing before the reported one. -/
def addMissing : ℕ → BitVec 16 → TransportFeedback → Bool × TransportFeedback
  | 0,_,fb => (true,fb)
  | n+1,nextSeqNo,fb =>
      match fb.addDeltaSize 0 with
      | none => (false,fb)
      | some fb' =>
          addMissing n (nextSeqNo+1)
            { fb' with allPackets := if fb'.includeLost
                then fb'.allPackets++[.lost nextSeqNo] else fb'.allPackets }

/-- The end of `AddReceivedPacket`, once the packet is the next one. -/
def addNext (fb : TransportFeedback) (sequenceNumber delta : BitVec 16) :
    Bool × TransportFeedback :=
  match fb.addDeltaSize (deltaSizeOf delta) with
  | none => (false,fb)
  | some fb' =>
      (true,{ fb' with
        receivedPackets := fb'.receivedPackets++[.withDelta sequenceNumber delta]
        allPackets := if fb'.includeLost
          then fb'.allPackets++[.withDelta sequenceNumber delta] else fb'.allPackets
        lastTimestampUs := fb'.lastTimestampUs + delta.toInt*kDeltaScaleFactor
        sizeBytes := if fb'.includeTimestamps
          then fb'.sizeBytes+deltaSizeOf delta else fb'.sizeBytes })

def addReceivedPacket (fb : TransportFeedback) (sequenceNumber : BitVec 16) (timestampUs : ℤ) :
    Bool × TransportFeedback :=
  let full := if fb.includeTimestamps then deltaFull timestampUs fb.lastTimestampUs else 0
  let delta := BitVec.ofInt 16 full
  if delta.toInt ≠ full then (false,fb)
  else
    let nextSeqNo := fb.baseSeqNo+fb.numSeqNo
    if sequenceNumber = nextSeqNo then fb.addNext sequenceNumber delta
    else if !seqNumGT sequenceNumber (nextSeqNo-1) then (false,fb)
    else
      match addMissing (sequenceNumber-nextSeqNo).toNat nextSeqNo fb with
      | (false,fb') => (false,fb')
      | (true,fb') => fb'.addNext sequenceNumber delta

/-- What an accepted `AddDeltaSize` does: the symbol joins the pending chunk, or
the pending chunk is emitted first. Nothing else of the object changes. -/
theorem addDeltaSize_cases {fb fb' : TransportFeedback} {d : ℕ}
    (h : fb.addDeltaSize d = some fb') :
    fb.numSeqNo ≠ kMaxReportedPackets ∧ ∃ chunks last bytes,
      fb' = { fb with encodedChunks := chunks, lastChunk := last, sizeBytes := bytes
                      numSeqNo := fb.numSeqNo+1 } ∧
      ((fb.lastChunk.canAdd d = true ∧ chunks = fb.encodedChunks ∧ last = fb.lastChunk.add d ∧
          bytes = fb.sizeBytes + if fb.lastChunk.size = 0 then 2 else 0) ∨
        (fb.lastChunk.canAdd d = false ∧ chunks = fb.encodedChunks++[fb.lastChunk.emit.1] ∧
          last = fb.lastChunk.emit.2.add d ∧ bytes = fb.sizeBytes+2)) := by
  unfold addDeltaSize at h
  split at h
  · simp at h
  rename_i hn
  refine ⟨hn,?_⟩
  simp only [LastChunk.empty,beq_iff_eq,kChunkSizeBytes] at h
  generalize hadd : (if fb.lastChunk.size = 0 then 2 else 0) = addChunkSize at h ⊢
  split at h
  · simp at h
  split at h
  · rename_i hc
    exact ⟨_,_,_,(Option.some.inj h).symm,Or.inl ⟨hc,rfl,rfl,rfl⟩⟩
  · rename_i hc
    split at h
    · simp at h
    · exact ⟨_,_,_,(Option.some.inj h).symm,Or.inr ⟨by simpa using hc,rfl,rfl,rfl⟩⟩

theorem addDeltaSize_isSome {fb : TransportFeedback} {d : ℕ}
    (hn : fb.numSeqNo ≠ kMaxReportedPackets) (hs : fb.sizeBytes+d+2 ≤ kMaxSizeBytes) :
    ∃ fb', fb.addDeltaSize d = some fb' := by
  have hle : (if fb.lastChunk.empty then kChunkSizeBytes else 0) ≤ 2 := by split <;> simp
  unfold addDeltaSize
  rw [if_neg hn]
  generalize (if fb.lastChunk.empty then kChunkSizeBytes else 0) = addChunkSize at hle ⊢
  simp only
  rw [if_neg (by omega)]
  split
  · exact ⟨_,rfl⟩
  · rw [if_neg (by simp only [kChunkSizeBytes]; omega)]
    exact ⟨_,rfl⟩

/-! ### The status list a feedback encodes -/

/-- Emitted chunks that a decoder reads back as the given symbols. -/
inductive Full : List Chunk → List ℕ → Prop
  | nil : Full [] []
  | cons {chunk : Chunk} {chunks : List Chunk} {emitted rest : List ℕ} : emitted ≠ [] →
      (∀ n, emitted.length ≤ n → symbols chunk n = emitted) → Full chunks rest →
      Full (chunk::chunks) (emitted++rest)

theorem Full.snoc {chunks : List Chunk} {syms : List ℕ} (h : Full chunks syms) {chunk : Chunk}
    {emitted : List ℕ} (hne : emitted ≠ [])
    (hs : ∀ n, emitted.length ≤ n → symbols chunk n = emitted) :
    Full (chunks++[chunk]) (syms++emitted) := by
  induction h with
  | nil => simpa using Full.cons hne hs Full.nil
  | cons hne' hs' _ ih =>
      rw [List.append_assoc]
      exact Full.cons hne' hs' ih

/-- The chunks and the pending chunk together encode the status list. -/
structure Encodes (fb : TransportFeedback) (syms : List ℕ) : Prop where
  pending : fb.lastChunk.WellFormed
  split : ∃ emitted, Full fb.encodedChunks emitted ∧ syms = emitted++fb.lastChunk.contents
  count : syms.length = fb.numSeqNo.toNat
  nonempty : fb.lastChunk.size = 0 → fb.encodedChunks = []

/-- Bytes the status chunks take. -/
def chunkBytes (fb : TransportFeedback) : ℕ :=
  2*fb.encodedChunks.length + if fb.lastChunk.size = 0 then 0 else 2

theorem Encodes.addDeltaSize {fb fb' : TransportFeedback} {syms : List ℕ} {d : ℕ}
    (h : Encodes fb syms) (hd : d ≤ 2) (ha : fb.addDeltaSize d = some fb') :
    Encodes fb' (syms++[d]) := by
  obtain ⟨hn,chunks,last,bytes,rfl,hcase⟩ := addDeltaSize_cases ha
  obtain ⟨emitted,hfull,hsyms⟩ := h.split
  have hcount : (syms++[d]).length = (fb.numSeqNo+1).toNat := by
    have hlt := fb.numSeqNo.isLt
    have hne : fb.numSeqNo.toNat ≠ 65535 := fun e => hn (BitVec.eq_of_toNat_eq e)
    have h1 : (1 : BitVec 16).toNat = 1 := rfl
    rw [List.length_append,h.count,List.length_singleton,BitVec.toNat_add,h1]
    omega
  rcases hcase with ⟨hc,rfl,rfl,rfl⟩ | ⟨hc,rfl,rfl,rfl⟩
  · refine ⟨h.pending.add hd hc,⟨emitted,hfull,?_⟩,hcount,by simp [LastChunk.add]⟩
    rw [hsyms,h.pending.contents_add hd hc,List.append_assoc]
  · obtain ⟨hwf,hsize,out,hout,hne,hread⟩ := h.pending.emit_spec hc
    have hc' : fb.lastChunk.emit.2.canAdd d = true := by
      rw [LastChunk.canAdd_iff]
      exact Or.inl hsize
    refine ⟨hwf.add hd hc',⟨emitted++out,hfull.snoc hne hread,?_⟩,hcount,by simp [LastChunk.add]⟩
    rw [hsyms,hout,hwf.contents_add hd hc']
    simp only [List.append_assoc]

theorem chunkBytes_addDeltaSize {fb fb' : TransportFeedback} {d : ℕ}
    (ha : fb.addDeltaSize d = some fb') :
    fb'.sizeBytes+chunkBytes fb = fb.sizeBytes+chunkBytes fb' := by
  obtain ⟨_,chunks,last,bytes,rfl,hcase⟩ := addDeltaSize_cases ha
  rcases hcase with ⟨_,rfl,rfl,rfl⟩ | ⟨hc,rfl,rfl,rfl⟩
  · simp only [chunkBytes,LastChunk.add,Nat.add_eq_zero_iff,one_ne_zero,and_false,if_false]
    split <;> omega
  · have hpos : fb.lastChunk.size ≠ 0 := by
      intro h0
      have := (LastChunk.canAdd_iff (c := fb.lastChunk) d).not.mp (by simp [hc])
      omega
    simp only [chunkBytes,LastChunk.add,Nat.add_eq_zero_iff,one_ne_zero,and_false,if_false,
      List.length_append,List.length_singleton]
    rw [if_neg hpos]
    omega

end TransportFeedback

open TransportFeedback

/-- Received packets listed along a status list that starts at number `s`. -/
inductive Reports : BitVec 16 → List ℕ → List ReceivedPacket → Prop
  | nil (s : BitVec 16) : Reports s [] []
  | lost {s : BitVec 16} {ds : List ℕ} {rs : List ReceivedPacket} :
      Reports (s+1) ds rs → Reports s (0::ds) rs
  | received {s delta : BitVec 16} {ds : List ℕ} {rs : List ReceivedPacket} :
      Reports (s+1) ds rs → Reports s (deltaSizeOf delta::ds) (.withDelta s delta::rs)

theorem Reports.append {s : BitVec 16} {ds es : List ℕ} {rs qs : List ReceivedPacket}
    (h : Reports s ds rs) (k : Reports (s+BitVec.ofNat 16 ds.length) es qs) :
    Reports s (ds++es) (rs++qs) := by
  induction h with
  | nil s => simpa using k
  | lost _ ih =>
      refine .lost (ih ?_)
      rw [List.length_cons,BitVec.ofNat_add] at k
      rwa [BitVec.add_assoc,BitVec.add_comm 1]
  | received _ ih =>
      refine .received (ih ?_)
      rw [List.length_cons,BitVec.ofNat_add] at k
      rwa [BitVec.add_assoc,BitVec.add_comm 1]

theorem Reports.length_le {s : BitVec 16} {ds : List ℕ} {rs : List ReceivedPacket}
    (h : Reports s ds rs) : rs.length ≤ ds.length := by
  induction h with
  | nil => exact Nat.le_refl 0
  | lost _ ih =>
      rw [List.length_cons]
      omega
  | received _ ih =>
      rw [List.length_cons,List.length_cons]
      omega

theorem deltaSizeOf_range (delta : BitVec 16) : deltaSizeOf delta = 1 ∨ deltaSizeOf delta = 2 := by
  unfold deltaSizeOf
  split
  · exact Or.inl rfl
  · exact Or.inr rfl

/-- Sum of the reported deltas, in ticks. -/
def ticksSum (rs : List ReceivedPacket) : ℤ := (rs.map (·.deltaTicks.toInt)).sum

@[simp] theorem ticksSum_nil : ticksSum [] = 0 := rfl

@[simp] theorem ticksSum_append (rs qs : List ReceivedPacket) :
    ticksSum (rs++qs) = ticksSum rs + ticksSum qs := by simp [ticksSum]

@[simp] theorem ticksSum_withDelta (s delta : BitVec 16) :
    ticksSum [.withDelta s delta] = delta.toInt := by simp [ticksSum,ReceivedPacket.withDelta]

theorem ticksSum_range (rs : List ReceivedPacket) :
    -32768*(rs.length : ℤ) ≤ ticksSum rs ∧ ticksSum rs ≤ 32768*rs.length := by
  induction rs with
  | nil => decide
  | cons r rs ih =>
      have hr := toInt16_range r.deltaTicks
      have hcons : ticksSum (r::rs) = r.deltaTicks.toInt+ticksSum rs := by
        simp only [ticksSum,List.map_cons,List.sum_cons]
      rw [hcons,List.length_cons]
      push_cast
      omega

/-- The invariant of a feedback under construction: the chunks encode a status
list, the received packets are its non-zero entries, and the running size and
timestamp are the ones the finished packet will have. -/
structure Built (fb : TransportFeedback) (syms : List ℕ) : Prop extends Encodes fb syms where
  reports : Reports fb.baseSeqNo syms fb.receivedPackets
  size : fb.sizeBytes = kTransportFeedbackHeaderSizeBytes + chunkBytes fb +
    if fb.includeTimestamps then syms.sum else 0
  timestamp : fb.includeTimestamps = true →
    fb.lastTimestampUs = fb.getBaseTimeUs + kDeltaScaleFactor*ticksSum fb.receivedPackets

/-- A running timestamp that matches the deltas stays far from the ends of `int64_t`. -/
theorem Built.lastTimestamp_range {fb : TransportFeedback} {syms : List ℕ} (hb : Built fb syms)
    (hticks : 0 ≤ fb.baseTimeTicks ∧ fb.baseTimeTicks < 2^24)
    (htime : fb.lastTimestampUs = fb.getBaseTimeUs + kDeltaScaleFactor*ticksSum fb.receivedPackets) :
    -600000000000 ≤ fb.lastTimestampUs ∧ fb.lastTimestampUs ≤ 2^62 := by
  have hsum := ticksSum_range fb.receivedPackets
  have hlen := hb.reports.length_le
  rw [hb.count] at hlen
  have hnum := fb.numSeqNo.isLt
  simp only [getBaseTimeUs,kBaseScaleFactor,kDeltaScaleFactor] at htime
  omega

/-- An object fresh from its constructor, after any of the setters. -/
def Fresh (fb : TransportFeedback) : Prop :=
  fb.numSeqNo = 0 ∧ fb.encodedChunks = [] ∧ fb.lastChunk = cleared ∧ fb.receivedPackets = [] ∧
    fb.sizeBytes = kTransportFeedbackHeaderSizeBytes ∧ fb.lastTimestampUs = fb.getBaseTimeUs

theorem Fresh.built {fb : TransportFeedback} (h : Fresh fb) : Built fb [] := by
  obtain ⟨hn,hc,hl,hr,hs,ht⟩ := h
  refine ⟨⟨?_,⟨[],?_,?_⟩,?_,fun _ => hc⟩,?_,?_,fun _ => ?_⟩
  · rw [hl]; exact cleared_wellFormed
  · rw [hc]; exact .nil
  · rw [hl]; simp
  · rw [hn]; rfl
  · rw [hr]; exact .nil _
  · simp [hs,chunkBytes,hc,hl,cleared]
  · rw [ht,hr]; simp

/-- Parts of the object that reporting packets never touches. -/
def SameHeader (fb fb' : TransportFeedback) : Prop :=
  fb'.includeTimestamps = fb.includeTimestamps ∧ fb'.senderSsrc = fb.senderSsrc ∧
    fb'.mediaSsrc = fb.mediaSsrc ∧ fb'.baseSeqNo = fb.baseSeqNo ∧
    fb'.baseTimeTicks = fb.baseTimeTicks ∧ fb'.feedbackSeq = fb.feedbackSeq

theorem SameHeader.refl (fb : TransportFeedback) : SameHeader fb fb := ⟨rfl,rfl,rfl,rfl,rfl,rfl⟩

theorem SameHeader.trans {a b c : TransportFeedback} (h : SameHeader a b) (k : SameHeader b c) :
    SameHeader a c := by
  obtain ⟨h₁,h₂,h₃,h₄,h₅,h₆⟩ := h
  obtain ⟨k₁,k₂,k₃,k₄,k₅,k₆⟩ := k
  exact ⟨k₁.trans h₁,k₂.trans h₂,k₃.trans h₃,k₄.trans h₄,k₅.trans h₅,k₆.trans h₆⟩

/-- The loop over missing packets only appends zeros, accepted or not. -/
theorem addMissing_spec {n : ℕ} (next : BitVec 16) {fb fb' : TransportFeedback} {ok : Bool}
    {syms : List ℕ} (h : Built fb syms) (ha : addMissing n next fb = (ok,fb')) :
    SameHeader fb fb' ∧ fb'.receivedPackets = fb.receivedPackets ∧
      fb'.lastTimestampUs = fb.lastTimestampUs ∧
      ∃ k ≤ n, Built fb' (syms++List.replicate k 0) ∧ (ok = true → k = n) := by
  induction n generalizing next fb syms with
  | zero =>
      simp only [addMissing,Prod.mk.injEq] at ha
      obtain ⟨rfl,rfl⟩ := ha
      exact ⟨.refl fb,rfl,rfl,0,le_rfl,by simpa using h,fun _ => rfl⟩
  | succ n ih =>
      rw [addMissing] at ha
      cases hd : fb.addDeltaSize 0 with
      | none =>
          rw [hd] at ha
          simp only [Prod.mk.injEq] at ha
          obtain ⟨rfl,rfl⟩ := ha
          exact ⟨.refl fb,rfl,rfl,0,Nat.zero_le _,by simpa using h,fun e => by simp at e⟩
      | some g =>
          rw [hd] at ha
          have henc := h.toEncodes.addDeltaSize (by omega) hd
          have hbytes := chunkBytes_addDeltaSize hd
          obtain ⟨_,chunks,last,bytes,rfl,_⟩ := addDeltaSize_cases hd
          have hrep : Reports fb.baseSeqNo (syms++[0]) fb.receivedPackets := by
            simpa using h.reports.append (.lost (.nil _))
          have hsize := h.size
          have hg : Built { fb with
              encodedChunks := chunks, lastChunk := last, sizeBytes := bytes
              numSeqNo := fb.numSeqNo+1
              allPackets := if fb.includeLost
                then fb.allPackets++[.lost next] else fb.allPackets } (syms++[0]) := by
            refine ⟨⟨henc.pending,henc.split,henc.count,henc.nonempty⟩,hrep,?_,h.timestamp⟩
            simp only [chunkBytes,List.sum_append,List.sum_singleton,Nat.add_zero] at hbytes hsize ⊢
            omega
          obtain ⟨hh,hr,ht,k,hk,hb,hok⟩ := ih (next+1) hg ha
          refine ⟨SameHeader.trans ⟨rfl,rfl,rfl,rfl,rfl,rfl⟩ hh,hr,ht,k+1,by omega,?_,
            fun e => by rw [hok e]⟩
          rwa [List.append_assoc,List.singleton_append,← List.replicate_succ] at hb

/-- Reporting the next packet, once `AddReceivedPacket` has found it to be next. -/
theorem addNext_spec {fb fb' : TransportFeedback} {seq delta : BitVec 16} {ok : Bool}
    {syms : List ℕ} (h : Built fb syms) (hs : seq = fb.baseSeqNo+fb.numSeqNo)
    (ha : fb.addNext seq delta = (ok,fb')) :
    (ok = false → fb' = fb) ∧ (ok = true → SameHeader fb fb' ∧
      Built fb' (syms++[deltaSizeOf delta]) ∧
      fb'.receivedPackets = fb.receivedPackets++[.withDelta seq delta] ∧
      fb'.lastTimestampUs = fb.lastTimestampUs + delta.toInt*kDeltaScaleFactor) := by
  unfold addNext at ha
  cases hd : fb.addDeltaSize (deltaSizeOf delta) with
  | none =>
      rw [hd] at ha
      simp only [Prod.mk.injEq] at ha
      obtain ⟨rfl,rfl⟩ := ha
      exact ⟨fun _ => rfl,fun e => by simp at e⟩
  | some g =>
      rw [hd] at ha
      simp only [Prod.mk.injEq] at ha
      obtain ⟨rfl,rfl⟩ := ha
      refine ⟨fun e => by simp at e,fun _ => ?_⟩
      have hle : deltaSizeOf delta ≤ 2 := by
        have := deltaSizeOf_range delta
        omega
      have henc := h.toEncodes.addDeltaSize hle hd
      have hbytes := chunkBytes_addDeltaSize hd
      obtain ⟨_,chunks,last,bytes,rfl,_⟩ := addDeltaSize_cases hd
      have hsize := h.size
      have hnum : fb.baseSeqNo+BitVec.ofNat 16 syms.length = seq := by
        rw [hs,h.count,BitVec.ofNat_toNat,BitVec.setWidth_eq]
      refine ⟨⟨rfl,rfl,rfl,rfl,rfl,rfl⟩,⟨⟨henc.pending,henc.split,henc.count,henc.nonempty⟩,
        ?_,?_,?_⟩,rfl,rfl⟩
      · refine h.reports.append ?_
        rw [hnum]
        exact .received (.nil _)
      · simp only [chunkBytes,List.sum_append,List.sum_singleton] at hbytes hsize ⊢
        split <;> simp_all <;> omega
      · intro hts
        have ht := h.timestamp hts
        simp only [getBaseTimeUs,ticksSum_append,ticksSum_withDelta] at ht ⊢
        rw [ht]
        ring

/-- One call of `AddReceivedPacket`. Refused, it appends lost packets at most;
accepted, it appends the gap and the packet, and moves the running timestamp. -/
theorem addReceivedPacket_spec {fb fb' : TransportFeedback} {seq : BitVec 16} {t : ℤ} {ok : Bool}
    {syms : List ℕ} (h : Built fb syms) (ha : fb.addReceivedPacket seq t = (ok,fb')) :
    SameHeader fb fb' ∧
      (ok = false → fb'.receivedPackets = fb.receivedPackets ∧
        fb'.lastTimestampUs = fb.lastTimestampUs ∧ ∃ k, Built fb' (syms++List.replicate k 0)) ∧
      (ok = true → ∃ delta : BitVec 16,
        delta.toInt = (if fb.includeTimestamps then deltaFull t fb.lastTimestampUs else 0) ∧
        fb'.receivedPackets = fb.receivedPackets++[.withDelta seq delta] ∧
        fb'.lastTimestampUs = fb.lastTimestampUs + delta.toInt*kDeltaScaleFactor ∧
        Built fb' (syms++(List.replicate (seq-(fb.baseSeqNo+fb.numSeqNo)).toNat 0++
          [deltaSizeOf delta]))) := by
  unfold addReceivedPacket at ha
  generalize hfull : (if fb.includeTimestamps then deltaFull t fb.lastTimestampUs else 0) = full at ha
  simp only at ha
  have hrefuse : SameHeader fb fb ∧ (false = false → fb.receivedPackets = fb.receivedPackets ∧
      fb.lastTimestampUs = fb.lastTimestampUs ∧ ∃ k, Built fb (syms++List.replicate k 0)) :=
    ⟨.refl fb,fun _ => ⟨rfl,rfl,0,by simpa using h⟩⟩
  split at ha
  · simp only [Prod.mk.injEq] at ha
    obtain ⟨rfl,rfl⟩ := ha
    exact ⟨hrefuse.1,hrefuse.2,fun e => by simp at e⟩
  rename_i hdelta
  simp only [ne_eq,not_not] at hdelta
  split at ha
  · rename_i hnext
    obtain ⟨hf,ht⟩ := addNext_spec h hnext ha
    cases ok with
    | false =>
        rw [hf rfl]
        exact ⟨hrefuse.1,hrefuse.2,fun e => by simp at e⟩
    | true =>
        obtain ⟨hh,hb,hr,hl⟩ := ht rfl
        refine ⟨hh,fun e => by simp at e,fun _ => ⟨_,hdelta,hr,hl,?_⟩⟩
        rw [hnext,BitVec.sub_self]
        simpa using hb
  split at ha
  · simp only [Prod.mk.injEq] at ha
    obtain ⟨rfl,rfl⟩ := ha
    exact ⟨hrefuse.1,hrefuse.2,fun e => by simp at e⟩
  generalize hm : addMissing _ _ fb = r at ha
  obtain ⟨ok',g⟩ := r
  obtain ⟨hh,hr,hl,k,_,hb,hk⟩ := addMissing_spec _ h hm
  cases ok' with
  | false =>
      simp only [Prod.mk.injEq] at ha
      obtain ⟨rfl,rfl⟩ := ha
      exact ⟨hh,fun _ => ⟨hr,hl,k,hb⟩,fun e => by simp at e⟩
  | true =>
      simp only at ha
      have hk' := hk rfl
      have hseq : seq = g.baseSeqNo+g.numSeqNo := by
        have hc := hb.count
        rw [List.length_append,List.length_replicate,h.count,hk'] at hc
        rw [hh.2.2.2.1]
        have hg : g.numSeqNo = fb.numSeqNo+(seq-(fb.baseSeqNo+fb.numSeqNo)) := by
          apply BitVec.eq_of_toNat_eq
          have := g.numSeqNo.isLt
          rw [BitVec.toNat_add]
          omega
        rw [hg]
        generalize fb.baseSeqNo = x
        generalize fb.numSeqNo = y
        bv_omega
      obtain ⟨hf,ht⟩ := addNext_spec hb hseq ha
      cases ok with
      | false =>
          rw [hf rfl]
          exact ⟨hh,fun _ => ⟨hr,hl,k,hb⟩,fun e => by simp at e⟩
      | true =>
          obtain ⟨hh',hb',hr',hl'⟩ := ht rfl
          refine ⟨hh.trans hh',fun e => by simp at e,fun _ => ⟨_,hdelta,?_,?_,?_⟩⟩
          · rw [hr',hr]
          · rw [hl',hl]
          · rwa [hk',List.append_assoc] at hb'

/-! ### When a call is accepted -/

theorem Reports.le_two {s : BitVec 16} {ds : List ℕ} {rs : List ReceivedPacket}
    (h : Reports s ds rs) : ∀ d ∈ ds, d ≤ 2 := by
  induction h with
  | nil => simp
  | lost _ ih => simpa using ih
  | @received s delta ds rs _ ih =>
      have := deltaSizeOf_range delta
      simp only [List.mem_cons,forall_eq_or_imp]
      exact ⟨by omega,ih⟩

theorem TransportFeedback.Full.length_le {chunks : List Chunk} {syms : List ℕ} (h : Full chunks syms) :
    chunks.length ≤ syms.length := by
  induction h with
  | nil => simp
  | cons hne _ _ ih =>
      have := List.length_pos_iff.mpr hne
      simp only [List.length_cons,List.length_append]
      omega

theorem sum_le_two_mul {ds : List ℕ} (h : ∀ d ∈ ds, d ≤ 2) : ds.sum ≤ 2*ds.length := by
  induction ds with
  | nil => simp
  | cons d ds ih =>
      simp only [List.mem_cons,forall_eq_or_imp] at h
      have := ih h.2
      simp only [List.sum_cons,List.length_cons]
      omega

theorem Built.sizeBytes_le {fb : TransportFeedback} {syms : List ℕ} (h : Built fb syms) :
    fb.sizeBytes ≤ 22+4*fb.numSeqNo.toNat := by
  obtain ⟨emitted,hfull,hsyms⟩ := h.split
  have hsum := sum_le_two_mul h.reports.le_two
  have hlen := hfull.length_le
  have hs := h.size
  have hc := h.count
  have hsl := congrArg List.length hsyms
  rw [List.length_append] at hsl
  simp only [chunkBytes,kTransportFeedbackHeaderSizeBytes] at hs
  split at hs <;> split at hs <;> omega

theorem addMissing_isSome {n : ℕ} (next : BitVec 16) {fb : TransportFeedback} {syms : List ℕ}
    (h : Built fb syms) (hn : fb.numSeqNo.toNat+n ≤ 60000) : (addMissing n next fb).1 = true := by
  induction n generalizing next fb syms with
  | zero => rfl
  | succ n ih =>
      have hsize := h.sizeBytes_le
      have hnum : fb.numSeqNo ≠ kMaxReportedPackets := by
        intro he
        rw [he,show (kMaxReportedPackets).toNat = 65535 from rfl] at hn
        omega
      obtain ⟨g,hg⟩ := addDeltaSize_isSome (d := 0) hnum (by simp only [kMaxSizeBytes]; omega)
      have hone := addMissing_spec (n := 1) next h Prod.mk.eta.symm
      obtain ⟨_,_,_,k,_,hb,hk⟩ := hone
      simp only [addMissing,hg,forall_const] at hb hk ⊢
      refine ih (next+1) hb ?_
      have hc := hb.count
      rw [List.length_append,List.length_replicate,h.count] at hc
      omega

/-- A packet in order, not too far ahead and within the range of a delta, is
accepted by a feedback that is not close to its limits. -/
theorem addReceivedPacket_accepts {fb : TransportFeedback} {seq : BitVec 16} {t : ℤ}
    {syms : List ℕ} (h : Built fb syms) (hts : fb.includeTimestamps = true)
    (hdelta : -32768 ≤ deltaFull t fb.lastTimestampUs ∧ deltaFull t fb.lastTimestampUs ≤ 32767)
    (hseq : seq = fb.baseSeqNo+fb.numSeqNo ∨
      seqNumGT seq (fb.baseSeqNo+fb.numSeqNo-1) = true)
    (hn : fb.numSeqNo.toNat+(seq-(fb.baseSeqNo+fb.numSeqNo)).toNat < 60000) :
    (fb.addReceivedPacket seq t).1 = true := by
  have haccept : ∀ (g : TransportFeedback) (ds : List ℕ) (delta : BitVec 16), Built g ds →
      g.numSeqNo.toNat < 60000 → (g.addNext seq delta).1 = true := by
    intro g ds delta hg hlt
    have hsize := hg.sizeBytes_le
    have hd := deltaSizeOf_range delta
    have hnum : g.numSeqNo ≠ kMaxReportedPackets := by
      intro he
      rw [he] at hlt
      simp at hlt
    obtain ⟨g',hg'⟩ := addDeltaSize_isSome (d := deltaSizeOf delta) hnum
      (by simp only [kMaxSizeBytes]; omega)
    simp only [addNext,hg']
  unfold addReceivedPacket
  simp only [hts,if_true]
  rw [if_neg (by rw [ne_eq,not_not,toInt_ofInt16_iff]; exact hdelta)]
  split
  · exact haccept fb syms _ h (by omega)
  rename_i hne
  have hgt := hseq.resolve_left hne
  rw [if_neg (by rw [hgt]; decide)]
  have hok := addMissing_isSome (fb.baseSeqNo+fb.numSeqNo)
    (n := (seq-(fb.baseSeqNo+fb.numSeqNo)).toNat) h (by omega)
  generalize hm : addMissing _ _ fb = r at hok ⊢
  obtain ⟨ok,g⟩ := r
  simp only at hok
  subst hok
  obtain ⟨_,_,_,k,hk,hb,_⟩ := addMissing_spec _ h hm
  have hc := hb.count
  rw [List.length_append,List.length_replicate,h.count] at hc
  exact haccept g _ _ hb (by omega)

/-! ### Rounding of the reported times -/

/-- The tick nearest to a time, as `AddReceivedPacket` rounds it. -/
theorem round_spec (n : ℤ) :
    -125 ≤ n - 250*(n + if n < 0 then -(250/2) else 250/2).tdiv 250 ∧
      n - 250*(n + if n < 0 then -(250/2) else 250/2).tdiv 250 ≤ 125 := by
  split
  · rw [tdiv_of_neg (by omega)]
    omega
  · rw [tdiv_of_nonneg (by omega)]
    omega

/-- An accepted delta carries the running timestamp to within half a tick of the
reported one, modulo the wrap period. The bounds keep a wrapped subtraction far
from every delta that fits. -/
theorem deltaFull_spec {t last : ℤ} (ht : 0 ≤ t) (ht' : t < 2^63) (hl : -600000000000 ≤ last)
    (hl' : last ≤ 2^62)
    (hd : -32768 ≤ deltaFull t last ∧ deltaFull t last ≤ 32767) :
    ∃ k e : ℤ, t = last + kDeltaScaleFactor*deltaFull t last + k*kTimeWrapPeriodUs + e ∧
      -125 ≤ e ∧ e ≤ 125 := by
  unfold deltaFull at hd ⊢
  simp only [kTimeWrapPeriodUs,kDeltaScaleFactor] at hd ⊢
  by_cases hover : t - last < 2^63
  · rw [int64_of_range (by omega) hover] at hd ⊢
    have hnear : ∃ k : ℤ, t - last = k*1073741824000 +
        if (t-last).tmod 1073741824000 > 1073741824000/2
          then (t-last).tmod 1073741824000 - 1073741824000
          else (t-last).tmod 1073741824000 := by
      have hdiv := Int.tmod_add_mul_tdiv (t-last) 1073741824000
      split
      · exact ⟨(t-last).tdiv 1073741824000+1,by omega⟩
      · exact ⟨(t-last).tdiv 1073741824000,by omega⟩
    obtain ⟨k,hk⟩ := hnear
    generalize (if (t-last).tmod 1073741824000 > 1073741824000/2
      then (t-last).tmod 1073741824000 - 1073741824000
      else (t-last).tmod 1073741824000) = n at hd hk ⊢
    obtain ⟨hlo,hhi⟩ := round_spec n
    exact ⟨k,_,by omega,hlo,hhi⟩
  · -- the wrapped difference is about -2^63, far below every delta
    rw [int64_of_overflow (by omega) (by omega),tmod_of_neg (by omega)] at hd
    rw [if_neg (by omega),if_pos (by omega),tdiv_of_neg (by omega)] at hd
    omega

/-- The running timestamp after an accepted packet is its time, to within half a tick and
modulo the wrap period. -/
theorem Built.accepted_time {fb fb' : TransportFeedback} {syms : List ℕ} (hb : Built fb syms)
    (hstamps : fb.includeTimestamps = true)
    (hticks : 0 ≤ fb.baseTimeTicks ∧ fb.baseTimeTicks < 2^24) {seq : BitVec 16} {t : ℤ}
    (ht : 0 ≤ t) (ht' : t < 2^63) (ha : fb.addReceivedPacket seq t = (true,fb')) :
    ∃ k e : ℤ, t = fb'.lastTimestampUs + k*kTimeWrapPeriodUs + e ∧ -125 ≤ e ∧ e ≤ 125 := by
  have hrange := hb.lastTimestamp_range hticks (hb.timestamp hstamps)
  obtain ⟨_,_,hyes⟩ := addReceivedPacket_spec hb ha
  obtain ⟨delta,hdelta,_,hlast,_⟩ := hyes rfl
  rw [hstamps,if_pos rfl] at hdelta
  have hfits : -32768 ≤ deltaFull t fb.lastTimestampUs ∧
      deltaFull t fb.lastTimestampUs ≤ 32767 := by
    rw [← hdelta]
    exact toInt16_range delta
  obtain ⟨k,e,hk,he⟩ := deltaFull_spec ht ht' hrange.1 hrange.2 hfits
  refine ⟨k,e,?_,he⟩
  rw [hlast,hdelta]
  calc
    t = fb.lastTimestampUs + kDeltaScaleFactor*deltaFull t fb.lastTimestampUs +
        k*kTimeWrapPeriodUs + e := hk
    _ = fb.lastTimestampUs + deltaFull t fb.lastTimestampUs*kDeltaScaleFactor +
        k*kTimeWrapPeriodUs + e := by rw [mul_comm kDeltaScaleFactor]

/-- A base time has 24 bits. -/
theorem baseTicks_range {t : ℤ} (ht : 0 ≤ t) :
    0 ≤ (t.tmod kTimeWrapPeriodUs).tdiv kBaseScaleFactor ∧
      (t.tmod kTimeWrapPeriodUs).tdiv kBaseScaleFactor < 2^24 := by
  simp only [kTimeWrapPeriodUs,kBaseScaleFactor]
  rw [tmod_of_nonneg ht,tdiv_of_nonneg (by omega)]
  omega

/-- The first packet of a feedback is at most one base tick after the base time. -/
theorem deltaFull_base {t : ℤ} (ht : 0 ≤ t) (ht' : t < 2^63) :
    0 ≤ deltaFull t ((t.tmod kTimeWrapPeriodUs).tdiv kBaseScaleFactor*kBaseScaleFactor) ∧
      deltaFull t ((t.tmod kTimeWrapPeriodUs).tdiv kBaseScaleFactor*kBaseScaleFactor) ≤ 256 := by
  unfold deltaFull
  simp only [kTimeWrapPeriodUs,kDeltaScaleFactor,kBaseScaleFactor]
  have hbase : (t.tmod 1073741824000).tdiv 64000 = t % 1073741824000/64000 := by
    rw [tmod_of_nonneg ht,tdiv_of_nonneg (by omega)]
  have hrem : 0 ≤ t - t % 1073741824000/64000*64000 ∧
      0 ≤ (t - t % 1073741824000/64000*64000) % 1073741824000 ∧
      (t - t % 1073741824000/64000*64000) % 1073741824000 < 64000 := by omega
  rw [hbase,int64_of_range (by omega) (by omega),tmod_of_nonneg hrem.1]
  generalize (t - t % 1073741824000/64000*64000) % 1073741824000 = r at hrem ⊢
  rw [if_neg (by omega),if_neg (by omega),tdiv_of_nonneg (by omega)]
  omega

end Ylrtc.FeedbackBuilder
