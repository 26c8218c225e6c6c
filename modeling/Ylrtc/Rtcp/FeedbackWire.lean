import Ylrtc.Rtcp.FeedbackBuilder

/-!
# The wire format of a transport feedback

`Serialize`, `Size`, `Clear` and `Parse` of `rtp_rtcp/transport_feedback.cpp`.
`Parse` reads the payload through a raw pointer: past the common fields its
loads are checked against the declared length only. A parser that fails leaves
an object that every caller drops, so only a successful parse returns it.
-/
namespace Ylrtc.FeedbackWire
open ByteBuffer CursorParser FeedbackBuilder MachineInt RtcpHeader StatusChunk TransportFeedback

/-- The loops of `Serialize` over the deltas. -/
def writeDelta (w : ByteWriter) (p : ReceivedPacket) : Option ByteWriter :=
  if 0 ≤ p.deltaTicks.toInt ∧ p.deltaTicks.toInt ≤ 0xff then
    w.writeUInt8 (p.deltaTicks.setWidth 8)
  else w.writeUInt16 p.deltaTicks

/-- `Size`: the bytes built so far, rounded up to a multiple of four. -/
def size (fb : TransportFeedback) : ℕ := 4*((fb.sizeBytes+3)/4)

def paddingLength (fb : TransportFeedback) : ℕ := size fb - fb.sizeBytes

def header (fb : TransportFeedback) : RtcpCommonHeader :=
  { version := 2
    padding := if 0 < paddingLength fb then 1 else 0
    countOrFormat := kTwcc
    packetType := kRtcpTypeRtpfb
    length := BitVec.ofNat 16 ((size fb - kHeaderLength)/4) }

def serializeLastChunk (fb : TransportFeedback) (w : ByteWriter) : Option ByteWriter :=
  if fb.lastChunk.empty then some w else w.writeUInt16 fb.lastChunk.encodeLast

def serializeDeltas (fb : TransportFeedback) (w : ByteWriter) : Option ByteWriter :=
  if fb.includeTimestamps then fb.receivedPackets.foldlM writeDelta w else some w

def serializePadding (n : ℕ) (w : ByteWriter) : Option ByteWriter :=
  if 0 < n then
    (List.replicate (n-1) 0).foldlM ByteWriter.writeUInt8 w >>= fun w =>
      w.writeUInt8 (BitVec.ofNat 8 n)
  else some w

def serialize (fb : TransportFeedback) (w : ByteWriter) : Option ByteWriter := do
  let w ← serializeCommonHeader (header fb) w
  let w ← w.writeUInt32 fb.senderSsrc
  let w ← w.writeUInt32 fb.mediaSsrc
  let w ← w.writeUInt16 fb.baseSeqNo
  let w ← w.writeUInt16 fb.numSeqNo
  let w ← w.writeUInt24 (BitVec.ofInt 32 fb.baseTimeTicks)
  let w ← w.writeUInt8 fb.feedbackSeq
  let w ← fb.encodedChunks.foldlM ByteWriter.writeUInt16 w
  let w ← serializeLastChunk fb w
  let w ← serializeDeltas fb w
  serializePadding (paddingLength fb) w

def clear (fb : TransportFeedback) : TransportFeedback :=
  { fb with numSeqNo := 0, lastTimestampUs := fb.getBaseTimeUs, receivedPackets := []
            allPackets := [], encodedChunks := [], lastChunk := cleared
            sizeBytes := kTransportFeedbackHeaderSizeBytes }

/-- The loop over the status chunks. `payload` is the offset of the pointer
`payload`; each round moves `index` on by two or fails, so `endIndex+1` rounds
are enough. -/
def parseChunks (payload endIndex statusCount : ℕ) :
    ℕ → ℕ → List ℕ → TransportFeedback → Parser (ℕ × List ℕ × TransportFeedback)
  | 0,_,_,_ => Parser.fail
  | fuel+1,index,deltaSizes,fb =>
      if deltaSizes.length < statusCount then do
        Parser.guard (index+kChunkSizeBytes ≤ endIndex)
        let data ← Parser.load (payload+index) 2
        let chunk := loadUInt16BE data
        let lastChunk := decode chunk (statusCount-deltaSizes.length)
        parseChunks payload endIndex statusCount fuel (index+kChunkSizeBytes)
          (deltaSizes++lastChunk.contents)
          { fb with encodedChunks := fb.encodedChunks++[chunk], lastChunk := lastChunk }
      else pure (index,deltaSizes,fb)

/-- A received packet of the parsed list. -/
def addParsed (fb : TransportFeedback) (p : ReceivedPacket) : TransportFeedback :=
  { fb with receivedPackets := fb.receivedPackets++[p]
            allPackets := if fb.includeLost then fb.allPackets++[p] else fb.allPackets
            lastTimestampUs := fb.lastTimestampUs + p.deltaUs }

def addParsedLost (fb : TransportFeedback) (seqNo : BitVec 16) : TransportFeedback :=
  { fb with allPackets :=
      if fb.includeLost then fb.allPackets++[.lost seqNo] else fb.allPackets }

/-- The loop over the deltas. A symbol has two bits, so the last case is the
reserved symbol 3. -/
def parseDeltas (payload endIndex : ℕ) :
    List ℕ → BitVec 16 → ℕ → TransportFeedback → Parser (ℕ × TransportFeedback)
  | [],_,index,fb => pure (index,fb)
  | deltaSize::deltaSizes,seqNo,index,fb => do
      Parser.guard (index+deltaSize ≤ endIndex)
      match deltaSize with
      | 0 => parseDeltas payload endIndex deltaSizes (seqNo+1) index (addParsedLost fb seqNo)
      | 1 =>
          let data ← Parser.load (payload+index) 1
          parseDeltas payload endIndex deltaSizes (seqNo+1) (index+1)
            (addParsed fb (.withDelta seqNo ((data 0).setWidth 16)))
      | 2 =>
          let data ← Parser.load (payload+index) 2
          parseDeltas payload endIndex deltaSizes (seqNo+1) (index+2)
            (addParsed fb (.withDelta seqNo (loadUInt16BE data)))
      | _ => Parser.fail

/-- The statuses of a packet without receive deltas. -/
def addStatuses : List ℕ → BitVec 16 → TransportFeedback → TransportFeedback
  | [],_,fb => fb
  | deltaSize::deltaSizes,seqNo,fb =>
      addStatuses deltaSizes (seqNo+1)
        (if 0 < deltaSize then addParsed fb (.withDelta seqNo 0) else addParsedLost fb seqNo)

/-- Receive deltas are in the packet exactly when they fit. -/
def parseReceived (payload endIndex index : ℕ) (deltaSizes : List ℕ) (fb : TransportFeedback) :
    Parser (ℕ × TransportFeedback) :=
  if endIndex ≥ index+deltaSizes.sum then
    parseDeltas payload endIndex deltaSizes fb.baseSeqNo index fb
  else pure (index,addStatuses deltaSizes fb.baseSeqNo { fb with includeTimestamps := false })

/-- `Parse`, from the chunks on. -/
def parseStatuses (payload endIndex : ℕ) (statusCount : BitVec 16) (fb : TransportFeedback) :
    Parser TransportFeedback := do
  let (index,deltaSizes,fb) ←
    parseChunks payload endIndex statusCount.toNat (endIndex+1) 16 [] fb
  let (index,fb) ← parseReceived payload endIndex index deltaSizes
    { fb with encodedChunks := fb.encodedChunks.dropLast, numSeqNo := statusCount }
  Parser.trySkip (endIndex-kCommonFeedbackLength)
  return { fb with sizeBytes := kHeaderLength+index }

def parse (fb : TransportFeedback) : Parser TransportFeedback := do
  let header ← parseCommonHeader
  Parser.guard (header.packetType = kRtcpTypeRtpfb ∧ header.countOrFormat = kTwcc)
  let (senderSsrc,mediaSsrc) ← parseCommonFeedback
  let current ← Parser.position
  let payload := current-kCommonFeedbackLength
  let base ← Parser.load (payload+8) 2
  let count ← Parser.load (payload+10) 2
  let time ← Parser.load (payload+12) 3
  let seq ← Parser.load (payload+15) 1
  let fb := clear { fb with
    senderSsrc := senderSsrc, mediaSsrc := mediaSsrc, baseSeqNo := loadUInt16BE base
    baseTimeTicks := (loadUInt24BE time).toInt, feedbackSeq := seq 0 }
  let statusCount := loadUInt16BE count
  Parser.guard (statusCount ≠ 0)
  parseStatuses payload (header.length.toNat*4) statusCount fb

/-! ### The bytes `Serialize` writes -/

def deltaBytes (p : ReceivedPacket) : List Byte :=
  if 0 ≤ p.deltaTicks.toInt ∧ p.deltaTicks.toInt ≤ 0xff then [p.deltaTicks.setWidth 8]
  else storeUInt16BE p.deltaTicks

def lastChunkBytes (fb : TransportFeedback) : List Byte :=
  if fb.lastChunk.empty then [] else storeUInt16BE fb.lastChunk.encodeLast

def allDeltaBytes (fb : TransportFeedback) : List Byte :=
  if fb.includeTimestamps then fb.receivedPackets.flatMap deltaBytes else []

def paddingBytes (n : ℕ) : List Byte :=
  if 0 < n then List.replicate (n-1) 0++[BitVec.ofNat 8 n] else []

/-- The fixed fields of the packet, up to the feedback number. -/
def fixedBytes (fb : TransportFeedback) : List Byte :=
  storeUInt16BE fb.baseSeqNo++(storeUInt16BE fb.numSeqNo++
    (storeUInt24BE (BitVec.ofInt 32 fb.baseTimeTicks)++[fb.feedbackSeq]))

def wireBytes (fb : TransportFeedback) : List Byte :=
  (header fb).bytes++((storeUInt32BE fb.senderSsrc++storeUInt32BE fb.mediaSsrc)++
    (fixedBytes fb++((fb.encodedChunks.flatMap storeUInt16BE++lastChunkBytes fb)++
      (allDeltaBytes fb++paddingBytes (paddingLength fb)))))

theorem writeDelta_writes (p : ReceivedPacket) :
    ByteWriter.Writes (fun w => writeDelta w p) (deltaBytes p) := by
  intro w _
  unfold writeDelta deltaBytes
  split <;> rfl

theorem serializeLastChunk_writes (fb : TransportFeedback) :
    ByteWriter.Writes (serializeLastChunk fb) (lastChunkBytes fb) := by
  unfold serializeLastChunk lastChunkBytes
  split
  · exact ByteWriter.writes_nothing
  · exact ByteWriter.writes_writeBytes _

theorem serializeDeltas_writes (fb : TransportFeedback) :
    ByteWriter.Writes (serializeDeltas fb) (allDeltaBytes fb) := by
  unfold serializeDeltas allDeltaBytes
  split
  · exact ByteWriter.Writes.forEach writeDelta_writes fb.receivedPackets
  · exact ByteWriter.writes_nothing

theorem serializePadding_writes (n : ℕ) :
    ByteWriter.Writes (serializePadding n) (paddingBytes n) := by
  unfold serializePadding paddingBytes
  split
  · have h := ByteWriter.Writes.forEach
      (fun b : Byte => ByteWriter.writes_writeBytes [b]) (List.replicate (n-1) 0)
    rw [List.flatMap_singleton'] at h
    exact h.bind (ByteWriter.writes_writeBytes _)
  · exact ByteWriter.writes_nothing

theorem serialize_writes (fb : TransportFeedback) :
    ByteWriter.Writes (serialize fb) (wireBytes fb) := by
  have hchunks : ByteWriter.Writes (fun w => fb.encodedChunks.foldlM ByteWriter.writeUInt16 w)
      (fb.encodedChunks.flatMap storeUInt16BE) :=
    ByteWriter.Writes.forEach (fun c => ByteWriter.writes_writeBytes _) fb.encodedChunks
  have hbytes : wireBytes fb = (header fb).bytes++(storeUInt32BE fb.senderSsrc++
      (storeUInt32BE fb.mediaSsrc++(storeUInt16BE fb.baseSeqNo++(storeUInt16BE fb.numSeqNo++
      (storeUInt24BE (BitVec.ofInt 32 fb.baseTimeTicks)++([fb.feedbackSeq]++
      (fb.encodedChunks.flatMap storeUInt16BE++(lastChunkBytes fb++(allDeltaBytes fb++
      paddingBytes (paddingLength fb)))))))))) := by
    simp only [wireBytes,fixedBytes,List.append_assoc]
  rw [hbytes]
  exact (ByteWriter.writes_writeBytes _).bind <| (ByteWriter.writes_writeBytes _).bind <|
    (ByteWriter.writes_writeBytes _).bind <| (ByteWriter.writes_writeBytes _).bind <|
    (ByteWriter.writes_writeBytes _).bind <| (ByteWriter.writes_writeBytes _).bind <|
    (ByteWriter.writes_writeBytes _).bind <| hchunks.bind <|
    (serializeLastChunk_writes fb).bind <| (serializeDeltas_writes fb).bind <|
    serializePadding_writes _

/-! ### Sizes -/

theorem deltaBytes_withDelta_length (s delta : BitVec 16) :
    (deltaBytes (.withDelta s delta)).length = deltaSizeOf delta := by
  simp only [deltaBytes,deltaSizeOf]
  by_cases h : 0 ≤ delta.toInt ∧ delta.toInt ≤ 0xff
  · rw [if_pos h,if_pos h]; rfl
  · rw [if_neg h,if_neg h]; rfl

theorem flatMap_deltaBytes_length {s : BitVec 16} {ds : List ℕ} {rs : List ReceivedPacket}
    (h : Reports s ds rs) : (rs.flatMap deltaBytes).length = ds.sum := by
  induction h with
  | nil => rfl
  | lost _ ih => rw [ih,List.sum_cons,Nat.zero_add]
  | received _ ih =>
      rw [List.flatMap_cons,List.length_append,ih,List.sum_cons,deltaBytes_withDelta_length]

theorem chunks_length (chunks : List Chunk) :
    (chunks.flatMap storeUInt16BE).length = 2*chunks.length := by
  induction chunks with
  | nil => rfl
  | cons c cs ih =>
      rw [List.flatMap_cons,List.length_append,ih,storeUInt16BE_length,List.length_cons]
      omega

theorem paddingBytes_length (n : ℕ) : (paddingBytes n).length = n := by
  unfold paddingBytes
  split
  · rw [List.length_append,List.length_replicate,List.length_singleton]
    omega
  · rw [List.length_nil]
    omega

theorem wireBytes_length {fb : TransportFeedback} {syms : List ℕ} (h : Built fb syms) :
    (wireBytes fb).length = size fb := by
  have hs := h.size
  have hd : (allDeltaBytes fb).length = if fb.includeTimestamps then syms.sum else 0 := by
    unfold allDeltaBytes
    split
    · exact flatMap_deltaBytes_length h.reports
    · rfl
  have hl : (lastChunkBytes fb).length = if fb.lastChunk.size = 0 then 0 else 2 := by
    simp only [lastChunkBytes,LastChunk.empty,beq_iff_eq]
    split <;> rfl
  have hsize : fb.sizeBytes+paddingLength fb = size fb := by
    simp only [paddingLength,size]
    omega
  simp only [wireBytes,fixedBytes,List.length_append,RtcpCommonHeader.bytes_length,
    storeUInt32BE_length,storeUInt24BE_length,storeUInt16BE_length,List.length_singleton,
    chunks_length,hl,hd,paddingBytes_length,← hsize,hs,chunkBytes,
    kTransportFeedbackHeaderSizeBytes]
  omega

/-! ### The size limit -/

theorem addDeltaSize_size_le {fb fb' : TransportFeedback} {d : ℕ}
    (h : fb.addDeltaSize d = some fb') : fb'.sizeBytes+d ≤ kMaxSizeBytes := by
  unfold TransportFeedback.addDeltaSize at h
  split at h
  · simp at h
  generalize (if fb.lastChunk.empty then kChunkSizeBytes else 0) = addChunkSize at h
  simp only at h
  split at h
  · simp at h
  split at h
  · obtain rfl := Option.some.inj h
    simp only
    omega
  split at h
  · simp at h
  · obtain rfl := Option.some.inj h
    simp only
    omega

theorem addMissing_size_le (n : ℕ) (next : BitVec 16) {fb : TransportFeedback}
    (h : fb.sizeBytes ≤ kMaxSizeBytes) :
    (addMissing n next fb).2.sizeBytes ≤ kMaxSizeBytes := by
  induction n generalizing next fb with
  | zero => exact h
  | succ n ih =>
      rw [addMissing]
      cases hd : fb.addDeltaSize 0 with
      | none => exact h
      | some g => exact ih (next+1) (addDeltaSize_size_le hd)

theorem addNext_size_le {fb : TransportFeedback} {seq delta : BitVec 16}
    (h : fb.sizeBytes ≤ kMaxSizeBytes) :
    (fb.addNext seq delta).2.sizeBytes ≤ kMaxSizeBytes := by
  unfold TransportFeedback.addNext
  cases hd : fb.addDeltaSize (deltaSizeOf delta) with
  | none => exact h
  | some g =>
      have hg := addDeltaSize_size_le hd
      simp only
      split <;> omega

/-- No call takes the packet past the size the length field can declare. -/
theorem addReceivedPacket_size_le {fb : TransportFeedback} {seq : BitVec 16} {t : ℤ}
    (h : fb.sizeBytes ≤ kMaxSizeBytes) :
    (fb.addReceivedPacket seq t).2.sizeBytes ≤ kMaxSizeBytes := by
  unfold TransportFeedback.addReceivedPacket
  generalize (if fb.includeTimestamps then deltaFull t fb.lastTimestampUs else 0) = full
  simp only
  split
  · exact h
  split
  · exact addNext_size_le h
  split
  · exact h
  have hm := addMissing_size_le (seq-(fb.baseSeqNo+fb.numSeqNo)).toNat
    (fb.baseSeqNo+fb.numSeqNo) h
  generalize addMissing _ _ fb = r at hm ⊢
  obtain ⟨ok,g⟩ := r
  cases ok with
  | false => exact hm
  | true => exact addNext_size_le hm

/-! ### Reading the status chunks back -/

section Read
variable {b : Region} (payload endIndex : ℕ) {statusCount : ℕ}

theorem parseChunks_step (fuel : ℕ) {index : ℕ} {acc : List ℕ} (fb : TransportFeedback)
    (c : Cursor) {chunk : Chunk} (hcount : acc.length < statusCount) (hend : index+2 ≤ endIndex)
    (hb : b.Holds (payload+index) (storeUInt16BE chunk)) :
    ∃ t, (parseChunks payload endIndex statusCount (fuel+1) index acc fb).run b c =
      (parseChunks payload endIndex statusCount fuel (index+2)
        (acc++symbols chunk (statusCount-acc.length))
        { fb with encodedChunks := fb.encodedChunks++[chunk]
                  lastChunk := decode chunk (statusCount-acc.length) }).run b ⟨c.start,t⟩ := by
  refine ⟨List.range' (payload+index) 2 ++ c.touched,?_⟩
  rw [parseChunks,if_pos hcount,Parser.bind_of_some (Parser.guard_of hend b c),
    Parser.bind_of_some (Parser.run_load _ _ _ _)]
  simp only [loadUInt16BE_of_holds hb]
  rfl

theorem parseChunks_done (fuel index : ℕ) {acc : List ℕ} (fb : TransportFeedback)
    (h : ¬acc.length < statusCount) :
    parseChunks payload endIndex statusCount (fuel+1) index acc fb = pure (index,acc,fb) := by
  rw [parseChunks,if_neg h]

/-- The chunk loop reads the emitted chunks and the pending one back. -/
theorem parseChunks_of_full {chunks : List Chunk} {emitted : List ℕ}
    (h : Full chunks emitted) {last : LastChunk} (hl : last.WellFormed)
    (hne : last.size ≠ 0) (fuel index : ℕ) (acc : List ℕ) (fb : TransportFeedback) (c : Cursor)
    (hcount : statusCount = acc.length+emitted.length+last.size)
    (hfuel : chunks.length+2 ≤ fuel) (hend : index+2*(chunks.length+1) ≤ endIndex)
    (hb : b.Holds (payload+index)
      (chunks.flatMap storeUInt16BE++storeUInt16BE last.encodeLast)) :
    ∃ t, (parseChunks payload endIndex statusCount fuel index acc fb).run b c =
      (some (index+2*(chunks.length+1),acc++(emitted++last.contents),
        { fb with encodedChunks := fb.encodedChunks++(chunks++[last.encodeLast])
                  lastChunk := decode last.encodeLast last.size }),⟨c.start,t⟩) := by
  induction h generalizing fuel index acc fb c with
  | nil =>
      obtain ⟨fuel,rfl⟩ : ∃ k, fuel = k+2 := ⟨fuel-2,by rw [List.length_nil] at hfuel; omega⟩
      rw [List.length_nil] at hcount hend
      rw [List.flatMap_nil,List.nil_append] at hb
      obtain ⟨t,ht⟩ := parseChunks_step payload endIndex (fuel+1) fb c
        (by omega : acc.length < statusCount) (by omega) hb
      have hsize : statusCount-acc.length = last.size := by omega
      have hdone : ¬(acc++last.contents).length < statusCount := by
        rw [List.length_append,hl.contents_length]
        omega
      rw [hsize,hl.encodeLast_symbols,parseChunks_done _ _ _ _ _ hdone] at ht
      exact ⟨t,ht⟩
  | @cons chunk chunks out rest hout hread _ ih =>
      obtain ⟨fuel,rfl⟩ : ∃ k, fuel = k+1 := ⟨fuel-1,by omega⟩
      simp only [List.length_cons,List.length_append] at hcount hend hfuel
      rw [List.flatMap_cons,List.append_assoc,Region.holds_append] at hb
      obtain ⟨t,ht⟩ := parseChunks_step payload endIndex fuel fb c
        (by omega : acc.length < statusCount) (by omega) hb.1
      rw [hread _ (by omega)] at ht
      obtain ⟨u,hu⟩ := ih fuel (index+2) (acc++out)
        { fb with encodedChunks := fb.encodedChunks++[chunk]
                  lastChunk := decode chunk (statusCount-acc.length) }
        ⟨c.start,t⟩ (by rw [List.length_append]; omega) (by omega) (by omega) hb.2
      refine ⟨u,?_⟩
      rw [ht,hu]
      have hindex : index+2+2*(chunks.length+1) = index+2*(chunks.length+1+1) := by omega
      simp only [List.append_assoc,List.cons_append,List.length_cons,List.nil_append,hindex]

theorem setWidth_delta {delta : BitVec 16} (h : 0 ≤ delta.toInt ∧ delta.toInt ≤ 0xff) :
    (delta.setWidth 8).setWidth 16 = delta := by
  have hlt := delta.isLt
  have hi := BitVec.toInt_eq_toNat_cond delta
  apply BitVec.eq_of_toNat_eq
  simp only [BitVec.toNat_setWidth]
  split at hi <;> omega

theorem parseDeltas_lost {ds : List ℕ} (s : BitVec 16) {index : ℕ} (fb : TransportFeedback)
    (c : Cursor) (hend : index ≤ endIndex) :
    (parseDeltas payload endIndex (0::ds) s index fb).run b c =
      (parseDeltas payload endIndex ds (s+1) index (addParsedLost fb s)).run b c := by
  rw [parseDeltas]
  exact Parser.bind_of_some (Parser.guard_of hend b c) _

theorem parseDeltas_received {ds : List ℕ} (s delta : BitVec 16) {index : ℕ}
    (fb : TransportFeedback) (c : Cursor) (hend : index+deltaSizeOf delta ≤ endIndex)
    (hb : b.Holds (payload+index) (deltaBytes (.withDelta s delta))) :
    ∃ t, (parseDeltas payload endIndex (deltaSizeOf delta::ds) s index fb).run b c =
      (parseDeltas payload endIndex ds (s+1) (index+deltaSizeOf delta)
        (addParsed fb (.withDelta s delta))).run b ⟨c.start,t⟩ := by
  refine ⟨List.range' (payload+index) (deltaSizeOf delta)++c.touched,?_⟩
  by_cases hd : 0 ≤ delta.toInt ∧ delta.toInt ≤ 0xff
  · have hsize : deltaSizeOf delta = 1 := if_pos hd
    simp only [deltaBytes,if_pos hd] at hb
    have h0 := hb.2 0 (by simp)
    simp only [Nat.add_zero,List.getElem_cons_zero] at h0
    rw [hsize] at hend ⊢
    rw [parseDeltas,Parser.bind_of_some (Parser.guard_of hend b c),
      Parser.bind_of_some (Parser.run_load _ _ _ _)]
    simp only [Nat.add_zero,h0,setWidth_delta hd]
  · have hsize : deltaSizeOf delta = 2 := if_neg hd
    simp only [deltaBytes,if_neg hd] at hb
    rw [hsize] at hend ⊢
    rw [parseDeltas,Parser.bind_of_some (Parser.guard_of hend b c),
      Parser.bind_of_some (Parser.run_load _ _ _ _)]
    simp only [loadUInt16BE_of_holds hb]

/-- The delta loop reads the received packets back. -/
theorem parseDeltas_of_reports {s : BitVec 16} {ds : List ℕ} {rs : List ReceivedPacket}
    (h : Reports s ds rs) (index : ℕ) (fb : TransportFeedback) (c : Cursor)
    (hend : index+ds.sum ≤ endIndex) (hb : b.Holds (payload+index) (rs.flatMap deltaBytes)) :
    ∃ t g, (parseDeltas payload endIndex ds s index fb).run b c =
        (some (index+ds.sum,g),⟨c.start,t⟩) ∧
      SameHeader fb g ∧ g.numSeqNo = fb.numSeqNo ∧
      g.receivedPackets = fb.receivedPackets++rs := by
  induction h generalizing index fb c with
  | nil =>
      exact ⟨c.touched,fb,rfl,.refl fb,rfl,(List.append_nil _).symm⟩
  | @lost s ds rs _ ih =>
      rw [List.sum_cons,Nat.zero_add] at hend ⊢
      obtain ⟨t,g,ht,hh,hn,hr⟩ := ih index (addParsedLost fb s) c hend hb
      exact ⟨t,g,(parseDeltas_lost payload endIndex s fb c (by omega)).trans ht,
        SameHeader.trans ⟨rfl,rfl,rfl,rfl,rfl,rfl⟩ hh,hn,hr⟩
  | @received s delta ds rs _ ih =>
      rw [List.sum_cons,← Nat.add_assoc] at hend ⊢
      rw [List.flatMap_cons,Region.holds_append,deltaBytes_withDelta_length,Nat.add_assoc] at hb
      obtain ⟨u,hu⟩ := parseDeltas_received payload endIndex s delta fb c (by omega) hb.1
      obtain ⟨t,g,ht,hh,hn,hr⟩ := ih (index+deltaSizeOf delta)
        (addParsed fb (.withDelta s delta)) ⟨c.start,u⟩ hend hb.2
      refine ⟨t,g,hu.trans ht,SameHeader.trans ⟨rfl,rfl,rfl,rfl,rfl,rfl⟩ hh,hn,?_⟩
      rw [hr,addParsed,List.append_assoc,List.singleton_append]

end Read

/-! ### The round trip -/

/-- The object `Parse` starts filling, once it has the fixed fields of `fb`. -/
def parsedHeader (fresh fb : TransportFeedback) : TransportFeedback :=
  clear { fresh with senderSsrc := fb.senderSsrc, mediaSsrc := fb.mediaSsrc
                     baseSeqNo := fb.baseSeqNo, baseTimeTicks := fb.baseTimeTicks
                     feedbackSeq := fb.feedbackSeq }

theorem size_spec (fb : TransportFeedback) :
    fb.sizeBytes ≤ size fb ∧ size fb < fb.sizeBytes+4 ∧ 4 ∣ size fb := by
  unfold size
  omega

theorem size_le {fb : TransportFeedback} (h : fb.sizeBytes ≤ kMaxSizeBytes) :
    size fb ≤ kMaxSizeBytes := by
  unfold size
  simp only [kMaxSizeBytes] at h ⊢
  omega

theorem le_sizeBytes {fb : TransportFeedback} {syms : List ℕ} (h : Built fb syms) :
    20 ≤ fb.sizeBytes := by
  rw [h.size]
  simp only [kTransportFeedbackHeaderSizeBytes]
  omega

theorem header_length {fb : TransportFeedback} (hs : 20 ≤ fb.sizeBytes)
    (h : fb.sizeBytes ≤ kMaxSizeBytes) :
    (header fb).length.toNat = size fb/4 - 1 := by
  have hle := size_le h
  have hspec := size_spec fb
  simp only [header,BitVec.toNat_ofNat,kHeaderLength]
  simp only [kMaxSizeBytes] at hle
  omega

/-- `Parse`, from the deltas on. -/
def parseTail (payload endIndex index : ℕ) (deltaSizes : List ℕ) (fb : TransportFeedback) :
    Parser TransportFeedback := do
  let (index,fb) ← parseReceived payload endIndex index deltaSizes fb
  Parser.trySkip (endIndex-kCommonFeedbackLength)
  return { fb with sizeBytes := kHeaderLength+index }

theorem parseStatuses_eq (payload endIndex : ℕ) (statusCount : BitVec 16)
    (fb : TransportFeedback) :
    parseStatuses payload endIndex statusCount fb =
      parseChunks payload endIndex statusCount.toNat (endIndex+1) 16 [] fb >>= fun r =>
        parseTail payload endIndex r.1 r.2.1
          { r.2.2 with encodedChunks := r.2.2.encodedChunks.dropLast, numSeqNo := statusCount } :=
  rfl

/-- The same object once it has the status chunks of `fb`. -/
def parsedChunks (fresh fb : TransportFeedback) : TransportFeedback :=
  { parsedHeader fresh fb with
    encodedChunks := fb.encodedChunks, numSeqNo := fb.numSeqNo
    lastChunk := decode fb.lastChunk.encodeLast fb.lastChunk.size }

/-- A status count above zero leaves symbols in the pending chunk. -/
theorem pending_ne_zero {fb : TransportFeedback} {syms : List ℕ} (h : Built fb syms)
    (hcount : fb.numSeqNo ≠ 0) : fb.lastChunk.size ≠ 0 := by
  intro h0
  obtain ⟨emitted,hfull,hsyms⟩ := h.split
  have hlen := h.count
  have hc := h.nonempty h0
  rw [hc] at hfull
  cases hfull
  have := h.pending.contents_length
  rw [hsyms,List.nil_append,this,h0] at hlen
  exact hcount (BitVec.eq_of_toNat_eq hlen.symm)

/-- Where the deltas of a feedback start, counted from the header's end. -/
theorem deltas_index {fb : TransportFeedback} {syms : List ℕ} (h : Built fb syms)
    (hcount : fb.numSeqNo ≠ 0) :
    4+(16+2*(fb.encodedChunks.length+1))+(if fb.includeTimestamps then syms.sum else 0) =
      fb.sizeBytes := by
  have hs := h.size
  simp only [chunkBytes,if_neg (pending_ne_zero h hcount),kTransportFeedbackHeaderSizeBytes] at hs
  omega

/-- The chunks of a built feedback, read back behind its header. -/
theorem parseStatuses_chunks {fb : TransportFeedback} {syms : List ℕ} (h : Built fb syms)
    (hcount : fb.numSeqNo ≠ 0) (fresh : TransportFeedback) (b : Region) (t₀ : List ℕ)
    (hb : b.Holds 20 (fb.encodedChunks.flatMap storeUInt16BE++lastChunkBytes fb)) :
    ∃ t, (parseStatuses 4 (size fb-4) fb.numSeqNo (parsedHeader fresh fb)).run b ⟨12,t₀⟩ =
      (parseTail 4 (size fb-4) (16+2*(fb.encodedChunks.length+1)) syms
        (parsedChunks fresh fb)).run b ⟨12,t⟩ := by
  obtain ⟨emitted,hfull,hsyms⟩ := h.split
  have hspec := size_spec fb
  have hne := pending_ne_zero h hcount
  have hindex := deltas_index h hcount
  have hlast : lastChunkBytes fb = storeUInt16BE fb.lastChunk.encodeLast := by
    simp only [lastChunkBytes,LastChunk.empty,beq_iff_eq,if_neg hne]
  rw [hlast] at hb
  have hstatus : fb.numSeqNo.toNat = ([] : List ℕ).length+emitted.length+fb.lastChunk.size := by
    rw [← h.count,hsyms,List.length_append,h.pending.contents_length,List.length_nil,Nat.zero_add]
  obtain ⟨t,ht⟩ := parseChunks_of_full 4 (size fb-4) hfull h.pending hne
    (size fb-4+1) 16 [] (parsedHeader fresh fb) ⟨12,t₀⟩ hstatus (by omega) (by omega) hb
  rw [← hsyms,List.nil_append] at ht
  have hchunks : (parsedHeader fresh fb).encodedChunks = [] := rfl
  refine ⟨t,?_⟩
  rw [parseStatuses_eq,Parser.bind_of_some ht]
  simp only [hchunks,List.nil_append,List.dropLast_concat]
  rfl

/-- The chunks and deltas of a built feedback, read back behind its header. -/
theorem parseStatuses_wire {fb : TransportFeedback} {syms : List ℕ} (h : Built fb syms)
    (hts : fb.includeTimestamps = true) (hcount : fb.numSeqNo ≠ 0)
    (fresh : TransportFeedback) (hfresh : fresh.includeTimestamps = true) (b : Region)
    (hsize : b.size = size fb) (t₀ : List ℕ)
    (hb : b.Holds 20 (fb.encodedChunks.flatMap storeUInt16BE++lastChunkBytes fb))
    (hd : b.Holds (20+(fb.encodedChunks.flatMap storeUInt16BE++lastChunkBytes fb).length)
      (allDeltaBytes fb)) :
    ∃ g t, (parseStatuses 4 (size fb-4) fb.numSeqNo (parsedHeader fresh fb)).run b ⟨12,t₀⟩ =
        (some g,⟨size fb,t⟩) ∧
      SameHeader fb g ∧ g.numSeqNo = fb.numSeqNo ∧ g.receivedPackets = fb.receivedPackets := by
  have hspec := size_spec fb
  have hindex := deltas_index h hcount
  rw [hts,if_pos rfl] at hindex
  have hlast : (lastChunkBytes fb).length = 2 := by
    simp only [lastChunkBytes,LastChunk.empty,beq_iff_eq,if_neg (pending_ne_zero h hcount)]
    rfl
  simp only [allDeltaBytes,hts,if_true,List.length_append,chunks_length,hlast] at hd
  have hoffset : 4+(16+2*(fb.encodedChunks.length+1)) =
      20+(2*fb.encodedChunks.length+2) := by omega
  obtain ⟨t,ht⟩ := parseStatuses_chunks h hcount fresh b t₀ hb
  obtain ⟨u,g,hg,hh,hn,hr⟩ := parseDeltas_of_reports 4 (size fb-4) h.reports
    (16+2*(fb.encodedChunks.length+1)) (parsedChunks fresh fb) ⟨12,t⟩
    (by omega) (by rw [hoffset]; exact hd)
  have hparsed : SameHeader fb (parsedChunks fresh fb) :=
    ⟨hfresh.trans hts.symm,rfl,rfl,rfl,rfl,rfl⟩
  refine ⟨{ g with sizeBytes := kHeaderLength+(16+2*(fb.encodedChunks.length+1)+syms.sum) },u,
    ?_,hparsed.trans hh,hn,hr⟩
  have hreceived : (parseReceived 4 (size fb-4) (16+2*(fb.encodedChunks.length+1)) syms
      (parsedChunks fresh fb)).run b ⟨12,t⟩ =
        (some (16+2*(fb.encodedChunks.length+1)+syms.sum,g),⟨12,u⟩) := by
    rw [parseReceived,if_pos (by omega)]
    exact hg
  have hend : 12+(size fb-4-kCommonFeedbackLength) = size fb := by
    simp only [kCommonFeedbackLength]
    omega
  rw [ht,parseTail,Parser.bind_of_some hreceived]
  simp only
  rw [Parser.bind_of_some (Parser.trySkip_of_le (by rw [hend,hsize])),Parser.run_pure,hend]

/-- The fixed fields of a built feedback, read back. -/
theorem parse_fixed {fb : TransportFeedback} {syms : List ℕ} (h : Built fb syms)
    (htime : 0 ≤ fb.baseTimeTicks ∧ fb.baseTimeTicks < 2^24)
    (hmax : fb.sizeBytes ≤ kMaxSizeBytes) (fresh : TransportFeedback) {b : Region}
    (hb : b.Holds 0 (wireBytes fb)) :
    ∃ t, (parse fresh).run b ⟨0,[]⟩ = (Parser.guard (fb.numSeqNo ≠ 0) >>= fun _ =>
      parseStatuses 4 (size fb-4) fb.numSeqNo (parsedHeader fresh fb)).run b ⟨12,t⟩ := by
  have hspec := size_spec fb
  have hlength := header_length (le_sizeBytes h) hmax
  simp only [wireBytes,fixedBytes,Region.holds_append,RtcpCommonHeader.bytes_length,
    storeUInt32BE_length,storeUInt24BE_length,storeUInt16BE_length,List.length_append,
    List.length_singleton,Nat.zero_add,Nat.reduceAdd] at hb
  obtain ⟨hheader,hssrcs,⟨hbase,hnum,htimeb,hseq⟩,_⟩ := hb
  obtain ⟨t,ht⟩ := parseCommonFeedback_of_holds
    (c := ⟨4,List.range' 0 4++[]⟩) (Region.holds_append.mpr hssrcs)
  have hticks : (BitVec.ofInt 32 fb.baseTimeTicks).toInt = fb.baseTimeTicks := by
    rw [BitVec.toInt_ofInt,Int.bmod_def]
    split <;> omega
  have hticks' : (BitVec.ofInt 32 fb.baseTimeTicks).toNat < 2^24 := by
    rw [BitVec.toNat_ofInt]
    omega
  have hword : (header fb).length.toNat*4 = size fb-4 := by
    have := le_sizeBytes h
    omega
  have hfb : parsedHeader fresh fb = clear { fresh with
      senderSsrc := fb.senderSsrc, mediaSsrc := fb.mediaSsrc
      baseSeqNo := loadUInt16BE fun i => b.bytes (12+i)
      baseTimeTicks := (loadUInt24BE fun i => b.bytes (16+i)).toInt
      feedbackSeq := b.bytes (19+0) } := by
    rw [loadUInt16BE_of_holds hbase,loadUInt24BE_of_holds hticks' htimeb,hticks,
      hseq.2 0 Nat.one_pos]
    rfl
  refine ⟨List.range' 19 1++(List.range' 16 3++(List.range' 14 2++(List.range' 12 2++t))),?_⟩
  unfold parse
  rw [Parser.bind_of_some (parseCommonHeader_of_holds hheader),
    Parser.bind_of_some (Parser.guard_of ⟨rfl,rfl⟩ _ _),Parser.bind_of_some ht]
  simp only
  rw [Parser.bind_of_some (Parser.run_position _ _)]
  simp only [kCommonFeedbackLength,Nat.reduceAdd,Nat.reduceSub]
  rw [Parser.bind_of_some (Parser.run_load _ _ _ _),Parser.bind_of_some (Parser.run_load _ _ _ _),
    Parser.bind_of_some (Parser.run_load _ _ _ _),Parser.bind_of_some (Parser.run_load _ _ _ _)]
  simp only [Nat.reduceAdd]
  rw [loadUInt16BE_of_holds hnum,← hfb,hword]

/-- `Parse` of the bytes of a built feedback by a fresh object. -/
theorem parse_wire {fb : TransportFeedback} {syms : List ℕ} (h : Built fb syms)
    (hts : fb.includeTimestamps = true) (hcount : fb.numSeqNo ≠ 0)
    (htime : 0 ≤ fb.baseTimeTicks ∧ fb.baseTimeTicks < 2^24)
    (hmax : fb.sizeBytes ≤ kMaxSizeBytes) {fresh : TransportFeedback}
    (hfresh : fresh.includeTimestamps = true) {b : Region} (hsize : b.size = size fb)
    (hb : b.Holds 0 (wireBytes fb)) :
    ∃ g t, (parse fresh).run b ⟨0,[]⟩ = (some g,⟨size fb,t⟩) ∧
      SameHeader fb g ∧ g.numSeqNo = fb.numSeqNo ∧ g.receivedPackets = fb.receivedPackets := by
  have hparts := hb
  simp only [wireBytes,fixedBytes,Region.holds_append,RtcpCommonHeader.bytes_length,
    storeUInt32BE_length,storeUInt24BE_length,storeUInt16BE_length,List.length_append,
    List.length_singleton,Nat.zero_add,Nat.reduceAdd] at hparts
  obtain ⟨_,_,_,hchunks,hdeltas,_⟩ := hparts
  obtain ⟨t,ht⟩ := parse_fixed h htime hmax fresh hb
  rw [Parser.bind_of_some (Parser.guard_of hcount _ _)] at ht
  obtain ⟨g,u,hg,hsame⟩ := parseStatuses_wire h hts hcount fresh hfresh b hsize t
    (Region.holds_append.mpr hchunks) (by simpa only [List.length_append] using hdeltas)
  exact ⟨g,u,ht.trans hg,hsame⟩

/-- A feedback that carries timestamps, as its user sets it up. -/
def start (includeLost : Bool) (base : BitVec 16) (refTimestampUs : ℤ) (feedbackSeq : BitVec 8)
    (senderSsrc mediaSsrc : BitVec 32) : TransportFeedback :=
  (((({ includeTimestamps := true, includeLost := includeLost } : TransportFeedback).setBase base
    refTimestampUs).setFeedbackSequenceNumber feedbackSeq).setSenderSsrc senderSsrc).setMediaSsrc
      mediaSsrc

/-- A sequence of `AddReceivedPacket` calls, accepted or refused. -/
def addAll (fb : TransportFeedback) (calls : List (BitVec 16 × ℤ)) : TransportFeedback :=
  calls.foldl (fun fb call => (fb.addReceivedPacket call.1 call.2).2) fb

theorem addAll_spec {fb : TransportFeedback} {syms : List ℕ} (h : Built fb syms)
    (hmax : fb.sizeBytes ≤ kMaxSizeBytes) (calls : List (BitVec 16 × ℤ)) :
    SameHeader fb (addAll fb calls) ∧ (addAll fb calls).sizeBytes ≤ kMaxSizeBytes ∧
      ∃ syms', Built (addAll fb calls) syms' := by
  induction calls generalizing fb syms with
  | nil => exact ⟨.refl fb,hmax,syms,h⟩
  | cons call calls ih =>
      obtain ⟨hh,hno,hyes⟩ := addReceivedPacket_spec h
        (Prod.mk.eta (p := fb.addReceivedPacket call.1 call.2)).symm
      have hnext : ∃ syms', Built (fb.addReceivedPacket call.1 call.2).2 syms' := by
        cases hok : (fb.addReceivedPacket call.1 call.2).1 with
        | false =>
            obtain ⟨_,_,k,hb⟩ := hno hok
            exact ⟨_,hb⟩
        | true =>
            obtain ⟨_,_,_,_,hb⟩ := hyes hok
            exact ⟨_,hb⟩
      obtain ⟨syms',hb⟩ := hnext
      obtain ⟨hh',hmax',hb'⟩ := ih hb (addReceivedPacket_size_le hmax)
      exact ⟨hh.trans hh',hmax',hb'⟩

theorem start_built (includeLost : Bool) (base : BitVec 16) (refTimestampUs : ℤ)
    (feedbackSeq : BitVec 8) (senderSsrc mediaSsrc : BitVec 32) :
    Built (start includeLost base refTimestampUs feedbackSeq senderSsrc mediaSsrc) [] :=
  Fresh.built ⟨rfl,rfl,rfl,rfl,rfl,rfl⟩

theorem start_baseTimeTicks (includeLost : Bool) (base : BitVec 16) {refTimestampUs : ℤ}
    (feedbackSeq : BitVec 8) (senderSsrc mediaSsrc : BitVec 32) (h : 0 ≤ refTimestampUs) :
    0 ≤ (start includeLost base refTimestampUs feedbackSeq senderSsrc mediaSsrc).baseTimeTicks ∧
      (start includeLost base refTimestampUs feedbackSeq senderSsrc mediaSsrc).baseTimeTicks <
        2^24 :=
  baseTicks_range h

theorem wireBytes_lt {fb : TransportFeedback} {syms : List ℕ} (h : Built fb syms)
    (hmax : fb.sizeBytes ≤ kMaxSizeBytes) : (wireBytes fb).length < 2^63 := by
  have hle := size_le hmax
  rw [wireBytes_length h]
  simp only [kMaxSizeBytes] at hle
  omega

/-- `Serialize` fills a buffer of the announced size. -/
theorem serialize_built {fb : TransportFeedback} {syms : List ℕ} (h : Built fb syms)
    (buffer : List Byte) (hbuffer : buffer.length = size fb) :
    serialize fb (.on buffer) = some ⟨wireBytes fb,buffer.length⟩ := by
  rw [serialize_writes fb (.on buffer) (Nat.zero_le _),
    ByteWriter.writeBytes_fill _ _ ((wireBytes_length h).trans hbuffer.symm)]

/-- Serializing into a buffer of the announced size fills it with a packet of
the announced length, and a fresh object parses exactly the same feedback. -/
theorem parse_serialize (includeLost includeLost' : Bool) (base : BitVec 16) (refTimestampUs : ℤ)
    (feedbackSeq : BitVec 8) (senderSsrc mediaSsrc : BitVec 32) (calls : List (BitVec 16 × ℤ))
    (fb : TransportFeedback) (buffer : List Byte) (behind : ℕ → Byte)
    (href : 0 ≤ refTimestampUs)
    (hfb : fb = addAll (start includeLost base refTimestampUs feedbackSeq senderSsrc mediaSsrc) calls)
    (hcount : 1 ≤ fb.getPacketStatusCount) (hbuffer : buffer.length = size fb) :
    ∃ bytes : List Byte, ∃ hlt : bytes.length < 2^63,
      serialize fb (.on buffer) = some ⟨bytes,buffer.length⟩ ∧ bytes.length = buffer.length ∧
      (loadHeader (Region.ofList bytes behind hlt).bytes).length.toNat = size fb/4 - 1 ∧
      ∃ parsed touched,
        (parse { includeTimestamps := true, includeLost := includeLost' }).run
          (Region.ofList bytes behind hlt) ⟨0,[]⟩ = (some parsed,⟨bytes.length,touched⟩) ∧
        parsed.includeTimestamps = true ∧ parsed.senderSsrc = fb.senderSsrc ∧
        parsed.mediaSsrc = fb.mediaSsrc ∧ parsed.baseSeqNo = fb.baseSeqNo ∧
        parsed.getBaseTimeUs = fb.getBaseTimeUs ∧ parsed.feedbackSeq = fb.feedbackSeq ∧
        parsed.getPacketStatusCount = fb.getPacketStatusCount ∧
        parsed.receivedPackets = fb.receivedPackets := by
  obtain ⟨hh,hmax,syms,hbuilt⟩ := addAll_spec
    (start_built includeLost base refTimestampUs feedbackSeq senderSsrc mediaSsrc)
    (Nat.le_of_ble_eq_true rfl) calls
  have htime := start_baseTimeTicks includeLost base feedbackSeq senderSsrc mediaSsrc href
  rw [← hfb] at hh hmax hbuilt
  obtain ⟨hts,_,_,_,hticks,_⟩ := hh
  rw [← hticks] at htime
  have hlength := wireBytes_length hbuilt
  have hlt := wireBytes_lt hbuilt hmax
  have hne : fb.numSeqNo ≠ 0 := by
    intro h0
    rw [getPacketStatusCount,h0] at hcount
    exact absurd hcount (by decide)
  have hholds := Region.ofList_holds (wireBytes fb) behind hlt
  have hheader : loadHeader (Region.ofList (wireBytes fb) behind hlt).bytes = header fb := by
    have h := loadHeader_of_holds (Region.holds_append.mp hholds).1
    simpa only [Nat.zero_add] using h
  have hfill := serialize_built hbuilt buffer hbuffer
  obtain ⟨parsed,touched,hp,⟨hts',hsender,hmedia,hbase,hticks',hseq⟩,hnum,hreceived⟩ :=
    parse_wire hbuilt hts hne htime hmax
      (rfl : TransportFeedback.includeTimestamps
        { includeTimestamps := true, includeLost := includeLost' } = true) hlength hholds
  refine ⟨wireBytes fb,hlt,hfill,hlength.trans hbuffer.symm,?_,parsed,touched,?_,hts'.trans hts,
    hsender,hmedia,hbase,?_,hseq,?_,hreceived⟩
  · rw [hheader,header_length (le_sizeBytes hbuilt) hmax]
  · rw [hlength]
    exact hp
  · rw [getBaseTimeUs,hticks',getBaseTimeUs]
  · rw [getPacketStatusCount,hnum,getPacketStatusCount]

/-- Two packets around a lost one. -/
theorem parse_serialize_gap :
    ∃ bytes : List Byte, ∃ hlt : bytes.length < 2^63, bytes.length = 24 ∧
      ∃ parsed touched, (parse { includeTimestamps := true, includeLost := false }).run
          (Region.ofList bytes (fun _ => 0) hlt) ⟨0,[]⟩ = (some parsed,⟨bytes.length,touched⟩) ∧
        parsed.receivedPackets = [.withDelta 5 4,.withDelta 7 4] := by
  obtain ⟨bytes,hlt,_,hlen,_,parsed,touched,hp,_,_,_,_,_,_,_,hr⟩ :=
    parse_serialize false false 5 0 1 2 3 [(5,1000),(7,2000)] _ (List.replicate 24 0xff)
      (fun _ => 0) (Int.le_refl 0) rfl (by decide) (by decide)
  exact ⟨bytes,hlt,hlen,parsed,touched,hp,hr.trans (by decide)⟩

end Ylrtc.FeedbackWire
