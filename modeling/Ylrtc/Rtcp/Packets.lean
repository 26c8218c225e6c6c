import Ylrtc.Rtcp.FeedbackWire

/-!
# The RTCP packets and their parsers

`SenderReportPacket`, `ReceiverReportPacket`, `NackPacket`, `XrPacket` and the
base class of `rtp_rtcp/rtcp_packet.cpp`. A sender report is read as six words
and a receiver report by its count field; neither looks at the header length.
-/
namespace Ylrtc.RtcpPackets
open ByteBuffer CursorParser RtcpHeader

structure ReportBlock where
  sourceSsrc : BitVec 32
  fractionLost : Byte
  cumulativeLost : BitVec 32
  extendedHighSeqNum : BitVec 32
  jitter : BitVec 32
  lastSr : BitVec 32
  delaySinceLastSr : BitVec 32
  deriving DecidableEq, Repr

structure SenderReportPacket where
  header : RtcpCommonHeader
  senderSsrc : BitVec 32
  ntpSeconds : BitVec 32
  ntpFractions : BitVec 32
  rtpTimestamp : BitVec 32
  sendPacketCount : BitVec 32
  sendOctets : BitVec 32
  deriving DecidableEq, Repr

structure ReceiverReportPacket where
  header : RtcpCommonHeader
  senderSsrc : BitVec 32
  reportBlocks : List ReportBlock
  deriving DecidableEq, Repr

structure NackPacket where
  header : RtcpCommonHeader
  senderSsrc : BitVec 32
  mediaSsrc : BitVec 32
  packetLostSequenceNumbers : List (BitVec 16)
  deriving DecidableEq, Repr

structure NtpTime where
  seconds : BitVec 32
  fractions : BitVec 32
  deriving DecidableEq, Repr

structure RrtrBlockContext where
  ntp : Option NtpTime := none
  deriving DecidableEq, Repr

structure ReceiveTimeInfo where
  ssrc : BitVec 32
  lastRr : BitVec 32
  delaySinceLastRr : BitVec 32
  deriving DecidableEq, Repr

structure DlrrBlockContext where
  subBlocks : List ReceiveTimeInfo := []
  deriving DecidableEq, Repr

structure XrPacket where
  header : RtcpCommonHeader
  senderSsrc : BitVec 32
  rrtrBlockContext : Option RrtrBlockContext := none
  dlrrBlockContext : Option DlrrBlockContext := none
  deriving DecidableEq, Repr

/-- `RtcpPacket::Parse`: a packet of another type is passed over by its length. -/
def parseBase : Parser RtcpCommonHeader := do
  let header ← parseCommonHeader
  let payloadLen := header.length.toNat*4
  Parser.skip payloadLen
  return header

def SenderReportPacket.parse : Parser SenderReportPacket := do
  let header ← parseCommonHeader
  let senderSsrc ← readUInt32
  let ntpSeconds ← readUInt32
  let ntpFractions ← readUInt32
  let rtpTimestamp ← readUInt32
  let sendPacketCount ← readUInt32
  let sendOctets ← readUInt32
  return ⟨header,senderSsrc,ntpSeconds,ntpFractions,rtpTimestamp,sendPacketCount,sendOctets⟩

def ReportBlock.parse : Parser ReportBlock := do
  let sourceSsrc ← readUInt32
  let fractionLost ← readUInt8
  let cumulativeLost ← readUInt24
  let extendedHighSeqNum ← readUInt32
  let jitter ← readUInt32
  let lastSr ← readUInt32
  let delaySinceLastSr ← readUInt32
  return ⟨sourceSsrc,fractionLost,cumulativeLost,extendedHighSeqNum,jitter,lastSr,delaySinceLastSr⟩

def ReceiverReportPacket.parse : Parser ReceiverReportPacket := do
  let header ← parseCommonHeader
  let senderSsrc ← readUInt32
  let reportBlocks ← ReportBlock.parse.repeated header.countOrFormat.toNat
  return ⟨header,senderSsrc,reportBlocks⟩

abbrev kNackItemLength : ℕ := 4

/-- The numbers that the bitmask of a NACK item adds. A mask has sixteen bits,
so sixteen rounds empty it. -/
def maskedLost : ℕ → BitVec 16 → BitVec 16 → List (BitVec 16)
  | 0,_,_ => []
  | n+1,pid,bitmask =>
      if bitmask = 0 then []
      else (if bitmask.getLsbD 0 then [pid] else [])++maskedLost n (pid+1) (bitmask >>> 1)

def NackPacket.parseItem : Parser (List (BitVec 16)) := do
  let pid ← readUInt16
  let blp ← readUInt16
  return pid::maskedLost 16 (pid+1) blp

/-- `payload_len - kCommonFeedbackLength` is a `size_t`: below two words it wraps. -/
def NackPacket.items (header : RtcpCommonHeader) : ℕ :=
  (header.length.toNat*4+(2^64-kCommonFeedbackLength))%2^64/kNackItemLength

def NackPacket.parse : Parser NackPacket := do
  let header ← parseCommonHeader
  let ssrcs ← parseCommonFeedback
  let lost ← NackPacket.parseItem.repeated (NackPacket.items header)
  return ⟨header,ssrcs.1,ssrcs.2,lost.flatten⟩

namespace XrPacket

abbrev kBlockTypeRrtr : Byte := 4
abbrev kBlockTypeDlrr : Byte := 5
abbrev kBlockHeaderIn32Bits : ℕ := 1
abbrev kXrBaseLength : ℤ := 4

def parseRrtr : Parser RrtrBlockContext := do
  let seconds ← readUInt32
  let fraction ← readUInt32
  return ⟨some ⟨seconds,fraction⟩⟩

def parseSubBlock : Parser ReceiveTimeInfo := do
  let ssrc ← readUInt32
  let lastRr ← readUInt32
  let delaySinceLastRr ← readUInt32
  return ⟨ssrc,lastRr,delaySinceLastRr⟩

def parseDlrr (blockLength : BitVec 16) : Parser DlrrBlockContext := do
  Parser.guard (blockLength.toNat%3 = 0)
  let subBlocks ← parseSubBlock.repeated (blockLength.toNat/3)
  return ⟨subBlocks⟩

/-- The header of a report block: its type and its length. -/
def parseBlockHeader : Parser (Byte × BitVec 16) := do
  let blockType ← readUInt8
  Parser.skip 1
  let blockLength ← readUInt16
  return (blockType,blockLength)

/-- The cases of the `switch`. The answer of `Consume` is taken the wrong way
round: an unknown block is accepted exactly when it cannot be passed over. -/
def parseBlock (blockType : Byte) (blockLength : BitVec 16) (xr : XrPacket) : Parser XrPacket :=
  if blockType = kBlockTypeRrtr then do
    let rrtr ← parseRrtr
    return { xr with rrtrBlockContext := some rrtr }
  else if blockType = kBlockTypeDlrr then do
    let dlrr ← parseDlrr blockLength
    return { xr with dlrrBlockContext := some dlrr }
  else do
    let consumed ← Parser.consume (blockLength.toNat*4)
    Parser.guard (consumed = false)
    return xr

/-- The loop over the report blocks. `payload_len` is compared as a `size_t`, so
a negative value counts as large. It would have to pass `INT_MIN` to become
small again, which is undefined. Each round reads four bytes or fails. -/
def parseBlocks : ℕ → ℤ → XrPacket → Parser XrPacket
  | 0,_,_ => Parser.fail
  | fuel+1,payloadLen,xr =>
      if payloadLen < 0 ∨ kXrBaseLength ≤ payloadLen then do
        let (blockType,blockLength) ← parseBlockHeader
        let xr ← parseBlock blockType blockLength xr
        parseBlocks fuel (payloadLen-(blockLength.toNat+kBlockHeaderIn32Bits)*4) xr
      else pure xr

def parse : Parser XrPacket := do
  let header ← parseCommonHeader
  let senderSsrc ← readUInt32
  let payloadLen : ℤ := header.length.toNat*4-4
  let left ← Parser.left
  parseBlocks (left+1) payloadLen { header := header, senderSsrc := senderSsrc }

end XrPacket

/-! ### How far each parser moves -/

theorem parseBase_spec {b : Region} {c c' : Cursor} {p : RtcpCommonHeader}
    (h : parseBase.run b c = (some p,c')) :
    c.start+(headerAt b c.start).declaredSize ≤ b.size ∧
      c'.start = c.start+(headerAt b c.start).declaredSize ∧
      ∃ d, Consumes b 4 c d ∧ c'.touched = d.touched := by
  obtain ⟨d,hsize,hd,h⟩ := header_bind h
  obtain ⟨u,e,hskip,hpure⟩ := Parser.bind_eq_some h
  obtain ⟨hle,rfl⟩ := Parser.skip_eq_some hskip
  obtain ⟨_,rfl⟩ := Parser.pure_eq_some hpure
  have hs := hd.start
  simp only [RtcpCommonHeader.declaredSize]
  exact ⟨by omega,by omega,d,hd,rfl⟩

theorem SenderReportPacket.parse_reads : SenderReportPacket.parse.Reads 28 :=
  (parseCommonHeader_reads.bind fun _ => readUInt32_reads.bind fun _ => readUInt32_reads.bind fun _ =>
    readUInt32_reads.bind fun _ => readUInt32_reads.bind fun _ => readUInt32_reads.bind fun _ =>
    readUInt32_reads.map _).cast (by rfl)

theorem ReportBlock.parse_reads : ReportBlock.parse.Reads 24 :=
  (readUInt32_reads.bind fun _ => readUInt8_reads.bind fun _ => readUInt24_reads.bind fun _ =>
    readUInt32_reads.bind fun _ => readUInt32_reads.bind fun _ => readUInt32_reads.bind fun _ =>
    readUInt32_reads.map _).cast (by rfl)

/-- A receiver report moves on by its count of blocks, whatever its length says. -/
theorem ReceiverReportPacket.parse_consumes {b : Region} {c c' : Cursor} {p : ReceiverReportPacket}
    (h : ReceiverReportPacket.parse.run b c = (some p,c')) :
    Consumes b (8+(headerAt b c.start).countOrFormat.toNat*24) c c' := by
  obtain ⟨d,_,hd,h⟩ := header_bind h
  have hblocks := ReportBlock.parse_reads.repeated (headerAt b c.start).countOrFormat.toNat
  have hrest := readUInt32_reads.bind fun ssrc => hblocks.map fun blocks =>
    (⟨headerAt b c.start,ssrc,blocks⟩ : ReceiverReportPacket)
  have hall := hd.trans (hrest h)
  rwa [← Nat.add_assoc] at hall

theorem NackPacket.parseItem_reads : NackPacket.parseItem.Reads 4 :=
  readUInt16_reads.bind fun _ => readUInt16_reads.map _

/-- The wrapped count of a NACK that is too short asks for more than any buffer holds. -/
theorem NackPacket.items_spec (header : RtcpCommonHeader) :
    2 ≤ header.length.toNat ∧ 4+8+items header*4 = header.declaredSize ∨
      2^63 ≤ items header*4 := by
  have hlt := header.length.isLt
  have hk : 2^64-kCommonFeedbackLength = 18446744073709551608 := by norm_num [kCommonFeedbackLength]
  simp only [items,hk,kNackItemLength,RtcpCommonHeader.declaredSize]
  omega

theorem NackPacket.parse_consumes {b : Region} {c c' : Cursor} {p : NackPacket}
    (h : NackPacket.parse.run b c = (some p,c')) :
    Consumes b (headerAt b c.start).declaredSize c c' := by
  obtain ⟨d,hsize,hd,h⟩ := header_bind h
  obtain ⟨ssrcs,e,hssrcs,h⟩ := Parser.bind_eq_some h
  obtain ⟨lost,f,hlost,h⟩ := Parser.bind_eq_some h
  obtain ⟨_,rfl⟩ := Parser.pure_eq_some h
  have hitems := NackPacket.parseItem_reads.repeated _ hlost
  have hall := (hd.trans (parseCommonFeedback_reads hssrcs)).trans hitems
  have hend := hall.inside (by omega)
  have hlt := b.size_lt
  rw [hall.start] at hend
  rcases NackPacket.items_spec (headerAt b c.start) with ⟨_,heq⟩ | hlarge
  · rwa [heq] at hall
  · omega

namespace XrPacket

/-- The length field of the report block at an offset. -/
def blockLengthAt (b : Region) (p : ℕ) : BitVec 16 := loadUInt16BE fun i => b.bytes (p+2+i)

/-- The bytes over which `Parse` moves at a report block. -/
def blockSize (b : Region) (p : ℕ) : ℕ :=
  if b.bytes p = kBlockTypeRrtr then 12
  else if b.bytes p = kBlockTypeDlrr then 4+4*(blockLengthAt b p).toNat else 4

/-- The report blocks from an offset on, taken in the sizes in which `Parse`
moves: their length fields declare `declared` bytes and they take `size` bytes. -/
inductive Blocks (b : Region) : ℕ → ℕ → ℕ → Prop where
  | done (p : ℕ) : Blocks b p 0 0
  | block {p declared size : ℕ} (rest : Blocks b (p+blockSize b p) declared size) :
      Blocks b p (4*((blockLengthAt b p).toNat+1)+declared) (blockSize b p+size)

theorem dvd_blockSize (b : Region) (p : ℕ) : 4 ∣ blockSize b p := by
  unfold blockSize
  split
  · exact ⟨3,rfl⟩
  split
  · exact ⟨1+(blockLengthAt b p).toNat,by rw [Nat.mul_add]⟩
  · exact ⟨1,rfl⟩

theorem Blocks.dvd {b : Region} {p declared size : ℕ} (h : Blocks b p declared size) : 4 ∣ size := by
  induction h with
  | done p => exact Nat.dvd_zero 4
  | block rest ih => exact Nat.dvd_add (dvd_blockSize b _) ih

/-- What the blocks declare determines how far `Parse` moves. -/
theorem Blocks.unique {b : Region} {p declared size size' : ℕ} (h : Blocks b p declared size)
    (h' : Blocks b p declared size') : size = size' := by
  induction h generalizing size' with
  | done p =>
      generalize hzero : 0 = declared at h'
      cases h' with
      | done => rfl
      | block rest => omega
  | @block p declared size rest ih =>
      generalize hsum : 4*((blockLengthAt b p).toNat+1)+declared = total at h'
      cases h' with
      | done => omega
      | block rest' =>
          obtain rfl := Nat.add_left_cancel hsum
          rw [ih rest']

theorem parseRrtr_reads : parseRrtr.Reads 8 :=
  readUInt32_reads.bind fun _ => readUInt32_reads.map _

theorem parseSubBlock_reads : parseSubBlock.Reads 12 :=
  (readUInt32_reads.bind fun _ => readUInt32_reads.bind fun _ => readUInt32_reads.map _).cast (by rfl)

theorem parseBlockHeader_consumes {b : Region} {c c' : Cursor} {r : Byte × BitVec 16}
    (h : parseBlockHeader.run b c = (some r,c')) :
    c.start+4 ≤ b.size ∧ r = (b.bytes c.start,blockLengthAt b c.start) ∧ Consumes b 4 c c' := by
  obtain ⟨ty,d,hty,h⟩ := Parser.bind_eq_some h
  obtain ⟨_,e,hskip,h⟩ := Parser.bind_eq_some h
  obtain ⟨len,f,hlen,h⟩ := Parser.bind_eq_some h
  obtain ⟨rfl,rfl⟩ := Parser.pure_eq_some h
  obtain ⟨hle,rfl⟩ := Parser.skip_eq_some hskip
  obtain ⟨_,rfl,hd,_⟩ := readUInt8_eq_some hty
  obtain ⟨hsize,rfl,_,_⟩ := readUInt16_eq_some hlen
  simp only [hd] at hsize
  refine ⟨hsize,?_,?_⟩
  · simp only [blockLengthAt,hd]
  · exact (readUInt8_reads hty).trans ((readUInt16_reads hlen).skip hle Nat.two_pos)

/-- The part of a block after its header. -/
theorem parseBlock_consumes {b : Region} {p : ℕ} {c c' : Cursor} {xr xr' : XrPacket}
    (h : (parseBlock (b.bytes p) (blockLengthAt b p) xr).run b c = (some xr',c')) :
    Consumes b (blockSize b p-4) c c' := by
  unfold parseBlock at h
  unfold blockSize
  split at h
  · rename_i hrrtr
    rw [if_pos hrrtr]
    exact parseRrtr_reads.map _ h
  rename_i hrrtr
  split at h
  · rename_i hdlrr
    rw [if_neg hrrtr,if_pos hdlrr]
    obtain ⟨dlrr,d,hdlrr,h⟩ := Parser.bind_eq_some h
    obtain ⟨_,rfl⟩ := Parser.pure_eq_some h
    obtain ⟨_,e,hguard,hinfos⟩ := Parser.bind_eq_some hdlrr
    obtain ⟨hmod,rfl⟩ := Parser.guard_eq_some hguard
    have hsub := (parseSubBlock_reads.repeated ((blockLengthAt b p).toNat/3)).map
      (fun infos => (⟨infos⟩ : DlrrBlockContext)) hinfos
    have hsize : (blockLengthAt b p).toNat/3*12 = 4+4*(blockLengthAt b p).toNat-4 := by omega
    rwa [hsize] at hsub
  · rename_i hdlrr
    rw [if_neg hrrtr,if_neg hdlrr]
    obtain ⟨consumed,d,hcons,h⟩ := Parser.bind_eq_some h
    obtain ⟨_,e,hguard,h⟩ := Parser.bind_eq_some h
    obtain ⟨rfl,rfl⟩ := Parser.guard_eq_some hguard
    obtain ⟨_,rfl⟩ := Parser.pure_eq_some h
    obtain ⟨_,rfl⟩ := Parser.consume_eq_false hcons
    exact .none b _

theorem four_le_blockSize (b : Region) (p : ℕ) : 4 ≤ blockSize b p := by
  unfold blockSize
  split
  · exact Nat.le_add_left 4 8
  split
  · exact Nat.le_add_right 4 _
  · exact Nat.le_refl 4

/-- One round of the loop. -/
theorem block_bind {β : Type} {xr : XrPacket} {f : BitVec 16 → XrPacket → Parser β} {b : Region}
    {c c' : Cursor} {y : β}
    (h : (parseBlockHeader >>= fun r => parseBlock r.1 r.2 xr >>= f r.2).run b c = (some y,c')) :
    ∃ d xr', Consumes b (blockSize b c.start) c d ∧
      (f (blockLengthAt b c.start) xr').run b d = (some y,c') := by
  obtain ⟨r,d,hheader,h⟩ := Parser.bind_eq_some h
  obtain ⟨_,rfl,hc₁⟩ := parseBlockHeader_consumes hheader
  obtain ⟨xr',e,hblock,h⟩ := Parser.bind_eq_some h
  have hall := hc₁.trans (parseBlock_consumes hblock)
  rw [Nat.add_sub_of_le (four_le_blockSize b c.start)] at hall
  exact ⟨e,xr',hall,h⟩

theorem parseBlocks_consumes {fuel : ℕ} {payloadLen : ℤ} {xr xr' : XrPacket} {b : Region}
    {c c' : Cursor} (hdvd : 4 ∣ payloadLen)
    (h : (parseBlocks fuel payloadLen xr).run b c = (some xr',c')) :
    ∃ declared size : ℕ, payloadLen = declared ∧ Blocks b c.start declared size ∧
      Consumes b size c c' := by
  induction fuel generalizing payloadLen xr c with
  | zero => simp [parseBlocks] at h
  | succ fuel ih =>
      rw [parseBlocks] at h
      split at h
      · obtain ⟨d,xr₁,hd,h⟩ := block_bind (f := fun len xr =>
          parseBlocks fuel (payloadLen-(len.toNat+kBlockHeaderIn32Bits)*4) xr) h
        obtain ⟨declared,size,hpay,hblocks,hrest⟩ := ih (by omega) h
        rw [hd.start] at hblocks
        refine ⟨_,_,?_,.block hblocks,hd.trans hrest⟩
        push_cast at hpay ⊢
        omega
      · rename_i hexit
        have hbase : kXrBaseLength = 4 := rfl
        obtain ⟨_,rfl⟩ := Parser.pure_eq_some h
        exact ⟨0,0,by omega,.done _,.none b _⟩

/-- As many rounds as there are bytes left are enough. -/
theorem parseBlocks_fuel {m n : ℕ} {payloadLen : ℤ} {xr : XrPacket} {b : Region} {c : Cursor}
    (hm : b.size - c.start < m) (hn : b.size - c.start < n) :
    (parseBlocks m payloadLen xr).run b c = (parseBlocks n payloadLen xr).run b c := by
  induction m generalizing n payloadLen xr c with
  | zero => omega
  | succ m ih =>
      cases n with
      | zero => omega
      | succ n =>
          rw [parseBlocks,parseBlocks]
          split
          · refine Parser.bind_congr fun r d hheader => Parser.bind_congr fun xr' e hblock => ?_
            obtain ⟨hsize,rfl,hc₁⟩ := parseBlockHeader_consumes hheader
            have hd := hc₁.start
            have he := (parseBlock_consumes hblock).start
            exact ih (by omega) (by omega)
          · rfl

/-- Past the header and the sender, an XR packet moves on by its blocks. -/
theorem parse_consumes {b : Region} {c c' : Cursor} {p : XrPacket}
    (h : XrPacket.parse.run b c = (some p,c')) :
    ∃ size, Blocks b (c.start+8) (4*(headerAt b c.start).length.toNat-4) size ∧
      1 ≤ (headerAt b c.start).length.toNat ∧ Consumes b (8+size) c c' := by
  obtain ⟨d,_,hd,h⟩ := header_bind h
  obtain ⟨ssrc,e,hssrc,h⟩ := Parser.bind_eq_some h
  have he := readUInt32_reads hssrc
  have hstart : e.start = c.start+8 := by rw [he.start,hd.start,Nat.add_assoc]
  obtain ⟨declared,size,hpay,hblocks,hrest⟩ := parseBlocks_consumes (by omega) h
  rw [hstart] at hblocks
  have hdeclared : declared = 4*(headerAt b c.start).length.toNat-4 := by omega
  rw [hdeclared] at hblocks
  exact ⟨size,hblocks,by omega,(hd.trans he).trans hrest⟩

end XrPacket

end Ylrtc.RtcpPackets
