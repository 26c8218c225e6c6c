import Ylrtc.Rtcp.Serialize

/-!
# Receiver reports on the wire

What `ReceiverReportPacket::Serialize` writes is read back whole by this repository's own
decoder, which goes by the count. The header length is one word short for every report.
-/
namespace Ylrtc.RtcpPackets
open ByteBuffer ByteWriter CursorParser RtcpHeader

theorem parseCommonHeader_parses (h : RtcpCommonHeader) :
    Parses parseCommonHeader (h.bytes.map some) h := by
  intro b c hfits
  exact ⟨_,parseCommonHeader_of_holds (fits_some.mp hfits)⟩

theorem parseCommonFeedback_parses (senderSsrc mediaSsrc : BitVec 32) :
    Parses parseCommonFeedback (feedbackLayout senderSsrc mediaSsrc) (senderSsrc,mediaSsrc) :=
  (readUInt32_parses _).bind <| (readUInt32_parses _).map fun m => (senderSsrc,m)

/-- The header in front of a layout. -/
theorem headerAt_of_fits {b : Region} {h : RtcpCommonHeader} {l : Layout}
    (hfits : Fits b 0 (h.bytes.map some ++ l)) : headerAt b 0 = h :=
  loadHeader_of_holds (fits_some.mp (fits_append.mp hfits).1)

/-- A block as it arrives: three bytes of the cumulative loss. -/
def ReportBlock.onWire (block : ReportBlock) : ReportBlock :=
  { block with cumulativeLost := BitVec.ofNat 32 (block.cumulativeLost.toNat%2^24) }

theorem ReportBlock.parses (block : ReportBlock) :
    Parses ReportBlock.parse block.layout block.onWire :=
  (readUInt32_parses _).bind <| (readUInt8_parses _).bind <| (readUInt24_parses _).bind <|
    (readUInt32_parses _).bind <| (readUInt32_parses _).bind <| (readUInt32_parses _).bind <|
    (readUInt32_parses _).map _

theorem ReceiverReportPacket.wireHeader_spec (p : ReceiverReportPacket)
    (h : p.reportBlocks.length ≤ kMaxNumberOfReportBlocks) :
    p.wireHeader.countOrFormat.toNat = p.reportBlocks.length ∧
      p.wireHeader.length.toNat = p.size/4-2 := by
  simp only [kMaxNumberOfReportBlocks] at h
  simp only [wireHeader,size,BitVec.toNat_ofNat,kHeaderLength,kRrBaseLength,kReportBlockLength]
  rw [Nat.mod_eq_of_lt (by omega),Nat.mod_eq_of_lt (by omega)]
  omega

theorem ReceiverReportPacket.parses (p : ReceiverReportPacket)
    (h : p.reportBlocks.length ≤ kMaxNumberOfReportBlocks) :
    Parses ReceiverReportPacket.parse p.layout
      ⟨p.wireHeader,p.senderSsrc,p.reportBlocks.map ReportBlock.onWire⟩ := by
  have hcount := (p.wireHeader_spec h).1
  refine (parseCommonHeader_parses _).bind <| (readUInt32_parses _).bind ?_
  rw [hcount]
  exact (Parses.repeated fun block _ => ReportBlock.parses block).map _

/-- Serializing a report into `Size()` bytes fills them with a header of this length and of
the count of blocks, and parsing gives the report back. -/
def ReceiverReportPacket.Serialized (p : ReceiverReportPacket) (length : ℕ) : Prop :=
  ∀ buffer : List Byte, buffer.length = p.size →
    ∃ w, p.serialize (on buffer) = some w ∧ w.used = p.size ∧
      ∀ b : Region, b.Holds 0 w.bytes →
        (headerAt b 0).length.toNat = length ∧
        (headerAt b 0).countOrFormat.toNat = p.reportBlocks.length ∧
        ∃ q t, ReceiverReportPacket.parse.run b ⟨0,[]⟩ = (some q,⟨p.size,t⟩) ∧
          q.senderSsrc = p.senderSsrc ∧ q.reportBlocks = p.reportBlocks.map ReportBlock.onWire

/-- Every report has a length field of one word less than its bytes take, and is right in
everything else. -/
theorem ReceiverReportPacket.serialized_short (p : ReceiverReportPacket)
    (h : p.reportBlocks.length ≤ kMaxNumberOfReportBlocks) :
    p.Serialized (p.size/4-2) ∧ ¬p.Serialized (p.size/4-1) := by
  have hsize : p.size = 8+p.reportBlocks.length*24 := rfl
  have hheader := p.wireHeader_spec h
  simp only [kMaxNumberOfReportBlocks] at h
  have hshort : p.Serialized (p.size/4-2) := by
    intro buffer hbuffer
    have hroom : p.layout.length ≤ buffer.length := by rw [layout_length,hbuffer]
    refine ⟨_,p.lays.on buffer hroom,layout_length p,fun b hb => ?_⟩
    rw [headerAt_of_fits (fits_overlay hb hroom)]
    cases (p.parses h).run_overlay hb hroom with
    | intro t ht =>
        rw [layout_length] at ht
        exact ⟨hheader.2,hheader.1,_,t,ht,rfl,rfl⟩
  refine ⟨hshort,fun hright => ?_⟩
  -- one region tells the two lengths apart
  have hbuffer : (List.replicate p.size (0 : Byte)).length = p.size := List.length_replicate
  have hroom : p.layout.length ≤ (List.replicate p.size (0 : Byte)).length := by
    rw [layout_length,hbuffer]
  cases hright _ hbuffer with
  | intro w hw =>
      rw [p.lays.on _ hroom,Option.some.injEq] at hw
      rw [← hw.1] at hw
      have hfits : (overlay p.layout (List.replicate p.size 0)).length < 2^63 := by
        rw [overlay_length,hbuffer]
        omega
      have hb := Region.ofList_holds (overlay p.layout (List.replicate p.size 0)) (fun _ => 0) hfits
      have hone := (hw.2.2 _ hb).1
      rw [headerAt_of_fits (fits_overlay hb hroom),hheader.2] at hone
      omega

/-- A report on two sources, one of which has lost packets. -/
def twoSources : ReceiverReportPacket :=
  ⟨⟨0,0,0,0,0⟩,5,[⟨7,25,3,65536,12,0x11223344,90⟩,⟨8,0,0,4,0,0,0⟩]⟩

theorem ReceiverReportPacket.serialized_short_twoSources :
    twoSources.Serialized (twoSources.size/4-2) ∧ ¬twoSources.Serialized (twoSources.size/4-1) :=
  serialized_short twoSources (by decide)

/-- The empty report of sender 5 already has length 0 where its 8 bytes need 1. -/
theorem ReceiverReportPacket.not_serialized : ¬∀ p : ReceiverReportPacket,
    p.reportBlocks.length ≤ kMaxNumberOfReportBlocks → p.Serialized (p.size/4-1) := by
  intro hall
  cases hall ⟨⟨0,0,0,0,0⟩,5,[]⟩ (Nat.zero_le _) (List.replicate 8 0) rfl with
  | intro w hw =>
      have hwritten : w = ⟨[0x80,0xC9,0,0,0,0,0,5],8⟩ := Option.some.inj (hw.1.symm.trans rfl)
      rw [hwritten] at hw
      have hb := Region.ofList_holds [0x80,0xC9,0,0,0,0,0,5] (fun _ => 0) (by decide)
      exact absurd (hw.2.2 _ hb).1 (by decide)

end Ylrtc.RtcpPackets
