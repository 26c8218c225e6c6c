import Ylrtc.Rtcp.FeedbackWire
import Ylrtc.Rtcp.NackWire
import Ylrtc.Rtcp.XrWire

/-!
# What an RTCP datagram says about the buffer it was made in

`WebrtcStream::SendRtcp` serializes into a buffer of the memory pool, and sends `Size()`
bytes of it. Two of the seven classes leave bytes of the buffer as they were.
-/
namespace Ylrtc.RtcpPackets
open ByteBuffer ByteWriter CursorParser FeedbackBuilder RtcpHeader

/-- The packets that the server sends. A transport feedback is one that was built. -/
inductive SentPacket
  | sr (p : SenderReportPacket)
  | rr (p : ReceiverReportPacket)
  | nack (p : NackPacket)
  | pli (p : RtcpPliPacket)
  | fir (p : RtcpFirPacket)
  | xr (p : XrPacket)
  | feedback (fb : TransportFeedback) (built : ∃ syms, Built fb syms)

namespace SentPacket

def size : SentPacket → ℕ
  | sr p => p.size
  | rr p => p.size
  | nack p => p.size
  | pli p => p.size
  | fir p => p.size
  | xr p => p.size
  | feedback fb _ => FeedbackWire.size fb

def serialize : SentPacket → ByteWriter → Option ByteWriter
  | sr p => p.serialize
  | rr p => p.serialize
  | nack p => p.serialize
  | pli p => p.serialize
  | fir p => p.serialize
  | xr p => p.serialize
  | feedback fb _ => FeedbackWire.serialize fb

/-- The bytes that `SendRtcp` hands to `ProtectRtcp`, if it gets there. -/
def plainBytes (p : SentPacket) (buffer : List Byte) : Option (List Byte) :=
  (p.serialize (on (buffer.take p.size))).map (·.bytes)

/-- The bytes say nothing about the buffer. -/
def Independent (p : SentPacket) : Prop :=
  ∀ buffer buffer' : List Byte, p.size ≤ buffer.length → p.size ≤ buffer'.length →
    p.plainBytes buffer = p.plainBytes buffer'

theorem plainBytes_of_lays {p : SentPacket} {l : Layout} (hlays : Lays p.serialize l)
    (hroom : l.length ≤ p.size) {buffer : List Byte} (h : p.size ≤ buffer.length) :
    p.plainBytes buffer = some (overlay l (buffer.take p.size)) := by
  have hlength : (buffer.take p.size).length = p.size := List.length_take_of_le h
  rw [plainBytes,hlays.on _ (by rw [hlength]; exact hroom)]
  rfl

theorem independent_of_covers {p : SentPacket} {l : Layout} (hlays : Lays p.serialize l)
    (h : Covers l p.size) : p.Independent := by
  intro buffer buffer' hbuffer hbuffer'
  have hlength : (buffer.take p.size).length = p.size := List.length_take_of_le hbuffer
  have hlength' : (buffer'.take p.size).length = p.size := List.length_take_of_le hbuffer'
  rw [plainBytes_of_lays hlays h.2.le hbuffer,plainBytes_of_lays hlays h.2.le hbuffer',
    overlay_eq_of_covers (by rwa [hlength]) (hlength'.trans hlength.symm)]

theorem covers_of_independent {p : SentPacket} {l : Layout} (hlays : Lays p.serialize l)
    (hroom : l.length ≤ p.size) (h : p.Independent) : Covers l p.size := by
  have hsize : ∀ byte : Byte, p.size ≤ (List.replicate p.size byte).length :=
    fun byte => List.length_replicate.ge
  have heq := h _ _ (hsize 0) (hsize 1)
  rw [plainBytes_of_lays hlays hroom (hsize 0),plainBytes_of_lays hlays hroom (hsize 1),
    Option.some.injEq,List.take_of_length_le List.length_replicate.le,
    List.take_of_length_le List.length_replicate.le] at heq
  exact covers_of_overlay_eq hroom heq

end SentPacket

/-! ### Layouts without holes -/

theorem covers_some (bytes : List Byte) : Covers (bytes.map some) bytes.length :=
  ⟨by simp,List.length_map _⟩

theorem covers_singleton (byte : Byte) : Covers [some byte] 1 := covers_some [byte]

theorem covers_append {l r : Layout} {m n : ℕ} (hl : Covers l m) (hr : Covers r n) :
    Covers (l++r) (m+n) := by
  refine ⟨?_,by rw [List.length_append,hl.2,hr.2]⟩
  rw [List.mem_append,not_or]
  exact ⟨hl.1,hr.1⟩

theorem covers_flatMap {α : Type} {f : α → Layout} {n : ℕ} (h : ∀ a, Covers (f a) n)
    (as : List α) : Covers (as.flatMap f) (as.length*n) := by
  induction as with
  | nil => exact ⟨List.not_mem_nil,by rw [List.length_nil,Nat.zero_mul]; rfl⟩
  | cons a as ih =>
      rw [List.flatMap_cons,List.length_cons,Nat.succ_mul,Nat.add_comm]
      exact covers_append (h a) ih

theorem covers_uint32 (v : BitVec 32) : Covers ((storeUInt32BE v).map some) 4 := covers_some _

theorem covers_header (h : RtcpCommonHeader) : Covers (h.bytes.map some) 4 := covers_some _

theorem covers_feedback (senderSsrc mediaSsrc : BitVec 32) :
    Covers (feedbackLayout senderSsrc mediaSsrc) 8 :=
  covers_append (covers_uint32 _) (covers_uint32 _)

/-! ### Packets that fill their bytes -/

def SenderReportPacket.layout (p : SenderReportPacket) : Layout :=
  (RtcpCommonHeader.bytes ⟨2,0,0,kRtcpTypeSr,6⟩).map some ++ ((storeUInt32BE p.senderSsrc).map some ++
    ((storeUInt32BE p.ntpSeconds).map some ++ ((storeUInt32BE p.ntpFractions).map some ++
    ((storeUInt32BE p.rtpTimestamp).map some ++ ((storeUInt32BE p.sendPacketCount).map some ++
    (storeUInt32BE p.sendOctets).map some)))))

theorem SenderReportPacket.lays (p : SenderReportPacket) : Lays p.serialize p.layout :=
  (lays_header _).bind <| (lays_writeUInt32 _).bind <| (lays_writeUInt32 _).bind <|
    (lays_writeUInt32 _).bind <| (lays_writeUInt32 _).bind <| (lays_writeUInt32 _).bind
    (lays_writeUInt32 _)

theorem SenderReportPacket.covers (p : SenderReportPacket) : Covers p.layout p.size :=
  covers_append (covers_header _) <| covers_append (covers_uint32 _) <|
    covers_append (covers_uint32 _) <| covers_append (covers_uint32 _) <|
    covers_append (covers_uint32 _) <| covers_append (covers_uint32 _) (covers_uint32 _)

theorem ReportBlock.covers (block : ReportBlock) : Covers block.layout 24 :=
  covers_append (covers_uint32 _) <| covers_append (covers_singleton _) <|
    covers_append (covers_some (storeUInt24BE _)) <| covers_append (covers_uint32 _) <|
    covers_append (covers_uint32 _) <| covers_append (covers_uint32 _) (covers_uint32 _)

theorem ReceiverReportPacket.covers (p : ReceiverReportPacket) : Covers p.layout p.size :=
  ⟨(covers_append (covers_header _) <| covers_append (covers_uint32 _) <|
    covers_flatMap ReportBlock.covers _).1,layout_length p⟩

def RtcpPliPacket.layout (p : RtcpPliPacket) : Layout :=
  (RtcpCommonHeader.bytes ⟨2,0,kPli,kRtcpTypePsfb,2⟩).map some ++
    feedbackLayout p.senderSsrc p.mediaSsrc

theorem RtcpPliPacket.lays (p : RtcpPliPacket) : Lays p.serialize p.layout :=
  (lays_header _).bind (lays_feedback _ _)

theorem RtcpPliPacket.covers (p : RtcpPliPacket) : Covers p.layout p.size :=
  covers_append (covers_header _) (covers_feedback _ _)

def FciEntry.layout (request : FciEntry) : Layout :=
  (storeUInt32BE request.ssrc).map some ++ ([some request.seqNr] ++ (storeUInt24BE 0).map some)

theorem FciEntry.lays (request : FciEntry) :
    Lays (fun w => FciEntry.write w request) request.layout :=
  (lays_tryWrite (lays_writeUInt32 _)).bind <| (lays_tryWrite (lays_writeUInt8 _)).bind
    (lays_tryWrite (lays_writeUInt24 _))

theorem FciEntry.covers (request : FciEntry) : Covers request.layout 8 :=
  covers_append (covers_uint32 _) <| covers_append (covers_singleton _) (covers_some _)

namespace RtcpFirPacket

def wireHeader (p : RtcpFirPacket) : RtcpCommonHeader :=
  ⟨2,0,kFir,kRtcpTypePsfb,
    BitVec.ofNat 16 ((kHeaderLength + kCommonFeedbackLength + 8*p.fci.length)/4 - 1)⟩

def layout (p : RtcpFirPacket) : Layout :=
  p.wireHeader.bytes.map some ++ (feedbackLayout p.senderSsrc p.mediaSsrc ++
    p.fci.flatMap FciEntry.layout)

theorem lays (p : RtcpFirPacket) : Lays p.serialize p.layout :=
  (lays_header _).bind <| (lays_feedback _ _).bind <| Lays.forEach FciEntry.lays _

theorem covers (p : RtcpFirPacket) : Covers p.layout p.size := by
  have h : Covers p.layout (4+(8+p.fci.length*8)) :=
    covers_append (covers_header _) <| covers_append (covers_feedback _ _) <|
      covers_flatMap FciEntry.covers _
  refine ⟨h.1,h.2.trans ?_⟩
  simp only [size,kHeaderLength,kCommonFeedbackLength,kFciLength]
  omega

end RtcpFirPacket

theorem feedback_lays (fb : TransportFeedback) :
    Lays (FeedbackWire.serialize fb) ((FeedbackWire.wireBytes fb).map some) := by
  intro w hw hroom
  exact (FeedbackWire.serialize_writes fb w hw).trans (lays_writeBytes _ w hw hroom)

theorem feedback_covers {fb : TransportFeedback} (built : ∃ syms, Built fb syms) :
    Covers ((FeedbackWire.wireBytes fb).map some) (FeedbackWire.size fb) := by
  cases built with
  | intro syms h =>
      rw [← FeedbackWire.wireBytes_length h]
      exact covers_some _

/-! ### Lists of lost packets -/

/-- Of two numbers in the list, the second has no place in the mask behind the first. -/
def Apart (a b : BitVec 16) : Prop := 15 < (b-a-1).toNat

theorem length_packFrom_iff (item : PackedNack) (ns : List (BitVec 16)) :
    (packFrom item ns).length = ns.length+1 ↔ (item.firstPid::ns).IsChain Apart := by
  induction ns generalizing item with
  | nil => exact ⟨fun _ => .singleton _,fun _ => rfl⟩
  | cons n ns ih =>
      rw [packFrom,List.isChain_cons_cons,Apart]
      by_cases h : (n - item.firstPid - 1).toNat ≤ 15
      · rw [if_pos h]
        have hle := length_packFrom_le
          { item with bitmask := item.bitmask ||| 1#16 <<< (n - item.firstPid - 1).toNat } ns
        rw [List.length_cons]
        omega
      · rw [if_neg h,List.length_cons,List.length_cons,Nat.succ_inj,ih]
        exact ⟨fun hchain => ⟨Nat.lt_of_not_le h,hchain⟩,fun hchain => hchain.2⟩

theorem length_pack_iff (ns : List (BitVec 16)) :
    (pack ns).length = ns.length ↔ ns.IsChain Apart := by
  cases ns with
  | nil => exact ⟨fun _ => .nil,fun _ => rfl⟩
  | cons n ns => exact length_packFrom_iff ⟨n,0⟩ ns

theorem PackedNack.covers (item : PackedNack) : Covers item.layout 4 :=
  covers_append (covers_some (storeUInt16BE _)) (covers_some (storeUInt16BE _))

theorem NackPacket.covers_iff (p : NackPacket) :
    Covers p.layout p.size ↔ p.packetLostSequenceNumbers.IsChain Apart := by
  have hwritten : none ∉ p.layout :=
    (covers_append (covers_header _) <| covers_append (covers_feedback _ _) <|
      covers_flatMap PackedNack.covers _).1
  rw [Covers,← length_pack_iff,NackPacket.layout_length,size,kHeaderLength,kCommonFeedbackLength,
    kNackItemLength]
  constructor
  · intro h
    omega
  · intro h
    exact ⟨hwritten,by omega⟩

/-! ### Extended reports -/

namespace XrPacket

def Empty (p : XrPacket) : Prop := p.rrtrBlockContext = none ∧ p.dlrrBlockContext = none

theorem none_mem_blockHeader (blockType : Byte) (sizeIn32bits : BitVec 16) :
    none ∈ blockHeaderLayout blockType sizeIn32bits :=
  List.mem_append_right _ (List.mem_append_left _ List.mem_cons_self)

/-- A report block has a reserved byte. -/
theorem covers_iff (p : XrPacket) (h : p.HasTime) : Covers p.layout p.size ↔ p.Empty := by
  constructor
  · intro hcovers
    have hblocks : none ∉ p.rrtrLayout ++ p.dlrrLayout := fun hmem =>
      hcovers.1 (List.mem_append_right _ (List.mem_append_right _ hmem))
    rw [List.mem_append,not_or,rrtrLayout,dlrrLayout] at hblocks
    rw [Empty]
    cases hrrtr : p.rrtrBlockContext with
    | some rrtr =>
        rw [hrrtr] at hblocks
        exact absurd (List.mem_append_left _ (none_mem_blockHeader _ _)) hblocks.1
    | none =>
        cases hdlrr : p.dlrrBlockContext with
        | some dlrr =>
            rw [hdlrr] at hblocks
            exact absurd (List.mem_append_left _ (none_mem_blockHeader _ _)) hblocks.2
        | none => exact ⟨rfl,rfl⟩
  · intro hempty
    refine ⟨?_,layout_length h⟩
    rw [layout,rrtrLayout,dlrrLayout,hempty.1,hempty.2]
    exact (covers_append (covers_header _) <| covers_append (covers_uint32 _) (covers_some [])).1

end XrPacket

/-! ### The datagram -/

namespace SentPacket

/-- The list has no two numbers for one item; the extended report has no block, or one that
keeps it from being sent. -/
def Filled : SentPacket → Prop
  | nack p => p.packetLostSequenceNumbers.IsChain Apart
  | xr p => p.Empty ∨ ¬p.HasTime
  | _ => True

/-- Exactly these packets leave nothing of the buffer in the datagram. -/
theorem independent_iff (p : SentPacket) : p.Independent ↔ p.Filled := by
  cases p with
  | sr p => exact iff_of_true (independent_of_covers (p := sr p) p.lays p.covers) trivial
  | rr p => exact iff_of_true (independent_of_covers (p := rr p) p.lays p.covers) trivial
  | pli p => exact iff_of_true (independent_of_covers (p := pli p) p.lays p.covers) trivial
  | fir p => exact iff_of_true (independent_of_covers (p := fir p) p.lays p.covers) trivial
  | feedback fb built =>
      exact iff_of_true (independent_of_covers (p := feedback fb built) (feedback_lays fb)
        (feedback_covers built)) trivial
  | nack p =>
      rw [Filled,← p.covers_iff]
      exact ⟨covers_of_independent (p := nack p) p.lays p.layout_length_le,
        independent_of_covers (p := nack p) p.lays⟩
  | xr p =>
      rw [Filled]
      by_cases h : p.HasTime
      · rw [or_iff_left (not_not.mpr h),← p.covers_iff h]
        exact ⟨covers_of_independent (p := xr p) (XrPacket.lays h) (XrPacket.layout_length h).le,
          independent_of_covers (p := xr p) (XrPacket.lays h)⟩
      · refine iff_of_true (fun buffer buffer' _ _ => ?_) (.inr h)
        simp only [plainBytes,serialize,XrPacket.serialize_eq_none h,Option.map_none]

/-- The request for 1 and 2 is one item, and four more bytes are sent. -/
theorem not_independent : ¬∀ p : SentPacket, p.Independent := by
  intro hall
  have heq := hall (nack ⟨⟨0,0,0,0,0⟩,5,6,[1,2]⟩) (List.replicate 20 0) (List.replicate 20 1)
    le_rfl le_rfl
  exact absurd heq (by decide)

end SentPacket
end Ylrtc.RtcpPackets
