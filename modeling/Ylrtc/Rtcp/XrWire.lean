import Mathlib.Data.Nat.ModEq
import Ylrtc.Rtcp.ReportWire

/-!
# Extended reports on the wire

`XrPacket::Serialize` adds the length of its blocks to whatever the length field held, and
counts the header of each block twice. The packet is right for exactly one such value.
-/
namespace Ylrtc.RtcpPackets
open ByteBuffer ByteWriter CursorParser RtcpHeader

/-! ### Layout -/

def ReceiveTimeInfo.layout (info : ReceiveTimeInfo) : Layout :=
  (storeUInt32BE info.ssrc).map some ++ ((storeUInt32BE info.lastRr).map some ++
    (storeUInt32BE info.delaySinceLastRr).map some)

theorem ReceiveTimeInfo.lays (info : ReceiveTimeInfo) :
    Lays (fun w => ReceiveTimeInfo.serialize w info) info.layout :=
  (lays_writeUInt32 _).bind <| (lays_writeUInt32 _).bind (lays_writeUInt32 _)

def RrtrBlockContext.layout (rrtr : RrtrBlockContext) : Layout :=
  match rrtr.ntp with
  | none => []
  | some ntp => (storeUInt32BE ntp.seconds).map some ++ (storeUInt32BE ntp.fractions).map some

namespace XrPacket
variable {p : XrPacket}

/-- The reserved byte is not written. -/
def blockHeaderLayout (blockType : Byte) (sizeIn32bits : BitVec 16) : Layout :=
  [some blockType] ++ ([none] ++ (storeUInt16BE sizeIn32bits).map some)

def rrtrLayout (p : XrPacket) : Layout :=
  match p.rrtrBlockContext with
  | none => []
  | some rrtr => blockHeaderLayout kBlockTypeRrtr rrtr.sizeIn32bits ++ rrtr.layout

def dlrrLayout (p : XrPacket) : Layout :=
  match p.dlrrBlockContext with
  | none => []
  | some dlrr => blockHeaderLayout kBlockTypeDlrr dlrr.sizeIn32bits ++
      dlrr.subBlocks.flatMap ReceiveTimeInfo.layout

def layout (p : XrPacket) : Layout :=
  p.wireHeader.bytes.map some ++ ((storeUInt32BE p.senderSsrc).map some ++
    (p.rrtrLayout ++ p.dlrrLayout))

/-- An RRTR block has a time. -/
def HasTime (p : XrPacket) : Prop := ∀ rrtr, p.rrtrBlockContext = some rrtr → rrtr.ntp ≠ none

theorem lays_blockHeader (blockType : Byte) (sizeIn32bits : BitVec 16) :
    Lays (writeBlockHeader blockType sizeIn32bits) (blockHeaderLayout blockType sizeIn32bits) :=
  (lays_writeUInt8 _).bind <| (lays_consume 1).bind (lays_writeUInt16 _)

theorem lays_serializeRrtr (h : p.HasTime) : Lays p.serializeRrtr p.rrtrLayout := by
  unfold serializeRrtr rrtrLayout
  cases hrrtr : p.rrtrBlockContext with
  | none => exact lays_nothing
  | some rrtr =>
      cases rrtr with
      | mk ntp =>
          cases ntp with
          | none => exact absurd rfl (h _ hrrtr)
          | some ntp =>
              exact (lays_blockHeader _ _).bind <|
                (lays_writeUInt32 ntp.seconds).bind (lays_writeUInt32 ntp.fractions)

theorem lays_serializeDlrr (p : XrPacket) : Lays p.serializeDlrr p.dlrrLayout := by
  unfold serializeDlrr dlrrLayout
  cases p.dlrrBlockContext with
  | none => exact lays_nothing
  | some dlrr => exact (lays_blockHeader _ _).bind (Lays.forEach ReceiveTimeInfo.lays _)

theorem lays (h : p.HasTime) : Lays p.serialize p.layout :=
  (lays_header _).bind <| (lays_writeUInt32 _).bind <| (lays_serializeRrtr h).bind
    (lays_serializeDlrr p)

/-- Without a time nothing is sent. -/
theorem serialize_eq_none (h : ¬p.HasTime) (w : ByteWriter) : p.serialize w = none := by
  simp only [HasTime,not_forall,not_not] at h
  cases h with
  | intro rrtr h =>
      cases h with
      | intro hrrtr hntp =>
          have hnone : ∀ w, p.serializeRrtr w = none := by
            intro w
            rw [serializeRrtr,hrrtr]
            simp only [RrtrBlockContext.serialize,hntp]
            cases writeBlockHeader kBlockTypeRrtr rrtr.sizeIn32bits w with
            | none => rfl
            | some w => rfl
          simp only [serialize,hnone,Option.bind_eq_bind,Option.bind_none,Option.bind_fun_none]

theorem subBlocks_layout_length (dlrr : DlrrBlockContext) :
    (dlrr.subBlocks.flatMap ReceiveTimeInfo.layout).length = dlrr.size := by
  rw [length_flatMap (f := ReceiveTimeInfo.layout) (n := 12) (fun _ => rfl),DlrrBlockContext.size,
    Nat.mul_comm]

theorem layout_length (h : p.HasTime) : p.layout.length = p.size := by
  have hrrtr : ∀ rrtr, p.rrtrBlockContext = some rrtr → rrtr.layout.length = 8 := by
    intro rrtr hblock
    rw [RrtrBlockContext.layout]
    cases hntp : rrtr.ntp with
    | none => exact absurd hntp (h _ hblock)
    | some ntp => rfl
  have hlength : p.layout.length = 8+(p.rrtrLayout.length+p.dlrrLayout.length) := by
    simp only [layout,List.length_append,List.length_map,RtcpCommonHeader.bytes_length,
      storeUInt32BE_length]
    omega
  rw [hlength,size,rrtrLayout,dlrrLayout]
  cases hblock : p.rrtrBlockContext with
  | none =>
      cases p.dlrrBlockContext with
      | none => rfl
      | some dlrr =>
          simp only [List.length_append,subBlocks_layout_length,kHeaderLength]
          simp only [blockHeaderLayout,List.length_append,List.length_cons,List.length_nil,
            List.length_map,storeUInt16BE_length,kReportBlockHeaderLength]
          omega
  | some rrtr =>
      cases p.dlrrBlockContext with
      | none =>
          simp only [List.length_append,hrrtr rrtr hblock,kHeaderLength,RrtrBlockContext.size]
          rfl
      | some dlrr =>
          simp only [List.length_append,hrrtr rrtr hblock,subBlocks_layout_length,kHeaderLength,
            RrtrBlockContext.size]
          simp only [blockHeaderLayout,List.length_append,List.length_cons,List.length_nil,
            List.length_map,storeUInt16BE_length,kReportBlockHeaderLength,kRrtrBlockLength]
          omega

/-! ### Reading back -/

theorem parseBlockHeader_parses (blockType : Byte) (sizeIn32bits : BitVec 16) :
    Parses parseBlockHeader (blockHeaderLayout blockType sizeIn32bits) (blockType,sizeIn32bits) :=
  (readUInt8_parses _).bind <| (parses_skip [none]).bind <|
    (readUInt16_parses _).map fun n => (blockType,n)

theorem parseBlock_rrtr (p : XrPacket) (ntp : NtpTime) (sizeIn32bits : BitVec 16) :
    Parses (parseBlock kBlockTypeRrtr sizeIn32bits p) (RrtrBlockContext.layout ⟨some ntp⟩)
      { p with rrtrBlockContext := some ⟨some ntp⟩ } := by
  have hrrtr : Parses parseRrtr (RrtrBlockContext.layout ⟨some ntp⟩) ⟨some ntp⟩ :=
    (readUInt32_parses ntp.seconds).bind <| (readUInt32_parses ntp.fractions).map
      fun fraction => (⟨some ⟨ntp.seconds,fraction⟩⟩ : RrtrBlockContext)
  exact hrrtr.map fun rrtr => { p with rrtrBlockContext := some rrtr }

theorem parseSubBlock_parses (info : ReceiveTimeInfo) :
    Parses parseSubBlock info.layout info :=
  (readUInt32_parses _).bind <| (readUInt32_parses _).bind <| (readUInt32_parses _).map _

theorem parseBlock_dlrr (p : XrPacket) (dlrr : DlrrBlockContext)
    (h : 3*dlrr.subBlocks.length < 2^16) :
    Parses (parseBlock kBlockTypeDlrr dlrr.sizeIn32bits p)
      (dlrr.subBlocks.flatMap ReceiveTimeInfo.layout)
      { p with dlrrBlockContext := some dlrr } := by
  have hsize : dlrr.sizeIn32bits.toNat = 3*dlrr.subBlocks.length := by
    simp only [DlrrBlockContext.sizeIn32bits,BitVec.toNat_ofNat,kDlrrSubBlockLength]
    omega
  have hcount : dlrr.sizeIn32bits.toNat/3 = dlrr.subBlocks.length := by omega
  have hdlrr : Parses (parseDlrr dlrr.sizeIn32bits) ([] ++ dlrr.subBlocks.flatMap
      ReceiveTimeInfo.layout) dlrr := by
    refine (parses_guard (by omega)).bind ?_
    rw [hcount]
    have hall := Parses.repeated fun info (_ : info ∈ dlrr.subBlocks) => parseSubBlock_parses info
    rw [List.map_id'] at hall
    exact hall.map DlrrBlockContext.mk
  exact hdlrr.map fun dlrr => { p with dlrrBlockContext := some dlrr }

/-- One round of the loop. -/
theorem parseBlocks_round (fuel : ℕ) {payloadLen : ℤ} {q q' y : XrPacket} {blockType : Byte}
    {sizeIn32bits : BitVec 16} {content rest : Layout} (hpayload : 4 ≤ payloadLen)
    (hblock : Parses (parseBlock blockType sizeIn32bits q) content q')
    (hrest : Parses (parseBlocks fuel (payloadLen-(sizeIn32bits.toNat+1)*4) q') rest y) :
    Parses (parseBlocks (fuel+1) payloadLen q)
      ((blockHeaderLayout blockType sizeIn32bits ++ content) ++ rest) y := by
  rw [parseBlocks,if_pos (.inr hpayload),List.append_assoc]
  exact (parseBlockHeader_parses _ _).bind (hblock.bind hrest)

theorem parseBlocks_done (fuel : ℕ) (q : XrPacket) : Parses (parseBlocks (fuel+1) 0 q) [] q := by
  rw [parseBlocks,if_neg (by simp)]
  exact parses_pure q

/-- The loop over both blocks, from the payload length that their bytes make. -/
theorem parseBlocks_parses (h : p.HasTime) (hfits : p.size/4-1 < 2^16) (fuel : ℕ) {q : XrPacket}
    (hrrtr : q.rrtrBlockContext = none) (hdlrr : q.dlrrBlockContext = none) :
    Parses (parseBlocks (fuel+3) ((p.size : ℤ)-8) q) (p.rrtrLayout ++ p.dlrrLayout)
      { q with rrtrBlockContext := p.rrtrBlockContext
               dlrrBlockContext := p.dlrrBlockContext } := by
  have hrest : ∀ (n : ℕ) (payloadLen : ℤ) (q' : XrPacket), q'.dlrrBlockContext = none →
      payloadLen = (match p.dlrrBlockContext with
        | none => 0
        | some dlrr => (dlrr.size : ℤ) + 4) →
      Parses (parseBlocks (n+2) payloadLen q') p.dlrrLayout
        { q' with dlrrBlockContext := p.dlrrBlockContext } := by
    intro n payloadLen q' hq hpayload
    rw [dlrrLayout]
    cases hblock : p.dlrrBlockContext with
    | none =>
        rw [hblock] at hpayload
        cases q' with
        | mk header senderSsrc rrtr dlrr =>
            simp only at hq
            rw [hpayload,hq]
            exact parseBlocks_done (n+1) _
    | some dlrr =>
        rw [hblock] at hpayload
        have hcount : 3*dlrr.subBlocks.length < 2^16 := by
          simp only [size,hblock,DlrrBlockContext.size,kDlrrSubBlockLength] at hfits
          omega
        have hsize : dlrr.sizeIn32bits.toNat = 3*dlrr.subBlocks.length := by
          simp only [DlrrBlockContext.sizeIn32bits,BitVec.toNat_ofNat,kDlrrSubBlockLength]
          omega
        simp only [DlrrBlockContext.size,kDlrrSubBlockLength] at hpayload
        have hround := parseBlocks_round (n+1) (show 4 ≤ payloadLen by omega)
          (parseBlock_dlrr q' dlrr hcount)
          (by rw [show payloadLen-(dlrr.sizeIn32bits.toNat+1)*4 = 0 by omega]
              exact parseBlocks_done n _)
        rwa [List.append_nil] at hround
  rw [rrtrLayout]
  cases hblock : p.rrtrBlockContext with
  | none =>
      rw [List.nil_append,← hrrtr]
      refine hrest (fuel+1) _ q hdlrr ?_
      simp only [size,hblock]
      cases p.dlrrBlockContext with
      | none => rfl
      | some dlrr =>
          simp only [kHeaderLength,kReportBlockHeaderLength]
          omega
  | some rrtr =>
      cases rrtr with
      | mk ntp =>
          cases ntp with
          | none => exact absurd rfl (h _ hblock)
          | some ntp =>
              have hpayload : ((p.size : ℤ)-8)-(2+1)*4 = match p.dlrrBlockContext with
                  | none => 0
                  | some dlrr => (dlrr.size : ℤ) + 4 := by
                simp only [size,hblock,RrtrBlockContext.size,kRrtrBlockLength,kHeaderLength,
                  kReportBlockHeaderLength]
                cases p.dlrrBlockContext with
                | none => rfl
                | some dlrr => simp only; omega
              refine parseBlocks_round (fuel+2) ?_ (parseBlock_rrtr q ntp _)
                (hrest fuel _ { q with rrtrBlockContext := some ⟨some ntp⟩ } hdlrr hpayload)
              simp only [size,hblock,RrtrBlockContext.size,kRrtrBlockLength,kHeaderLength]
              omega

/-! ### The packet -/

/-- The blocks that the packet has. -/
def blocks (p : XrPacket) : ℕ :=
  p.rrtrBlockContext.toList.length + p.dlrrBlockContext.toList.length

/-- What the blocks add to the length field. -/
theorem wireHeader_length_eq (p : XrPacket) :
    p.wireHeader.length.toNat = (p.header.length.toNat +
      ((match p.rrtrBlockContext with
        | none => 0
        | some _ => 4) +
      match p.dlrrBlockContext with
        | none => 0
        | some dlrr => 3*dlrr.subBlocks.length+2))%2^16 := by
  have hlt := p.header.length.isLt
  have hdlrr : ∀ dlrr : DlrrBlockContext,
      (dlrr.sizeIn32bits + BitVec.ofNat 16 kBlockHeaderIn32Bits + 1).toNat =
        (3*dlrr.subBlocks.length+2)%2^16 := by
    intro dlrr
    have hone : (1 : BitVec 16).toNat = 1 := rfl
    simp only [DlrrBlockContext.sizeIn32bits,kDlrrSubBlockLength,kBlockHeaderIn32Bits,
      BitVec.toNat_add,BitVec.toNat_ofNat,hone]
    omega
  have hrrtr : ∀ rrtr : RrtrBlockContext,
      (rrtr.sizeIn32bits + BitVec.ofNat 16 kBlockHeaderIn32Bits + 1).toNat = 4 := fun _ => rfl
  rw [wireHeader]
  cases p.rrtrBlockContext with
  | none =>
      cases p.dlrrBlockContext with
      | none => exact (Nat.mod_eq_of_lt hlt).symm
      | some dlrr => simp only [BitVec.toNat_add,hdlrr]; omega
  | some rrtr =>
      cases p.dlrrBlockContext with
      | none => simp only [BitVec.toNat_add,hrrtr]
      | some dlrr => simp only [BitVec.toNat_add,hrrtr,hdlrr]; omega

/-- The length field counts one word more for each block, and no word for the sender. -/
theorem wireHeader_length (p : XrPacket) (hfits : p.size/4-1 < 2^16) :
    p.wireHeader.length.toNat = p.size/4-1 ↔ (p.header.length.toNat + p.blocks)%2^16 = 1 := by
  have hshift : ∀ added words : ℕ, words < 2^16 → added+1 = p.blocks+words →
      ((p.header.length.toNat+added)%2^16 = words ↔ (p.header.length.toNat+p.blocks)%2^16 = 1) := by
    intro added words hwords hadded
    calc ((p.header.length.toNat+added)%2^16 = words)
      _ ↔ p.header.length.toNat+added ≡ words [MOD 2^16] := by
          rw [Nat.ModEq,Nat.mod_eq_of_lt hwords]
      _ ↔ p.header.length.toNat+added+1 ≡ words+1 [MOD 2^16] :=
          ⟨fun h => h.add_right 1,Nat.ModEq.add_right_cancel' 1⟩
      _ ↔ p.header.length.toNat+p.blocks+words ≡ 1+words [MOD 2^16] := by
          rw [Nat.add_assoc,hadded,← Nat.add_assoc,Nat.add_comm words]
      _ ↔ p.header.length.toNat+p.blocks ≡ 1 [MOD 2^16] :=
          ⟨Nat.ModEq.add_right_cancel' words,fun h => h.add_right words⟩
  rw [wireHeader_length_eq]
  refine hshift _ _ hfits ?_
  rw [size,blocks]
  cases p.rrtrBlockContext with
  | none =>
      cases p.dlrrBlockContext with
      | none => rfl
      | some dlrr =>
          simp only [Option.toList_none,Option.toList_some,List.length_nil,List.length_singleton,
            DlrrBlockContext.size,kDlrrSubBlockLength,kReportBlockHeaderLength,kHeaderLength]
          omega
  | some rrtr =>
      cases p.dlrrBlockContext with
      | none =>
          simp only [Option.toList_none,Option.toList_some,List.length_nil,List.length_singleton,
            RrtrBlockContext.size,kRrtrBlockLength,kReportBlockHeaderLength,kHeaderLength]
      | some dlrr =>
          simp only [Option.toList_some,List.length_singleton,RrtrBlockContext.size,
            kRrtrBlockLength,DlrrBlockContext.size,kDlrrSubBlockLength,kReportBlockHeaderLength,
            kHeaderLength]
          omega

/-- `Parse` needs nothing but the right length. -/
theorem parses (h : p.HasTime) (hfits : p.size/4-1 < 2^16)
    (hlength : p.wireHeader.length.toNat = p.size/4-1) :
    Parses XrPacket.parse p.layout { p with header := p.wireHeader } := by
  have hsize : (p.wireHeader.length.toNat : ℤ)*4-4 = (p.size : ℤ)-8 := by
    have hdvd : 4 ∣ p.size := by
      rw [size,kHeaderLength]
      cases p.rrtrBlockContext with
      | none =>
          cases p.dlrrBlockContext with
          | none => exact ⟨2,rfl⟩
          | some dlrr =>
              simp only [DlrrBlockContext.size,kDlrrSubBlockLength,kReportBlockHeaderLength]
              omega
      | some rrtr =>
          cases p.dlrrBlockContext with
          | none => exact ⟨5,rfl⟩
          | some dlrr =>
              simp only [DlrrBlockContext.size,kDlrrSubBlockLength,kReportBlockHeaderLength,
                RrtrBlockContext.size,kRrtrBlockLength]
              omega
    have hpos : 8 ≤ p.size := by
      rw [size,kHeaderLength]
      omega
    omega
  refine (parseCommonHeader_parses _).bind <| (readUInt32_parses _).bind ?_
  intro b c hholds
  have hblocks := parseBlocks_parses h hfits (b.size-c.start)
    (q := { header := p.wireHeader, senderSsrc := p.senderSsrc }) rfl rfl b c hholds
  rw [Parser.bind_of_some (Parser.run_left b c),hsize,
    parseBlocks_fuel (Nat.lt_succ_self _) (show b.size-c.start < b.size-c.start+3 by omega)]
  exact hblocks

/-- Serializing an extended report into `Size()` bytes fills them with a header of that
length, and parsing gives the report back and takes all of them. -/
def Serialized (p : XrPacket) : Prop :=
  ∀ buffer : List Byte, buffer.length = p.size →
    ∃ w, p.serialize (on buffer) = some w ∧ w.used = p.size ∧
      ∀ b : Region, b.Holds 0 w.bytes →
        (headerAt b 0).length.toNat = p.size/4-1 ∧
        ∃ q t, XrPacket.parse.run b ⟨0,[]⟩ = (some q,⟨p.size,t⟩) ∧
          q.senderSsrc = p.senderSsrc ∧ q.rrtrBlockContext = p.rrtrBlockContext ∧
          q.dlrrBlockContext = p.dlrrBlockContext

/-- A report is right exactly when its RRTR block has a time and the length that was in its
header makes one with the number of its blocks. -/
theorem serialized_iff (p : XrPacket) (hfits : p.size/4-1 < 2^16) :
    p.Serialized ↔ p.HasTime ∧ (p.header.length.toNat + p.blocks)%2^16 = 1 := by
  constructor
  · intro hright
    have hbuffer : (List.replicate p.size (0 : Byte)).length = p.size := List.length_replicate
    cases hright _ hbuffer with
    | intro w hw =>
        by_cases h : p.HasTime
        · have hroom : p.layout.length ≤ (List.replicate p.size (0 : Byte)).length := by
            rw [layout_length h,hbuffer]
          rw [(lays h).on _ hroom,Option.some.injEq] at hw
          rw [← hw.1] at hw
          have hsmall : (overlay p.layout (List.replicate p.size 0)).length < 2^63 := by
            rw [overlay_length,hbuffer]
            omega
          have hb := Region.ofList_holds (overlay p.layout (List.replicate p.size 0)) (fun _ => 0)
            hsmall
          have hone := (hw.2.2 _ hb).1
          rw [headerAt_of_fits (fits_overlay hb hroom)] at hone
          exact ⟨h,(p.wireHeader_length hfits).mp hone⟩
        · rw [serialize_eq_none h] at hw
          exact absurd hw.1 (by simp)
  · intro h buffer hbuffer
    have hlength := (p.wireHeader_length hfits).mpr h.2
    have hroom : p.layout.length ≤ buffer.length := by rw [layout_length h.1,hbuffer]
    refine ⟨_,(lays h.1).on buffer hroom,layout_length h.1,fun b hb => ?_⟩
    rw [headerAt_of_fits (fits_overlay hb hroom)]
    cases (parses h.1 hfits hlength).run_overlay hb hroom with
    | intro t ht =>
        rw [layout_length h.1] at ht
        exact ⟨hlength,_,t,ht,rfl,rfl,rfl⟩

/-- The report that a track sends, with an RRTR block alone. -/
def timeReport (length : BitVec 16) : XrPacket :=
  { header := ⟨0,0,0,0,length⟩, senderSsrc := 5, rrtrBlockContext := some ⟨some ⟨1,2⟩⟩ }

/-- Both blocks, with a length that wraps to the right one. -/
def bothReports : XrPacket :=
  { timeReport 0xFFFF with dlrrBlockContext := some { subBlocks := [⟨7,8,9⟩,⟨10,11,12⟩] } }

theorem serialized_iff_bothReports : bothReports.Serialized ↔
    bothReports.HasTime ∧ (bothReports.header.length.toNat + bothReports.blocks)%2^16 = 1 :=
  serialized_iff bothReports (by decide)

/-- A second call adds to the swapped length of the first. -/
theorem not_report_serialized : ¬∀ p : XrPacket, p.size/4-1 < 2^16 → p.Serialized := by
  intro hall
  cases hall (timeReport 0).serialized (by decide) (List.replicate 20 0) rfl with
  | intro w hw =>
      have hwritten : w = ⟨[0x80,0xCF,4,4,0,0,0,5,4,0,0,2,0,0,0,1,0,0,0,2],20⟩ :=
        Option.some.inj (hw.1.symm.trans rfl)
      rw [hwritten] at hw
      have hb := Region.ofList_holds [0x80,0xCF,4,4,0,0,0,5,4,0,0,2,0,0,0,1,0,0,0,2] (fun _ => 0)
        (by decide)
      exact absurd (hw.2.2 _ hb).1 (by decide)

end XrPacket
end Ylrtc.RtcpPackets
