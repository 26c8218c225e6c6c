import Ylrtc.Lib.AbsoluteReads
import Ylrtc.Lib.MachineInt
import Ylrtc.Rtp.Packet

/-!
# Key frames in VP8 payloads

`RtpPayloadParserVp8::Parse`. A payload is a region of memory here, so that payloads of any
size are in reach, also those whose size an `int` does not hold.
-/
namespace Ylrtc.RtpPayloadParserVp8
open CursorParser MachineInt Packet

abbrev kNoPictureId : BitVec 16 := -1
abbrev kNoTl0PicIdx : BitVec 16 := -1
abbrev kNoTemporalIdx : Byte := 0xFF
abbrev kNoKeyIdx : ℤ := -1

structure RTPVideoHeaderVP8 where
  nonReference : Bool := false
  pictureId : BitVec 16 := kNoPictureId
  tl0PicIdx : BitVec 16 := kNoTl0PicIdx
  temporalIdx : Byte := kNoTemporalIdx
  layerSync : Bool := false
  keyIdx : ℤ := kNoKeyIdx
  partitionId : Byte := 0
  beginningOfPartition : Bool := false
  deriving DecidableEq, Repr

/-- The header so far, the bytes parsed, which are where `data` points, and those left. -/
structure Descriptor where
  vp8 : RTPVideoHeaderVP8
  parsedBytes : ℕ
  dataLength : ℕ

namespace Descriptor

/-- `data++`, `parsed_bytes++` and `data_length--`. -/
def advance (d : Descriptor) (vp8 : RTPVideoHeaderVP8) : Descriptor :=
  ⟨vp8,d.parsedBytes+1,d.dataLength-1⟩

def parsePictureId (d : Descriptor) : Parser Descriptor := do
  Parser.guard (d.dataLength ≠ 0)
  let first ← Parser.byte d.parsedBytes
  let pictureId := (first &&& 0x7f).setWidth 16
  let d := d.advance { d.vp8 with pictureId := pictureId }
  if first &&& 0x80 = 0 then return d
  else do
    Parser.guard (d.dataLength ≠ 0)
    let second ← Parser.byte d.parsedBytes
    return d.advance { d.vp8 with pictureId := (pictureId <<< 8) + second.setWidth 16 }

def parseTl0PicIdx (d : Descriptor) : Parser Descriptor := do
  Parser.guard (d.dataLength ≠ 0)
  let tl0PicIdx ← Parser.byte d.parsedBytes
  return d.advance { d.vp8 with tl0PicIdx := tl0PicIdx.setWidth 16 }

def parseTidKeyIdx (hasTid hasKeyIdx : Bool) (d : Descriptor) : Parser Descriptor := do
  Parser.guard (d.dataLength ≠ 0)
  let data ← Parser.byte d.parsedBytes
  let vp8 := if hasTid then { d.vp8 with
    temporalIdx := (data >>> 6) &&& 0x03
    layerSync := data &&& 0x20 != 0 } else d.vp8
  return d.advance (if hasKeyIdx then { vp8 with keyIdx := (data &&& 0x1f).toNat } else vp8)

/-- A field that is there only if its bit is set. -/
def parseIf (has : Bool) (parseField : Descriptor → Parser Descriptor) (d : Descriptor) :
    Parser Descriptor :=
  if has then parseField d else return d

end Descriptor

/-- The fields behind the extension byte. -/
def parseExtended (flags : Byte) (d : Descriptor) : Parser Descriptor := do
  let hasTid := flags &&& 0x20 != 0
  let hasKeyIdx := flags &&& 0x10 != 0
  let d ← d.parseIf (flags &&& 0x80 != 0) Descriptor.parsePictureId
  let d ← d.parseIf (flags &&& 0x40 != 0) Descriptor.parseTl0PicIdx
  d.parseIf (hasTid || hasKeyIdx) (Descriptor.parseTidKeyIdx hasTid hasKeyIdx)

/-- `ParseVP8Descriptor`. `kFailedToParse` is a failure here; no other result is zero. -/
def parseVP8Descriptor (dataLength : ℕ) : Parser Descriptor := do
  Parser.guard (0 < dataLength)
  let first ← Parser.byte 0
  let d : Descriptor := ⟨{
    nonReference := first &&& 0x20 != 0
    beginningOfPartition := first &&& 0x10 != 0
    partitionId := first &&& 0x0f },1,dataLength-1⟩
  if first &&& 0x80 = 0 then return d
  else do
    Parser.guard (d.dataLength ≠ 0)
    let flags ← Parser.byte d.parsedBytes
    parseExtended flags (d.advance d.vp8)

/-- The P bit, which is only there at the beginning of the first partition. -/
def parsePBit (isFirstPacketInFrame : Bool) (vp8PayloadSize : ℤ) (k : ℕ) : Parser PayloadInfo :=
  if isFirstPacketInFrame then do
    let vp8Payload ← Parser.byte k
    Parser.guard (vp8Payload &&& 0x01 ≠ 0 ∨ ¬vp8PayloadSize < 10)
    return ⟨vp8Payload &&& 0x01 = 0⟩
  else return ⟨false⟩

/-- The end of `Parse`, where the size of the payload is an `int`. -/
def parsePayload (d : Descriptor) (size : ℕ) : Parser PayloadInfo := do
  Parser.guard (d.vp8.partitionId ≤ 8)
  let isFirstPacketInFrame := d.vp8.beginningOfPartition && d.vp8.partitionId = 0
  let vp8PayloadSize := int32 (size - d.parsedBytes : ℤ)
  Parser.guard (vp8PayloadSize ≠ 0)
  parsePBit isFirstPacketInFrame vp8PayloadSize d.parsedBytes

def parse : Parser PayloadInfo := do
  let size ← Parser.size
  Parser.guard (size ≠ 0)
  let d ← parseVP8Descriptor size
  parsePayload d size

/-! ### What a payload is -/

def partId (b : Region) : Byte := b.bytes 0 &&& 0x0f

/-- Bytes of the descriptor, as its flags have them. -/
def descriptorSize (b : Region) : ℕ :=
  if b.bytes 0 &&& 0x80 = 0 then 1
  else
    2 + (if b.bytes 1 &&& 0x80 != 0 then if b.bytes 2 &&& 0x80 = 0 then 1 else 2 else 0) +
      (if b.bytes 1 &&& 0x40 != 0 then 1 else 0) +
      (if b.bytes 1 &&& 0x20 != 0 || b.bytes 1 &&& 0x10 != 0 then 1 else 0)

/-- Bytes behind the descriptor. -/
def payloadLength (b : Region) : ℕ := b.size - descriptorSize b

/-- The descriptor is complete, and of a partition there can be. -/
def Described (b : Region) : Prop := descriptorSize b ≤ b.size ∧ partId b ≤ 8

/-- The first packet of a frame, with the P bit of a key frame. -/
def Key (b : Region) : Prop :=
  b.bytes 0 &&& 0x10 ≠ 0 ∧ partId b = 0 ∧ b.bytes (descriptorSize b) &&& 0x01 = 0

/-- The strings to be accepted. -/
def Acceptable (b : Region) : Prop :=
  Described b ∧ 1 ≤ payloadLength b ∧ (Key b → 10 ≤ payloadLength b)

/-- `Parse` reads the string alone, accepts what is to be accepted, and tells a key frame. -/
def Right (b : Region) : Prop :=
  (parse.run b ⟨0,[]⟩).2.Within 0 b.size ∧
    ((parse.run b ⟨0,[]⟩).1.isSome = true ↔ Acceptable b) ∧
    ∀ info, (parse.run b ⟨0,[]⟩).1 = some info → (info.keyframe = true ↔ Key b)

/-- The size of the payload is one that an `int` distinguishes. -/
def Distinguished (b : Region) : Prop :=
  Described b → payloadLength b = 0 ∨ payloadLength b % 2^32 ≠ 0 ∧
    (Key b → payloadLength b < 10 ∨ 10 ≤ payloadLength b % 2^32 ∧ payloadLength b % 2^32 < 2^31)

/-! ### The descriptor -/

/-- The fields that `Parse` asks for stay what they are. -/
def SameFrame (vp8 vp8' : RTPVideoHeaderVP8) : Prop :=
  vp8'.partitionId = vp8.partitionId ∧ vp8'.beginningOfPartition = vp8.beginningOfPartition

/-- A field of `width` bytes: it is passed over, or the descriptor is too short for it. -/
def Passes (b : Region) (p : Parser Descriptor) (d : Descriptor) (width : ℕ) : Prop :=
  ∃ vp8, SameFrame d.vp8 vp8 ∧ p.Gives b 0 b.size
    (if width ≤ d.dataLength then some ⟨vp8,d.parsedBytes+width,d.dataLength-width⟩ else none)

section Fields
variable {b : Region}

theorem SameFrame.refl (vp8 : RTPVideoHeaderVP8) : SameFrame vp8 vp8 := ⟨rfl,rfl⟩

theorem SameFrame.trans {vp8 vp8' vp8'' : RTPVideoHeaderVP8} (h : SameFrame vp8 vp8')
    (h' : SameFrame vp8' vp8'') : SameFrame vp8 vp8'' :=
  ⟨h'.1.trans h.1,h'.2.trans h.2⟩

theorem passes_return (d : Descriptor) : Passes b (pure d) d 0 := by
  refine ⟨d.vp8,SameFrame.refl _,?_⟩
  rw [if_pos (Nat.zero_le _)]
  exact Parser.gives_pure d

theorem Passes.bind {p : Parser Descriptor} {f : Descriptor → Parser Descriptor} {d : Descriptor}
    {m n : ℕ} (hp : Passes b p d m)
    (hf : ∀ vp8, SameFrame d.vp8 vp8 → m ≤ d.dataLength →
      Passes b (f ⟨vp8,d.parsedBytes+m,d.dataLength-m⟩)
        ⟨vp8,d.parsedBytes+m,d.dataLength-m⟩ n) :
    Passes b (p >>= f) d (m+n) := by
  cases hp with
  | intro vp8 hp =>
      by_cases hm : m ≤ d.dataLength
      · cases hf vp8 hp.1 hm with
        | intro vp8' hf =>
            refine ⟨vp8',hp.1.trans hf.1,?_⟩
            have hfirst := hp.2
            rw [if_pos hm] at hfirst
            have hboth := hfirst.then hf.2
            simp only at hboth
            by_cases hn : n ≤ d.dataLength-m
            · rw [if_pos hn,Nat.add_assoc,Nat.sub_sub] at hboth
              rw [if_pos (by omega)]
              exact hboth
            · rw [if_neg hn] at hboth
              rw [if_neg (by omega)]
              exact hboth
      · refine ⟨vp8,hp.1,?_⟩
        have hfirst := hp.2
        rw [if_neg hm] at hfirst
        rw [if_neg (by omega)]
        exact hfirst.failed

/-- One byte, which the header takes in. -/
theorem passes_byte {d : Descriptor} (hd : d.parsedBytes + d.dataLength = b.size)
    {f : Byte → RTPVideoHeaderVP8} (hf : ∀ data, SameFrame d.vp8 (f data)) :
    Passes b (do
      Parser.guard (d.dataLength ≠ 0)
      let data ← Parser.byte d.parsedBytes
      return d.advance (f data)) d 1 := by
  refine ⟨f (b.bytes d.parsedBytes),hf _,?_⟩
  by_cases hempty : d.dataLength = 0
  · rw [if_neg (by omega)]
    exact (Parser.gives_guard_not (not_not.mpr hempty)).failed
  · rw [if_pos (by omega)]
    apply (Parser.gives_guard_of hempty).then
    exact (Parser.gives_byte (Nat.zero_le _) (by omega)).then (Parser.gives_pure _)

theorem passes_parsePictureId {d : Descriptor} (hd : d.parsedBytes + d.dataLength = b.size) :
    Passes b d.parsePictureId d (if b.bytes d.parsedBytes &&& 0x80 = 0 then 1 else 2) := by
  unfold Descriptor.parsePictureId
  by_cases hempty : d.dataLength = 0
  · refine ⟨d.vp8,SameFrame.refl _,?_⟩
    rw [if_neg (by split <;> omega)]
    exact (Parser.gives_guard_not (not_not.mpr hempty)).failed
  by_cases hshort : b.bytes d.parsedBytes &&& 0x80 = 0
  · refine ⟨{ d.vp8 with pictureId := (b.bytes d.parsedBytes &&& 0x7f).setWidth 16 },⟨rfl,rfl⟩,?_⟩
    rw [if_pos hshort,if_pos (by omega)]
    apply (Parser.gives_guard_of hempty).then
    apply (Parser.gives_byte (Nat.zero_le _) (by omega)).then
    simp only [if_pos hshort]
    exact Parser.gives_pure _
  · have hlong := passes_byte (b := b) (d := d.advance
      { d.vp8 with pictureId := (b.bytes d.parsedBytes &&& 0x7f).setWidth 16 })
      (by simp only [Descriptor.advance]; omega)
      (f := fun second => { d.vp8 with pictureId :=
        ((b.bytes d.parsedBytes &&& 0x7f).setWidth 16 <<< 8) + second.setWidth 16 })
      (fun _ => ⟨rfl,rfl⟩)
    cases hlong with
    | intro vp8 hlong =>
        refine ⟨vp8,hlong.1,?_⟩
        rw [if_neg hshort]
        apply (Parser.gives_guard_of hempty).then
        apply (Parser.gives_byte (Nat.zero_le _) (by omega)).then
        simp only [if_neg hshort]
        have hgives := hlong.2
        simp only [Descriptor.advance,Nat.add_assoc,Nat.sub_sub] at hgives
        by_cases htwo : 2 ≤ d.dataLength
        · rw [if_pos (by omega)] at hgives
          rw [if_pos htwo]
          exact hgives
        · rw [if_neg (by omega)] at hgives
          rw [if_neg htwo]
          exact hgives

theorem passes_parseIf {d : Descriptor} {parseField : Descriptor → Parser Descriptor} {width : ℕ}
    (h : Passes b (parseField d) d width) (has : Bool) :
    Passes b (d.parseIf has parseField) d (if has then width else 0) := by
  unfold Descriptor.parseIf
  cases has with
  | true => exact h
  | false => exact passes_return d

/-- The fields behind the extension byte, each as wide as its flag says. -/
theorem passes_parseExtended {d : Descriptor} (hd : d.parsedBytes + d.dataLength = b.size)
    (flags : Byte) :
    Passes b (parseExtended flags d) d
      ((if flags &&& 0x80 != 0 then if b.bytes d.parsedBytes &&& 0x80 = 0 then 1 else 2 else 0) +
        ((if flags &&& 0x40 != 0 then 1 else 0) +
          (if flags &&& 0x20 != 0 || flags &&& 0x10 != 0 then 1 else 0))) := by
  unfold parseExtended
  apply (passes_parseIf (passes_parsePictureId hd) _).bind
  intro vp8 _ hpicture
  apply Passes.bind
  · apply passes_parseIf
    apply passes_byte
    · simp only
      omega
    · exact fun _ => ⟨rfl,rfl⟩
  intro vp8 _ htl0
  simp only at htl0
  apply passes_parseIf
  apply passes_byte
  · simp only
    omega
  · intro data
    cases flags &&& 0x20 != 0 with
    | true =>
        cases flags &&& 0x10 != 0 with
        | true => exact ⟨rfl,rfl⟩
        | false => exact ⟨rfl,rfl⟩
    | false =>
        cases flags &&& 0x10 != 0 with
        | true => exact ⟨rfl,rfl⟩
        | false => exact ⟨rfl,rfl⟩

/-- Width of the fields behind the extension byte, where there is one. -/
theorem descriptorSize_extended (hextended : ¬b.bytes 0 &&& 0x80 = 0) :
    descriptorSize b = 2 +
      ((if b.bytes 1 &&& 0x80 != 0 then if b.bytes 2 &&& 0x80 = 0 then 1 else 2 else 0) +
        ((if b.bytes 1 &&& 0x40 != 0 then 1 else 0) +
          (if b.bytes 1 &&& 0x20 != 0 || b.bytes 1 &&& 0x10 != 0 then 1 else 0))) := by
  unfold descriptorSize
  rw [if_neg hextended,Nat.add_assoc (2 + _),Nat.add_assoc 2]

/-- The descriptor is as long as its flags say, or the string is too short for it. -/
theorem parseVP8Descriptor_gives (hsize : 0 < b.size) :
    ∃ vp8 : RTPVideoHeaderVP8, vp8.partitionId = partId b ∧
      vp8.beginningOfPartition = (b.bytes 0 &&& 0x10 != 0) ∧
      (parseVP8Descriptor b.size).Gives b 0 b.size
        (if descriptorSize b ≤ b.size
          then some ⟨vp8,descriptorSize b,b.size - descriptorSize b⟩ else none) := by
  unfold parseVP8Descriptor
  generalize hheader : ({
    nonReference := b.bytes 0 &&& 0x20 != 0
    beginningOfPartition := b.bytes 0 &&& 0x10 != 0
    partitionId := b.bytes 0 &&& 0x0f } : RTPVideoHeaderVP8) = vp8
  have hfields : vp8.partitionId = partId b ∧
      vp8.beginningOfPartition = (b.bytes 0 &&& 0x10 != 0) := by
    rw [← hheader]
    exact ⟨rfl,rfl⟩
  by_cases hplain : b.bytes 0 &&& 0x80 = 0
  · have hone : descriptorSize b = 1 := if_pos hplain
    refine ⟨vp8,hfields.1,hfields.2,?_⟩
    rw [hone,if_pos (by omega)]
    apply (Parser.gives_guard_of hsize).then
    apply (Parser.gives_byte (Nat.zero_le _) hsize).then
    simp only [hheader,if_pos hplain]
    exact Parser.gives_pure _
  · rw [descriptorSize_extended hplain]
    by_cases hone : b.size-1 = 0
    · refine ⟨vp8,hfields.1,hfields.2,?_⟩
      rw [if_neg (by omega)]
      apply (Parser.gives_guard_of hsize).then
      apply (Parser.gives_byte (Nat.zero_le _) hsize).then
      simp only [hheader,if_neg hplain]
      exact (Parser.gives_guard_not (not_not.mpr hone)).failed
    · have hextended := passes_parseExtended (b := b) (d := ⟨vp8,2,b.size-1-1⟩)
        (by simp only; omega) (b.bytes 1)
      simp only at hextended
      generalize (if b.bytes 1 &&& 0x80 != 0 then if b.bytes 2 &&& 0x80 = 0 then 1 else 2
        else 0) + ((if b.bytes 1 &&& 0x40 != 0 then 1 else 0) +
          (if b.bytes 1 &&& 0x20 != 0 || b.bytes 1 &&& 0x10 != 0 then 1 else 0)) = width
        at hextended ⊢
      cases hextended with
      | intro vp8' hextended =>
          refine ⟨vp8',hextended.1.1.trans hfields.1,hextended.1.2.trans hfields.2,?_⟩
          apply (Parser.gives_guard_of hsize).then
          apply (Parser.gives_byte (Nat.zero_le _) hsize).then
          simp only [hheader,if_neg hplain]
          apply (Parser.gives_guard_of hone).then
          apply (Parser.gives_byte (Nat.zero_le _) (by omega)).then
          have hgives := hextended.2
          simp only [Nat.sub_sub] at hgives
          by_cases hwidth : width ≤ b.size-2
          · rw [if_pos hwidth] at hgives
            rw [if_pos (by omega)]
            exact hgives
          · rw [if_neg hwidth] at hgives
            rw [if_neg (by omega)]
            exact hgives

end Fields

/-! ### The end of `Parse` -/

section Payload
variable {b : Region}

/-- The size as the `int` that `Parse` looks at. -/
def intLength (b : Region) : ℤ := int32 (payloadLength b)

/-- What `Parse` accepts. -/
def Taken (b : Region) : Prop :=
  Described b ∧ intLength b ≠ 0 ∧ (Key b → ¬intLength b < 10)

instance (b : Region) : Decidable (Described b) := inferInstanceAs (Decidable (_ ∧ _))
instance (b : Region) : Decidable (Key b) := inferInstanceAs (Decidable (_ ∧ _))
instance (b : Region) : Decidable (Taken b) := inferInstanceAs (Decidable (_ ∧ _))

theorem parsePBit_gives (hdescribed : Described b) (hinside : descriptorSize b < b.size)
    (hlength : intLength b ≠ 0) :
    (parsePBit ((b.bytes 0 &&& 0x10 != 0) && decide (partId b = 0)) (intLength b)
      (descriptorSize b)).Gives b 0 b.size (if Taken b then some ⟨decide (Key b)⟩ else none) := by
  unfold parsePBit
  by_cases hfirst : b.bytes 0 &&& 0x10 ≠ 0 ∧ partId b = 0
  · have hkey : Key b ↔ b.bytes (descriptorSize b) &&& 0x01 = 0 :=
      ⟨fun hkey => hkey.2.2,fun hbit => ⟨hfirst.1,hfirst.2,hbit⟩⟩
    rw [if_pos (by rw [bne_iff_ne.mpr hfirst.1,decide_eq_true hfirst.2]; rfl)]
    apply (Parser.gives_byte (Nat.zero_le _) hinside).then
    by_cases haccept : b.bytes (descriptorSize b) &&& 0x01 ≠ 0 ∨ ¬intLength b < 10
    · have htaken : Taken b := ⟨hdescribed,hlength,fun hbit =>
        haccept.resolve_left (not_not.mpr (hkey.mp hbit))⟩
      rw [if_pos htaken]
      apply (Parser.gives_guard_of haccept).then
      simp only [hkey]
      exact Parser.gives_pure _
    · have hrefused := haccept
      rw [not_or,not_not] at hrefused
      have htaken : ¬Taken b := fun hall => hrefused.2 (hall.2.2 (hkey.mpr hrefused.1))
      rw [if_neg htaken]
      exact (Parser.gives_guard_not haccept).failed
  · have hkey : ¬Key b := fun hkey => hfirst ⟨hkey.1,hkey.2.1⟩
    have htaken : Taken b := ⟨hdescribed,hlength,fun hbit => absurd hbit hkey⟩
    rw [if_pos htaken,if_neg (by rw [Bool.and_eq_true,bne_iff_ne,decide_eq_true_eq]; exact hfirst),
      decide_eq_false hkey]
    exact Parser.gives_pure _

/-- What `Parse` gives, by the `int`. -/
theorem parse_gives (b : Region) :
    parse.Gives b 0 b.size (if Taken b then some ⟨decide (Key b)⟩ else none) := by
  unfold parse
  apply Parser.gives_size.then
  by_cases hempty : b.size = 0
  · have htaken : ¬Taken b := by
      intro hall
      have hfits := hall.1.1
      unfold descriptorSize at hfits
      split at hfits <;> omega
    rw [if_neg htaken]
    exact (Parser.gives_guard_not (not_not.mpr hempty)).failed
  apply (Parser.gives_guard_of hempty).then
  cases parseVP8Descriptor_gives (b := b) (Nat.pos_of_ne_zero hempty) with
  | intro vp8 h =>
      have hdescriptor := h.2.2
      by_cases hfits : descriptorSize b ≤ b.size
      · have hlength : int32 (b.size - descriptorSize b : ℤ) = intLength b := by
          rw [intLength,payloadLength,Nat.cast_sub hfits]
        rw [if_pos hfits] at hdescriptor
        apply hdescriptor.then
        unfold parsePayload
        simp only [h.1,h.2.1,hlength]
        by_cases hpart : partId b ≤ 8
        · apply (Parser.gives_guard_of hpart).then
          by_cases hzero : intLength b = 0
          · have htaken : ¬Taken b := fun hall => hall.2.1 hzero
            rw [if_neg htaken]
            exact (Parser.gives_guard_not (not_not.mpr hzero)).failed
          · have hinside : descriptorSize b < b.size := by
              by_contra hend
              apply hzero
              rw [intLength,payloadLength,Nat.sub_eq_zero_of_le (not_lt.mp hend)]
              rfl
            apply (Parser.gives_guard_of hzero).then
            exact parsePBit_gives ⟨hfits,hpart⟩ hinside hzero
        · have htaken : ¬Taken b := fun hall => hpart hall.1.2
          rw [if_neg htaken]
          exact (Parser.gives_guard_not hpart).failed
      · have htaken : ¬Taken b := fun hall => hfits hall.1.1
        rw [if_neg htaken]
        rw [if_neg hfits] at hdescriptor
        exact hdescriptor.failed

/-- The `int` by the remainder of the size. -/
theorem intLength_spec (b : Region) :
    (intLength b = 0 ↔ payloadLength b % 2^32 = 0) ∧
      (¬intLength b < 10 ↔ 10 ≤ payloadLength b % 2^32 ∧ payloadLength b % 2^32 < 2^31) := by
  rw [intLength,int32,Int.bmod_def]
  generalize payloadLength b = n
  constructor
  · split <;> omega
  · split <;> omega

/-- `Parse` is right where what it accepts is what is to be accepted. -/
theorem right_of_taken : Right b ↔ (Taken b ↔ Acceptable b) := by
  have hrun := (parse_gives b).run 0
  rw [Right,hrun.1]
  by_cases htaken : Taken b
  · rw [if_pos htaken]
    constructor
    · intro hright
      exact iff_of_true htaken (hright.2.1.mp rfl)
    · intro hsame
      refine ⟨hrun.2,iff_of_true rfl (hsame.mp htaken),fun info hinfo => ?_⟩
      rw [← Option.some.inj hinfo]
      exact decide_eq_true_iff
  · rw [if_neg htaken]
    constructor
    · intro hright
      exact iff_of_false htaken fun haccept => by simpa using hright.2.1.mpr haccept
    · intro hsame
      exact ⟨hrun.2,iff_of_false (by simp) fun haccept => htaken (hsame.mpr haccept),
        fun info hinfo => by simp at hinfo⟩

/-- A string is treated as it should be exactly when the conversion to `int` keeps apart what
`Parse` tells apart by it. -/
theorem right_iff_distinguished (b : Region) : Right b ↔ Distinguished b := by
  have hint := intLength_spec b
  rw [right_of_taken,Taken,Acceptable,Distinguished,ne_eq,hint.1,hint.2]
  by_cases hdescribed : Described b
  · simp only [hdescribed,true_and,true_implies]
    by_cases hkey : Key b
    · simp only [hkey,true_implies]
      omega
    · simp only [hkey,false_implies,and_true]
      omega
  · simp only [hdescribed,false_and,false_implies]

/-- A payload whose size an `int` holds is treated as it should be. -/
theorem parse_right {b : Region} (hsize : b.size < 2^31) : Right b := by
  have hlength : payloadLength b < 2^31 := Nat.lt_of_le_of_lt (Nat.sub_le _ _) hsize
  have hmod : payloadLength b % 2^32 = payloadLength b := Nat.mod_eq_of_lt (by omega)
  refine (right_iff_distinguished b).mpr fun _ => ?_
  rw [hmod]
  omega

end Payload

/-- The start of a key frame behind a descriptor with all its fields, in a region that goes on. -/
def keyFrame : Region :=
  Region.ofList [0x90,0xf0,0x81,0x02,0x03,0x24,0x10,0x02,0x00,0x9d,0x01,0x2a,0x80,0x02,0xe0,0x01]
    (fun _ => 0xff) (by decide)

theorem parse_right_keyFrame :
    (parse.run keyFrame ⟨0,[]⟩).1 = some ⟨true⟩ ∧ Right keyFrame :=
  ⟨by decide,parse_right (by decide)⟩

end Ylrtc.RtpPayloadParserVp8
