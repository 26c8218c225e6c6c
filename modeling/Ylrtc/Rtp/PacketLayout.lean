import Ylrtc.Lib.AbsoluteReads
import Ylrtc.Rtp.Packet

/-!
# What `RtpPacket::Parse` reads, and the layout it accepts

`Parse` with its reads written out, in the order of the source. Everything that
writes through the offsets later relies on the layout of the accepted packet.
-/
namespace Ylrtc.Packet
open ByteBuffer CursorParser

abbrev kRtpExtensionHeaderLen : ℕ := 4

/-! ### `Parse` with its reads -/

/-- Id and length of the extension at an offset whose first byte is known. -/
def loadExtensionHeader (profile : BitVec 16) (first : Byte) (k : ℕ) :
    Parser (Option (Byte × Byte)) :=
  if profile = kOneByteExtensionProfileId then
    let id := first >>> 4
    let length := 1 + (first &&& 0xf)
    return if id = 15 || (id = 0 && length != 1) then none else some (id,length)
  else do
    let length ← Parser.byte (k+1)
    return some (first,length)

/-- The loop over the extensions. What is left of their block shrinks in every round. -/
def loadExtensions (profile : BitVec 16) (extensionOffset capacity size : ℕ)
    (entries : List ExtensionInfo) : Parser (ℕ × List ExtensionInfo) :=
  let headerLength := extensionHeaderLength profile
  if _hroom : size + headerLength < capacity then do
    let first ← Parser.byte (extensionOffset+size)
    if first = 0 then loadExtensions profile extensionOffset capacity (size+1) entries
    else
      let header ← loadExtensionHeader profile first (extensionOffset+size)
      match header with
      | none => return (size,entries)
      | some (id,length) =>
          if size + headerLength + length.toNat > capacity then return (size,entries)
          else
            let offset := extensionOffset + size + headerLength
            loadExtensions profile extensionOffset capacity (size + headerLength + length.toNat)
              (setExtensionInfo entries ⟨id,length,BitVec.ofNat 16 offset,headerLength⟩)
  else return (size,entries)
termination_by capacity - size
decreasing_by
  · omega
  · have : 0 < extensionHeaderLength profile := by
      unfold extensionHeaderLength
      split <;> decide
    omega

/-- The extension header behind the fixed header and the contributing sources. -/
def loadExtensionBlock (payloadOffset : ℕ) : Parser (ℕ × ℕ × List ExtensionInfo) := do
  let size ← Parser.size
  let extensionOffset := payloadOffset + 4
  Parser.guard (extensionOffset ≤ size)
  let profile ← Parser.load payloadOffset 2
  let capacity ← Parser.load (payloadOffset+2) 2
  let profile := loadUInt16BE profile
  let capacity := (loadUInt16BE capacity).toNat*4
  Parser.guard (extensionOffset + capacity ≤ size)
  if supportedProfile profile then
    let r ← loadExtensions profile extensionOffset capacity 0 []
    return (extensionOffset+capacity,r)
  else return (extensionOffset+capacity,0,[])

def loadExtensionPart (first : Byte) (payloadOffset : ℕ) : Parser (ℕ × ℕ × List ExtensionInfo) :=
  if first &&& 0x10 = 0 then return (payloadOffset,0,[])
  else loadExtensionBlock payloadOffset

/-- The padding size, in the last byte of the buffer. -/
def loadPadding (first : Byte) : Parser Byte :=
  if first &&& 0x20 = 0 then return 0
  else do
    let size ← Parser.size
    let paddingSize ← Parser.byte (size-1)
    Parser.guard (paddingSize ≠ 0)
    return paddingSize

namespace RtpPacket

/-- `Parse`. The bytes themselves are `Create`'s to keep. -/
def parse : Parser RtpPacket := do
  let size ← Parser.size
  Parser.guard (kMinRtpPacketLen ≤ size)
  let first ← Parser.byte 0
  Parser.guard (first >>> 6 = kRtpVersion)
  let second ← Parser.byte 1
  let sequenceNumber ← Parser.load 2 2
  let timestamp ← Parser.load 4 4
  let ssrc ← Parser.load 8 4
  let fixed := kMinRtpPacketLen + (first &&& 0x0f).toNat*4
  Parser.guard (fixed ≤ size)
  let paddingSize ← loadPadding first
  let extension ← loadExtensionPart first fixed
  Parser.guard (extension.1 + paddingSize.toNat ≤ size)
  return {
    marker := second &&& 0x80 != 0
    payloadType := second &&& 0x7f
    paddingSize := paddingSize
    sequenceNumber := loadUInt16BE sequenceNumber
    timestamp := loadUInt32BE timestamp
    ssrc := loadUInt32BE ssrc
    payloadOffset := extension.1
    payloadSize := size - extension.1 - paddingSize.toNat
    extensionEntries := extension.2.2
    extensionsSize := extension.2.1
    data := [] }

end RtpPacket

/-! ### `Parse` reads inside the buffer and finds what `Create` finds -/

section Reads
variable {b : Region} {buffer : List Byte}

theorem load16_of_shows (hb : b.Shows buffer) {k : ℕ} (h : k+2 ≤ buffer.length) :
    loadUInt16BE (fun i => b.bytes (k+i)) = load16 buffer k := by
  simp only [load16,loadUInt16BE]
  rw [hb.bytes _ (by omega),hb.bytes _ (by omega)]

theorem load32_of_shows (hb : b.Shows buffer) {k : ℕ} (h : k+4 ≤ buffer.length) :
    loadUInt32BE (fun i => b.bytes (k+i)) = load32 buffer k := by
  simp only [load32,loadUInt32BE]
  rw [hb.bytes _ (by omega),hb.bytes _ (by omega),hb.bytes _ (by omega),hb.bytes _ (by omega)]

theorem gives_byte_of_shows (hb : b.Shows buffer) {k : ℕ} (h : k < buffer.length) :
    (Parser.byte k).Gives b 0 buffer.length (some (buffer.getD k 0)) := by
  rw [← hb.bytes k h]
  exact Parser.gives_byte (Nat.zero_le k) h

theorem extensionHeaderLength_pos (profile : BitVec 16) : 0 < extensionHeaderLength profile := by
  unfold extensionHeaderLength
  split <;> decide

theorem loadExtensionHeader_gives (hb : b.Shows buffer) {profile : BitVec 16} {k : ℕ}
    (h : k + extensionHeaderLength profile ≤ buffer.length) :
    (loadExtensionHeader profile (buffer.getD k 0) k).Gives b 0 buffer.length
      (some (extensionHeader profile buffer k)) := by
  unfold loadExtensionHeader extensionHeader
  unfold extensionHeaderLength at h
  by_cases hone : profile = kOneByteExtensionProfileId
  · simp only [if_pos hone]
    exact Parser.gives_pure _
  · simp only [if_neg hone]
    rw [if_neg hone] at h
    exact (gives_byte_of_shows hb h).then (Parser.gives_pure _)

/-- Any number of rounds that is large enough gives what the loop gives. -/
theorem loadExtensions_gives (hb : b.Shows buffer) {profile : BitVec 16}
    {extensionOffset capacity : ℕ} (hfits : extensionOffset + capacity ≤ buffer.length)
    {n size : ℕ} (entries : List ExtensionInfo) (hn : capacity - size ≤ n) :
    (loadExtensions profile extensionOffset capacity size entries).Gives b 0 buffer.length
      (some (parseExtensions profile buffer extensionOffset capacity n size entries)) := by
  have hpos := extensionHeaderLength_pos profile
  induction n generalizing size entries with
  | zero =>
      rw [loadExtensions,dif_neg (by omega)]
      exact Parser.gives_pure _
  | succ n ih =>
      rw [loadExtensions,parseExtensions]
      by_cases hroom : size + extensionHeaderLength profile < capacity
      · simp only [dif_pos hroom,if_pos hroom]
        apply (gives_byte_of_shows hb (by omega)).then
        by_cases hzero : buffer.getD (extensionOffset+size) 0 = 0
        · simp only [if_pos hzero]
          exact ih entries (by omega)
        · simp only [if_neg hzero]
          apply (loadExtensionHeader_gives hb (by omega)).then
          cases extensionHeader profile buffer (extensionOffset+size) with
          | none => exact Parser.gives_pure _
          | some header =>
              simp only
              by_cases hlong : size + extensionHeaderLength profile + header.2.toNat > capacity
              · simp only [if_pos hlong]
                exact Parser.gives_pure _
              · simp only [if_neg hlong]
                exact ih _ (by omega)
      · simp only [dif_neg hroom,if_neg hroom]
        exact Parser.gives_pure _

theorem loadExtensionBlock_gives (hb : b.Shows buffer) (payloadOffset : ℕ) :
    (loadExtensionBlock payloadOffset).Gives b 0 buffer.length
      (parseExtensionHeader buffer payloadOffset) := by
  unfold loadExtensionBlock
  simp only [parseExtensionHeader]
  apply Parser.gives_size.then
  rw [hb.size]
  by_cases hheader : payloadOffset + 4 ≤ buffer.length
  · rw [if_neg (not_lt.mpr hheader)]
    apply (Parser.gives_guard_of hheader).then
    apply (Parser.gives_load (Nat.zero_le _) (by omega)).then
    apply (Parser.gives_load (Nat.zero_le _) (by omega)).then
    rw [load16_of_shows hb (by omega),load16_of_shows hb (by omega)]
    by_cases hfits : payloadOffset + 4 + (load16 buffer (payloadOffset+2)).toNat*4 ≤ buffer.length
    · rw [if_neg (not_lt.mpr hfits)]
      apply (Parser.gives_guard_of hfits).then
      split
      · exact (loadExtensions_gives hb hfits [] (Nat.sub_le _ _)).then (Parser.gives_pure _)
      · exact Parser.gives_pure _
    · rw [if_pos (not_le.mp hfits)]
      exact (Parser.gives_guard_not hfits).failed
  · rw [if_pos (not_le.mp hheader)]
    exact (Parser.gives_guard_not hheader).failed

theorem loadExtensionPart_gives (hb : b.Shows buffer) :
    (loadExtensionPart (buffer.getD 0 0) (fixedHeaderSize buffer)).Gives b 0 buffer.length
      (parseExtensionPart buffer) := by
  unfold loadExtensionPart parseExtensionPart
  split
  · exact Parser.gives_pure _
  · exact loadExtensionBlock_gives hb _

theorem loadPadding_gives (hb : b.Shows buffer) (hpos : 0 < buffer.length) :
    (loadPadding (buffer.getD 0 0)).Gives b 0 buffer.length (parsePadding buffer) := by
  unfold loadPadding parsePadding
  split
  · exact Parser.gives_pure _
  · apply Parser.gives_size.then
    rw [hb.size]
    apply (gives_byte_of_shows hb (by omega)).then
    by_cases hzero : buffer.getD (buffer.length-1) 0 = 0
    · rw [if_pos hzero]
      exact (Parser.gives_guard_not (not_not.mpr hzero)).failed
    · rw [if_neg hzero]
      exact (Parser.gives_guard_of hzero).then (Parser.gives_pure _)

namespace RtpPacket

/-- `Create` is `Parse` and a copy of the bytes. -/
theorem parse_gives (hb : b.Shows buffer) :
    parse.Gives b 0 buffer.length ((create buffer).map fun p => { p with data := [] }) := by
  unfold parse create
  apply Parser.gives_size.then
  rw [hb.size]
  by_cases hlength : kMinRtpPacketLen ≤ buffer.length
  · rw [if_neg (not_lt.mpr hlength)]
    have htwelve : 12 ≤ buffer.length := hlength
    apply (Parser.gives_guard_of hlength).then
    apply (gives_byte_of_shows hb (by omega)).then
    by_cases hversion : buffer.getD 0 0 >>> 6 = kRtpVersion
    · rw [if_neg (not_not.mpr hversion)]
      apply (Parser.gives_guard_of hversion).then
      apply (gives_byte_of_shows hb (by omega)).then
      apply (Parser.gives_load (Nat.zero_le _) (by omega)).then
      apply (Parser.gives_load (Nat.zero_le _) (by omega)).then
      apply (Parser.gives_load (Nat.zero_le _) (by omega)).then
      rw [load16_of_shows hb (by omega),load32_of_shows hb (by omega),
        load32_of_shows hb (by omega)]
      change Parser.Gives (Parser.guard (fixedHeaderSize buffer ≤ buffer.length) >>= _) _ _ _ _
      by_cases hfixed : fixedHeaderSize buffer ≤ buffer.length
      · rw [if_neg (not_lt.mpr hfixed)]
        apply (Parser.gives_guard_of hfixed).then
        have hpadding := loadPadding_gives hb (by omega)
        have hextension := loadExtensionPart_gives hb
        cases hp : parsePadding buffer with
        | none =>
            rw [hp] at hpadding
            exact hpadding.failed
        | some paddingSize =>
            rw [hp] at hpadding
            apply hpadding.then
            cases he : parseExtensionPart buffer with
            | none =>
                rw [he] at hextension
                exact hextension.failed
            | some extension =>
                rw [he] at hextension
                apply hextension.then
                by_cases hroom : extension.1 + paddingSize.toNat ≤ buffer.length
                · simp only [if_neg (not_lt.mpr hroom),Option.map_some]
                  exact (Parser.gives_guard_of hroom).then (Parser.gives_pure _)
                · simp only [if_pos (not_le.mp hroom),Option.map_none]
                  exact (Parser.gives_guard_not hroom).failed
      · rw [if_pos (not_le.mp hfixed)]
        exact (Parser.gives_guard_not hfixed).failed
    · rw [if_pos hversion]
      exact (Parser.gives_guard_not hversion).failed
  · rw [if_pos (not_le.mp hlength)]
    exact (Parser.gives_guard_not hlength).failed

end RtpPacket
end Reads

/-! ### What `Create` accepts -/

/-- `GetRtpHeaderLength` of `rtp_utils.cpp`, which finds the payload by the lengths alone. -/
def getRtpHeaderLength (rtp : List Byte) : Option ℕ :=
  if rtp.length < kMinRtpPacketLen then none
  else
    let ccCount := (rtp.getD 0 0 &&& 0x0f).toNat
    let headerLengthWithoutExtension := kMinRtpPacketLen + 4*ccCount
    if headerLengthWithoutExtension > rtp.length then none
    else if rtp.getD 0 0 &&& 0x10 = 0 then some headerLengthWithoutExtension
    else if headerLengthWithoutExtension + kRtpExtensionHeaderLen > rtp.length then none
    else
      let extensionLength := (load16 rtp (headerLengthWithoutExtension+2)).toNat*4
      let rtpHeaderLength := extensionLength + headerLengthWithoutExtension + kRtpExtensionHeaderLen
      if rtpHeaderLength > rtp.length then none else some rtpHeaderLength

/-- The checks that an accepted buffer passes, and every field of its packet. -/
structure ParsedAs (buffer : List Byte) (p : RtpPacket) : Prop where
  length : kMinRtpPacketLen ≤ buffer.length
  version : buffer.getD 0 0 >>> 6 = kRtpVersion
  fixed : fixedHeaderSize buffer ≤ buffer.length
  padding : parsePadding buffer = some p.paddingSize
  extension : parseExtensionPart buffer =
    some (p.payloadOffset,p.extensionsSize,p.extensionEntries)
  room : p.payloadOffset + p.paddingSize.toNat ≤ buffer.length
  marker : p.marker = (buffer.getD 1 0 &&& 0x80 != 0)
  payloadType : p.payloadType = buffer.getD 1 0 &&& 0x7f
  sequenceNumber : p.sequenceNumber = load16 buffer 2
  timestamp : p.timestamp = load32 buffer 4
  ssrc : p.ssrc = load32 buffer 8
  payloadSize : p.payloadSize = buffer.length - p.payloadOffset - p.paddingSize.toNat
  data : p.data = buffer
  payloadInfo : p.payloadInfo = {}
  extensionCapability : p.extensionCapability = {}

theorem parsedAs_of_create {buffer behind : List Byte} {p : RtpPacket}
    (h : RtpPacket.create buffer behind = some p) : ParsedAs buffer p := by
  unfold RtpPacket.create at h
  split at h
  · simp at h
  split at h
  · simp at h
  split at h
  · simp at h
  rename_i hlength hversion hfixed
  split at h
  · rename_i hpadding hextension
    split at h
    · simp at h
    · rename_i hroom
      rw [← Option.some.inj h]
      exact ⟨not_lt.mp hlength,not_not.mp hversion,not_lt.mp hfixed,hpadding,hextension,
        not_lt.mp hroom,rfl,rfl,rfl,rfl,rfl,rfl,rfl,rfl,rfl⟩
  · simp at h

theorem ParsedAs.create {buffer : List Byte} {p : RtpPacket} (h : ParsedAs buffer p) :
    RtpPacket.create buffer p.behind = some p := by
  unfold RtpPacket.create
  rw [if_neg (not_lt.mpr h.length),if_neg (not_not.mpr h.version),if_neg (not_lt.mpr h.fixed),
    h.padding,h.extension]
  simp only
  rw [if_neg (not_lt.mpr h.room),← h.marker,← h.payloadType,← h.sequenceNumber,← h.timestamp,
    ← h.ssrc,← h.payloadSize,← h.data,← h.payloadInfo,← h.extensionCapability]

/-- A packet lies where its memory was asked for. -/
theorem RtpPacket.behind_of_create {buffer behind : List Byte} {p : RtpPacket}
    (h : RtpPacket.create buffer behind = some p) : p.behind = behind := by
  unfold RtpPacket.create at h
  split at h
  · simp at h
  split at h
  · simp at h
  split at h
  · simp at h
  split at h
  · split at h
    · simp at h
    · exact congrArg RtpPacket.behind (Option.some.inj h).symm
  · simp at h

/-- The same bytes are the same packet elsewhere in memory. -/
theorem RtpPacket.create_moved {buffer behind : List Byte} {p : RtpPacket}
    (h : RtpPacket.create buffer behind = some p) (behind' : List Byte) :
    RtpPacket.create buffer behind' = some { p with behind := behind' } := by
  have hp := parsedAs_of_create h
  have hmoved : ParsedAs buffer { p with behind := behind' } :=
    ⟨hp.length,hp.version,hp.fixed,hp.padding,hp.extension,hp.room,hp.marker,hp.payloadType,
      hp.sequenceNumber,hp.timestamp,hp.ssrc,hp.payloadSize,hp.data,hp.payloadInfo,
      hp.extensionCapability⟩
  exact hmoved.create

/-- The payload starts behind the block, which is inside the buffer. -/
theorem parseExtensionHeader_eq_some {buffer : List Byte} {k payloadOffset : ℕ}
    {r : ℕ × List ExtensionInfo} :
    parseExtensionHeader buffer k = some (payloadOffset,r) ↔
      k + 4 + (load16 buffer (k+2)).toNat*4 = payloadOffset ∧ payloadOffset ≤ buffer.length ∧
        (if supportedProfile (load16 buffer k) then
          parseExtensions (load16 buffer k) buffer (k+4) ((load16 buffer (k+2)).toNat*4)
            ((load16 buffer (k+2)).toNat*4) 0 []
        else (0,[])) = r := by
  simp only [parseExtensionHeader]
  constructor
  · intro h
    split at h
    · simp at h
    split at h
    · simp at h
    rename_i hfits
    split at h
    · rename_i hprofile
      rw [Option.some.injEq,Prod.mk.injEq] at h
      rw [if_pos hprofile]
      exact ⟨h.1,by omega,h.2⟩
    · rename_i hprofile
      rw [Option.some.injEq,Prod.mk.injEq] at h
      rw [if_neg hprofile]
      exact ⟨h.1,by omega,h.2⟩
  · intro h
    rw [if_neg (by omega),if_neg (by omega),h.1,← h.2.2]
    split
    · rfl
    · rfl

theorem fixedHeaderSize_le {buffer : List Byte} {r : ℕ × ℕ × List ExtensionInfo}
    (h : parseExtensionPart buffer = some r) : fixedHeaderSize buffer ≤ r.1 := by
  unfold parseExtensionPart at h
  split at h
  · rw [← Option.some.inj h]
  · have hoffset := (parseExtensionHeader_eq_some.mp h).1
    omega

theorem parsePadding_zero {buffer : List Byte} :
    parsePadding buffer = some 0 ↔ buffer.getD 0 0 &&& 0x20 = 0 := by
  rw [parsePadding]
  split
  · rename_i hclear
    exact iff_of_true rfl hclear
  · rename_i hset
    refine iff_of_false ?_ hset
    split
    · simp
    · rename_i hlast
      rwa [Option.some.injEq]

/-! ### The layout of the extensions -/

namespace ExtensionInfo

/-- First byte of the element, which is the first of its header. -/
def start (e : ExtensionInfo) : ℤ := e.offset.toNat - e.headerLength

/-- The byte behind the element. -/
def stop (e : ExtensionInfo) : ℤ := e.offset.toNat + e.length.toNat

/-- No byte belongs to both elements. -/
def Disjoint (e e' : ExtensionInfo) : Prop := e.stop ≤ e'.start ∨ e'.stop ≤ e.start

theorem Disjoint.symm {e e' : ExtensionInfo} (h : e.Disjoint e') : e'.Disjoint e := Or.symm h

end ExtensionInfo

/-- Different ids, and different bytes. -/
def Apart (e e' : ExtensionInfo) : Prop := e.id ≠ e'.id ∧ e.Disjoint e'

/-- Entries found in the first `size` bytes of the block at `lo`. -/
structure Placed (lo size : ℕ) (entries : List ExtensionInfo) : Prop where
  apart : entries.Pairwise Apart
  ids : ∀ e ∈ entries, e.id ≠ 0
  inside : ∀ e ∈ entries, (lo : ℤ) ≤ e.start ∧ e.stop ≤ lo + size

/-- A new entry, or a new place for the entry that has its id. -/
theorem pairwise_setExtensionInfo {entries : List ExtensionInfo} {info : ExtensionInfo}
    (h : entries.Pairwise Apart) (hinfo : ∀ e ∈ entries, e.Disjoint info) :
    (setExtensionInfo entries info).Pairwise Apart := by
  induction entries with
  | nil => exact List.pairwise_singleton _ _
  | cons first rest ih =>
      rw [List.pairwise_cons] at h
      have hrest : ∀ e ∈ rest, e.Disjoint info :=
        fun e he => hinfo e (List.mem_cons_of_mem _ he)
      rw [setExtensionInfo]
      split
      · rename_i hid
        rw [List.pairwise_cons]
        constructor
        · intro e he
          exact ⟨hid ▸ (h.1 e he).1,(hrest e he).symm⟩
        · exact h.2
      · rename_i hid
        rw [List.pairwise_cons]
        constructor
        · intro e he
          cases mem_setExtensionInfo he with
          | inl hnew => exact hnew ▸ ⟨hid,hinfo first List.mem_cons_self⟩
          | inr hold => exact h.1 e hold
        · exact ih h.2 hrest

theorem Placed.mono {lo size size' : ℕ} {entries : List ExtensionInfo}
    (h : Placed lo size entries) (hle : size ≤ size') : Placed lo size' entries := by
  constructor
  · exact h.apart
  · exact h.ids
  · intro e he
    have := h.inside e he
    omega

theorem Placed.set {lo size size' : ℕ} {entries : List ExtensionInfo} {info : ExtensionInfo}
    (h : Placed lo size entries) (hid : info.id ≠ 0) (hstart : (lo : ℤ) + size ≤ info.start)
    (hstop : info.stop ≤ lo + size') (hle : size ≤ size') :
    Placed lo size' (setExtensionInfo entries info) := by
  constructor
  · apply pairwise_setExtensionInfo h.apart
    intro e he
    exact Or.inl (Int.le_trans (h.inside e he).2 hstart)
  · intro e he
    cases mem_setExtensionInfo he with
    | inl hnew => exact hnew ▸ hid
    | inr hold => exact h.ids e hold
  · intro e he
    cases mem_setExtensionInfo he with
    | inl hnew =>
        rw [hnew]
        omega
    | inr hold =>
        have := h.inside e hold
        omega

/-- An element whose header is accepted has an id: padding and the reserved zero are not. -/
theorem extensionHeader_id_ne {profile : BitVec 16} {buffer : List Byte} {k : ℕ}
    {header : Byte × Byte} (hfirst : buffer.getD k 0 ≠ 0)
    (h : extensionHeader profile buffer k = some header) : header.1 ≠ 0 := by
  unfold extensionHeader at h
  generalize buffer.getD k 0 = first at h hfirst
  simp only at h
  split at h
  · split at h
    · simp at h
    · rename_i hid
      rw [← Option.some.inj h]
      simp only [Bool.or_eq_true,Bool.and_eq_true,decide_eq_true_eq,bne_iff_ne,not_or,not_and,
        not_not] at hid
      intro hzero
      have hlength := hid.2 hzero
      revert hfirst hzero hlength
      clear hid h
      revert first
      decide
  · rw [← Option.some.inj h]
    exact hfirst

/-- The loop keeps the entries apart and inside what it has passed over. -/
theorem parseExtensions_placed (profile : BitVec 16) (buffer : List Byte)
    {extensionOffset capacity : ℕ} (hfits : extensionOffset + capacity < 65536) (n : ℕ) {size : ℕ}
    {entries : List ExtensionInfo} (h : Placed extensionOffset size entries)
    (hsize : size ≤ capacity) :
    Placed extensionOffset capacity
      (parseExtensions profile buffer extensionOffset capacity n size entries).2 := by
  induction n generalizing size entries with
  | zero => exact h.mono hsize
  | succ n ih =>
      rw [parseExtensions]
      split
      · rename_i hroom
        split
        · exact ih (h.mono (Nat.le_succ size)) (by omega)
        · rename_i hfirst
          split
          · exact h.mono hsize
          · rename_i id length hheader
            split
            · exact h.mono hsize
            · rename_i hlong
              apply ih _ (by omega)
              apply h.set (extensionHeader_id_ne hfirst hheader)
              · simp only [ExtensionInfo.start,BitVec.toNat_ofNat]
                omega
              · simp only [ExtensionInfo.stop,BitVec.toNat_ofNat]
                omega
              · omega
      · exact h.mono hsize

/-- The loop reads no byte outside its block. -/
theorem parseExtensions_congr {profile : BitVec 16} {buffer buffer' : List Byte}
    {extensionOffset capacity : ℕ} (hbytes : ∀ i, extensionOffset ≤ i →
      i < extensionOffset + capacity → buffer'.getD i 0 = buffer.getD i 0) (n size : ℕ)
    (entries : List ExtensionInfo) :
    parseExtensions profile buffer' extensionOffset capacity n size entries =
      parseExtensions profile buffer extensionOffset capacity n size entries := by
  induction n generalizing size entries with
  | zero => rfl
  | succ n ih =>
      rw [parseExtensions,parseExtensions]
      by_cases hroom : size + extensionHeaderLength profile < capacity
      · have hpos := extensionHeaderLength_pos profile
        have hheader : extensionHeader profile buffer' (extensionOffset+size) =
            extensionHeader profile buffer (extensionOffset+size) := by
          unfold extensionHeader
          rw [hbytes _ (by omega) (by omega)]
          by_cases hone : profile = kOneByteExtensionProfileId
          · simp only [if_pos hone]
          · rw [extensionHeaderLength,if_neg hone] at hroom
            have htwo : kTwoByteExtensionHeaderLength = 2 := rfl
            simp only [if_neg hone]
            rw [hbytes _ (by omega) (by omega)]
        simp only [if_pos hroom]
        rw [hbytes _ (by omega) (by omega),hheader]
        split
        · exact ih _ _
        · cases extensionHeader profile buffer (extensionOffset+size) with
          | none => rfl
          | some header =>
              simp only
              split
              · rfl
              · exact ih _ _
      · simp only [if_neg hroom]

/-- Extensions and payload offset depend on the first byte, and on the bytes between the
fixed header and the payload. -/
theorem parseExtensionPart_eq {buffer buffer' : List Byte} {payloadOffset : ℕ}
    {r : ℕ × List ExtensionInfo} (hfirst : buffer'.getD 0 0 = buffer.getD 0 0)
    (hbytes : ∀ i, 12 ≤ i → i < payloadOffset → buffer'.getD i 0 = buffer.getD i 0)
    (hlength : payloadOffset ≤ buffer'.length)
    (h : parseExtensionPart buffer = some (payloadOffset,r)) :
    parseExtensionPart buffer' = some (payloadOffset,r) := by
  have hfixed : fixedHeaderSize buffer' = fixedHeaderSize buffer := by
    rw [fixedHeaderSize,hfirst]
    rfl
  have htwelve : 12 ≤ fixedHeaderSize buffer := Nat.le_add_right _ _
  unfold parseExtensionPart at h ⊢
  rw [hfirst,hfixed]
  split at h
  · rename_i hbit
    rw [if_pos hbit]
    exact h
  · rename_i hbit
    rw [if_neg hbit]
    rw [parseExtensionHeader_eq_some] at h ⊢
    have hload : ∀ k, 12 ≤ k → k+2 ≤ payloadOffset → load16 buffer' k = load16 buffer k := by
      intro k hlow hhigh
      rw [load16,load16,loadUInt16BE,loadUInt16BE,hbytes _ (by omega) (by omega),
        hbytes _ (by omega) (by omega)]
    rw [hload _ (by omega) (by omega),hload _ (by omega) (by omega),
      parseExtensions_congr fun i hlow hhigh => hbytes i (by omega) (by omega)]
    exact ⟨h.1,hlength,h.2.2⟩

/-- The payload starts where the extension block ends. -/
theorem parseExtensionPart_placed {buffer : List Byte} {payloadOffset size : ℕ}
    {entries : List ExtensionInfo} (hlength : buffer.length < 65536)
    (h : parseExtensionPart buffer = some (payloadOffset,size,entries)) :
    ∃ capacity, Placed (fixedHeaderSize buffer+4) capacity entries ∧
      (entries = [] ∨ payloadOffset = fixedHeaderSize buffer + 4 + capacity) := by
  have hnone (lo size : ℕ) : Placed lo size [] :=
    ⟨List.Pairwise.nil,fun e he => absurd he List.not_mem_nil,
      fun e he => absurd he List.not_mem_nil⟩
  unfold parseExtensionPart at h
  split at h
  · rw [Option.some.injEq,Prod.mk.injEq,Prod.mk.injEq] at h
    exact ⟨0,h.2.2 ▸ hnone _ 0,Or.inl h.2.2.symm⟩
  · rw [parseExtensionHeader_eq_some] at h
    have hentries := h.2.2
    split at hentries
    · have hfits : fixedHeaderSize buffer + 4 +
          (load16 buffer (fixedHeaderSize buffer+2)).toNat*4 < 65536 := by omega
      have hplaced := parseExtensions_placed (load16 buffer (fixedHeaderSize buffer)) buffer hfits
        ((load16 buffer (fixedHeaderSize buffer+2)).toNat*4) (hnone _ 0) (Nat.zero_le _)
      rw [hentries] at hplaced
      exact ⟨_,hplaced,Or.inr h.1.symm⟩
    · rw [Prod.mk.injEq] at hentries
      exact ⟨0,hentries.2 ▸ hnone _ 0,Or.inl hentries.2.symm⟩

/-- The lengths alone lead to the same payload. -/
theorem getRtpHeaderLength_of_parsedAs {buffer : List Byte} {p : RtpPacket}
    (h : ParsedAs buffer p) : getRtpHeaderLength buffer = some p.payloadOffset := by
  have hfixed : kMinRtpPacketLen + 4*(buffer.getD 0 0 &&& 0x0f).toNat = fixedHeaderSize buffer := by
    rw [fixedHeaderSize,Nat.mul_comm]
  have hpart := h.extension
  unfold getRtpHeaderLength
  simp only [hfixed]
  rw [if_neg (not_lt.mpr h.length),if_neg (not_lt.mpr h.fixed)]
  unfold parseExtensionPart at hpart
  split at hpart
  · rename_i hbit
    rw [if_pos hbit]
    exact congrArg (fun r => r.map Prod.fst) hpart
  · rename_i hbit
    rw [if_neg hbit]
    rw [parseExtensionHeader_eq_some] at hpart
    have hfour : kRtpExtensionHeaderLen = 4 := rfl
    rw [if_neg (by omega),if_neg (by omega),Option.some.injEq]
    omega

/-- What later code takes for granted about the offsets of a packet. -/
structure RtpPacket.LaidOut (buffer : List Byte) (p : RtpPacket) : Prop where
  size : p.payloadOffset + p.payloadSize + p.paddingSize.toNat = buffer.length
  header : getRtpHeaderLength buffer = some p.payloadOffset
  distinct : p.extensionEntries.Pairwise fun e e' => e.id ≠ e'.id
  nonzero : ∀ e ∈ p.extensionEntries, e.id ≠ 0
  disjoint : p.extensionEntries.Pairwise ExtensionInfo.Disjoint
  inside : ∀ e ∈ p.extensionEntries,
    (fixedHeaderSize buffer + 4 : ℤ) ≤ e.start ∧ e.stop ≤ p.payloadOffset

theorem ParsedAs.layout {buffer : List Byte} {p : RtpPacket} (h : ParsedAs buffer p)
    (hlength : buffer.length < 65536) : p.LaidOut buffer := by
  cases parseExtensionPart_placed hlength h.extension with
  | intro capacity hplaced =>
      constructor
      · rw [h.payloadSize]
        have := h.room
        omega
      · exact getRtpHeaderLength_of_parsedAs h
      · exact hplaced.1.apart.imp And.left
      · exact hplaced.1.ids
      · exact hplaced.1.apart.imp And.right
      · intro e he
        cases hplaced.2 with
        | inl hnone =>
            rw [hnone] at he
            exact absurd he List.not_mem_nil
        | inr hoffset =>
            have := hplaced.1.inside e he
            omega

/-- For every datagram: `Parse` stays inside it, and what it accepts has the layout. -/
theorem parse_layout (buffer : List Byte) (behind : ℕ → Byte) (hlength : buffer.length ≤ 65535) :
    let r := RtpPacket.parse.run (Region.ofList buffer behind (by omega)) ⟨0,[]⟩
    r.2.Within 0 buffer.length ∧ ∀ p, r.1 = some p → p.LaidOut buffer := by
  have hrun := (RtpPacket.parse_gives (Region.ofList_shows buffer behind (by omega))).run 0
  refine ⟨hrun.2,fun p hp => ?_⟩
  rw [hrun.1,Option.map_eq_some_iff] at hp
  cases hp with
  | intro q hq =>
      have hlayout := (parsedAs_of_create hq.1).layout (by omega)
      rw [← hq.2]
      exact ⟨hlayout.size,hlayout.header,hlayout.distinct,hlayout.nonzero,hlayout.disjoint,
        hlayout.inside⟩

/-- Two elements of one id, of which the second counts, another element and two bytes of
padding. -/
def twiceNumbered : List Byte :=
  [0xb0,96,0,1,0,0,0,2,0,0,0,3,0xbe,0xde,0,2,0x10,7,0x10,8,0x31,9,9,0,1,2,0,2]

theorem parse_layout_twiceNumbered : ∃ p : RtpPacket,
    (RtpPacket.parse.run (Region.ofList twiceNumbered (fun _ => 0) (by decide)) ⟨0,[]⟩).1 =
        some p ∧ p.payloadOffset = 24 ∧
      p.extensionEntries = [⟨1,1,19,1⟩,⟨3,2,21,1⟩] ∧ p.LaidOut twiceNumbered := by
  have hshows := Region.ofList_shows twiceNumbered (fun _ => 0) (by decide)
  have hrun := ((RtpPacket.parse_gives hshows).run 0).1
  cases hcreate : RtpPacket.create twiceNumbered with
  | none => exact absurd hcreate (by decide)
  | some p =>
      rw [hcreate] at hrun
      have hfields : (RtpPacket.create twiceNumbered).map (fun p =>
        (p.payloadOffset,p.extensionEntries)) = some (24,[⟨1,1,19,1⟩,⟨3,2,21,1⟩]) := by decide
      rw [hcreate,Option.map_some,Option.some.injEq,Prod.mk.injEq] at hfields
      exact ⟨{ p with data := [] },hrun,hfields.1,hfields.2,
        (parse_layout twiceNumbered (fun _ => 0) (by decide)).2 _ hrun⟩

end Ylrtc.Packet
