import Ylrtc.Base.ByteBuffer

/-!
# STUN messages

`StunMessage` of `ice/stun_message.cpp` and `Crc32` of `base/crc32.cpp`. The
values of the attributes are read through a raw pointer before their length is
checked. HMAC-SHA1 is a library function, so it is a parameter.
-/
namespace Ylrtc.Stun
open ByteBuffer CursorParser

abbrev kStunMagicCookie : BitVec 32 := 0x2112A442
abbrev kStunHeaderSize : ℕ := 20
abbrev kStunAttributeHeaderSize : ℕ := 4
abbrev kStunTransactionIdLength : ℕ := 12
abbrev kLengthOffset : ℕ := 2
abbrev kFingerprintAttrLength : ℕ := 4
abbrev kXorMappedAddressAttributeLength : ℕ := 8
abbrev kMessageIntegrityAttributeLength : ℕ := 20
abbrev kBindingRrequst : BitVec 16 := 0x0001
abbrev kBindingResponse : BitVec 16 := 0x0101
abbrev kAttrUsername : BitVec 16 := 0x0006
abbrev kAttrMessageIntegrity : BitVec 16 := 0x0008
abbrev kAttrXorMappedAddress : BitVec 16 := 0x0020
abbrev kAttrUseCandidate : BitVec 16 := 0x0025
abbrev kAttrFingerprint : BitVec 16 := 0x8028

/-- The mask that a fingerprint is combined with. -/
abbrev kFingerprintMask : BitVec 32 := 0x5354554e

/-- A key, a message and the tag of twenty bytes. -/
abbrev Hmac := List Byte → List Byte → Vector Byte 20

inductive UdpEndpoint where
  | v4 (address : BitVec 32) (port : BitVec 16)
  | v6 (address : BitVec 128) (scope : BitVec 32) (port : BitVec 16)
  deriving DecidableEq, Repr

namespace Crc32

abbrev kCrc32Polynomial : BitVec 32 := 0xEDB88320

def tableRound (c : BitVec 32) : BitVec 32 :=
  if c.getLsbD 0 then kCrc32Polynomial ^^^ (c >>> 1) else c >>> 1

/-- The entry of `crc32Table_` at an index. -/
def table (i : BitVec 32) : BitVec 32 := (List.range 8).foldl (fun c _ => tableRound c) i

def calculate (data : List Byte) : BitVec 32 :=
  data.foldl (fun c d => table ((c ^^^ d.setWidth 32) &&& 0xFF) ^^^ (c >>> 8)) 0xFFFFFFFF
    ^^^ 0xFFFFFFFF

end Crc32

structure StunMessage where
  localUfrag : List Byte
  localPassword : List Byte
  remoteUfrag : List Byte
  transactionId : List Byte := []
  hasUseCandidate : Bool := false
  deriving DecidableEq, Repr

/-- The username of a request: `:` between the fragments. -/
def StunMessage.userName (msg : StunMessage) : List Byte :=
  msg.localUfrag++[0x3A]++msg.remoteUfrag

/-- The `n` bytes from a pointer on. -/
def bytesAt (data : ℕ → Byte) (n : ℕ) : List Byte := (List.range n).map data

/-- What the attributes read so far have set: the member and the three locals of
`Parse`. `messageIntegrity` is the offset of the attribute's header. -/
structure Seen where
  useCandidate : Bool := false
  messageIntegrity : Option ℕ := none
  fingerprint : Bool := false
  deriving DecidableEq, Repr

/-- The cases of the `switch`. -/
def parseValue (msg : StunMessage) (attrType attrLength : BitVec 16) (seen : Seen) :
    Parser Seen := do
  let current ← Parser.position
  if attrType = kAttrUsername then
    let userName ← Parser.load current attrLength.toNat
    Parser.guard (bytesAt userName attrLength.toNat = msg.userName)
    return seen
  else if attrType = kAttrMessageIntegrity then
    return { seen with messageIntegrity := some (current-kStunAttributeHeaderSize) }
  else if attrType = kAttrFingerprint then
    let announced ← Parser.load current 4
    let covered ← Parser.load 0 (current-kStunAttributeHeaderSize)
    let computed := Crc32.calculate (bytesAt covered (current-kStunAttributeHeaderSize))
      ^^^ kFingerprintMask
    Parser.guard (loadUInt32BE announced = computed)
    return { seen with fingerprint := true }
  else if attrType = kAttrUseCandidate then
    return { seen with useCandidate := true }
  else return seen

/-- `attr_length` after the padding: a `uint16_t`, so the last three lengths wrap. -/
def paddedLength (attrLength : BitVec 16) : BitVec 16 :=
  if attrLength.toNat%4 ≠ 0 then attrLength+(4-BitVec.ofNat 16 (attrLength.toNat%4)) else attrLength

/-- The loop over the attributes. Each round reads four bytes or fails. -/
def parseAttributes (msg : StunMessage) : ℕ → Seen → Parser Seen
  | 0,_ => Parser.fail
  | fuel+1,seen => do
      let left ← Parser.left
      if 0 < left then
        let attrType ← readUInt16
        let attrLength ← readUInt16
        let seen ← parseValue msg attrType attrLength seen
        Parser.skip (paddedLength attrLength).toNat
        parseAttributes msg fuel seen
      else return seen

/-- `Parse` up to the end of the attributes: the transaction id and what was seen. -/
def parseMessage (msg : StunMessage) : Parser (List Byte × Seen) := do
  let _type ← readUInt16
  let _length ← readUInt16
  let magicCookie ← readUInt32
  Parser.guard (magicCookie = kStunMagicCookie)
  let transactionId ← Parser.take kStunTransactionIdLength
  let left ← Parser.left
  let seen ← parseAttributes msg (left+1) {}
  return (bytesAt transactionId kStunTransactionIdLength,seen)

/-- The bytes of the datagram with another length field. -/
def storeLength (bytes : ℕ → Byte) (length : BitVec 16) : ℕ → Byte := fun i =>
  if i = kLengthOffset then length.extractLsb' 8 8
  else if i = kLengthOffset+1 then length.extractLsb' 0 8 else bytes i

/-- What `Parse` leaves: its answer, the message object and the datagram's bytes.
A message object that was refused is dropped by the caller. -/
structure Parsed where
  ok : Bool
  msg : StunMessage
  bytes : ℕ → Byte
  touched : List ℕ

/-- The end of `Parse`: the tag covers the bytes before its attribute, with the
length of a message that ends in a fingerprint taken without it. -/
def checkIntegrity (hmac : Hmac) (msg : StunMessage) (seen : Seen) (b : Region) : Bool × (ℕ → Byte) :=
  match seen.messageIntegrity with
  | none => (true,b.bytes)
  | some start =>
      let bytes := if seen.fingerprint then
          storeLength b.bytes (BitVec.ofNat 16
            (b.size-kStunHeaderSize-kFingerprintAttrLength-kStunAttributeHeaderSize))
        else b.bytes
      let result := hmac msg.localPassword (bytesAt bytes start)
      if bytesAt (fun i => bytes (start+kStunAttributeHeaderSize+i)) 20 ≠ result.toList then
        (false,bytes)
      else if seen.fingerprint then
        (true,storeLength bytes (BitVec.ofNat 16 (b.size-kStunHeaderSize)))
      else (true,bytes)

def integrityReads (seen : Seen) : List ℕ :=
  match seen.messageIntegrity with
  | none => []
  | some start => List.range' 0 start++List.range' (start+kStunAttributeHeaderSize) 20

def parse (hmac : Hmac) (msg : StunMessage) (b : Region) : Parsed :=
  match (parseMessage msg).run b ⟨0,[]⟩ with
  | (none,c) => ⟨false,msg,b.bytes,c.touched⟩
  | (some (transactionId,seen),c) =>
      let msg := { msg with transactionId := transactionId, hasUseCandidate := seen.useCandidate }
      let (ok,bytes) := checkIntegrity hmac msg seen b
      ⟨ok,msg,bytes,integrityReads seen++c.touched⟩

/-- The bytes of a writer with two of them replaced. -/
def ByteWriter.store (w : ByteWriter) (k : ℕ) (l : List Byte) : ByteWriter :=
  { w with bytes := w.bytes.take k++l++w.bytes.drop (k+l.length) }

abbrev kResponseSize : ℕ :=
  kStunHeaderSize+kStunAttributeHeaderSize+kXorMappedAddressAttributeLength
    +kStunAttributeHeaderSize+kMessageIntegrityAttributeLength+kStunAttributeHeaderSize
    +kFingerprintAttrLength

/-- The XOR-MAPPED-ADDRESS attribute, which an IPv6 address does not get. -/
def writeMappedAddress (mapped : UdpEndpoint) (w : ByteWriter) : Option ByteWriter :=
  match mapped with
  | .v4 address port => do
      let w ← w.writeUInt16 kAttrXorMappedAddress
      let w ← w.writeUInt16 (BitVec.ofNat 16 kXorMappedAddressAttributeLength)
      let w ← w.writeUInt8 0
      let w ← w.writeUInt8 1
      let w ← w.writeUInt16 (port ^^^ (kStunMagicCookie >>> 16).setWidth 16)
      w.writeUInt32 (address ^^^ kStunMagicCookie)
  | .v6 _ _ _ => some w

/-- `CreateResponse` into a block of the memory pool. -/
def createResponse (hmac : Hmac) (msg : StunMessage) (mapped : UdpEndpoint) (memory : ℕ → Byte) :
    Option (List Byte) := do
  let w := ByteWriter.on (bytesAt memory kResponseSize)
  let w ← w.writeUInt16 kBindingResponse
  let w ← w.writeUInt16 (BitVec.ofNat 16 (kResponseSize-kStunHeaderSize))
  let w ← w.writeUInt32 kStunMagicCookie
  let w ← w.writeBytes msg.transactionId
  let w ← writeMappedAddress mapped w
  let w := ByteWriter.store w kLengthOffset (storeUInt16BE (BitVec.ofNat 16
    (kStunAttributeHeaderSize+kXorMappedAddressAttributeLength+kStunAttributeHeaderSize
      +kMessageIntegrityAttributeLength)))
  let result := hmac msg.localPassword (w.bytes.take w.used)
  let w ← w.writeUInt16 kAttrMessageIntegrity
  let w ← w.writeUInt16 (BitVec.ofNat 16 kMessageIntegrityAttributeLength)
  let w ← w.writeBytes result.toList
  let w := ByteWriter.store w kLengthOffset (storeUInt16BE (BitVec.ofNat 16
    (kStunAttributeHeaderSize+kXorMappedAddressAttributeLength+kStunAttributeHeaderSize
      +kMessageIntegrityAttributeLength+kStunAttributeHeaderSize+kFingerprintAttrLength)))
  let crc32 := Crc32.calculate (w.bytes.take w.used)
  let w ← w.writeUInt16 kAttrFingerprint
  let w ← w.writeUInt16 (BitVec.ofNat 16 kFingerprintAttrLength)
  let w ← w.writeUInt32 (crc32 ^^^ kFingerprintMask)
  return w.bytes

/-! ### The attributes of a message -/

def typeAt (b : Region) (k : ℕ) : BitVec 16 := loadUInt16BE fun i => b.bytes (k+i)
def lengthAt (b : Region) (k : ℕ) : ℕ := (loadUInt16BE fun i => b.bytes (k+2+i)).toNat

/-- An attribute's header starts here: they follow one another from the end of
the message header on, each value padded to whole words. -/
inductive AttributeAt (b : Region) : ℕ → Prop where
  | first : AttributeAt b kStunHeaderSize
  | next {k : ℕ} (h : AttributeAt b k) :
      AttributeAt b (k+kStunAttributeHeaderSize+4*((lengthAt b k+3)/4))

theorem AttributeAt.le {b : Region} {k : ℕ} (h : AttributeAt b k) : kStunHeaderSize ≤ k := by
  induction h with
  | first => exact Nat.le_refl _
  | next _ ih => exact Nat.le_trans ih (by omega)

/-- A whole attribute of a type. -/
structure Carries (b : Region) (attrType : BitVec 16) (k : ℕ) : Prop where
  at_offset : AttributeAt b k
  type_eq : typeAt b k = attrType
  inside : k+kStunAttributeHeaderSize+lengthAt b k ≤ b.size

/-- The tag of a MESSAGE-INTEGRITY attribute covers the bytes before it, with a
length field that ends the message behind it. -/
def ValidIntegrity (hmac : Hmac) (password : List Byte) (b : Region) (k : ℕ) : Prop :=
  lengthAt b k = kMessageIntegrityAttributeLength ∧
    bytesAt (fun i => b.bytes (k+kStunAttributeHeaderSize+i)) 20 =
      (hmac password (bytesAt (storeLength b.bytes (BitVec.ofNat 16
        (k+kStunAttributeHeaderSize+kMessageIntegrityAttributeLength-kStunHeaderSize))) k)).toList

/-- A binding request that carries the username, and USE-CANDIDATE covered by a
MESSAGE-INTEGRITY attribute that is valid under the password. -/
def Authentic (hmac : Hmac) (msg : StunMessage) (b : Region) : Prop :=
  typeAt b 0 = kBindingRrequst ∧ loadUInt32BE (fun i => b.bytes (4+i)) = kStunMagicCookie ∧
    ∃ user candidate integrity, Carries b kAttrUsername user ∧
      bytesAt (fun i => b.bytes (user+kStunAttributeHeaderSize+i)) (lengthAt b user) =
        msg.userName ∧
      Carries b kAttrUseCandidate candidate ∧ Carries b kAttrMessageIntegrity integrity ∧
      candidate < integrity ∧ ValidIntegrity hmac msg.localPassword b integrity

end Ylrtc.Stun
