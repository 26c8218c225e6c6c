import Ylrtc.Ice.StunMessage

/-!
# The binding response

What `CreateResponse` writes, as bytes, and how it reads as a STUN message. The sizes are
those of a response with an IPv4 address.
-/
namespace Ylrtc.Stun
open ByteBuffer ByteWriter CursorParser

/-! ### The bytes -/

/-- A writer in the middle of its buffer: what is written, then what the memory held. -/
def filled (memory done : List Byte) : ByteWriter := ⟨done++memory.drop done.length,done.length⟩

theorem writeBytes_over {memory done val : List Byte}
    (h : done.length+val.length ≤ memory.length) :
    (filled memory done).writeBytes val = some (filled memory (done++val)) := by
  have hleft : (filled memory done).left = memory.length - done.length := by
    simp only [filled,left,List.length_append,List.length_drop]
    omega
  rw [writeBytes_of_le (by omega)]
  simp only [filled,List.take_left,List.drop_append,List.length_append,Nat.add_sub_cancel_left,
    List.drop_drop]
  rw [List.drop_eq_nil_of_le (by omega),List.nil_append]

theorem store_over {memory done val : List Byte} {k : ℕ} (h : k+val.length ≤ done.length) :
    Stun.ByteWriter.store (filled memory done) k val =
      filled memory (done.take k++val++done.drop (k+val.length)) := by
  have hlength : (done.take k++val++done.drop (k+val.length)).length = done.length := by
    simp only [List.length_append,List.length_take,List.length_drop]
    omega
  simp only [filled,Stun.ByteWriter.store,hlength]
  rw [List.take_append_of_le_length (by omega),List.drop_append_of_le_length (by omega)]
  simp only [List.append_assoc]

/-- The XOR-MAPPED-ADDRESS attribute. -/
def mappedAddressBytes : UdpEndpoint → List Byte
  | .v4 address port => storeUInt16BE kAttrXorMappedAddress ++
      (storeUInt16BE (BitVec.ofNat 16 kXorMappedAddressAttributeLength) ++ ([(0 : Byte)] ++ ([(1 : Byte)] ++
      (storeUInt16BE (port ^^^ (kStunMagicCookie >>> 16).setWidth 16) ++
        storeUInt32BE (address ^^^ kStunMagicCookie)))))
  | .v6 _ _ _ => []

/-- Everything before MESSAGE-INTEGRITY, with a length field. -/
def signedBytes (msg : StunMessage) (mapped : UdpEndpoint) (length : BitVec 16) : List Byte :=
  storeUInt16BE kBindingResponse ++ (storeUInt16BE length ++ (storeUInt32BE kStunMagicCookie ++
    (msg.transactionId ++ mappedAddressBytes mapped)))

def integrityBytes (hmac : Hmac) (msg : StunMessage) (mapped : UdpEndpoint) : List Byte :=
  storeUInt16BE kAttrMessageIntegrity ++
    (storeUInt16BE (BitVec.ofNat 16 kMessageIntegrityAttributeLength) ++
      (hmac msg.localPassword (signedBytes msg mapped 36)).toList)

/-- Everything before FINGERPRINT. -/
def coveredBytes (hmac : Hmac) (msg : StunMessage) (mapped : UdpEndpoint) : List Byte :=
  signedBytes msg mapped 44 ++ integrityBytes hmac msg mapped

def fingerprintBytes (hmac : Hmac) (msg : StunMessage) (mapped : UdpEndpoint) : List Byte :=
  storeUInt16BE kAttrFingerprint ++ (storeUInt16BE (BitVec.ofNat 16 kFingerprintAttrLength) ++
    storeUInt32BE (Crc32.calculate (coveredBytes hmac msg mapped) ^^^ kFingerprintMask))

def responseBytes (hmac : Hmac) (msg : StunMessage) (mapped : UdpEndpoint) : List Byte :=
  coveredBytes hmac msg mapped ++ fingerprintBytes hmac msg mapped

theorem mappedAddressBytes_length_le (mapped : UdpEndpoint) :
    (mappedAddressBytes mapped).length ≤ 12 := by
  cases mapped with
  | v4 address port => exact Nat.le_refl _
  | v6 address scope port => exact Nat.zero_le _

section Response
variable {hmac : Hmac} {msg : StunMessage} {mapped : UdpEndpoint}

theorem signedBytes_length (h : msg.transactionId.length = 12) (mapped : UdpEndpoint)
    (length : BitVec 16) :
    (signedBytes msg mapped length).length = 20+(mappedAddressBytes mapped).length := by
  simp only [signedBytes,List.length_append,storeUInt16BE_length,storeUInt32BE_length,h]
  omega

theorem integrityBytes_length : (integrityBytes hmac msg mapped).length = 24 := by
  simp only [integrityBytes,List.length_append,storeUInt16BE_length,Vector.length_toList]

theorem writeMappedAddress_over {memory done : List Byte}
    (h : done.length+(mappedAddressBytes mapped).length ≤ memory.length) :
    writeMappedAddress mapped (filled memory done) =
      some (filled memory (done++mappedAddressBytes mapped)) := by
  cases mapped with
  | v6 address scope port => rw [mappedAddressBytes,List.append_nil]; rfl
  | v4 address port =>
      have hwrites : Writes (writeMappedAddress (.v4 address port))
          (mappedAddressBytes (.v4 address port)) :=
        (writes_writeBytes _).bind <| (writes_writeBytes _).bind <| (writes_writeBytes _).bind <|
          (writes_writeBytes _).bind <| (writes_writeBytes _).bind (writes_writeBytes _)
      rw [hwrites _ (by simp [filled]),writeBytes_over h]

/-- The response, and behind it the memory that it does not reach. -/
theorem createResponse_eq (h : msg.transactionId.length = 12) (memory : ℕ → Byte) :
    createResponse hmac msg mapped memory =
      some (filled (bytesAt memory kResponseSize) (responseBytes hmac msg mapped)).bytes := by
  have haddress := mappedAddressBytes_length_le mapped
  generalize hpool : bytesAt memory kResponseSize = pool
  have hlength : pool.length = 64 := by
    rw [← hpool,bytesAt,List.length_map,List.length_range]
    rfl
  have hstart : ByteWriter.on pool = filled pool [] := rfl
  have hsigned : storeUInt16BE kBindingResponse ++
      storeUInt16BE (BitVec.ofNat 16 (kResponseSize-kStunHeaderSize)) ++
      storeUInt32BE kStunMagicCookie ++ msg.transactionId ++ mappedAddressBytes mapped =
        signedBytes msg mapped 44 := by
    simp only [signedBytes,List.append_assoc]
    rfl
  have hstore : ∀ length length' tail, Stun.ByteWriter.store
      (filled pool (signedBytes msg mapped length ++ tail)) kLengthOffset (storeUInt16BE length') =
        filled pool (signedBytes msg mapped length' ++ tail) := by
    intro length length' tail
    rw [store_over (by simp [signedBytes])]
    simp only [signedBytes,List.append_assoc]
    rfl
  have h36 : BitVec.ofNat 16 (kStunAttributeHeaderSize+kXorMappedAddressAttributeLength
      +kStunAttributeHeaderSize+kMessageIntegrityAttributeLength) = 36 := rfl
  have h44 : BitVec.ofNat 16 (kStunAttributeHeaderSize+kXorMappedAddressAttributeLength
      +kStunAttributeHeaderSize+kMessageIntegrityAttributeLength+kStunAttributeHeaderSize
      +kFingerprintAttrLength) = 44 := rfl
  have hfirst := hstore 44 36 []
  rw [List.append_nil,List.append_nil] at hfirst
  rw [createResponse]
  simp only [hpool,hstart,ByteWriter.writeUInt16,ByteWriter.writeUInt32,Option.bind_eq_bind,h36,h44]
  rw [writeBytes_over (by simp [hlength]),Option.bind_some,List.nil_append,
    writeBytes_over (by simp [hlength]),Option.bind_some,
    writeBytes_over (by simp [hlength]),Option.bind_some,
    writeBytes_over (by simp [hlength,h]),Option.bind_some,
    writeMappedAddress_over (by simp [hlength,h]; omega),Option.bind_some,hsigned,hfirst]
  have h20 := signedBytes_length h mapped
  have hwritten : ∀ done, (filled pool done).bytes.take (filled pool done).used = done := by
    intro done
    rw [filled,List.take_left]
  simp only [hwritten]
  rw [writeBytes_over (by simp [hlength,h20]; omega),Option.bind_some,
    writeBytes_over (by simp [hlength,h20]; omega),Option.bind_some,
    writeBytes_over (by simp [hlength,h20]; omega),Option.bind_some]
  have hsecond := hstore 36 44 (integrityBytes hmac msg mapped)
  have hintegrity : signedBytes msg mapped 36 ++ storeUInt16BE kAttrMessageIntegrity ++
      storeUInt16BE (BitVec.ofNat 16 kMessageIntegrityAttributeLength) ++
      (hmac msg.localPassword (signedBytes msg mapped 36)).toList =
        signedBytes msg mapped 36 ++ integrityBytes hmac msg mapped := by
    simp only [integrityBytes,List.append_assoc]
  rw [hintegrity,hsecond,← coveredBytes]
  simp only [hwritten]
  have hcovered : (coveredBytes hmac msg mapped).length ≤ 56 := by
    rw [coveredBytes,List.length_append,h20,integrityBytes_length]
    omega
  rw [writeBytes_over (by simp [hlength]; omega),Option.bind_some,
    writeBytes_over (by simp [hlength]; omega),Option.bind_some,
    writeBytes_over (by simp [hlength]; omega),Option.bind_some]
  simp only [responseBytes,fingerprintBytes,List.append_assoc]
  rfl

end Response

/-! ### Reading a message -/

/-- The attributes lie inside the message and fill the declared length. -/
structure WellFormed (b : Region) : Prop where
  declared : b.size = kStunHeaderSize + lengthAt b 0
  inside : ∀ k, AttributeAt b k → k < b.size →
    k+kStunAttributeHeaderSize+lengthAt b k ≤ b.size
  filled : AttributeAt b b.size

/-- An XOR-MAPPED-ADDRESS attribute of this address and port. -/
def Announces (b : Region) (k : ℕ) : UdpEndpoint → Prop
  | .v4 address port => lengthAt b k = 8 ∧ b.bytes (k+5) = 1 ∧
      (loadUInt16BE fun i => b.bytes (k+6+i)) ^^^ (kStunMagicCookie >>> 16).setWidth 16 = port ∧
      (loadUInt32BE fun i => b.bytes (k+8+i)) ^^^ kStunMagicCookie = address
  | .v6 address _ port => lengthAt b k = 20 ∧ b.bytes (k+5) = 2 ∧
      (loadUInt16BE fun i => b.bytes (k+6+i)) ^^^ (kStunMagicCookie >>> 16).setWidth 16 = port ∧
      ∀ i : Fin 16, b.bytes (k+8+i) ^^^ b.bytes (4+i) = address.extractLsb' (8*(15-i)) 8

structure FingerprintAt (b : Region) (k : ℕ) : Prop extends Carries b kAttrFingerprint k where
  length : lengthAt b k = kFingerprintAttrLength
  value : (loadUInt32BE fun i => b.bytes (k+kStunAttributeHeaderSize+i)) =
    Crc32.calculate (bytesAt b.bytes k) ^^^ kFingerprintMask

/-- A binding response to this endpoint, valid under the password. -/
structure IsResponse (hmac : Hmac) (password : List Byte) (mapped : UdpEndpoint) (b : Region) :
    Prop where
  wellFormed : WellFormed b
  address : ∃ k, Carries b kAttrXorMappedAddress k ∧ Announces b k mapped
  fingerprint : ∃ k, FingerprintAt b k
  integrity : ∃ k, Carries b kAttrMessageIntegrity k ∧ ValidIntegrity hmac password b k
  accepted : ∀ msg : StunMessage, msg.localPassword = password → (parse hmac msg b).ok = true

theorem bytesAt_of_holds {b : Region} {k n : ℕ} {l : List Byte} (h : b.Holds k l)
    (hn : l.length = n) : bytesAt (fun i => b.bytes (k+i)) n = l := by
  apply List.ext_getElem
  · rw [bytesAt,List.length_map,List.length_range,hn]
  · intro i hi hi'
    simp only [bytesAt,List.getElem_map,List.getElem_range]
    exact h.2 i hi'

theorem bytesAt_congr {f g : ℕ → Byte} {n : ℕ} (h : ∀ i < n, f i = g i) :
    bytesAt f n = bytesAt g n := by
  apply List.map_congr_left
  intro i hi
  exact h i (List.mem_range.mp hi)

theorem typeAt_of_holds {b : Region} {k : ℕ} {v : BitVec 16} (h : b.Holds k (storeUInt16BE v)) :
    typeAt b k = v := loadUInt16BE_of_holds h

theorem lengthAt_of_holds {b : Region} {k : ℕ} {v : BitVec 16}
    (h : b.Holds (k+2) (storeUInt16BE v)) : lengthAt b k = v.toNat := by
  rw [lengthAt,loadUInt16BE_of_holds h]

/-! ### Accepting an attribute -/

section Parse
variable {b : Region} {msg : StunMessage}

theorem readUInt16_of_holds {k : ℕ} {v : BitVec 16} (h : b.Holds k (storeUInt16BE v))
    (t : List ℕ) : readUInt16.run b ⟨k,t⟩ = (some v,⟨k+2,List.range' k 2 ++ t⟩) := by
  have hsize := h.1
  rw [storeUInt16BE_length] at hsize
  rw [readUInt16,Parser.bind_of_some (Parser.take_of_le (by simpa using hsize)),Parser.run_pure,
    loadUInt16BE_of_holds h]

/-- One round over an attribute whose value is fine. -/
theorem parseAttributes_round (fuel : ℕ) {k : ℕ} {attrType attrLength : BitVec 16} {seen seen' : Seen}
    (htype : b.Holds k (storeUInt16BE attrType)) (hlength : b.Holds (k+2) (storeUInt16BE attrLength))
    (hvalue : ∀ t, ∃ t', (parseValue msg attrType attrLength seen).run b ⟨k+4,t⟩ =
      (some seen',⟨k+4,t'⟩))
    (hroom : k+4+(paddedLength attrLength).toNat ≤ b.size) (t : List ℕ) :
    ∃ t', (parseAttributes msg (fuel+1) seen).run b ⟨k,t⟩ =
      (parseAttributes msg fuel seen').run b ⟨k+4+(paddedLength attrLength).toNat,t'⟩ := by
  cases hvalue (List.range' (k+2) 2 ++ (List.range' k 2 ++ t)) with
  | intro t' ht' =>
      refine ⟨t',?_⟩
      rw [parseAttributes,Parser.bind_of_some (Parser.run_left b _),if_pos (by simp only; omega),
        Parser.bind_of_some (readUInt16_of_holds htype t),
        Parser.bind_of_some (readUInt16_of_holds hlength _),Parser.bind_of_some ht',
        Parser.bind_of_some (Parser.skip_of_le hroom)]

theorem parseValue_fingerprint {k : ℕ} {seen : Seen} (attrLength : BitVec 16)
    (hvalue : (loadUInt32BE fun i => b.bytes (k+i)) =
      Crc32.calculate (bytesAt b.bytes (k-kStunAttributeHeaderSize)) ^^^ kFingerprintMask) (t : List ℕ) :
    ∃ t', (parseValue msg kAttrFingerprint attrLength seen).run b ⟨k,t⟩ =
      (some { seen with fingerprint := true },⟨k,t'⟩) := by
  have hcovered : (loadUInt32BE fun i => b.bytes (k+i)) = Crc32.calculate
      (bytesAt (fun i => b.bytes (0+i)) (k-kStunAttributeHeaderSize)) ^^^ kFingerprintMask := by
    simp only [Nat.zero_add]
    exact hvalue
  refine ⟨List.range' 0 (k-kStunAttributeHeaderSize) ++ (List.range' k 4 ++ t),?_⟩
  rw [parseValue,Parser.bind_of_some (Parser.run_position b _),if_neg (by decide),
    if_neg (by decide),if_pos rfl,Parser.bind_of_some (Parser.run_load _ _ b _),
    Parser.bind_of_some (Parser.run_load _ _ b _),
    Parser.bind_of_some (Parser.guard_of (by exact hcovered) b _)]
  rfl

theorem parseAttributes_done (fuel : ℕ) (seen : Seen) (t : List ℕ) :
    (parseAttributes msg (fuel+1) seen).run b ⟨b.size,t⟩ = (some seen,⟨b.size,t⟩) := by
  rw [parseAttributes,Parser.bind_of_some (Parser.run_left b _),if_neg (by simp)]
  rfl

end Parse

/-! ### Where the parts of a response lie -/

/-- A region that starts with a response, whose address attribute has `n` bytes. -/
structure Laid (hmac : Hmac) (msg : StunMessage) (mapped : UdpEndpoint) (b : Region) (n : ℕ) :
    Prop where
  signed : b.Holds 0 (signedBytes msg mapped 44)
  type : b.Holds 0 (storeUInt16BE kBindingResponse)
  length : b.Holds 2 (storeUInt16BE 44)
  cookie : b.Holds 4 (storeUInt32BE kStunMagicCookie)
  address : b.Holds 20 (mappedAddressBytes mapped)
  covered : b.Holds 0 (coveredBytes hmac msg mapped)
  integrityType : b.Holds (20+n) (storeUInt16BE kAttrMessageIntegrity)
  integrityLength : b.Holds (20+n+2) (storeUInt16BE 20)
  tag : b.Holds (20+n+4) (hmac msg.localPassword (signedBytes msg mapped 36)).toList
  fingerprintType : b.Holds (20+n+24) (storeUInt16BE kAttrFingerprint)
  fingerprintLength : b.Holds (20+n+24+2) (storeUInt16BE 4)
  fingerprint : b.Holds (20+n+24+4)
    (storeUInt32BE (Crc32.calculate (coveredBytes hmac msg mapped) ^^^ kFingerprintMask))

section Response
variable {hmac : Hmac} {msg : StunMessage} {mapped : UdpEndpoint} {b : Region}

theorem laid_of_holds {rest : List Byte} (h : msg.transactionId.length = 12)
    (hb : b.Holds 0 (responseBytes hmac msg mapped++rest)) :
    Laid hmac msg mapped b (mappedAddressBytes mapped).length := by
  have hresponse := Region.holds_append.mp (Region.holds_append.mp hb).1
  have hcovered := Region.holds_append.mp hresponse.1
  have hsigned := hcovered.1
  have hintegrity := hcovered.2
  have hfingerprint := hresponse.2
  have hlength : 0+(coveredBytes hmac msg mapped).length = 20+(mappedAddressBytes mapped).length+24 := by
    rw [coveredBytes,List.length_append,signedBytes_length h,integrityBytes_length,Nat.zero_add]
  rw [signedBytes_length h,Nat.zero_add] at hintegrity
  rw [hlength] at hfingerprint
  simp only [signedBytes,Region.holds_append,storeUInt16BE_length,storeUInt32BE_length,h,
    Nat.zero_add,Nat.reduceAdd] at hsigned
  simp only [integrityBytes,Region.holds_append,storeUInt16BE_length] at hintegrity
  simp only [fingerprintBytes,Region.holds_append,storeUInt16BE_length] at hfingerprint
  exact {
    signed := hcovered.1
    type := hsigned.1
    length := hsigned.2.1
    cookie := hsigned.2.2.1
    address := hsigned.2.2.2.2
    covered := hresponse.1
    integrityType := hintegrity.1
    integrityLength := hintegrity.2.1
    tag := hintegrity.2.2
    fingerprintType := hfingerprint.1
    fingerprintLength := hfingerprint.2.1
    fingerprint := hfingerprint.2.2 }

/-- The signed bytes with another length field. -/
theorem bytesAt_storeLength (h : msg.transactionId.length = 12) {length : BitVec 16}
    (hb : b.Holds 0 (signedBytes msg mapped length)) (length' : BitVec 16) :
    bytesAt (storeLength b.bytes length') (20+(mappedAddressBytes mapped).length) =
      signedBytes msg mapped length' := by
  have hlengths := signedBytes_length h mapped
  apply List.ext_getElem
  · rw [bytesAt,List.length_map,List.length_range,hlengths]
  · intro i hi hi'
    have hbyte := hb.2 i (by rw [hlengths] at hi' ⊢; exact hi')
    rw [Nat.zero_add] at hbyte
    simp only [bytesAt,List.getElem_map,List.getElem_range,storeLength,kLengthOffset]
    match i with
    | 0 => exact hbyte
    | 1 => exact hbyte
    | 2 => rfl
    | 3 => rfl
    | i+4 => exact hbyte

end Response

/-! ### The response to an IPv4 endpoint -/

section V4
variable {hmac : Hmac} {msg : StunMessage} {address : BitVec 32} {port : BitVec 16} {b : Region}

/-- The three attributes have lengths 8, 20 and 4. -/
theorem Laid.lengths (hb : Laid hmac msg (.v4 address port) b 12) :
    lengthAt b 20 = 8 ∧ lengthAt b 32 = 20 ∧ lengthAt b 56 = 4 := by
  have haddress := hb.address
  simp only [mappedAddressBytes,Region.holds_append,storeUInt16BE_length] at haddress
  exact ⟨lengthAt_of_holds haddress.2.1,lengthAt_of_holds hb.integrityLength,
    lengthAt_of_holds hb.fingerprintLength⟩

theorem Laid.attributeAt (hb : Laid hmac msg (.v4 address port) b 12) :
    AttributeAt b 20 ∧ AttributeAt b 32 ∧ AttributeAt b 56 ∧ AttributeAt b 64 := by
  have hlengths := hb.lengths
  have h20 : AttributeAt b 20 := .first
  have h32 : AttributeAt b 32 := by
    have hnext := h20.next
    rwa [hlengths.1] at hnext
  have h56 : AttributeAt b 56 := by
    have hnext := h32.next
    rwa [hlengths.2.1] at hnext
  have h64 : AttributeAt b 64 := by
    have hnext := h56.next
    rwa [hlengths.2.2] at hnext
  exact ⟨h20,h32,h56,h64⟩

theorem Laid.wellFormed (hb : Laid hmac msg (.v4 address port) b 12) (hsize : b.size = 64) :
    WellFormed b := by
  have hlengths := hb.lengths
  have honly : ∀ k, AttributeAt b k → k = 20 ∨ k = 32 ∨ k = 56 ∨ 64 ≤ k := by
    intro k hk
    induction hk with
    | first => exact .inl rfl
    | @next k _ ih =>
        rw [kStunAttributeHeaderSize]
        cases ih with
        | inl h => rw [h,hlengths.1]; omega
        | inr ih =>
            cases ih with
            | inl h => rw [h,hlengths.2.1]; omega
            | inr ih =>
                cases ih with
                | inl h => rw [h,hlengths.2.2]; omega
                | inr h => omega
  refine ⟨?_,fun k hk hlt => ?_,by rw [hsize]; exact hb.attributeAt.2.2.2⟩
  · rw [hsize,lengthAt_of_holds hb.length]
    rfl
  · rw [hsize] at hlt ⊢
    cases honly k hk with
    | inl h => rw [h,hlengths.1]; decide
    | inr hk =>
        cases hk with
        | inl h => rw [h,hlengths.2.1]; decide
        | inr hk =>
            cases hk with
            | inl h => rw [h,hlengths.2.2]; decide
            | inr h => omega

theorem Laid.announces (hb : Laid hmac msg (.v4 address port) b 12) (hsize : b.size = 64) :
    Carries b kAttrXorMappedAddress 20 ∧ Announces b 20 (.v4 address port) := by
  have hlengths := hb.lengths
  have haddress := hb.address
  simp only [mappedAddressBytes,Region.holds_append,storeUInt16BE_length,List.length_singleton]
    at haddress
  refine ⟨⟨.first,typeAt_of_holds haddress.1,?_⟩,hlengths.1,haddress.2.2.2.1.2 0 (by simp),?_,?_⟩
  · rw [hlengths.1,hsize]
    decide
  · rw [loadUInt16BE_of_holds haddress.2.2.2.2.1,BitVec.xor_assoc,BitVec.xor_self,BitVec.xor_zero]
  · rw [loadUInt32BE_of_holds haddress.2.2.2.2.2,BitVec.xor_assoc,BitVec.xor_self,BitVec.xor_zero]

theorem Laid.fingerprintAt (h : msg.transactionId.length = 12)
    (hb : Laid hmac msg (.v4 address port) b 12) (hsize : b.size = 64) : FingerprintAt b 56 := by
  have hlengths := hb.lengths
  have hcovered : bytesAt b.bytes 56 = coveredBytes hmac msg (.v4 address port) := by
    have hbytes := bytesAt_of_holds (n := 56) hb.covered
      (by rw [coveredBytes,List.length_append,signedBytes_length h,integrityBytes_length]; rfl)
    simp only [Nat.zero_add] at hbytes
    exact hbytes
  refine ⟨⟨hb.attributeAt.2.2.1,typeAt_of_holds hb.fingerprintType,?_⟩,hlengths.2.2,?_⟩
  · rw [hlengths.2.2,hsize]
    decide
  · rw [hcovered]
    exact loadUInt32BE_of_holds hb.fingerprint

theorem Laid.integrity (h : msg.transactionId.length = 12)
    (hb : Laid hmac msg (.v4 address port) b 12) (hsize : b.size = 64) :
    Carries b kAttrMessageIntegrity 32 ∧ ValidIntegrity hmac msg.localPassword b 32 := by
  have hlengths := hb.lengths
  have hsigned : bytesAt (storeLength b.bytes 36) 32 = signedBytes msg (.v4 address port) 36 :=
    bytesAt_storeLength h hb.signed 36
  refine ⟨⟨hb.attributeAt.2.1,typeAt_of_holds hb.integrityType,?_⟩,hlengths.2.1,?_⟩
  · rw [hlengths.2.1,hsize]
    decide
  · exact (bytesAt_of_holds hb.tag Vector.length_toList).trans
      (congrArg (fun bytes => (hmac msg.localPassword bytes).toList) hsigned.symm)

/-- `Parse` sees the two checks that it makes at the end. -/
theorem Laid.parseMessage (h : msg.transactionId.length = 12)
    (hb : Laid hmac msg (.v4 address port) b 12) (hsize : b.size = 64) (reader : StunMessage) :
    ∃ transactionId c, (parseMessage reader).run b ⟨0,[]⟩ =
      (some (transactionId,{ messageIntegrity := some 32, fingerprint := true }),c) := by
  have haddress := hb.address
  simp only [mappedAddressBytes,Region.holds_append,storeUInt16BE_length] at haddress
  have hother : ∀ t, ∃ t', (parseValue reader kAttrXorMappedAddress 8 {}).run b ⟨24,t⟩ =
      (some {},⟨24,t'⟩) := fun t => ⟨t,rfl⟩
  have hintegrity : ∀ t, ∃ t', (parseValue reader kAttrMessageIntegrity 20 {}).run b ⟨36,t⟩ =
      (some { messageIntegrity := some 32 },⟨36,t'⟩) := fun t => ⟨t,rfl⟩
  have hfingerprint : ∀ t, ∃ t',
      (parseValue reader kAttrFingerprint 4 { messageIntegrity := some 32 }).run b ⟨60,t⟩ =
        (some { messageIntegrity := some 32, fingerprint := true },⟨60,t'⟩) :=
    parseValue_fingerprint 4 (hb.fingerprintAt h hsize).value
  rw [Stun.parseMessage,Parser.bind_of_some (readUInt16_of_holds hb.type []),
    Parser.bind_of_some (readUInt16_of_holds hb.length _),
    Parser.bind_of_some (readUInt32_of_holds hb.cookie),
    Parser.bind_of_some (Parser.guard_of rfl b _),
    Parser.bind_of_some (Parser.take_of_le (show 8+12 ≤ b.size by omega)),
    Parser.bind_of_some (Parser.run_left b _),hsize]
  simp only [Nat.reduceAdd]
  generalize List.range' 8 12 ++ _ = t
  cases parseAttributes_round 44 haddress.1 haddress.2.1 hother (by rw [hsize]; decide) t with
  | intro t ht =>
      cases parseAttributes_round 43 hb.integrityType hb.integrityLength hintegrity
        (by rw [hsize]; decide) t with
      | intro u hu =>
          cases parseAttributes_round 42 hb.fingerprintType hb.fingerprintLength
            hfingerprint (by rw [hsize]; decide) u with
          | intro v hv =>
              have hdone : (parseAttributes reader 42
                  { messageIntegrity := some 32, fingerprint := true }).run b ⟨64,v⟩ =
                    (some { messageIntegrity := some 32, fingerprint := true },⟨64,v⟩) := by
                rw [← hsize]
                exact parseAttributes_done 41 _ v
              exact ⟨_,_,Parser.bind_of_some (ht.trans (hu.trans (hv.trans hdone))) _⟩

theorem Laid.accepted (h : msg.transactionId.length = 12)
    (hb : Laid hmac msg (.v4 address port) b 12) (hsize : b.size = 64) {reader : StunMessage}
    (hpassword : reader.localPassword = msg.localPassword) : (parse hmac reader b).ok = true := by
  cases hb.parseMessage h hsize reader with
  | intro transactionId hrun =>
      cases hrun with
      | intro c hrun =>
          have htag := (hb.integrity h hsize).2.2
          have hkept : bytesAt (fun i => storeLength b.bytes 36 (32+4+i)) 20 =
              bytesAt (fun i => b.bytes (32+4+i)) 20 := by
            apply bytesAt_congr
            intro i _
            rw [storeLength,kLengthOffset,if_neg (by omega),if_neg (by omega)]
          rw [parse,hrun]
          simp only [checkIntegrity,hsize,if_true,hpassword]
          exact congrArg Prod.fst (if_neg (not_not.mpr (hkept.trans htag)))

end V4

/-! ### Other endpoints -/

def UdpEndpoint.IsV4 : UdpEndpoint → Prop
  | .v4 _ _ => True
  | .v6 _ _ _ => False

section Other
variable {hmac : Hmac} {msg : StunMessage} {mapped : UdpEndpoint} {b : Region}

/-- An IPv6 endpoint gets two attributes and twelve bytes of memory, in which no attribute
of its address has room. -/
theorem Laid.not_announced {address : BitVec 128} {scope : BitVec 32} {port : BitVec 16}
    (hb : Laid hmac msg (.v6 address scope port) b 0) (hsize : b.size = 64) (k : ℕ) :
    ¬(Carries b kAttrXorMappedAddress k ∧ Announces b k (.v6 address scope port)) := by
  intro h
  have hoffset : ∀ k, AttributeAt b k → k = 20 ∨ 44 ≤ k := by
    intro k hk
    induction hk with
    | first => exact .inl rfl
    | @next k _ ih =>
        rw [kStunAttributeHeaderSize]
        cases ih with
        | inl h => rw [h,lengthAt_of_holds hb.integrityLength]; exact .inr (by decide)
        | inr h => omega
  have hinside := h.1.inside
  rw [hsize,h.2.1,kStunAttributeHeaderSize] at hinside
  cases hoffset k h.1.at_offset with
  | inr hfar => omega
  | inl hfirst =>
      have htype := h.1.type_eq
      rw [hfirst,typeAt_of_holds hb.integrityType] at htype
      exact absurd htype (by decide)

/-- Whatever the memory held, the bytes that are sent are a response to the endpoint. -/
def Responds (hmac : Hmac) (msg : StunMessage) (mapped : UdpEndpoint) (memory : ℕ → Byte) : Prop :=
  ∀ bytes, createResponse hmac msg mapped memory = some bytes →
    ∀ b : Region, b.size = bytes.length → b.Holds 0 bytes →
      IsResponse hmac msg.localPassword mapped b

theorem createResponse_length (hmac : Hmac) (mapped : UdpEndpoint)
    (h : msg.transactionId.length = 12) (memory : ℕ → Byte) :
    (filled (bytesAt memory kResponseSize) (responseBytes hmac msg mapped)).bytes.length = 64 := by
  have haddress := mappedAddressBytes_length_le mapped
  have hlength : (bytesAt memory kResponseSize).length = 64 := by
    rw [bytesAt,List.length_map,List.length_range]
    rfl
  simp only [filled,responseBytes,coveredBytes,fingerprintBytes,List.length_append,List.length_drop,
    signedBytes_length h,integrityBytes_length,storeUInt16BE_length,storeUInt32BE_length,hlength]
  omega

theorem responds_v4 (hmac : Hmac) (h : msg.transactionId.length = 12) (address : BitVec 32)
    (port : BitVec 16) (memory : ℕ → Byte) : Responds hmac msg (.v4 address port) memory := by
  intro bytes hbytes b hsize hb
  rw [createResponse_eq h,Option.some.injEq] at hbytes
  rw [← hbytes,createResponse_length hmac _ h] at hsize
  rw [← hbytes] at hb
  have hlaid := laid_of_holds h hb
  exact ⟨hlaid.wellFormed hsize,⟨20,hlaid.announces hsize⟩,⟨56,hlaid.fingerprintAt h hsize⟩,
    ⟨32,hlaid.integrity h hsize⟩,fun reader => hlaid.accepted h hsize⟩

theorem not_responds_v6 (hmac : Hmac) (h : msg.transactionId.length = 12) (address : BitVec 128)
    (scope : BitVec 32) (port : BitVec 16) (memory : ℕ → Byte) :
    ¬Responds hmac msg (.v6 address scope port) memory := by
  intro hright
  have hlength := createResponse_length hmac (.v6 address scope port) h memory
  have hresponse := hright _ (createResponse_eq h memory) (Region.ofList _ (fun _ => 0)
    (by rw [hlength]; decide)) rfl (Region.ofList_holds _ _ _)
  cases hresponse.address with
  | intro k hk =>
      exact Laid.not_announced (laid_of_holds h (Region.ofList_holds _ _ _)) hlength k hk

end Other

/-- The bytes are a response exactly for IPv4. -/
theorem responds_iff (hmac : Hmac) (msg : StunMessage) (mapped : UdpEndpoint)
    (memory : ℕ → Byte) (h : msg.transactionId.length = 12) :
    Responds hmac msg mapped memory ↔ mapped.IsV4 := by
  cases mapped with
  | v4 address port => exact iff_of_true (responds_v4 hmac h address port memory) trivial
  | v6 address scope port =>
      exact iff_of_false (not_responds_v6 hmac h address scope port memory) id

/-- A request with transaction id 0. -/
def zeroRequest : StunMessage := ⟨[],[],[],List.replicate 12 0,false⟩

theorem responds_iff_zeroRequest :
    Responds (fun _ _ => .replicate 20 0) zeroRequest (.v4 0x7F000001 5555) (fun _ => 0) ↔
      (UdpEndpoint.v4 0x7F000001 5555).IsV4 :=
  responds_iff _ zeroRequest _ _ (by decide)

/-- The endpoint is port 5555 of `::1`. -/
theorem not_responds : ¬∀ (hmac : Hmac) (msg : StunMessage) (mapped : UdpEndpoint)
    (memory : ℕ → Byte), msg.transactionId.length = 12 → Responds hmac msg mapped memory := by
  intro hall
  have hlength : zeroRequest.transactionId.length = 12 := by decide
  exact not_responds_v6 (fun _ _ => .replicate 20 0) hlength 1 0 5555 (fun _ => 0)
    (hall _ zeroRequest (.v6 1 0 5555) _ hlength)

end Ylrtc.Stun
