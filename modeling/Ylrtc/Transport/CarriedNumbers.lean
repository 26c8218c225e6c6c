import Ylrtc.Transport.SubscribeStream

/-!
# Transport-wide numbers on the wire

Which number a packet carries when it is handed to the socket. A first transmission
carries the number recorded for it. A packet that is sent again is a copy of a copy,
which has lost its extension map, so writing the new number has no effect.
-/
namespace Ylrtc.CarriedNumbers
open ByteBuffer CursorParser HeaderExtension Packet Recorder Run Subscribe
open TransportNumbers hiding Event step run
open RtpPacket SubscribeStream SubscribeStreamTrack

/-- The number in the bytes, under the map negotiated for the track. -/
def carried (t : Transmission) : Option (BitVec 16) :=
  t.packet.transportSequenceNumberUnder t.capability t.bytes

/-- If the packet has the extension, it carries the number that was recorded. -/
def Carries (t : Transmission) : Prop := ∀ n, carried t = some n → n = t.recorded

/-- Two transmissions less than 2^16 apart carry different numbers. -/
def Distinct (t u : Transmission) : Prop :=
  t.transportSeq < u.transportSeq → u.transportSeq < t.transportSeq+65536 →
    ∀ n m, carried t = some n → carried u = some m → n ≠ m

/-- The packets that are sent again for a list of lost numbers. -/
def queries (nowMillis : ℤ) : SendPacketRecorder → List (BitVec 16) → List RtpPacket
  | _,[] => []
  | r,n::ns =>
      match r.query n nowMillis with
      | (none,r) => queries nowMillis r ns
      | (some packet,r) => packet::queries nowMillis r ns

/-- The packets to send again have no such extension, or the next numbers happen to
be in it already, or the socket does not take them. -/
def AlreadyNumbered (takes : ℕ → Bool) (c : RtpHeaderExtensionCapability) :
    ℕ → List RtpPacket → Prop
  | _,[] => True
  | transportSeq,p::ps =>
      (takes (transportSeq+1) = true → ∀ n, p.transportSequenceNumberUnder c p.data = some n →
        n = BitVec.ofNat 16 (transportSeq+1)) ∧ AlreadyNumbered takes c (transportSeq+1) ps

/-- Whether an event sends only such packets again. -/
def ResendsNumbered (s : SubscribeStream) : Event → Prop
  | .receiveNack mediaSsrc lostPackets nowMillis =>
      ∀ track, s.ssrcTrackMap mediaSsrc = some track → track.configuration.nackEnabled = true →
        s.connectionEstablished = true →
        AlreadyNumbered s.environment.takes track.configuration.extensionCapability
          s.sequence.transportSeq (queries nowMillis track.sendPacketRecorder lostPackets)
  | _ => True

/-! ### Bytes on the wire -/

theorem take_drop_take {data : List Byte} {k n : ℕ} (h : k+2 ≤ n) :
    ((data.take n).drop k).take 2 = (data.drop k).take 2 := by
  rw [List.drop_take,List.take_take,Nat.min_eq_left (by omega)]

/-- A two-byte extension lies between the fixed header and the payload. -/
theorem two_byte_entry {p : RtpPacket} (h : p.Valid) {e : ExtensionInfo}
    (he : e ∈ p.extensionEntries) (htwo : e.length = 2) :
    12 ≤ e.offset.toNat ∧ e.offset.toNat+2 ≤ p.payloadOffset := by
  have hentry := h.entries e he
  rw [htwo] at hentry
  exact hentry

theorem under_take {p : RtpPacket} (h : p.Valid) (c : RtpHeaderExtensionCapability)
    (data : List Byte) {n : ℕ} (hn : p.payloadOffset ≤ n) :
    p.transportSequenceNumberUnder c (data.take n) = p.transportSequenceNumberUnder c data := by
  apply transportSequenceNumberUnder_congr
  intro e he htwo
  exact take_drop_take (Nat.le_trans (two_byte_entry h he htwo).2 hn)

/-- Overwriting the fixed header leaves the extensions alone. -/
theorem under_store_header {p : RtpPacket} (h : p.Valid) (c : RtpHeaderExtensionCapability)
    {data bytes : List Byte} {k : ℕ} (hk : k+bytes.length ≤ 12) (hdata : 12 ≤ data.length) :
    p.transportSequenceNumberUnder c (store data k bytes) =
      p.transportSequenceNumberUnder c data := by
  apply transportSequenceNumberUnder_congr
  intro e he htwo
  have := (two_byte_entry h he htwo).1
  rw [drop_store (by omega) (by omega)]

/-- So does overwriting the payload. -/
theorem under_store_payload {p : RtpPacket} (h : p.Valid) (c : RtpHeaderExtensionCapability)
    {data bytes : List Byte} {k : ℕ} (hk : p.payloadOffset ≤ k) (hdata : k ≤ data.length) :
    p.transportSequenceNumberUnder c (store data k bytes) =
      p.transportSequenceNumberUnder c data := by
  rw [← under_take h c data hk,← under_take h c (store data k bytes) hk]
  congr 1
  rw [store,List.append_assoc,List.take_append_of_le_length (by rw [List.length_take]; omega),
    List.take_take,Nat.min_self]

/-- A retransmission has the header of the packet, but for type, number and SSRC. -/
theorem under_rtxBytes {p : RtpPacket} (h : p.Valid) (c : RtpHeaderExtensionCapability)
    (memory : ℕ → Byte) (payloadType : Byte) (ssrc : BitVec 32) (sequenceNumber : BitVec 16) :
    p.transportSequenceNumberUnder c (rtxBytes memory p payloadType ssrc sequenceNumber) =
      p.transportSequenceNumberUnder c p.data := by
  have hsize : p.size = p.payloadOffset+p.payloadSize+p.paddingSize.toNat := rfl
  have hrtx : kRtxHeaderSize = 2 := rfl
  have hmin : kMinRtpPacketLen = 12 := rfl
  have hheader := h.header
  have hdata := h.size
  have hpayload : ((p.data.drop p.payloadOffset).take p.payloadSize).length = p.payloadSize := by
    rw [List.length_take,List.length_drop]
    omega
  rw [rtxBytes]
  simp only
  rw [if_neg (by omega)]
  -- the buffer with the header copied into it
  have hcopied : p.transportSequenceNumberUnder c
      (store ((List.range (p.size+kRtxHeaderSize)).map memory) 0 (p.data.take p.payloadOffset)) =
      p.transportSequenceNumberUnder c p.data := by
    rw [← under_take h c _ (Nat.le_refl _),← under_take h c p.data (Nat.le_refl _),store,
      List.take_zero,List.nil_append,List.take_append_of_le_length,List.take_take,Nat.min_self]
    rw [List.length_take]
    omega
  have hlength : (store ((List.range (p.size+kRtxHeaderSize)).map memory) 0
      (p.data.take p.payloadOffset)).length = p.size+kRtxHeaderSize := by
    rw [store_length,List.length_map,List.length_range]
    rw [List.length_take,List.length_map,List.length_range]
    omega
  generalize store ((List.range (p.size+kRtxHeaderSize)).map memory) 0
    (p.data.take p.payloadOffset) = buffer at hcopied hlength ⊢
  -- what is written behind it
  have hbehind : p.transportSequenceNumberUnder c (store (store buffer
      (p.payloadOffset+kRtxHeaderSize) ((p.data.drop p.payloadOffset).take p.payloadSize))
      p.payloadOffset (storeUInt16BE p.sequenceNumber)) =
      p.transportSequenceNumberUnder c p.data := by
    rw [under_store_payload h c (Nat.le_refl _),under_store_payload h c (by omega) (by omega),
      hcopied]
    rw [store_length (by omega)]
    omega
  have hlength' : 12 ≤ (store (store buffer
      (p.payloadOffset+kRtxHeaderSize) ((p.data.drop p.payloadOffset).take p.payloadSize))
      p.payloadOffset (storeUInt16BE p.sequenceNumber)).length := by
    rw [store_length,store_length (by omega)]
    · omega
    · rw [store_length (by omega),storeUInt16BE_length]
      omega
  generalize store (store buffer
    (p.payloadOffset+kRtxHeaderSize) ((p.data.drop p.payloadOffset).take p.payloadSize))
    p.payloadOffset (storeUInt16BE p.sequenceNumber) = buffer at hbehind hlength' ⊢
  -- what is written into the fixed header
  have h8 : (store buffer 8 (storeUInt32BE ssrc)).length = buffer.length :=
    store_length (by rw [storeUInt32BE_length]; omega)
  have h1 : ∀ b, (store (store buffer 8 (storeUInt32BE ssrc)) 1 [b]).length = buffer.length := by
    intro b
    rw [store_length,h8]
    rw [h8,List.length_singleton]
    omega
  rw [under_store_header h c (by rw [storeUInt16BE_length]; omega) (by rw [h1]; exact hlength'),
    under_store_header h c (by rw [List.length_singleton]; omega) (by rw [h8]; exact hlength'),
    under_store_header h c (by rw [storeUInt32BE_length]) hlength',hbehind]

/-! ### What one step hands over -/

/-- Transmissions made while the counter went from one value to another. -/
structure Numbered (lo hi : ℕ) (ts : List Transmission) : Prop where
  le : lo ≤ hi
  increasing : ts.Pairwise fun t u => t.transportSeq < u.transportSeq
  bounds : ∀ t ∈ ts, lo < t.transportSeq ∧ t.transportSeq ≤ hi
  recorded : ∀ t ∈ ts, t.recorded = BitVec.ofNat 16 t.transportSeq

theorem Numbered.nil {lo hi : ℕ} (h : lo ≤ hi) : Numbered lo hi [] :=
  ⟨h,List.Pairwise.nil,fun _ ht => absurd ht List.not_mem_nil,
    fun _ ht => absurd ht List.not_mem_nil⟩

theorem Numbered.append {lo mid hi : ℕ} {ts us : List Transmission} (h : Numbered lo mid ts)
    (h' : Numbered mid hi us) : Numbered lo hi (ts++us) := by
  constructor
  · exact Nat.le_trans h.le h'.le
  · rw [List.pairwise_append]
    refine ⟨h.increasing,h'.increasing,?_⟩
    intro t ht u hu
    exact Nat.lt_of_le_of_lt (h.bounds t ht).2 (h'.bounds u hu).1
  · intro t ht
    have hle := h.le
    have hle' := h'.le
    cases List.mem_append.mp ht with
    | inl ht =>
        have := h.bounds t ht
        omega
    | inr ht =>
        have := h'.bounds t ht
        omega
  · intro t ht
    cases List.mem_append.mp ht with
    | inl ht => exact h.recorded t ht
    | inr ht => exact h'.recorded t ht

/-- From one state to a later one. What was handed over in between carries its
numbers exactly if the condition holds. -/
structure Extends (s s' : SubscribeStream) (P : Prop) : Prop where
  environment : s'.environment = s.environment
  sent : ∃ ts, s'.socket = s.socket++ts ∧
    Numbered s.sequence.transportSeq s'.sequence.transportSeq ts ∧
    ((∀ t ∈ ts, Carries t) ↔ P)

theorem Extends.nothing {s s' : SubscribeStream} (he : s'.environment = s.environment)
    (hs : s'.socket = s.socket) (hn : s.sequence.transportSeq ≤ s'.sequence.transportSeq) :
    Extends s s' True :=
  ⟨he,[],by rw [hs,List.append_nil],.nil hn,by simp⟩

theorem Extends.trans {s s' s'' : SubscribeStream} {P Q : Prop} (h : Extends s s' P)
    (h' : Extends s' s'' Q) : Extends s s'' (P ∧ Q) := by
  obtain ⟨ts,hts,hn,hc⟩ := h.sent
  obtain ⟨us,hus,hn',hc'⟩ := h'.sent
  refine ⟨h'.environment.trans h.environment,ts++us,?_,hn.append hn',?_⟩
  · rw [hus,hts,List.append_assoc]
  · rw [← hc,← hc']
    constructor
    · intro hall
      exact ⟨fun t ht => hall t (List.mem_append_left _ ht),
        fun t ht => hall t (List.mem_append_right _ ht)⟩
    · intro hall t ht
      cases List.mem_append.mp ht with
      | inl ht => exact hall.1 t ht
      | inr ht => exact hall.2 t ht

theorem Extends.iff {s s' : SubscribeStream} {P Q : Prop} (h : Extends s s' P) (hPQ : P ↔ Q) :
    Extends s s' Q := propext hPQ ▸ h

/-- What every send path leaves alone, and the counter. -/
structure Counts (s s' : SubscribeStream) : Prop where
  environment : s'.environment = s.environment
  connectionEstablished : s'.connectionEstablished = s.connectionEstablished
  ssrcTrackMap : s'.ssrcTrackMap = s.ssrcTrackMap
  transportSeq : s'.sequence.transportSeq = s.sequence.transportSeq+1

theorem counts_advance (s : SubscribeStream) (packet : RtpPacket) (nowMillis : ℤ) :
    Counts s (s.advance packet nowMillis) := ⟨rfl,rfl,rfl,rfl⟩

theorem Counts.handOver {s s' : SubscribeStream} (h : Counts s s')
    (c : RtpHeaderExtensionCapability) (packet : RtpPacket) (bytes : List Byte) :
    Counts s (s'.handOver c packet bytes) := by
  rw [SubscribeStream.handOver]
  split
  · exact ⟨h.environment,h.connectionEstablished,h.ssrcTrackMap,h.transportSeq⟩
  · exact h

theorem Counts.sendRtp {s s' : SubscribeStream} (h : Counts s s')
    (c : RtpHeaderExtensionCapability) (packet : RtpPacket) :
    Counts s (s'.sendRtp c packet) := by
  rw [SubscribeStream.sendRtp]
  split
  · exact h
  · exact h.handOver c packet _

/-- Bytes with the number that is recorded for them next, if the socket takes them. -/
def CarriesNext (s : SubscribeStream) (c : RtpHeaderExtensionCapability) (packet : RtpPacket)
    (bytes : List Byte) : Prop :=
  s.environment.takes (s.sequence.transportSeq+1) = true →
    ∀ n, packet.transportSequenceNumberUnder c bytes = some n →
      n = BitVec.ofNat 16 (s.sequence.transportSeq+1)

/-- The end of a send path hands over one packet, if the socket takes it. -/
theorem extends_handOver (s : SubscribeStream) (nowMillis : ℤ) (packet : RtpPacket)
    (c : RtpHeaderExtensionCapability) (bytes : List Byte) :
    Extends s ((s.advance packet nowMillis).handOver c packet bytes)
      (CarriesNext s c packet bytes) := by
  have hcounts := counts_advance s packet nowMillis
  rw [CarriesNext,handOver,hcounts.transportSeq,hcounts.environment]
  cases htakes : s.environment.takes (s.sequence.transportSeq+1) with
  | false =>
      rw [if_neg Bool.false_ne_true]
      have hnothing : Extends s (s.advance packet nowMillis) True :=
        Extends.nothing rfl rfl (Nat.le_succ _)
      exact hnothing.iff (by simp)
  | true =>
      rw [if_pos rfl]
      refine ⟨rfl,_,rfl,⟨Nat.le_succ _,List.pairwise_singleton _ _,?_,?_⟩,?_⟩
      · intro t ht
        rw [List.mem_singleton.mp ht]
        exact ⟨Nat.lt_succ_self _,Nat.le_refl _⟩
      · intro t ht
        rw [List.mem_singleton.mp ht]
      · simp only [List.mem_singleton,forall_eq,Carries,carried,forall_const]

/-! ### First transmissions -/

/-- A packet with its own extension map is handed over with its own number. -/
theorem extends_send {s : SubscribeStream} {packet : RtpPacket} (h : packet.Valid)
    (nowMillis : ℤ) :
    Extends s (s.onSubscribeStreamTrackSendRtpPacket nowMillis packet.extensionCapability
      packet).2 True := by
  rw [onSubscribeStreamTrackSendRtpPacket]
  simp only [sendRtp]
  split
  · exact Extends.nothing rfl rfl (Nat.le_succ _)
  · apply (extends_handOver s nowMillis _ _ _).iff
    rw [iff_true]
    intro _ n hn
    have hvalid := h.setTransportSequenceNumber (nextNumber s.sequence)
    rw [under_take hvalid] at hn
    · exact transportSequenceNumberUnder_set h hn
    · rw [RtpPacket.size]
      omega

theorem counts_send (s : SubscribeStream) (nowMillis : ℤ) (c : RtpHeaderExtensionCapability)
    (packet : RtpPacket) :
    Counts s (s.onSubscribeStreamTrackSendRtpPacket nowMillis c packet).2 :=
  (counts_advance s _ nowMillis).sendRtp c _

/-! ### Packets sent again -/

/-- A copy has no extension map, so the number is not written. -/
theorem setTransportSequenceNumber_copy (p : RtpPacket) (value : BitVec 16) :
    p.copy.setTransportSequenceNumber value = p.copy := by
  rw [RtpPacket.setTransportSequenceNumber]
  have hnone : p.copy.findExtension TransportSequenceNumberExtension.kType = none := rfl
  rw [hnone]

/-- Either way of sending a copy again hands it over with the number it has. -/
structure SendsCopy (s s' : SubscribeStream) (c : RtpHeaderExtensionCapability)
    (packet : RtpPacket) : Prop where
  counts : Counts s s'
  extend : Extends s s' (CarriesNext s c packet packet.data)

theorem resend_sendsCopy {s : SubscribeStream} (hs : s.connectionEstablished = true)
    {p : RtpPacket} (h : p.Valid) (nowMillis : ℤ) (c : RtpHeaderExtensionCapability) :
    SendsCopy s (onSubscribeStreamTrackResendRtpPacket nowMillis c p.copy s) c p.copy := by
  have hconnected : (s.advance p.copy nowMillis).connectionEstablished = true := hs
  have heq : onSubscribeStreamTrackResendRtpPacket nowMillis c p.copy s =
      (s.advance p.copy nowMillis).handOver c p.copy (p.copy.data.take p.copy.size) := by
    rw [onSubscribeStreamTrackResendRtpPacket,if_neg (by simp [hs])]
    simp only [setTransportSequenceNumber_copy]
    rw [sendRtp,if_neg (by simp [hconnected])]
  rw [heq]
  constructor
  · exact (counts_advance s p.copy nowMillis).handOver _ _ _
  · apply (extends_handOver s nowMillis p.copy c _).iff
    rw [CarriesNext,CarriesNext,under_take (h.copy [])]
    rw [RtpPacket.size]
    omega

theorem rtx_sendsCopy {s : SubscribeStream} (hs : s.connectionEstablished = true)
    {p : RtpPacket} (h : p.Valid) (nowMillis : ℤ) (c : RtpHeaderExtensionCapability)
    (payloadType : Byte) (ssrc : BitVec 32) (sequenceNumber : BitVec 16) :
    SendsCopy s
      (onSubscribeStreamTrackSendRtxPacket nowMillis c p.copy payloadType ssrc sequenceNumber s)
      c p.copy := by
  rw [onSubscribeStreamTrackSendRtxPacket,if_neg (by simp [hs])]
  simp only [setTransportSequenceNumber_copy]
  constructor
  · exact (counts_advance s p.copy nowMillis).handOver _ _ _
  · apply (extends_handOver s nowMillis p.copy c _).iff
    rw [CarriesNext,CarriesNext,under_rtxBytes (h.copy [])]

/-- The recorder of a track holds valid packets. -/
def Recorded (t : SubscribeStreamTrack) : Prop := t.sendPacketRecorder.Holds Valid

/-- The loop over the lost numbers of a connected stream. -/
theorem foldl_resend {t : SubscribeStreamTrack} {s : SubscribeStream} (ht : Recorded t)
    (hs : s.connectionEstablished = true) (nowMillis : ℤ) (c : RtpHeaderExtensionCapability)
    (lost : List (BitVec 16)) :
    let r := lost.foldl (resend (resender nowMillis c) nowMillis) (t,s)
    Recorded r.1 ∧ r.2.ssrcTrackMap = s.ssrcTrackMap ∧
      Extends s r.2 (AlreadyNumbered s.environment.takes c s.sequence.transportSeq
        (queries nowMillis t.sendPacketRecorder lost)) := by
  induction lost generalizing t s with
  | nil => exact ⟨ht,rfl,Extends.nothing rfl rfl (Nat.le_refl _)⟩
  | cons seqNum lost ih =>
      obtain ⟨hholds,hcopy⟩ := ht.query seqNum nowMillis
      simp only [List.foldl_cons,resend,queries]
      generalize t.sendPacketRecorder.query seqNum nowMillis = q at hholds hcopy ⊢
      obtain ⟨packet,recorder⟩ := q
      cases packet with
      | none => exact ih (t := { t with sendPacketRecorder := recorder }) hholds hs
      | some packet =>
          obtain ⟨p,hp,rfl⟩ := hcopy packet rfl
          -- both ways of sending it lead to the same case
          have hsent : ∀ (t' : SubscribeStreamTrack) (s' : SubscribeStream),
              t'.sendPacketRecorder = recorder → SendsCopy s s' c p.copy →
              let r := lost.foldl (resend (resender nowMillis c) nowMillis) (t',s')
              Recorded r.1 ∧ r.2.ssrcTrackMap = s.ssrcTrackMap ∧
                Extends s r.2 (AlreadyNumbered s.environment.takes c s.sequence.transportSeq
                  (p.copy::queries nowMillis recorder lost)) := by
            intro t' s' ht' hsends
            have ht'' : Recorded t' := by
              rw [Recorded,ht']
              exact hholds
            obtain ⟨hrecorded,hmap,hextends⟩ :=
              ih ht'' (hsends.counts.connectionEstablished.trans hs)
            refine ⟨hrecorded,hmap.trans hsends.counts.ssrcTrackMap,?_⟩
            apply (hsends.extend.trans hextends).iff
            rw [ht',hsends.counts.environment,hsends.counts.transportSeq,AlreadyNumbered,
              CarriesNext]
          simp only
          split
          · exact hsent _ _ rfl (resend_sendsCopy hs hp nowMillis c)
          · exact hsent _ _ rfl (rtx_sendsCopy hs hp nowMillis c _ _ _)

/-- Without a connection nothing is counted or sent. -/
theorem foldl_resend_disconnected {t : SubscribeStreamTrack} {s : SubscribeStream}
    (ht : Recorded t) (hs : s.connectionEstablished = false) (nowMillis : ℤ)
    (c : RtpHeaderExtensionCapability) (lost : List (BitVec 16)) :
    let r := lost.foldl (resend (resender nowMillis c) nowMillis) (t,s)
    Recorded r.1 ∧ r.2 = s := by
  induction lost generalizing t with
  | nil => exact ⟨ht,rfl⟩
  | cons seqNum lost ih =>
      obtain ⟨hholds,_⟩ := ht.query seqNum nowMillis
      simp only [List.foldl_cons,resend]
      generalize t.sendPacketRecorder.query seqNum nowMillis = q at hholds ⊢
      obtain ⟨packet,recorder⟩ := q
      cases packet with
      | none => exact ih (t := { t with sendPacketRecorder := recorder }) hholds
      | some packet =>
          simp only [resender,onSubscribeStreamTrackResendRtpPacket,
            onSubscribeStreamTrackSendRtxPacket,hs,Bool.not_false,if_true]
          split
          · exact ih (t := { t with sendPacketRecorder := recorder }) hholds
          · exact ih (t := { t with
              sendPacketRecorder := recorder
              rtxSequenceNumber := t.rtxSequenceNumber+1 }) hholds

/-! ### Steps -/

/-- The recorders of all tracks hold valid packets. -/
def Tracked (s : SubscribeStream) : Prop :=
  ∀ ssrc t, s.ssrcTrackMap ssrc = some t → Recorded t

theorem Tracked.setTrack {s : SubscribeStream} (h : Tracked s) {ssrc : BitVec 32}
    {t : SubscribeStreamTrack} (ht : Recorded t) : Tracked (s.setTrack ssrc t) := by
  intro x u hu
  simp only [SubscribeStream.setTrack] at hu
  split at hu
  · rw [Option.some.injEq] at hu
    exact hu ▸ ht
  · exact h x u hu

/-- What layer selection leaves alone. -/
structure Keeps (s s' : SubscribeStream) : Prop where
  environment : s'.environment = s.environment
  sequence : s'.sequence = s.sequence
  socket : s'.socket = s.socket
  tracks : ∀ ssrc t', s'.ssrcTrackMap ssrc = some t' → ∃ t, s.ssrcTrackMap ssrc = some t ∧
    t'.configuration = t.configuration ∧ t'.sendPacketRecorder = t.sendPacketRecorder

theorem Keeps.of_eq {s s' : SubscribeStream} (he : s'.environment = s.environment)
    (hn : s'.sequence = s.sequence) (hs : s'.socket = s.socket)
    (ht : s'.ssrcTrackMap = s.ssrcTrackMap) : Keeps s s' :=
  ⟨he,hn,hs,fun _ t' h => ⟨t',by rw [← ht]; exact h,rfl,rfl⟩⟩

theorem Keeps.extends {s s' : SubscribeStream} (h : Keeps s s') : Extends s s' True :=
  Extends.nothing h.environment h.socket (Nat.le_of_eq (by rw [h.sequence]))

theorem Keeps.tracked {s s' : SubscribeStream} (h : Keeps s s') (hs : Tracked s) : Tracked s' := by
  intro ssrc t' ht'
  obtain ⟨t,ht,_,hrecorder⟩ := h.tracks ssrc t' ht'
  rw [Recorded,hrecorder]
  exact hs ssrc t ht

theorem keeps_requestFrame (s : SubscribeStream) (publisher : Option PublishStream)
    (rid : BitVec 32) : Keeps s (s.requestFrame publisher rid) := by
  rw [requestFrame_eq]
  exact .of_eq rfl rfl rfl rfl

theorem keeps_switchLayer (s : SubscribeStream) {track : SubscribeStreamTrack}
    {clonePacket : RtpPacket} (htrack : s.ssrcTrackMap clonePacket.ssrc = some track)
    (publisher : Option PublishStream) (rid : BitVec 32) :
    Keeps s (s.switchLayer publisher track clonePacket rid) := by
  rw [switchLayer]
  split
  · split
    · refine ⟨rfl,rfl,rfl,fun ssrc t' ht' => ?_⟩
      simp only [setTrack] at ht'
      split at ht'
      · rename_i hssrc
        rw [Option.some.injEq] at ht'
        rw [hssrc]
        exact ⟨track,htrack,by rw [← ht']; rfl,by rw [← ht']; rfl⟩
      · exact ⟨t',ht',rfl,rfl⟩
    · exact keeps_requestFrame s publisher _
  · exact .of_eq rfl rfl rfl rfl

/-- A packet that is passed on has the extension map of its track. -/
theorem selectPacket_spec (s : SubscribeStream) (publisher : Option PublishStream)
    {rtpPacket : RtpPacket} (h : rtpPacket.Valid) (behind : List Byte) :
    Keeps s (s.selectPacket publisher rtpPacket behind).1 ∧
      ∀ clonePacket, (s.selectPacket publisher rtpPacket behind).2 = some clonePacket →
        clonePacket.Valid ∧ ∀ track,
          (s.selectPacket publisher rtpPacket behind).1.ssrcTrackMap clonePacket.ssrc = some track →
          clonePacket.extensionCapability = track.configuration.extensionCapability := by
  have hfrom (track : SubscribeStreamTrack) (rid : BitVec 32)
      (htrack : s.ssrcTrackMap rtpPacket.ssrc = some track) : Keeps s
        (switchLayer { s with dataReceived := true } publisher track
          (track.clone rtpPacket behind) rid) := by
    have hkeeps := @keeps_switchLayer { s with dataReceived := true } track
      (track.clone rtpPacket behind) htrack publisher rid
    exact ⟨hkeeps.environment,hkeeps.sequence,hkeeps.socket,hkeeps.tracks⟩
  have hselects := selectPacket_selects s publisher rtpPacket behind
  generalize s.selectPacket publisher rtpPacket behind = r at hselects ⊢
  cases hselects with
  | closed _ => exact ⟨.of_eq rfl rfl rfl rfl,fun _ hp => nomatch hp⟩
  | waiting _ _ => exact ⟨keeps_requestFrame s publisher 0,fun _ hp => nomatch hp⟩
  | unknown _ => exact ⟨.of_eq rfl rfl rfl rfl,fun _ hp => nomatch hp⟩
  | @plain track htrack _ =>
      refine ⟨.of_eq rfl rfl rfl rfl,fun clonePacket hp => ?_⟩
      rw [← Option.some.inj hp]
      refine ⟨valid_clone track h behind,fun track' htrack' => ?_⟩
      rw [← Option.some.inj (htrack.symm.trans htrack')]
      rfl
  | @dropped track rid _ htrack _ hs' _ =>
      have hkeeps := hfrom track rid htrack
      rw [← hs'] at hkeeps
      exact ⟨hkeeps,fun _ hp => nomatch hp⟩
  | @selected track rid s' htrack _ hs' _ =>
      have hkeeps := hfrom track rid htrack
      rw [← hs'] at hkeeps
      refine ⟨hkeeps,fun clonePacket hp => ?_⟩
      rw [← Option.some.inj hp]
      refine ⟨(valid_clone track h behind).setTimestamp _,fun track' htrack' => ?_⟩
      obtain ⟨t,ht,hconfiguration,_⟩ := hkeeps.tracks rtpPacket.ssrc track' htrack'
      rw [hconfiguration,← Option.some.inj (htrack.symm.trans ht)]
      rfl

theorem forward_spec {s : SubscribeStream} (hs : Tracked s) {clonePacket : RtpPacket}
    (h : clonePacket.Valid) (hcapability : ∀ track, s.ssrcTrackMap clonePacket.ssrc = some track →
      clonePacket.extensionCapability = track.configuration.extensionCapability)
    (nowMillis : ℤ) :
    Tracked (s.forward clonePacket nowMillis) ∧
      Extends s (s.forward clonePacket nowMillis) True := by
  rw [forward]
  cases htrack : s.ssrcTrackMap clonePacket.ssrc with
  | none => exact ⟨hs,Extends.nothing rfl rfl (Nat.le_refl _)⟩
  | some track =>
      simp only [sendRtpPacket,← hcapability track htrack]
      have hvalid := h.setSequenceNumber (track.baseRtpSeq+clonePacket.sequenceNumber)
      have hextends := extends_send (s := s) hvalid nowMillis
      have hcounts := counts_send s nowMillis clonePacket.extensionCapability
        (clonePacket.setSequenceNumber (track.baseRtpSeq+clonePacket.sequenceNumber))
      constructor
      · apply Tracked.setTrack
        · intro ssrc t ht
          rw [hcounts.ssrcTrackMap] at ht
          exact hs ssrc t ht
        · rw [Recorded]
          split
          · exact (hs _ track htrack).record (hvalid.setTransportSequenceNumber _) nowMillis
          · exact hs _ track htrack
      · exact ⟨hextends.environment,hextends.sent⟩

theorem receiveNack_spec {s : SubscribeStream} (hs : Tracked s) (mediaSsrc : BitVec 32)
    (lost : List (BitVec 16)) (nowMillis : ℤ) :
    Tracked (s.receiveNack mediaSsrc lost nowMillis) ∧
      Extends s (s.receiveNack mediaSsrc lost nowMillis)
        (ResendsNumbered s (.receiveNack mediaSsrc lost nowMillis)) := by
  rw [SubscribeStream.receiveNack,ResendsNumbered]
  have hnothing : Extends s s True := Extends.nothing rfl rfl (Nat.le_refl _)
  cases htrack : s.ssrcTrackMap mediaSsrc with
  | none => exact ⟨hs,hnothing.iff (by simp)⟩
  | some track =>
      simp only [SubscribeStreamTrack.receiveNack]
      cases hnack : track.configuration.nackEnabled with
      | false =>
          have hset : Extends s (s.setTrack mediaSsrc track) True :=
            Extends.nothing rfl rfl (Nat.le_refl _)
          exact ⟨hs.setTrack (hs _ track htrack),hset.iff (by simp [hnack])⟩
      | true =>
          rw [if_neg (by simp)]
          cases hconnected : s.connectionEstablished with
          | false =>
              obtain ⟨hrecorded,hsame⟩ := foldl_resend_disconnected (hs _ track htrack) hconnected
                nowMillis track.configuration.extensionCapability lost
              refine ⟨?_,?_⟩
              · rw [hsame]
                exact hs.setTrack hrecorded
              · rw [hsame]
                have hset : Extends s (s.setTrack mediaSsrc (lost.foldl (resend (resender nowMillis
                    track.configuration.extensionCapability) nowMillis) (track,s)).1) True :=
                  Extends.nothing rfl rfl (Nat.le_refl _)
                exact hset.iff (by simp)
          | true =>
              obtain ⟨hrecorded,hmap,hextends⟩ := foldl_resend (hs _ track htrack) hconnected
                nowMillis track.configuration.extensionCapability lost
              constructor
              · apply Tracked.setTrack _ hrecorded
                intro ssrc t ht
                rw [hmap] at ht
                exact hs ssrc t ht
              · have hset : Extends s (setTrack (lost.foldl (resend (resender nowMillis
                    track.configuration.extensionCapability) nowMillis) (track,s)).2 mediaSsrc
                    (lost.foldl (resend (resender nowMillis
                      track.configuration.extensionCapability) nowMillis) (track,s)).1) _ :=
                  ⟨hextends.environment,hextends.sent⟩
                apply hset.iff
                simp [hnack]

theorem step_spec {s : SubscribeStream} (hs : Tracked s) (e : Event) :
    Tracked (step s e) ∧ Extends s (step s e) (ResendsNumbered s e) := by
  cases e with
  | dtlsTransportSetup =>
      exact ⟨hs,Extends.nothing rfl rfl (Nat.le_refl _)⟩
  | receivePublishStreamRtpPacket publisher rtpPacket behind nowMillis =>
      obtain ⟨hkeeps,hpacket⟩ := selectPacket_spec s publisher rtpPacket.2 behind
      rw [step,receivePublishStreamRtpPacket]
      generalize s.selectPacket publisher rtpPacket behind = r at hkeeps hpacket ⊢
      obtain ⟨s',clonePacket⟩ := r
      cases clonePacket with
      | none => exact ⟨hkeeps.tracked hs,hkeeps.extends⟩
      | some clonePacket =>
          obtain ⟨hvalid,hcapability⟩ := hpacket clonePacket rfl
          obtain ⟨htracked,hextends⟩ :=
            forward_spec (hkeeps.tracked hs) hvalid hcapability nowMillis
          exact ⟨htracked,(hkeeps.extends.trans hextends).iff (by simp [ResendsNumbered])⟩
  | setSimulcastLayer publisher rid =>
      have hkeeps : Keeps s (s.setSimulcastLayer publisher rid) := by
        unfold SubscribeStream.setSimulcastLayer
        split
        · exact .of_eq rfl rfl rfl rfl
        split
        · exact .of_eq rfl rfl rfl rfl
        cases publisher with
        | none => exact .of_eq rfl rfl rfl rfl
        | some p =>
            simp only
            split
            · exact .of_eq rfl rfl rfl rfl
            · exact .of_eq rfl rfl rfl rfl
      exact ⟨hkeeps.tracked hs,hkeeps.extends⟩
  | receiveNack mediaSsrc lostPackets nowMillis =>
      exact receiveNack_spec hs mediaSsrc lostPackets nowMillis
  | receiveReceiverReport mediaSsrc rttMillis nowMillis =>
      rw [step,SubscribeStream.receiveReceiverReport]
      cases htrack : s.ssrcTrackMap mediaSsrc with
      | none => exact ⟨hs,Extends.nothing rfl rfl (Nat.le_refl _)⟩
      | some track =>
          exact ⟨hs.setTrack ((hs _ track htrack).setRtt rttMillis nowMillis),
            Extends.nothing rfl rfl (Nat.le_refl _)⟩
  | receiveTransportFeedback feedback =>
      exact ⟨hs,Extends.nothing rfl rfl (Nat.le_refl _)⟩

/-! ### Runs -/

theorem tracked_start (environment : Environment)
    (configurations : BitVec 32 → Option Configuration) :
    Tracked (start environment configurations) := by
  intro ssrc t ht
  simp only [start,Option.map_eq_some_iff] at ht
  obtain ⟨c,_,rfl⟩ := ht
  exact SendPacketRecorder.holds_empty _

theorem run_extends {s : SubscribeStream} (hs : Tracked s) (es : List Event) :
    Extends s (run step s es)
      (Along (fun before e => ResendsNumbered (run step s before) e) es) := by
  induction es using List.reverseRecOn with
  | nil => exact (Extends.nothing rfl rfl (Nat.le_refl _)).iff (by simp [along_nil])
  | append_singleton es e ih =>
      rw [run_snoc]
      have htracked := run_invariant hs (fun s e h => (step_spec h e).1) es
      exact (ih.trans (step_spec htracked e).2).iff along_snoc.symm

/-- All packets carry the numbers recorded for them, and so differ from each other,
exactly if no event sends a packet again that has another number in it. -/
theorem run_carries_iff (environment : Environment)
    (configurations : BitVec 32 → Option Configuration) (es : List Event) :
    ((∀ t ∈ (run step (start environment configurations) es).socket, Carries t) ∧
      ∀ t ∈ (run step (start environment configurations) es).socket,
        ∀ u ∈ (run step (start environment configurations) es).socket, Distinct t u) ↔
      Along (fun before e =>
        ResendsNumbered (run step (start environment configurations) before) e) es := by
  obtain ⟨ts,hts,hnumbered,hcarries⟩ :=
    (run_extends (tracked_start environment configurations) es).sent
  have hsocket : (run step (start environment configurations) es).socket = ts := hts
  rw [hsocket,← hcarries]
  constructor
  · exact And.left
  · intro h
    refine ⟨h,fun t ht u hu hlt hnear n m hn hm heq => ?_⟩
    have ht' := h t ht n hn
    have hu' := h u hu m hm
    rw [heq,hu',hnumbered.recorded t ht,hnumbered.recorded u hu,← BitVec.toNat_inj,
      BitVec.toNat_ofNat,BitVec.toNat_ofNat] at ht'
    omega

/-- A VP8 key frame with number 1 and room for a transport-wide number under id 3. -/
def keyFrame : RtpPacket where
  marker := false
  payloadType := 96
  paddingSize := 0
  sequenceNumber := 1
  timestamp := 0
  ssrc := 1
  payloadOffset := 20
  payloadSize := 11
  extensionEntries := [⟨3,2,17,1⟩]
  extensionsSize := 3
  data := [0x90,96,0,1,0,0,0,0,0,0,0,1,0xBE,0xDE,0,1,0x31,0,0,0,0x10,0,0,0,0,0,0,0,0,0,0]
  payloadInfo := ⟨true⟩

theorem keyFrame_valid : keyFrame.Valid := ⟨by decide,by decide,by decide⟩

/-- The packet is parsed from its bytes. -/
example : (create keyFrame.data).map (fun p => { p with payloadInfo := ⟨true⟩ }) =
    some keyFrame := by decide

/-- The key frame is sent and asked for again: the second time it still carries
number 1, while number 2 is recorded. -/
theorem not_run_carries : ¬∀ environment configurations es,
    ((∀ t ∈ (run step (start environment configurations) es).socket, Carries t) ∧
      ∀ t ∈ (run step (start environment configurations) es).socket,
        ∀ u ∈ (run step (start environment configurations) es).socket, Distinct t u) := by
  intro h
  have hcarries := (h ⟨fun _ => true,fun _ _ => 0⟩
    (fun ssrc => if ssrc = 1 then
      some { nackEnabled := true, extensionCapability := ⟨[(.transportSequenceNumber,3)]⟩ }
      else none)
    [.dtlsTransportSetup,.receivePublishStreamRtpPacket none ⟨keyFrame,keyFrame_valid⟩ [] 1000,
      .receiveNack 1 [1] 1010]).1
  have hsecond := hcarries _ (List.mem_of_getElem? (i := 1) rfl) 1 (by decide)
  exact absurd hsecond (by decide)

end Ylrtc.CarriedNumbers
