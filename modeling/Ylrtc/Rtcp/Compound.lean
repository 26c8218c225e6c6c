import Ylrtc.Rtcp.FeedbackReads
import Ylrtc.Rtcp.Packets
import Mathlib.Data.List.Chain

/-!
# Compound RTCP packets

`RtcpCompound::Parse` of `rtp_rtcp/rtcp_packet.cpp`. Each packet is parsed where
the previous parser has stopped. The declared lengths are followed only as far
as every parser happens to follow its own.
-/
namespace Ylrtc.RtcpCompound
open CursorParser FeedbackBuilder RtcpHeader RtcpPackets

inductive RtcpPacket where
  | base (header : RtcpCommonHeader)
  | senderReport (packet : SenderReportPacket)
  | receiverReport (packet : ReceiverReportPacket)
  | nack (packet : NackPacket)
  | transportFeedback (fb : TransportFeedback)
  | xr (packet : XrPacket)

/-- One round of the loop: the object that the header asks for, and its `Parse`. -/
def parsePacket (header : RtcpCommonHeader) : Parser RtcpPacket :=
  if header.packetType = kRtcpTypeRtpfb then
    if header.countOrFormat = kNack then do
      let packet ← NackPacket.parse
      return .nack packet
    else if header.countOrFormat = kTwcc then do
      let fb ← FeedbackWire.parse { includeTimestamps := true, includeLost := true }
      return .transportFeedback fb
    else do
      let header ← parseBase
      return .base header
  else if header.packetType = kRtcpTypeRr then do
    let packet ← ReceiverReportPacket.parse
    return .receiverReport packet
  else if header.packetType = kRtcpTypeXr then do
    let packet ← XrPacket.parse
    return .xr packet
  else if header.packetType = kRtcpTypeSr then do
    let packet ← SenderReportPacket.parse
    return .senderReport packet
  else do
    let header ← parseBase
    return .base header

/-- An entry of `rtcps_`, with the offset at which its parser started and the
offsets of the bytes that parser has read. -/
structure ParsedPacket where
  offset : ℕ
  packet : RtcpPacket
  touched : List ℕ

/-- The loop, from the reader's position on. A packet takes at least four bytes. -/
def parseFrom (b : Region) : ℕ → ℕ → Bool × List ParsedPacket
  | 0,_ => (false,[])
  | fuel+1,start =>
      if 2 ≤ b.size - start then
        match (parsePacket (headerAt b start)).run b ⟨start,[]⟩ with
        | (none,_) => (false,[])
        | (some packet,c) =>
            let rest := parseFrom b fuel c.start
            (rest.1,⟨start,packet,c.touched⟩::rest.2)
      else (true,[])

def parse (b : Region) : Bool × List ParsedPacket := parseFrom b (b.size+1) 0

/-- The packets tile the buffer by their declared lengths, and no parser has
read a byte of another packet. -/
structure Tiles (b : Region) (start : ℕ) (ps : List ParsedPacket) : Prop where
  first : ∀ p ∈ ps.head?, p.offset = start
  next : ps.IsChain fun p q => q.offset = p.offset+(headerAt b p.offset).declaredSize
  inside : ∀ p ∈ ps, p.offset+(headerAt b p.offset).declaredSize ≤ b.size
  own : ∀ p ∈ ps, ∀ i ∈ p.touched,
    p.offset ≤ i ∧ i < p.offset+(headerAt b p.offset).declaredSize

/-- The packet at an offset declares the length that its parser moves by: a
sender report without report blocks, a receiver report of its count of blocks,
an XR packet whose blocks have the sizes in which they are read. -/
structure Fits (b : Region) (k : ℕ) : Prop where
  sr : (headerAt b k).packetType = kRtcpTypeSr → (headerAt b k).length.toNat = 6
  rr : (headerAt b k).packetType = kRtcpTypeRr →
    (headerAt b k).length.toNat = 6*(headerAt b k).countOrFormat.toNat+1
  xr : (headerAt b k).packetType = kRtcpTypeXr → 1 ≤ (headerAt b k).length.toNat ∧
    XrPacket.Blocks b (k+8) (4*(headerAt b k).length.toNat-4) (4*(headerAt b k).length.toNat-4)

/-- The declared lengths from an offset on lead to the end of the buffer, over
packets that fit them. -/
inductive WellFramed (b : Region) : ℕ → Prop where
  | done {k : ℕ} (last : b.size - k < 2) : WellFramed b k
  | packet {k : ℕ} (inside : k+(headerAt b k).declaredSize ≤ b.size) (fits : Fits b k)
      (rest : WellFramed b (k+(headerAt b k).declaredSize)) : WellFramed b k

theorem tiles_nil (b : Region) (start : ℕ) : Tiles b start [] :=
  ⟨by simp,.nil,by simp,by simp⟩

theorem tiles_cons {b : Region} {start : ℕ} {p : ParsedPacket} {ps : List ParsedPacket}
    (hoffset : p.offset = start) :
    Tiles b start (p::ps) ↔ start+(headerAt b start).declaredSize ≤ b.size ∧
      Cursor.Within start (start+(headerAt b start).declaredSize) ⟨start,p.touched⟩ ∧
      Tiles b (start+(headerAt b start).declaredSize) ps := by
  subst hoffset
  constructor
  · rintro ⟨_,hnext,hinside,hown⟩
    rw [List.isChain_cons] at hnext
    exact ⟨hinside p List.mem_cons_self,hown p List.mem_cons_self,hnext.1,hnext.2,
      fun q hq => hinside q (List.mem_cons_of_mem p hq),
      fun q hq => hown q (List.mem_cons_of_mem p hq)⟩
  · rintro ⟨hinside,hown,hfirst,hnext,hrest,hrestOwn⟩
    refine ⟨by simp,List.isChain_cons.mpr ⟨hfirst,hnext⟩,?_,?_⟩
    · intro q hq
      rcases List.mem_cons.mp hq with rfl | hq
      · exact hinside
      · exact hrest q hq
    · intro q hq
      rcases List.mem_cons.mp hq with rfl | hq
      · exact hown
      · exact hrestOwn q hq

/-- What one accepted packet says about its length. -/
structure Accepted (b : Region) (k : ℕ) (c : Cursor) : Prop where
  moved : k+4 ≤ c.start
  inside : c.start ≤ b.size
  of_fits : k+(headerAt b k).declaredSize ≤ b.size → Fits b k →
    c.start = k+(headerAt b k).declaredSize ∧ c.Within k (k+(headerAt b k).declaredSize)
  fits : k+(headerAt b k).declaredSize ≤ b.size →
    c.Within k (k+(headerAt b k).declaredSize) →
    c.start = k+(headerAt b k).declaredSize ∨ b.size - c.start < 2 → Fits b k

/-- A parser that moves over a number of words and reads the last byte of them.
Less than a word is left behind the last packet, so it cannot have stopped
short of its declared end. -/
theorem accepted_of_consumes {b : Region} {k n : ℕ} {c : Cursor} (hk : k ≤ b.size)
    (h : Consumes b n ⟨k,[]⟩ c) (hdvd : 4 ∣ n) (hn : 4 ≤ n)
    (hfits : Fits b k ↔ n = (headerAt b k).declaredSize) : Accepted b k c := by
  have hstart : c.start = k+n := h.start
  constructor
  · omega
  · exact h.inside hk
  · intro hinside hf
    rw [← hfits.mp hf]
    exact ⟨hstart,h.within_start⟩
  · intro hinside hown hend
    have hlast := hown _ (h.last (by omega))
    rw [hfits]
    simp only [RtcpCommonHeader.declaredSize] at hinside hlast hend ⊢
    omega

theorem accepted_base {b : Region} {k : ℕ} {c : Cursor} {p : RtcpCommonHeader} (hf : Fits b k)
    (h : parseBase.run b ⟨k,[]⟩ = (some p,c)) : Accepted b k c := by
  obtain ⟨hsize,hstart,d,hd,htouched⟩ := parseBase_spec h
  simp only at hsize hstart
  have hfour : 4 ≤ (headerAt b k).declaredSize := Nat.le_mul_of_pos_right 4 (Nat.succ_pos _)
  have hw := hd.within_start.mono (Nat.le_refl k) (Nat.add_le_add_left hfour k)
  exact ⟨by omega,by omega,fun _ _ => ⟨hstart,fun i hi => hw i (htouched ▸ hi)⟩,fun _ _ _ => hf⟩

theorem fits_of_ne {b : Region} {k : ℕ} (hsr : (headerAt b k).packetType ≠ kRtcpTypeSr)
    (hrr : (headerAt b k).packetType ≠ kRtcpTypeRr)
    (hxr : (headerAt b k).packetType ≠ kRtcpTypeXr) : Fits b k :=
  ⟨fun h => absurd h hsr,fun h => absurd h hrr,fun h => absurd h hxr⟩

theorem accepted_feedback {b : Region} {k : ℕ} {c : Cursor} {fb fb' : TransportFeedback}
    (hf : Fits b k) (h : (FeedbackWire.parse fb).run b ⟨k,[]⟩ = (some fb',c)) : Accepted b k c := by
  obtain ⟨hw,hmoved,hinside,hend⟩ := FeedbackWire.parse_bounds h
  exact ⟨by omega,hinside,fun hsize _ => ⟨hend hsize,hw⟩,fun _ _ _ => hf⟩

theorem accepted_senderReport {b : Region} {k : ℕ} {c : Cursor} {p : SenderReportPacket}
    (hk : k ≤ b.size) (htype : (headerAt b k).packetType = kRtcpTypeSr)
    (h : SenderReportPacket.parse.run b ⟨k,[]⟩ = (some p,c)) : Accepted b k c := by
  refine accepted_of_consumes hk (SenderReportPacket.parse_reads h) ⟨7,rfl⟩ (by omega) ⟨?_,?_⟩
  · intro hf
    rw [RtcpCommonHeader.declaredSize,hf.sr htype]
  · intro hsize
    rw [RtcpCommonHeader.declaredSize] at hsize
    refine ⟨fun _ => by omega,fun h' => ?_,fun h' => ?_⟩
    · exact absurd (htype.symm.trans h') (by decide)
    · exact absurd (htype.symm.trans h') (by decide)

theorem accepted_receiverReport {b : Region} {k : ℕ} {c : Cursor} {p : ReceiverReportPacket}
    (hk : k ≤ b.size) (htype : (headerAt b k).packetType = kRtcpTypeRr)
    (h : ReceiverReportPacket.parse.run b ⟨k,[]⟩ = (some p,c)) : Accepted b k c := by
  have hc := ReceiverReportPacket.parse_consumes h
  simp only at hc
  refine accepted_of_consumes hk hc (by omega) (by omega) ⟨?_,?_⟩
  · intro hf
    rw [RtcpCommonHeader.declaredSize,hf.rr htype]
    omega
  · intro hsize
    rw [RtcpCommonHeader.declaredSize] at hsize
    refine ⟨fun h' => ?_,fun _ => by omega,fun h' => ?_⟩
    · exact absurd (htype.symm.trans h') (by decide)
    · exact absurd (htype.symm.trans h') (by decide)

theorem accepted_xr {b : Region} {k : ℕ} {c : Cursor} {p : XrPacket} (hk : k ≤ b.size)
    (htype : (headerAt b k).packetType = kRtcpTypeXr)
    (h : XrPacket.parse.run b ⟨k,[]⟩ = (some p,c)) : Accepted b k c := by
  obtain ⟨size,hblocks,hlength,hc⟩ := XrPacket.parse_consumes h
  simp only at hblocks hlength
  have hdvd := hblocks.dvd
  refine accepted_of_consumes hk hc (by omega) (by omega) ⟨?_,?_⟩
  · intro hf
    rw [RtcpCommonHeader.declaredSize,hblocks.unique (hf.xr htype).2]
    omega
  · intro hsize
    rw [RtcpCommonHeader.declaredSize] at hsize
    have hsame : size = 4*(headerAt b k).length.toNat-4 := by omega
    rw [hsame] at hblocks
    refine ⟨fun h' => ?_,fun h' => ?_,fun _ => ⟨hlength,hblocks⟩⟩
    · exact absurd (htype.symm.trans h') (by decide)
    · exact absurd (htype.symm.trans h') (by decide)

theorem accepted_nack {b : Region} {k : ℕ} {c : Cursor} {p : NackPacket} (hk : k ≤ b.size)
    (hf : Fits b k) (h : NackPacket.parse.run b ⟨k,[]⟩ = (some p,c)) : Accepted b k c :=
  accepted_of_consumes hk (NackPacket.parse_consumes h) (Nat.dvd_mul_right 4 _)
    (Nat.le_mul_of_pos_right 4 (Nat.succ_pos _)) ⟨fun _ => rfl,fun _ => hf⟩

/-- Inversion of a round: the value is wrapped, the cursor is the parser's own. -/
theorem wrap_eq_some {α : Type} {p : Parser α} {f : α → RtcpPacket} {b : Region} {c c' : Cursor}
    {packet : RtcpPacket} (h : (p >>= fun a => pure (f a)).run b c = (some packet,c')) :
    ∃ a, p.run b c = (some a,c') := by
  obtain ⟨a,d,ha,h⟩ := Parser.bind_eq_some h
  obtain ⟨_,rfl⟩ := Parser.pure_eq_some h
  exact ⟨a,ha⟩

theorem parsePacket_accepted {b : Region} {k : ℕ} {c : Cursor} {packet : RtcpPacket}
    (hk : k ≤ b.size) (h : (parsePacket (headerAt b k)).run b ⟨k,[]⟩ = (some packet,c)) :
    Accepted b k c := by
  unfold parsePacket at h
  split at h
  · rename_i htype
    have hf : Fits b k := by
      apply fits_of_ne <;> rw [htype] <;> decide
    split at h
    · obtain ⟨p,hp⟩ := wrap_eq_some h
      exact accepted_nack hk hf hp
    split at h
    · obtain ⟨fb,hp⟩ := wrap_eq_some h
      exact accepted_feedback hf hp
    · obtain ⟨p,hp⟩ := wrap_eq_some h
      exact accepted_base hf hp
  split at h
  · obtain ⟨p,hp⟩ := wrap_eq_some h
    exact accepted_receiverReport hk ‹_› hp
  split at h
  · obtain ⟨p,hp⟩ := wrap_eq_some h
    exact accepted_xr hk ‹_› hp
  split at h
  · obtain ⟨p,hp⟩ := wrap_eq_some h
    exact accepted_senderReport hk ‹_› hp
  · obtain ⟨p,hp⟩ := wrap_eq_some h
    exact accepted_base (fits_of_ne ‹_› ‹_› ‹_›) hp

/-- As many rounds as there are bytes left are enough. -/
theorem parseFrom_fuel {b : Region} {m n start : ℕ} (hstart : start ≤ b.size)
    (hm : b.size - start < m) (hn : b.size - start < n) :
    parseFrom b m start = parseFrom b n start := by
  induction m generalizing n start with
  | zero => omega
  | succ m ih =>
      cases n with
      | zero => omega
      | succ n =>
          rw [parseFrom,parseFrom]
          split
          · cases hp : (parsePacket (headerAt b start)).run b ⟨start,[]⟩ with
            | mk packet c =>
                cases packet with
                | none => rfl
                | some packet =>
                    have ha := parsePacket_accepted hstart hp
                    have hmoved := ha.moved
                    have hrest : parseFrom b m c.start = parseFrom b n c.start :=
                      ih ha.inside (by omega) (by omega)
                    simp only [hrest]
          · rfl

theorem parseFrom_head {b : Region} {fuel start : ℕ} :
    ∀ p ∈ (parseFrom b fuel start).2.head?, p.offset = start := by
  cases fuel with
  | zero => simp [parseFrom]
  | succ fuel =>
      rw [parseFrom]
      split
      · split
        · simp
        · simp
      · simp

/-- A loop that accepts without a packet has less than a header's type left. -/
theorem parseFrom_nil {b : Region} {fuel start : ℕ} (h : (parseFrom b fuel start).1 = true)
    (hnil : (parseFrom b fuel start).2 = []) : b.size - start < 2 := by
  cases fuel with
  | zero => simp [parseFrom] at h
  | succ fuel =>
      rw [parseFrom] at h hnil
      split at h
      · rename_i hleft
        rw [if_pos hleft] at hnil
        split at h
        · simp at h
        · rename_i hp
          rw [hp] at hnil
          simp at hnil
      · omega

/-- Along the loop, by induction on the rounds. Where the packets tile the buffer
each parser has stopped where the next packet starts, or less than a header's
type before the end. -/
theorem parseFrom_tiles_iff {b : Region} {fuel start : ℕ} (hstart : start ≤ b.size)
    (h : (parseFrom b fuel start).1 = true) :
    Tiles b start (parseFrom b fuel start).2 ↔ WellFramed b start := by
  induction fuel generalizing start with
  | zero => simp [parseFrom] at h
  | succ fuel ih =>
      rw [parseFrom] at h ⊢
      by_cases hleft : 2 ≤ b.size - start
      · rw [if_pos hleft] at h ⊢
        cases hp : (parsePacket (headerAt b start)).run b ⟨start,[]⟩ with
        | mk packet c =>
            cases packet with
            | none => simp [hp] at h
            | some packet =>
                simp only [hp] at h ⊢
                have ha := parsePacket_accepted hstart hp
                have hrest := ih ha.inside h
                rw [tiles_cons (p := ⟨start,packet,c.touched⟩) rfl]
                constructor
                · rintro ⟨hinside,hown,htiles⟩
                  have hstop : c.start = start+(headerAt b start).declaredSize ∨
                      b.size - c.start < 2 := by
                    cases hps : (parseFrom b fuel c.start).2 with
                    | nil => exact .inr (parseFrom_nil h hps)
                    | cons q qs =>
                        have hq : q ∈ (parseFrom b fuel c.start).2.head? := by rw [hps]; rfl
                        exact .inl ((parseFrom_head q hq).symm.trans (htiles.first q hq))
                  have hf := ha.fits hinside hown hstop
                  rw [(ha.of_fits hinside hf).1] at hrest htiles
                  exact .packet hinside hf (hrest.mp htiles)
                · intro hwell
                  cases hwell with
                  | done last => omega
                  | packet hinside hf rest =>
                      obtain ⟨hc,hown⟩ := ha.of_fits hinside hf
                      rw [← hc] at rest
                      have htiles := hrest.mpr rest
                      rw [hc] at htiles ⊢
                      exact ⟨hinside,hown,htiles⟩
      · rw [if_neg hleft]
        exact ⟨fun _ => .done (by omega),fun _ => tiles_nil b start⟩

/-- The packets of an accepted buffer tile it exactly when their declared
lengths frame it and each packet fits the length it declares. -/
theorem parse_tiles_iff (b : Region) (h : (parse b).1 = true) :
    Tiles b 0 (parse b).2 ↔ WellFramed b 0 :=
  parseFrom_tiles_iff (Nat.zero_le b.size) h

/-- A receiver report with one block, a NACK of two numbers, an extended report with an RRTR block
and a sender report. -/
def fourPackets : Region :=
  .ofList ([0x81,201,0,7,0,0,0,7]++List.replicate 24 1++
    [0x81,205,0,4,0,0,0,7,0,0,0,8,0,5,0,3,1,0,0,0]++
    [0x80,207,0,4,0,0,0,7,4,0,0,2,0,0,0,1,0,0,0,2]++
    [0x80,200,0,6,0,0,0,7]++List.replicate 20 2) (fun _ => 0) (by decide)

theorem parse_tiles_iff_fourPackets :
    Tiles fourPackets 0 (parse fourPackets).2 ↔ WellFramed fourPackets 0 :=
  parse_tiles_iff fourPackets (by decide +kernel)

/-- A sender report with one report block, whose first word looks like the
header of an application packet of 24 bytes. -/
def reportWithBlock : Region :=
  .ofList ([0x81,200,0,12]++List.replicate 24 0++[0x80,204,0,5]++List.replicate 20 0) (fun _ => 0)
    (by decide)

theorem parse_reportWithBlock : (parse reportWithBlock).1 = true ∧
    (parse reportWithBlock).2.map ParsedPacket.offset = [0,28] := by
  decide +kernel

/-- The report block is taken for a packet of its own. -/
theorem not_parse_tiles : ¬ ∀ b : Region, (parse b).1 = true → Tiles b 0 (parse b).2 := by
  intro h
  have htiles := h reportWithBlock parse_reportWithBlock.1
  have hoffsets := parse_reportWithBlock.2
  cases hps : (parse reportWithBlock).2 with
  | nil => simp [hps] at hoffsets
  | cons p ps =>
      cases ps with
      | nil => simp [hps] at hoffsets
      | cons q qs =>
          rw [hps] at htiles hoffsets
          simp only [List.map_cons,List.cons.injEq] at hoffsets
          have hnext := (List.isChain_cons_cons.mp htiles.next).1
          rw [hoffsets.1,hoffsets.2.1] at hnext
          revert hnext
          decide

end Ylrtc.RtcpCompound
