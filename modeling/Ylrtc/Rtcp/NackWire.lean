import Mathlib.Data.List.Chain
import Ylrtc.Rtcp.ReportWire

/-!
# NACK lists on the wire

The greedy packing of `NackPacket::Serialize` against the unpacking of `Parse`: every list
comes back as the same set, and a list in order comes back as it was.
-/
namespace Ylrtc.RtcpPackets
open ByteBuffer ByteWriter CursorParser RtcpHeader

/-- The numbers of one item, as `Parse` lists them. -/
def PackedNack.unpack (item : PackedNack) : List (BitVec 16) :=
  item.firstPid::maskedLost 16 (item.firstPid+1) item.bitmask

theorem PackedNack.parses (item : PackedNack) :
    Parses NackPacket.parseItem item.layout item.unpack :=
  (readUInt16_parses _).bind <| (readUInt16_parses _).map _

/-! ### Masks -/

/-- The bits of a mask, lowest first. -/
def maskBits (mask : BitVec 16) : List ℕ := (List.range 16).filter mask.getLsbD

theorem maskedLost_eq (n : ℕ) (pid mask : BitVec 16) :
    maskedLost n pid mask =
      ((List.range n).filter mask.getLsbD).map fun i => pid + BitVec.ofNat 16 i := by
  induction n generalizing pid mask with
  | zero => rfl
  | succ n ih =>
      rw [maskedLost]
      by_cases hzero : mask = 0
      · have hbits : (List.range (n+1)).filter mask.getLsbD = [] := by
          rw [List.filter_eq_nil_iff]
          intro i _
          rw [hzero]
          simp
        rw [if_pos hzero,hbits]
        rfl
      · have hshift : (mask >>> 1).getLsbD = mask.getLsbD ∘ Nat.succ := by
          funext i
          rw [BitVec.getLsbD_ushiftRight,Nat.add_comm,Function.comp_apply]
        have hpid : (fun i => pid+1+BitVec.ofNat 16 i) =
            (fun i => pid+BitVec.ofNat 16 i) ∘ Nat.succ := by
          funext i
          rw [Function.comp_apply,Nat.succ_eq_one_add,BitVec.ofNat_add,BitVec.add_assoc]
          rfl
        rw [if_neg hzero,ih,hshift,hpid,← List.map_map,← List.filter_map,
          List.range_succ_eq_map,List.filter_cons]
        cases mask.getLsbD 0 with
        | false => rfl
        | true => simp

theorem PackedNack.unpack_eq (item : PackedNack) :
    item.unpack = item.firstPid::(maskBits item.bitmask).map fun i =>
      item.firstPid + 1 + BitVec.ofNat 16 i := by
  rw [unpack,maskedLost_eq]
  rfl

theorem getLsbD_setBit (mask : BitVec 16) {k : ℕ} (hk : k < 16) (i : ℕ) :
    (mask ||| 1#16 <<< k).getLsbD i = (mask.getLsbD i || decide (i = k)) := by
  rw [BitVec.getLsbD_or,BitVec.getLsbD_shiftLeft,BitVec.getLsbD_one]
  congr 1
  rw [Bool.eq_iff_iff]
  simp only [Bool.and_eq_true,Bool.not_eq_true',decide_eq_true_eq,decide_eq_false_iff_not]
  omega

/-- A new bit above all others is the last. -/
theorem maskBits_setBit {mask : BitVec 16} {k : ℕ} (hk : k < 16)
    (habove : ∀ i, k ≤ i → mask.getLsbD i = false) :
    maskBits (mask ||| 1#16 <<< k) = maskBits mask ++ [k] := by
  have hsplit : List.range 16 = List.range k ++ k::List.range' (k+1) (15-k) := by
    have hrange := List.range'_append_1 (s := 0) (m := k) (n := 16-k)
    rw [Nat.zero_add,Nat.add_sub_of_le hk.le] at hrange
    rw [List.range_eq_range',List.range_eq_range',← hrange,show 16-k = 15-k+1 by omega,
      List.range'_succ]
  have hlow : (List.range k).filter (mask ||| 1#16 <<< k).getLsbD =
      (List.range k).filter mask.getLsbD := by
    apply List.filter_congr
    intro i hi
    have hne : i ≠ k := (List.mem_range.mp hi).ne
    rw [getLsbD_setBit mask hk,decide_eq_false hne,Bool.or_false]
  have hhigh : ∀ m : BitVec 16, (∀ i, k < i → m.getLsbD i = false) →
      (List.range' (k+1) (15-k)).filter m.getLsbD = [] := by
    intro m hm
    rw [List.filter_eq_nil_iff]
    intro i hi
    rw [List.mem_range'_1] at hi
    rw [hm i (by omega)]
    exact Bool.false_ne_true
  have hself : (mask ||| 1#16 <<< k).getLsbD k = true := by
    rw [getLsbD_setBit mask hk,decide_eq_true rfl,Bool.or_true]
  rw [maskBits,maskBits,hsplit,List.filter_append,List.filter_append,List.filter_cons,
    List.filter_cons,if_pos hself,habove k le_rfl,if_neg Bool.false_ne_true,hlow,
    hhigh mask fun i hi => habove i hi.le,hhigh _ fun i hi => ?_,List.append_nil]
  rw [getLsbD_setBit mask hk,habove i hi.le,decide_eq_false hi.ne',Bool.or_false]

theorem mem_maskBits_setBit {mask : BitVec 16} {k : ℕ} (hk : k < 16) (i : ℕ) :
    i ∈ maskBits (mask ||| 1#16 <<< k) ↔ i ∈ maskBits mask ∨ i = k := by
  simp only [maskBits,List.mem_filter,List.mem_range,getLsbD_setBit mask hk,Bool.or_eq_true,
    decide_eq_true_eq]
  constructor
  · intro h
    cases h.2 with
    | inl hold => exact .inl ⟨h.1,hold⟩
    | inr heq => exact .inr heq
  · intro h
    cases h with
    | inl hold => exact ⟨hold.1,.inl hold.2⟩
    | inr heq => exact ⟨heq ▸ hk,.inr heq⟩

/-! ### Packing and unpacking -/

section Pack
variable {item : PackedNack} {n : BitVec 16}

/-- The number behind a shift. -/
theorem firstPid_add_shift (first n : BitVec 16) :
    first + 1 + BitVec.ofNat 16 (n - first - 1).toNat = n := by
  rw [BitVec.ofNat_toNat,BitVec.setWidth_eq]
  grind

theorem mem_unpack_setBit (h : (n - item.firstPid - 1).toNat ≤ 15) (x : BitVec 16) :
    x ∈ PackedNack.unpack
        { item with bitmask := item.bitmask ||| 1#16 <<< (n - item.firstPid - 1).toNat } ↔
      x ∈ item.unpack ∨ x = n := by
  simp only [PackedNack.unpack_eq,List.mem_cons,List.mem_map,
    mem_maskBits_setBit (Nat.lt_succ_of_le h)]
  constructor
  · intro hx
    cases hx with
    | inl hfirst => exact .inl (.inl hfirst)
    | inr hbit =>
        cases hbit with
        | intro i hi =>
            cases hi.1 with
            | inl hold => exact .inl (.inr ⟨i,hold,hi.2⟩)
            | inr heq =>
                right
                rw [← hi.2,heq]
                exact firstPid_add_shift _ _
  · intro hx
    rcases hx with (hfirst | hold) | hnew
    · exact .inl hfirst
    · cases hold with
      | intro i hi => exact .inr ⟨i,.inl hi.1,hi.2⟩
    · exact .inr ⟨_,.inr rfl,hnew ▸ firstPid_add_shift _ _⟩

theorem unpack_fresh (n : BitVec 16) : PackedNack.unpack ⟨n,0⟩ = [n] := rfl

/-- The packing keeps the set of numbers. -/
theorem mem_packFrom (item : PackedNack) (ns : List (BitVec 16)) (x : BitVec 16) :
    x ∈ (packFrom item ns).flatMap PackedNack.unpack ↔ x ∈ item.unpack ∨ x ∈ ns := by
  induction ns generalizing item with
  | nil => simp only [packFrom,List.flatMap_cons,List.flatMap_nil,List.append_nil,
      List.not_mem_nil,or_false]
  | cons n ns ih =>
      rw [packFrom]
      split
      · rename_i hshift
        rw [ih,mem_unpack_setBit hshift,List.mem_cons,or_assoc]
      · rw [List.flatMap_cons,List.mem_append,ih,unpack_fresh,List.mem_cons,List.mem_cons,
          List.mem_nil_iff,or_false]

theorem mem_pack (ns : List (BitVec 16)) (x : BitVec 16) :
    x ∈ (pack ns).flatMap PackedNack.unpack ↔ x ∈ ns := by
  cases ns with
  | nil => exact Iff.rfl
  | cons n ns => rw [pack,mem_packFrom,unpack_fresh,List.mem_singleton,List.mem_cons]

/-- `b` is ahead of `a` by less than half the numbers. -/
def Ahead (a b : BitVec 16) : Prop := 0 < (b-a).toNat ∧ (b-a).toNat < 2^15

instance (a b : BitVec 16) : Decidable (Ahead a b) := inferInstanceAs (Decidable (_ ∧ _))

/-- How far a list reaches from its first number to its last. -/
def span : List (BitVec 16) → ℕ
  | a::b::rest => (b-a).toNat + span (b::rest)
  | _ => 0

/-- What has been packed of a list in order: the mask ends at the last number, which is `m`
ahead of the pid. -/
structure PackedUpTo (item : PackedNack) (last : BitVec 16) (m : ℕ) : Prop where
  offset : (last - item.firstPid).toNat = m
  above : ∀ i, m ≤ i → item.bitmask.getLsbD i = false

theorem packedUpTo_fresh (n : BitVec 16) : PackedUpTo ⟨n,0⟩ n 0 :=
  ⟨by rw [BitVec.sub_self]; rfl,fun _ _ => BitVec.getLsbD_zero⟩

/-- A list in order is unpacked as it was. -/
theorem flatMap_packFrom {last : BitVec 16} {m : ℕ} {ns : List (BitVec 16)}
    (h : PackedUpTo item last m) (hahead : (last::ns).IsChain Ahead)
    (hspan : m + span (last::ns) < 2^16) :
    (packFrom item ns).flatMap PackedNack.unpack = item.unpack ++ ns := by
  induction ns generalizing item last m with
  | nil => rw [packFrom,List.flatMap_singleton,List.append_nil]
  | cons n ns ih =>
      rw [List.isChain_cons_cons] at hahead
      rw [span] at hspan
      have hstep := hahead.1
      have hoffset : (n - item.firstPid).toNat = m + (n-last).toNat := by
        have hsum : n - item.firstPid = (n-last) + (last - item.firstPid) := by grind
        rw [hsum,BitVec.toNat_add,h.offset,Nat.mod_eq_of_lt (by omega),Nat.add_comm]
      have hshift : (n - item.firstPid - 1).toNat = m + (n-last).toNat - 1 := by
        have hpos := hstep.1
        rw [BitVec.toNat_sub,hoffset]
        have hone : (1 : BitVec 16).toNat = 1 := rfl
        rw [hone]
        omega
      rw [packFrom]
      split
      · rename_i hfits
        have hpos := hstep.1
        have habove : ∀ i, (n - item.firstPid - 1).toNat ≤ i → item.bitmask.getLsbD i = false :=
          fun i hi => h.above i (by omega)
        have hset : PackedUpTo
            { item with bitmask := item.bitmask ||| 1#16 <<< (n - item.firstPid - 1).toNat } n
            (m + (n-last).toNat) := by
          refine ⟨hoffset,fun i hi => ?_⟩
          rw [getLsbD_setBit _ (Nat.lt_succ_of_le hfits),habove i (by omega),
            decide_eq_false (by omega),Bool.or_false]
        rw [ih hset hahead.2 (by omega),PackedNack.unpack_eq,PackedNack.unpack_eq]
        simp only [maskBits_setBit (Nat.lt_succ_of_le hfits) habove,List.map_append,List.map_cons,
          List.map_nil,firstPid_add_shift,List.append_assoc,List.cons_append,List.nil_append]
      · rw [List.flatMap_cons,ih (packedUpTo_fresh n) hahead.2 (by omega),unpack_fresh,List.singleton_append]

theorem flatMap_pack {ns : List (BitVec 16)} (hahead : ns.IsChain Ahead) (hspan : span ns < 2^16) :
    (pack ns).flatMap PackedNack.unpack = ns := by
  cases ns with
  | nil => rfl
  | cons n ns =>
      rw [pack,flatMap_packFrom (packedUpTo_fresh n) hahead (by omega),unpack_fresh,List.singleton_append]

end Pack

/-! ### The packet -/

/-- `Parse` takes the items from the length, which `Serialize` made from them. -/
theorem NackPacket.items_wireHeader (p : NackPacket)
    (h : 2+(pack p.packetLostSequenceNumbers).length < 2^16) :
    NackPacket.items p.wireHeader = (pack p.packetLostSequenceNumbers).length := by
  have hlength : p.wireHeader.length.toNat = 2+(pack p.packetLostSequenceNumbers).length := by
    simp only [wireHeader,BitVec.toNat_ofNat,kHeaderLength,kCommonFeedbackLength,kNackItemLength]
    omega
  rw [items,hlength,kCommonFeedbackLength,kNackItemLength]
  omega

theorem NackPacket.parses (p : NackPacket)
    (h : 2+(pack p.packetLostSequenceNumbers).length < 2^16) :
    Parses NackPacket.parse p.layout ⟨p.wireHeader,p.senderSsrc,p.mediaSsrc,
      (pack p.packetLostSequenceNumbers).flatMap PackedNack.unpack⟩ := by
  refine (parseCommonHeader_parses _).bind <| (parseCommonFeedback_parses _ _).bind ?_
  rw [p.items_wireHeader h,List.flatMap_def (f := PackedNack.unpack)]
  exact (Parses.repeated fun item _ => PackedNack.parses item).map _

/-- Serializing a NACK and parsing the bytes gives the same set of numbers, and the same
list if it was in order. -/
theorem NackPacket.serialized (p : NackPacket)
    (h : 2+(pack p.packetLostSequenceNumbers).length < 2^16) (buffer : List Byte)
    (hbuffer : buffer.length = p.size) :
    ∃ w, p.serialize (on buffer) = some w ∧ ∀ b : Region, b.Holds 0 w.bytes →
      ∃ q t, NackPacket.parse.run b ⟨0,[]⟩ = (some q,⟨w.used,t⟩) ∧
        q.senderSsrc = p.senderSsrc ∧ q.mediaSsrc = p.mediaSsrc ∧
        (∀ n, n ∈ q.packetLostSequenceNumbers ↔ n ∈ p.packetLostSequenceNumbers) ∧
        (p.packetLostSequenceNumbers.IsChain Ahead → span p.packetLostSequenceNumbers < 2^16 →
          q.packetLostSequenceNumbers = p.packetLostSequenceNumbers) := by
  have hroom : p.layout.length ≤ buffer.length := hbuffer ▸ p.layout_length_le
  refine ⟨_,p.lays.on buffer hroom,fun b hb => ?_⟩
  cases (p.parses h).run_overlay hb hroom with
  | intro t ht => exact ⟨_,t,ht,rfl,rfl,mem_pack _,flatMap_pack⟩

theorem NackPacket.serialized_wrapped :
    let p : NackPacket := ⟨⟨0,0,0,0,0⟩,1,2,[65535,3,40]⟩
    ∃ w, p.serialize (on (List.replicate 24 7)) = some w ∧ ∀ b : Region, b.Holds 0 w.bytes →
      ∃ q t, NackPacket.parse.run b ⟨0,[]⟩ = (some q,⟨w.used,t⟩) ∧
        q.senderSsrc = p.senderSsrc ∧ q.mediaSsrc = p.mediaSsrc ∧
        (∀ n, n ∈ q.packetLostSequenceNumbers ↔ n ∈ p.packetLostSequenceNumbers) ∧
        (p.packetLostSequenceNumbers.IsChain Ahead → span p.packetLostSequenceNumbers < 2^16 →
          q.packetLostSequenceNumbers = p.packetLostSequenceNumbers) :=
  serialized _ (by decide) _ (by decide)

end Ylrtc.RtcpPackets
