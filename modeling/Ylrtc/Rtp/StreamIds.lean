import Ylrtc.Rtp.Packet
import Mathlib.Algebra.Group.Int.Defs

/-!
# Stream ids that are read as C strings

`RtpStreamIdExtension::Parse` and `RepairedRtpStreamIdExtension::Parse` hand the element
to `atoi`, which is not told where the element ends. What it reads behind the element are
the bytes of the packet, and behind these whatever memory holds.
-/
namespace Ylrtc.Packet
open CursorParser HeaderExtension

/-- `atoi` where C defines it: its value must fit an `int`. -/
def atoiDefined (data : List Byte) : Option ℤ :=
  if -2^31 ≤ atoi data ∧ atoi data < 2^31 then some (atoi data) else none

/-- `Parse` of the two stream id classes. Nothing at all where `atoi` is undefined. -/
def parseStreamIdDefined (data : List Byte) (size : Byte) : Option (Option (BitVec 32)) :=
  if size = 0 || data.getD 0 0 = 0 then some none
  else
    match atoiDefined data with
    | none => none
    | some n =>
        let rtpStreamId := BitVec.ofInt 32 n
        some (if rtpStreamId = 0 then none else some rtpStreamId)

/-- `GetExtensionValue` of such a class, with the memory behind the packet. -/
def RtpPacket.getStreamId (p : RtpPacket) (behind : List Byte) (type : RTPHeaderExtensionType) :
    Option (Option (BitVec 32)) :=
  match p.findExtension type with
  | none => some none
  | some result => parseStreamIdDefined ((p.data ++ behind).drop result.offset.toNat) result.length

def addDigit (n : ℤ) (b : Byte) : ℤ := 10*n + (b.toNat - 48)

/-- The number that a string of digits denotes. -/
def decimal (bytes : List Byte) : ℤ := bytes.foldl addDigit 0

/-- The bytes of an element. -/
def RtpPacket.elementBytes (p : RtpPacket) (e : ExtensionInfo) : List Byte :=
  (p.data.drop e.offset.toNat).take e.length.toNat

/-- The byte behind an element, in the packet or in the memory behind it. -/
def RtpPacket.byteBehind (p : RtpPacket) (behind : List Byte) (e : ExtensionInfo) : Byte :=
  (p.data ++ behind).getD (e.offset.toNat + e.length.toNat) 0

/-- The element is a string of ASCII digits that denotes a number from 1 on, for an `int`. -/
structure RtpPacket.Numeric (p : RtpPacket) (e : ExtensionInfo) : Prop where
  digits : ∀ i < e.length.toNat, isDigit (p.data.getD (e.offset.toNat+i) 0) = true
  positive : 1 ≤ decimal (p.elementBytes e)
  int : decimal (p.elementBytes e) < 2^31

/-- Where the value is defined it is the value that `getExtensionValue` gives. -/
theorem getExtensionValue_of_getStreamId {p : RtpPacket} {type : RTPHeaderExtensionType}
    {v : Option (BitVec 32)} (h : p.getStreamId p.behind type = some v) :
    p.getExtensionValue ⟨type,parseStreamId⟩ = v := by
  rw [RtpPacket.getStreamId] at h
  rw [RtpPacket.getExtensionValue]
  cases hfound : p.findExtension type with
  | none =>
      rw [hfound] at h
      exact Option.some.inj h
  | some e =>
      rw [hfound] at h
      simp only at h ⊢
      generalize (p.data ++ p.behind).drop e.offset.toNat = data at h ⊢
      unfold parseStreamIdDefined at h
      unfold parseStreamId
      split at h
      · rename_i hempty
        rw [if_pos hempty]
        exact Option.some.inj h
      · rename_i hempty
        rw [if_neg hempty]
        unfold atoiDefined at h
        split at h
        · simp at h
        · rename_i hdefined
          split at hdefined
          · rw [Option.some.injEq] at hdefined
            subst hdefined
            exact Option.some.inj h
          · simp at hdefined

/-! ### Digits in front of other bytes -/

theorem decimal_append_cons (bytes : List Byte) (b : Byte) (rest : List Byte) :
    decimal (bytes ++ b::rest) =
      rest.foldl addDigit (addDigit (decimal bytes) b) := by
  rw [decimal,List.foldl_append,List.foldl_cons,decimal]

theorem isDigit_range {b : Byte} (h : isDigit b = true) : 48 ≤ b.toNat ∧ b.toNat ≤ 57 := by
  rw [isDigit,Bool.and_eq_true,decide_eq_true_eq,decide_eq_true_eq,BitVec.le_def,BitVec.le_def] at h
  exact h

/-- More digits never make a number smaller. -/
theorem le_foldl_digits {rest : List Byte} (h : ∀ b ∈ rest, isDigit b = true) {n : ℤ} (hn : 0 ≤ n) :
    n ≤ rest.foldl addDigit n := by
  induction rest generalizing n with
  | nil => exact Int.le_refl n
  | cons b rest ih =>
      have hb := isDigit_range (h b List.mem_cons_self)
      have hrest := ih (fun b hb => h b (List.mem_cons_of_mem _ hb))
        (n := addDigit n b) (by rw [addDigit]; omega)
      rw [List.foldl_cons]
      rw [addDigit] at hrest ⊢
      omega

theorem digits_append {bytes : List Byte} (h : ∀ b ∈ bytes, isDigit b = true) (rest : List Byte) :
    digits (bytes ++ rest) = decimal (bytes ++ rest.takeWhile isDigit) := by
  rw [digits,List.takeWhile_append_of_pos h]
  rfl

/-- In front of the bytes behind it a string of digits counts as it is exactly when the first of
them is none. -/
theorem digits_append_eq_iff {bytes : List Byte} (h : ∀ b ∈ bytes, isDigit b = true)
    (hpos : 1 ≤ decimal bytes) (rest : List Byte) :
    digits (bytes ++ rest) = decimal bytes ↔ isDigit (rest.getD 0 0) = false := by
  rw [digits_append h]
  cases rest with
  | nil =>
      rw [List.takeWhile_nil,List.append_nil]
      exact iff_of_true rfl rfl
  | cons b rest =>
      rw [List.getD_cons_zero,List.takeWhile_cons]
      by_cases hb : isDigit b = true
      · rw [if_pos hb,decimal_append_cons,hb]
        have hrange := isDigit_range hb
        have hle : addDigit (decimal bytes) b ≤
            (rest.takeWhile isDigit).foldl addDigit (addDigit (decimal bytes) b) :=
          le_foldl_digits (fun b hb => List.all_eq_true.mp List.all_takeWhile b hb)
            (by rw [addDigit]; omega)
        rw [addDigit] at hle ⊢
        exact iff_of_false (by omega) (by simp)
      · rw [if_neg hb,List.append_nil]
        exact iff_of_true rfl (Bool.eq_false_iff.mpr hb)

/-- A digit in front leaves `atoi` nothing to skip. -/
theorem atoi_of_digit {b : Byte} (h : isDigit b = true) (rest : List Byte) :
    atoi (b::rest) = digits (b::rest) := by
  have hrange := isDigit_range h
  have hspace : isSpace b = false := by
    rw [isSpace,Bool.or_eq_false_iff,decide_eq_false_iff_not,Bool.and_eq_false_iff,
      decide_eq_false_iff_not,decide_eq_false_iff_not,BitVec.le_def,BitVec.le_def]
    refine ⟨fun heq => ?_,Or.inr (fun hle => ?_)⟩
    · rw [heq] at hrange
      exact absurd hrange.1 (by decide)
    · have hnum : (13 : Byte).toNat = 13 := rfl
      omega
  unfold atoi
  rw [List.dropWhile_cons,if_neg (by rw [hspace]; simp)]
  split
  · rename_i heq
    rw [List.cons.injEq] at heq
    rw [heq.1] at hrange
    exact absurd hrange.1 (by decide)
  · rename_i heq
    rw [List.cons.injEq] at heq
    rw [heq.1] at hrange
    exact absurd hrange.1 (by decide)
  · rfl

/-! ### The value of an element -/

section Element
variable {p : RtpPacket} {e : ExtensionInfo}

theorem RtpPacket.Numeric.length_pos (h : p.Numeric e) : 0 < e.length.toNat := by
  by_contra hzero
  have hpos := h.positive
  rw [RtpPacket.elementBytes,Nat.eq_zero_of_not_pos hzero,List.take_zero] at hpos
  exact absurd hpos (by decide)

/-- The element lies in the packet: no byte behind the end is a digit. -/
theorem RtpPacket.Numeric.inside (h : p.Numeric e) :
    e.offset.toNat + e.length.toNat ≤ p.data.length := by
  have hpos := h.length_pos
  have hlast := h.digits (e.length.toNat-1) (by omega)
  by_contra hout
  rw [List.getD_eq_getElem?_getD,List.getElem?_eq_none (by omega)] at hlast
  exact absurd hlast (by decide)

theorem RtpPacket.Numeric.bytes (h : p.Numeric e) :
    ∀ b ∈ p.elementBytes e, isDigit b = true := by
  intro b hb
  cases List.mem_iff_getElem.mp hb with
  | intro i hi =>
      cases hi with
      | intro hlt heq =>
          have hlength := hlt
          rw [RtpPacket.elementBytes,List.length_take] at hlength
          have hdigit := h.digits i (by omega)
          rw [← heq]
          simp only [RtpPacket.elementBytes,List.getElem_take,List.getElem_drop]
          rwa [List.getD_eq_getElem?_getD,List.getElem?_eq_getElem (by
            rw [List.length_drop] at hlength; omega)] at hdigit

/-- What `atoi` gets: the element, and the bytes behind it. -/
theorem RtpPacket.Numeric.split (h : p.Numeric e) (behind : List Byte) :
    (p.data ++ behind).drop e.offset.toNat =
      p.elementBytes e ++ (p.data ++ behind).drop (e.offset.toNat + e.length.toNat) := by
  have hinside := h.inside
  rw [RtpPacket.elementBytes,List.drop_append_of_le_length (by omega),
    List.drop_append_of_le_length hinside,← List.append_assoc]
  congr 1
  rw [← List.drop_drop,List.take_append_drop]

theorem byteBehind_eq (behind : List Byte) :
    p.byteBehind behind e =
      ((p.data ++ behind).drop (e.offset.toNat + e.length.toNat)).getD 0 0 := by
  rw [RtpPacket.byteBehind,List.getD_eq_getElem?_getD,List.getD_eq_getElem?_getD,
    List.getElem?_drop,Nat.add_zero]

theorem atoi_of_numeric (h : p.Numeric e) (rest : List Byte) :
    atoi (p.elementBytes e ++ rest) = digits (p.elementBytes e ++ rest) ∧
      (p.elementBytes e ++ rest).getD 0 0 ≠ 0 := by
  have hbytes := h.bytes
  have hpos := h.positive
  cases hcons : p.elementBytes e with
  | nil =>
      rw [hcons] at hpos
      exact absurd hpos (by decide)
  | cons b bytes =>
      have hb := hbytes b (hcons ▸ List.mem_cons_self)
      constructor
      · exact atoi_of_digit hb _
      · intro hzero
        rw [List.cons_append,List.getD_cons_zero] at hzero
        rw [hzero] at hb
        exact absurd hb (by decide)

theorem toInt_ofInt32 {n : ℤ} (hlo : 0 ≤ n) (hhi : n < 2^31) : (BitVec.ofInt 32 n).toInt = n := by
  rw [BitVec.toInt_ofInt,Int.bmod_def]
  split <;> omega

/-- The value read is the number that the element denotes exactly when the byte behind the element
is not an ASCII digit. -/
theorem getStreamId_iff {type : RTPHeaderExtensionType}
    (hfound : p.findExtension type = some e) (h : p.Numeric e) (behind : List Byte) :
    p.getStreamId behind type = some (some (BitVec.ofInt 32 (decimal (p.elementBytes e)))) ↔
      isDigit (p.byteBehind behind e) = false := by
  have hlo := h.positive
  have hhi := h.int
  have hlength : e.length ≠ 0 := by
    intro hzero
    have hpos := h.length_pos
    rw [hzero] at hpos
    exact absurd hpos (by decide)
  rw [byteBehind_eq,← digits_append_eq_iff h.bytes hlo,RtpPacket.getStreamId,hfound]
  simp only
  rw [h.split behind]
  generalize (p.data ++ behind).drop (e.offset.toNat + e.length.toNat) = rest
  have hatoi := atoi_of_numeric h rest
  have hmore : decimal (p.elementBytes e) ≤ digits (p.elementBytes e ++ rest) := by
    rw [digits_append h.bytes,decimal,decimal,List.foldl_append]
    exact le_foldl_digits (fun b hb => List.all_eq_true.mp List.all_takeWhile b hb)
      (Int.le_trans (by decide) hlo)
  unfold parseStreamIdDefined atoiDefined
  rw [if_neg (by simp only [hlength,hatoi.2,decide_false,Bool.or_self]; simp),hatoi.1]
  by_cases hdefined : digits (p.elementBytes e ++ rest) < 2^31
  · rw [if_pos ⟨by omega,hdefined⟩]
    have hnonzero : BitVec.ofInt 32 (digits (p.elementBytes e ++ rest)) ≠ 0 := by
      intro hzero
      have htoInt := toInt_ofInt32 (by omega) hdefined
      rw [hzero] at htoInt
      have : (0 : BitVec 32).toInt = 0 := rfl
      omega
    simp only [if_neg hnonzero,Option.some.injEq]
    constructor
    · intro hsame
      have htoInt := congrArg BitVec.toInt hsame
      rwa [toInt_ofInt32 (by omega) hdefined,toInt_ofInt32 (by omega) hhi] at htoInt
    · intro hsame
      rw [hsame]
  · rw [if_neg (fun hboth => hdefined hboth.2)]
    exact iff_of_false (by simp) (by omega)

end Element

/-- Two packets that agree on the bytes of their elements have one stream id, where no digit
follows either element. -/
theorem getStreamId_congr {p p' : RtpPacket} {e e' : ExtensionInfo} {type : RTPHeaderExtensionType}
    {behind behind' : List Byte} (hfound : p.findExtension type = some e)
    (hfound' : p'.findExtension type = some e') (h : p.Numeric e) (h' : p'.Numeric e')
    (hsame : p.elementBytes e = p'.elementBytes e')
    (hbehind : isDigit (p.byteBehind behind e) = false)
    (hbehind' : isDigit (p'.byteBehind behind' e') = false) :
    p.getStreamId behind type = p'.getStreamId behind' type := by
  rw [(getStreamId_iff hfound h behind).mpr hbehind,(getStreamId_iff hfound' h' behind').mpr hbehind',
    hsame]

/-- The stream id 1, and behind it the header of an element with id 3, which is the character 0. -/
def digitBehind : List Byte :=
  [0x90,96,0,1,0,0,0,2,0,0,0,3,0xbe,0xde,0,1,0x10,49,0x30,65]

/-- The same with a padding byte behind the stream id. -/
def paddingBehind : List Byte :=
  [0x90,96,0,1,0,0,0,2,0,0,0,3,0xbe,0xde,0,1,0x10,49,0,65]

def streamIdTable : RtpHeaderExtensionCapability := ⟨[(.rtpStreamId,1)]⟩

theorem getStreamId_iff_paddingBehind : ∃ q e, RtpPacket.create paddingBehind = some q ∧
    ((q.setExtensionCapability streamIdTable).getStreamId [] .rtpStreamId =
        some (some (BitVec.ofInt 32 (decimal (q.elementBytes e)))) ↔
      isDigit (q.byteBehind [] e) = false) :=
  ⟨_,⟨1,1,17,1⟩,rfl,getStreamId_iff (p := RtpPacket.setExtensionCapability _ streamIdTable)
    (by rfl) ⟨by decide,by decide,by decide⟩ []⟩

theorem not_getStreamId : ¬∀ (buffer : List Byte) (q : RtpPacket),
    RtpPacket.create buffer = some q → ∀ (c : RtpHeaderExtensionCapability) (e : ExtensionInfo)
      (behind : List Byte), (q.setExtensionCapability c).findExtension .rtpStreamId = some e →
        (q.setExtensionCapability c).Numeric e → e.length.toNat ≤ 16 →
          (q.setExtensionCapability c).getStreamId behind .rtpStreamId =
            some (some (BitVec.ofInt 32 (decimal (q.elementBytes e)))) := by
  intro hall
  have hid : (RtpPacket.create digitBehind).map (fun q =>
      (q.setExtensionCapability streamIdTable).getStreamId [] .rtpStreamId) =
        some (some (some 10)) := by decide
  cases hcreate : RtpPacket.create digitBehind with
  | none => simp [hcreate] at hid
  | some q =>
      have hq : some q = RtpPacket.create digitBehind := hcreate.symm
      have hright := hall digitBehind q hcreate streamIdTable ⟨1,1,17,1⟩ []
      rw [hcreate,Option.map_some,Option.some.injEq] at hid
      rw [hid] at hright
      cases hq
      exact absurd (hright (by rfl) ⟨by decide,by decide,by decide⟩ (by decide)) (by decide)

end Ylrtc.Packet
