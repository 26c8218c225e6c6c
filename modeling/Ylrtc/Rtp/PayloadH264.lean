import Ylrtc.Rtp.PacketLayout

/-!
# Key frames in H.264 payloads

`RtpPayloadParserH264::Parse`. The units of an aggregate are turned into start offsets, and
then looked at in pairs of a start and the next start.
-/
namespace Ylrtc.RtpPayloadParserH264
open ByteBuffer CursorParser Packet

/-- The types that `Parse` asks for. -/
abbrev kIdr : Byte := 5
abbrev kSps : Byte := 7
abbrev kStapA : Byte := 24
abbrev kFuA : Byte := 28

def nalType (b : Byte) : Byte := b &&& 0x1f

/-- `ParseStapAStartOffsets`, with `k` for its pointer. Where it returns false its caller returns
nothing. -/
def parseStapAStartOffsets (k lengthRemaining offset : ℕ) (offsets : List ℕ) : Parser (List ℕ) :=
  if lengthRemaining = 0 then return offsets
  else if _htwo : lengthRemaining < 2 then Parser.fail
  else do
    let naluSize ← Parser.load k 2
    let naluSize := (loadUInt16BE naluSize).toNat
    if naluSize > lengthRemaining - 2 then Parser.fail
    else
      parseStapAStartOffsets (k+2+naluSize) (lengthRemaining-2-naluSize) (offset+2+naluSize)
        (offsets ++ [offset+3])
termination_by lengthRemaining

/-- The loop over the offsets. An unsigned difference is less than one where it is zero. The list
is never empty here. -/
def examine : List ℕ → Bool → Parser Bool
  | start::next::rest,keyframe =>
      if next - 2 = start then Parser.fail
      else do
        let first ← Parser.byte start
        examine (next::rest) (keyframe || nalType first = kSps || nalType first = kIdr)
  | _,keyframe => return keyframe

def naluStartOffsets (type : Byte) (len : ℕ) : Parser (List ℕ) :=
  if type = kStapA then do
    Parser.guard (3 < len)
    parseStapAStartOffsets 1 (len-1) 0 []
  else return [0]

def parseNal (type : Byte) (len : ℕ) : Parser PayloadInfo :=
  if type = kFuA then do
    Parser.guard (2 ≤ len)
    let second ← Parser.byte 1
    return ⟨nalType second = kIdr⟩
  else do
    let offsets ← naluStartOffsets type len
    let keyframe ← examine offsets false
    return ⟨keyframe⟩

def parse : Parser PayloadInfo := do
  let len ← Parser.size
  Parser.guard (1 ≤ len)
  let first ← Parser.byte 0
  parseNal (nalType first) len

/-! ### Payloads -/

/-- A unit in an aggregate, behind its length. -/
def encode (unit : List Byte) : List Byte := storeUInt16BE (BitVec.ofNat 16 unit.length) ++ unit

/-- A unit, an aggregate of units, a fragment of one, and an aggregate whose last length is cut or
runs over the end. -/
inductive Payload
  | single (unit : List Byte)
  | aggregate (header : Byte) (units : List (List Byte))
  | fragment (indicator header : Byte) (data : List Byte)
  | overrun (header : Byte) (units : List (List Byte)) (tail : List Byte)

namespace Payload

def bytes : Payload → List Byte
  | single unit => unit
  | aggregate header units => header::units.flatMap encode
  | fragment indicator header data => indicator::header::data
  | overrun header units tail => header::(units.flatMap encode ++ tail)

/-- What is left behind the last whole unit has no length, or one that it does not hold. -/
def Cut (tail : List Byte) : Prop :=
  tail ≠ [] ∧ (tail.length < 2 ∨ tail.length - 2 < (load16 tail 0).toNat)

/-- No object is larger than half the address space. -/
structure Fits (p : Payload) : Prop where
  length : p.bytes.length < 2^63

/-- A unit has a length of 16 bits, and is empty only in front of a cut. -/
def Shaped : Payload → Prop
  | single unit => unit ≠ [] ∧ 1 ≤ (nalType (unit.getD 0 0)).toNat ∧
      (nalType (unit.getD 0 0)).toNat ≤ 23
  | aggregate header units => nalType header = kStapA ∧ units ≠ [] ∧
      ∀ unit ∈ units, unit ≠ [] ∧ unit.length < 65536
  | fragment indicator _ _ => nalType indicator = kFuA
  | overrun header units tail => nalType header = kStapA ∧
      (∀ unit ∈ units, unit.length < 65536) ∧ Cut tail

end Payload

/-- A unit of type 5 or 7. -/
def isKey (unit : List Byte) : Bool :=
  nalType (unit.getD 0 0) = kSps || nalType (unit.getD 0 0) = kIdr

/-- Whether there is a key frame, for a payload that is well formed. -/
def Payload.keyframe : Payload → Option Bool
  | single unit => some (isKey unit)
  | aggregate _ units => some (units.any isKey)
  | fragment _ header _ => some (nalType header = kIdr)
  | overrun _ _ _ => none

/-- `Parse` reads the payload alone, and tells whether there is a key frame. -/
def Right (p : Payload) : Prop :=
  ∀ b : Region, b.Shows p.bytes →
    (parse.run b ⟨0,[]⟩).2.Within 0 p.bytes.length ∧
      (parse.run b ⟨0,[]⟩).1.map PayloadInfo.keyframe = p.keyframe

/-- The last unit is not the only one of type 5 or 7. -/
def Decided : Payload → Prop
  | .single unit => isKey unit = false
  | .aggregate _ units => (∃ unit ∈ units.getLast?, isKey unit = true) →
      ∃ unit ∈ units.dropLast, isKey unit = true
  | .fragment _ _ _ => True
  | .overrun _ _ _ => True

/-! ### The start offsets -/

/-- Where the units of an aggregate start. -/
def starts (offset : ℕ) : List (List Byte) → List ℕ
  | [] => []
  | unit::units => (offset+3)::starts (offset+2+unit.length) units

theorem encode_length (unit : List Byte) : (encode unit).length = 2+unit.length := by
  rw [encode,List.length_append,storeUInt16BE_length]

theorem load16_drop (bytes : List Byte) (k : ℕ) : load16 bytes k = load16 (bytes.drop k) 0 := by
  simp only [load16,List.getD_eq_getElem?_getD,List.getElem?_drop,Nat.zero_add]

/-- The length in front of a unit is read back. -/
theorem load16_encode {unit : List Byte} (rest : List Byte) (h : unit.length < 65536) :
    (load16 (encode unit ++ rest) 0).toNat = unit.length := by
  have hload : load16 (encode unit ++ rest) 0 = BitVec.ofNat 16 unit.length := by
    simp only [load16,Nat.zero_add,encode,List.append_assoc]
    exact HeaderExtension.loadUInt16BE_storeUInt16BE _ _
  rw [hload,BitVec.toNat_ofNat,Nat.mod_eq_of_lt h]

section Parse
variable {b : Region} {bytes : List Byte}

/-- The loop passes over the units of an aggregate and goes on behind them. -/
theorem parseStapAStartOffsets_units (hb : b.Shows bytes) (tail : List Byte)
    {units : List (List Byte)} (hunits : ∀ unit ∈ units, unit.length < 65536) {k offset : ℕ}
    {offsets : List ℕ} {v : Option (List ℕ)}
    (hdrop : bytes.drop k = units.flatMap encode ++ tail)
    (h : (parseStapAStartOffsets (k + (units.flatMap encode).length) tail.length
      (offset + (units.flatMap encode).length) (offsets ++ starts offset units)).Gives b 0
        bytes.length v) :
    (parseStapAStartOffsets k (bytes.length-k) offset offsets).Gives b 0 bytes.length v := by
  have hleft := congrArg List.length hdrop
  rw [List.length_drop,List.length_append] at hleft
  induction units generalizing k offset offsets with
  | nil =>
      rw [hleft]
      simpa only [List.flatMap_nil,List.length_nil,Nat.add_zero,Nat.zero_add,starts,
        List.append_nil] using h
  | cons unit units ih =>
      have hlength := encode_length unit
      have hshort := hunits unit List.mem_cons_self
      rw [List.flatMap_cons,List.length_append] at h hleft
      rw [List.flatMap_cons,List.append_assoc] at hdrop
      rw [parseStapAStartOffsets,if_neg (by omega),dif_neg (by omega)]
      apply (Parser.gives_load (Nat.zero_le _) (by omega)).then
      rw [load16_of_shows hb (by omega),load16_drop,hdrop]
      simp only [load16_encode _ hshort]
      rw [if_neg (by omega),show bytes.length-k-2-unit.length = bytes.length-(k+2+unit.length) by
        omega]
      have hnext : bytes.drop (k+2+unit.length) = units.flatMap encode ++ tail := by
        rw [show k+2+unit.length = k+(encode unit).length by omega,← List.drop_drop,hdrop,
          List.drop_left]
      apply ih (fun unit' hmem => hunits unit' (List.mem_cons_of_mem _ hmem)) hnext
      · rw [show k+2+unit.length + (units.flatMap encode).length =
          k + ((encode unit).length + (units.flatMap encode).length) by omega,
          show offset+2+unit.length + (units.flatMap encode).length =
          offset + ((encode unit).length + (units.flatMap encode).length) by omega,
          List.append_assoc]
        exact h
      · omega

/-- Behind the last unit a whole aggregate ends. -/
theorem parseStapAStartOffsets_whole (hb : b.Shows bytes) {units : List (List Byte)}
    (hunits : ∀ unit ∈ units, unit.length < 65536) {k : ℕ}
    (hdrop : bytes.drop k = units.flatMap encode) :
    (parseStapAStartOffsets k (bytes.length-k) 0 []).Gives b 0 bytes.length
      (some (starts 0 units)) := by
  apply parseStapAStartOffsets_units hb [] hunits (by rw [List.append_nil]; exact hdrop)
  rw [parseStapAStartOffsets,List.length_nil,if_pos rfl,List.nil_append]
  exact Parser.gives_pure _

/-- A length that is cut, or runs over the end, is refused. -/
theorem parseStapAStartOffsets_cut (hb : b.Shows bytes) {units : List (List Byte)}
    {tail : List Byte} (hunits : ∀ unit ∈ units, unit.length < 65536) (hcut : Payload.Cut tail)
    {k : ℕ} (hdrop : bytes.drop k = units.flatMap encode ++ tail) :
    (parseStapAStartOffsets k (bytes.length-k) 0 []).Gives b 0 bytes.length none := by
  have hpos : 0 < tail.length := List.length_pos_iff.mpr hcut.1
  have hleft := congrArg List.length hdrop
  rw [List.length_drop,List.length_append] at hleft
  apply parseStapAStartOffsets_units hb _ hunits hdrop
  rw [parseStapAStartOffsets,if_neg (by omega)]
  by_cases htwo : tail.length < 2
  · rw [dif_pos htwo]
    exact Parser.gives_fail
  · rw [dif_neg htwo]
    apply (Parser.gives_load (Nat.zero_le _) (by omega)).then
    have hend : bytes.drop (k + (units.flatMap encode).length) = tail := by
      rw [← List.drop_drop,hdrop,List.drop_left]
    rw [load16_of_shows hb (by omega),load16_drop,hend]
    simp only
    rw [if_pos]
    · exact Parser.gives_fail
    · cases hcut.2 with
      | inl hshort => exact absurd hshort htwo
      | inr hlong => exact hlong

/-! ### The types of the units -/

/-- The loop looks at every unit but the last. -/
theorem examine_starts (hb : b.Shows bytes) (tail : List Byte) {units : List (List Byte)}
    (hunits : ∀ unit ∈ units, unit ≠ []) {offset : ℕ}
    (hdrop : bytes.drop (offset+1) = units.flatMap encode ++ tail) (keyframe : Bool) :
    (examine (starts offset units) keyframe).Gives b 0 bytes.length
      (some (keyframe || units.dropLast.any isKey)) := by
  induction units generalizing offset keyframe with
  | nil =>
      rw [starts,examine,List.dropLast_nil,List.any_nil,Bool.or_false]
      · exact Parser.gives_pure _
      · simp
  | cons unit units ih =>
      have hlength := encode_length unit
      have hpos : 0 < unit.length := List.length_pos_iff.mpr (hunits unit List.mem_cons_self)
      have hleft := congrArg List.length hdrop
      rw [List.flatMap_cons,List.length_drop,List.length_append,List.length_append] at hleft
      rw [List.flatMap_cons,List.append_assoc] at hdrop
      cases units with
      | nil =>
          simp only [starts,List.dropLast_singleton,List.any_nil,Bool.or_false]
          rw [examine]
          · exact Parser.gives_pure _
          · simp
      | cons next units =>
          have hfirst : bytes.getD (offset+3) 0 = unit.getD 0 0 := by
            have hget := congrArg (fun l => l.getD 2 0) hdrop
            simp only [List.getD_eq_getElem?_getD,List.getElem?_drop] at hget ⊢
            rw [show offset+3 = offset+1+2 by omega,hget]
            cases unit with
            | nil => exact absurd hpos (Nat.lt_irrefl 0)
            | cons first rest => rfl
          have hnext : bytes.drop (offset+2+unit.length+1) =
              (next::units).flatMap encode ++ tail := by
            rw [show offset+2+unit.length+1 = offset+1+(encode unit).length by omega,
              ← List.drop_drop,hdrop,List.drop_left]
          have hrest := ih (fun unit' hmem => hunits unit' (List.mem_cons_of_mem _ hmem)) hnext
            (keyframe || nalType (unit.getD 0 0) = kSps || nalType (unit.getD 0 0) = kIdr)
          rw [starts,starts,examine,if_neg (by omega)]
          apply (gives_byte_of_shows hb (by omega)).then
          rw [hfirst]
          rw [starts] at hrest
          rw [List.dropLast_cons_of_ne_nil (List.cons_ne_nil _ _),List.any_cons,isKey,
            ← Bool.or_assoc,← Bool.or_assoc]
          exact hrest

/-- What `Parse` makes of an aggregate whose offsets are known. -/
theorem parse_gives (hb : b.Shows bytes) (hpos : 0 < bytes.length) {v : Option PayloadInfo}
    (h : (parseNal (nalType (bytes.getD 0 0)) bytes.length).Gives b 0 bytes.length v) :
    parse.Gives b 0 bytes.length v := by
  unfold parse
  apply Parser.gives_size.then
  rw [hb.size]
  exact (Parser.gives_guard_of hpos).then ((gives_byte_of_shows hb hpos).then h)

end Parse

/-- What `Parse` finds: the last unit does not count. -/
def found : Payload → Option Bool
  | .single _ => some false
  | .aggregate _ units => some (units.dropLast.any isKey)
  | .fragment _ header _ => some (nalType header = kIdr)
  | .overrun _ _ _ => none

/-- `Parse` on a payload that is well formed. -/
theorem parse_payload {p : Payload} (h : p.Shaped) {b : Region} (hb : b.Shows p.bytes) :
    parse.Gives b 0 p.bytes.length ((found p).map fun keyframe => ⟨keyframe⟩) := by
  cases p with
  | single unit =>
      have hpos : 0 < unit.length := List.length_pos_iff.mpr h.1
      apply parse_gives hb hpos
      change (parseNal (nalType (unit.getD 0 0)) unit.length).Gives b 0 unit.length _
      have hfragment : nalType (unit.getD 0 0) ≠ kFuA := by
        intro heq
        have hrange := h.2.2
        rw [heq] at hrange
        exact absurd hrange (by decide)
      have haggregate : nalType (unit.getD 0 0) ≠ kStapA := by
        intro heq
        have hrange := h.2.2
        rw [heq] at hrange
        exact absurd hrange (by decide)
      unfold parseNal naluStartOffsets
      rw [if_neg hfragment,if_neg haggregate]
      exact (Parser.gives_pure _).then ((Parser.gives_pure _).then (Parser.gives_pure _))
  | aggregate header units =>
      have hdrop : (header::units.flatMap encode).drop 1 = units.flatMap encode := rfl
      have hlong : 3 < (header::units.flatMap encode).length := by
        cases units with
        | nil => exact absurd rfl h.2.1
        | cons unit units =>
            have hunit := List.length_pos_iff.mpr (h.2.2 unit List.mem_cons_self).1
            rw [List.flatMap_cons,List.length_cons,List.length_append,encode_length]
            omega
      apply parse_gives hb (Nat.zero_lt_succ _)
      change (parseNal (nalType header) _).Gives b 0 _ _
      unfold parseNal naluStartOffsets
      rw [h.1,if_neg (by decide),if_pos rfl]
      apply Parser.Gives.then (a := starts 0 units)
      · apply (Parser.gives_guard_of hlong).then
        exact parseStapAStartOffsets_whole hb (fun unit hmem => (h.2.2 unit hmem).2) hdrop
      · have hnothing : (header::units.flatMap encode).drop (0+1) = units.flatMap encode ++ [] := by
          rw [List.append_nil]
          exact hdrop
        have hexamine := examine_starts hb [] (fun unit hmem => (h.2.2 unit hmem).1) hnothing false
        rw [Bool.false_or] at hexamine
        exact hexamine.then (Parser.gives_pure _)
  | fragment indicator header data =>
      apply parse_gives hb (Nat.zero_lt_succ _)
      change (parseNal (nalType indicator) _).Gives b 0 _ _
      unfold parseNal
      have htwo : 2 ≤ (Payload.fragment indicator header data).bytes.length :=
        Nat.le_add_left 2 data.length
      rw [show nalType indicator = kFuA from h,if_pos rfl]
      apply (Parser.gives_guard_of htwo).then
      exact (gives_byte_of_shows hb htwo).then (Parser.gives_pure _)
  | overrun header units tail =>
      have hdrop : (header::(units.flatMap encode ++ tail)).drop 1 =
          units.flatMap encode ++ tail := rfl
      apply parse_gives hb (Nat.zero_lt_succ _)
      change (parseNal (nalType header) _).Gives b 0 _ _
      unfold parseNal naluStartOffsets
      rw [h.1,if_neg (by decide),if_pos rfl]
      apply Parser.Gives.failed
      by_cases hlong : 3 < (Payload.overrun header units tail).bytes.length
      · apply (Parser.gives_guard_of hlong).then
        exact parseStapAStartOffsets_cut hb h.2.1 h.2.2 hdrop
      · exact (Parser.gives_guard_not hlong).failed

/-- The units without the last have a key frame if all of them do. -/
theorem any_dropLast_iff (units : List (List Byte)) :
    units.dropLast.any isKey = units.any isKey ↔
      ((∃ unit ∈ units.getLast?, isKey unit = true) →
        ∃ unit ∈ units.dropLast, isKey unit = true) := by
  cases List.eq_nil_or_concat units with
  | inl hnil =>
      rw [hnil]
      exact iff_of_true rfl fun hlast => by simp at hlast
  | inr hconcat =>
      cases hconcat with
      | intro front h =>
          cases h with
          | intro last hunits =>
              rw [hunits,List.concat_eq_append,List.dropLast_concat,List.getLast?_concat,
                List.any_append,List.any_cons,List.any_nil,Bool.or_false,← List.any_eq_true]
              cases front.any isKey with
              | true => exact iff_of_true rfl fun _ => rfl
              | false =>
                  cases hlast : isKey last with
                  | true =>
                      exact iff_of_false (by simp) fun himp =>
                        absurd (himp ⟨last,rfl,hlast⟩) (by simp)
                  | false =>
                      refine iff_of_true rfl fun hkey => ?_
                      cases hkey with
                      | intro unit hunit =>
                          rw [← Option.some.inj hunit.1,hlast] at hunit
                          exact absurd hunit.2 (by simp)

theorem found_eq_keyframe_iff (p : Payload) : found p = p.keyframe ↔ Decided p := by
  cases p with
  | single unit =>
      simp only [found,Payload.keyframe,Decided,Option.some.injEq]
      exact eq_comm
  | aggregate header units =>
      simp only [found,Payload.keyframe,Decided,Option.some.injEq]
      exact any_dropLast_iff units
  | fragment indicator header data => exact iff_of_true rfl trivial
  | overrun header units tail => exact iff_of_true rfl trivial

/-- The answer is right exactly when it does not hang on the last unit. -/
theorem right_iff_decided {p : Payload} (h : p.Shaped) (hfits : p.Fits) : Right p ↔ Decided p := by
  rw [← found_eq_keyframe_iff]
  have hmap : ((found p).map fun keyframe => (⟨keyframe⟩ : PayloadInfo)).map
      PayloadInfo.keyframe = found p := by
    cases found p with
    | none => rfl
    | some keyframe => rfl
  constructor
  · intro hright
    have hshows := Region.ofList_shows p.bytes (fun _ => 0) hfits.length
    rw [← (hright _ hshows).2,((parse_payload h hshows).run 0).1,hmap]
  · intro hfound b hb
    have hrun := (parse_payload h hb).run 0
    constructor
    · exact hrun.2
    · rw [hrun.1,hmap,hfound]

/-- Three units, of which the second is the key. -/
def keyInside : Payload := .aggregate 24 [[1],[5,9],[6]]

theorem right_iff_decided_keyInside : Right keyInside ↔ Decided keyInside :=
  right_iff_decided ⟨by decide,by decide,by decide⟩ ⟨by decide⟩

/-- An IDR slice on its own. -/
theorem not_right_shaped : ¬∀ p : Payload, p.Shaped → p.Fits → Right p := by
  intro hall
  have hright := hall (.single [0x65]) ⟨by decide,by decide,by decide⟩ ⟨by decide⟩
  have hshows := Region.ofList_shows [0x65] (fun _ => 0) (by decide)
  have hparse := parse_payload (p := .single [0x65]) ⟨by decide,by decide,by decide⟩ hshows
  have hkeyframe := (hright _ hshows).2
  rw [(hparse.run 0).1] at hkeyframe
  exact absurd hkeyframe (by decide)

end Ylrtc.RtpPayloadParserH264
