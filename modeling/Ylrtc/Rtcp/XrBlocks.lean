import Mathlib.Data.List.Induction
import Ylrtc.Rtcp.Packets

/-!
# The report blocks of an extended report

A packet is well formed when its header declares the bytes of its blocks, each as long as
its type wants. `Parse` walks the blocks in its own steps: it moves on by what it reads of
a block, and counts down by what the block declares. The two agree along known blocks of a
well-formed packet; an unknown block stops the parse exactly when it could be skipped.
-/
namespace Ylrtc.RtcpPackets.XrPacket
open ByteBuffer CursorParser RtcpHeader

section Bytes
variable (b : Region) (p : ℕ)

abbrev IsRrtr : Prop := b.bytes p = kBlockTypeRrtr

abbrev IsDlrr : Prop := b.bytes p ≠ kBlockTypeRrtr ∧ b.bytes p = kBlockTypeDlrr

abbrev IsUnknown : Prop := b.bytes p ≠ kBlockTypeRrtr ∧ b.bytes p ≠ kBlockTypeDlrr

/-- The end of a block that is as long as it declares. -/
def blockEnd : ℕ := p+4*((blockLengthAt b p).toNat+1)

/-- The contents of an RRTR block. -/
def rrtrAt : RrtrBlockContext :=
  ⟨some ⟨loadUInt32BE fun i => b.bytes (p+4+i),loadUInt32BE fun i => b.bytes (p+8+i)⟩⟩

def receiveTimeInfoAt : ReceiveTimeInfo :=
  ⟨loadUInt32BE fun i => b.bytes (p+i),loadUInt32BE fun i => b.bytes (p+4+i),
    loadUInt32BE fun i => b.bytes (p+8+i)⟩

/-- The contents of a DLRR block. -/
def dlrrAt : DlrrBlockContext :=
  ⟨(List.range ((blockLengthAt b p).toNat/3)).map fun i => receiveTimeInfoAt b (p+4+12*i)⟩

/-- The end of the packet that a header declares. -/
def packetEnd (k : ℕ) : ℕ := k+(headerAt b k).declaredSize

end Bytes

/-! ### Well-formed packets -/

/-- Blocks one behind the other, from an offset to the end of the packet. -/
inductive BlockChain (b : Region) (stop : ℕ) : ℕ → List ℕ → Prop
  | done : BlockChain b stop stop []
  | block {p : ℕ} {ps : List ℕ} : (IsRrtr b p → (blockLengthAt b p).toNat = 2) →
      (IsDlrr b p → 3 ∣ (blockLengthAt b p).toNat) →
      BlockChain b stop (blockEnd b p) ps → BlockChain b stop p (p::ps)

/-- The packet at `k` lies in the buffer and has its blocks at these offsets. -/
structure WellFormed (b : Region) (k : ℕ) (blocks : List ℕ) : Prop where
  inside : packetEnd b k ≤ b.size
  chain : BlockChain b (packetEnd b k) (k+8) blocks

/-- The contents of the last block of each type. -/
def parsed (b : Region) (k : ℕ) (blocks : List ℕ) : XrPacket where
  header := headerAt b k
  senderSsrc := loadUInt32BE fun i => b.bytes (k+4+i)
  rrtrBlockContext := (blocks.filter fun p => IsRrtr b p).getLast?.map (rrtrAt b)
  dlrrBlockContext := (blocks.filter fun p => IsDlrr b p).getLast?.map (dlrrAt b)

/-- `Parse` returns true, consumes exactly the packet and returns its contents. -/
def Accepted (b : Region) (k : ℕ) (blocks : List ℕ) : Prop :=
  (parse.run b ⟨k,[]⟩).1 = some (parsed b k blocks) ∧ (parse.run b ⟨k,[]⟩).2.start = packetEnd b k

/-- `Parse` returns false and reads nothing behind the declared end. -/
def Refused (b : Region) (k : ℕ) : Prop :=
  (parse.run b ⟨k,[]⟩).1 = none ∧ (parse.run b ⟨k,[]⟩).2.Within k (packetEnd b k)

/-- A well-formed packet is accepted, and bytes that are none are refused. -/
structure ParsesRight (b : Region) (k : ℕ) : Prop where
  accepts : ∀ blocks, WellFormed b k blocks → Accepted b k blocks
  refuses : (¬∃ blocks, WellFormed b k blocks) → Refused b k

/-! ### The walk over the blocks -/

/-- `payload_len >= kXrBaseLength`, compared as `size_t`. -/
def GoesOn (payloadLen : ℤ) : Prop := payloadLen < 0 ∨ kXrBaseLength ≤ payloadLen

instance (payloadLen : ℤ) : Decidable (GoesOn payloadLen) :=
  inferInstanceAs (Decidable (_ ∨ _))

/-- A round of the loop gets past the block at an offset. -/
structure Passes (b : Region) (p : ℕ) : Prop where
  header : p+4 ≤ b.size
  rrtr : IsRrtr b p → p+12 ≤ b.size
  dlrr : IsDlrr b p → 3 ∣ (blockLengthAt b p).toNat ∧ blockEnd b p ≤ b.size
  unknown : IsUnknown b p → b.size < blockEnd b p

/-- The offsets at which the loop begins a round, with the payload length left. -/
inductive Meets (b : Region) (k : ℕ) : ℕ → ℤ → Prop
  | start : Meets b k (k+8) (4*(headerAt b k).length.toNat-4)
  | next {p : ℕ} {payloadLen : ℤ} : Meets b k p payloadLen → GoesOn payloadLen → Passes b p →
      Meets b k (p+blockSize b p) (payloadLen-4*((blockLengthAt b p).toNat+1))

/-- A round at `p` fails: the block is refused, or the buffer is too short for it. What was
read of it by then lies before `stop`. -/
inductive GivesUp (b : Region) (stop p : ℕ) : Prop
  | dlrr : p < stop → p+4 ≤ b.size → IsDlrr b p → ¬3 ∣ (blockLengthAt b p).toNat →
      GivesUp b stop p
  | unknown : p < stop → p+4 ≤ b.size → IsUnknown b p → blockEnd b p ≤ b.size →
      GivesUp b stop p
  | shortHeader : p < stop → b.size < p+4 → GivesUp b stop p
  | shortRrtr : p < stop → b.size < stop+4 → IsRrtr b p → b.size < p+12 → GivesUp b stop p
  | shortDlrr : p < stop → b.size < stop+4 → IsDlrr b p → b.size < blockEnd b p →
      GivesUp b stop p
  | atEnd : p = stop → b.size ≤ stop → GivesUp b stop p

/-! ### One round -/

section Rounds
variable {b : Region} {p : ℕ} {c : Cursor}

theorem parseBlockHeader_enough (h : c.start+4 ≤ b.size) :
    ∃ d, parseBlockHeader.run b c = (some (b.bytes c.start,blockLengthAt b c.start),d) ∧
      d.start = c.start+4 ∧ Cursor.Adds c.start (c.start+4) c d := by
  refine ⟨⟨c.start+4,List.range' (c.start+2) 2++(List.range' c.start 1++c.touched)⟩,?_,rfl,?_⟩
  · unfold parseBlockHeader readUInt8 readUInt16
    rw [Parser.bind_of_some (Parser.bind_of_some (Parser.take_of_le (by omega)) _),
      Parser.bind_of_some (Parser.skip_of_le (by simp only; omega)),
      Parser.bind_of_some (Parser.bind_of_some (Parser.take_of_le (by simp only; omega)) _)]
    rfl
  · have htype := Cursor.Adds.range c.start 1 c c.start
    have hlength := Cursor.Adds.range (c.start+2) 2
      ⟨c.start,List.range' c.start 1++c.touched⟩ (c.start+4)
    exact htype.trans (hlength.skip (by omega) (by omega)) (by omega) (by omega)

theorem parseBlockHeader_short (hc : c.start ≤ b.size) (h : b.size < c.start+4) :
    ∃ d, parseBlockHeader.run b c = (none,d) ∧
      Cursor.Adds c.start (if c.start < b.size then c.start+1 else c.start) c d := by
  unfold parseBlockHeader readUInt8 readUInt16
  split
  · rename_i hlt
    refine ⟨⟨if c.start+2 ≤ b.size then c.start+2 else c.start+1,
      List.range' c.start 1++c.touched⟩,?_,Cursor.Adds.range c.start 1 c _⟩
    rw [Parser.bind_of_some (Parser.bind_of_some (Parser.take_of_le (by omega)) _)]
    split
    · rename_i hskip
      have hone : (Parser.skip 1).run b ⟨c.start+1,List.range' c.start 1++c.touched⟩ =
          (some (),⟨c.start+2,List.range' c.start 1++c.touched⟩) := Parser.skip_of_le hskip
      rw [Parser.bind_of_some hone,Parser.bind_of_none
        (Parser.bind_of_none (Parser.take_of_lt (by simp only; omega)) _)]
    · rename_i hskip
      have hnone : (Parser.skip 1).run b ⟨c.start+1,List.range' c.start 1++c.touched⟩ =
          (none,⟨c.start+1,List.range' c.start 1++c.touched⟩) := by
        rw [Parser.skip]
        exact if_pos (by simp only; omega)
      exact Parser.bind_of_none hnone _
  · exact ⟨c,Parser.bind_of_none (Parser.bind_of_none (Parser.take_of_lt (by omega)) _) _,
      Cursor.Adds.nothing _ c⟩

/-- What a block leaves in the packet. -/
def taken (b : Region) (p : ℕ) (xr : XrPacket) : XrPacket :=
  if b.bytes p = kBlockTypeRrtr then { xr with rrtrBlockContext := some (rrtrAt b p) }
  else if b.bytes p = kBlockTypeDlrr then { xr with dlrrBlockContext := some (dlrrAt b p) }
  else xr

theorem parseRrtr_words : parseRrtr.Words 2 fun b p =>
    ⟨some ⟨loadUInt32BE fun i => b.bytes (p+i),loadUInt32BE fun i => b.bytes (p+4+i)⟩⟩ :=
  readUInt32_words.bind fun seconds => readUInt32_words.map fun fraction =>
    (⟨some ⟨seconds,fraction⟩⟩ : RrtrBlockContext)

theorem parseSubBlock_words : parseSubBlock.Words 3 receiveTimeInfoAt :=
  readUInt32_words.bind fun ssrc => readUInt32_words.bind fun lastRr =>
    readUInt32_words.map fun delay => ReceiveTimeInfo.mk ssrc lastRr delay

/-- The sub-blocks of a DLRR block, once its length is a multiple of three. -/
theorem subBlocks_words (n : ℕ) :
    (parseSubBlock.repeated n >>= fun subBlocks => pure (DlrrBlockContext.mk subBlocks)).Words
      (n*3) fun b p => ⟨(List.range n).map fun i => receiveTimeInfoAt b (p+12*i)⟩ :=
  (parseSubBlock_words.repeated n).map DlrrBlockContext.mk

theorem parseBlock_passes (h : Passes b p) (hc : c.start = p+4) (xr : XrPacket) :
    ∃ d, (parseBlock (b.bytes p) (blockLengthAt b p) xr).run b c = (some (taken b p xr),d) ∧
      d.start = p+blockSize b p ∧ Cursor.Adds (p+4) (p+blockSize b p) c d := by
  unfold parseBlock taken blockSize
  by_cases hrrtr : b.bytes p = kBlockTypeRrtr
  · have hsize := h.rrtr hrrtr
    simp only [if_pos hrrtr]
    cases parseRrtr_words.enough b c (by omega) with
    | intro d hd =>
        rw [Parser.bind_of_some hd.1]
        rw [hc] at hd ⊢
        exact ⟨d,rfl,hd.2.1,hd.2.2⟩
  · simp only [if_neg hrrtr]
    by_cases hdlrr : b.bytes p = kBlockTypeDlrr
    · have hsize := h.dlrr ⟨hrrtr,hdlrr⟩
      simp only [if_pos hdlrr]
      rw [blockEnd] at hsize
      cases (subBlocks_words ((blockLengthAt b p).toNat/3)).enough b c (by omega) with
      | intro d hd =>
          rw [hc] at hd
          have hrun : (parseDlrr (blockLengthAt b p)).run b c = (some (dlrrAt b p),d) := by
            unfold parseDlrr
            rw [Parser.bind_of_some (Parser.guard_of (by omega) b c)]
            exact hd.1
          rw [show p+4+4*((blockLengthAt b p).toNat/3*3) =
            p+(4+4*(blockLengthAt b p).toNat) by omega] at hd
          rw [Parser.bind_of_some hrun]
          exact ⟨d,rfl,hd.2.1,hd.2.2⟩
    · have hheader := h.header
      have hunknown := h.unknown ⟨hrrtr,hdlrr⟩
      simp only [if_neg hdlrr]
      rw [blockEnd] at hunknown
      have hconsume : (Parser.consume ((blockLengthAt b p).toNat*4)).run b c =
          (some false,c) := by
        rw [Parser.consume]
        exact if_pos (by omega)
      rw [Parser.bind_of_some hconsume,Parser.bind_of_some (Parser.guard_of rfl b c)]
      exact ⟨c,rfl,hc,Cursor.Adds.nothing _ c⟩

/-- A block of which words are read. -/
abbrev ReadsWords (b : Region) (p : ℕ) : Prop :=
  IsRrtr b p ∨ IsDlrr b p ∧ 3 ∣ (blockLengthAt b p).toNat

/-- How far a round reads that fails at the contents of a block. -/
def contentEnd (b : Region) (p : ℕ) : ℕ :=
  if ReadsWords b p then p+4+4*((b.size-(p+4))/4) else p+4

theorem parseBlock_fails (hsize : p+4 ≤ b.size) (h : ¬Passes b p) (hc : c.start = p+4)
    (xr : XrPacket) :
    ∃ d, (parseBlock (b.bytes p) (blockLengthAt b p) xr).run b c = (none,d) ∧
      Cursor.Adds (p+4) (contentEnd b p) c d := by
  unfold parseBlock contentEnd
  by_cases hrrtr : b.bytes p = kBlockTypeRrtr
  · have hshort : b.size < p+12 := by
      by_contra hlong
      exact h ⟨hsize,fun _ => by omega,fun hdlrr => absurd hrrtr hdlrr.1,
        fun hunknown => absurd hrrtr hunknown.1⟩
    rw [if_pos hrrtr,if_pos (Or.inl hrrtr)]
    cases parseRrtr_words.short b c (by omega) (by omega) with
    | intro d hd =>
        rw [hc] at hd
        exact ⟨d,Parser.bind_of_none hd.1 _,hd.2⟩
  · rw [if_neg hrrtr]
    by_cases hdlrr : b.bytes p = kBlockTypeDlrr
    · rw [if_pos hdlrr]
      by_cases hthree : 3 ∣ (blockLengthAt b p).toNat
      · have hshort : b.size < blockEnd b p := by
          by_contra hlong
          exact h ⟨hsize,fun h' => absurd h' hrrtr,fun _ => ⟨hthree,by omega⟩,
            fun hunknown => absurd hdlrr hunknown.2⟩
        rw [blockEnd] at hshort
        rw [if_pos (Or.inr ⟨⟨hrrtr,hdlrr⟩,hthree⟩)]
        cases (subBlocks_words ((blockLengthAt b p).toNat/3)).short b c (by omega)
          (by omega) with
        | intro d hd =>
            rw [hc] at hd
            have hrun : (parseDlrr (blockLengthAt b p)).run b c = (none,d) := by
              unfold parseDlrr
              rw [Parser.bind_of_some (Parser.guard_of (by omega) b c)]
              exact hd.1
            exact ⟨d,Parser.bind_of_none hrun _,hd.2⟩
      · rw [if_neg (by
          intro h'
          cases h' with
          | inl h' => exact hrrtr h'
          | inr h' => exact hthree h'.2)]
        have hrun : (parseDlrr (blockLengthAt b p)).run b c = (none,c) := by
          unfold parseDlrr
          apply Parser.bind_of_none
          rw [Parser.guard,if_neg (by omega),Parser.run_fail]
        exact ⟨c,Parser.bind_of_none hrun _,Cursor.Adds.nothing _ c⟩
    · have hlong : blockEnd b p ≤ b.size := by
        by_contra hshort
        exact h ⟨hsize,fun h' => absurd h' hrrtr,fun h' => absurd h'.2 hdlrr,fun _ => by omega⟩
      rw [blockEnd] at hlong
      rw [if_neg hdlrr,if_neg (by
        intro h'
        cases h' with
        | inl h' => exact hrrtr h'
        | inr h' => exact hdlrr h'.1.2)]
      have hconsume : (Parser.consume ((blockLengthAt b p).toNat*4)).run b c =
          (some true,{ c with start := c.start+(blockLengthAt b p).toNat*4 }) := by
        rw [Parser.consume]
        exact if_neg (by omega)
      refine ⟨{ c with start := c.start+(blockLengthAt b p).toNat*4 },?_,
        (Cursor.Adds.nothing _ c).congr rfl⟩
      rw [Parser.bind_of_some hconsume]
      apply Parser.bind_of_none
      rw [Parser.guard,if_neg (by decide),Parser.run_fail]

section Loop
variable {payloadLen : ℤ}

theorem parseBlocks_of_goesOn (h : GoesOn payloadLen) (fuel : ℕ) (xr : XrPacket) :
    parseBlocks (fuel+1) payloadLen xr = parseBlockHeader >>= fun r =>
      parseBlock r.1 r.2 xr >>=
        parseBlocks fuel (payloadLen-(r.2.toNat+kBlockHeaderIn32Bits)*4) := by
  rw [parseBlocks]
  exact if_pos h

theorem parseBlocks_of_not_goesOn (h : ¬GoesOn payloadLen) (fuel : ℕ) (xr : XrPacket) :
    parseBlocks (fuel+1) payloadLen xr = pure xr := by
  rw [parseBlocks]
  exact if_neg h

/-- A round that gets past its block. -/
theorem parseBlocks_passes (h : Passes b p) (hc : c.start = p) (hgo : GoesOn payloadLen)
    (fuel : ℕ) (xr : XrPacket) :
    ∃ d, (parseBlocks (fuel+1) payloadLen xr).run b c =
        (parseBlocks fuel (payloadLen-4*((blockLengthAt b p).toNat+1)) (taken b p xr)).run b d ∧
      d.start = p+blockSize b p ∧ Cursor.Adds p (p+blockSize b p) c d := by
  have hfour := four_le_blockSize b p
  cases parseBlockHeader_enough (b := b) (c := c) (by rw [hc]; exact h.header) with
  | intro d hd =>
      rw [hc] at hd
      cases parseBlock_passes h hd.2.1 xr with
      | intro e he =>
          refine ⟨e,?_,he.2.1,hd.2.2.trans he.2.2 (by omega) (by omega)⟩
          have hlength : (4*((blockLengthAt b p).toNat+1) : ℤ) =
              ((blockLengthAt b p).toNat+kBlockHeaderIn32Bits)*4 := by
            push_cast
            ring
          rw [parseBlocks_of_goesOn hgo,Parser.bind_of_some hd.1,Parser.bind_of_some he.1,hlength]

/-- How far a round reads that fails. -/
def roundEnd (b : Region) (p : ℕ) : ℕ :=
  if b.size < p+4 then if p < b.size then p+1 else p else contentEnd b p

theorem parseBlocks_fails (h : ¬Passes b p) (hc : c.start = p) (hp : p ≤ b.size)
    (hgo : GoesOn payloadLen) (fuel : ℕ) (xr : XrPacket) :
    ∃ d, (parseBlocks (fuel+1) payloadLen xr).run b c = (none,d) ∧
      Cursor.Adds p (roundEnd b p) c d := by
  rw [parseBlocks_of_goesOn hgo,roundEnd]
  split
  · rename_i hshort
    cases parseBlockHeader_short (b := b) (c := c) (by omega) (by omega) with
    | intro d hd =>
        rw [hc] at hd
        exact ⟨d,Parser.bind_of_none hd.1 _,hd.2⟩
  · rename_i hlong
    cases parseBlockHeader_enough (b := b) (c := c) (by omega) with
    | intro d hd =>
        rw [hc] at hd
        cases parseBlock_fails (by omega) h hd.2.1 xr with
        | intro e he =>
            refine ⟨e,?_,hd.2.2.trans he.2 (by omega) ?_⟩
            · rw [Parser.bind_of_some hd.1]
              exact Parser.bind_of_none he.1 _
            · rw [contentEnd]
              split
              · exact Nat.le_add_right _ _
              · exact Nat.le_refl _

end Loop
end Rounds

/-! ### The walk and the parse -/

section Walk
variable {b : Region} {k p : ℕ} {payloadLen : ℤ}

theorem Passes.le (h : Passes b p) : p+blockSize b p ≤ b.size := by
  have hheader := h.header
  unfold blockSize
  split
  · rename_i hrrtr
    exact h.rrtr hrrtr
  split
  · rename_i hrrtr hdlrr
    have hend := (h.dlrr ⟨hrrtr,hdlrr⟩).2
    rw [blockEnd] at hend
    omega
  · exact hheader

theorem Meets.dvd (h : Meets b k p payloadLen) : k+8 ≤ p ∧ 4 ∣ p-k := by
  induction h with
  | start => exact ⟨Nat.le_refl _,⟨2,by omega⟩⟩
  | @next p payloadLen _ _ _ ih =>
      have hblock := dvd_blockSize b p
      omega

/-- The header and the sender are there. -/
theorem parse_start (h : k+8 ≤ b.size) :
    ∃ d, parse.run b ⟨k,[]⟩ =
        (parseBlocks (b.size-(k+8)+1) (4*(headerAt b k).length.toNat-4)
          { header := headerAt b k
            senderSsrc := loadUInt32BE fun i => b.bytes (k+4+i) }).run b d ∧
      d.start = k+8 ∧ Cursor.Adds k (k+8) ⟨k,[]⟩ d := by
  cases parseCommonHeader_words.enough b ⟨k,[]⟩ (by simp only; omega) with
  | intro d hd =>
      simp only at hd
      cases readUInt32_words.enough b d (by rw [hd.2.1]; omega) with
      | intro e he =>
          rw [hd.2.1] at he
          refine ⟨e,?_,he.2.1,hd.2.2.trans he.2.2 (by omega) (by omega)⟩
          unfold parse
          rw [Parser.bind_of_some hd.1,Parser.bind_of_some he.1,
            Parser.bind_of_some (Parser.run_left b e),he.2.1,
            Int.mul_comm 4 ((headerAt b k).length.toNat : ℤ)]

/-- Otherwise nothing behind them is read. -/
theorem parse_short (h : b.size < k+8) : Refused b k := by
  have hend : k+4 ≤ packetEnd b k := by
    rw [packetEnd,RtcpCommonHeader.declaredSize]
    omega
  unfold Refused parse parseCommonHeader
  by_cases hheader : k+4 ≤ b.size
  · have hdata : (Parser.take 4).run b ⟨k,[]⟩ = (some fun i => b.bytes (k+i),
        ⟨k+4,List.range' k 4++[]⟩) := Parser.take_of_le hheader
    rw [Parser.bind_of_some (Parser.bind_of_some hdata _)]
    have hssrc : readUInt32.run b ⟨k+4,List.range' k 4++[]⟩ =
        (none,⟨k+4,List.range' k 4++[]⟩) := by
      unfold readUInt32
      exact Parser.bind_of_none (Parser.take_of_lt (by simp only; omega)) _
    rw [Parser.bind_of_none hssrc]
    refine ⟨rfl,?_⟩
    exact ((Cursor.Adds.range k 4 ⟨k,[]⟩ (k+4)).within_iff rfl (Nat.le_refl k) (by omega)).mpr hend
  · rw [Parser.bind_of_none (Parser.bind_of_none (Parser.take_of_lt (by simp only; omega)) _)]
    exact ⟨rfl,fun i hi => absurd hi List.not_mem_nil⟩

/-- `Parse` begins a round at each offset that the walk meets. -/
theorem Meets.run (h : Meets b k p payloadLen) (hsize : k+8 ≤ b.size) :
    ∃ fuel c xr, parse.run b ⟨k,[]⟩ = (parseBlocks (fuel+1) payloadLen xr).run b c ∧
      c.start = p ∧ p ≤ b.size ∧ b.size-p < fuel+1 ∧ Cursor.Adds k p ⟨k,[]⟩ c := by
  induction h with
  | start =>
      cases parse_start hsize with
      | intro d hd => exact ⟨_,d,_,hd.1,hd.2.1,hsize,Nat.lt_succ_self _,hd.2.2⟩
  | @next p payloadLen hmeets hgo hpass ih =>
      obtain ⟨fuel,c,xr,hrun,hc,hp,hfuel,hadds⟩ := ih
      have hheader := hpass.header
      have hfour := four_le_blockSize b p
      have hmeet := hmeets.dvd.1
      cases fuel with
      | zero => omega
      | succ fuel =>
          cases parseBlocks_passes hpass hc hgo (fuel+1) xr with
          | intro d hd =>
              exact ⟨fuel,d,_,hrun.trans hd.1,hd.2.1,hpass.le,by omega,
                hadds.trans hd.2.2 (by omega) (by omega)⟩

/-- The walk ends. -/
theorem Meets.exists_last (h : Meets b k p payloadLen) (hp : p ≤ b.size) :
    ∃ p payloadLen, Meets b k p payloadLen ∧ (¬GoesOn payloadLen ∨ ¬Passes b p) := by
  generalize hleft : b.size-p = left
  induction left using Nat.strong_induction_on generalizing p payloadLen with
  | _ left ih =>
      by_cases hgo : GoesOn payloadLen
      · by_cases hpass : Passes b p
        · have hfour := four_le_blockSize b p
          have hle := hpass.le
          exact ih (b.size-(p+blockSize b p)) (by omega) (h.next hgo hpass) hle rfl
        · exact ⟨p,payloadLen,h,.inr hpass⟩
      · exact ⟨p,payloadLen,h,.inl hgo⟩

/-! ### Rounds that fail -/

section Failing
variable {stop : ℕ}

theorem GivesUp.not_passes (h : GivesUp b stop p) : ¬Passes b p := by
  intro hpass
  have hheader := hpass.header
  cases h with
  | dlrr _ _ htype hthree => exact hthree (hpass.dlrr htype).1
  | unknown _ _ htype hlong =>
      have := hpass.unknown htype
      omega
  | shortHeader _ hshort => omega
  | shortRrtr _ _ htype hshort =>
      have := hpass.rrtr htype
      omega
  | shortDlrr _ _ htype hshort =>
      have := (hpass.dlrr htype).2
      omega
  | atEnd heq hend => omega

theorem GivesUp.lt (h : GivesUp b stop p) (hheader : p+4 ≤ b.size) : p < stop := by
  cases h with
  | dlrr hp _ _ _ => exact hp
  | unknown hp _ _ _ => exact hp
  | shortHeader hp _ => exact hp
  | shortRrtr hp _ _ _ => exact hp
  | shortDlrr hp _ _ _ => exact hp
  | atEnd heq hend => omega

theorem GivesUp.near (h : GivesUp b stop p) (hheader : p+4 ≤ b.size) (hwords : ReadsWords b p) :
    b.size < stop+4 := by
  cases h with
  | dlrr _ _ htype hthree =>
      cases hwords with
      | inl hrrtr => exact absurd hrrtr htype.1
      | inr hdlrr => exact absurd hdlrr.2 hthree
  | unknown _ _ htype _ =>
      cases hwords with
      | inl hrrtr => exact absurd hrrtr htype.1
      | inr hdlrr => exact absurd hdlrr.1.2 htype.2
  | shortHeader _ hshort => omega
  | shortRrtr _ hend _ _ => exact hend
  | shortDlrr _ hend _ _ => exact hend
  | atEnd heq hend => omega

/-- A round that fails reads nothing behind `stop` exactly when the block gives up there. -/
theorem roundEnd_le_iff (hdvd : (4 : ℤ) ∣ stop-p) (hfail : ¬Passes b p) :
    roundEnd b p ≤ stop ↔ GivesUp b stop p := by
  rw [roundEnd]
  by_cases hheader : p+4 ≤ b.size
  · rw [if_neg (by omega),contentEnd]
    by_cases hwords : ReadsWords b p
    · rw [if_pos hwords]
      constructor
      · intro hle
        cases hwords with
        | inl hrrtr =>
            apply GivesUp.shortRrtr (by omega) (by omega) hrrtr
            by_contra hlong
            exact hfail ⟨hheader,fun _ => by omega,fun h => absurd hrrtr h.1,
              fun h => absurd hrrtr h.1⟩
        | inr hdlrr =>
            apply GivesUp.shortDlrr (by omega) (by omega) hdlrr.1
            by_contra hlong
            exact hfail ⟨hheader,fun h => absurd h hdlrr.1.1,fun _ => ⟨hdlrr.2,by omega⟩,
              fun h => absurd hdlrr.1.2 h.2⟩
      · intro h
        have hlt := h.lt hheader
        have hnear := h.near hheader hwords
        omega
    · rw [if_neg hwords]
      constructor
      · intro hle
        by_cases hdlrr : IsDlrr b p
        · exact .dlrr (by omega) hheader hdlrr fun hthree => hwords (.inr ⟨hdlrr,hthree⟩)
        · have hrrtr : ¬IsRrtr b p := fun hrrtr => hwords (.inl hrrtr)
          have hunknown : IsUnknown b p := ⟨hrrtr,fun h => hdlrr ⟨hrrtr,h⟩⟩
          apply GivesUp.unknown (by omega) hheader hunknown
          by_contra hshort
          exact hfail ⟨hheader,fun h => absurd h hrrtr,fun h => absurd h hdlrr,fun _ => by omega⟩
      · intro h
        have hlt := h.lt hheader
        omega
  · rw [if_pos (by omega)]
    constructor
    · intro hle
      by_cases hlt : p < stop
      · exact .shortHeader hlt (by omega)
      · apply GivesUp.atEnd
        · split at hle <;> omega
        · split at hle <;> omega
    · intro h
      cases h with
      | dlrr _ h4 _ _ => omega
      | unknown _ h4 _ _ => omega
      | shortHeader hp _ => split <;> omega
      | shortRrtr hp _ _ _ => split <;> omega
      | shortDlrr hp _ _ _ => split <;> omega
      | atEnd heq hend => split <;> omega

/-- What a failing round makes of the packet. -/
theorem Meets.refused_iff (h : Meets b k p payloadLen) (hsize : k+8 ≤ b.size)
    (hgo : GoesOn payloadLen) (hfail : ¬Passes b p) :
    Refused b k ↔ GivesUp b (packetEnd b k) p := by
  have hmeet := h.dvd
  obtain ⟨fuel,c,xr,hrun,hc,hp,_,hadds⟩ := h.run hsize
  cases parseBlocks_fails hfail hc hp hgo fuel xr with
  | intro d hd =>
      have hle : p ≤ roundEnd b p := by
        rw [roundEnd,contentEnd]
        split
        · split <;> omega
        · split <;> omega
      have hall := hadds.trans hd.2 (by omega) hle
      rw [Refused,hrun,hd.1,hall.within_iff rfl (Nat.le_refl k) (by omega)]
      rw [← roundEnd_le_iff _ hfail]
      · exact and_iff_right rfl
      · rw [packetEnd,RtcpCommonHeader.declaredSize]
        omega

/-- A walk that ends in no failing round makes `Parse` return true. -/
theorem Meets.not_refused (h : Meets b k p payloadLen) (hsize : k+8 ≤ b.size)
    (hend : ¬GoesOn payloadLen) : ¬Refused b k := by
  obtain ⟨fuel,c,xr,hrun,_⟩ := h.run hsize
  intro hrefused
  rw [Refused,hrun,parseBlocks_of_not_goesOn hend,Parser.run_pure] at hrefused
  exact absurd hrefused.1 (Option.some_ne_none xr)

/-- From the sender on, the bytes are refused exactly when the walk comes to a block that
gives up before the declared end. -/
theorem refused_iff (hsize : k+8 ≤ b.size) :
    Refused b k ↔ ∃ p payloadLen, Meets b k p payloadLen ∧ GoesOn payloadLen ∧
      GivesUp b (packetEnd b k) p := by
  constructor
  · intro hrefused
    obtain ⟨p,payloadLen,hmeets,hlast⟩ := (Meets.start (b := b) (k := k)).exists_last hsize
    by_cases hgo : GoesOn payloadLen
    · have hfail : ¬Passes b p := by
        cases hlast with
        | inl hnot => exact absurd hgo hnot
        | inr hfail => exact hfail
      exact ⟨p,payloadLen,hmeets,hgo,(hmeets.refused_iff hsize hgo hfail).mp hrefused⟩
    · exact absurd hrefused (hmeets.not_refused hsize hgo)
  · intro h
    obtain ⟨p,payloadLen,hmeets,hgo,hgives⟩ := h
    exact (hmeets.refused_iff hsize hgo hgives.not_passes).mpr hgives

end Failing
end Walk

/-! ### Well-formed packets -/

section Chains
variable {b : Region} {k stop p : ℕ} {blocks : List ℕ}

theorem BlockChain.le (h : BlockChain b stop p blocks) : p ≤ stop := by
  induction h with
  | done => exact Nat.le_refl _
  | block _ _ _ ih =>
      rw [blockEnd] at ih
      omega

theorem BlockChain.unique {blocks' : List ℕ} (h : BlockChain b stop p blocks)
    (h' : BlockChain b stop p blocks') : blocks = blocks' := by
  induction h generalizing blocks' with
  | done =>
      cases h' with
      | done => rfl
      | block _ _ hrest =>
          have hle := hrest.le
          rw [blockEnd] at hle
          omega
  | block _ _ hrest ih =>
      cases h' with
      | done =>
          have hle := hrest.le
          rw [blockEnd] at hle
          omega
      | block _ _ hrest' => rw [ih hrest']

/-- A known block of a well-formed packet is passed, by what it declares. -/
theorem passes_of_known (hrrtr : IsRrtr b p → (blockLengthAt b p).toNat = 2)
    (hdlrr : IsDlrr b p → 3 ∣ (blockLengthAt b p).toNat) (hend : blockEnd b p ≤ b.size)
    (hknown : ¬IsUnknown b p) : Passes b p ∧ p+blockSize b p = blockEnd b p := by
  have hheader : p+4 ≤ b.size := by
    rw [blockEnd] at hend
    omega
  constructor
  · refine ⟨hheader,fun h => ?_,fun h => ⟨hdlrr h,hend⟩,fun h => absurd h hknown⟩
    rw [blockEnd,hrrtr h] at hend
    exact hend
  · rw [blockSize,blockEnd]
    split
    · rename_i h
      rw [hrrtr h]
    · rename_i hnot
      split
      · omega
      · rename_i hnot'
        exact absurd ⟨hnot,hnot'⟩ hknown

/-- Along known blocks `Parse` gets to the end of the packet. -/
theorem BlockChain.parses (h : BlockChain b stop p blocks) (hstop : stop ≤ b.size)
    (hknown : ∀ q ∈ blocks, ¬IsUnknown b q) {c : Cursor} (hc : c.start = p) {fuel : ℕ}
    (hfuel : b.size-p < fuel) (xr : XrPacket) :
    ∃ d, (parseBlocks fuel ((stop : ℤ)-p) xr).run b c =
        (some (blocks.foldl (fun xr q => taken b q xr) xr),d) ∧ d.start = stop := by
  induction h generalizing c fuel xr with
  | done =>
      cases fuel with
      | zero => omega
      | succ fuel =>
          rw [sub_self,parseBlocks_of_not_goesOn (by simp [GoesOn])]
          exact ⟨c,rfl,hc⟩
  | @block p ps hrrtr hdlrr hrest ih =>
      have hle := hrest.le
      have hpass := passes_of_known hrrtr hdlrr (hle.trans hstop) (hknown p List.mem_cons_self)
      have hgo : GoesOn ((stop : ℤ)-p) := by
        right
        rw [blockEnd] at hle
        simp only [kXrBaseLength]
        omega
      cases fuel with
      | zero => omega
      | succ fuel =>
          cases parseBlocks_passes hpass.1 hc hgo fuel xr with
          | intro d hd =>
              rw [hpass.2] at hd
              have hend : blockEnd b p = p+4*((blockLengthAt b p).toNat+1) := rfl
              have hlength : (stop : ℤ)-p-4*((blockLengthAt b p).toNat+1) =
                  stop-(blockEnd b p : ℕ) := by
                rw [hend]
                push_cast
                ring
              have hheader := hpass.1.header
              rw [hd.1,hlength,List.foldl_cons]
              exact ih (fun q hq => hknown q (List.mem_cons_of_mem _ hq)) hd.2.1 (by omega)
                (taken b p xr)

/-- An unknown block of a well-formed packet could be passed over, so it is refused. -/
theorem BlockChain.meets_unknown (h : BlockChain b stop p blocks) (hstop : stop ≤ b.size)
    (hmeets : Meets b k p ((stop : ℤ)-p)) (hunknown : ∃ q ∈ blocks, IsUnknown b q) :
    ∃ q payloadLen, Meets b k q payloadLen ∧ GoesOn payloadLen ∧ ¬Passes b q := by
  induction h with
  | done =>
      cases hunknown with
      | intro q hq => exact absurd hq.1 List.not_mem_nil
  | @block p ps hrrtr hdlrr hrest ih =>
      have hle := hrest.le
      have hend : blockEnd b p = p+4*((blockLengthAt b p).toNat+1) := rfl
      have hgo : GoesOn ((stop : ℤ)-p) := by
        right
        simp only [kXrBaseLength]
        omega
      by_cases htype : IsUnknown b p
      · refine ⟨p,_,hmeets,hgo,fun hpass => ?_⟩
        have hshort := hpass.unknown htype
        omega
      · have hpass := passes_of_known hrrtr hdlrr (hle.trans hstop) htype
        have hnext := hmeets.next hgo hpass.1
        have hlength : (stop : ℤ)-p-4*((blockLengthAt b p).toNat+1) =
            stop-(blockEnd b p : ℕ) := by
          rw [hend]
          push_cast
          ring
        rw [hpass.2,hlength] at hnext
        apply ih hnext
        cases hunknown with
        | intro q hq =>
            rw [List.mem_cons] at hq
            cases hq.1 with
            | inl hfirst =>
                rw [hfirst] at hq
                exact absurd hq.2 htype
            | inr hlater => exact ⟨q,hlater,hq.2⟩

/-- The last block of each type is what remains. -/
theorem foldl_taken (blocks : List ℕ) (header : RtcpCommonHeader) (senderSsrc : BitVec 32) :
    blocks.foldl (fun xr q => taken b q xr) { header := header, senderSsrc := senderSsrc } =
      { header := header
        senderSsrc := senderSsrc
        rrtrBlockContext := (blocks.filter fun p => IsRrtr b p).getLast?.map (rrtrAt b)
        dlrrBlockContext := (blocks.filter fun p => IsDlrr b p).getLast?.map (dlrrAt b) } := by
  induction blocks using List.reverseRecOn with
  | nil => rfl
  | append_singleton blocks q ih =>
      rw [List.foldl_append,ih,List.foldl_cons,List.foldl_nil,taken,List.filter_append,
        List.filter_append]
      have hlast : ∀ (kind : ℕ → Bool), kind q = true → [q].filter kind = [q] :=
        fun kind h => List.filter_cons_of_pos h
      have hother : ∀ (kind : ℕ → Bool), ¬kind q = true → [q].filter kind = [] :=
        fun kind h => List.filter_cons_of_neg h
      by_cases hrrtr : IsRrtr b q
      · have hdlrr : ¬IsDlrr b q := fun h => h.1 hrrtr
        rw [if_pos hrrtr,hlast _ (decide_eq_true hrrtr),
          hother _ (by rw [decide_eq_true_eq]; exact hdlrr),List.append_nil,List.getLast?_concat]
        rfl
      · rw [if_neg hrrtr,hother _ (by rw [decide_eq_true_eq]; exact hrrtr),List.append_nil]
        by_cases htype : b.bytes q = kBlockTypeDlrr
        · have hdlrr : IsDlrr b q := ⟨hrrtr,htype⟩
          rw [if_pos htype,hlast _ (decide_eq_true hdlrr),List.getLast?_concat]
          rfl
        · have hdlrr : ¬IsDlrr b q := fun h => htype h.2
          rw [if_neg htype,hother _ (by rw [decide_eq_true_eq]; exact hdlrr),List.append_nil]

theorem packetEnd_eq (b : Region) (k : ℕ) :
    packetEnd b k = k+4*((headerAt b k).length.toNat+1) := rfl

theorem WellFormed.size (h : WellFormed b k blocks) : k+8 ≤ b.size :=
  h.chain.le.trans h.inside

theorem WellFormed.payloadLen (_h : WellFormed b k blocks) :
    (4*(headerAt b k).length.toNat-4 : ℤ) = (packetEnd b k : ℤ)-(k+8 : ℕ) := by
  rw [packetEnd_eq]
  push_cast
  ring

/-- A well-formed packet is accepted exactly when all its blocks are known. -/
theorem WellFormed.accepted_iff (h : WellFormed b k blocks) :
    Accepted b k blocks ↔ ∀ p ∈ blocks, ¬IsUnknown b p := by
  constructor
  · intro haccepted
    by_contra hunknown
    simp only [not_forall,not_not,exists_prop] at hunknown
    have hmeets := Meets.start (b := b) (k := k)
    rw [h.payloadLen] at hmeets
    obtain ⟨q,payloadLen,hmeets,hgo,hfail⟩ := h.chain.meets_unknown h.inside hmeets hunknown
    obtain ⟨fuel,c,xr,hrun,hc,hq,_⟩ := hmeets.run h.size
    cases parseBlocks_fails hfail hc hq hgo fuel xr with
    | intro d hd =>
        rw [Accepted,hrun,hd.1] at haccepted
        exact absurd haccepted.1.symm (Option.some_ne_none _)
  · intro hknown
    cases parse_start h.size with
    | intro c hc =>
        cases h.chain.parses h.inside hknown hc.2.1 (Nat.lt_succ_self _)
          { header := headerAt b k, senderSsrc := loadUInt32BE fun i => b.bytes (k+4+i) } with
        | intro d hd =>
            rw [Accepted,hc.1,h.payloadLen,hd.1,foldl_taken]
            exact ⟨rfl,hd.2⟩

/-- `Parse` is right on a well-formed packet exactly when all its blocks are RRTR or DLRR
blocks. On other bytes it is right exactly when they end before the blocks, or the walk comes
to a block that gives up before it has read behind the declared end. -/
theorem parsesRight_iff (b : Region) (k : ℕ) :
    ParsesRight b k ↔
      (∃ blocks, WellFormed b k blocks ∧ ∀ p ∈ blocks, ¬IsUnknown b p) ∨
        (¬∃ blocks, WellFormed b k blocks) ∧ (b.size < k+8 ∨
          ∃ p payloadLen, Meets b k p payloadLen ∧ GoesOn payloadLen ∧
            GivesUp b (packetEnd b k) p) := by
  by_cases hformed : ∃ blocks, WellFormed b k blocks
  · simp only [hformed,not_true_eq_false,false_and,or_false]
    cases hformed with
    | intro blocks hblocks =>
        constructor
        · intro hright
          exact ⟨blocks,hblocks,hblocks.accepted_iff.mp (hright.accepts blocks hblocks)⟩
        · intro hknown
          refine ⟨fun blocks' hblocks' => ?_,fun hnot => absurd ⟨blocks,hblocks⟩ hnot⟩
          cases hknown with
          | intro known hknown =>
              rw [← hknown.1.chain.unique hblocks'.chain]
              exact hknown.1.accepted_iff.mpr hknown.2
  · have hnone : ¬∃ blocks, WellFormed b k blocks ∧ ∀ p ∈ blocks, ¬IsUnknown b p :=
      fun h => hformed ⟨h.choose,h.choose_spec.1⟩
    have hright : ParsesRight b k ↔ Refused b k := by
      constructor
      · intro h
        exact h.refuses hformed
      · intro h
        exact ⟨fun blocks hblocks => absurd ⟨blocks,hblocks⟩ hformed,fun _ => h⟩
    rw [hright,or_iff_right hnone,and_iff_right hformed]
    by_cases hsize : k+8 ≤ b.size
    · rw [refused_iff hsize,or_iff_right (by omega)]
    · constructor
      · intro _
        exact .inl (by omega)
      · intro _
        exact parse_short (by omega)

/-- A packet with one block of statistics, which is of no type that `Parse` knows. -/
def statisticsReport : Region :=
  Region.ofList [0x80,207,0,3,0,0,0,5,6,0,0,1,0,0,0,0] (fun _ => 0) (by decide)

theorem not_always_parsesRight : ¬∀ (b : Region) (k : ℕ), ParsesRight b k := by
  intro h
  have hformed : WellFormed statisticsReport 0 [8] :=
    ⟨by decide,.block (by decide) (by decide) .done⟩
  have haccepted := (h statisticsReport 0).accepts [8] hformed
  exact absurd haccepted.1 (by decide)

end Chains

end Ylrtc.RtcpPackets.XrPacket
