import Ylrtc.Rtcp.FeedbackWire

/-!
# Every byte that `Parse` of a transport feedback touches

The loads behind the common fields go through a raw pointer. Each is checked against the
declared length or not at all, so what `Parse` touches on every path, failing ones included,
is an interval that starts at the reader and can end behind its buffer.
-/
namespace Ylrtc.FeedbackWire
open ByteBuffer CursorParser FeedbackBuilder RtcpHeader StatusChunk TransportFeedback

section Fixed
variable {b : Region} {k : ℕ}

/-- A transport feedback header with its two SSRCs in the buffer. -/
def IsFeedback (b : Region) (k : ℕ) : Prop :=
  k+12 ≤ b.size ∧ (headerAt b k).packetType = kRtcpTypeRtpfb ∧
    (headerAt b k).countOrFormat = kTwcc

def statusCountAt (b : Region) (k : ℕ) : BitVec 16 := loadUInt16BE fun i => b.bytes (k+14+i)

theorem parseCommonHeader_run (t : List ℕ) (h : k+4 ≤ b.size) :
    parseCommonHeader.run b ⟨k,t⟩ = (some (headerAt b k),⟨k+4,List.range' k 4++t⟩) := by
  unfold parseCommonHeader
  rw [Parser.bind_of_some (Parser.take_of_le h)]
  rfl

theorem readUInt32_run (t : List ℕ) (h : k+4 ≤ b.size) :
    ∃ v, readUInt32.run b ⟨k,t⟩ = (some v,⟨k+4,List.range' k 4++t⟩) := by
  unfold readUInt32
  rw [Parser.bind_of_some (Parser.take_of_le h)]
  exact ⟨_,rfl⟩

theorem readUInt32_short (t : List ℕ) (h : b.size < k+4) :
    readUInt32.run b ⟨k,t⟩ = (none,⟨k,t⟩) := by
  unfold readUInt32
  exact Parser.bind_of_none (Parser.take_of_lt (by simp only; omega)) _

/-- What `Parse` does up to the status chunks: it has touched twenty bytes by then. -/
theorem parse_prefix (fb : TransportFeedback) (h : IsFeedback b k) :
    ∃ fb₀ t, (parse fb).run b ⟨k,[]⟩ = (Parser.guard (statusCountAt b k ≠ 0) >>= fun _ =>
        parseStatuses (k+4) ((headerAt b k).length.toNat*4) (statusCountAt b k) fb₀).run b
          ⟨k+12,t⟩ ∧
      Cursor.Adds k (k+20) ⟨k,[]⟩ ⟨k+12,t⟩ := by
  obtain ⟨hsize,htype,hformat⟩ := h
  obtain ⟨sender,hsender⟩ := readUInt32_run (b := b) (List.range' k 4++[])
    (show k+4+4 ≤ b.size by omega)
  obtain ⟨media,hmedia⟩ := readUInt32_run (b := b) (List.range' (k+4) 4++(List.range' k 4++[]))
    (show k+8+4 ≤ b.size by omega)
  have hssrcs : parseCommonFeedback.run b ⟨k+4,List.range' k 4++[]⟩ = (some (sender,media),
      ⟨k+12,List.range' (k+8) 4++(List.range' (k+4) 4++(List.range' k 4++[]))⟩) := by
    unfold parseCommonFeedback
    rw [Parser.bind_of_some hsender,Parser.bind_of_some hmedia]
    rfl
  have hpayload : k+12-kCommonFeedbackLength = k+4 := rfl
  refine ⟨clear { fb with
      senderSsrc := sender, mediaSsrc := media
      baseSeqNo := loadUInt16BE fun i => b.bytes (k+4+8+i)
      baseTimeTicks := (loadUInt24BE fun i => b.bytes (k+4+12+i)).toInt
      feedbackSeq := b.bytes (k+4+15+0) },
    List.range' (k+19) 1++(List.range' (k+16) 3++(List.range' (k+14) 2++(List.range' (k+12) 2++
      (List.range' (k+8) 4++(List.range' (k+4) 4++(List.range' k 4++[])))))),?_,?_⟩
  · unfold parse
    rw [Parser.bind_of_some (parseCommonHeader_run [] (by omega)),
      Parser.bind_of_some (Parser.guard_of ⟨htype,hformat⟩ _ _),Parser.bind_of_some hssrcs]
    simp only
    rw [Parser.bind_of_some (Parser.run_position _ _)]
    simp only [hpayload]
    rw [Parser.bind_of_some (Parser.run_load _ _ _ _),
      Parser.bind_of_some (Parser.run_load _ _ _ _),
      Parser.bind_of_some (Parser.run_load _ _ _ _),
      Parser.bind_of_some (Parser.run_load _ _ _ _)]
    rfl
  · have hstep : ∀ (m n : ℕ) (t : List ℕ), Cursor.Adds k (k+m) ⟨k,[]⟩ ⟨k+12,t⟩ →
        Cursor.Adds k (k+(m+n)) ⟨k,[]⟩ ⟨k+12,List.range' (k+m) n++t⟩ := by
      intro m n t ht
      have hrange := Cursor.Adds.range (k+m) n ⟨k+12,t⟩ (k+12)
      rw [Nat.add_assoc] at hrange
      exact ht.trans hrange (by omega) (by omega)
    have h0 : Cursor.Adds k (k+0) ⟨k,[]⟩ ⟨k+12,[]⟩ := (Cursor.Adds.nothing k ⟨k,[]⟩).congr rfl
    exact hstep 19 1 _ (hstep 16 3 _ (hstep 14 2 _ (hstep 12 2 _ (hstep 8 4 _ (hstep 4 4 _
      (hstep 0 4 _ h0))))))

/-- Everything else is refused inside the buffer. -/
theorem parse_refused (fb : TransportFeedback) (h : ¬IsFeedback b k) :
    ∃ c, (parse fb).run b ⟨k,[]⟩ = (none,c) ∧ c.Within k b.size := by
  have hnothing : (⟨k,[]⟩ : Cursor).Within k b.size := by
    intro i hi
    cases hi
  unfold parse
  by_cases h4 : k+4 ≤ b.size
  · have hheader : (⟨k+4,List.range' k 4++[]⟩ : Cursor).Within k b.size :=
      hnothing.range rfl (Nat.le_refl k) h4
    rw [Parser.bind_of_some (parseCommonHeader_run [] h4)]
    by_cases htype : (headerAt b k).packetType = kRtcpTypeRtpfb ∧
        (headerAt b k).countOrFormat = kTwcc
    · rw [Parser.bind_of_some (Parser.guard_of htype _ _)]
      by_cases h8 : k+8 ≤ b.size
      · have h12 : b.size < k+8+4 := by
          by_contra h12
          exact h ⟨by omega,htype⟩
        obtain ⟨sender,hsender⟩ := readUInt32_run (List.range' k 4++[])
          (show k+4+4 ≤ b.size by omega)
        have hshort : parseCommonFeedback.run b ⟨k+4,List.range' k 4++[]⟩ = (none,
            ⟨k+8,List.range' (k+4) 4++(List.range' k 4++[])⟩) := by
          unfold parseCommonFeedback
          rw [Parser.bind_of_some hsender]
          exact Parser.bind_of_none (readUInt32_short _ h12) _
        rw [Parser.bind_of_none hshort]
        exact ⟨_,rfl,hheader.range rfl (by omega) (by omega)⟩
      · have hshort : parseCommonFeedback.run b ⟨k+4,List.range' k 4++[]⟩ = (none,
            ⟨k+4,List.range' k 4++[]⟩) := by
          unfold parseCommonFeedback
          exact Parser.bind_of_none (readUInt32_short _ (by omega)) _
        rw [Parser.bind_of_none hshort]
        exact ⟨_,rfl,hheader⟩
    · have hguard : (Parser.guard ((headerAt b k).packetType = kRtcpTypeRtpfb ∧
          (headerAt b k).countOrFormat = kTwcc)).run b ⟨k+4,List.range' k 4++[]⟩ =
            (none,⟨k+4,List.range' k 4++[]⟩) := by
        rw [Parser.guard,if_neg htype,Parser.run_fail]
      rw [Parser.bind_of_none hguard]
      exact ⟨_,rfl,hheader⟩
  · have hshort : parseCommonHeader.run b ⟨k,[]⟩ = (none,⟨k,[]⟩) := by
      unfold parseCommonHeader
      exact Parser.bind_of_none (Parser.take_of_lt (by simp only; omega)) _
    rw [Parser.bind_of_none hshort]
    exact ⟨_,rfl,hnothing⟩

end Fixed
section Loops
variable {b : Region} {payload endIndex statusCount : ℕ}

/-- The status chunks in memory from `index` on: how far they reach and what they say. -/
inductive ChunksAt (bytes : ℕ → Byte) (payload statusCount : ℕ) :
    ℕ → List ℕ → ℕ → List ℕ → Prop
  | done {index : ℕ} {acc : List ℕ} : statusCount ≤ acc.length →
      ChunksAt bytes payload statusCount index acc index acc
  | more {index stop : ℕ} {acc syms : List ℕ} : acc.length < statusCount →
      ChunksAt bytes payload statusCount (index+2)
        (acc++symbols (loadUInt16BE fun i => bytes (payload+index+i)) (statusCount-acc.length))
        stop syms →
      ChunksAt bytes payload statusCount index acc stop syms

theorem ChunksAt.le {bytes : ℕ → Byte} {index stop : ℕ} {acc syms : List ℕ}
    (h : ChunksAt bytes payload statusCount index acc stop syms) : index ≤ stop := by
  induction h with
  | done _ => exact Nat.le_refl _
  | more _ _ ih => omega

theorem ChunksAt.unique {bytes : ℕ → Byte} {index stop stop' : ℕ} {acc syms syms' : List ℕ}
    (h : ChunksAt bytes payload statusCount index acc stop syms)
    (h' : ChunksAt bytes payload statusCount index acc stop' syms') :
    stop = stop' ∧ syms = syms' := by
  induction h with
  | done hle =>
      cases h' with
      | done _ => exact ⟨rfl,rfl⟩
      | more hlt _ => omega
  | more hlt _ ih =>
      cases h' with
      | done hle => omega
      | more _ hrest => exact ih hrest

theorem toNat_and_le (x m : BitVec 16) : (x &&& m).toNat ≤ m.toNat := by
  rw [BitVec.toNat_and]
  exact Nat.and_le_right

/-- A decoded symbol has two bits. -/
theorem symbols_le (chunk : Chunk) (n : ℕ) : ∀ d ∈ symbols chunk n, d ≤ 3 := by
  have hthree : ∀ x : BitVec 16, (x &&& 0x03#16).toNat ≤ 3 := fun x => toNat_and_le x 0x03#16
  have hone : ∀ x : BitVec 16, (x &&& 0x01#16).toNat ≤ 3 :=
    fun x => (toNat_and_le x 0x01#16).trans (by decide)
  have hsizes : ∀ d ∈ (decode chunk n).deltaSizes, d ≤ 3 := by
    intro d hd
    unfold decode at hd
    split at hd
    · simp only [decodeRunLength] at hd
      rw [List.eq_of_mem_replicate hd]
      exact hthree _
    split at hd
    · simp only [decodeOneBit,List.mem_map] at hd
      obtain ⟨i,_,rfl⟩ := hd
      exact hone _
    · simp only [decodeTwoBit,List.mem_map] at hd
      obtain ⟨i,_,rfl⟩ := hd
      exact hthree _
  have hfirst : (decode chunk n).first ≤ 3 := by
    unfold LastChunk.first
    cases hs : (decode chunk n).deltaSizes with
    | nil => decide
    | cons d ds => exact hsizes d (by rw [hs]; exact List.mem_cons_self)
  intro d hd
  unfold symbols LastChunk.contents at hd
  split at hd
  · rw [List.eq_of_mem_replicate hd]
    exact hfirst
  · exact hsizes d (List.mem_of_mem_take hd)

theorem ChunksAt.le_three {bytes : ℕ → Byte} {index stop : ℕ} {acc syms : List ℕ}
    (h : ChunksAt bytes payload statusCount index acc stop syms) (hacc : ∀ d ∈ acc, d ≤ 3) :
    ∀ d ∈ syms, d ≤ 3 := by
  induction h with
  | done _ => exact hacc
  | more _ _ ih =>
      apply ih
      intro d hd
      rw [List.mem_append] at hd
      cases hd with
      | inl hd => exact hacc d hd
      | inr hd => exact symbols_le _ _ d hd

/-- The chunk loop touches an interval. It stops behind the last chunk, or where the next
chunk would pass the declared end. -/
theorem parseChunks_touches (payload endIndex statusCount : ℕ) {fuel : ℕ} (index : ℕ)
    (acc : List ℕ) (fb : TransportFeedback) (c : Cursor) (hpos : 0 < fuel)
    (hfuel : endIndex < index+fuel) (heven : 2 ∣ index) :
    ∃ stop d, index ≤ stop ∧ 2 ∣ stop ∧ stop ≤ max index endIndex ∧
      Cursor.Adds (payload+index) (payload+stop) c d ∧ d.start = c.start ∧
      ((∃ syms fb', (parseChunks payload endIndex statusCount fuel index acc fb).run b c =
          (some (stop,syms,fb'),d) ∧ ChunksAt b.bytes payload statusCount index acc stop syms) ∨
        ((parseChunks payload endIndex statusCount fuel index acc fb).run b c = (none,d) ∧
          endIndex < stop+2 ∧
          ∀ stop' syms, ChunksAt b.bytes payload statusCount index acc stop' syms →
            endIndex < stop')) := by
  induction fuel generalizing index acc fb c with
  | zero => omega
  | succ fuel ih =>
      by_cases hcount : acc.length < statusCount
      · by_cases hend : index+2 ≤ endIndex
        · have hstep : (parseChunks payload endIndex statusCount (fuel+1) index acc fb).run b c =
              (parseChunks payload endIndex statusCount fuel (index+2)
                (acc++symbols (loadUInt16BE fun i => b.bytes (payload+index+i))
                  (statusCount-acc.length))
                { fb with
                  encodedChunks := fb.encodedChunks++
                    [loadUInt16BE fun i => b.bytes (payload+index+i)]
                  lastChunk := decode (loadUInt16BE fun i => b.bytes (payload+index+i))
                    (statusCount-acc.length) }).run b
                ⟨c.start,List.range' (payload+index) 2++c.touched⟩ := by
            rw [parseChunks,if_pos hcount,Parser.bind_of_some (Parser.guard_of hend b c),
              Parser.bind_of_some (Parser.run_load _ _ _ _)]
            rfl
          obtain ⟨stop,d,hle,hstop,hmax,hadds,hstart,hresult⟩ := ih (index+2)
            (acc++symbols (loadUInt16BE fun i => b.bytes (payload+index+i))
              (statusCount-acc.length)) _ ⟨c.start,List.range' (payload+index) 2++c.touched⟩
            (by omega) (by omega) (by omega)
          have hfirst := Cursor.Adds.range (payload+index) 2 c c.start
          refine ⟨stop,d,by omega,hstop,by omega,hfirst.trans hadds (by omega) (by omega),
            hstart,?_⟩
          rw [hstep]
          cases hresult with
          | inl hsome =>
              obtain ⟨syms,fb',hrun,hchunks⟩ := hsome
              exact Or.inl ⟨syms,fb',hrun,.more hcount hchunks⟩
          | inr hnone =>
              refine Or.inr ⟨hnone.1,hnone.2.1,?_⟩
              intro stop' syms hchunks
              cases hchunks with
              | done hge => omega
              | more _ hrest => exact hnone.2.2 stop' syms hrest
        · refine ⟨index,c,Nat.le_refl _,heven,by omega,Cursor.Adds.nothing _ c,rfl,Or.inr ?_⟩
          refine ⟨?_,by omega,?_⟩
          · rw [parseChunks,if_pos hcount]
            exact Parser.bind_of_none (by rw [Parser.guard,if_neg hend,Parser.run_fail]) _
          · intro stop' syms hchunks
            cases hchunks with
            | done hge => omega
            | more _ hrest =>
                have := hrest.le
                omega
      · refine ⟨index,c,Nat.le_refl _,heven,by omega,Cursor.Adds.nothing _ c,rfl,Or.inl ?_⟩
        exact ⟨acc,fb,by rw [parseChunks,if_neg hcount]; rfl,.done (by omega)⟩

/-- More fuel than the declared length never changes what the chunk loop does. -/
theorem parseChunks_fuel {m n index : ℕ} {acc : List ℕ} (fb : TransportFeedback) (c : Cursor)
    (hm : endIndex < index+m) (hm' : 0 < m) (hn : endIndex < index+n) (hn' : 0 < n) :
    (parseChunks payload endIndex statusCount m index acc fb).run b c =
      (parseChunks payload endIndex statusCount n index acc fb).run b c := by
  induction m generalizing n index acc fb c with
  | zero => omega
  | succ m ih =>
      cases n with
      | zero => omega
      | succ n =>
          rw [parseChunks,parseChunks]
          split
          · apply Parser.bind_congr
            intro _ d hguard
            have hend := (Parser.guard_eq_some hguard).1
            have hchunk : kChunkSizeBytes = 2 := rfl
            apply Parser.bind_congr
            intro data e _
            exact ih _ _ (by omega) (by omega) (by omega) (by omega)
          · rfl

/-- What a list of symbols makes the delta loop touch, up to the first reserved one. -/
abbrev DeltaOutcome (base : ℕ) (syms : List ℕ) (c d : Cursor)
    (result : Option (ℕ × TransportFeedback) × Cursor) : Prop :=
  (3 ∉ syms ∧ Cursor.Adds base (base+syms.sum) c d ∧ ∃ r, result = (some r,d)) ∨
    ∃ before after, syms = before++3::after ∧ 3 ∉ before ∧
      Cursor.Adds base (base+before.sum) c d ∧ result = (none,d)

theorem extend_touches {base s : ℕ} {syms : List ℕ} {c c' d : Cursor}
    {result : Option (ℕ × TransportFeedback) × Cursor} (hs : s ≠ 3)
    (hfirst : Cursor.Adds base (base+s) c c') (h : DeltaOutcome (base+s) syms c' d result) :
    DeltaOutcome base (s::syms) c d result := by
  cases h with
  | inl hall =>
      obtain ⟨hnot,hadds,hrun⟩ := hall
      refine Or.inl ⟨?_,?_,hrun⟩
      · simp only [List.mem_cons,not_or]
        exact ⟨hs.symm,hnot⟩
      · rw [List.sum_cons,← Nat.add_assoc]
        exact hfirst.trans hadds (by omega) (by omega)
  | inr hstop =>
      obtain ⟨before,after,rfl,hnot,hadds,hrun⟩ := hstop
      refine Or.inr ⟨s::before,after,rfl,?_,?_,hrun⟩
      · simp only [List.mem_cons,not_or]
        exact ⟨hs.symm,hnot⟩
      · rw [List.sum_cons,← Nat.add_assoc]
        exact hfirst.trans hadds (by omega) (by omega)

/-- The delta loop touches the deltas up to the first reserved symbol, and fails there. -/
theorem parseDeltas_touches (payload endIndex : ℕ) {syms : List ℕ} (hsyms : ∀ d ∈ syms, d ≤ 3)
    (seqNo : BitVec 16) (index : ℕ) (fb : TransportFeedback) (c : Cursor)
    (hend : index+syms.sum ≤ endIndex) :
    ∃ d, d.start = c.start ∧
      DeltaOutcome (payload+index) syms c d
        ((parseDeltas payload endIndex syms seqNo index fb).run b c) := by
  induction syms generalizing seqNo index fb c with
  | nil =>
      refine ⟨c,rfl,Or.inl ⟨List.not_mem_nil,Cursor.Adds.nothing _ c,(index,fb),rfl⟩⟩
  | cons s syms ih =>
      simp only [List.mem_cons,forall_eq_or_imp] at hsyms
      rw [List.sum_cons,← Nat.add_assoc] at hend
      have hguard : (Parser.guard (index+s ≤ endIndex)).run b c = (some (),c) :=
        Parser.guard_of (by omega) b c
      match s,hsyms.1 with
      | 0,_ =>
          obtain ⟨d,hstart,hresult⟩ := ih hsyms.2 (seqNo+1) index (addParsedLost fb seqNo) c hend
          refine ⟨d,hstart,?_⟩
          rw [parseDeltas,Parser.bind_of_some hguard]
          exact extend_touches (Nat.zero_ne_add_one 2) (Cursor.Adds.nothing _ c) hresult
      | 1,_ =>
          obtain ⟨d,hstart,hresult⟩ := ih hsyms.2 (seqNo+1) (index+1)
            (addParsed fb (.withDelta seqNo ((b.bytes (payload+index)).setWidth 16)))
            ⟨c.start,List.range' (payload+index) 1++c.touched⟩ hend
          refine ⟨d,hstart,?_⟩
          rw [parseDeltas,Parser.bind_of_some hguard,Parser.bind_of_some (Parser.run_load _ _ _ _)]
          exact extend_touches (by decide) (Cursor.Adds.range _ 1 c c.start) hresult
      | 2,_ =>
          obtain ⟨d,hstart,hresult⟩ := ih hsyms.2 (seqNo+1) (index+2)
            (addParsed fb (.withDelta seqNo (loadUInt16BE fun j => b.bytes (payload+index+j))))
            ⟨c.start,List.range' (payload+index) 2++c.touched⟩ hend
          refine ⟨d,hstart,?_⟩
          rw [parseDeltas,Parser.bind_of_some hguard,Parser.bind_of_some (Parser.run_load _ _ _ _)]
          exact extend_touches (by decide) (Cursor.Adds.range _ 2 c c.start) hresult
      | 3,_ =>
          refine ⟨c,rfl,Or.inr ⟨[],syms,rfl,List.not_mem_nil,Cursor.Adds.nothing _ c,?_⟩⟩
          exact Parser.bind_of_some hguard _

end Loops
section Whole
variable {b : Region} {k : ℕ}

/-- `Parse` stays inside the buffer, and the reader inside what it announced. -/
structure ReadsInside (fb : TransportFeedback) (b : Region) (k : ℕ) : Prop where
  inside : ((parse fb).run b ⟨k,[]⟩).2.Within k b.size
  advanced : ∀ parsed, ((parse fb).run b ⟨k,[]⟩).1 = some parsed →
    ((parse fb).run b ⟨k,[]⟩).2.start = k+4*((headerAt b k).length.toNat+1)

/-- The chunks and the deltas before a reserved symbol lie in the buffer, and the deltas fit
the declared length, so that the reserved symbol ends the parse. -/
def StopsInside (b : Region) (k : ℕ) : Prop :=
  ∃ stop before after,
    ChunksAt b.bytes (k+4) (statusCountAt b k).toNat 16 [] stop (before++3::after) ∧
    3 ∉ before ∧ stop+(before++3::after).sum ≤ (headerAt b k).length.toNat*4 ∧
    k+4+stop+before.sum ≤ b.size

theorem parseReceived_fits {payload endIndex index : ℕ} {syms : List ℕ} {fb : TransportFeedback}
    {c : Cursor} (h : endIndex ≥ index+syms.sum) :
    (parseReceived payload endIndex index syms fb).run b c =
      (parseDeltas payload endIndex syms fb.baseSeqNo index fb).run b c := by
  rw [parseReceived,if_pos h]

theorem parseReceived_over {payload endIndex index : ℕ} {syms : List ℕ} {fb : TransportFeedback}
    {c : Cursor} (h : ¬endIndex ≥ index+syms.sum) :
    (parseReceived payload endIndex index syms fb).run b c =
      (some (index,addStatuses syms fb.baseSeqNo { fb with includeTimestamps := false }),c) := by
  rw [parseReceived,if_neg h]
  rfl

/-- The parse returns, and the reader moves to the declared end if the buffer has it. -/
theorem parseTail_some {payload endIndex index : ℕ} {syms : List ℕ} {fb : TransportFeedback}
    {r : ℕ × TransportFeedback} {d e : Cursor} (hend : 18 ≤ endIndex) (hstart : e.start = k+12)
    (hrun : (parseReceived payload endIndex index syms fb).run b d = (some r,e)) :
    ∃ parsed f, (parseTail payload endIndex index syms fb).run b d = (some parsed,f) ∧
      f.touched = e.touched ∧
      f.start = if k+4+endIndex ≤ b.size then k+4+endIndex else k+12 := by
  refine ⟨{ r.2 with sizeBytes := kHeaderLength+r.1 },
    ((Parser.trySkip (endIndex-kCommonFeedbackLength)).run b e).2,?_,?_,?_⟩
  · unfold parseTail
    rw [Parser.bind_of_some hrun]
    rfl
  · simp only [Parser.trySkip]
    split <;> rfl
  · simp only [Parser.trySkip,kCommonFeedbackLength,apply_ite Cursor.start,hstart]
    split <;> split <;> omega

/-- How `Parse` ends once the status count is not zero: it returns, the chunks run over the
declared end, or a reserved symbol stops the deltas. -/
inductive Ends (b : Region) (k endIndex statusCount : ℕ) :
    Option TransportFeedback × Cursor → Prop
  | returned {parsed : TransportFeedback} {f : Cursor} {hi : ℕ}
      (adds : Cursor.Adds k hi ⟨k,[]⟩ f) (room : k+20 ≤ hi) (declared : hi ≤ k+4+endIndex)
      (start : f.start = if k+4+endIndex ≤ b.size then k+4+endIndex else k+12)
      (clean : ∀ stop syms, ChunksAt b.bytes (k+4) statusCount 16 [] stop syms →
        stop+syms.sum ≤ endIndex → 3 ∉ syms) : Ends b k endIndex statusCount (some parsed,f)
  | runsOver {f : Cursor} (adds : Cursor.Adds k (max (k+20) (k+4+endIndex)) ⟨k,[]⟩ f)
      (far : ∀ stop syms, ChunksAt b.bytes (k+4) statusCount 16 [] stop syms → endIndex < stop) :
      Ends b k endIndex statusCount (none,f)
  | reserved {f : Cursor} {stop : ℕ} {before after : List ℕ}
      (chunks : ChunksAt b.bytes (k+4) statusCount 16 [] stop (before++3::after))
      (first : 3 ∉ before) (fits : stop+(before++3::after).sum ≤ endIndex)
      (adds : Cursor.Adds k (k+4+stop+before.sum) ⟨k,[]⟩ f) :
      Ends b k endIndex statusCount (none,f)

theorem parseStatuses_ends {fb : TransportFeedback} {t : List ℕ} {endIndex : ℕ}
    {statusCount : BitVec 16} (heven : 2 ∣ endIndex) (hcount : statusCount ≠ 0)
    (hadds : Cursor.Adds k (k+20) ⟨k,[]⟩ ⟨k+12,t⟩) :
    Ends b k endIndex statusCount.toNat
      ((parseStatuses (k+4) endIndex statusCount fb).run b ⟨k+12,t⟩) := by
  have hpos : 0 < statusCount.toNat :=
    Nat.pos_of_ne_zero fun h0 => hcount (BitVec.eq_of_toNat_eq h0)
  obtain ⟨stop,d,hle,hstop,hmax,hchunkAdds,hstart,hresult⟩ := parseChunks_touches (b := b)
    (k+4) endIndex statusCount.toNat 16 [] fb ⟨k+12,t⟩ (Nat.succ_pos endIndex) (by omega)
    (by decide)
  have hall : Cursor.Adds k (k+4+stop) ⟨k,[]⟩ d :=
    hadds.trans hchunkAdds (by omega) (by omega)
  rw [parseStatuses_eq]
  cases hresult with
  | inr hnone =>
      obtain ⟨hrun,hend,hfar⟩ := hnone
      rw [Parser.bind_of_none hrun]
      rw [show k+4+stop = max (k+20) (k+4+endIndex) by omega] at hall
      exact .runsOver hall hfar
  | inl hsome =>
      obtain ⟨syms,fb',hrun,hchunks⟩ := hsome
      have hstop18 : 18 ≤ stop := by
        cases hchunks with
        | done hge => simp only [List.length_nil] at hge; omega
        | more _ hrest => exact hrest.le
      have hend18 : 18 ≤ endIndex := by omega
      rw [Parser.bind_of_some hrun]
      simp only
      by_cases hfits : endIndex ≥ stop+syms.sum
      · obtain ⟨e,hstartE,houtcome⟩ := parseDeltas_touches (b := b) (k+4) endIndex
          (hchunks.le_three (by simp)) fb'.baseSeqNo stop
          { fb' with encodedChunks := fb'.encodedChunks.dropLast, numSeqNo := statusCount } d hfits
        cases houtcome with
        | inl hwhole =>
            obtain ⟨hnot,haddsE,r,hdeltas⟩ := hwhole
            have hreceived : (parseReceived (k+4) endIndex stop syms
                { fb' with encodedChunks := fb'.encodedChunks.dropLast
                           numSeqNo := statusCount }).run b d = (some r,e) :=
              (parseReceived_fits hfits).trans hdeltas
            obtain ⟨parsed,f,hf,htouched,hend⟩ := parseTail_some (k := k) hend18
              (hstartE.trans hstart) hreceived
            have haddsF : Cursor.Adds k (k+4+stop+syms.sum) ⟨k,[]⟩ f :=
              (hall.trans haddsE (by omega) (by omega)).congr htouched
            rw [hf]
            refine .returned haddsF (by omega) (by omega) hend ?_
            intro stop' syms' hchunks' _
            rw [(hchunks.unique hchunks').2] at hnot
            exact hnot
        | inr hreserved =>
            obtain ⟨before,after,rfl,hnot,haddsE,hdeltas⟩ := hreserved
            have haddsF := hall.trans haddsE (by omega) (by omega)
            rw [parseTail,Parser.bind_of_none ((parseReceived_fits hfits).trans hdeltas)]
            exact .reserved hchunks hnot hfits haddsF
      · obtain ⟨parsed,f,hf,htouched,hend⟩ := parseTail_some (k := k) hend18 hstart
          (parseReceived_over hfits)
        rw [hf]
        refine .returned (hall.congr htouched) (by omega) (by omega) hend ?_
        intro stop' syms' hchunks' hfits'
        obtain ⟨rfl,rfl⟩ := hchunks.unique hchunks'
        exact absurd hfits' hfits

theorem split_unique {before before' after after' : List ℕ}
    (h : before++3::after = before'++3::after') (hb : 3 ∉ before) (hb' : 3 ∉ before') :
    before = before' := by
  induction before generalizing before' with
  | nil =>
      cases before' with
      | nil => rfl
      | cons d ds =>
          rw [List.nil_append,List.cons_append,List.cons.injEq] at h
          exact absurd (h.1 ▸ List.mem_cons_self) hb'
  | cons d ds ih =>
      cases before' with
      | nil =>
          rw [List.nil_append,List.cons_append,List.cons.injEq] at h
          exact absurd (h.1 ▸ List.mem_cons_self) hb
      | cons d' ds' =>
          simp only [List.cons_append,List.cons.injEq] at h
          rw [h.1,ih h.2 (fun hm => hb (List.mem_cons_of_mem _ hm))
            (fun hm => hb' (List.mem_cons_of_mem _ hm))]

/-- A parse that returns after touching `[k, hi)` is right exactly when the buffer has the
declared bytes. -/
theorem outcome_some {hi stop : ℕ} {c : Cursor} {parsed : TransportFeedback}
    (hadds : Cursor.Adds k hi ⟨k,[]⟩ c) (hlt : k < hi) (hhi : hi ≤ stop)
    (hstart : c.start = stop ↔ stop ≤ b.size) :
    (c.Within k b.size ∧ ∀ p, some parsed = some p → c.start = stop) ↔ stop ≤ b.size := by
  rw [hadds.within_iff rfl (Nat.le_refl k) hlt]
  constructor
  · intro h
    exact hstart.mp (h.2 parsed rfl)
  · intro h
    exact ⟨hhi.trans h,fun _ _ => hstart.mpr h⟩

theorem outcome_none {hi stop : ℕ} {c : Cursor} (hadds : Cursor.Adds k hi ⟨k,[]⟩ c)
    (hlt : k < hi) :
    (c.Within k b.size ∧ ∀ p, (none : Option TransportFeedback) = some p → c.start = stop) ↔
      hi ≤ b.size := by
  rw [hadds.within_iff rfl (Nat.le_refl k) hlt]
  constructor
  · exact And.left
  · intro h
    refine ⟨h,?_⟩
    intro p hp
    cases hp

/-- What `Parse` touches and where it leaves the reader, once the status count is not zero. -/
theorem Ends.right_iff {endIndex statusCount : ℕ} {r : Option TransportFeedback × Cursor}
    (h : Ends b k endIndex statusCount r) :
    (r.2.Within k b.size ∧ ∀ parsed, r.1 = some parsed → r.2.start = k+4+endIndex) ↔
      k+20 ≤ b.size ∧ (k+4+endIndex ≤ b.size ∨ ∃ stop before after,
        ChunksAt b.bytes (k+4) statusCount 16 [] stop (before++3::after) ∧ 3 ∉ before ∧
          stop+(before++3::after).sum ≤ endIndex ∧ k+4+stop+before.sum ≤ b.size) := by
  cases h with
  | returned adds room declared start clean =>
      have hstart : ∀ {c : Cursor}, (c.start = if k+4+endIndex ≤ b.size then k+4+endIndex
          else k+12) → (c.start = k+4+endIndex ↔ k+4+endIndex ≤ b.size) := by
        intro c hc
        rw [hc]
        split <;> omega
      rw [outcome_some adds (by omega) declared (hstart start)]
      constructor
      · intro h
        exact ⟨by omega,.inl h⟩
      · intro h
        cases h.2 with
        | inl h => exact h
        | inr h =>
            obtain ⟨stop,before,after,hchunks,_,hfits,_⟩ := h
            exact absurd (by simp) (clean stop _ hchunks hfits)
  | runsOver adds far =>
      rw [outcome_none adds (by omega)]
      constructor
      · intro h
        exact ⟨by omega,.inl (by omega)⟩
      · intro h
        cases h.2 with
        | inl h => omega
        | inr h =>
            obtain ⟨stop,before,after,hchunks,_,hfits,_⟩ := h
            have := far stop _ hchunks
            omega
  | @reserved f stop before after chunks first fits adds =>
      have hstop := chunks.le
      rw [outcome_none adds (by omega)]
      constructor
      · intro h
        exact ⟨by omega,.inr ⟨stop,before,after,chunks,first,fits,h⟩⟩
      · intro h
        cases h.2 with
        | inl h =>
            rw [List.sum_append] at fits
            omega
        | inr h =>
            obtain ⟨stop',before',after',hchunks,hfirst,_,hbuffer⟩ := h
            obtain ⟨rfl,heq⟩ := chunks.unique hchunks
            rw [split_unique heq first hfirst]
            exact hbuffer

/-- An accepted feedback has read nothing outside its declared bytes. If these
lie inside the buffer the reader stands behind them. -/
theorem parse_bounds {fb fb' : TransportFeedback} {b : Region} {k : ℕ} {c : Cursor}
    (h : (parse fb).run b ⟨k,[]⟩ = (some fb',c)) :
    c.Within k (k+(headerAt b k).declaredSize) ∧ k+12 ≤ c.start ∧ c.start ≤ b.size ∧
      (k+(headerAt b k).declaredSize ≤ b.size → c.start = k+(headerAt b k).declaredSize) := by
  have hdeclared : k+(headerAt b k).declaredSize = k+4+(headerAt b k).length.toNat*4 := by
    rw [RtcpCommonHeader.declaredSize]
    omega
  rw [hdeclared]
  by_cases hfeedback : IsFeedback b k
  · obtain ⟨fb₀,t,hrun,hadds⟩ := parse_prefix fb hfeedback
    rw [hrun] at h
    obtain ⟨_,d,hguard,h⟩ := Parser.bind_eq_some h
    obtain ⟨hcount,rfl⟩ := Parser.guard_eq_some hguard
    have hends : Ends b k ((headerAt b k).length.toNat*4) (statusCountAt b k).toNat
        ((parseStatuses (k+4) ((headerAt b k).length.toNat*4) (statusCountAt b k) fb₀).run b
          ⟨k+12,t⟩) :=
      parseStatuses_ends (Nat.dvd_mul_left_of_dvd ⟨2,rfl⟩ _) hcount hadds
    rw [h] at hends
    have hsize := hfeedback.1
    cases hends with
    | returned adds room declared start _ =>
        refine ⟨(adds.within_iff rfl (Nat.le_refl k) (by omega)).mpr declared,?_⟩
        rw [start]
        split <;> omega
  · obtain ⟨d,hrun,_⟩ := parse_refused fb hfeedback
    rw [hrun] at h
    cases h

/-- `Parse` touches only bytes of the buffer from the reader on and moves the reader past
the declared packet exactly when the input is no feedback, or the buffer has its fixed fields
and the status count is zero, or the buffer has the declared bytes, or a reserved symbol ends
the parse inside it. The loops end on every input. -/
theorem readsInside_iff (fb : TransportFeedback) (b : Region) (k : ℕ) :
    (∀ (payload endIndex statusCount more : ℕ) (fb' : TransportFeedback) (c : Cursor),
        (parseChunks payload endIndex statusCount (endIndex+1+more) 16 [] fb').run b c =
          (parseChunks payload endIndex statusCount (endIndex+1) 16 [] fb').run b c) ∧
      (ReadsInside fb b k ↔ ¬IsFeedback b k ∨ (k+20 ≤ b.size ∧ (statusCountAt b k = 0 ∨
        k+4*((headerAt b k).length.toNat+1) ≤ b.size ∨ StopsInside b k))) := by
  constructor
  · intro payload endIndex statusCount more fb' c
    exact parseChunks_fuel fb' c (by omega) (by omega) (by omega) (by omega)
  by_cases hfeedback : IsFeedback b k
  · obtain ⟨fb₀,t,hrun,hadds⟩ := parse_prefix fb hfeedback
    have hsize : k+4*((headerAt b k).length.toNat+1) =
        k+4+(headerAt b k).length.toNat*4 := by omega
    have hiff : ReadsInside fb b k ↔ (((parse fb).run b ⟨k,[]⟩).2.Within k b.size ∧
        ∀ parsed, ((parse fb).run b ⟨k,[]⟩).1 = some parsed →
          ((parse fb).run b ⟨k,[]⟩).2.start = k+4+(headerAt b k).length.toNat*4) := by
      rw [← hsize]
      exact ⟨fun h => ⟨h.inside,h.advanced⟩,fun h => ⟨h.1,h.2⟩⟩
    rw [hiff,hrun]
    simp only [hfeedback,not_true_eq_false,false_or]
    by_cases hcount : statusCountAt b k = 0
    · have hguard : (Parser.guard (statusCountAt b k ≠ 0)).run b ⟨k+12,t⟩ =
          (none,⟨k+12,t⟩) := by
        rw [Parser.guard,if_neg (by rw [ne_eq,not_not]; exact hcount),Parser.run_fail]
      rw [Parser.bind_of_none hguard,outcome_none hadds (by omega)]
      simp only [hcount,true_or,and_true]
    · rw [Parser.bind_of_some (Parser.guard_of hcount _ _),
        (parseStatuses_ends (Nat.dvd_mul_left_of_dvd ⟨2,rfl⟩ _) hcount hadds).right_iff]
      simp only [hcount,false_or]
      rw [hsize]
      rfl
  · obtain ⟨c,hrun,hwithin⟩ := parse_refused fb hfeedback
    constructor
    · intro _
      exact Or.inl hfeedback
    · intro _
      constructor
      · rw [hrun]
        exact hwithin
      · intro parsed hparsed
        rw [hrun] at hparsed
        cases hparsed

/-- Twelve bytes that declare twelve: the fixed fields behind them are read all the same. -/
theorem not_always_readsInside :
    ¬ ∀ (fb : TransportFeedback) (b : Region) (k : ℕ), ReadsInside fb b k := by
  intro h
  have hinside := (h { includeTimestamps := true, includeLost := true }
    (Region.ofList [0x8f,205,0,2,0,0,0,0,0,0,0,0] (fun _ => 0) (by decide)) 0).inside
  have hbehind := hinside 19 (by decide)
  revert hbehind
  decide

end Whole
end Ylrtc.FeedbackWire
