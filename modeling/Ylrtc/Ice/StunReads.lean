import Ylrtc.Ice.Ufrag

/-!
# The bytes that a STUN datagram makes the server read

`StunMessage::Parse` and `FastGetLocalUfrag` walk over the attributes of a datagram that
passed `IsStun`. A value is read before its length is checked, the padded length wraps in
16 bits, and the check of the tag reads twenty bytes behind a header it recorded and
rewrites the length field of the message.
-/
namespace Ylrtc.Stun
open ByteBuffer CursorParser

/-! ### The walk over the attributes -/

/-- Where the reader stands behind the attribute at `k`, with the length as it wraps. -/
def nextAt (b : Region) (k : ℕ) : ℕ :=
  k + kStunAttributeHeaderSize + (paddedLength (typeAt b (k+2))).toNat

/-- The walk of a loop over the attributes: the headers it has passed, the last one first, and
where it stands. It passes an attribute whose header and padded length are inside the buffer,
if what the loop checks at it holds. -/
inductive Walk (b : Region) (passes : ℕ → Prop) : List ℕ → ℕ → Prop
  | start : Walk b passes [] kStunHeaderSize
  | next {ks : List ℕ} {k : ℕ} (walk : Walk b passes ks k)
      (header : k + kStunAttributeHeaderSize ≤ b.size) (pass : passes k)
      (inside : nextAt b k ≤ b.size) : Walk b passes (k::ks) (nextAt b k)

/-- What `Parse` checks at an attribute. The bytes of a user name need not be inside. -/
structure Matches (b : Region) (msg : StunMessage) (k : ℕ) : Prop where
  userName : typeAt b k = kAttrUsername →
    bytesAt (fun i => b.bytes (k+kStunAttributeHeaderSize+i)) (lengthAt b k) = msg.userName
  fingerprint : typeAt b k = kAttrFingerprint →
    loadUInt32BE (fun i => b.bytes (k+kStunAttributeHeaderSize+i)) =
      Crc32.calculate (bytesAt b.bytes k) ^^^ kFingerprintMask

/-- `FastGetLocalUfrag` passes everything but a user name. -/
def NoUserName (b : Region) (k : ℕ) : Prop := typeAt b k ≠ kAttrUsername

/-- The last MESSAGE-INTEGRITY among the attributes passed. -/
def lastIntegrity (b : Region) (ks : List ℕ) : Option ℕ :=
  ks.find? fun k => typeAt b k = kAttrMessageIntegrity

def fingerprinted (b : Region) (ks : List ℕ) : Bool :=
  ks.any fun k => typeAt b k = kAttrFingerprint

/-- The value of the attribute at `k` is one that is read, and lies inside the buffer. -/
def ValueInside (b : Region) (k : ℕ) : Prop :=
  (typeAt b k = kAttrUsername → k + kStunAttributeHeaderSize + lengthAt b k ≤ b.size) ∧
    (typeAt b k = kAttrFingerprint → k + kStunAttributeHeaderSize + kFingerprintAttrLength ≤ b.size)

/-- The length field that `Parse` leaves after it has looked at a tag in a message with a
fingerprint. -/
def leftLength (hmac : Hmac) (password : List Byte) (b : Region) (k : ℕ) : BitVec 16 :=
  let without := BitVec.ofNat 16
    (b.size-kStunHeaderSize-kFingerprintAttrLength-kStunAttributeHeaderSize)
  if bytesAt (fun i => b.bytes (k+kStunAttributeHeaderSize+i)) 20 =
      (hmac password (bytesAt (storeLength b.bytes without) k)).toList then
    BitVec.ofNat 16 (b.size-kStunHeaderSize)
  else without

/-- The datagrams that are handled inside their bytes and left as they are. -/
structure Safe (hmac : Hmac) (msg : StunMessage) (b : Region) : Prop where
  values : ∀ ks k, Walk b (Matches b msg) ks k → k + kStunAttributeHeaderSize ≤ b.size →
    ValueInside b k
  tag : ∀ ks, Walk b (Matches b msg) ks b.size → ∀ k ∈ lastIntegrity b ks,
    k + kStunAttributeHeaderSize + kMessageIntegrityAttributeLength ≤ b.size
  length : ∀ ks, Walk b (Matches b msg) ks b.size → ∀ k ∈ lastIntegrity b ks,
    fingerprinted b ks = true → typeAt b kLengthOffset = leftLength hmac msg.localPassword b k
  fast : ∀ ks k, Walk b (NoUserName b) ks k → k + kStunAttributeHeaderSize ≤ b.size →
    typeAt b k = kAttrUsername → k + kStunAttributeHeaderSize + lengthAt b k ≤ b.size

/-- The walk of `FastGetLocalUfrag`, with what it reads. -/
def fastWalk : Parser (Option (List Byte)) := do
  Parser.skip kStunHeaderSize
  let left ← Parser.left
  fastAttributes (left+1)

theorem fastGetLocalUfrag_eq (b : Region) :
    fastGetLocalUfrag b = (fastWalk.run b ⟨0,[]⟩).1.join := rfl

/-- Both loops end, the reads stay inside the buffer, and its bytes stay what they are. -/
structure Right (hmac : Hmac) (msg : StunMessage) (b : Region) : Prop where
  parseEnds : ∀ (fuel : ℕ) (seen : Seen) (c : Cursor), b.size - c.start < fuel →
    (parseAttributes msg fuel seen).run b c =
      (parseAttributes msg (b.size - c.start + 1) seen).run b c
  fastEnds : ∀ (fuel : ℕ) (c : Cursor), b.size - c.start < fuel →
    (fastAttributes fuel).run b c = (fastAttributes (b.size - c.start + 1)).run b c
  parseReads : ∀ i ∈ (parse hmac msg b).touched, i < b.size
  fastReads : ∀ i ∈ (fastWalk.run b ⟨0,[]⟩).2.touched, i < b.size
  bytes : (parse hmac msg b).bytes = b.bytes

section Walk
variable {b : Region} {msg : StunMessage}

theorem Walk.le {passes : ℕ → Prop} {ks : List ℕ} {k : ℕ} (h : Walk b passes ks k) :
    kStunHeaderSize ≤ k ∧ (kStunHeaderSize ≤ b.size → k ≤ b.size) := by
  induction h with
  | start => exact ⟨Nat.le_refl _,id⟩
  | next _ _ _ inside ih =>
      constructor
      · unfold nextAt
        omega
      · exact fun _ => inside

/-! ### One round -/

theorem guard_of_not {p : Prop} [Decidable p] (h : ¬p) (b : Region) (c : Cursor) :
    (Parser.guard p).run b c = (none,c) := by
  unfold Parser.guard
  rw [if_neg h,Parser.run_fail]

/-- What `Parse` has seen behind the attribute at `k`. -/
def seenAfter (b : Region) (k : ℕ) (seen : Seen) : Seen :=
  if typeAt b k = kAttrUsername then seen
  else if typeAt b k = kAttrMessageIntegrity then { seen with messageIntegrity := some k }
  else if typeAt b k = kAttrFingerprint then { seen with fingerprint := true }
  else if typeAt b k = kAttrUseCandidate then { seen with useCandidate := true }
  else seen

/-- What it has seen behind a list of attributes. -/
def seenOf (b : Region) (ks : List ℕ) : Seen := ks.foldr (seenAfter b) {}

/-- The bytes that are read of the value at `k`, and before it. -/
def valueReads (b : Region) (k : ℕ) : List ℕ :=
  if typeAt b k = kAttrUsername then List.range' (k+4) (lengthAt b k)
  else if typeAt b k = kAttrFingerprint then List.range' 0 k ++ List.range' (k+4) 4
  else []

theorem skip_of_lt {b : Region} {k : ℕ} {t : List ℕ} (header : k+4 ≤ b.size)
    (h : ¬nextAt b k ≤ b.size) :
    (Parser.skip (paddedLength (typeAt b (k+2))).toNat).run b ⟨k+4,t⟩ = (none,⟨k+4,t⟩) := by
  unfold nextAt kStunAttributeHeaderSize at h
  simp only [Parser.skip]
  rw [if_pos (by omega)]

theorem readUInt16_of_lt {b : Region} {c : Cursor} (h : b.size - c.start < 2) :
    readUInt16.run b c = (none,c) :=
  Parser.bind_of_none (Parser.take_of_lt h) _

theorem covered_eq (b : Region) : (fun i => b.bytes (0+i)) = b.bytes := by
  funext i
  rw [Nat.zero_add]

theorem parseValue_passes {k : ℕ} (h : Matches b msg k) (seen : Seen) (t : List ℕ) :
    (parseValue msg (typeAt b k) (typeAt b (k+2)) seen).run b ⟨k+4,t⟩ =
      (some (seenAfter b k seen),⟨k+4,valueReads b k ++ t⟩) := by
  rw [parseValue,Parser.bind_of_some (Parser.run_position b _)]
  unfold seenAfter valueReads
  by_cases huser : typeAt b k = kAttrUsername
  · rw [if_pos huser,if_pos huser,if_pos huser,Parser.bind_of_some (Parser.run_load _ _ b _)]
    exact Parser.bind_of_some (Parser.guard_of (h.userName huser) b _) _
  rw [if_neg huser,if_neg huser,if_neg huser]
  by_cases hintegrity : typeAt b k = kAttrMessageIntegrity
  · have hother : typeAt b k ≠ kAttrFingerprint := by rw [hintegrity]; decide
    rw [if_pos hintegrity,if_pos hintegrity,if_neg hother]
    rfl
  rw [if_neg hintegrity,if_neg hintegrity]
  by_cases hfingerprint : typeAt b k = kAttrFingerprint
  · rw [if_pos hfingerprint,if_pos hfingerprint,if_pos hfingerprint,
      Parser.bind_of_some (Parser.run_load _ _ b _),Parser.bind_of_some (Parser.run_load _ _ b _)]
    simp only [covered_eq,Nat.add_sub_cancel]
    rw [List.append_assoc]
    exact Parser.bind_of_some (Parser.guard_of (h.fingerprint hfingerprint) b _) _
  rw [if_neg hfingerprint,if_neg hfingerprint,if_neg hfingerprint]
  by_cases hcandidate : typeAt b k = kAttrUseCandidate
  · rw [if_pos hcandidate,if_pos hcandidate]
    rfl
  · rw [if_neg hcandidate,if_neg hcandidate]
    rfl

theorem parseValue_refuses {k : ℕ} (h : ¬Matches b msg k) (seen : Seen) (t : List ℕ) :
    (parseValue msg (typeAt b k) (typeAt b (k+2)) seen).run b ⟨k+4,t⟩ =
      (none,⟨k+4,valueReads b k ++ t⟩) := by
  rw [parseValue,Parser.bind_of_some (Parser.run_position b _)]
  unfold valueReads
  by_cases huser : typeAt b k = kAttrUsername
  · have hother : typeAt b k ≠ kAttrFingerprint := by rw [huser]; decide
    have hname : bytesAt (fun i => b.bytes (k+4+i)) (lengthAt b k) ≠ msg.userName :=
      fun hsame => h ⟨fun _ => hsame,fun hfingerprint => absurd hfingerprint hother⟩
    rw [if_pos huser,if_pos huser,Parser.bind_of_some (Parser.run_load _ _ b _)]
    exact Parser.bind_of_none (guard_of_not hname b _) _
  rw [if_neg huser,if_neg huser]
  by_cases hfingerprint : typeAt b k = kAttrFingerprint
  · have hother : typeAt b k ≠ kAttrMessageIntegrity := by rw [hfingerprint]; decide
    have hcode : loadUInt32BE (fun i => b.bytes (k+4+i)) ≠
        Crc32.calculate (bytesAt b.bytes k) ^^^ kFingerprintMask :=
      fun hsame => h ⟨fun hname => absurd hname huser,fun _ => hsame⟩
    rw [if_neg hother,if_pos hfingerprint,if_pos hfingerprint,
      Parser.bind_of_some (Parser.run_load _ _ b _),Parser.bind_of_some (Parser.run_load _ _ b _)]
    simp only [covered_eq,Nat.add_sub_cancel]
    rw [List.append_assoc]
    exact Parser.bind_of_none (guard_of_not hcode b _) _
  · exact absurd ⟨fun hname => absurd hname huser,fun hcode => absurd hcode hfingerprint⟩ h

/-- The header of an attribute, read. -/
abbrev headerReads (k : ℕ) (t : List ℕ) : List ℕ := List.range' (k+2) 2 ++ (List.range' k 2 ++ t)

/-- A round that goes on. -/
theorem parseAttributes_passes {k : ℕ} (header : k+4 ≤ b.size) (pass : Matches b msg k)
    (inside : nextAt b k ≤ b.size) (n : ℕ) (seen : Seen) (t : List ℕ) :
    (parseAttributes msg (n+1) seen).run b ⟨k,t⟩ =
      (parseAttributes msg n (seenAfter b k seen)).run b
        ⟨nextAt b k,valueReads b k ++ headerReads k t⟩ := by
  rw [parseAttributes,Parser.bind_of_some (Parser.run_left b _),if_pos (by simp only; omega),
    Parser.bind_of_some (readUInt16_at (by omega) t),
    Parser.bind_of_some (readUInt16_at (by omega) _),
    Parser.bind_of_some (parseValue_passes pass seen _),
    Parser.bind_of_some (Parser.skip_of_le inside)]
  rfl

/-- A round that ends the walk behind a header. -/
theorem parseAttributes_stops {k : ℕ} (header : k+4 ≤ b.size)
    (h : ¬(Matches b msg k ∧ nextAt b k ≤ b.size)) (n : ℕ) (seen : Seen) (t : List ℕ) :
    (parseAttributes msg (n+1) seen).run b ⟨k,t⟩ =
      (none,⟨k+4,valueReads b k ++ headerReads k t⟩) := by
  rw [parseAttributes,Parser.bind_of_some (Parser.run_left b _),if_pos (by simp only; omega),
    Parser.bind_of_some (readUInt16_at (by omega) t),
    Parser.bind_of_some (readUInt16_at (by omega) _)]
  by_cases pass : Matches b msg k
  · have houtside : ¬nextAt b k ≤ b.size := fun inside => h ⟨pass,inside⟩
    rw [Parser.bind_of_some (parseValue_passes pass seen _)]
    exact Parser.bind_of_none (skip_of_lt header houtside) _
  · exact Parser.bind_of_none (parseValue_refuses pass seen _) _

end Walk

/-! ### Loops over the attributes -/

/-- A loop of fuel and state that walks over the attributes: it goes on where it passes one, and
ends at one that it does not pass or in front of the rest of a header. At a header it reads the
header and `reads`. -/
structure Walks {σ α : Type} (b : Region) (passes : ℕ → Prop) (reads : ℕ → List ℕ)
    (after : ℕ → σ → σ) (loop : ℕ → σ → Parser α) : Prop where
  passed : ∀ k s t, k+4 ≤ b.size → passes k → nextAt b k ≤ b.size → ∀ n,
    (loop (n+1) s).run b ⟨k,t⟩ =
      (loop n (after k s)).run b ⟨nextAt b k,reads k ++ headerReads k t⟩
  stopped : ∀ k s t, k+4 ≤ b.size → ¬(passes k ∧ nextAt b k ≤ b.size) → ∃ r, ∀ n,
    (loop (n+1) s).run b ⟨k,t⟩ = (r,⟨k+4,reads k ++ headerReads k t⟩)
  short : ∀ k s t, ¬k+4 ≤ b.size → ∃ r c, (∀ n, (loop (n+1) s).run b ⟨k,t⟩ = (r,c)) ∧
    (∀ i ∈ c.touched, i ∈ t ∨ i < b.size) ∧ ∀ i ∈ t, i ∈ c.touched

section Loops
variable {σ α : Type} {b : Region} {passes : ℕ → Prop} {reads : ℕ → List ℕ}
  {after : ℕ → σ → σ} {loop : ℕ → σ → Parser α}

theorem nextAt_gt (b : Region) (k : ℕ) : k+4 ≤ nextAt b k := Nat.le_add_right _ _

/-- More rounds than there are bytes left make no difference. -/
theorem Walks.enough (h : Walks b passes reads after loop) {n m k : ℕ} (hn : b.size - k < n)
    (hm : b.size - k < m) (s : σ) (t : List ℕ) :
    (loop n s).run b ⟨k,t⟩ = (loop m s).run b ⟨k,t⟩ := by
  induction n generalizing m k s t with
  | zero => omega
  | succ n ih =>
      cases m with
      | zero => omega
      | succ m =>
          by_cases header : k+4 ≤ b.size
          · by_cases hgo : passes k ∧ nextAt b k ≤ b.size
            · have hgt := nextAt_gt b k
              rw [h.passed k s t header hgo.1 hgo.2,h.passed k s t header hgo.1 hgo.2]
              exact ih (by omega) (by omega) _ _
            · cases h.stopped k s t header hgo with
              | intro r hr => rw [hr,hr]
          · cases h.short k s t header with
            | intro r hr =>
                cases hr with
                | intro c hr => rw [hr.1,hr.1]

/-- The bytes that were read before stay among those that were read. -/
theorem Walks.kept (h : Walks b passes reads after loop) {n k : ℕ} (hn : b.size - k < n) (s : σ)
    {t : List ℕ} {i : ℕ} (hi : i ∈ t) : i ∈ ((loop n s).run b ⟨k,t⟩).2.touched := by
  induction n generalizing k s t with
  | zero => omega
  | succ n ih =>
      have hhead : i ∈ reads k ++ headerReads k t :=
        List.mem_append_right _ (List.mem_append_right _ (List.mem_append_right _ hi))
      by_cases header : k+4 ≤ b.size
      · by_cases hgo : passes k ∧ nextAt b k ≤ b.size
        · have hgt := nextAt_gt b k
          rw [h.passed k s t header hgo.1 hgo.2]
          exact ih (by omega) _ hhead
        · cases h.stopped k s t header hgo with
          | intro r hr =>
              rw [hr]
              exact hhead
      · cases h.short k s t header with
        | intro r hr =>
            cases hr with
            | intro c hr =>
                rw [hr.1]
                exact hr.2.2 i hi

/-- Besides headers inside the buffer only what `reads` names at a header of the walk is read. -/
theorem Walks.sub (h : Walks b passes reads after loop) {ks : List ℕ} {k : ℕ}
    (walk : Walk b passes ks k) {n : ℕ} (hn : b.size - k < n) (s : σ) {t : List ℕ}
    (ht : ∀ i ∈ t, i < b.size)
    (hreads : ∀ ks k, Walk b passes ks k → k+4 ≤ b.size → ∀ i ∈ reads k, i < b.size) :
    ∀ i ∈ ((loop n s).run b ⟨k,t⟩).2.touched, i < b.size := by
  induction n generalizing ks k s t with
  | zero => omega
  | succ n ih =>
      by_cases header : k+4 ≤ b.size
      · have hhead : ∀ i ∈ reads k ++ headerReads k t, i < b.size := by
          intro i hi
          simp only [List.mem_append,List.mem_range'_1] at hi
          cases hi with
          | inl hvalue => exact hreads ks k walk header i hvalue
          | inr hi =>
              cases hi with
              | inl hlength => omega
              | inr hi =>
                  cases hi with
                  | inl htype => omega
                  | inr hold => exact ht i hold
        by_cases hgo : passes k ∧ nextAt b k ≤ b.size
        · have hgt := nextAt_gt b k
          rw [h.passed k s t header hgo.1 hgo.2]
          exact ih (walk.next header hgo.1 hgo.2) (by omega) _ hhead
        · cases h.stopped k s t header hgo with
          | intro r hr =>
              rw [hr]
              exact hhead
      · cases h.short k s t header with
        | intro r hr =>
            cases hr with
            | intro c hr =>
                rw [hr.1]
                intro i hi
                cases hr.2.1 i hi with
                | inl hold => exact ht i hold
                | inr hin => exact hin

/-- The loop comes to every place of the walk. -/
theorem Walks.reaches (h : Walks b passes reads after loop) {ks : List ℕ} {k : ℕ}
    (walk : Walk b passes ks k) {n : ℕ} (hn : b.size < n) (s : σ) (t : List ℕ) :
    ∃ m t', b.size - k < m ∧ (loop n s).run b ⟨kStunHeaderSize,t⟩ =
      (loop m (ks.foldr after s)).run b ⟨k,t'⟩ := by
  induction walk with
  | start => exact ⟨n,t,by omega,rfl⟩
  | @next ks k walk header pass inside ih =>
      cases ih with
      | intro m ih =>
          cases ih with
          | intro t' ih =>
              cases m with
              | zero => omega
              | succ m =>
                  have hgt := nextAt_gt b k
                  rw [kStunAttributeHeaderSize] at header
                  rw [h.passed k _ _ header pass inside] at ih
                  exact ⟨m,_,by omega,ih.2⟩

/-- The reads of the loop stay inside exactly when at every header of the walk they do. -/
theorem Walks.inside_iff (h : Walks b passes reads after loop) {n : ℕ} (hn : b.size < n) (s : σ)
    {t : List ℕ} (ht : ∀ i ∈ t, i < b.size) :
    (∀ i ∈ ((loop n s).run b ⟨kStunHeaderSize,t⟩).2.touched, i < b.size) ↔
      ∀ ks k, Walk b passes ks k → k+4 ≤ b.size → ∀ i ∈ reads k, i < b.size := by
  constructor
  · intro hall ks k walk header i hi
    apply hall
    have hreach := h.reaches walk hn s t
    cases hreach with
    | intro m hreach =>
        cases hreach with
        | intro t' hreach =>
            rw [hreach.2]
            cases m with
            | zero => omega
            | succ m =>
                have hhead : i ∈ reads k ++ headerReads k t' := List.mem_append_left _ hi
                by_cases hgo : passes k ∧ nextAt b k ≤ b.size
                · have hgt := nextAt_gt b k
                  rw [h.passed k _ _ header hgo.1 hgo.2]
                  exact h.kept (by omega) _ hhead
                · cases h.stopped k (ks.foldr after s) t' header hgo with
                  | intro r hr =>
                      rw [hr]
                      exact hhead
  · intro hreads
    exact h.sub Walk.start (by omega) s ht hreads

end Loops

section Parse
variable {b : Region} {msg : StunMessage}

theorem take_two_short {k : ℕ} (header : ¬k+2 ≤ b.size) (t : List ℕ) :
    readUInt16.run b ⟨k,t⟩ = (none,⟨k,t⟩) :=
  readUInt16_of_lt (by simp only; omega)

/-- What a loop reads where the buffer ends inside a header. -/
theorem header_short {k : ℕ} (header : ¬k+4 ≤ b.size) (t : List ℕ) : ∃ c,
    (∀ {α : Type} (f : BitVec 16 → BitVec 16 → Parser α),
      (readUInt16 >>= fun attrType => readUInt16 >>= f attrType).run b ⟨k,t⟩ = (none,c)) ∧
      (∀ i ∈ c.touched, i ∈ t ∨ i < b.size) ∧ ∀ i ∈ t, i ∈ c.touched := by
  by_cases htype : k+2 ≤ b.size
  · refine ⟨⟨k+2,List.range' k 2 ++ t⟩,fun f => ?_,fun i hi => ?_,
      fun i hi => List.mem_append_right _ hi⟩
    · rw [Parser.bind_of_some (readUInt16_at htype t)]
      exact Parser.bind_of_none (take_two_short (by omega) _) _
    · cases List.mem_append.mp hi with
      | inl hrange =>
          rw [List.mem_range'_1] at hrange
          exact Or.inr (by omega)
      | inr hold => exact Or.inl hold
  · refine ⟨⟨k,t⟩,fun f => ?_,fun i hi => Or.inl hi,fun i hi => hi⟩
    exact Parser.bind_of_none (take_two_short htype _) _

theorem parseAttributes_end {k : ℕ} (h : b.size ≤ k) (n : ℕ) (seen : Seen) (t : List ℕ) :
    (parseAttributes msg (n+1) seen).run b ⟨k,t⟩ = (some seen,⟨k,t⟩) := by
  rw [parseAttributes,Parser.bind_of_some (Parser.run_left b _),if_neg (by simp only; omega)]
  rfl

theorem parseAttributes_cut (msg : StunMessage) {k : ℕ} (header : ¬k+4 ≤ b.size) (hmore : k < b.size) (t : List ℕ) :
    ∃ c, (∀ (n : ℕ) (seen : Seen), (parseAttributes msg (n+1) seen).run b ⟨k,t⟩ = (none,c)) ∧
      (∀ i ∈ c.touched, i ∈ t ∨ i < b.size) ∧ ∀ i ∈ t, i ∈ c.touched := by
  cases header_short header t with
  | intro c h =>
      refine ⟨c,fun n seen => ?_,h.2⟩
      rw [parseAttributes,Parser.bind_of_some (Parser.run_left b _),if_pos (by simp only; omega)]
      exact h.1 _

/-- The loop of `Parse`. -/
theorem parseAttributes_walks (msg : StunMessage) : Walks b (Matches b msg) (valueReads b) (seenAfter b)
    (parseAttributes msg) where
  passed k seen t header pass inside n := parseAttributes_passes header pass inside n seen t
  stopped k seen t header h := ⟨none,fun n => parseAttributes_stops header h n seen t⟩
  short k seen t header := by
    by_cases hend : b.size ≤ k
    · exact ⟨_,_,fun n => parseAttributes_end hend n seen t,fun i hi => Or.inl hi,fun i hi => hi⟩
    · cases parseAttributes_cut msg header (Nat.lt_of_not_le hend) t with
      | intro c h => exact ⟨_,c,fun n => h.1 n seen,h.2⟩

/-- What the loop of `FastGetLocalUfrag` reads of a value. -/
def fastReads (b : Region) (k : ℕ) : List ℕ :=
  if typeAt b k = kAttrUsername then List.range' (k+4) (lengthAt b k) else []

/-- The loop of `FastGetLocalUfrag`. -/
theorem fastAttributes_walks : Walks b (NoUserName b) (fastReads b) (fun _ (s : Unit) => s)
    (fun n _ => fastAttributes n) where
  passed k s t header pass inside n := by
    rw [fastAttributes,Parser.bind_of_some (Parser.run_left b _),if_pos (by simp only; omega),
      Parser.bind_of_some (readUInt16_at (by omega) t),
      Parser.bind_of_some (readUInt16_at (by omega) _),if_neg pass,
      Parser.bind_of_some (Parser.skip_of_le inside),fastReads,if_neg pass]
    rfl
  stopped k s t header h := by
    by_cases pass : typeAt b k = kAttrUsername
    · refine ⟨some (localPart (bytesAt (fun i => b.bytes (k+4+i)) (lengthAt b k))),fun n => ?_⟩
      rw [fastAttributes,Parser.bind_of_some (Parser.run_left b _),if_pos (by simp only; omega),
        Parser.bind_of_some (readUInt16_at (by omega) t),
        Parser.bind_of_some (readUInt16_at (by omega) _),if_pos pass,
        Parser.bind_of_some (Parser.run_position b _),
        Parser.bind_of_some (Parser.run_load _ _ b _),fastReads,if_pos pass]
      rfl
    · refine ⟨none,fun n => ?_⟩
      have houtside : ¬nextAt b k ≤ b.size := fun inside => h ⟨pass,inside⟩
      rw [fastAttributes,Parser.bind_of_some (Parser.run_left b _),if_pos (by simp only; omega),
        Parser.bind_of_some (readUInt16_at (by omega) t),
        Parser.bind_of_some (readUInt16_at (by omega) _),if_neg pass,fastReads,if_neg pass]
      exact Parser.bind_of_none (skip_of_lt header houtside) _
  short k s t header := by
    by_cases hend : b.size ≤ k
    · refine ⟨some none,⟨k,t⟩,fun n => ?_,fun i hi => Or.inl hi,fun i hi => hi⟩
      rw [fastAttributes,Parser.bind_of_some (Parser.run_left b _),if_neg (by simp only; omega)]
      rfl
    · cases header_short header t with
      | intro c h =>
          refine ⟨none,c,fun n => ?_,h.2⟩
          rw [fastAttributes,Parser.bind_of_some (Parser.run_left b _),if_pos (by simp only; omega)]
          exact h.1 _

/-! ### What `Parse` has seen -/

theorem seenOf_cons (k : ℕ) (ks : List ℕ) : seenOf b (k::ks) = seenAfter b k (seenOf b ks) := rfl

theorem seenOf_spec (ks : List ℕ) : (seenOf b ks).messageIntegrity = lastIntegrity b ks ∧
    (seenOf b ks).fingerprint = fingerprinted b ks := by
  induction ks with
  | nil => exact ⟨rfl,rfl⟩
  | cons k ks ih =>
      rw [seenOf_cons,lastIntegrity,fingerprinted,List.find?_cons,List.any_cons,seenAfter]
      by_cases huser : typeAt b k = kAttrUsername
      · simp only [huser,if_true]
        exact ih
      rw [if_neg huser]
      by_cases hintegrity : typeAt b k = kAttrMessageIntegrity
      · simp only [hintegrity,if_true]
        exact ⟨rfl,ih.2⟩
      rw [if_neg hintegrity,decide_eq_false hintegrity]
      by_cases hfingerprint : typeAt b k = kAttrFingerprint
      · rw [if_pos hfingerprint,decide_eq_true hfingerprint]
        exact ⟨ih.1,rfl⟩
      rw [if_neg hfingerprint,decide_eq_false hfingerprint]
      by_cases hcandidate : typeAt b k = kAttrUseCandidate
      · rw [if_pos hcandidate]
        exact ih
      · rw [if_neg hcandidate]
        exact ih

/-- The loop succeeds with what a walk to the end of the buffer has seen. -/
theorem parseAttributes_complete {ks : List ℕ} {k n : ℕ} (walk : Walk b (Matches b msg) ks k)
    (hsize : kStunHeaderSize ≤ b.size) (hn : b.size - k < n) {t : List ℕ} {seen : Seen}
    (h : ((parseAttributes msg n (seenOf b ks)).run b ⟨k,t⟩).1 = some seen) :
    ∃ ks', Walk b (Matches b msg) ks' b.size ∧ seen = seenOf b ks' := by
  induction n generalizing ks k t with
  | zero => omega
  | succ n ih =>
      by_cases header : k+4 ≤ b.size
      · by_cases hgo : Matches b msg k ∧ nextAt b k ≤ b.size
        · have hgt := nextAt_gt b k
          rw [parseAttributes_passes header hgo.1 hgo.2] at h
          exact ih (walk.next header hgo.1 hgo.2) (by omega) h
        · rw [parseAttributes_stops header hgo] at h
          simp at h
      · by_cases hend : b.size ≤ k
        · rw [parseAttributes_end hend] at h
          have hk := walk.le.2 hsize
          rw [show k = b.size by omega] at walk
          exact ⟨ks,walk,(Option.some.inj h).symm⟩
        · cases parseAttributes_cut msg header (Nat.lt_of_not_le hend) t with
          | intro c hc =>
              rw [hc.1] at h
              simp at h

theorem parseAttributes_of_walk {ks : List ℕ} (walk : Walk b (Matches b msg) ks b.size) {n : ℕ}
    (hn : b.size < n) (t : List ℕ) :
    ((parseAttributes msg n {}).run b ⟨kStunHeaderSize,t⟩).1 = some (seenOf b ks) := by
  cases (parseAttributes_walks msg).reaches walk hn {} t with
  | intro m h =>
      cases h with
      | intro t' h =>
          cases m with
          | zero => omega
          | succ m =>
              rw [h.2,parseAttributes_end (Nat.le_refl _)]
              rfl

/-! ### The check of the tag -/

theorem bytesAt_storeLength_behind (length : BitVec 16) {k : ℕ} (h : 4 ≤ k) (n : ℕ) :
    bytesAt (fun i => storeLength b.bytes length (k+i)) n = bytesAt (fun i => b.bytes (k+i)) n := by
  unfold bytesAt
  apply List.map_congr_left
  intro i _
  simp only [storeLength,kLengthOffset]
  rw [if_neg (by omega),if_neg (by omega)]

theorem storeLength_storeLength (bytes : ℕ → Byte) (length length' : BitVec 16) :
    storeLength (storeLength bytes length) length' = storeLength bytes length' := by
  funext i
  simp only [storeLength]
  split
  · rfl
  · split
    · rfl
    · rfl

/-- A stored length leaves the bytes alone exactly when it was there before. -/
theorem storeLength_eq_iff (length : BitVec 16) :
    storeLength b.bytes length = b.bytes ↔ typeAt b kLengthOffset = length := by
  have hload : typeAt b kLengthOffset = b.bytes 2 ++ b.bytes 3 := rfl
  rw [hload]
  constructor
  · intro h
    have htwo := congrFun h 2
    have hthree := congrFun h 3
    rw [← htwo,← hthree]
    change length.extractLsb' 8 8 ++ length.extractLsb' 0 8 = length
    rw [BitVec.extractLsb'_append_extractLsb'_eq_extractLsb' (by rfl)]
    simp
  · intro h
    subst h
    funext i
    simp only [storeLength]
    split
    · rename_i hi
      rw [hi]
      exact BitVec.extractLsb'_append_eq_left
    · split
      · rename_i hi
        rw [hi]
        exact BitVec.extractLsb'_append_eq_right
      · rfl

/-- What the check of the tag leaves behind. -/
theorem checkIntegrity_bytes (hmac : Hmac) {ks : List ℕ}
    (hlast : ∀ k ∈ lastIntegrity b ks, kStunHeaderSize ≤ k) :
    (checkIntegrity hmac msg (seenOf b ks) b).2 = b.bytes ↔
      ∀ k ∈ lastIntegrity b ks, fingerprinted b ks = true →
        typeAt b kLengthOffset = leftLength hmac msg.localPassword b k := by
  have hspec := seenOf_spec (b := b) ks
  unfold checkIntegrity
  rw [hspec.1,hspec.2]
  cases hfound : lastIntegrity b ks with
  | none => exact iff_of_true rfl fun k hk => absurd hk (by simp)
  | some k =>
      have hk := hlast k hfound
      simp only [Option.mem_some_iff,forall_eq']
      cases hfingerprint : fingerprinted b ks with
      | false =>
          simp only [if_false,Bool.false_eq_true,false_implies,iff_true]
          split
          · rfl
          · rfl
      | true =>
          have hbehind := bytesAt_storeLength_behind (b := b) (BitVec.ofNat 16
            (b.size-kStunHeaderSize-kFingerprintAttrLength-kStunAttributeHeaderSize))
            (show 4 ≤ k+kStunAttributeHeaderSize from Nat.le_add_left _ _) 20
          simp only [if_true,true_implies]
          rw [hbehind]
          unfold leftLength
          simp only
          split
          · exact storeLength_eq_iff _
          · rename_i hsame
            rw [storeLength_storeLength,if_pos (Decidable.not_not.mp hsame)]
            exact storeLength_eq_iff _

theorem integrityReads_iff {ks : List ℕ} :
    (∀ i ∈ integrityReads (seenOf b ks), i < b.size) ↔
      ∀ k ∈ lastIntegrity b ks,
        k + kStunAttributeHeaderSize + kMessageIntegrityAttributeLength ≤ b.size := by
  have hspec := seenOf_spec (b := b) ks
  unfold integrityReads
  rw [hspec.1]
  cases lastIntegrity b ks with
  | none => exact iff_of_true (fun i hi => by simp at hi) fun k hk => absurd hk (by simp)
  | some k =>
      simp only [Option.mem_some_iff,forall_eq',List.mem_append,List.mem_range'_1,
        kStunAttributeHeaderSize,kMessageIntegrityAttributeLength]
      constructor
      · intro hall
        have hlast := hall (k+23) (Or.inr (by omega))
        omega
      · intro hle i hi
        omega

theorem Walk.mem_ge {passes : ℕ → Prop} {ks : List ℕ} {k : ℕ} (walk : Walk b passes ks k) {j : ℕ}
    (hj : j ∈ ks) : kStunHeaderSize ≤ j := by
  induction walk with
  | start => exact absurd hj List.not_mem_nil
  | next walk _ _ _ ih =>
      cases List.mem_cons.mp hj with
      | inl hlast =>
          rw [hlast]
          exact walk.le.1
      | inr hold => exact ih hold

theorem Walk.lastIntegrity_ge {passes : ℕ → Prop} {ks : List ℕ} {k : ℕ}
    (walk : Walk b passes ks k) : ∀ j ∈ lastIntegrity b ks, kStunHeaderSize ≤ j := by
  intro j hj
  exact walk.mem_ge (List.mem_of_find?_eq_some hj)

/-! ### Both functions on a datagram -/

/-- The reads of the message header. -/
abbrev messageReads : List ℕ :=
  List.range' 8 12 ++ (List.range' 4 4 ++ (List.range' 2 2 ++ (List.range' 0 2 ++ [])))

theorem messageReads_lt {i : ℕ} (hsize : kStunHeaderSize ≤ b.size) (hi : i ∈ messageReads) :
    i < b.size := by
  simp only [messageReads,List.mem_append,List.mem_range'_1,List.not_mem_nil,or_false,
    kStunHeaderSize] at hi hsize
  omega

/-- `Parse` on a datagram that passed `IsStun` is its loop, and what follows it. -/
theorem parseMessage_run (msg : StunMessage) (hstun : isStun b = true) : ∃ transactionId, ∀ r c,
    (parseAttributes msg (b.size-kStunHeaderSize+1) {}).run b ⟨kStunHeaderSize,messageReads⟩ =
        (r,c) →
      (parseMessage msg).run b ⟨0,[]⟩ = (r.map fun seen => (transactionId,seen),c) := by
  simp only [isStun,kStunHeaderSize,Bool.and_eq_true,decide_eq_true_eq] at hstun
  refine ⟨bytesAt (fun i => b.bytes (8+i)) kStunTransactionIdLength,fun r c h => ?_⟩
  have hcookie : readUInt32.run b ⟨4,List.range' 2 2 ++ (List.range' 0 2 ++ [])⟩ =
      (some kStunMagicCookie,⟨8,List.range' 4 4 ++ (List.range' 2 2 ++ (List.range' 0 2 ++ []))⟩) := by
    rw [readUInt32,Parser.bind_of_some (Parser.take_of_le (show 4+4 ≤ b.size by omega)),
      Parser.run_pure,hstun.2]
  rw [parseMessage,Parser.bind_of_some (readUInt16_at (show 0+2 ≤ b.size by omega) []),
    Parser.bind_of_some (readUInt16_at (show 0+2+2 ≤ b.size by omega) _),
    Parser.bind_of_some hcookie,Parser.bind_of_some (Parser.guard_of rfl b _),
    Parser.bind_of_some (Parser.take_of_le (show 8+12 ≤ b.size by omega)),
    Parser.bind_of_some (Parser.run_left b _)]
  cases r with
  | none => exact Parser.bind_of_none h _
  | some seen => exact Parser.bind_of_some h _

theorem range_inside_iff {s n : ℕ} (hs : s ≤ b.size) :
    (∀ i ∈ List.range' s n, i < b.size) ↔ s+n ≤ b.size := by
  constructor
  · intro hall
    cases n with
    | zero => omega
    | succ n =>
        have hlast := hall (s+n) (List.mem_range'_1.mpr (by omega))
        omega
  · intro hle i hi
    rw [List.mem_range'_1] at hi
    omega

theorem valueReads_iff {k : ℕ} (header : k+4 ≤ b.size) :
    (∀ i ∈ valueReads b k, i < b.size) ↔ ValueInside b k := by
  unfold valueReads
  by_cases huser : typeAt b k = kAttrUsername
  · have hother : typeAt b k ≠ kAttrFingerprint := by rw [huser]; decide
    rw [if_pos huser]
    constructor
    · intro hall
      refine ⟨fun _ => ?_,fun hfingerprint => absurd hfingerprint hother⟩
      exact (range_inside_iff header).mp hall
    · exact fun h => (range_inside_iff header).mpr (h.1 huser)
  rw [if_neg huser]
  by_cases hfingerprint : typeAt b k = kAttrFingerprint
  · rw [if_pos hfingerprint]
    constructor
    · intro hall
      refine ⟨fun hname => absurd hname huser,fun _ => ?_⟩
      exact (range_inside_iff header).mp fun i hi => hall i (List.mem_append_right _ hi)
    · intro h i hi
      cases List.mem_append.mp hi with
      | inl hcovered =>
          rw [List.mem_range'_1] at hcovered
          omega
      | inr hcode => exact (range_inside_iff header).mpr (h.2 hfingerprint) i hcode
  · rw [if_neg hfingerprint]
    refine iff_of_true (fun i hi => absurd hi List.not_mem_nil) ⟨?_,?_⟩
    · exact fun hname => absurd hname huser
    · exact fun hcode => absurd hcode hfingerprint

theorem fastReads_iff {k : ℕ} (header : k+4 ≤ b.size) :
    (∀ i ∈ fastReads b k, i < b.size) ↔
      (typeAt b k = kAttrUsername → k + kStunAttributeHeaderSize + lengthAt b k ≤ b.size) := by
  unfold fastReads
  by_cases huser : typeAt b k = kAttrUsername
  · rw [if_pos huser]
    exact ⟨fun hall _ => (range_inside_iff header).mp hall,
      fun h => (range_inside_iff header).mpr (h huser)⟩
  · rw [if_neg huser]
    exact iff_of_true (fun i hi => absurd hi List.not_mem_nil) fun hname => absurd hname huser

/-- The reads of the loop of `Parse` behind the message header. -/
theorem loopReads_iff (hsize : kStunHeaderSize ≤ b.size) {r : Option Seen} {c : Cursor}
    (hrun : (parseAttributes msg (b.size+1) {}).run b ⟨kStunHeaderSize,messageReads⟩ = (r,c)) :
    (∀ i ∈ c.touched, i < b.size) ↔ ∀ ks k, Walk b (Matches b msg) ks k →
      k + kStunAttributeHeaderSize ≤ b.size → ValueInside b k := by
  have hinside := (parseAttributes_walks msg).inside_iff (Nat.lt_succ_self b.size) {}
    (t := messageReads) fun i hi => messageReads_lt hsize hi
  rw [hrun] at hinside
  rw [hinside]
  constructor
  · intro h ks k walk header
    exact (valueReads_iff header).mp (h ks k walk header)
  · intro h ks k walk header
    exact (valueReads_iff header).mpr (h ks k walk header)

/-- `Parse` refuses a datagram before its tag is checked, or has walked to its end. -/
theorem parse_cases (msg : StunMessage) (hmac : Hmac) (hstun : isStun b = true) :
    ∃ c : Cursor, ((∀ i ∈ c.touched, i < b.size) ↔ ∀ ks k, Walk b (Matches b msg) ks k →
        k + kStunAttributeHeaderSize ≤ b.size → ValueInside b k) ∧
      ((parse hmac msg b).touched = c.touched ∧ (parse hmac msg b).bytes = b.bytes ∧
          (∀ ks, ¬Walk b (Matches b msg) ks b.size) ∨
        ∃ ks transactionId, Walk b (Matches b msg) ks b.size ∧
          (∀ ks', Walk b (Matches b msg) ks' b.size → seenOf b ks' = seenOf b ks) ∧
          (parse hmac msg b).touched = integrityReads (seenOf b ks) ++ c.touched ∧
          (parse hmac msg b).bytes = (checkIntegrity hmac { msg with
            transactionId := transactionId, hasUseCandidate := (seenOf b ks).useCandidate }
            (seenOf b ks) b).2) := by
  have hsize : kStunHeaderSize ≤ b.size := by
    simp only [isStun,Bool.and_eq_true,decide_eq_true_eq] at hstun
    exact hstun.1.1
  have hend := fun ks (walk : Walk b (Matches b msg) ks b.size) =>
    parseAttributes_of_walk walk (Nat.lt_succ_self b.size) messageReads
  cases parseMessage_run msg hstun with
  | intro transactionId hmessage =>
      rw [(parseAttributes_walks msg).enough (show _ < b.size-kStunHeaderSize+1 by omega)
        (show _ < b.size+1 by omega)] at hmessage
      cases hrun : (parseAttributes msg (b.size+1) {}).run b ⟨kStunHeaderSize,messageReads⟩ with
      | mk r c =>
          refine ⟨c,loopReads_iff hsize hrun,?_⟩
          have hparse := hmessage r c hrun
          rw [hrun] at hend
          unfold parse
          rw [hparse]
          cases r with
          | none => exact Or.inl ⟨rfl,rfl,fun ks walk =>
              absurd (hend ks walk).symm (Option.some_ne_none _)⟩
          | some seen =>
              have hcomplete := parseAttributes_complete Walk.start hsize
                (show b.size - kStunHeaderSize < b.size+1 by omega) (congrArg Prod.fst hrun)
              cases hcomplete with
              | intro ks hks =>
                  have hsame := hks.2
                  subst hsame
                  exact Or.inr ⟨ks,transactionId,hks.1,
                    fun ks' walk => (Option.some.inj (hend ks' walk)).symm,rfl,rfl⟩

theorem lastIntegrity_of_seenOf {ks ks' : List ℕ} (h : seenOf b ks' = seenOf b ks) :
    lastIntegrity b ks' = lastIntegrity b ks ∧ fingerprinted b ks' = fingerprinted b ks := by
  have hspec := seenOf_spec (b := b) ks
  have hspec' := seenOf_spec (b := b) ks'
  rw [h] at hspec'
  exact ⟨hspec'.1.symm.trans hspec.1,hspec'.2.symm.trans hspec.2⟩

theorem parse_reads_iff (hmac : Hmac) (hstun : isStun b = true) :
    (∀ i ∈ (parse hmac msg b).touched, i < b.size) ↔
      (∀ ks k, Walk b (Matches b msg) ks k → k + kStunAttributeHeaderSize ≤ b.size →
        ValueInside b k) ∧
      ∀ ks, Walk b (Matches b msg) ks b.size → ∀ k ∈ lastIntegrity b ks,
        k + kStunAttributeHeaderSize + kMessageIntegrityAttributeLength ≤ b.size := by
  cases parse_cases msg hmac hstun with
  | intro c h =>
      cases h.2 with
      | inl hrefused =>
          rw [hrefused.1,h.1]
          exact ⟨fun hvalues => ⟨hvalues,fun ks walk => absurd walk (hrefused.2.2 ks)⟩,And.left⟩
      | inr hwalked =>
          cases hwalked with
          | intro ks hwalked =>
              cases hwalked with
              | intro transactionId hwalked =>
                  rw [hwalked.2.2.1]
                  simp only [List.mem_append,or_imp,forall_and]
                  rw [h.1,integrityReads_iff,and_comm]
                  apply and_congr_right
                  intro _
                  constructor
                  · intro htag ks' walk
                    rw [(lastIntegrity_of_seenOf (hwalked.2.1 ks' walk)).1]
                    exact htag
                  · exact fun htag => htag ks hwalked.1

theorem parse_bytes_iff (hmac : Hmac) (hstun : isStun b = true) :
    (parse hmac msg b).bytes = b.bytes ↔
      ∀ ks, Walk b (Matches b msg) ks b.size → ∀ k ∈ lastIntegrity b ks,
        fingerprinted b ks = true → typeAt b kLengthOffset = leftLength hmac msg.localPassword b k := by
  cases parse_cases msg hmac hstun with
  | intro c h =>
      cases h.2 with
      | inl hrefused =>
          exact iff_of_true hrefused.2.1 fun ks walk => absurd walk (hrefused.2.2 ks)
      | inr hwalked =>
          cases hwalked with
          | intro ks hwalked =>
              cases hwalked with
              | intro transactionId hwalked =>
                  rw [hwalked.2.2.2,checkIntegrity_bytes hmac hwalked.1.lastIntegrity_ge]
                  constructor
                  · intro hlength ks' walk
                    have hsame := lastIntegrity_of_seenOf (hwalked.2.1 ks' walk)
                    rw [hsame.1,hsame.2]
                    exact hlength
                  · exact fun hlength => hlength ks hwalked.1

theorem fastWalk_reads_iff (hsize : kStunHeaderSize ≤ b.size) :
    (∀ i ∈ (fastWalk.run b ⟨0,[]⟩).2.touched, i < b.size) ↔
      ∀ ks k, Walk b (NoUserName b) ks k → k + kStunAttributeHeaderSize ≤ b.size →
        typeAt b k = kAttrUsername → k + kStunAttributeHeaderSize + lengthAt b k ≤ b.size := by
  have hwalk : fastWalk.run b ⟨0,[]⟩ = (fastAttributes (b.size+1)).run b ⟨kStunHeaderSize,[]⟩ := by
    rw [fastWalk,Parser.bind_of_some (Parser.skip_of_le (show 0+kStunHeaderSize ≤ b.size by omega)),
      Parser.bind_of_some (Parser.run_left b _)]
    exact fastAttributes_walks.enough (by simp only; omega) (by omega) () []
  rw [hwalk,fastAttributes_walks.inside_iff (Nat.lt_succ_self b.size) ()
    fun i hi => absurd hi List.not_mem_nil]
  constructor
  · intro h ks k walk header
    exact (fastReads_iff header).mp (h ks k walk header)
  · intro h ks k walk header
    exact (fastReads_iff header).mpr (h ks k walk header)

/-- A datagram that passed `IsStun` is handled right exactly when every value that is read ends
inside it, the last tag does, and the length field is the one that is left. -/
theorem right_iff_safe (hmac : Hmac) (msg : StunMessage) (b : Region)
    (hstun : isStun b = true) : Right hmac msg b ↔ Safe hmac msg b := by
  have hsize : kStunHeaderSize ≤ b.size := by
    simp only [isStun,Bool.and_eq_true,decide_eq_true_eq] at hstun
    exact hstun.1.1
  constructor
  · intro h
    have hreads := (parse_reads_iff hmac hstun).mp h.parseReads
    exact ⟨hreads.1,hreads.2,(parse_bytes_iff hmac hstun).mp h.bytes,
      (fastWalk_reads_iff hsize).mp h.fastReads⟩
  · intro h
    exact {
      parseEnds := fun _ seen c hfuel =>
        (parseAttributes_walks msg).enough hfuel (Nat.lt_succ_self _) seen c.touched
      fastEnds := fun _ c hfuel =>
        fastAttributes_walks.enough hfuel (Nat.lt_succ_self _) () c.touched
      parseReads := (parse_reads_iff hmac hstun).mpr ⟨h.values,h.tag⟩
      fastReads := (fastWalk_reads_iff hsize).mpr h.fast
      bytes := (parse_bytes_iff hmac hstun).mpr h.length }

end Parse

/-- A request with a user name, a priority, a tag of zeros and a fingerprint. -/
def bindingRequest : Region :=
  .ofList [0,1,0,48,0x21,0x12,0xA4,0x42,1,2,3,4,5,6,7,8,9,10,11,12,
    0,6,0,3,0x61,0x3a,0x62,0,0,0x24,0,4,0x6e,0x7f,0x1e,0xff,
    0,8,0,20,0,0,0,0,0,0,0,0,0,0,0,0,0,0,0,0,0,0,0,0,
    0x80,0x28,0,4,0x9c,0x16,0x0f,0xb1] (fun _ => 0) (by decide)

/-- Where a walk over the request may stand. -/
def requestSteps : List (List ℕ × ℕ) :=
  [([],20),([20],28),([28,20],36),([36,28,20],60),([60,36,28,20],68)]

theorem Walk.mem_requestSteps {passes : ℕ → Prop} {ks : List ℕ} {k : ℕ}
    (walk : Walk bindingRequest passes ks k) : (ks,k) ∈ requestSteps := by
  induction walk with
  | start => decide
  | next _ header _ _ ih =>
      simp only [requestSteps,List.mem_cons,Prod.mk.injEq,List.not_mem_nil,or_false] at ih
      rcases ih with ⟨rfl,rfl⟩ | ⟨rfl,rfl⟩ | ⟨rfl,rfl⟩ | ⟨rfl,rfl⟩ | ⟨rfl,rfl⟩
      · decide
      · decide
      · decide
      · decide
      · exact absurd header (by decide)

/-- A peer with fragments `a` and `b`. -/
def peerMessage : StunMessage := { localUfrag := [0x61], localPassword := [], remoteUfrag := [0x62] }

theorem right_bindingRequest :
    Right (fun _ _ => Vector.replicate 20 0) peerMessage bindingRequest := by
  have hvalues : ∀ step ∈ requestSteps,
      typeAt bindingRequest step.2 = kAttrUsername →
        step.2 + kStunAttributeHeaderSize + lengthAt bindingRequest step.2 ≤
          bindingRequest.size := by decide
  have hfingerprint : ∀ step ∈ requestSteps,
      typeAt bindingRequest step.2 = kAttrFingerprint →
        step.2 + kStunAttributeHeaderSize + kFingerprintAttrLength ≤ bindingRequest.size := by
    decide
  have hlast : ∀ step ∈ requestSteps, ∀ k ∈ lastIntegrity bindingRequest step.1,
      k + kStunAttributeHeaderSize + kMessageIntegrityAttributeLength ≤ bindingRequest.size ∧
        typeAt bindingRequest kLengthOffset =
          leftLength (fun _ _ => Vector.replicate 20 0) peerMessage.localPassword bindingRequest
            k := by decide +kernel
  apply (right_iff_safe _ peerMessage bindingRequest (by decide)).mpr
  exact {
    values := fun ks k walk _ => ⟨hvalues (ks,k) walk.mem_requestSteps,
      hfingerprint (ks,k) walk.mem_requestSteps⟩
    tag := fun ks walk k hk => (hlast (ks,_) walk.mem_requestSteps k hk).1
    length := fun ks walk k hk _ => (hlast (ks,_) walk.mem_requestSteps k hk).2
    fast := fun ks k walk _ => hvalues (ks,k) walk.mem_requestSteps }

/-- A user name that is announced where the datagram ends. -/
def endsInUserName : Region :=
  .ofList [0,1,0,4,0x21,0x12,0xA4,0x42,0,0,0,0,0,0,0,0,0,0,0,0,0,6,0xFF,0xFF] (fun _ => 0)
    (by decide)

theorem not_right_endsInUserName : isStun endsInUserName = true ∧
    ¬Right (fun _ _ => Vector.replicate 20 0) peerMessage endsInUserName := by
  constructor
  · decide
  · intro h
    have hfast := (fastWalk_reads_iff (by decide)).mp h.fastReads [] kStunHeaderSize Walk.start
      (by decide) (by decide)
    exact absurd hfast (by decide)

end Ylrtc.Stun
