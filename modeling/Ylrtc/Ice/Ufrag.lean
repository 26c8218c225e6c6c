import Ylrtc.Ice.StunMessage
import Ylrtc.Lib.Pieces

/-!
# From a user name to a stream

`ice/stun_common.cpp` and `WebrtcStreamProxy::OnUdpSocketDataReceive`. The local fragment
joins the room and the stream without any escape, and empty pieces get lost on the way back.
-/
namespace Ylrtc.Stun
open ByteBuffer CursorParser Pieces

/-- `StringSplit` at one character. -/
def stringSplit (s : List Byte) (delim : Byte) : List (List Byte) := pieces delim s

abbrev kSlash : Byte := 0x2F
abbrev kColon : Byte := 0x3A

def isStun (b : Region) : Bool :=
  kStunHeaderSize ≤ b.size && b.bytes 0 < 3 &&
    loadUInt32BE (fun i => b.bytes (4+i)) = kStunMagicCookie

def makeUfrag (roomId streamId : List Byte) : List Byte := roomId++[kSlash]++streamId

def extractUfragInfo (ufrag : List Byte) : Option (List Byte × List Byte) :=
  match stringSplit ufrag kSlash with
  | [roomId,streamId] => some (roomId,streamId)
  | _ => none

/-- What `FastGetLocalUfrag` makes of a user name. -/
def localPart (userName : List Byte) : Option (List Byte) :=
  match stringSplit userName kColon with
  | [ufrag,_] => some ufrag
  | _ => none

/-- Its loop. The user name is read through a raw pointer. -/
def fastAttributes : ℕ → Parser (Option (List Byte))
  | 0 => Parser.fail
  | fuel+1 => do
      let left ← Parser.left
      if 0 < left then
        let attrType ← readUInt16
        let attrLength ← readUInt16
        if attrType = kAttrUsername then
          let current ← Parser.position
          let userName ← Parser.load current attrLength.toNat
          return localPart (bytesAt userName attrLength.toNat)
        else
          Parser.skip (paddedLength attrLength).toNat
          fastAttributes fuel
      else return none

def fastGetLocalUfrag (b : Region) : Option (List Byte) :=
  let walk : Parser (Option (List Byte)) := do
    Parser.skip kStunHeaderSize
    let left ← Parser.left
    fastAttributes (left+1)
  (walk.run b ⟨0,[]⟩).1.join

/-- `OnUdpSocketDataReceive`: the room and the stream that a datagram goes to, among those
that there are. -/
def onUdpSocketDataReceive (hasStream : List Byte → List Byte → Bool) (b : Region) :
    Option (List Byte × List Byte) :=
  if isStun b then
    match fastGetLocalUfrag b with
    | none => none
    | some ufrag =>
        match extractUfragInfo ufrag with
        | none => none
        | some (roomId,streamId) => if hasStream roomId streamId then some (roomId,streamId) else none
  else none

/-- `0` to `9` and `a` to `z`. -/
def characters : List Byte := (List.range' 48 10 ++ List.range' 97 26).map (BitVec.ofNat 8)

/-- What `RandomString(64)` makes. -/
structure StreamId where
  value : List Byte
  length : value.length = 64
  chars : ∀ c ∈ value, c ∈ characters

/-! ### The first user name -/

/-- From an attribute on, the first one of a type. -/
inductive FirstAt (b : Region) (attrType : BitVec 16) : ℕ → ℕ → Prop
  | here {k : ℕ} (found : typeAt b k = attrType)
      (inside : k+kStunAttributeHeaderSize+lengthAt b k ≤ b.size) : FirstAt b attrType k k
  | next {k j : ℕ} (other : typeAt b k ≠ attrType)
      (inside : k+kStunAttributeHeaderSize+4*((lengthAt b k+3)/4) ≤ b.size)
      (rest : FirstAt b attrType (k+kStunAttributeHeaderSize+4*((lengthAt b k+3)/4)) j) :
      FirstAt b attrType k j

/-- A STUN message in a datagram, the first user name of which is this. -/
structure Names (b : Region) (userName : List Byte) : Prop where
  stun : isStun b = true
  datagram : b.size < 2^16
  first : ∃ k, FirstAt b kAttrUsername kStunHeaderSize k ∧
    bytesAt (fun i => b.bytes (k+kStunAttributeHeaderSize+i)) (lengthAt b k) = userName

theorem FirstAt.inside {b : Region} {attrType : BitVec 16} {k j : ℕ} (h : FirstAt b attrType k j) :
    k+4 ≤ b.size := by
  cases h with
  | here _ inside => rw [kStunAttributeHeaderSize] at inside; omega
  | next _ inside _ => rw [kStunAttributeHeaderSize] at inside; omega

theorem paddedLength_toNat {attrLength : BitVec 16} (h : attrLength.toNat+8 ≤ 2^16) :
    (paddedLength attrLength).toNat = 4*((attrLength.toNat+3)/4) := by
  rw [paddedLength]
  split
  · rw [BitVec.toNat_add,BitVec.toNat_sub,BitVec.toNat_ofNat]
    have hfour : (4 : BitVec 16).toNat = 4 := rfl
    rw [hfour]
    omega
  · omega

theorem readUInt16_at {b : Region} {k : ℕ} (h : k+2 ≤ b.size) (t : List ℕ) :
    readUInt16.run b ⟨k,t⟩ = (some (typeAt b k),⟨k+2,List.range' k 2 ++ t⟩) := by
  rw [readUInt16,Parser.bind_of_some (Parser.take_of_le h)]
  rfl

/-- One round, behind the header of an attribute. -/
theorem fastAttributes_round {b : Region} {k : ℕ} (h : k+4 ≤ b.size) (fuel : ℕ) (t : List ℕ) :
    ∃ t', (fastAttributes (fuel+1)).run b ⟨k,t⟩ =
      if typeAt b k = kAttrUsername then
        (some (localPart (bytesAt (fun i => b.bytes (k+4+i)) (lengthAt b k))),⟨k+4,t'⟩)
      else (Parser.skip (paddedLength (typeAt b (k+2))).toNat >>= fun _ =>
        fastAttributes fuel).run b ⟨k+4,t'⟩ := by
  rw [fastAttributes,Parser.bind_of_some (Parser.run_left b _),if_pos (by simp only; omega),
    Parser.bind_of_some (readUInt16_at (by omega) t),
    Parser.bind_of_some (readUInt16_at (by omega) _)]
  split
  · rw [Parser.bind_of_some (Parser.run_position b _),Parser.bind_of_some (Parser.run_load _ _ b _)]
    exact ⟨_,rfl⟩
  · exact ⟨_,rfl⟩

/-- The loop comes to the first user name. -/
theorem fastAttributes_of_first {b : Region} (hsize : b.size < 2^16) {k j fuel : ℕ}
    (h : FirstAt b kAttrUsername k j) (hfuel : b.size - k < fuel) (t : List ℕ) :
    ∃ c, (fastAttributes fuel).run b ⟨k,t⟩ = (some (localPart
      (bytesAt (fun i => b.bytes (j+kStunAttributeHeaderSize+i)) (lengthAt b j))),c) := by
  induction h generalizing fuel t with
  | @here k found inside =>
      cases fuel with
      | zero => omega
      | succ fuel =>
          rw [kStunAttributeHeaderSize] at inside
          cases fastAttributes_round (show k+4 ≤ b.size by omega) fuel t with
          | intro t' hround =>
              rw [if_pos found] at hround
              exact ⟨_,hround⟩
  | @next k j other inside rest ih =>
      cases fuel with
      | zero => omega
      | succ fuel =>
          rw [kStunAttributeHeaderSize] at inside rest ih
          have hlength : lengthAt b k = (typeAt b (k+2)).toNat := rfl
          have hpadded := paddedLength_toNat (show (typeAt b (k+2)).toNat+8 ≤ 2^16 by omega)
          cases fastAttributes_round (show k+4 ≤ b.size by omega) fuel t with
          | intro t' hround =>
              rw [if_neg other,hpadded,← hlength,Parser.bind_of_some (Parser.skip_of_le inside)]
                at hround
              rw [hround]
              exact ih (by omega) _

theorem fastGetLocalUfrag_of_names {b : Region} {userName : List Byte} (h : Names b userName) :
    fastGetLocalUfrag b = localPart userName := by
  cases h.first with
  | intro k hk =>
      have hstun := h.stun
      simp only [isStun,kStunHeaderSize,Bool.and_eq_true,decide_eq_true_eq] at hstun
      cases fastAttributes_of_first h.datagram hk.1 (Nat.lt_succ_self _) [] with
      | intro c hrun =>
          rw [fastGetLocalUfrag,
            Parser.bind_of_some (Parser.skip_of_le (show 0+20 ≤ b.size by omega)),
            Parser.bind_of_some (Parser.run_left b _),Nat.zero_add,hrun,hk.2]
          rfl

/-! ### The user name that `Parse` accepts -/

section Parse
variable {b : Region} {msg : StunMessage}

/-- The cases leave the reader where it is. -/
theorem parseValue_start {attrType attrLength : BitVec 16} {seen seen' : Seen} {c c' : Cursor}
    (h : (parseValue msg attrType attrLength seen).run b c = (some seen',c')) :
    c'.start = c.start := by
  rw [parseValue,Parser.bind_of_some (Parser.run_position b c)] at h
  split at h
  · rw [Parser.bind_of_some (Parser.run_load _ _ b _)] at h
    cases Parser.bind_eq_some h with
    | intro u h =>
        cases h with
        | intro d h => rw [(Parser.pure_eq_some h.2).2,(Parser.guard_eq_some h.1).2]
  split at h
  · rw [(Parser.pure_eq_some h).2]
  split at h
  · rw [Parser.bind_of_some (Parser.run_load _ _ b _),
      Parser.bind_of_some (Parser.run_load _ _ b _)] at h
    cases Parser.bind_eq_some h with
    | intro u h =>
        cases h with
        | intro d h => rw [(Parser.pure_eq_some h.2).2,(Parser.guard_eq_some h.1).2]
  split at h
  · rw [(Parser.pure_eq_some h).2]
  · rw [(Parser.pure_eq_some h).2]

theorem parseValue_userName {attrLength : BitVec 16} {seen seen' : Seen} {c c' : Cursor}
    (h : (parseValue msg kAttrUsername attrLength seen).run b c = (some seen',c')) :
    bytesAt (fun i => b.bytes (c.start+i)) attrLength.toNat = msg.userName := by
  rw [parseValue,Parser.bind_of_some (Parser.run_position b c),if_pos rfl,
    Parser.bind_of_some (Parser.run_load _ _ b _)] at h
  cases Parser.bind_eq_some h with
  | intro u h =>
      cases h with
      | intro d h => exact (Parser.guard_eq_some h.1).1

/-- One round of a walk that is accepted. -/
theorem parseAttributes_eq_some {fuel k : ℕ} (hinside : k+4 ≤ b.size) {t : List ℕ}
    {seen seen' : Seen} {c : Cursor}
    (h : (parseAttributes msg fuel seen).run b ⟨k,t⟩ = (some seen',c)) :
    ∃ n t₀ t₁ seen₁, fuel = n+1 ∧ (parseValue msg (typeAt b k) (typeAt b (k+2)) seen).run b
        ⟨k+4,t₀⟩ = (some seen₁,⟨k+4,t₁⟩) ∧
      (parseAttributes msg n seen₁).run b ⟨k+4+(paddedLength (typeAt b (k+2))).toNat,t₁⟩ =
        (some seen',c) := by
  cases fuel with
  | zero => simp [parseAttributes] at h
  | succ n =>
      rw [parseAttributes,Parser.bind_of_some (Parser.run_left b _),if_pos (by simp only; omega),
        Parser.bind_of_some (readUInt16_at (by omega) t),
        Parser.bind_of_some (readUInt16_at (by omega) _)] at h
      cases Parser.bind_eq_some h with
      | intro seen₁ h =>
          cases h with
          | intro d h =>
              have hstart := parseValue_start h.1
              cases d with
              | mk start t₁ =>
                  simp only at hstart
                  rw [hstart] at h
                  cases Parser.bind_eq_some h.2 with
                  | intro u hskip =>
                      cases hskip with
                      | intro e hskip =>
                          rw [(Parser.skip_eq_some hskip.1).2] at hskip
                          exact ⟨n,_,t₁,seen₁,rfl,h.1,hskip.2⟩

/-- Both walks come to the same first user name. -/
theorem userName_of_parseAttributes (hsize : b.size < 2^16) {k j fuel : ℕ}
    (hfirst : FirstAt b kAttrUsername k j) {t : List ℕ} {seen seen' : Seen} {c : Cursor}
    (h : (parseAttributes msg fuel seen).run b ⟨k,t⟩ = (some seen',c)) :
    bytesAt (fun i => b.bytes (j+kStunAttributeHeaderSize+i)) (lengthAt b j) = msg.userName := by
  induction hfirst generalizing fuel t seen with
  | @here k found inside =>
      rw [kStunAttributeHeaderSize] at inside
      obtain ⟨n,t₀,t₁,seen₁,_,hvalue,_⟩ := parseAttributes_eq_some (show k+4 ≤ b.size by omega) h
      rw [found] at hvalue
      exact parseValue_userName hvalue
  | @next k j other inside rest ih =>
      rw [kStunAttributeHeaderSize] at inside rest ih
      have hlength : lengthAt b k = (typeAt b (k+2)).toNat := rfl
      have hpadded := paddedLength_toNat (show (typeAt b (k+2)).toNat+8 ≤ 2^16 by omega)
      obtain ⟨n,t₀,t₁,seen₁,_,_,hrest⟩ := parseAttributes_eq_some (show k+4 ≤ b.size by omega) h
      rw [hpadded,← hlength] at hrest
      exact ih hrest

theorem userName_of_parse {hmac : Hmac} {userName : List Byte} (h : Names b userName)
    (hok : (parse hmac msg b).ok = true) : msg.userName = userName := by
  have hstun := h.stun
  simp only [isStun,kStunHeaderSize,Bool.and_eq_true,decide_eq_true_eq] at hstun
  have hcookie : readUInt32.run b ⟨4,List.range' 2 2 ++ List.range' 0 2⟩ =
      (some kStunMagicCookie,⟨8,List.range' 4 4 ++ (List.range' 2 2 ++ List.range' 0 2)⟩) := by
    rw [readUInt32,Parser.bind_of_some (Parser.take_of_le (show 4+4 ≤ b.size by omega)),
      Parser.run_pure,hstun.2]
  cases hrun : (parseMessage msg).run b ⟨0,[]⟩ with
  | mk result c =>
      cases result with
      | none => simp [parse,hrun] at hok
      | some r =>
          rw [parseMessage,Parser.bind_of_some (readUInt16_at (show 0+2 ≤ b.size by omega) []),
            Parser.bind_of_some (readUInt16_at (show 0+2+2 ≤ b.size by omega) _),List.append_nil,
            Parser.bind_of_some hcookie,Parser.bind_of_some (Parser.guard_of rfl b _),
            Parser.bind_of_some (Parser.take_of_le (show 8+12 ≤ b.size by omega)),
            Parser.bind_of_some (Parser.run_left b _)] at hrun
          obtain ⟨seen,d,hwalk,_⟩ := Parser.bind_eq_some hrun
          cases h.first with
          | intro k hk =>
              rw [← hk.2]
              exact (userName_of_parseAttributes h.datagram hk.1 hwalk).symm

end Parse

/-! ### There and back -/

/-- The user name of a request to a stream. -/
def requestName (roomId streamId remoteUfrag : List Byte) : List Byte :=
  makeUfrag roomId streamId++[kColon]++remoteUfrag

theorem StreamId.ne_nil (s : StreamId) : s.value ≠ [] := by
  intro h
  have hlength := s.length
  rw [h] at hlength
  exact absurd hlength (by decide)

theorem StreamId.not_mem (s : StreamId) {c : Byte} (h : c ∉ characters) : c ∉ s.value :=
  fun hmem => h (s.chars c hmem)

/-- The message is routed back to the room and the stream that its user name was made for,
and no message object with another user name accepts it. -/
structure RoutedBack (b : Region) (roomId streamId remoteUfrag : List Byte) : Prop where
  ufrag : fastGetLocalUfrag b = some (makeUfrag roomId streamId)
  info : extractUfragInfo (makeUfrag roomId streamId) = some (roomId,streamId)
  delivered : ∀ hasStream, onUdpSocketDataReceive hasStream b =
    if hasStream roomId streamId then some (roomId,streamId) else none
  accepted : ∀ hmac msg, (parse hmac msg b).ok = true →
    msg.userName = requestName roomId streamId remoteUfrag

theorem extractUfragInfo_eq_some {ufrag roomId streamId : List Byte} :
    extractUfragInfo ufrag = some (roomId,streamId) ↔
      stringSplit ufrag kSlash = [roomId,streamId] := by
  rw [extractUfragInfo]
  constructor
  · intro h
    split at h
    · rename_i hsplit
      rw [Option.some.injEq,Prod.mk.injEq] at h
      rw [hsplit,h.1,h.2]
    · simp at h
  · intro h
    rw [h]

theorem localPart_eq_some {userName ufrag : List Byte} :
    localPart userName = some ufrag ↔ ∃ rest, stringSplit userName kColon = [ufrag,rest] := by
  rw [localPart]
  constructor
  · intro h
    split at h
    · rename_i first rest hsplit
      rw [Option.some.injEq] at h
      exact ⟨rest,h ▸ hsplit⟩
    · simp at h
  · intro h
    cases h with
    | intro rest h => rw [h]

theorem extractUfragInfo_iff (roomId : List Byte) (s : StreamId) :
    extractUfragInfo (makeUfrag roomId s.value) = some (roomId,s.value) ↔
      roomId ≠ [] ∧ kSlash ∉ roomId := by
  rw [extractUfragInfo_eq_some,makeUfrag,List.append_assoc,List.singleton_append]
  exact pieces_join_iff (s.not_mem (by decide)) s.ne_nil

theorem localPart_iff {ufrag remoteUfrag : List Byte} (hne : ufrag ≠ [])
    (hremote : kColon ∉ remoteUfrag) :
    localPart (ufrag++[kColon]++remoteUfrag) = some ufrag ↔ kColon ∉ ufrag ∧ remoteUfrag ≠ [] := by
  rw [localPart_eq_some,List.append_assoc,List.singleton_append,stringSplit]
  constructor
  · intro h
    cases h with
    | intro rest h =>
        have hufrag := (mem_pieces ufrag (h ▸ List.mem_cons_self)).2
        refine ⟨hufrag,fun hempty => ?_⟩
        rw [pieces_append_delim hufrag,hempty,flush_of_ne hne] at h
        exact absurd (List.cons.inj h).2 (by simp [pieces,piecesFrom])
  · intro h
    exact ⟨remoteUfrag,(pieces_join_iff hremote h.2).mpr ⟨hne,h.1⟩⟩

/-- The message comes to its stream exactly when the room has a name without the two
delimiters and the remote fragment is not empty. -/
theorem routedBack_iff {b : Region} {roomId remoteUfrag : List Byte} (s : StreamId)
    (hremote : kColon ∉ remoteUfrag) (h : Names b (requestName roomId s.value remoteUfrag)) :
    RoutedBack b roomId s.value remoteUfrag ↔
      roomId ≠ [] ∧ kSlash ∉ roomId ∧ kColon ∉ roomId ∧ remoteUfrag ≠ [] := by
  have hne : makeUfrag roomId s.value ≠ [] := by simp [makeUfrag]
  have hcolon : kColon ∉ makeUfrag roomId s.value ↔ kColon ∉ roomId := by
    have hstream : kColon ∉ s.value := s.not_mem (by decide)
    rw [makeUfrag,List.mem_append,List.mem_append,List.mem_singleton,not_or,not_or]
    exact ⟨fun hparts => hparts.1.1,fun hroom => ⟨⟨hroom,by decide⟩,hstream⟩⟩
  have hlocal := localPart_iff hne hremote
  have hinfo := extractUfragInfo_iff roomId s
  have hfast := fastGetLocalUfrag_of_names h
  rw [requestName] at hfast
  rw [← hfast,hcolon] at hlocal
  constructor
  · intro hrouted
    have hname := hinfo.mp hrouted.info
    have hparts := hlocal.mp hrouted.ufrag
    exact ⟨hname.1,hname.2,hparts.1,hparts.2⟩
  · intro hgood
    have hufrag := hlocal.mpr ⟨hgood.2.2.1,hgood.2.2.2⟩
    have hback := hinfo.mpr ⟨hgood.1,hgood.2.1⟩
    refine ⟨hufrag,hback,fun hasStream => ?_,fun hmac msg => userName_of_parse h⟩
    rw [onUdpSocketDataReceive,if_pos h.stun,hufrag]
    simp only [hback]

/-- Sixty-four zeros. -/
def zeroStream : StreamId := ⟨List.replicate 64 48,by decide,by decide⟩

/-- A message with one attribute, the user name of a stream. -/
def request (roomId remoteUfrag : List Byte) : List Byte :=
  let userName := requestName roomId zeroStream.value remoteUfrag
  storeUInt16BE kBindingRrequst ++ storeUInt16BE (BitVec.ofNat 16 (userName.length+4)) ++
    storeUInt32BE kStunMagicCookie ++ List.replicate 12 0 ++ storeUInt16BE kAttrUsername ++
    storeUInt16BE (BitVec.ofNat 16 userName.length) ++ userName

/-- The message in a datagram of its own. -/
def datagram (roomId remoteUfrag : List Byte) (h : (request roomId remoteUfrag).length < 2^63) :
    Region :=
  Region.ofList (request roomId remoteUfrag) (fun _ => 0) h

theorem zeroStream_routedBack_iff : ∃ b : Region,
    Names b (requestName [49] zeroStream.value [97]) ∧
    (RoutedBack b [49] zeroStream.value [97] ↔
      ([49] : List Byte) ≠ [] ∧ kSlash ∉ ([49] : List Byte) ∧ kColon ∉ ([49] : List Byte) ∧
        ([97] : List Byte) ≠ []) := by
  have hnames : Names (datagram [49] [97] (by decide)) (requestName [49] zeroStream.value [97]) :=
    ⟨by decide,by decide,20,FirstAt.here (by decide) (by decide),by decide⟩
  exact ⟨datagram [49] [97] (by decide),hnames,routedBack_iff zeroStream (by decide) hnames⟩

/-- In a room `a/b` nobody is found. -/
theorem not_routedBack : ¬∀ (b : Region) (roomId remoteUfrag : List Byte) (s : StreamId),
    kColon ∉ remoteUfrag → Names b (requestName roomId s.value remoteUfrag) →
      RoutedBack b roomId s.value remoteUfrag := by
  intro h
  have hnames : Names (datagram [97,47,98] [97,98,99] (by decide))
      (requestName [97,47,98] zeroStream.value [97,98,99]) :=
    ⟨by decide,by decide,20,FirstAt.here (by decide) (by decide),by decide⟩
  have hrouted := h _ [97,47,98] [97,98,99] zeroStream (by decide) hnames
  exact ((extractUfragInfo_iff [97,47,98] zeroStream).mp hrouted.info).2 (by decide)

end Ylrtc.Stun
