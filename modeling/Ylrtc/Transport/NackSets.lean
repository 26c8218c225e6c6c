import Ylrtc.Transport.NackRoom
import Ylrtc.Transport.NackRuns
import Ylrtc.Transport.SerialSets

/-!
# The sets of the NACK requester

`keyframe_list_` and `recovered_list_` are sets whose comparator orders only numbers less than
half the range apart. A packet is inserted before the numbers that are too old for it are
erased, and the recovered numbers are pruned by recovered packets only, so nothing in the code
keeps them that close. Which runs keep the searches ordered and the keyframes complete is read
off the packets and the state before each of them.
-/
namespace Ylrtc.Nack
open Run SearchTree SequenceNumber

/-! ### Searches -/

namespace NackRequester

/-- `AddPacketsToNack` adds the gap up to a packet, and does not clear the list instead. -/
def addsGap (r : NackRequester) (d : Descent (BitVec 16)) (seqNum : BitVec 16)
    (createdAt : BitVec 16 → ℤ) : Bool :=
  !(r.addPacketsToNack d (r.newestSeqNum+1) seqNum createdAt).1

/-- The requester with the set of keyframes that a packet ahead of the newest leaves, before
`AddPacketsToNack`. -/
def trackKeyframe (r : NackRequester) (d : Descent (BitVec 16)) (seqNum : BitVec 16)
    (isKeyframe : Bool) : NackRequester :=
  let keyframeList :=
    if isKeyframe then insert d isSeqNumLessThan r.keyframeList seqNum else r.keyframeList
  { r with keyframeList := eraseOld d keyframeList seqNum }

/-- The searches of `keyframe_list_` and `recovered_list_` in a call of `OnReceivedPacket`: by
`insert`, by `lower_bound` for what is too old, and by `find` for every number of a gap. -/
def searches (r : NackRequester) (d : Descent (BitVec 16)) (seqNum : BitVec 16)
    (isKeyframe isRecovered : Bool) (createdAt : BitVec 16 → ℤ) : List Search :=
  let old := seqNum - BitVec.ofNat 16 kMaxPacketAge
  if ¬r.initialized then if isKeyframe then [⟨r.keyframeList,seqNum⟩] else []
  else if seqNum = r.newestSeqNum then []
  else if seqNumGT r.newestSeqNum seqNum then []
  else
    (if isKeyframe then
      [⟨r.keyframeList,seqNum⟩,⟨insert d isSeqNumLessThan r.keyframeList seqNum,old⟩]
    else [⟨r.keyframeList,old⟩]) ++
    if isRecovered then
      [⟨r.recoveredList,seqNum⟩,⟨insert d isSeqNumLessThan r.recoveredList seqNum,old⟩]
    else if (r.trackKeyframe d seqNum isKeyframe).addsGap d seqNum createdAt then
      (numbers r.newestSeqNum 1 (seqNum - (r.newestSeqNum+1)).toNat).map (⟨r.recoveredList,·⟩)
    else []

end NackRequester

/-! ### Unwrapped numbers -/

/-- A run with its numbers unwrapped. `keyframes` are all that were received. `held` are those
that came first or ahead of the newest number, at most `kMaxPacketAge` behind each packet that
did so since. -/
structure Tracking where
  requester : NackRequester := {}
  newest : ℤ := 0
  processed : ℤ := 0
  keyframes : List ℤ := []
  held : List ℤ := []

namespace Tracking

/-- The number of a packet, next to the newest one. -/
def number (t : Tracking) (a : Arrival) : ℤ :=
  if t.requester.initialized then
    t.newest + serialOffset (low16 a.number) t.requester.newestSeqNum
  else (low16 a.number).toNat

def receive (t : Tracking) (a : Arrival) : NackRequester :=
  (t.requester.onReceivedPacket a.descent (low16 a.number) a.isKeyframe a.isRecovered a.createdAt
    a.nowMs).2.2

/-- A packet that the sets take notice of: the first one, or one ahead of the newest. -/
def Notices (t : Tracking) (a : Arrival) : Prop :=
  t.requester.initialized = true → t.newest < t.number a

instance (t : Tracking) (a : Arrival) : Decidable (t.Notices a) :=
  inferInstanceAs (Decidable (_ → _))

def keyframesWith (t : Tracking) (a : Arrival) : List ℤ :=
  if a.isKeyframe then t.number a::t.keyframes else t.keyframes

/-- What is held behind a packet that is noticed. -/
def kept (t : Tracking) (a : Arrival) : List ℤ :=
  recent (t.number a) (if a.isKeyframe then track (t.number a) t.held else t.held)

def step (t : Tracking) : Event → Tracking
  | .packet a => {
      requester := t.receive a
      newest :=
        if t.Notices a ∧ (t.requester.initialized = false ∨ a.isRecovered = false) then t.number a
        else t.newest
      processed := t.number a
      keyframes := t.keyframesWith a
      held := if t.Notices a then t.kept a else t.held }
  | .timer nowMs => { t with requester := (t.requester.onTimerTimeout nowMs).2 }
  | .updateRtt rttMs => { t with requester := t.requester.updateRtt rttMs }

/-! ### What is right -/

/-- The comparator orders what the searches of a call compare. -/
def SearchesOrdered (t : Tracking) : Event → Prop
  | .packet a => ∀ s ∈ t.requester.searches a.descent (low16 a.number) a.isKeyframe a.isRecovered
      a.createdAt, s.Ordered
  | _ => True

/-- The set holds exactly the keyframes that are not too old for the packet just processed. -/
def HoldsRecent (t : Tracking) : Prop :=
  ∀ x, x ∈ t.requester.keyframeList ↔
    ∃ k ∈ t.keyframes, t.processed-k ≤ kMaxPacketAge ∧ low16 k = x

/-- A call searches in order and leaves the recent keyframes. -/
def Right (t : Tracking) (e : Event) : Prop := t.SearchesOrdered e ∧ (t.step e).HoldsRecent

/-! ### When it is -/

/-- The gap up to a packet fits into the list behind the oldest keyframe that is held, or behind
what is not too old where there is none. -/
def Room (t : Tracking) (a : Arrival) : Prop :=
  t.requester.Room (low16 a.number)
    ((t.kept a).head?.getD (t.number a - kMaxPacketAge) - t.number a)

instance (t : Tracking) (a : Arrival) : Decidable (t.Room a) :=
  inferInstanceAs (Decidable (t.requester.Room _ _))

/-- A packet ahead of the newest number: no keyframe that is recent for it was missed or given up
before, it is in reach of those that are held, and of the recovered numbers if it is to be
inserted or its gap to be looked for. -/
structure SoundAhead (t : Tracking) (a : Arrival) : Prop where
  remembered : ∀ k ∈ t.keyframesWith a, t.number a - k ≤ kMaxPacketAge → k ∈ t.kept a
  near : ∀ k ∈ t.held,
    t.number a - k < 2^15+(if a.isKeyframe then 0 else kMaxPacketAge) ∧
      k - t.number a < 2^15-kMaxPacketAge
  recovered : a.isRecovered = true → HasRoom t.requester.recoveredList (low16 a.number)
  room : a.isRecovered = false → t.kept a = [] ∨ t.Room a
  sight : a.isRecovered = false → t.Room a → ∀ x, t.newest < x → x < t.number a →
    InSight t.requester.recoveredList (low16 x)

/-- Another packet leaves the set as it is, so its numbers are to be those of the keyframes that
are recent for that packet. -/
def SoundLate (t : Tracking) (a : Arrival) : Prop :=
  ∀ x, (∃ k ∈ t.held, low16 k = x) ↔
    ∃ k ∈ t.keyframesWith a, t.number a - k ≤ kMaxPacketAge ∧ low16 k = x

def Sound (t : Tracking) : Event → Prop
  | .packet a => t.requester.initialized = true →
      if t.newest < t.number a then t.SoundAhead a else t.SoundLate a
  | _ => True

end Tracking

/-! ### Calls -/

section Calls
variable {r : NackRequester} {d : Descent (BitVec 16)} {m : BitVec 16} {createdAt : BitVec 16 → ℤ}

/-- The first packet. -/
theorem onReceivedPacket_sets_first (createdAt : BitVec 16 → ℤ)
    (isKeyframe isRecovered : Bool) (nowMs : ℤ) (h : r.initialized = false) :
    (r.onReceivedPacket d m isKeyframe isRecovered createdAt nowMs).2.2.keyframeList =
        (if isKeyframe then insert d isSeqNumLessThan r.keyframeList m else r.keyframeList) ∧
      (r.onReceivedPacket d m isKeyframe isRecovered createdAt nowMs).2.2.recoveredList =
        r.recoveredList := by
  rw [NackRequester.onReceivedPacket,h]
  exact ⟨rfl,rfl⟩

/-- A packet that is not ahead. -/
theorem onReceivedPacket_sets_late (createdAt : BitVec 16 → ℤ)
    (isKeyframe isRecovered : Bool) (nowMs : ℤ) (h : r.initialized = true)
    (hm : serialOffset m r.newestSeqNum ≤ 0) :
    (r.onReceivedPacket d m isKeyframe isRecovered createdAt nowMs).2.2.keyframeList =
        r.keyframeList ∧
      (r.onReceivedPacket d m isKeyframe isRecovered createdAt nowMs).2.2.recoveredList =
        r.recoveredList ∧
      r.searches d m isKeyframe isRecovered createdAt = [] := by
  have hinit : ¬¬r.initialized = true := not_not_intro h
  rw [NackRequester.onReceivedPacket,NackRequester.searches,if_neg hinit,if_neg hinit]
  by_cases heq : m = r.newestSeqNum
  · rw [if_pos heq,if_pos heq]
    exact ⟨rfl,rfl,rfl⟩
  · have hgt : seqNumGT r.newestSeqNum m = true := by
      by_contra hnot
      have hahead := ahead_iff.mpr ⟨heq,hnot⟩
      omega
    rw [if_neg heq,if_neg heq,if_pos hgt,if_pos hgt]
    split
    · exact ⟨rfl,rfl,rfl⟩
    · exact ⟨rfl,rfl,rfl⟩

/-- A packet ahead of the newest number. -/
theorem onReceivedPacket_sets_ahead (createdAt : BitVec 16 → ℤ)
    (isKeyframe isRecovered : Bool) (nowMs : ℤ) (h : r.initialized = true)
    (hm : 0 < serialOffset m r.newestSeqNum) :
    (r.onReceivedPacket d m isKeyframe isRecovered createdAt nowMs).2.2.keyframeList =
        (if isRecovered then (r.trackKeyframe d m isKeyframe).keyframeList
        else ((r.trackKeyframe d m isKeyframe).addPacketsToNack d (r.newestSeqNum+1) m
          createdAt).2.keyframeList) ∧
      (r.onReceivedPacket d m isKeyframe isRecovered createdAt nowMs).2.2.recoveredList =
        (if isRecovered then eraseOld d (insert d isSeqNumLessThan r.recoveredList m) m
        else r.recoveredList) ∧
      r.searches d m isKeyframe isRecovered createdAt =
        (if isKeyframe then [⟨r.keyframeList,m⟩,⟨insert d isSeqNumLessThan r.keyframeList m,
            m - BitVec.ofNat 16 kMaxPacketAge⟩]
          else [⟨r.keyframeList,m - BitVec.ofNat 16 kMaxPacketAge⟩]) ++
        if isRecovered then [⟨r.recoveredList,m⟩,
          ⟨insert d isSeqNumLessThan r.recoveredList m,m - BitVec.ofNat 16 kMaxPacketAge⟩]
        else if (r.trackKeyframe d m isKeyframe).addsGap d m createdAt then
          (numbers r.newestSeqNum 1 (m - (r.newestSeqNum+1)).toNat).map (⟨r.recoveredList,·⟩)
        else [] := by
  obtain ⟨hne,hgt⟩ := ahead_iff.mp hm
  have hinit : ¬¬r.initialized = true := not_not_intro h
  rw [NackRequester.onReceivedPacket,NackRequester.searches,if_neg hinit,if_neg hinit,if_neg hne,
    if_neg hne,if_neg hgt,if_neg hgt]
  have hsets := addPacketsToNack_sets (r.trackKeyframe d m isKeyframe) d (r.newestSeqNum+1) m
    createdAt
  cases isRecovered with
  | true => exact ⟨rfl,rfl,rfl⟩
  | false => exact ⟨rfl,hsets.2,rfl⟩

end Calls

/-! ### The state -/

namespace Tracking
variable {t : Tracking} {a : Arrival}

/-- The sets store unwrapped numbers, those of the keyframes that are held. -/
structure Consistent (t : Tracking) : Prop where
  keyframes : Stores t.requester.keyframeList t.held
  recovered : ∃ rs, Stores t.requester.recoveredList rs
  near : ∀ k ∈ t.held, k - t.newest ≤ 2^15 ∧ t.newest - k ≤ kMaxPacketAge
  received : t.held ⊆ t.keyframes
  keyframes_le : ∀ k ∈ t.keyframes, k - t.newest ≤ 2^15
  newest_eq : t.requester.initialized = true → low16 t.newest = t.requester.newestSeqNum
  listed : t.requester.Listed
  fresh : t.requester.initialized = false →
    t.requester.nackList = [] ∧ t.keyframes = [] ∧ t.requester.recoveredList = []
  recent : t.HoldsRecent

theorem consistent_start : Consistent {} where
  keyframes := stores_nil
  recovered := ⟨[],stores_nil⟩
  near k hk := absurd hk List.not_mem_nil
  received k hk := absurd hk List.not_mem_nil
  keyframes_le k hk := absurd hk List.not_mem_nil
  newest_eq hinit := by simp at hinit
  listed := within_nil _ _ _
  fresh _ := ⟨rfl,rfl,rfl⟩
  recent x := by simp

theorem Consistent.held_fresh (hc : Consistent t) (hinit : t.requester.initialized = false) :
    t.held = [] :=
  List.subset_nil.mp ((hc.fresh hinit).2.1 ▸ hc.received)

theorem low16_number (hc : Consistent t) (a : Arrival) : low16 (t.number a) = low16 a.number := by
  rw [number]
  split
  case isTrue hinit => exact low16_add_serialOffset (hc.newest_eq hinit) _
  case isFalse => exact low16_ofNat _

theorem number_sub (hinit : t.requester.initialized = true) (a : Arrival) :
    t.number a = t.newest + serialOffset (low16 a.number) t.requester.newestSeqNum := by
  rw [number,if_pos hinit]

theorem notices_iff (hinit : t.requester.initialized = true) :
    t.Notices a ↔ 0 < serialOffset (low16 a.number) t.requester.newestSeqNum := by
  rw [Notices,number_sub hinit]
  constructor
  · intro hnotices
    have hless := hnotices hinit
    omega
  · intro hahead _
    omega

theorem mem_kept {k : ℤ} : k ∈ t.kept a ↔
    (a.isKeyframe = true ∧ k = t.number a ∨ k ∈ t.held) ∧ t.number a - k ≤ kMaxPacketAge := by
  rw [kept,mem_recent]
  cases a.isKeyframe with
  | true => simp only [if_true,mem_track,true_and]
  | false => simp only [Bool.false_eq_true,if_false,false_and,false_or]

theorem mem_keyframesWith {k : ℤ} :
    k ∈ t.keyframesWith a ↔ a.isKeyframe = true ∧ k = t.number a ∨ k ∈ t.keyframes := by
  rw [keyframesWith]
  cases a.isKeyframe with
  | true => simp only [if_true,List.mem_cons,true_and]
  | false => simp only [Bool.false_eq_true,if_false,false_and,false_or]

/-- What is held was received and is recent. -/
theorem Consistent.kept_received (hc : Consistent t) {k : ℤ} (hk : k ∈ t.kept a) :
    k ∈ t.keyframesWith a ∧ t.number a - k ≤ kMaxPacketAge := by
  obtain ⟨hk,hage⟩ := mem_kept.mp hk
  rw [mem_keyframesWith]
  cases hk with
  | inl hself => exact ⟨.inl hself,hage⟩
  | inr hheld => exact ⟨.inr (hc.received hheld),hage⟩

/-! ### The first packet, and one that is not ahead -/

theorem Consistent.first (hc : Consistent t) (hinit : t.requester.initialized = false) :
    Stores (t.step (.packet a)).requester.keyframeList (t.step (.packet a)).held ∧
      t.Right (.packet a) := by
  have hset := (onReceivedPacket_sets_first a.createdAt a.isKeyframe a.isRecovered a.nowMs
    (d := a.descent) (m := low16 a.number) hinit).1
  have hnotices : t.Notices a := fun h => absurd (hinit.symm.trans h) Bool.false_ne_true
  have hinserted := hc.keyframes.insert (n := t.number a) (d := a.descent) fun k hk => by
    rw [hc.held_fresh hinit] at hk
    exact absurd hk List.not_mem_nil
  have hempty := hc.keyframes
  rw [low16_number hc,hc.held_fresh hinit] at hinserted
  rw [hc.held_fresh hinit] at hempty
  simp only [Right,HoldsRecent,step,receive,SearchesOrdered,NackRequester.searches,hset,
    if_pos hnotices,kept,keyframesWith,hc.held_fresh hinit,(hc.fresh hinit).2.1,hinit,
    Bool.false_eq_true,not_false_eq_true,if_true]
  cases hkey : a.isKeyframe with
  | true =>
      simp only [if_true,recent_first]
      refine ⟨hinserted.2,fun s hs => ?_,fun x => ?_⟩
      · rw [List.mem_singleton] at hs
        exact hs ▸ hinserted.1
      · rw [hinserted.2.eq,List.mem_map]
        simp only [mem_track,List.not_mem_nil,or_false,List.mem_singleton,exists_eq_left,
          Int.sub_self]
        exact iff_and_self.mpr fun _ => by decide
  | false =>
      simp only [Bool.false_eq_true,if_false]
      refine ⟨hempty,fun s hs => absurd hs List.not_mem_nil,fun x => ?_⟩
      rw [hempty.eq]
      simp

/-- A packet that is not ahead is searched for in no set, and leaves them. -/
theorem Consistent.late (hc : Consistent t) (hinit : t.requester.initialized = true)
    (hnot : ¬t.Notices a) :
    (t.step (.packet a)).requester.keyframeList = t.requester.keyframeList ∧
      (t.step (.packet a)).requester.recoveredList = t.requester.recoveredList ∧
      (t.Right (.packet a) ↔ t.SoundLate a) := by
  have hbehind : serialOffset (low16 a.number) t.requester.newestSeqNum ≤ 0 :=
    not_lt.mp (mt (notices_iff hinit).mpr hnot)
  obtain ⟨hkeyframes,hrecovered,hsearches⟩ := onReceivedPacket_sets_late a.createdAt
    a.isKeyframe a.isRecovered a.nowMs (d := a.descent) hinit hbehind
  refine ⟨hkeyframes,hrecovered,?_⟩
  simp only [Right,HoldsRecent,SoundLate,SearchesOrdered,step,receive,hsearches,hkeyframes,
    hc.keyframes.eq,List.mem_map]
  exact and_iff_right fun s hs => absurd hs List.not_mem_nil

/-! ### A packet ahead of the newest number -/

/-- The set of keyframes behind a packet in reach, before any is given up. -/
theorem Consistent.trackKeyframe (hc : Consistent t)
    (hnear : ∀ k ∈ t.held,
      t.number a - k < 2^15+(if a.isKeyframe then 0 else kMaxPacketAge) ∧
        k - t.number a < 2^15-kMaxPacketAge) :
    Stores (t.requester.trackKeyframe a.descent (low16 a.number) a.isKeyframe).keyframeList
        (t.kept a) ∧
      ∀ s ∈ (if a.isKeyframe then [⟨t.requester.keyframeList,low16 a.number⟩,
          ⟨insert a.descent isSeqNumLessThan t.requester.keyframeList (low16 a.number),
            low16 a.number - BitVec.ofNat 16 kMaxPacketAge⟩]
        else [⟨t.requester.keyframeList,low16 a.number - BitVec.ofNat 16 kMaxPacketAge⟩] :
          List Search), s.Ordered := by
  rw [NackRequester.trackKeyframe,kept,← low16_number hc]
  cases hkey : a.isKeyframe with
  | true =>
      simp only [hkey,if_true] at hnear ⊢
      have htracked := hc.keyframes.insert_erase (n := t.number a) (d := a.descent) fun k hk => by
        have hk := hnear k hk
        omega
      refine ⟨htracked.2.2,fun s hs => ?_⟩
      simp only [List.mem_cons,List.not_mem_nil,or_false] at hs
      cases hs with
      | inl hs => exact hs ▸ htracked.1
      | inr hs => exact hs ▸ htracked.2.1
  | false =>
      simp only [hkey,Bool.false_eq_true,if_false] at hnear ⊢
      have herased := hc.keyframes.erase (d := a.descent) hnear
      refine ⟨herased.2,fun s hs => ?_⟩
      rw [List.mem_singleton] at hs
      exact hs ▸ herased.1

/-- How far a keyframe that is kept lies from the packet is seen from its 16 bits. -/
theorem Consistent.kept_offset (hc : Consistent t) {k : ℤ}
    (hnear : ∀ k ∈ t.held, k - t.number a < 2^15-kMaxPacketAge) (hk : k ∈ t.kept a) :
    k - t.number a < 2^15-kMaxPacketAge ∧
      serialOffset (low16 k) (low16 a.number) = k - t.number a := by
  obtain ⟨hheld,hage⟩ := mem_kept.mp hk
  have hbound : k - t.number a < 2^15-kMaxPacketAge := by
    cases hheld with
    | inl hself =>
        rw [hself.2,Int.sub_self]
        decide
    | inr hold => exact hnear k hold
  refine ⟨hbound,?_⟩
  rw [← low16_number hc]
  simp only [kMaxPacketAge] at hage hbound
  exact serialOffset_low16 _ _ (by omega) (by omega)

/-- What a packet that is not recovered leaves of a set of keyframes, and whether its gap is
added. -/
theorem Consistent.keyframes_stay (hc : Consistent t) (hinit : t.requester.initialized = true)
    (hnotices : t.Notices a) {r : NackRequester} (hr : r = t.requester.trackKeyframe a.descent
      (low16 a.number) a.isKeyframe) (hkept : Stores r.keyframeList (t.kept a))
    (hnear : ∀ k ∈ t.held, k - t.number a < 2^15-kMaxPacketAge) :
    ((r.addPacketsToNack a.descent (r.newestSeqNum+1) (low16 a.number)
        a.createdAt).2.keyframeList = r.keyframeList ↔ t.kept a = [] ∨ t.Room a) ∧
      (t.kept a = [] ∨ t.Room a →
        (r.addsGap a.descent (low16 a.number) a.createdAt = true ↔ t.Room a)) := by
  have hahead := (notices_iff hinit).mp hnotices
  have hnewest : r.newestSeqNum = t.requester.newestSeqNum := by rw [hr]; rfl
  have hlisted : r.Listed := by
    have hlisted := hc.listed
    rw [hr]
    exact hlisted
  have hroom : ∀ offset, r.Room (low16 a.number) offset ↔
      t.requester.Room (low16 a.number) offset := by
    rw [hr]
    exact fun offset => Iff.rfl
  rw [← hnewest] at hahead
  rw [NackRequester.addsGap,Bool.not_eq_true']
  cases hheld : t.kept a with
  | nil =>
      have hnone : r.keyframeList = [] := by rw [hkept.eq,hheld]; rfl
      have hadded := addPacketsToNack_none (d := a.descent) a.createdAt hlisted
        hahead hnone
      rw [hnone]
      refine ⟨iff_of_true hadded.1 (.inl rfl),fun _ => ?_⟩
      rw [hadded.2,hroom,Room,hheld]
      have hoffset : (([] : List ℤ).head?.getD (t.number a - kMaxPacketAge) - t.number a) =
          -(kMaxPacketAge : ℤ) := by
        simp only [List.head?_nil,Option.getD_none]
        omega
      rw [hoffset]
  | cons k rest =>
      have hmem : k ∈ t.kept a := by rw [hheld]; exact List.mem_cons_self
      obtain ⟨hbound,hoffset⟩ := hc.kept_offset hnear hmem
      have hage := (mem_kept.mp hmem).2
      have hfirst : r.keyframeList = low16 k::rest.map low16 := by rw [hkept.eq,hheld]; rfl
      have hadded := addPacketsToNack_keyframe (d := a.descent) a.createdAt hlisted
        hahead hfirst (by rw [hoffset]; omega) (by rw [hoffset]; exact hbound)
      have hsame : r.Room (low16 a.number) (serialOffset (low16 k) (low16 a.number)) ↔
          t.Room a := by
        rw [hroom,Room,hheld,hoffset]
        rfl
      simp only [hsame] at hadded
      split at hadded
      case isTrue hyes =>
        exact ⟨iff_of_true hadded.1 (.inr hyes),fun _ => iff_of_true hadded.2 hyes⟩
      case isFalse hno =>
        have hneither : ¬((k::rest) = [] ∨ t.Room a) := by
          simp only [hno,or_false,reduceCtorEq,not_false_eq_true]
        exact ⟨iff_of_false hadded hneither,fun h => absurd h hneither⟩

/-- The numbers of a gap are searched in order exactly if they are in sight. -/
theorem Consistent.gap_ordered_iff (hc : Consistent t) (hinit : t.requester.initialized = true)
    (hahead : 0 < serialOffset (low16 a.number) t.requester.newestSeqNum) :
    (∀ s ∈ (numbers t.requester.newestSeqNum 1
      (low16 a.number - (t.requester.newestSeqNum+1)).toNat).map
        fun u => (⟨t.requester.recoveredList,u⟩ : Search), s.Ordered) ↔
      ∀ x, t.newest < x → x < t.number a → InSight t.requester.recoveredList (low16 x) := by
  have hcount := numNewNacks_eq hahead
  have hoffset := serialOffset_spec (low16 a.number) t.requester.newestSeqNum
  have hn := number_sub hinit a
  obtain ⟨rs,hstores⟩ := hc.recovered
  constructor
  · intro hordered x hlow hhigh
    have hposition : serialOffset (low16 x) t.requester.newestSeqNum = x - t.newest := by
      rw [← hc.newest_eq hinit]
      exact serialOffset_low16 _ _ (by omega) (by omega)
    have hgap : low16 x ∈ numbers t.requester.newestSeqNum 1
        (low16 a.number - (t.requester.newestSeqNum+1)).toNat := by
      rw [mem_numbers_iff (by omega)]
      omega
    exact hstores.inWindow_iff.mp (hordered _ (List.mem_map_of_mem hgap)).window
  · intro hsight s hs
    obtain ⟨u,hu,rfl⟩ := List.mem_map.mp hs
    rw [mem_numbers_iff (by omega)] at hu
    have hsight' := hsight (t.newest + serialOffset u t.requester.newestSeqNum) (by omega)
      (by omega)
    have hwindow := hstores.inWindow_iff.mpr hsight'
    rw [low16_add_serialOffset (hc.newest_eq hinit)] at hwindow
    exact hwindow.ordered

/-- A set that stores what is kept holds the recent keyframes if none of them was missed. -/
theorem Consistent.recent_kept (hc : Consistent t)
    (hstored : (t.step (.packet a)).requester.keyframeList = (t.kept a).map low16)
    (hremembered : ∀ k ∈ t.keyframesWith a, t.number a - k ≤ kMaxPacketAge → k ∈ t.kept a) :
    (t.step (.packet a)).HoldsRecent := by
  intro x
  rw [hstored,List.mem_map]
  constructor
  · intro hx
    obtain ⟨k,hk,hlow⟩ := hx
    have hreceived := hc.kept_received hk
    exact ⟨k,hreceived.1,hreceived.2,hlow⟩
  · intro hx
    obtain ⟨k,hk,hage,hlow⟩ := hx
    exact ⟨k,hremembered k hk hage,hlow⟩

/-- What a sound packet ahead leaves. -/
theorem Consistent.ahead (hc : Consistent t) (hinit : t.requester.initialized = true)
    (hnotices : t.Notices a) (hs : t.SoundAhead a) :
    Stores (t.step (.packet a)).requester.keyframeList (t.kept a) ∧
      (∃ rs, Stores (t.step (.packet a)).requester.recoveredList rs) ∧ t.Right (.packet a) := by
  have hahead := (notices_iff hinit).mp hnotices
  obtain ⟨hkept,hkeySearches⟩ := hc.trackKeyframe hs.near
  obtain ⟨rs,hstores⟩ := hc.recovered
  obtain ⟨hkeyframes,hset,hsearches⟩ := onReceivedPacket_sets_ahead a.createdAt
    a.isKeyframe a.isRecovered a.nowMs (d := a.descent) hinit hahead
  have hstays := hc.keyframes_stay hinit hnotices rfl hkept fun k hk => (hs.near k hk).2
  have hsame : (t.step (.packet a)).requester.keyframeList =
      (t.requester.trackKeyframe a.descent (low16 a.number) a.isKeyframe).keyframeList := by
    simp only [step,receive,hkeyframes]
    split
    case isTrue => rfl
    case isFalse hcase =>
      rw [Bool.not_eq_true] at hcase
      exact hstays.1.mpr (hs.room hcase)
  rw [hsame]
  refine ⟨hkept,?_,?_,hc.recent_kept (hsame.trans hkept.eq) hs.remembered⟩
  · simp only [step,receive,hset]
    split
    case isTrue hcase =>
      have hrenewed := hstores.renew (n := t.number a) a.descent
      rw [low16_number hc] at hrenewed
      exact hrenewed (hs.recovered hcase)
    case isFalse => exact ⟨rs,hstores⟩
  · simp only [SearchesOrdered,hsearches,List.mem_append]
    intro s hmem
    cases hmem with
    | inl hmem => exact hkeySearches s hmem
    | inr hmem =>
        split at hmem
        case isTrue hcase =>
          have hadded := (hstores.ordered_iff_hasRoom (n := t.number a) a.descent).mpr
          rw [low16_number hc] at hadded
          have hadded := hadded (hs.recovered hcase)
          simp only [List.mem_cons,List.not_mem_nil,or_false] at hmem
          cases hmem with
          | inl hmem => exact hmem ▸ hadded.1
          | inr hmem => exact hmem ▸ hadded.2
        case isFalse hcase =>
          rw [Bool.not_eq_true] at hcase
          split at hmem
          case isTrue hadds =>
            have hroom := (hstays.2 (hs.room hcase)).mp hadds
            exact (hc.gap_ordered_iff hinit hahead).mpr (hs.sight hcase hroom) s hmem
          case isFalse => exact absurd hmem List.not_mem_nil

/-! ### No weaker condition -/

/-- The searches of a keyframe have it, what is stored and what is too old in one window. -/
theorem Consistent.keyframe_near (hc : Consistent t) (hinit : t.requester.initialized = true)
    (hnotices : t.Notices a) (hkey : a.isKeyframe = true)
    (hordered : t.SearchesOrdered (.packet a)) {k : ℤ} (hk : k ∈ t.held) :
    t.number a - k < 2^15 ∧ k - t.number a < 2^15-kMaxPacketAge := by
  have hahead := (notices_iff hinit).mp hnotices
  have hnear := hc.near k hk
  have hn := number_sub hinit a
  have hoffset := serialOffset_spec (low16 a.number) t.requester.newestSeqNum
  have hsearches := (onReceivedPacket_sets_ahead a.createdAt a.isKeyframe a.isRecovered a.nowMs
    (d := a.descent) hinit hahead).2.2
  have hstored : low16 k ∈ t.requester.keyframeList := hc.keyframes.eq ▸ List.mem_map_of_mem hk
  simp only [SearchesOrdered,hsearches] at hordered
  rw [hkey,if_pos rfl,← low16_number hc] at hordered
  have hwindow := (hordered _ (List.mem_append_left _
    (List.mem_cons_of_mem _ List.mem_cons_self))).window
  rw [low16_sub_age] at hwindow
  apply hwindow.reach List.mem_cons_self
  · exact List.mem_cons_of_mem _ (mem_insert_self a.descent _ _)
  · exact List.mem_cons_of_mem _ (mem_insert_of_mem a.descent hstored)
  · omega
  · omega

/-- The search for what is too old has what is stored in its window. -/
theorem Consistent.keyframes_inWindow (hc : Consistent t)
    (hinit : t.requester.initialized = true) (hnotices : t.Notices a)
    (hkey : a.isKeyframe = false) (hordered : t.SearchesOrdered (.packet a)) :
    InWindow ((low16 (t.number a) - BitVec.ofNat 16 kMaxPacketAge)::t.held.map low16) := by
  have hahead := (notices_iff hinit).mp hnotices
  have hsearches := (onReceivedPacket_sets_ahead a.createdAt a.isKeyframe a.isRecovered a.nowMs
    (d := a.descent) hinit hahead).2.2
  simp only [SearchesOrdered,hsearches] at hordered
  rw [hkey,if_neg Bool.false_ne_true] at hordered
  have hwindow := (hordered _ (List.mem_append_left _ List.mem_cons_self)).window
  rw [← low16_number hc,hc.keyframes.eq] at hwindow
  exact hwindow

/-- What a packet ahead leaves of the keyframes is the end of the set behind it. -/
theorem onReceivedPacket_keyframeList_suffix {r : NackRequester} {d : Descent (BitVec 16)}
    {m : BitVec 16} (createdAt : BitVec 16 → ℤ) (isKeyframe isRecovered : Bool) (nowMs : ℤ)
    (h : r.initialized = true) (hm : 0 < serialOffset m r.newestSeqNum) :
    (r.onReceivedPacket d m isKeyframe isRecovered createdAt nowMs).2.2.keyframeList <:+
      (r.trackKeyframe d m isKeyframe).keyframeList := by
  rw [(onReceivedPacket_sets_ahead createdAt isKeyframe isRecovered nowMs h hm).1]
  split
  · exact List.suffix_rfl
  · exact (addPacketsToNack_sets _ d _ m createdAt).1

/-- A keyframe that is held too far ahead of another packet would be erased with all others. -/
theorem Consistent.keyframes_ahead (hc : Consistent t) (hinit : t.requester.initialized = true)
    (hnotices : t.Notices a) (hkey : a.isKeyframe = false)
    (hordered : t.SearchesOrdered (.packet a)) (hrecent : (t.step (.packet a)).HoldsRecent) {k : ℤ}
    (hk : k ∈ t.held) : k - t.number a < 2^15-kMaxPacketAge := by
  have hahead := (notices_iff hinit).mp hnotices
  have hn := number_sub hinit a
  have hsuffix := onReceivedPacket_keyframeList_suffix a.createdAt a.isKeyframe a.isRecovered
    a.nowMs (d := a.descent) hinit hahead
  by_contra hfar
  have hbound : ∀ x ∈ t.held, x - t.number a < 2^15 := by
    intro x hx
    have hx := hc.near x hx
    omega
  have herased := eraseOld_of_far (d := a.descent) hc.keyframes.close
    (hc.keyframes_inWindow hinit hnotices hkey hordered) hbound hk (by omega)
  have hnone : (t.requester.trackKeyframe a.descent (low16 a.number)
      a.isKeyframe).keyframeList = [] := by
    rw [NackRequester.trackKeyframe,hkey,← low16_number hc,hc.keyframes.eq]
    exact herased
  rw [hnone,List.suffix_nil] at hsuffix
  have hstored : low16 k ∈ (t.step (.packet a)).requester.keyframeList := by
    refine (hrecent (low16 k)).mpr ⟨k,mem_keyframesWith.mpr (.inr (hc.received hk)),?_,rfl⟩
    simp only [step,kMaxPacketAge] at hfar ⊢
    omega
  rw [step,receive,hsuffix] at hstored
  exact absurd hstored List.not_mem_nil

/-- The keyframes that are held are in reach of every packet that searches in order and leaves
the recent ones. -/
theorem Consistent.keyframes_near (hc : Consistent t) (hinit : t.requester.initialized = true)
    (hnotices : t.Notices a) (hright : t.Right (.packet a)) :
    ∀ k ∈ t.held, t.number a - k < 2^15+(if a.isKeyframe then 0 else kMaxPacketAge) ∧
      k - t.number a < 2^15-kMaxPacketAge := by
  intro k hk
  cases hkey : a.isKeyframe with
  | true =>
      rw [if_pos rfl]
      exact hc.keyframe_near hinit hnotices hkey hright.1 hk
  | false =>
      have hnear := hc.near k hk
      have hn := number_sub hinit a
      have hoffset := serialOffset_spec (low16 a.number) t.requester.newestSeqNum
      have hwindow := hc.keyframes_inWindow hinit hnotices hkey hright.1
      rw [low16_sub_age] at hwindow
      rw [if_neg Bool.false_ne_true]
      constructor
      · apply hwindow.behind List.mem_cons_self (List.mem_cons_of_mem _ (List.mem_map_of_mem hk))
        omega
      · exact hc.keyframes_ahead hinit hnotices hkey hright.1 hright.2 hk

/-- A recent keyframe whose number is stored is one of those kept: no other with its number is
that close. -/
theorem Consistent.kept_of_stored (hc : Consistent t) (hinit : t.requester.initialized = true)
    (hnotices : t.Notices a) {k : ℤ} (hk : k ∈ t.keyframesWith a)
    (hage : t.number a - k ≤ kMaxPacketAge) (hstored : low16 k ∈ (t.kept a).map low16) :
    k ∈ t.kept a := by
  have hless := hnotices hinit
  have hbound : ∀ x ∈ t.keyframesWith a, x - t.number a ≤ 2^15 := by
    intro x hx
    cases mem_keyframesWith.mp hx with
    | inl hself => omega
    | inr hmem =>
        have hle := hc.keyframes_le x hmem
        omega
  obtain ⟨x,hx,hlow⟩ := List.mem_map.mp hstored
  have hreceived := hc.kept_received hx
  have hxbound := hbound x hreceived.1
  have hkbound := hbound k hk
  have hwrap := (low16_eq_iff x k).mp hlow
  simp only [kMaxPacketAge] at hage hreceived
  have hsame : x = k := by omega
  exact hsame ▸ hx

/-- What a right packet ahead tells of the state before it. -/
theorem Consistent.soundAhead (hc : Consistent t) (hinit : t.requester.initialized = true)
    (hnotices : t.Notices a) (hright : t.Right (.packet a)) : t.SoundAhead a := by
  have hahead := (notices_iff hinit).mp hnotices
  have hnear := hc.keyframes_near hinit hnotices hright
  have hkept := (hc.trackKeyframe hnear).1
  obtain ⟨rs,hstores⟩ := hc.recovered
  obtain ⟨hkeyframes,_,hsearches⟩ := onReceivedPacket_sets_ahead a.createdAt
    a.isKeyframe a.isRecovered a.nowMs (d := a.descent) hinit hahead
  have hsuffix := onReceivedPacket_keyframeList_suffix a.createdAt a.isKeyframe a.isRecovered
    a.nowMs (d := a.descent) hinit hahead
  have hordered := hright.1
  simp only [SearchesOrdered,hsearches,List.mem_append] at hordered
  have hstays := hc.keyframes_stay hinit hnotices rfl hkept fun k hk => (hnear k hk).2
  -- all that is kept is stored, so nothing was given up
  have hall : (t.step (.packet a)).requester.keyframeList =
      (t.requester.trackKeyframe a.descent (low16 a.number) a.isKeyframe).keyframeList := by
    apply hkept.eq_of_suffix hsuffix
    intro x hx
    rw [hkept.eq,List.mem_map] at hx
    obtain ⟨k,hk,hlow⟩ := hx
    have hreceived := hc.kept_received hk
    exact (hright.2 x).mpr ⟨k,hreceived.1,hreceived.2,hlow⟩
  have hroom : a.isRecovered = false → t.kept a = [] ∨ t.Room a := by
    intro hcase
    rw [if_neg (Bool.eq_false_iff.mp hcase)] at hkeyframes
    exact hstays.1.mp (hkeyframes.symm.trans hall)
  refine ⟨fun k hk hage => ?_,hnear,fun hcase => ?_,hroom,fun hcase hfits => ?_⟩
  · apply hc.kept_of_stored hinit hnotices hk hage
    rw [← hkept.eq,← hall]
    exact (hright.2 (low16 k)).mpr ⟨k,hk,hage,rfl⟩
  · rw [hcase,if_pos rfl,← low16_number hc] at hordered
    rw [← low16_number hc]
    refine (hstores.ordered_iff_hasRoom a.descent).mp ⟨?_,?_⟩
    · exact hordered _ (.inr List.mem_cons_self)
    · exact hordered _ (.inr (List.mem_cons_of_mem _ List.mem_cons_self))
  · rw [hcase,if_neg Bool.false_ne_true,if_pos ((hstays.2 (hroom hcase)).mpr hfits)] at hordered
    exact (hc.gap_ordered_iff hinit hahead).mp fun s hs => hordered s (.inr hs)

theorem Consistent.right_iff (hc : Consistent t) (e : Event) : t.Right e ↔ t.Sound e := by
  cases e with
  | packet a =>
      cases hinit : t.requester.initialized with
      | false =>
          refine iff_of_true (hc.first hinit).2 fun h => ?_
          exact absurd (hinit.symm.trans h) Bool.false_ne_true
      | true =>
          simp only [Sound,hinit,forall_const]
          split
          case isTrue hless =>
            have hnotices : t.Notices a := fun _ => hless
            exact ⟨hc.soundAhead hinit hnotices,fun hs => (hc.ahead hinit hnotices hs).2.2⟩
          case isFalse hnot => exact (hc.late hinit fun h => hnot (h hinit)).2.2
  | timer nowMs => exact iff_of_true ⟨trivial,hc.recent⟩ trivial
  | updateRtt rttMs => exact iff_of_true ⟨trivial,hc.recent⟩ trivial

/-! ### What a right call keeps -/

/-- What a right packet stores. -/
theorem Consistent.stores_step (hc : Consistent t) (hright : t.Right (.packet a)) :
    Stores (t.step (.packet a)).requester.keyframeList (t.step (.packet a)).held ∧
      ∃ rs, Stores (t.step (.packet a)).requester.recoveredList rs := by
  cases hinit : t.requester.initialized with
  | false =>
      have hset := (onReceivedPacket_sets_first a.createdAt a.isKeyframe a.isRecovered a.nowMs
        (d := a.descent) (m := low16 a.number) hinit).2
      refine ⟨(hc.first hinit).1,[],?_⟩
      simp only [step,receive,hset,(hc.fresh hinit).2.2]
      exact stores_nil
  | true =>
      by_cases hnotices : t.Notices a
      · have hahead := hc.ahead hinit hnotices (hc.soundAhead hinit hnotices hright)
        have hheld : (t.step (.packet a)).held = t.kept a := if_pos hnotices
        rw [hheld]
        exact ⟨hahead.1,hahead.2.1⟩
      · have hlate := hc.late hinit hnotices
        have hheld : (t.step (.packet a)).held = t.held := if_neg hnotices
        rw [hlate.1,hlate.2.1,hheld]
        exact ⟨hc.keyframes,hc.recovered⟩

/-- The newest number never falls behind a packet by more than half the range. -/
theorem newest_step (t : Tracking) (a : Arrival) :
    t.number a - (t.step (.packet a)).newest ≤ 2^15 ∧
      (t.requester.initialized = true → t.newest ≤ (t.step (.packet a)).newest) := by
  cases hinit : t.requester.initialized with
  | false =>
      have hnotices : t.Notices a := fun h => absurd (hinit.symm.trans h) Bool.false_ne_true
      simp only [step,hnotices,hinit,true_or,and_self,if_true]
      exact ⟨by omega,fun h => absurd h Bool.false_ne_true⟩
  | true =>
      have hn := number_sub hinit a
      have hoffset := serialOffset_spec (low16 a.number) t.requester.newestSeqNum
      simp only [step]
      split
      case isTrue h =>
        have hless := h.1 hinit
        exact ⟨by omega,fun _ => by omega⟩
      case isFalse => exact ⟨by omega,fun _ => le_rfl⟩

/-- The packet that moves the newest number erases what is too old for it. -/
theorem Consistent.near_step (hc : Consistent t) {k : ℤ} (hk : k ∈ (t.step (.packet a)).held) :
    k - (t.step (.packet a)).newest ≤ 2^15 ∧
      (t.step (.packet a)).newest - k ≤ kMaxPacketAge := by
  have hstep := newest_step t a
  by_cases hnotices : t.Notices a
  · have hheld : (t.step (.packet a)).held = t.kept a := if_pos hnotices
    rw [hheld] at hk
    obtain ⟨hk,hage⟩ := mem_kept.mp hk
    cases hinit : t.requester.initialized with
    | false =>
        have hnewest : (t.step (.packet a)).newest = t.number a := if_pos ⟨hnotices,.inl hinit⟩
        rw [hc.held_fresh hinit] at hk
        simp only [List.not_mem_nil,or_false] at hk
        omega
    | true =>
        have hless := hnotices hinit
        have hle := hstep.2 hinit
        have hnewest : (t.step (.packet a)).newest ≤ t.number a := by
          simp only [step]
          split <;> omega
        cases hk with
        | inl hself => omega
        | inr hold =>
            have hnear := hc.near k hold
            omega
  · have hheld : (t.step (.packet a)).held = t.held := if_neg hnotices
    have hnewest : (t.step (.packet a)).newest = t.newest := if_neg fun h => hnotices h.1
    rw [hheld] at hk
    rw [hnewest]
    exact hc.near k hk

/-- A packet is at most half the range ahead, so the keyframes are. -/
theorem Consistent.keyframes_le_step (hc : Consistent t) {k : ℤ}
    (hk : k ∈ (t.step (.packet a)).keyframes) : k - (t.step (.packet a)).newest ≤ 2^15 := by
  have hstep := newest_step t a
  cases mem_keyframesWith.mp hk with
  | inl hself => exact hself.2 ▸ hstep.1
  | inr hmem =>
      cases hinit : t.requester.initialized with
      | false =>
          rw [(hc.fresh hinit).2.1] at hmem
          exact absurd hmem List.not_mem_nil
      | true =>
          have hle := hc.keyframes_le k hmem
          have hnewest := hstep.2 hinit
          omega

theorem Consistent.received_step (hc : Consistent t) :
    (t.step (.packet a)).held ⊆ (t.step (.packet a)).keyframes := by
  intro k hk
  by_cases hnotices : t.Notices a
  · have hheld : (t.step (.packet a)).held = t.kept a := if_pos hnotices
    rw [hheld] at hk
    exact (hc.kept_received hk).1
  · have hheld : (t.step (.packet a)).held = t.held := if_neg hnotices
    rw [hheld] at hk
    exact mem_keyframesWith.mpr (.inr (hc.received hk))

theorem Consistent.newest_eq_step (hc : Consistent t) :
    low16 (t.step (.packet a)).newest = (t.step (.packet a)).requester.newestSeqNum := by
  have hwindow := (onReceivedPacket_window a.createdAt a.isKeyframe a.isRecovered a.nowMs
    (d := a.descent) (m := low16 a.number) hc.listed fun h => (hc.fresh h).1).2.1
  simp only [step,receive]
  rw [hwindow]
  cases hinit : t.requester.initialized with
  | false =>
      have hnotices : t.Notices a := fun h => absurd (hinit.symm.trans h) Bool.false_ne_true
      simp only [hnotices,true_or,and_self,if_true]
      exact low16_number hc a
  | true =>
      simp only [notices_iff hinit,Bool.true_eq_false,false_or]
      split
      case isTrue => exact low16_number hc a
      case isFalse => exact hc.newest_eq hinit

theorem Consistent.packet (hc : Consistent t) (hright : t.Right (.packet a)) :
    Consistent (t.step (.packet a)) := by
  obtain ⟨hkeyframes,hrecovered⟩ := hc.stores_step hright
  have hwindow := onReceivedPacket_window a.createdAt a.isKeyframe a.isRecovered a.nowMs
    (d := a.descent) (m := low16 a.number) hc.listed fun h => (hc.fresh h).1
  refine ⟨hkeyframes,hrecovered,fun k hk => hc.near_step hk,hc.received_step,
    fun k hk => hc.keyframes_le_step hk,fun _ => hc.newest_eq_step,hwindow.2.2,fun hnot => ?_,
    hright.2⟩
  exact absurd (hwindow.1.symm.trans hnot) Bool.false_ne_true.symm

/-- One right call. -/
theorem Consistent.step (hc : Consistent t) {e : Event} (hright : t.Right e) :
    Consistent (t.step e) := by
  cases e with
  | packet a => exact hc.packet hright
  | timer nowMs =>
      refine ⟨hc.keyframes,hc.recovered,hc.near,hc.received,hc.keyframes_le,hc.newest_eq,
        Within.sublist hc.listed (nackBatch_sublist _ _ _ _),fun hinit => ?_,hright.2⟩
      obtain ⟨hlist,hnone⟩ := hc.fresh hinit
      refine ⟨?_,hnone⟩
      simp only [Tracking.step,NackRequester.onTimerTimeout,NackRequester.getNackBatch]
      rw [hlist]
      rfl
  | updateRtt rttMs =>
      exact ⟨hc.keyframes,hc.recovered,hc.near,hc.received,hc.keyframes_le,hc.newest_eq,hc.listed,
        hc.fresh,hright.2⟩

end Tracking

/-! ### Every run -/

open Tracking

/-- A run searches in order and leaves the recent keyframes after each call exactly if each of
its packets is sound. -/
theorem run_sets_right_iff (es : List Event) :
    Along (fun before e => Right (run step {} before) e) es ↔
      Along (fun before e => Sound (run step {} before) e) es :=
  along_iff_of_invariant (I := Consistent) consistent_start (fun _ _ hc hright => hc.step hright)
    (fun _ e hc => hc.right_iff e) es

def keyframe (number : ℤ) : Event := .packet ⟨number,true,false,fun _ => 0,0,.leftmost⟩

theorem not_inWindow : ¬InWindow [32770,0,5] := by
  intro hwindow
  obtain ⟨start,hstart⟩ := hwindow
  have hfirst := hstart 0 (by decide)
  have hsecond := hstart 5 (by decide)
  have hthird := hstart 32770 (by decide)
  have hsub := sub_toNat 0 start
  have hsub' := sub_toNat 5 start
  have hsub'' := sub_toNat 32770 start
  have hnumbers : (0 : BitVec 16).toNat = 0 ∧ (5 : BitVec 16).toNat = 5 ∧
      (32770 : BitVec 16).toNat = 32770 := ⟨rfl,rfl,rfl⟩
  omega

/-- Keyframe 32770 comes less than half the range ahead and is inserted beside 0 and 5, which fit
into no window with it; and its gap has no room, so it is taken from the set at once. -/
theorem not_run_sets_right :
    ¬Along (fun before e => SearchesOrdered (run step {} before) e)
        [keyframe 0,keyframe 5,keyframe 32770] ∧
      ¬Along (fun before e => (step (run step {} before) e).HoldsRecent)
        [keyframe 0,keyframe 5,keyframe 32770] := by
  constructor
  · intro h
    have hordered := h [keyframe 0,keyframe 5] (keyframe 32770) [] rfl
    exact not_inWindow (hordered ⟨[0,5],32770⟩ (by decide +kernel)).window
  · intro h
    have hrecent := h [keyframe 0,keyframe 5] (keyframe 32770) [] rfl
    have hstored := (hrecent 32770).mpr ⟨32770,by decide +kernel,by decide +kernel,by decide⟩
    exact absurd hstored (by decide +kernel)

end Ylrtc.Nack
