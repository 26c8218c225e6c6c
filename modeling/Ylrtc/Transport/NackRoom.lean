import Ylrtc.Transport.NackWindow

/-!
# Room in the NACK list

`AddPacketsToNack` makes room for a gap by giving up the packets before the oldest keyframe, and
takes a keyframe that gives up none from the set. Whether the set keeps its keyframes is decided
by the oldest one: they stay exactly if the gap fits behind it.
-/
namespace Ylrtc.Nack
open SearchTree SequenceNumber

/-- The numbers that a packet skips fit into the list, behind what is left of it when the entries
before a number are given up; that one is given by its offset from the packet. -/
def NackRequester.Room (r : NackRequester) (m : BitVec 16) (offset : ℤ) : Prop :=
  ((nackKeys r.nackList).filter fun x =>
      serialOffset m r.newestSeqNum + offset ≤ serialOffset x r.newestSeqNum).length +
    (m - (r.newestSeqNum+1)).toNat ≤ kMaxNackPackets

instance (r : NackRequester) (m : BitVec 16) (offset : ℤ) : Decidable (r.Room m offset) :=
  inferInstanceAs (Decidable (_ ≤ _))

/-! ### The loops -/

section Room
variable {d : Descent (BitVec 16)} {count fuel : ℕ} {nackList : List NackInfo} {first : BitVec 16}
  {rest : List (BitVec 16)}

theorem removePacketsUntilKeyFrame_keyframes (d : Descent (BitVec 16)) (nackList : List NackInfo)
    (keyframes : List (BitVec 16)) :
    (removePacketsUntilKeyFrame d nackList keyframes).2.2 <:+ keyframes := by
  induction keyframes with
  | nil => exact List.suffix_rfl
  | cons first rest ih =>
      rw [removePacketsUntilKeyFrame]
      split
      · exact List.suffix_rfl
      · exact ih.trans (List.suffix_cons first rest)

theorem makeRoom_keyframes (d : Descent (BitVec 16)) (count n : ℕ) (nackList : List NackInfo)
    (keyframes : List (BitVec 16)) : (makeRoom d count n nackList keyframes).2 <:+ keyframes := by
  induction n generalizing nackList keyframes with
  | zero => exact List.suffix_rfl
  | succ n ih =>
      have hsuffix := removePacketsUntilKeyFrame_keyframes d nackList keyframes
      rw [makeRoom]
      cases hremove : removePacketsUntilKeyFrame d nackList keyframes with
      | mk removed rest =>
          rw [hremove] at hsuffix
          cases removed with
          | false => exact hsuffix
          | true =>
              simp only
              split
              · exact (ih rest.1 rest.2).trans hsuffix
              · exact hsuffix

/-- A keyframe that takes no packet from the list is taken itself. -/
theorem makeRoom_takes (h : nackLowerBound d nackList first = 0) (hfuel : fuel ≠ 0) :
    (makeRoom d count fuel nackList (first::rest)).2 ≠ first::rest := by
  intro hsame
  cases fuel with
  | zero => exact hfuel rfl
  | succ n =>
      have hsuffix : (makeRoom d count (n+1) nackList (first::rest)).2 <:+ rest := by
        have hremoved := removePacketsUntilKeyFrame_keyframes d nackList rest
        rw [makeRoom,removePacketsUntilKeyFrame,if_neg (not_not.mpr h)]
        cases hremove : removePacketsUntilKeyFrame d nackList rest with
        | mk removed left =>
            rw [hremove] at hremoved
            cases removed with
            | false => exact hremoved
            | true =>
                simp only
                split
                · exact (makeRoom_keyframes d count n left.1 left.2).trans hremoved
                · exact hremoved
      rw [hsame] at hsuffix
      have hlength := hsuffix.length_le
      rw [List.length_cons] at hlength
      omega

/-- A gap that is too large for an empty list takes all keyframes. -/
theorem makeRoom_far (hcount : kMaxNackPackets < count) (hfuel : nackList.length < fuel) :
    (makeRoom d count fuel nackList (first::rest)).2 ≠ first::rest := by
  induction fuel generalizing nackList with
  | zero => omega
  | succ n ih =>
      by_cases hnone : nackLowerBound d nackList first = 0
      · exact makeRoom_takes hnone (Nat.succ_ne_zero n)
      · have hle := d.place_le (nackKeys nackList) fun x => isSeqNumLessThan x first
        rw [length_nackKeys] at hle
        have hshorter : (nackList.drop (nackLowerBound d nackList first)).length < n := by
          rw [List.length_drop]
          simp only [nackLowerBound,lowerBound] at hnone ⊢
          omega
        rw [makeRoom,removePacketsUntilKeyFrame,if_pos hnone]
        simp only
        rw [if_pos (by omega)]
        exact ih hshorter

/-- The oldest keyframe takes what is older than it, and is taken if that is not enough. -/
theorem makeRoom_near (rest : List (BitVec 16))
    (hfull : kMaxNackPackets < nackList.length+count)
    (hfuel : nackList.length < fuel)
    (hbehind : nackLowerBound d (nackList.drop (nackLowerBound d nackList first)) first = 0) :
    if (nackList.drop (nackLowerBound d nackList first)).length+count ≤ kMaxNackPackets then
      makeRoom d count fuel nackList (first::rest) =
        (nackList.drop (nackLowerBound d nackList first),first::rest)
    else (makeRoom d count fuel nackList (first::rest)).2 ≠ first::rest := by
  cases fuel with
  | zero => omega
  | succ n =>
      by_cases hnone : nackLowerBound d nackList first = 0
      · rw [hnone,List.drop_zero,if_neg (not_le.mpr hfull)]
        exact makeRoom_takes hnone (Nat.succ_ne_zero n)
      · have hle := d.place_le (nackKeys nackList) fun x => isSeqNumLessThan x first
        rw [length_nackKeys] at hle
        rw [makeRoom,removePacketsUntilKeyFrame,if_pos hnone]
        simp only
        split
        · rename_i hroom
          rw [if_neg (not_lt.mpr hroom)]
        · rename_i hroom
          rw [if_pos (not_le.mp hroom)]
          apply makeRoom_takes hbehind
          simp only [nackLowerBound,lowerBound] at hnone
          omega

end Room

/-! ### A packet ahead -/

section Packets
variable {r : NackRequester} {d : Descent (BitVec 16)} {m first : BitVec 16}
  {rest : List (BitVec 16)} (createdAt : BitVec 16 → ℤ)

/-- What `AddPacketsToNack` does besides the list: it takes keyframes from the front. -/
theorem addPacketsToNack_sets (r : NackRequester) (d : Descent (BitVec 16))
    (seqNumStart seqNumEnd : BitVec 16) (createdAt : BitVec 16 → ℤ) :
    (r.addPacketsToNack d seqNumStart seqNumEnd createdAt).2.keyframeList <:+ r.keyframeList ∧
      (r.addPacketsToNack d seqNumStart seqNumEnd createdAt).2.recoveredList = r.recoveredList := by
  simp only [NackRequester.addPacketsToNack]
  generalize r.nackList.drop _ = nackList
  generalize (seqNumEnd - seqNumStart).toNat = count
  have hroom := makeRoom_keyframes d count (nackList.length+1) nackList r.keyframeList
  split
  · split
    · exact ⟨hroom,rfl⟩
    · exact ⟨hroom,rfl⟩
  · exact ⟨List.suffix_rfl,rfl⟩

/-- A gap that is added is no longer than the list may be. -/
theorem near_of_room {offset : ℤ} (hm : 0 < serialOffset m r.newestSeqNum) (h : r.Room m offset) :
    serialOffset m r.newestSeqNum ≤ 1001 := by
  have hcount := numNewNacks_eq hm
  simp only [NackRequester.Room,kMaxNackPackets] at h
  omega

/-- The numbers of a short list that are young enough are those that `Room` counts. -/
theorem room_age_iff (h : r.Listed) (hm : 0 < serialOffset m r.newestSeqNum)
    (hnear : serialOffset m r.newestSeqNum ≤ 1001) :
    r.Room m (-(kMaxPacketAge : ℤ)) ↔ (r.nackList.drop (nackLowerBound d r.nackList
      (m - BitVec.ofNat 16 kMaxPacketAge))).length + (m - (r.newestSeqNum+1)).toNat ≤
        kMaxNackPackets := by
  rw [NackRequester.Room,← length_nackKeys,nackKeys_drop_old h hm hnear]
  rfl

/-- A gap that does not fit makes room. -/
theorem addPacketsToNack_full (hfull : kMaxNackPackets < (r.nackList.drop (nackLowerBound d
    r.nackList (m - BitVec.ofNat 16 kMaxPacketAge))).length + (m - (r.newestSeqNum+1)).toNat) :
    let room := makeRoom d (m - (r.newestSeqNum+1)).toNat
      ((r.nackList.drop (nackLowerBound d r.nackList
        (m - BitVec.ofNat 16 kMaxPacketAge))).length+1)
      (r.nackList.drop (nackLowerBound d r.nackList (m - BitVec.ofNat 16 kMaxPacketAge)))
      r.keyframeList
    (r.addPacketsToNack d (r.newestSeqNum+1) m createdAt).2.keyframeList = room.2 ∧
      ((r.addPacketsToNack d (r.newestSeqNum+1) m createdAt).1 = false ↔
        room.1.length + (m - (r.newestSeqNum+1)).toNat ≤ kMaxNackPackets) := by
  simp only [NackRequester.addPacketsToNack,if_pos hfull]
  split
  case isTrue hmore => exact ⟨rfl,iff_of_false Bool.true_eq_false.mp (not_le.mpr hmore)⟩
  case isFalse hfits => exact ⟨rfl,iff_of_true rfl (not_lt.mp hfits)⟩

theorem addPacketsToNack_fits (hfits : (r.nackList.drop (nackLowerBound d r.nackList
    (m - BitVec.ofNat 16 kMaxPacketAge))).length + (m - (r.newestSeqNum+1)).toNat ≤
      kMaxNackPackets) :
    (r.addPacketsToNack d (r.newestSeqNum+1) m createdAt).2.keyframeList = r.keyframeList ∧
      (r.addPacketsToNack d (r.newestSeqNum+1) m createdAt).1 = false := by
  have hnot := not_lt.mpr hfits
  simp only [NackRequester.addPacketsToNack,if_neg hnot,and_self]

/-- Without a keyframe the gap is added if it fits behind what is young enough. -/
theorem addPacketsToNack_none (h : r.Listed) (hm : 0 < serialOffset m r.newestSeqNum)
    (hnone : r.keyframeList = []) :
    (r.addPacketsToNack d (r.newestSeqNum+1) m createdAt).2.keyframeList = [] ∧
      ((r.addPacketsToNack d (r.newestSeqNum+1) m createdAt).1 = false ↔
        r.Room m (-(kMaxPacketAge : ℤ))) := by
  have hsets := (addPacketsToNack_sets r d (r.newestSeqNum+1) m createdAt).1
  rw [hnone,List.suffix_nil] at hsets
  refine ⟨hsets,?_⟩
  by_cases hfits : (r.nackList.drop (nackLowerBound d r.nackList
      (m - BitVec.ofNat 16 kMaxPacketAge))).length + (m - (r.newestSeqNum+1)).toNat ≤
        kMaxNackPackets
  · have hnear : serialOffset m r.newestSeqNum ≤ 1001 := by
      have hcount := numNewNacks_eq hm
      simp only [kMaxNackPackets] at hfits
      omega
    exact iff_of_true (addPacketsToNack_fits createdAt hfits).2
      ((room_age_iff h hm hnear).mpr hfits)
  · have hfull := addPacketsToNack_full createdAt (not_le.mp hfits)
    simp only [hnone,makeRoom,removePacketsUntilKeyFrame] at hfull
    rw [hfull.2]
    refine iff_of_false hfits fun hroom => hfits ?_
    exact (room_age_iff h hm (near_of_room hm hroom)).mp hroom

/-- The keys behind the oldest keyframe of a short list are those that `Room` counts. -/
theorem room_keyframe_iff (h : r.Listed) (hm : 0 < serialOffset m r.newestSeqNum)
    (hold : -(kMaxPacketAge : ℤ) ≤ serialOffset first m)
    (hahead : serialOffset first m < 2^15-kMaxPacketAge)
    (hnear : serialOffset m r.newestSeqNum ≤ 1001) {nackList : List NackInfo}
    (hrecent : r.nackList.drop (nackLowerBound d r.nackList
      (m - BitVec.ofNat 16 kMaxPacketAge)) = nackList) :
    (r.Room m (serialOffset first m) ↔ (nackList.drop (nackLowerBound d nackList first)).length +
        (m - (r.newestSeqNum+1)).toNat ≤ kMaxNackPackets) ∧
      nackLowerBound d (nackList.drop (nackLowerBound d nackList first)) first = 0 := by
  have hwithin := within_drop_lowerBound (d := d) h hm hnear
  have hkeys := nackKeys_drop_old (d := d) h hm hnear
  rw [hrecent] at hwithin hkeys
  simp only [kMaxPacketAge] at hold hahead hwithin hkeys
  have hposition : serialOffset first r.newestSeqNum =
      serialOffset m r.newestSeqNum + serialOffset first m := by
    have hspec := serialOffset_spec first r.newestSeqNum
    have hspec' := serialOffset_spec first m
    have hspec'' := serialOffset_spec m r.newestSeqNum
    omega
  have hordered := hwithin.ordered (k := first) (by omega) (by omega)
  have hleft := hordered.drop_lowerBound d
  have hcounted : (nackKeys nackList).filter (fun x =>
      serialOffset m r.newestSeqNum + serialOffset first m ≤ serialOffset x r.newestSeqNum) =
        (nackKeys r.nackList).filter fun x =>
          serialOffset m r.newestSeqNum + serialOffset first m ≤
            serialOffset x r.newestSeqNum := by
    rw [hkeys,List.filter_filter]
    apply List.filter_congr
    intro x _
    rw [Bool.and_eq_left_iff_imp,decide_eq_true_eq,decide_eq_true_eq]
    omega
  rw [hposition,hcounted] at hleft
  constructor
  · rw [NackRequester.Room,← length_nackKeys,nackKeys_drop,nackLowerBound,hleft]
  · rw [nackLowerBound,nackKeys_drop]
    exact hordered.lowerBound_drop d

/-- The oldest keyframe decides: it is taken unless the gap fits behind it, and then the gap is
added. -/
theorem addPacketsToNack_keyframe (h : r.Listed) (hm : 0 < serialOffset m r.newestSeqNum)
    (hfirst : r.keyframeList = first::rest) (hold : -(kMaxPacketAge : ℤ) ≤ serialOffset first m)
    (hahead : serialOffset first m < 2^15-kMaxPacketAge) :
    if r.Room m (serialOffset first m) then
      (r.addPacketsToNack d (r.newestSeqNum+1) m createdAt).2.keyframeList = r.keyframeList ∧
        (r.addPacketsToNack d (r.newestSeqNum+1) m createdAt).1 = false
    else (r.addPacketsToNack d (r.newestSeqNum+1) m createdAt).2.keyframeList ≠ r.keyframeList := by
  generalize hrecent : r.nackList.drop (nackLowerBound d r.nackList
    (m - BitVec.ofNat 16 kMaxPacketAge)) = nackList
  by_cases hnear : serialOffset m r.newestSeqNum ≤ 1001
  · obtain ⟨hroom,hbehind⟩ := room_keyframe_iff h hm hold hahead hnear hrecent
    by_cases hfits : nackList.length + (m - (r.newestSeqNum+1)).toNat ≤ kMaxNackPackets
    · have hadded := addPacketsToNack_fits createdAt (hrecent ▸ hfits)
      rw [if_pos (hroom.mpr (by rw [List.length_drop]; omega))]
      exact hadded
    · have hfull := addPacketsToNack_full createdAt (hrecent ▸ not_le.mp hfits)
      have hmade := makeRoom_near rest (not_le.mp hfits) (Nat.lt_succ_self _) hbehind
      rw [hrecent,hfirst] at hfull
      split at hmade
      case isTrue hyes =>
        rw [if_pos (hroom.mpr hyes),hfirst,hfull.1,hfull.2,hmade]
        exact ⟨rfl,hyes⟩
      case isFalse hno =>
        rw [if_neg (mt hroom.mp hno),hfirst,hfull.1]
        exact hmade
  · have hcount := numNewNacks_eq hm
    have hfar : kMaxNackPackets < (m - (r.newestSeqNum+1)).toNat := by
      simp only [kMaxNackPackets]
      omega
    have hfull := addPacketsToNack_full (d := d) createdAt
      (Nat.lt_of_lt_of_le hfar (Nat.le_add_left _ _))
    rw [if_neg (mt (near_of_room hm) hnear),hfull.1,hfirst]
    exact makeRoom_far hfar (Nat.lt_succ_self _)

end Packets
end Ylrtc.Nack
