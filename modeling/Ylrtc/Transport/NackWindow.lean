import Mathlib.Data.List.InsertIdx
import Ylrtc.Transport.NackRequester

/-!
# The NACK list

The keys of the list lie within `kMaxPacketAge` behind the newest number, where the
comparator is an order: searches are exact there, and a packet that moves the newest
number either empties the list or appends the numbers it skips, save those found among
the recovered.
-/
namespace Ylrtc.Nack
open SearchTree SequenceNumber

/-! ### Numbers around a base -/

/-- The offset between two numbers less than half the range apart. -/
theorem serialOffset_sub {x y n : BitVec 16}
    (h : serialOffset x n - serialOffset y n < 32768)
    (h' : -32768 < serialOffset x n - serialOffset y n) :
    serialOffset x y = serialOffset x n - serialOffset y n := by
  have hx := serialOffset_spec x n
  have hy := serialOffset_spec y n
  have hxy := serialOffset_spec x y
  omega

theorem isSeqNumLessThan_iff {x y n : BitVec 16}
    (h : serialOffset x n - serialOffset y n < 32768)
    (h' : -32768 < serialOffset x n - serialOffset y n) :
    isSeqNumLessThan x y = true ↔ serialOffset x n < serialOffset y n := by
  rw [isSeqNumLessThan,seqNumGT_iff,serialOffset_sub (n := n) (by omega) (by omega)]
  omega

theorem serialOffset_add (n : BitVec 16) {j : ℕ} (hj : j < 32768) :
    serialOffset (n + BitVec.ofNat 16 j) n = j := by
  have hspec := serialOffset_spec (n + BitVec.ofNat 16 j) n
  have hn := n.isLt
  rw [BitVec.toNat_add,BitVec.toNat_ofNat] at hspec
  omega

theorem serialOffset_injective {x y n : BitVec 16} (h : serialOffset x n = serialOffset y n) :
    x = y := by
  have hx := serialOffset_spec x n
  have hy := serialOffset_spec y n
  rw [h] at hx
  apply BitVec.eq_of_toNat_eq
  omega

/-- The unwrapped number at an offset is the number itself modulo the range. -/
theorem low16_add_serialOffset {n : ℤ} {m : BitVec 16} (h : low16 n = m) (x : BitVec 16) :
    low16 (n + serialOffset x m) = x := by
  have hspec := serialOffset_spec x m
  have hnewest := low16_toNat n
  have hsum := low16_toNat (n + serialOffset x m)
  rw [h] at hnewest
  apply BitVec.eq_of_toNat_eq
  omega

theorem isSeqNumLessThan_total {x y : BitVec 16} (h : isSeqNumLessThan x y = false)
    (h' : isSeqNumLessThan y x = false) : x = y := by
  by_contra hne
  have hxy := mt (seqNumGT_iff x y).mpr (by rw [isSeqNumLessThan] at h'; simp [h'])
  have hyx := mt (seqNumGT_iff y x).mpr (by rw [isSeqNumLessThan] at h; simp [h])
  have hspec := serialOffset_spec x y
  have hspec' := serialOffset_spec y x
  have hx := x.isLt
  have hy := y.isLt
  apply hne
  apply BitVec.eq_of_toNat_eq
  omega

/-! ### Lists of keys in a window -/

/-- Keys in the order of their offsets from a number, all within bounds. -/
structure Within (n : BitVec 16) (lo hi : ℤ) (keys : List (BitVec 16)) : Prop where
  sorted : keys.Pairwise fun x y => serialOffset x n < serialOffset y n
  bounds : ∀ x ∈ keys, lo ≤ serialOffset x n ∧ serialOffset x n < hi

section Windows
variable {n k : BitVec 16} {lo hi : ℤ} {keys : List (BitVec 16)}

theorem within_nil (n : BitVec 16) (lo hi : ℤ) : Within n lo hi [] :=
  ⟨.nil,fun _ h => absurd h List.not_mem_nil⟩

theorem Within.sublist {other : List (BitVec 16)} (h : Within n lo hi keys)
    (hsub : other.Sublist keys) : Within n lo hi other :=
  ⟨h.sorted.sublist hsub,fun x hx => h.bounds x (hsub.subset hx)⟩

theorem Within.ordered (h : Within n lo hi keys) (hlo : serialOffset k n - lo < 32768)
    (hhi : hi - serialOffset k n ≤ 32768) :
    Ordered isSeqNumLessThan (serialOffset · n) keys k where
  sorted := h.sorted
  before x hx := by
    have := h.bounds x hx
    apply isSeqNumLessThan_iff <;> omega
  behind x hx := by
    have := h.bounds x hx
    apply isSeqNumLessThan_iff <;> omega

/-- The window seen from a later number. -/
theorem Within.rebase (h : Within n lo hi keys) {m : BitVec 16}
    (hlo : serialOffset m n - lo < 32768) (hhi : hi - serialOffset m n ≤ 32768) :
    Within m (lo - serialOffset m n) (hi - serialOffset m n) keys where
  sorted := by
    apply h.sorted.imp_of_mem
    intro x y hx hy hxy
    have := h.bounds x hx
    have := h.bounds y hy
    rw [serialOffset_sub (x := x) (y := m) (n := n) (by omega) (by omega),
      serialOffset_sub (x := y) (y := m) (n := n) (by omega) (by omega)]
    omega
  bounds x hx := by
    have := h.bounds x hx
    rw [serialOffset_sub (x := x) (y := m) (n := n) (by omega) (by omega)]
    omega

end Windows

/-! ### Adding a range -/

/-- The numbers behind `n`, from distance `j` on. -/
def numbers (n : BitVec 16) (j count : ℕ) : List (BitVec 16) :=
  (List.range' j count).map fun i => n + BitVec.ofNat 16 i

def newNack (createdAt : BitVec 16 → ℤ) (seqNum : BitVec 16) : NackInfo :=
  ⟨seqNum,seqNum,createdAt seqNum,-1,0⟩

section Range
variable {d : Descent (BitVec 16)} {n : BitVec 16} {nackList : List NackInfo}
  {recovered : List (BitVec 16)} {createdAt : BitVec 16 → ℤ}

/-- A key behind all others is appended. -/
theorem assignNack_eq_append {lo hi : ℤ} (info : NackInfo) (h : Within n lo hi (nackKeys nackList))
    (hlo : serialOffset info.seqNum n - lo < 32768) (hhi : hi ≤ serialOffset info.seqNum n) :
    assignNack d nackList info = nackList++[info] := by
  have hordered := h.ordered hlo (by omega)
  have hbound := hordered.lowerBound_eq_length d fun x hx => by
    have := h.bounds x hx
    omega
  have hlength : (nackKeys nackList).length = nackList.length := List.length_map _
  have hfind : findIndex d isSeqNumLessThan (nackKeys nackList) info.seqNum = none := by
    rw [findIndex,hbound,List.getElem?_eq_none le_rfl]
  rw [assignNack,hfind]
  simp only [nackLowerBound]
  rw [hbound,hlength,List.insertIdx_length_self]

theorem Within.append {lo hi : ℤ} {keys : List (BitVec 16)} {k : BitVec 16}
    (h : Within n lo hi keys) (hlo : lo ≤ serialOffset k n) (hhi : hi ≤ serialOffset k n) :
    Within n lo (serialOffset k n+1) (keys++[k]) where
  sorted := by
    rw [List.pairwise_append]
    refine ⟨h.sorted,List.pairwise_singleton _ _,fun x hx y hy => ?_⟩
    rw [List.mem_singleton] at hy
    have := h.bounds x hx
    rw [hy]
    omega
  bounds x hx := by
    rw [List.mem_append,List.mem_singleton] at hx
    cases hx with
    | inl hold =>
        have := h.bounds x hold
        omega
    | inr hnew =>
        rw [hnew]
        omega

theorem within_mono {lo lo' hi hi' : ℤ} {keys : List (BitVec 16)} (h : Within n lo hi keys)
    (hlo : lo' ≤ lo) (hhi : hi ≤ hi') : Within n lo' hi' keys where
  sorted := h.sorted
  bounds x hx := by
    have := h.bounds x hx
    omega

/-- The loop appends the numbers that are not found among the recovered. -/
theorem addRange_eq (recovered : List (BitVec 16)) (createdAt : BitVec 16 → ℤ) {lo : ℤ} {j : ℕ}
    (count : ℕ) (h : Within n lo j (nackKeys nackList))
    (hlo : lo ≤ 0) (hrange : j+count-lo ≤ 32768) :
    addRange d recovered createdAt count (n + BitVec.ofNat 16 j) nackList =
        nackList ++ ((numbers n j count).filter fun u =>
          !contains d isSeqNumLessThan recovered u).map (newNack createdAt) ∧
      Within n lo (j+count : ℕ) (nackKeys
        (addRange d recovered createdAt count (n + BitVec.ofNat 16 j) nackList)) := by
  induction count generalizing j nackList with
  | zero =>
      simp only [addRange,numbers,List.range'_zero,List.map_nil,List.filter_nil,List.append_nil,
        Nat.add_zero,true_and]
      exact h
  | succ count ih =>
      have hnext : n + BitVec.ofNat 16 j + 1 = n + BitVec.ofNat 16 (j+1) := by
        rw [BitVec.ofNat_add,← BitVec.add_assoc]
        rfl
      have hoffset : serialOffset (n + BitVec.ofNat 16 j) n = j := serialOffset_add n (by omega)
      rw [addRange,hnext,numbers,List.range'_succ,List.map_cons,List.filter_cons,
        show j+(count+1) = j+1+count by omega]
      cases hfound : contains d isSeqNumLessThan recovered (n + BitVec.ofNat 16 j) with
      | true =>
          rw [if_pos rfl,Bool.not_true,if_neg Bool.false_ne_true]
          exact ih (within_mono h le_rfl (by omega)) (by omega)
      | false =>
          have happend := assignNack_eq_append (newNack createdAt (n + BitVec.ofNat 16 j)) (d := d) h
            (by rw [newNack,hoffset]; omega) (by rw [newNack,hoffset])
          have hkeys : nackKeys (nackList++[newNack createdAt (n + BitVec.ofNat 16 j)]) =
              nackKeys nackList++[n + BitVec.ofNat 16 j] := by
            simp only [nackKeys,List.map_append,List.map_cons,List.map_nil,newNack]
          have hwithin : Within n lo (j+1 : ℕ)
              (nackKeys (nackList++[newNack createdAt (n + BitVec.ofNat 16 j)])) := by
            have hnew := Within.append h (k := n + BitVec.ofNat 16 j) (by omega) (by omega)
            rw [hoffset] at hnew
            rw [hkeys]
            exact hnew
          rw [newNack] at happend
          rw [if_neg Bool.false_ne_true,happend,Bool.not_false,if_pos rfl,List.map_cons]
          have hrest := ih hwithin (by omega)
          rw [List.append_assoc] at hrest
          exact hrest

theorem mem_numbers_iff {j count : ℕ} (h : j+count ≤ 32768) {x : BitVec 16} :
    x ∈ numbers n j count ↔ (j : ℤ) ≤ serialOffset x n ∧ serialOffset x n < (j+count : ℕ) := by
  rw [numbers,List.mem_map]
  constructor
  · intro hx
    cases hx with
    | intro i hi =>
        rw [List.mem_range'_1] at hi
        rw [← hi.2,serialOffset_add n (by omega)]
        omega
  · intro hx
    refine ⟨(serialOffset x n).toNat,?_,?_⟩
    · rw [List.mem_range'_1]
      omega
    · apply serialOffset_injective (n := n)
      rw [serialOffset_add n (by omega)]
      omega

end Range

/-! ### Making room -/

section Room
variable (d : Descent (BitVec 16))

theorem removePacketsUntilKeyFrame_suffix (nackList : List NackInfo) (keyframes : List (BitVec 16)) :
    (removePacketsUntilKeyFrame d nackList keyframes).2.1 <:+ nackList := by
  induction keyframes with
  | nil => exact List.suffix_rfl
  | cons first rest ih =>
      rw [removePacketsUntilKeyFrame]
      split
      · exact List.drop_suffix _ _
      · exact ih

/-- Packets were removed when it says so. -/
theorem length_removePacketsUntilKeyFrame (nackList : List NackInfo)
    (keyframes : List (BitVec 16))
    (h : (removePacketsUntilKeyFrame d nackList keyframes).1 = true) :
    (removePacketsUntilKeyFrame d nackList keyframes).2.1.length < nackList.length := by
  induction keyframes with
  | nil => simp [removePacketsUntilKeyFrame] at h
  | cons first rest ih =>
      rw [removePacketsUntilKeyFrame] at h ⊢
      split
      · rename_i hit
        have hle := d.place_le (nackKeys nackList) fun x => isSeqNumLessThan x first
        have hlength : (nackKeys nackList).length = nackList.length := List.length_map _
        simp only [nackLowerBound,lowerBound] at hit ⊢
        rw [List.length_drop]
        omega
      · rename_i hit
        rw [if_neg hit] at h
        exact ih h

theorem makeRoom_suffix (numNewNacks n : ℕ) (nackList : List NackInfo)
    (keyframes : List (BitVec 16)) :
    (makeRoom d numNewNacks n nackList keyframes).1 <:+ nackList := by
  induction n generalizing nackList keyframes with
  | zero => exact List.suffix_rfl
  | succ n ih =>
      have hsuffix := removePacketsUntilKeyFrame_suffix d nackList keyframes
      rw [makeRoom]
      cases hremove : removePacketsUntilKeyFrame d nackList keyframes with
      | mk removed rest =>
          rw [hremove] at hsuffix
          cases removed with
          | false => exact hsuffix
          | true =>
              simp only
              split
              · exact (ih rest.1 rest.2).trans hsuffix
              · exact hsuffix

/-- More rounds than the list is long change nothing. -/
theorem makeRoom_rounds (numNewNacks : ℕ) {n m : ℕ} {nackList : List NackInfo}
    (hn : nackList.length < n) (hm : nackList.length < m) (keyframes : List (BitVec 16)) :
    makeRoom d numNewNacks n nackList keyframes = makeRoom d numNewNacks m nackList keyframes := by
  induction n generalizing m nackList keyframes with
  | zero => omega
  | succ n ih =>
      cases m with
      | zero => omega
      | succ m =>
          have hshorter := length_removePacketsUntilKeyFrame d nackList keyframes
          rw [makeRoom,makeRoom]
          cases hremove : removePacketsUntilKeyFrame d nackList keyframes with
          | mk removed rest =>
              rw [hremove] at hshorter
              cases removed with
              | false => rfl
              | true =>
                  have hless := hshorter rfl
                  simp only at hless ⊢
                  rw [ih (m := m) (by omega) (by omega)]

end Room

/-! ### What a packet does to the list -/

section Packets
variable {r : NackRequester} {d : Descent (BitVec 16)} {m : BitVec 16} {createdAt : BitVec 16 → ℤ}

/-- The list is in the window behind the newest number. -/
def NackRequester.Listed (r : NackRequester) : Prop :=
  Within r.newestSeqNum (-(kMaxPacketAge : ℤ)) 0 (nackKeys r.nackList)

theorem numNewNacks_eq {n : BitVec 16} (h : 0 < serialOffset m n) :
    ((m - (n+1)).toNat : ℤ) = serialOffset m n - 1 := by
  have hspec := serialOffset_spec m n
  have hsub := sub_toNat m (n+1)
  have hm := m.isLt
  have hn := n.isLt
  have hsucc : (n+1).toNat = (n.toNat+1)%65536 := BitVec.toNat_add n 1
  omega

/-- The numbers that the packet skips and that are not found among the recovered. -/
def NackRequester.skipped (r : NackRequester) (d : Descent (BitVec 16)) (m : BitVec 16) :
    List (BitVec 16) :=
  (numbers r.newestSeqNum 1 (m - (r.newestSeqNum+1)).toNat).filter fun u =>
    !contains d isSeqNumLessThan r.recoveredList u

theorem mem_skipped_iff (hm : 0 < serialOffset m r.newestSeqNum) {u : BitVec 16} :
    u ∈ r.skipped d m ↔ (0 < serialOffset u r.newestSeqNum ∧
      serialOffset u r.newestSeqNum < serialOffset m r.newestSeqNum) ∧
        contains d isSeqNumLessThan r.recoveredList u = false := by
  have hcount := numNewNacks_eq hm
  have hspec := serialOffset_spec m r.newestSeqNum
  rw [NackRequester.skipped,List.mem_filter,mem_numbers_iff (by omega),Bool.not_eq_true']
  constructor
  · intro h
    exact ⟨by omega,h.2⟩
  · intro h
    exact ⟨by omega,h.2⟩

theorem nackKeys_drop (nackList : List NackInfo) (i : ℕ) :
    nackKeys (nackList.drop i) = (nackKeys nackList).drop i := List.map_drop

theorem length_nackKeys (nackList : List NackInfo) : (nackKeys nackList).length = nackList.length :=
  List.length_map _

/-- The entries that are young enough for a packet close to the newest number. -/
theorem nackKeys_drop_old {n : BitVec 16} {nackList : List NackInfo}
    (h : Within n (-(kMaxPacketAge : ℤ)) 0 (nackKeys nackList)) (hm : 0 < serialOffset m n)
    (hnear : serialOffset m n ≤ 1001) :
    nackKeys (nackList.drop (nackLowerBound d nackList (m - BitVec.ofNat 16 kMaxPacketAge))) =
      (nackKeys nackList).filter fun x => serialOffset m n - kMaxPacketAge ≤ serialOffset x n := by
  simp only [kMaxPacketAge] at h ⊢
  have hage : serialOffset (m - BitVec.ofNat 16 10000) n = serialOffset m n - 10000 := by
    have hspec := serialOffset_spec m n
    have hspec' := serialOffset_spec (m - BitVec.ofNat 16 10000) n
    have hsub := sub_toNat m (BitVec.ofNat 16 10000)
    have hnumber : (BitVec.ofNat 16 10000).toNat = 10000 := rfl
    omega
  have hordered := h.ordered (k := m - BitVec.ofNat 16 10000)
    (by rw [hage]; push_cast; omega) (by rw [hage]; omega)
  rw [nackKeys_drop,nackLowerBound,hordered.drop_lowerBound d,hage]
  rfl

theorem within_drop_lowerBound {n : BitVec 16} {nackList : List NackInfo}
    (h : Within n (-(kMaxPacketAge : ℤ)) 0 (nackKeys nackList)) (hm : 0 < serialOffset m n)
    (hnear : serialOffset m n ≤ 1001) :
    Within n (serialOffset m n - kMaxPacketAge) 0 (nackKeys (nackList.drop
      (nackLowerBound d nackList (m - BitVec.ofNat 16 kMaxPacketAge)))) := by
  rw [nackKeys_drop_old h hm hnear]
  constructor
  · exact h.sorted.sublist List.filter_sublist
  · intro x hx
    rw [List.mem_filter,decide_eq_true_eq] at hx
    exact ⟨hx.2,(h.bounds x hx.1).2⟩

theorem addPacketsToNack_initialized (r : NackRequester) (d : Descent (BitVec 16))
    (seqNumStart seqNumEnd : BitVec 16) (createdAt : BitVec 16 → ℤ) :
    (r.addPacketsToNack d seqNumStart seqNumEnd createdAt).2.initialized = r.initialized := by
  simp only [NackRequester.addPacketsToNack]
  split
  · split <;> rfl
  · rfl

/-- Either the list is cleared, or the skipped numbers stand behind a rest of it. -/
theorem addPacketsToNack_cases (createdAt : BitVec 16 → ℤ) (h : r.Listed)
    (hm : 0 < serialOffset m r.newestSeqNum) :
    (r.addPacketsToNack d (r.newestSeqNum+1) m createdAt).1 = true ∧
        (r.addPacketsToNack d (r.newestSeqNum+1) m createdAt).2.nackList = [] ∨
      (r.addPacketsToNack d (r.newestSeqNum+1) m createdAt).1 = false ∧
        (∃ old, old <:+ r.nackList ∧
          (r.addPacketsToNack d (r.newestSeqNum+1) m createdAt).2.nackList =
            old ++ (r.skipped d m).map (newNack createdAt)) ∧
        Within m (-(kMaxPacketAge : ℤ)) 0
          (nackKeys (r.addPacketsToNack d (r.newestSeqNum+1) m createdAt).2.nackList) := by
  have hcount := numNewNacks_eq hm
  have hage : (kMaxPacketAge : ℤ) = 10000 := rfl
  have hrecent := within_drop_lowerBound (d := d) h hm
  simp only [NackRequester.addPacketsToNack,NackRequester.skipped]
  generalize nackLowerBound d r.nackList (m - BitVec.ofNat 16 kMaxPacketAge) = bound at hrecent ⊢
  generalize (m - (r.newestSeqNum+1)).toNat = count at hcount ⊢
  generalize hroom : (if kMaxNackPackets < (r.nackList.drop bound).length + count then
    makeRoom d count ((r.nackList.drop bound).length+1) (r.nackList.drop bound) r.keyframeList
    else (r.nackList.drop bound,r.keyframeList)) = room
  -- what is left after the two removals is a suffix of the recent entries
  have hsuffix : room.1 <:+ r.nackList.drop bound := by
    rw [← hroom]
    split
    · exact makeRoom_suffix d _ _ _ _
    · exact List.suffix_rfl
  split
  · exact .inl ⟨rfl,rfl⟩
  · rename_i hfit
    have hnear : serialOffset m r.newestSeqNum ≤ 1001 := by
      simp only [kMaxNackPackets] at hfit
      omega
    have hwithin := (hrecent hnear).sublist (hsuffix.sublist.map NackInfo.seqNum)
    have hadded := addRange_eq r.recoveredList createdAt count (d := d)
      (j := 1) (within_mono hwithin le_rfl (by omega)) (by omega) (by omega)
    refine .inr ⟨rfl,⟨room.1,hsuffix.trans (List.drop_suffix _ _),hadded.1⟩,?_⟩
    have hrebased := hadded.2.rebase (m := m) (by omega) (by omega)
    exact within_mono hrebased (by omega) (by omega)

/-- Behind a gap stands what stood there before, or was skipped. -/
theorem mem_nackKeys_added {old : List NackInfo} {skipped : List (BitVec 16)} {x : BitVec 16}
    (hold : old <:+ r.nackList) (hx : x ∈ nackKeys (old++skipped.map (newNack createdAt))) :
    x ∈ nackKeys r.nackList ∨ x ∈ skipped := by
  rw [nackKeys,List.map_append,List.mem_append,List.map_map] at hx
  cases hx with
  | inl hx => exact .inl ((hold.sublist.map NackInfo.seqNum).subset hx)
  | inr hx =>
      simp only [List.mem_map,Function.comp_apply,newNack,exists_eq_right] at hx
      exact .inr hx

/-- In both cases the list is in the window of the packet. -/
theorem addPacketsToNack_within (createdAt : BitVec 16 → ℤ) (h : r.Listed)
    (hm : 0 < serialOffset m r.newestSeqNum) :
    Within m (-(kMaxPacketAge : ℤ)) 0
      (nackKeys (r.addPacketsToNack d (r.newestSeqNum+1) m createdAt).2.nackList) := by
  cases addPacketsToNack_cases createdAt (d := d) h hm with
  | inl hcleared =>
      rw [hcleared.2]
      exact within_nil _ _ _
  | inr hadded => exact hadded.2.2

end Packets

/-! ### Batches -/

section Batch
variable {r : NackRequester} {options : NackFilterOptions} {nowMs : ℤ} {nackList : List NackInfo}

theorem nackBatch_cons (info : NackInfo) (rest : List NackInfo) :
    nackBatch r options nowMs (info::rest) =
      if due r options nowMs info then
        (info.seqNum::(nackBatch r options nowMs rest).1,
          if kMaxNackRetries ≤ info.retries+1 then (nackBatch r options nowMs rest).2
          else { info with retries := info.retries+1, sentAtTime := nowMs }::
            (nackBatch r options nowMs rest).2)
      else ((nackBatch r options nowMs rest).1,info::(nackBatch r options nowMs rest).2) := rfl

theorem nackBatch_sublist (r : NackRequester) (options : NackFilterOptions) (nowMs : ℤ)
    (nackList : List NackInfo) :
    (nackKeys (nackBatch r options nowMs nackList).2).Sublist (nackKeys nackList) := by
  induction nackList with
  | nil => exact List.Sublist.slnil
  | cons info rest ih =>
      rw [nackBatch_cons]
      simp only [nackKeys,List.map_cons] at ih ⊢
      split
      · split
        · exact ih.cons _
        · exact ih.cons_cons _
      · exact ih.cons_cons _

theorem mem_of_mem_nackBatch {x : BitVec 16}
    (h : x ∈ (nackBatch r options nowMs nackList).1) : x ∈ nackKeys nackList := by
  induction nackList with
  | nil => exact h
  | cons info rest ih =>
      rw [nackBatch_cons] at h
      simp only [nackKeys,List.map_cons,List.mem_cons] at ih ⊢
      split at h
      · rw [List.mem_cons] at h
        exact h.imp_right ih
      · exact .inr (ih h)

/-- An entry that was never sent stays. -/
theorem mem_nackBatch_of_fresh {info : NackInfo} (h : info ∈ nackList) (hfresh : info.retries = 0) :
    info.seqNum ∈ nackKeys (nackBatch r options nowMs nackList).2 := by
  induction nackList with
  | nil => exact absurd h List.not_mem_nil
  | cons first rest ih =>
      rw [List.mem_cons] at h
      rw [nackBatch_cons]
      simp only [nackKeys] at ih ⊢
      cases h with
      | inl hfirst =>
          rw [← hfirst]
          split
          · rw [if_neg (by rw [hfresh]; decide),List.map_cons]
            exact List.mem_cons_self
          · rw [List.map_cons]
            exact List.mem_cons_self
      | inr hrest =>
          have hmem := ih hrest
          split
          · split
            · exact hmem
            · rw [List.map_cons]
              exact List.mem_cons_of_mem _ hmem
          · rw [List.map_cons]
            exact List.mem_cons_of_mem _ hmem

theorem mem_requestNack {batch names : List (BitVec 16)}
    (h : Output.requestNack names ∈ NackRequester.requestNack batch) : names = batch := by
  rw [NackRequester.requestNack] at h
  split at h
  · simp at h
  · simpa using h

theorem requestKeyFrame_not_mem (batch : List (BitVec 16)) :
    Output.requestKeyFrame ∉ NackRequester.requestNack batch := by
  rw [NackRequester.requestNack]
  split <;> simp

end Batch

/-! ### One packet -/

section Received
variable {r : NackRequester} {d : Descent (BitVec 16)} {m : BitVec 16} {createdAt : BitVec 16 → ℤ}
  {isKeyframe isRecovered : Bool} {nowMs : ℤ}

theorem seqNumGT_iff_neg {n : BitVec 16} : seqNumGT n m = true ↔ serialOffset m n < 0 := by
  have hm := serialOffset_spec m n
  have hn := serialOffset_spec n m
  have hlt := m.isLt
  have hlt' := n.isLt
  rw [seqNumGT_iff]
  omega

theorem eq_iff_serialOffset_zero {n : BitVec 16} : m = n ↔ serialOffset m n = 0 := by
  have hm := serialOffset_spec m n
  have hlt := m.isLt
  have hlt' := n.isLt
  rw [← BitVec.toNat_inj]
  omega

/-- A packet that is neither the newest number nor late is ahead. -/
theorem ahead_iff {n : BitVec 16} : 0 < serialOffset m n ↔ ¬m = n ∧ ¬seqNumGT n m = true := by
  rw [eq_iff_serialOffset_zero,seqNumGT_iff_neg]
  omega

/-- The first packet only sets the newest number. -/
theorem onReceivedPacket_first (createdAt : BitVec 16 → ℤ) (isKeyframe isRecovered : Bool)
    (nowMs : ℤ) (h : r.initialized = false) :
    (r.onReceivedPacket d m isKeyframe isRecovered createdAt nowMs).2.1 = [] ∧
      (r.onReceivedPacket d m isKeyframe isRecovered createdAt nowMs).2.2.initialized = true ∧
      (r.onReceivedPacket d m isKeyframe isRecovered createdAt nowMs).2.2.newestSeqNum = m ∧
      (r.onReceivedPacket d m isKeyframe isRecovered createdAt nowMs).2.2.nackList =
        r.nackList := by
  rw [NackRequester.onReceivedPacket,h]
  exact ⟨rfl,rfl,rfl,rfl⟩

/-- A packet that does not move the newest number requests nothing and leaves the list,
without its own number. -/
theorem onReceivedPacket_behind (createdAt : BitVec 16 → ℤ) (isKeyframe : Bool) (nowMs : ℤ)
    (h : r.initialized = true) (hlisted : r.Listed)
    (hm : serialOffset m r.newestSeqNum ≤ 0 ∨ isRecovered = true) :
    (r.onReceivedPacket d m isKeyframe isRecovered createdAt nowMs).2.1 = [] ∧
      (r.onReceivedPacket d m isKeyframe isRecovered createdAt nowMs).2.2.initialized = true ∧
      (r.onReceivedPacket d m isKeyframe isRecovered createdAt nowMs).2.2.newestSeqNum =
        r.newestSeqNum ∧
      (nackKeys (r.onReceivedPacket d m isKeyframe isRecovered createdAt nowMs).2.2.nackList).Sublist
        (nackKeys r.nackList) ∧
      m ∉ nackKeys (r.onReceivedPacket d m isKeyframe isRecovered createdAt nowMs).2.2.nackList := by
  have hbounds := hlisted.bounds
  rw [NackRequester.onReceivedPacket,if_neg (by rw [h]; decide)]
  split
  · -- the newest packet again
    rename_i heq
    refine ⟨rfl,h,rfl,List.Sublist.refl _,fun hmem => ?_⟩
    have hb := hbounds m hmem
    rw [eq_iff_serialOffset_zero.mp heq] at hb
    omega
  split
  · rename_i hne hgt
    rw [seqNumGT_iff_neg] at hgt
    have hspec := serialOffset_spec m r.newestSeqNum
    have hordered := Within.ordered hlisted (k := m) (by simp only [kMaxPacketAge]; omega) (by omega)
    cases hfind : findIndex d isSeqNumLessThan (nackKeys r.nackList) m with
    | none =>
        refine ⟨rfl,h,rfl,List.Sublist.refl _,fun hmem => ?_⟩
        cases hordered.findIndex_of_mem d hmem with
        | intro i hi => simp [hfind] at hi
    | some i =>
        have herase : nackKeys (r.nackList.eraseIdx i) = (nackKeys r.nackList).eraseIdx i := by
          simp only [nackKeys,List.eraseIdx_map]
        refine ⟨rfl,h,rfl,?_,?_⟩
        · simp only
          rw [herase]
          exact List.eraseIdx_sublist _ _
        · simp only
          rw [herase]
          cases getElem?_of_findIndex d hfind with
          | intro x hx =>
              have hxm := isSeqNumLessThan_total hx.2.1 hx.2.2
              rw [hxm] at hx
              exact hordered.not_mem_eraseIdx hx.1
  · rename_i hne hgt
    have hahead := ahead_iff.mpr ⟨hne,hgt⟩
    have hrecovered : isRecovered = true := by
      cases hm with
      | inl hle => omega
      | inr hrecovered => exact hrecovered
    simp only [hrecovered,if_true]
    refine ⟨trivial,h,trivial,List.Sublist.refl _,fun hmem => ?_⟩
    have hb := hbounds m hmem
    omega

/-- A normal packet ahead moves the newest number. The list is cleared with a request for
a keyframe, or gets the skipped numbers; a batch names entries of the list. -/
theorem onReceivedPacket_ahead (createdAt : BitVec 16 → ℤ) (isKeyframe : Bool) (nowMs : ℤ)
    (h : r.initialized = true) (hlisted : r.Listed)
    (hm : 0 < serialOffset m r.newestSeqNum) :
    (r.onReceivedPacket d m isKeyframe false createdAt nowMs).2.2.initialized = true ∧
      (r.onReceivedPacket d m isKeyframe false createdAt nowMs).2.2.newestSeqNum = m ∧
      (r.onReceivedPacket d m isKeyframe false createdAt nowMs).2.2.Listed ∧
      ((.requestKeyFrame ∈ (r.onReceivedPacket d m isKeyframe false createdAt nowMs).2.1 ∧
          (r.onReceivedPacket d m isKeyframe false createdAt nowMs).2.2.nackList = [] ∧
          ∀ names, .requestNack names ∈
            (r.onReceivedPacket d m isKeyframe false createdAt nowMs).2.1 → names = []) ∨
        .requestKeyFrame ∉ (r.onReceivedPacket d m isKeyframe false createdAt nowMs).2.1 ∧
          (∀ u ∈ r.skipped d m, u ∈ nackKeys
            (r.onReceivedPacket d m isKeyframe false createdAt nowMs).2.2.nackList) ∧
          (∀ x ∈ nackKeys (r.onReceivedPacket d m isKeyframe false createdAt nowMs).2.2.nackList,
            x ∈ nackKeys r.nackList ∨ x ∈ r.skipped d m) ∧
          ∀ names, .requestNack names ∈
            (r.onReceivedPacket d m isKeyframe false createdAt nowMs).2.1 →
              ∀ x ∈ names, x ∈ nackKeys r.nackList ∨ x ∈ r.skipped d m) := by
  obtain ⟨hne,hgt⟩ := ahead_iff.mp hm
  rw [NackRequester.onReceivedPacket,if_neg (by rw [h]; decide),if_neg hne,if_neg hgt]
  simp only [Bool.false_eq_true,if_false]
  generalize hkeyframes : eraseOld d _ m = keyframeList
  have hcases := addPacketsToNack_cases createdAt (r := { r with keyframeList := keyframeList })
    (d := d) (m := m) hlisted hm
  have hwithin := addPacketsToNack_within createdAt (r := { r with keyframeList := keyframeList })
    (d := d) (m := m) hlisted hm
  have hinit := (addPacketsToNack_initialized { r with keyframeList := keyframeList } d
    (r.newestSeqNum+1) m createdAt).trans h
  simp only at hcases hwithin
  generalize NackRequester.addPacketsToNack { r with keyframeList := keyframeList } d
    (r.newestSeqNum+1) m createdAt = added at hcases hwithin hinit ⊢
  have hsublist := nackBatch_sublist { added.2 with newestSeqNum := m } .seqNumOnly nowMs
    added.2.nackList
  refine ⟨hinit,rfl,?_,?_⟩
  · exact Within.sublist hwithin hsublist
  · cases hcases with
    | inl hcleared =>
        refine .inl ⟨?_,?_,fun names hnames => ?_⟩
        · rw [hcleared.1]
          exact List.mem_cons_self
        · rw [NackRequester.getNackBatch]
          simp only [hcleared.2]
          rfl
        · simp only [hcleared.1,if_true,List.mem_append,List.mem_singleton,reduceCtorEq,
            false_or] at hnames
          rw [mem_requestNack hnames,NackRequester.getNackBatch]
          simp only [hcleared.2]
          rfl
    | inr hadded =>
        cases hadded.2.1 with
        | intro old hold =>
            have hentries : ∀ x ∈ nackKeys added.2.nackList,
                x ∈ nackKeys r.nackList ∨ x ∈ r.skipped d m := by
              rw [hold.2]
              exact fun x hx => mem_nackKeys_added hold.1 hx
            refine .inr ⟨?_,fun u hu => ?_,fun x hx => hentries x (hsublist.subset hx),
              fun names hnames x hx => ?_⟩
            · rw [hadded.1,if_neg Bool.false_ne_true,List.nil_append]
              exact requestKeyFrame_not_mem _
            · have hfresh : newNack createdAt u ∈ added.2.nackList := by
                rw [hold.2,List.mem_append]
                exact .inr (List.mem_map_of_mem hu)
              exact mem_nackBatch_of_fresh hfresh rfl
            · rw [hadded.1,if_neg Bool.false_ne_true,List.nil_append] at hnames
              rw [mem_requestNack hnames] at hx
              exact hentries x (mem_of_mem_nackBatch hx)

/-- What every packet leaves behind: an initialized requester whose list is in the window of
the newest number, which a first packet or a normal one ahead has set. -/
theorem onReceivedPacket_window (createdAt : BitVec 16 → ℤ) (isKeyframe isRecovered : Bool)
    (nowMs : ℤ) (hlisted : r.Listed) (hfresh : r.initialized = false → r.nackList = []) :
    (r.onReceivedPacket d m isKeyframe isRecovered createdAt nowMs).2.2.initialized = true ∧
      (r.onReceivedPacket d m isKeyframe isRecovered createdAt nowMs).2.2.newestSeqNum =
        (if r.initialized = false ∨ 0 < serialOffset m r.newestSeqNum ∧ isRecovered = false then m
        else r.newestSeqNum) ∧
      (r.onReceivedPacket d m isKeyframe isRecovered createdAt nowMs).2.2.Listed := by
  cases hinit : r.initialized with
  | false =>
      have hfirst := onReceivedPacket_first createdAt isKeyframe isRecovered nowMs (d := d) (m := m)
        hinit
      refine ⟨hfirst.2.1,?_,?_⟩
      · rw [if_pos (.inl rfl)]
        exact hfirst.2.2.1
      · rw [NackRequester.Listed,hfirst.2.2.2,hfresh hinit]
        exact within_nil _ _ _
  | true =>
      by_cases hmoves : 0 < serialOffset m r.newestSeqNum ∧ isRecovered = false
      · have hahead := onReceivedPacket_ahead createdAt isKeyframe nowMs (d := d) hinit hlisted
          hmoves.1
        rw [if_pos (.inr hmoves),hmoves.2]
        exact ⟨hahead.1,hahead.2.1,hahead.2.2.1⟩
      · have hnot : serialOffset m r.newestSeqNum ≤ 0 ∨ isRecovered = true := by
          rw [not_and_or,not_lt,Bool.not_eq_false] at hmoves
          exact hmoves
        have hbehind := onReceivedPacket_behind createdAt isKeyframe nowMs (d := d) hinit hlisted hnot
        refine ⟨hbehind.2.1,?_,?_⟩
        · rw [if_neg (fun hor => hor.elim Bool.false_ne_true.symm hmoves)]
          exact hbehind.2.2.1
        · rw [NackRequester.Listed,hbehind.2.2.1]
          exact Within.sublist hlisted hbehind.2.2.2.1

end Received
end Ylrtc.Nack
