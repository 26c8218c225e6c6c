import Mathlib.Order.Defs.Unbundled
import Ylrtc.Transport.NackWindow

/-!
# The NACK map

`nack_list_` as the map it is, with a key beside each entry, and the loops of
`AddPacketsToNack` as they are written: a round costs one unit of fuel, and a call that
runs out of it has no result. With enough fuel every call returns what the requester
without keys returns, so the keys stay those of the entries, in their window.
-/
namespace Ylrtc.Nack
open SearchTree SequenceNumber

/-- The elements of `nack_list_` in their order: `first` and `second`. -/
abbrev NackMap := List (BitVec 16 × NackInfo)

def mapKeys (nackMap : NackMap) : List (BitVec 16) := nackMap.map Prod.fst

structure MapRequester where
  nackMap : NackMap := []
  keyframeList : List (BitVec 16) := []
  recoveredList : List (BitVec 16) := []
  initialized : Bool := false
  rttMs : ℤ := kDefaultRttMs
  newestSeqNum : BitVec 16 := 0

/-! ### The operations on the map -/

section Containers
variable (d : Descent (BitVec 16))

def mapLowerBound (nackMap : NackMap) (seqNum : BitVec 16) : ℕ :=
  lowerBound d isSeqNumLessThan (mapKeys nackMap) seqNum

/-- `nack_list_[seq_num] = nack_info`: an entry that is found keeps its key. -/
def assignMap (nackMap : NackMap) (seqNum : BitVec 16) (info : NackInfo) : NackMap :=
  match findIndex d isSeqNumLessThan (mapKeys nackMap) seqNum with
  | some i => nackMap.modify i fun entry => (entry.1,info)
  | none => nackMap.insertIdx (mapLowerBound d nackMap seqNum) (seqNum,info)

/-- `RemovePacketsUntilKeyFrame`. -/
def removeUntilKeyFrame (nackMap : NackMap) :
    List (BitVec 16) → Bool × NackMap × List (BitVec 16)
  | [] => (false,nackMap,[])
  | first::rest =>
      let it := mapLowerBound d nackMap first
      if it ≠ 0 then (true,nackMap.drop it,first::rest)
      else removeUntilKeyFrame nackMap rest

/-- The `while` loop of `AddPacketsToNack`. -/
def roomLoop (numNewNacks : ℕ) :
    ℕ → NackMap → List (BitVec 16) → Option (NackMap × List (BitVec 16))
  | 0,_,_ => none
  | fuel+1,nackMap,keyframes =>
      match removeUntilKeyFrame d nackMap keyframes with
      | (false,nackMap,keyframes) => some (nackMap,keyframes)
      | (true,nackMap,keyframes) =>
          if kMaxNackPackets < nackMap.length+numNewNacks then
            roomLoop numNewNacks fuel nackMap keyframes
          else some (nackMap,keyframes)

/-- The `for` loop of `AddPacketsToNack`, which stops at `seqNumEnd` only. -/
def addLoop (recovered : List (BitVec 16)) (createdAt : BitVec 16 → ℤ) (seqNumEnd : BitVec 16) :
    ℕ → BitVec 16 → NackMap → Option NackMap
  | 0,_,_ => none
  | fuel+1,seqNum,nackMap =>
      if seqNum = seqNumEnd then some nackMap
      else
        addLoop recovered createdAt seqNumEnd fuel (seqNum+1)
          (if contains d isSeqNumLessThan recovered seqNum then nackMap
          else assignMap d nackMap seqNum ⟨seqNum,seqNum,createdAt seqNum,-1,0⟩)

end Containers

/-- The loop of `GetNackBatch`: the batch and the elements that stay. -/
def batchLoop (isDue : NackInfo → Bool) (nowMs : ℤ) : NackMap → List (BitVec 16) × NackMap
  | [] => ([],[])
  | (key,info)::rest =>
      let (batch,kept) := batchLoop isDue nowMs rest
      if isDue info then
        let sent := { info with retries := info.retries+1, sentAtTime := nowMs }
        (info.seqNum::batch,if kMaxNackRetries ≤ sent.retries then kept else (key,sent)::kept)
      else (batch,(key,info)::kept)

/-! ### The calls -/

namespace MapRequester

def withoutKeys (k : MapRequester) : NackRequester :=
  ⟨k.nackMap.map Prod.snd,k.keyframeList,k.recoveredList,k.initialized,k.rttMs,k.newestSeqNum⟩

section Calls
variable (k : MapRequester) (d : Descent (BitVec 16)) (fuel : ℕ)

def addPacketsToNack (seqNumStart seqNumEnd : BitVec 16) (createdAt : BitVec 16 → ℤ) :
    Option (Bool × MapRequester) := do
  let nackMap := k.nackMap.drop
    (mapLowerBound d k.nackMap (seqNumEnd - BitVec.ofNat 16 kMaxPacketAge))
  let numNewNacks := (seqNumEnd - seqNumStart).toNat
  let room ←
    if kMaxNackPackets < nackMap.length+numNewNacks then
      roomLoop d numNewNacks fuel nackMap k.keyframeList
    else some (nackMap,k.keyframeList)
  if kMaxNackPackets < room.1.length+numNewNacks then
    some (true,{ k with nackMap := [], keyframeList := room.2 })
  else do
    let nackMap ← addLoop d k.recoveredList createdAt seqNumEnd fuel seqNumStart room.1
    some (false,{ k with nackMap := nackMap, keyframeList := room.2 })

def getNackBatch (options : NackFilterOptions) (nowMs : ℤ) : List (BitVec 16) × MapRequester :=
  let (batch,nackMap) := batchLoop (due k.withoutKeys options nowMs) nowMs k.nackMap
  (batch,{ k with nackMap := nackMap })

def onTimerTimeout (nowMs : ℤ) : List Output × MapRequester :=
  let (batch,k) := k.getNackBatch .timeOnly nowMs
  (NackRequester.requestNack batch,k)

def onReceivedPacket (seqNum : BitVec 16) (isKeyframe isRecovered : Bool)
    (createdAt : BitVec 16 → ℤ) (nowMs : ℤ) : Option (ℕ × List Output × MapRequester) :=
  if ¬k.initialized then
    let keyframeList :=
      if isKeyframe then insert d isSeqNumLessThan k.keyframeList seqNum else k.keyframeList
    some (0,[],
      { k with newestSeqNum := seqNum, keyframeList := keyframeList, initialized := true })
  else if seqNum = k.newestSeqNum then some (0,[],k)
  else if seqNumGT k.newestSeqNum seqNum then
    match findIndex d isSeqNumLessThan (mapKeys k.nackMap) seqNum with
    | none => some (0,[],k)
    | some i =>
        some ((k.nackMap[i]?.map fun entry => entry.2.retries).getD 0,[],
          { k with nackMap := k.nackMap.eraseIdx i })
  else
    let keyframeList :=
      if isKeyframe then insert d isSeqNumLessThan k.keyframeList seqNum else k.keyframeList
    let k := { k with keyframeList := eraseOld d keyframeList seqNum }
    if isRecovered then
      let recoveredList := insert d isSeqNumLessThan k.recoveredList seqNum
      some (0,[],{ k with recoveredList := eraseOld d recoveredList seqNum })
    else do
      let (keyFrameRequested,k) ← k.addPacketsToNack d fuel (k.newestSeqNum+1) seqNum createdAt
      let (batch,k) := { k with newestSeqNum := seqNum }.getNackBatch .seqNumOnly nowMs
      some (0,(if keyFrameRequested then [.requestKeyFrame] else []) ++
        NackRequester.requestNack batch,k)

def clearUpTo (seqNum : BitVec 16) : MapRequester :=
  { k with
    nackMap := k.nackMap.drop (mapLowerBound d k.nackMap seqNum)
    keyframeList := k.keyframeList.drop (lowerBound d isSeqNumLessThan k.keyframeList seqNum)
    recoveredList := k.recoveredList.drop (lowerBound d isSeqNumLessThan k.recoveredList seqNum) }

end Calls
end MapRequester

/-- A call of a public method. `createdAt` gives the times read by `AddPacketsToNack`, and
`nowMs` is the time read by `GetNackBatch`. -/
inductive Call where
  | packet (seqNum : BitVec 16) (isKeyframe isRecovered : Bool) (createdAt : BitVec 16 → ℤ)
      (nowMs : ℤ)
  | timer (nowMs : ℤ)
  | updateRtt (rttMs : ℤ)
  | clearUpTo (seqNum : BitVec 16)

/-- The calls of the observer and the requester after a call. -/
def MapRequester.call (k : MapRequester) (d : Descent (BitVec 16)) (fuel : ℕ) :
    Call → Option (List Output × MapRequester)
  | .packet seqNum isKeyframe isRecovered createdAt nowMs =>
      (k.onReceivedPacket d fuel seqNum isKeyframe isRecovered createdAt nowMs).map Prod.snd
  | .timer nowMs => some (k.onTimerTimeout nowMs)
  | .updateRtt rttMs => some ([],{ k with rttMs := rttMs })
  | .clearUpTo seqNum => some ([],k.clearUpTo d seqNum)

def NackRequester.call (r : NackRequester) (d : Descent (BitVec 16)) :
    Call → List Output × NackRequester
  | .packet seqNum isKeyframe isRecovered createdAt nowMs =>
      (r.onReceivedPacket d seqNum isKeyframe isRecovered createdAt nowMs).2
  | .timer nowMs => r.onTimerTimeout nowMs
  | .updateRtt rttMs => ([],r.updateRtt rttMs)
  | .clearUpTo seqNum => ([],r.clearUpTo d seqNum)

/-! ### Without the keys -/

/-- The map whose keys are the numbers of its entries. -/
def withKeys (nackList : List NackInfo) : NackMap :=
  nackList.map fun info => (info.seqNum,info)

def NackRequester.withKeys (r : NackRequester) : MapRequester :=
  ⟨Nack.withKeys r.nackList,r.keyframeList,r.recoveredList,r.initialized,r.rttMs,r.newestSeqNum⟩

@[simp] theorem mapKeys_withKeys (nackList : List NackInfo) :
    mapKeys (withKeys nackList) = nackKeys nackList := by
  simp [mapKeys,withKeys,nackKeys]

@[simp] theorem length_withKeys (nackList : List NackInfo) :
    (withKeys nackList).length = nackList.length :=
  List.length_map _

@[simp] theorem drop_withKeys (nackList : List NackInfo) (n : ℕ) :
    (withKeys nackList).drop n = withKeys (nackList.drop n) :=
  List.map_drop.symm

@[simp] theorem withoutKeys_withKeys (r : NackRequester) : r.withKeys.withoutKeys = r := by
  have hvalues : (withKeys r.nackList).map Prod.snd = r.nackList := by
    rw [withKeys,List.map_map]
    exact List.map_id _
  rw [MapRequester.withoutKeys,NackRequester.withKeys,hvalues]

section Loops
variable (d : Descent (BitVec 16))

@[simp] theorem mapLowerBound_withKeys (nackList : List NackInfo) (seqNum : BitVec 16) :
    mapLowerBound d (withKeys nackList) seqNum = nackLowerBound d nackList seqNum := by
  rw [mapLowerBound,mapKeys_withKeys,nackLowerBound]

/-- The key that is found is the number itself, so the element keeps the right one. -/
theorem assignMap_withKeys (nackList : List NackInfo) (info : NackInfo) :
    assignMap d (withKeys nackList) info.seqNum info = withKeys (assignNack d nackList info) := by
  rw [assignMap,assignNack,mapKeys_withKeys,mapLowerBound_withKeys]
  cases hfind : findIndex d isSeqNumLessThan (nackKeys nackList) info.seqNum with
  | none => exact (List.map_insertIdx _ _ _ _).symm
  | some i =>
      cases getElem?_of_findIndex d hfind with
      | intro x hx =>
          have hkey := isSeqNumLessThan_total hx.2.1 hx.2.2
          have hentry := hx.1
          rw [hkey,nackKeys,List.getElem?_map,Option.map_eq_some_iff] at hentry
          cases hentry with
          | intro old hold =>
              simp only [withKeys]
              rw [List.map_set,List.set_eq_modify]
              apply List.ext_getElem?
              intro j
              rw [List.getElem?_modify,List.getElem?_modify,List.getElem?_map]
              by_cases hij : i = j
              · rw [← hij,hold.1]
                simp [hold.2]
              · simp [hij]

theorem removeUntilKeyFrame_withKeys (nackList : List NackInfo) (keyframes : List (BitVec 16)) :
    removeUntilKeyFrame d (withKeys nackList) keyframes =
      ((removePacketsUntilKeyFrame d nackList keyframes).1,
        withKeys (removePacketsUntilKeyFrame d nackList keyframes).2.1,
        (removePacketsUntilKeyFrame d nackList keyframes).2.2) := by
  induction keyframes with
  | nil => rfl
  | cons first rest ih =>
      simp only [removeUntilKeyFrame,removePacketsUntilKeyFrame,mapLowerBound_withKeys,
        drop_withKeys]
      split
      · rfl
      · exact ih

/-- The loop that makes room ends before it has taken more rounds than there are elements. -/
theorem roomLoop_withKeys (numNewNacks : ℕ) {fuel : ℕ} {nackList : List NackInfo}
    (hfuel : nackList.length < fuel) (keyframes : List (BitVec 16)) :
    roomLoop d numNewNacks fuel (withKeys nackList) keyframes =
      some (withKeys (makeRoom d numNewNacks fuel nackList keyframes).1,
        (makeRoom d numNewNacks fuel nackList keyframes).2) := by
  induction fuel generalizing nackList keyframes with
  | zero => omega
  | succ fuel ih =>
      have hshorter := length_removePacketsUntilKeyFrame d nackList keyframes
      rw [roomLoop,makeRoom,removeUntilKeyFrame_withKeys]
      cases hremove : removePacketsUntilKeyFrame d nackList keyframes with
      | mk removed rest =>
          rw [hremove] at hshorter
          cases removed with
          | false => rfl
          | true =>
              have hless := hshorter rfl
              simp only [length_withKeys] at hless ⊢
              split
              · exact ih (by omega) rest.2
              · rfl

/-- The distance to the end of the range shrinks by one in each round. -/
theorem sub_add_one_toNat {seqNum seqNumEnd : BitVec 16} (h : seqNum ≠ seqNumEnd) :
    (seqNumEnd - seqNum).toNat = (seqNumEnd - (seqNum+1)).toNat+1 := by
  have hnow := sub_toNat seqNumEnd seqNum
  have hnext := sub_toNat seqNumEnd (seqNum+1)
  have hsucc : (seqNum+1).toNat = (seqNum.toNat+1)%65536 := BitVec.toNat_add seqNum 1
  have hne : seqNum.toNat ≠ seqNumEnd.toNat := fun heq => h (BitVec.eq_of_toNat_eq heq)
  have hstart := seqNum.isLt
  have hend := seqNumEnd.isLt
  omega

theorem addLoop_withKeys (recovered : List (BitVec 16)) (createdAt : BitVec 16 → ℤ)
    {fuel : ℕ} {seqNum seqNumEnd : BitVec 16} (hfuel : (seqNumEnd - seqNum).toNat < fuel)
    (nackList : List NackInfo) :
    addLoop d recovered createdAt seqNumEnd fuel seqNum (withKeys nackList) =
      some (withKeys (addRange d recovered createdAt (seqNumEnd - seqNum).toNat seqNum
        nackList)) := by
  induction fuel generalizing seqNum nackList with
  | zero => omega
  | succ fuel ih =>
      rw [addLoop]
      by_cases hend : seqNum = seqNumEnd
      · rw [if_pos hend,hend,BitVec.sub_self]
        rfl
      · have hcount := sub_add_one_toNat hend
        rw [if_neg hend,hcount,addRange]
        have hassign := assignMap_withKeys d nackList ⟨seqNum,seqNum,createdAt seqNum,-1,0⟩
        simp only at hassign
        rw [hassign,← apply_ite withKeys]
        exact ih (by omega) _

end Loops

theorem batchLoop_withKeys (r : NackRequester) (options : NackFilterOptions) (nowMs : ℤ)
    (nackList : List NackInfo) :
    batchLoop (due r options nowMs) nowMs (withKeys nackList) =
      ((nackBatch r options nowMs nackList).1,
        withKeys (nackBatch r options nowMs nackList).2) := by
  induction nackList with
  | nil => rfl
  | cons info rest ih =>
      rw [nackBatch_cons]
      simp only [withKeys,List.map_cons] at ih ⊢
      rw [batchLoop,ih]
      simp only
      split
      · split
        · rfl
        · rfl
      · rfl

/-! ### The calls with enough fuel -/

section Calls
variable {d : Descent (BitVec 16)} {fuel : ℕ} {r : NackRequester}

theorem addPacketsToNack_withKeys (hfuel : r.nackList.length+65536 ≤ fuel)
    (seqNumStart seqNumEnd : BitVec 16) (createdAt : BitVec 16 → ℤ) :
    r.withKeys.addPacketsToNack d fuel seqNumStart seqNumEnd createdAt =
      some ((r.addPacketsToNack d seqNumStart seqNumEnd createdAt).1,
        (r.addPacketsToNack d seqNumStart seqNumEnd createdAt).2.withKeys) := by
  have hcount := (seqNumEnd - seqNumStart).isLt
  simp only [MapRequester.addPacketsToNack,NackRequester.addPacketsToNack,NackRequester.withKeys,
    mapLowerBound_withKeys,drop_withKeys,length_withKeys]
  generalize hrecent : r.nackList.drop (nackLowerBound d r.nackList
    (seqNumEnd - BitVec.ofNat 16 kMaxPacketAge)) = recent
  have hlength : recent.length ≤ r.nackList.length := by
    rw [← hrecent,List.length_drop]
    omega
  rw [roomLoop_withKeys d _ (by omega),
    makeRoom_rounds d _ (show recent.length < fuel by omega) (Nat.lt_succ_self _)]
  have hadd : ∀ list, addLoop d r.recoveredList createdAt seqNumEnd fuel seqNumStart
      (withKeys list) = some (withKeys (addRange d r.recoveredList createdAt
        (seqNumEnd - seqNumStart).toNat seqNumStart list)) :=
    fun list => addLoop_withKeys d _ _ (by omega) list
  generalize (seqNumEnd - seqNumStart).toNat = count at hadd ⊢
  -- the room that is made, and whether the range fits into it
  split
  · simp only [Option.bind_eq_bind,Option.bind_some,length_withKeys,hadd]
    split
    · rfl
    · rfl
  · rename_i hfits
    simp only [Option.bind_eq_bind,Option.bind_some,length_withKeys,hadd,if_neg hfits]

theorem getNackBatch_withKeys (options : NackFilterOptions) (nowMs : ℤ) :
    r.withKeys.getNackBatch options nowMs =
      ((r.getNackBatch options nowMs).1,(r.getNackBatch options nowMs).2.withKeys) := by
  have hbatch := batchLoop_withKeys r options nowMs r.nackList
  rw [MapRequester.getNackBatch,withoutKeys_withKeys]
  simp only [NackRequester.withKeys,NackRequester.getNackBatch] at hbatch ⊢
  rw [hbatch]

theorem onReceivedPacket_withKeys (hfuel : r.nackList.length+65536 ≤ fuel) (seqNum : BitVec 16)
    (isKeyframe isRecovered : Bool) (createdAt : BitVec 16 → ℤ) (nowMs : ℤ) :
    r.withKeys.onReceivedPacket d fuel seqNum isKeyframe isRecovered createdAt nowMs =
      some ((r.onReceivedPacket d seqNum isKeyframe isRecovered createdAt nowMs).1,
        (r.onReceivedPacket d seqNum isKeyframe isRecovered createdAt nowMs).2.1,
        (r.onReceivedPacket d seqNum isKeyframe isRecovered createdAt nowMs).2.2.withKeys) := by
  rw [MapRequester.onReceivedPacket,NackRequester.onReceivedPacket]
  have hinit : r.withKeys.initialized = r.initialized := rfl
  have hnewest : r.withKeys.newestSeqNum = r.newestSeqNum := rfl
  have hkeys : mapKeys r.withKeys.nackMap = nackKeys r.nackList := mapKeys_withKeys _
  rw [hinit,hnewest,hkeys]
  split
  · rfl
  split
  · rfl
  split
  · cases findIndex d isSeqNumLessThan (nackKeys r.nackList) seqNum with
    | none => rfl
    | some i =>
        simp only [NackRequester.withKeys,withKeys]
        rw [List.getElem?_map,List.eraseIdx_map,Option.map_map]
        rfl
  · have hfields : r.withKeys.keyframeList = r.keyframeList := rfl
    rw [hfields]
    cases isRecovered with
    | true => rfl
    | false =>
        simp only [Bool.false_eq_true,if_false]
        generalize eraseOld d _ seqNum = keyframeList
        have hadd := addPacketsToNack_withKeys (d := d)
          (r := { r with keyframeList := keyframeList }) hfuel (r.newestSeqNum+1) seqNum createdAt
        generalize NackRequester.addPacketsToNack { r with keyframeList := keyframeList } d
          (r.newestSeqNum+1) seqNum createdAt = added at hadd ⊢
        have hbatch := getNackBatch_withKeys (r := { added.2 with newestSeqNum := seqNum })
          .seqNumOnly nowMs
        simp only [NackRequester.withKeys] at hadd hbatch ⊢
        rw [hadd]
        simp only [Option.bind_eq_bind,Option.bind_some,hbatch]

theorem call_withKeys (hfuel : r.nackList.length+65536 ≤ fuel) (c : Call) :
    r.withKeys.call d fuel c = some ((r.call d c).1,(r.call d c).2.withKeys) := by
  cases c with
  | packet seqNum isKeyframe isRecovered createdAt nowMs =>
      rw [MapRequester.call,onReceivedPacket_withKeys hfuel]
      rfl
  | timer nowMs =>
      have hbatch := getNackBatch_withKeys (r := r) .timeOnly nowMs
      simp only [MapRequester.call,NackRequester.call,MapRequester.onTimerTimeout,
        NackRequester.onTimerTimeout,hbatch]
  | updateRtt rttMs => rfl
  | clearUpTo seqNum =>
      simp only [MapRequester.call,NackRequester.call,MapRequester.clearUpTo,
        NackRequester.clearUpTo,NackRequester.withKeys,mapLowerBound_withKeys,drop_withKeys]

/-- A call returns when no more fuel changes its result. -/
def MapRequester.Returns (k : MapRequester) (d : Descent (BitVec 16)) (c : Call)
    (result : List Output × MapRequester) : Prop :=
  ∃ fuel, ∀ more, fuel ≤ more → k.call d more c = some result

theorem returns_withKeys (r : NackRequester) (d : Descent (BitVec 16)) (c : Call) :
    r.withKeys.Returns d c ((r.call d c).1,(r.call d c).2.withKeys) :=
  ⟨r.nackList.length+65536,fun _ hmore => call_withKeys hmore c⟩

theorem MapRequester.Returns.unique {k : MapRequester} {c : Call}
    {result other : List Output × MapRequester} (h : k.Returns d c result)
    (h' : k.Returns d c other) : result = other := by
  cases h with
  | intro fuel hfuel =>
      cases h' with
      | intro fuel' hfuel' =>
          have hresult := hfuel (max fuel fuel') (le_max_left _ _)
          rw [hfuel' (max fuel fuel') (le_max_right _ _),Option.some.injEq] at hresult
          exact hresult.symm

end Calls

/-! ### The reachable states -/

section Lengths
variable {r : NackRequester} {d : Descent (BitVec 16)}

theorem length_assignNack_le (nackList : List NackInfo) (info : NackInfo) :
    (assignNack d nackList info).length ≤ nackList.length+1 := by
  rw [assignNack]
  split
  · rw [List.length_set]
    omega
  · exact List.length_insertIdx_le_succ

theorem length_addRange_le (recovered : List (BitVec 16)) (createdAt : BitVec 16 → ℤ) (count : ℕ)
    (seqNum : BitVec 16) (nackList : List NackInfo) :
    (addRange d recovered createdAt count seqNum nackList).length ≤ nackList.length+count := by
  induction count generalizing seqNum nackList with
  | zero => exact le_rfl
  | succ count ih =>
      rw [addRange]
      split
      · have hrest := ih (seqNum+1) nackList
        omega
      · have hassign := length_assignNack_le (d := d) nackList
          ⟨seqNum,seqNum,createdAt seqNum,-1,0⟩
        have hrest := ih (seqNum+1) (assignNack d nackList ⟨seqNum,seqNum,createdAt seqNum,-1,0⟩)
        omega

/-- The range is added only when it fits. -/
theorem length_addPacketsToNack_le (seqNumStart seqNumEnd : BitVec 16)
    (createdAt : BitVec 16 → ℤ) :
    (r.addPacketsToNack d seqNumStart seqNumEnd createdAt).2.nackList.length ≤
      kMaxNackPackets := by
  simp only [NackRequester.addPacketsToNack]
  generalize r.nackList.drop _ = recent
  generalize (seqNumEnd - seqNumStart).toNat = count
  generalize (if kMaxNackPackets < recent.length+count then
    makeRoom d count (recent.length+1) recent r.keyframeList
    else (recent,r.keyframeList)) = room
  split
  · exact Nat.zero_le _
  · rename_i hfits
    exact (length_addRange_le _ _ _ _ _).trans (not_lt.mp hfits)

theorem length_getNackBatch_le (options : NackFilterOptions) (nowMs : ℤ) :
    (r.getNackBatch options nowMs).2.nackList.length ≤ r.nackList.length := by
  have hle := (nackBatch_sublist r options nowMs r.nackList).length_le
  simp only [nackKeys,List.length_map] at hle
  exact hle

theorem length_onReceivedPacket_le (h : r.nackList.length ≤ kMaxNackPackets) (seqNum : BitVec 16)
    (isKeyframe isRecovered : Bool) (createdAt : BitVec 16 → ℤ) (nowMs : ℤ) :
    (r.onReceivedPacket d seqNum isKeyframe isRecovered createdAt nowMs).2.2.nackList.length ≤
      kMaxNackPackets := by
  rw [NackRequester.onReceivedPacket]
  split
  · exact h
  split
  · exact h
  split
  · split
    · exact h
    · exact (List.eraseIdx_sublist _ _).length_le.trans h
  · simp only
    split
    · exact h
    · exact (length_getNackBatch_le _ _).trans (length_addPacketsToNack_le _ _ _)

end Lengths

/-- What every call keeps. -/
structure NackRequester.Bounded (r : NackRequester) : Prop where
  listed : r.Listed
  length_le : r.nackList.length ≤ kMaxNackPackets
  fresh : r.initialized = false → r.nackList = []

section Bounds
variable {r : NackRequester} {d : Descent (BitVec 16)}

theorem bounded_start : NackRequester.Bounded {} where
  listed := within_nil _ _ _
  length_le := Nat.zero_le _
  fresh _ := rfl

/-- A rest of the list with the same newest number. -/
theorem NackRequester.Bounded.sublist {r' : NackRequester} (h : r.Bounded)
    (hkeys : (nackKeys r'.nackList).Sublist (nackKeys r.nackList))
    (hinit : r'.initialized = r.initialized) (hnewest : r'.newestSeqNum = r.newestSeqNum) :
    r'.Bounded where
  listed := by
    rw [NackRequester.Listed,hnewest]
    exact Within.sublist h.listed hkeys
  length_le := by
    have hle := hkeys.length_le
    simp only [nackKeys,List.length_map] at hle
    exact hle.trans h.length_le
  fresh hfresh := by
    rw [hinit] at hfresh
    rw [h.fresh hfresh] at hkeys
    exact List.map_eq_nil_iff.mp (List.sublist_nil.mp hkeys)

theorem NackRequester.Bounded.packet (h : r.Bounded) (seqNum : BitVec 16)
    (isKeyframe isRecovered : Bool) (createdAt : BitVec 16 → ℤ) (nowMs : ℤ) :
    (r.onReceivedPacket d seqNum isKeyframe isRecovered createdAt nowMs).2.2.Bounded := by
  have hwindow := onReceivedPacket_window createdAt isKeyframe isRecovered nowMs (d := d)
    (m := seqNum) h.listed h.fresh
  refine ⟨hwindow.2.2,?_,fun hnot => ?_⟩
  · exact length_onReceivedPacket_le h.length_le seqNum isKeyframe isRecovered createdAt nowMs
  · exact absurd (hwindow.1.symm.trans hnot) Bool.false_ne_true.symm

theorem NackRequester.Bounded.call (h : r.Bounded) (d : Descent (BitVec 16)) (c : Call) :
    (r.call d c).2.Bounded := by
  cases c with
  | packet seqNum isKeyframe isRecovered createdAt nowMs =>
      exact h.packet seqNum isKeyframe isRecovered createdAt nowMs
  | timer nowMs => exact h.sublist (nackBatch_sublist _ _ _ _) rfl rfl
  | updateRtt rttMs => exact h.sublist (List.Sublist.refl _) rfl rfl
  | clearUpTo seqNum =>
      exact h.sublist ((List.drop_sublist _ _).map NackInfo.seqNum) rfl rfl

end Bounds

/-- The states after some calls that returned. -/
inductive MapRequester.Reached : MapRequester → Prop
  | start : Reached {}
  | call {k k' : MapRequester} {d : Descent (BitVec 16)} {c : Call} {outputs : List Output} :
      Reached k → k.Returns d c (outputs,k') → Reached k'

/-- A reached map is the list with the numbers as keys. -/
theorem MapRequester.Reached.eq_withKeys {k : MapRequester} (h : k.Reached) :
    ∃ r : NackRequester, r.Bounded ∧ k = r.withKeys := by
  induction h with
  | start => exact ⟨{},bounded_start,rfl⟩
  | @call k k' d c outputs _ hreturns ih =>
      cases ih with
      | intro r hr =>
          rw [hr.2] at hreturns
          have hresult := hreturns.unique (returns_withKeys r d c)
          rw [Prod.mk.injEq] at hresult
          exact ⟨_,hr.1.call d c,hresult.2⟩

theorem reached_call {r : NackRequester} (h : r.withKeys.Reached) (d : Descent (BitVec 16))
    (c : Call) : (r.call d c).2.withKeys.Reached :=
  h.call (returns_withKeys r d c)

/-! ### The order of the keys -/

/-- The comparator orders numbers around a base strictly and totally. -/
theorem isStrictTotalOrder_of_bounds {n : BitVec 16} {lo hi : ℤ} {keys : List (BitVec 16)}
    (h : ∀ x ∈ keys, lo ≤ serialOffset x n ∧ serialOffset x n < hi) (hnarrow : hi - lo ≤ 32768) :
    IsStrictTotalOrder {x // x ∈ keys} fun x y => isSeqNumLessThan x.1 y.1 = true := by
  have hiff : ∀ x y : {x // x ∈ keys}, isSeqNumLessThan x.1 y.1 = true ↔
      serialOffset x.1 n < serialOffset y.1 n := by
    intro x y
    have hx := h x.1 x.2
    have hy := h y.1 y.2
    exact isSeqNumLessThan_iff (by omega) (by omega)
  exact {
    trichotomous := by
      intro x y hxy hyx
      rw [Bool.not_eq_true] at hxy hyx
      exact Subtype.ext (isSeqNumLessThan_total hxy hyx)
    irrefl := by
      intro x
      rw [hiff]
      exact lt_irrefl _
    trans := by
      intro x y z hxy hyz
      rw [hiff] at hxy hyz ⊢
      exact hxy.trans hyz }

/-- The map is small, its keys are in the window behind the newest number, where the
comparator is an order, and each is the number of its entry. -/
structure MapRequester.Ordered (k : MapRequester) : Prop where
  length_le : k.nackMap.length ≤ kMaxNackPackets
  window : ∀ x ∈ mapKeys k.nackMap, ∃ j : ℕ, 1 ≤ j ∧ j ≤ kMaxPacketAge ∧
    x = k.newestSeqNum - BitVec.ofNat 16 j
  order : IsStrictTotalOrder {x // x ∈ mapKeys k.nackMap}
    fun x y => isSeqNumLessThan x.1 y.1 = true
  sorted : (mapKeys k.nackMap).Pairwise fun x y => isSeqNumLessThan x y = true
  key_eq : ∀ entry ∈ k.nackMap, entry.1 = entry.2.seqNum

theorem eq_sub_of_serialOffset {x n : BitVec 16} {j : ℕ} (hj : j ≤ kMaxPacketAge)
    (h : serialOffset x n = -(j : ℤ)) : x = n - BitVec.ofNat 16 j := by
  simp only [kMaxPacketAge] at hj
  have hspec := serialOffset_spec x n
  have hsub := sub_toNat n (BitVec.ofNat 16 j)
  have hnumber : (BitVec.ofNat 16 j).toNat = j := by
    rw [BitVec.toNat_ofNat]
    omega
  apply BitVec.eq_of_toNat_eq
  omega

theorem NackRequester.Bounded.ordered {r : NackRequester} (h : r.Bounded) :
    r.withKeys.Ordered where
  length_le := by
    rw [NackRequester.withKeys,length_withKeys]
    exact h.length_le
  window x hx := by
    rw [NackRequester.withKeys,mapKeys_withKeys] at hx
    have hbounds := h.listed.bounds x hx
    refine ⟨(-serialOffset x r.newestSeqNum).toNat,by omega,by omega,?_⟩
    apply eq_sub_of_serialOffset (n := r.newestSeqNum)
    · omega
    · omega
  order := by
    rw [NackRequester.withKeys,mapKeys_withKeys]
    exact isStrictTotalOrder_of_bounds h.listed.bounds (by decide)
  sorted := by
    rw [NackRequester.withKeys,mapKeys_withKeys]
    apply h.listed.sorted.imp_of_mem
    intro x y hx hy hxy
    have hbx := h.listed.bounds x hx
    have hby := h.listed.bounds y hy
    simp only [kMaxPacketAge] at hbx hby
    rw [isSeqNumLessThan_iff (n := r.newestSeqNum) (by omega) (by omega)]
    exact hxy
  key_eq entry hentry := by
    rw [NackRequester.withKeys,Nack.withKeys,List.mem_map] at hentry
    cases hentry with
    | intro info hinfo => rw [← hinfo.2]

/-- In every reachable state the map is in order and every call returns; so does
`AddPacketsToNack`, whatever keyframes and range it is given. -/
theorem reached_ordered {k : MapRequester} (h : k.Reached) :
    k.Ordered ∧ (∀ d c, ∃ result, k.Returns d c result) ∧
      ∀ d keyframeList seqNumStart seqNumEnd createdAt, ∃ fuel result, ∀ more, fuel ≤ more →
        { k with keyframeList := keyframeList }.addPacketsToNack d more seqNumStart seqNumEnd
          createdAt = some result := by
  cases h.eq_withKeys with
  | intro r hr =>
      rw [hr.2]
      refine ⟨hr.1.ordered,fun d c => ⟨_,returns_withKeys r d c⟩,?_⟩
      intro d keyframeList seqNumStart seqNumEnd createdAt
      exact ⟨r.nackList.length+65536,_,fun more hmore =>
        addPacketsToNack_withKeys (r := { r with keyframeList := keyframeList }) hmore seqNumStart
          seqNumEnd createdAt⟩

/-- Packet 3 comes after packet 65534, and a recovered packet ahead of both changes
nothing in the map. -/
theorem reached_ordered_gap :
    ∃ k : MapRequester, k.Reached ∧ mapKeys k.nackMap = [65535,0,1,2] ∧ k.Ordered := by
  have hfirst := reached_call (r := {}) .start .leftmost (.packet 65534 true false (fun _ => 7) 7)
  have hgap := reached_call hfirst .leftmost (.packet 3 false false (fun _ => 8) 8)
  have hrecovered := reached_call hgap .leftmost (.packet 5 false true (fun _ => 8) 8)
  exact ⟨_,hrecovered,by decide +kernel,(reached_ordered hrecovered).1⟩

end Ylrtc.Nack
