import Ylrtc.Base.SequenceNumber
import Ylrtc.Lib.SearchTree

/-!
# Requests for lost packets

`NackRequester` of `transport/nack_requester.cpp`. Its map and sets are ordered by
`IsSeqNumLessThan`, which is no order on numbers half the range apart: they are lists
of keys in the order of the tree, searched by a descent that the caller supplies.

The server never sets `backoff_settings_`.
-/
namespace Ylrtc.Nack
open SearchTree SequenceNumber

abbrev kMaxPacketAge : ℕ := 10000
abbrev kMaxNackPackets : ℕ := 1000
abbrev kDefaultRttMs : ℤ := 100
abbrev kMaxNackRetries : ℕ := 10
abbrev kSendNackDelayMs : ℤ := 10

def isSeqNumLessThan (a b : BitVec 16) : Bool := seqNumGT b a

/-- An entry of `nack_list_`; its key is its `seqNum`. -/
structure NackInfo where
  seqNum : BitVec 16
  sendAtSeqNum : BitVec 16
  createdAtTime : ℤ
  sentAtTime : ℤ := -1
  retries : ℕ := 0

inductive NackFilterOptions where
  | seqNumOnly
  | timeOnly
  | seqNumAndTime
  deriving DecidableEq

structure NackRequester where
  nackList : List NackInfo := []
  keyframeList : List (BitVec 16) := []
  recoveredList : List (BitVec 16) := []
  initialized : Bool := false
  rttMs : ℤ := kDefaultRttMs
  newestSeqNum : BitVec 16 := 0

/-- A call of the observer. -/
inductive Output where
  | requestNack (nackList : List (BitVec 16))
  | requestKeyFrame
  deriving DecidableEq

def nackKeys (nackList : List NackInfo) : List (BitVec 16) := nackList.map NackInfo.seqNum

section Containers
variable (d : Descent (BitVec 16))

def nackLowerBound (nackList : List NackInfo) (seqNum : BitVec 16) : ℕ :=
  lowerBound d isSeqNumLessThan (nackKeys nackList) seqNum

/-- `nack_list_[seq_num] = nack_info`. -/
def assignNack (nackList : List NackInfo) (info : NackInfo) : List NackInfo :=
  match findIndex d isSeqNumLessThan (nackKeys nackList) info.seqNum with
  | some i => nackList.set i info
  | none => nackList.insertIdx (nackLowerBound d nackList info.seqNum) info

/-- Keys too old for a number are erased. -/
def eraseOld (keys : List (BitVec 16)) (seqNum : BitVec 16) : List (BitVec 16) :=
  keys.drop (lowerBound d isSeqNumLessThan keys (seqNum - BitVec.ofNat 16 kMaxPacketAge))

end Containers

/-- The condition of one entry in `GetNackBatch`. -/
def due (r : NackRequester) (options : NackFilterOptions) (nowMs : ℤ) (info : NackInfo) : Bool :=
  let considerSeqNum := options ≠ .timeOnly
  let considerTimestamp := options ≠ .seqNumOnly
  let delayTimedOut := nowMs - info.createdAtTime ≥ kSendNackDelayMs
  let nackOnRttPassed := nowMs - info.sentAtTime ≥ r.rttMs
  let nackOnSeqNumPassed := info.sentAtTime = -1 ∧ seqNumGE r.newestSeqNum info.sendAtSeqNum
  delayTimedOut ∧ (considerSeqNum ∧ nackOnSeqNumPassed ∨ considerTimestamp ∧ nackOnRttPassed)

/-- The loop of `GetNackBatch`: the batch and the entries that stay. -/
def nackBatch (r : NackRequester) (options : NackFilterOptions) (nowMs : ℤ) :
    List NackInfo → List (BitVec 16) × List NackInfo
  | [] => ([],[])
  | info::rest =>
      let (batch,kept) := nackBatch r options nowMs rest
      if due r options nowMs info then
        let sent := { info with retries := info.retries+1, sentAtTime := nowMs }
        (info.seqNum::batch,if kMaxNackRetries ≤ sent.retries then kept else sent::kept)
      else (batch,info::kept)

/-- The loop of `RemovePacketsUntilKeyFrame` over the keyframes: whether packets were
removed, and both lists. -/
def removePacketsUntilKeyFrame (d : Descent (BitVec 16)) (nackList : List NackInfo) :
    List (BitVec 16) → Bool × List NackInfo × List (BitVec 16)
  | [] => (false,nackList,[])
  | first::rest =>
      let it := nackLowerBound d nackList first
      if it ≠ 0 then (true,nackList.drop it,first::rest)
      else removePacketsUntilKeyFrame d nackList rest

/-- The loop of `AddPacketsToNack` that makes room. Each round but the last removes an
entry, so one round more than there are entries is enough. -/
def makeRoom (d : Descent (BitVec 16)) (numNewNacks : ℕ) :
    ℕ → List NackInfo → List (BitVec 16) → List NackInfo × List (BitVec 16)
  | 0,nackList,keyframes => (nackList,keyframes)
  | n+1,nackList,keyframes =>
      match removePacketsUntilKeyFrame d nackList keyframes with
      | (false,nackList,keyframes) => (nackList,keyframes)
      | (true,nackList,keyframes) =>
          if kMaxNackPackets < nackList.length+numNewNacks then
            makeRoom d numNewNacks n nackList keyframes
          else (nackList,keyframes)

/-- The last loop of `AddPacketsToNack`, over `count` numbers. -/
def addRange (d : Descent (BitVec 16)) (recovered : List (BitVec 16)) (createdAt : BitVec 16 → ℤ) :
    ℕ → BitVec 16 → List NackInfo → List NackInfo
  | 0,_,nackList => nackList
  | n+1,seqNum,nackList =>
      addRange d recovered createdAt n (seqNum+1)
        (if contains d isSeqNumLessThan recovered seqNum then nackList
        else assignNack d nackList ⟨seqNum,seqNum,createdAt seqNum,-1,0⟩)

namespace NackRequester

/-- Whether a keyframe is requested, and the requester after it. `createdAt` gives the
times that the loop reads. -/
def addPacketsToNack (r : NackRequester) (d : Descent (BitVec 16)) (seqNumStart seqNumEnd : BitVec 16)
    (createdAt : BitVec 16 → ℤ) : Bool × NackRequester :=
  let nackList := r.nackList.drop
    (nackLowerBound d r.nackList (seqNumEnd - BitVec.ofNat 16 kMaxPacketAge))
  let numNewNacks := (seqNumEnd - seqNumStart).toNat
  let (nackList,keyframeList) :=
    if kMaxNackPackets < nackList.length+numNewNacks then
      makeRoom d numNewNacks (nackList.length+1) nackList r.keyframeList
    else (nackList,r.keyframeList)
  if kMaxNackPackets < nackList.length+numNewNacks then
    (true,{ r with nackList := [], keyframeList := keyframeList })
  else
    let nackList := addRange d r.recoveredList createdAt numNewNacks seqNumStart nackList
    (false,{ r with nackList := nackList, keyframeList := keyframeList })

def getNackBatch (r : NackRequester) (options : NackFilterOptions) (nowMs : ℤ) :
    List (BitVec 16) × NackRequester :=
  let (batch,nackList) := nackBatch r options nowMs r.nackList
  (batch,{ r with nackList := nackList })

def requestNack (batch : List (BitVec 16)) : List Output :=
  if batch.isEmpty then [] else [.requestNack batch]

def onTimerTimeout (r : NackRequester) (nowMs : ℤ) : List Output × NackRequester :=
  let (batch,r) := r.getNackBatch .timeOnly nowMs
  (requestNack batch,r)

def updateRtt (r : NackRequester) (rttMs : ℤ) : NackRequester := { r with rttMs := rttMs }

/-- No part of the server calls it. -/
def clearUpTo (r : NackRequester) (d : Descent (BitVec 16)) (seqNum : BitVec 16) :
    NackRequester :=
  { r with
    nackList := r.nackList.drop (nackLowerBound d r.nackList seqNum)
    keyframeList := r.keyframeList.drop (lowerBound d isSeqNumLessThan r.keyframeList seqNum)
    recoveredList := r.recoveredList.drop (lowerBound d isSeqNumLessThan r.recoveredList seqNum) }

/-- The number of requests sent for the packet, the calls of the observer and the
requester after the packet. -/
def onReceivedPacket (r : NackRequester) (d : Descent (BitVec 16)) (seqNum : BitVec 16)
    (isKeyframe isRecovered : Bool) (createdAt : BitVec 16 → ℤ) (nowMs : ℤ) :
    ℕ × List Output × NackRequester :=
  if ¬r.initialized then
    let keyframeList :=
      if isKeyframe then insert d isSeqNumLessThan r.keyframeList seqNum else r.keyframeList
    (0,[],{ r with newestSeqNum := seqNum, keyframeList := keyframeList, initialized := true })
  else if seqNum = r.newestSeqNum then (0,[],r)
  else if seqNumGT r.newestSeqNum seqNum then
    match findIndex d isSeqNumLessThan (nackKeys r.nackList) seqNum with
    | none => (0,[],r)
    | some i =>
        ((r.nackList[i]?.map NackInfo.retries).getD 0,[],
          { r with nackList := r.nackList.eraseIdx i })
  else
    let keyframeList :=
      if isKeyframe then insert d isSeqNumLessThan r.keyframeList seqNum else r.keyframeList
    let r := { r with keyframeList := eraseOld d keyframeList seqNum }
    if isRecovered then
      let recoveredList := insert d isSeqNumLessThan r.recoveredList seqNum
      (0,[],{ r with recoveredList := eraseOld d recoveredList seqNum })
    else
      let (keyFrameRequested,r) := r.addPacketsToNack d (r.newestSeqNum+1) seqNum createdAt
      let (batch,r) := { r with newestSeqNum := seqNum }.getNackBatch .seqNumOnly nowMs
      (0,(if keyFrameRequested then [.requestKeyFrame] else []) ++ requestNack batch,r)

end NackRequester
end Ylrtc.Nack
