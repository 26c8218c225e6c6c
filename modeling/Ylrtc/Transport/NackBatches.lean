import Mathlib.Data.List.Nodup
import Ylrtc.Lib.Run
import Ylrtc.Transport.NackKeys

/-!
# The batches of a run

A log of the batches given to the observer, which names packets by unwrapped numbers. The
retries of an entry count the batches that name its packet, its send time is the last of
them, and a packet once passed by the newest number is never inserted again. So each
packet is named a limited number of times, with an RTT in between.
-/
namespace Ylrtc.Nack
open Run SearchTree SequenceNumber

/-- A batch: the time read for it, the RTT in force, and the packets it names. -/
structure Batch where
  nowMs : ℤ
  rttMs : ℤ
  packets : List ℤ
  deriving DecidableEq

/-! ### The loop over the entries -/

section Loop
variable {r : NackRequester} {options : NackFilterOptions} {nowMs : ℤ} {nackList : List NackInfo}

/-- The batch names the entries that are due. -/
theorem nackBatch_fst (nackList : List NackInfo) :
    (nackBatch r options nowMs nackList).1 =
      (nackList.filter (due r options nowMs)).map NackInfo.seqNum := by
  induction nackList with
  | nil => rfl
  | cons info rest ih =>
      rw [nackBatch_cons,List.filter_cons]
      split
      · rw [List.map_cons,ih]
      · exact ih

/-- An entry afterwards was not due, or it is one that was, sent once more. -/
theorem mem_nackBatch_snd {info : NackInfo}
    (h : info ∈ (nackBatch r options nowMs nackList).2) :
    info ∈ nackList ∧ due r options nowMs info = false ∨
      ∃ old ∈ nackList, due r options nowMs old = true ∧ old.retries+1 < kMaxNackRetries ∧
        info = { old with retries := old.retries+1, sentAtTime := nowMs } := by
  induction nackList with
  | nil => exact absurd h List.not_mem_nil
  | cons first rest ih =>
      have hrest : info ∈ (nackBatch r options nowMs rest).2 →
          info ∈ first::rest ∧ due r options nowMs info = false ∨
            ∃ old ∈ first::rest, due r options nowMs old = true ∧
              old.retries+1 < kMaxNackRetries ∧
              info = { old with retries := old.retries+1, sentAtTime := nowMs } := by
        intro hmem
        cases ih hmem with
        | inl hkept => exact .inl ⟨List.mem_cons_of_mem _ hkept.1,hkept.2⟩
        | inr hsent =>
            cases hsent with
            | intro old hold => exact .inr ⟨old,List.mem_cons_of_mem _ hold.1,hold.2⟩
      rw [nackBatch_cons] at h
      split at h
      · rename_i hdue
        simp only at h
        split at h
        · exact hrest h
        · rename_i hretries
          rw [List.mem_cons] at h
          cases h with
          | inl hfirst =>
              exact .inr ⟨first,List.mem_cons_self,hdue,not_le.mp hretries,hfirst⟩
          | inr hlater => exact hrest hlater
      · rename_i hdue
        rw [List.mem_cons] at h
        cases h with
        | inl hfirst =>
            rw [hfirst]
            exact .inl ⟨List.mem_cons_self,Bool.not_eq_true _ ▸ hdue⟩
        | inr hlater => exact hrest hlater

/-- A batch that names nothing leaves the list as it is. -/
theorem nackBatch_snd_of_nil (h : (nackBatch r options nowMs nackList).1 = []) :
    (nackBatch r options nowMs nackList).2 = nackList := by
  induction nackList with
  | nil => rfl
  | cons info rest ih =>
      rw [nackBatch_cons] at h ⊢
      split at h
      · exact absurd h (List.cons_ne_nil _ _)
      · rename_i hdue
        rw [if_neg hdue]
        simp only
        rw [ih h]

/-- An entry is due when it was never sent or the RTT has passed since. -/
theorem sentAtTime_of_due {info : NackInfo} (h : due r options nowMs info = true) :
    info.sentAtTime = -1 ∨ r.rttMs ≤ nowMs - info.sentAtTime := by
  simp only [due,decide_eq_true_eq] at h
  cases h.2 with
  | inl hseqNum => exact .inl hseqNum.2.1
  | inr htime => exact .inr htime.2

end Loop

/-! ### Batches and entries -/

/-- How many batches name a packet. -/
def timesNamed (batches : List Batch) (u : ℤ) : ℕ := batches.countP fun b => u ∈ b.packets

structure Paced (batches : List Batch) : Prop where
  timesNamed_le : ∀ u, timesNamed batches u ≤ kMaxNackRetries
  nodup : ∀ b ∈ batches, b.packets.Nodup
  elapsed : batches.Pairwise fun first second => ∀ u ∈ first.packets, u ∈ second.packets →
    second.rttMs ≤ second.nowMs - first.nowMs

/-- What the entries know of the batches so far. -/
structure Counted (number : BitVec 16 → ℤ) (nackList : List NackInfo) (batches : List Batch) :
    Prop where
  retries_eq : ∀ info ∈ nackList, info.retries = timesNamed batches (number info.seqNum)
  retries_lt : ∀ info ∈ nackList, info.retries < kMaxNackRetries
  sent : ∀ info ∈ nackList, ∀ b ∈ batches, number info.seqNum ∈ b.packets →
    b.nowMs ≤ info.sentAtTime

section Batches
variable {number : BitVec 16 → ℤ} {nackList : List NackInfo} {batches : List Batch}

theorem paced_nil : Paced [] where
  timesNamed_le _ := Nat.zero_le _
  nodup _ h := absurd h List.not_mem_nil
  elapsed := .nil

theorem counted_nil (number : BitVec 16 → ℤ) (batches : List Batch) :
    Counted number [] batches :=
  ⟨fun _ h => absurd h List.not_mem_nil,fun _ h => absurd h List.not_mem_nil,
    fun _ h => absurd h List.not_mem_nil⟩

theorem Counted.sublist {rest : List NackInfo} (h : Counted number nackList batches)
    (hrest : rest.Sublist nackList) : Counted number rest batches where
  retries_eq info hinfo := h.retries_eq info (hrest.subset hinfo)
  retries_lt info hinfo := h.retries_lt info (hrest.subset hinfo)
  sent info hinfo := h.sent info (hrest.subset hinfo)

theorem timesNamed_append (batches : List Batch) (b : Batch) (u : ℤ) :
    timesNamed (batches++[b]) u = timesNamed batches u + if u ∈ b.packets then 1 else 0 := by
  simp only [timesNamed,List.countP_append,List.countP_singleton,decide_eq_true_eq]

theorem timesNamed_eq_zero {u : ℤ} (h : ∀ b ∈ batches, u ∉ b.packets) :
    timesNamed batches u = 0 := by
  rw [timesNamed,List.countP_eq_zero]
  intro b hb
  rw [decide_eq_true_eq]
  exact h b hb

variable {r : NackRequester} {options : NackFilterOptions} {nowMs : ℤ}

/-- Old entries keep their packets, and new ones stand for packets that were never named. -/
theorem Counted.extend {number' : BitVec 16 → ℤ} {nackList' : List NackInfo}
    (h : Counted number nackList batches)
    (hcases : ∀ info ∈ nackList',
      info ∈ nackList ∧ number' info.seqNum = number info.seqNum ∨
        info.retries = 0 ∧ ∀ b ∈ batches, number' info.seqNum ∉ b.packets) :
    Counted number' nackList' batches where
  retries_eq info hinfo := by
    cases hcases info hinfo with
    | inl hold =>
        rw [hold.2]
        exact h.retries_eq info hold.1
    | inr hnew => rw [hnew.1,timesNamed_eq_zero hnew.2]
  retries_lt info hinfo := by
    cases hcases info hinfo with
    | inl hold => exact h.retries_lt info hold.1
    | inr hnew =>
        rw [hnew.1]
        decide
  sent info hinfo b hb hmem := by
    cases hcases info hinfo with
    | inl hold =>
        rw [hold.2] at hmem
        exact h.sent info hold.1 b hb hmem
    | inr hnew => exact absurd hmem (hnew.2 b hb)

/-- The batch of a list, by unwrapped numbers. -/
def listBatch (number : BitVec 16 → ℤ) (r : NackRequester) (options : NackFilterOptions)
    (nowMs : ℤ) (nackList : List NackInfo) : Batch :=
  ⟨nowMs,r.rttMs,(nackBatch r options nowMs nackList).1.map number⟩

theorem mem_listBatch_iff {u : ℤ} :
    u ∈ (listBatch number r options nowMs nackList).packets ↔
      ∃ info ∈ nackList, due r options nowMs info = true ∧ number info.seqNum = u := by
  rw [listBatch,nackBatch_fst,List.map_map,List.mem_map]
  constructor
  · intro h
    cases h with
    | intro info hinfo =>
        have hfilter := List.mem_filter.mp hinfo.1
        exact ⟨info,hfilter.1,hfilter.2,hinfo.2⟩
  · intro h
    cases h with
    | intro info hinfo => exact ⟨info,List.mem_filter.mpr ⟨hinfo.1,hinfo.2.1⟩,hinfo.2.2⟩

theorem Paced.append (h : Paced batches) (hcounted : Counted number nackList batches)
    (htimes : ∀ b ∈ batches, 0 ≤ b.nowMs)
    (hdistinct : (nackList.map fun info => number info.seqNum).Nodup) :
    Paced (batches++[listBatch number r options nowMs nackList]) where
  timesNamed_le u := by
    rw [timesNamed_append]
    split
    · rename_i hmem
      cases mem_listBatch_iff.mp hmem with
      | intro info hinfo =>
          have heq := hcounted.retries_eq info hinfo.1
          have hlt := hcounted.retries_lt info hinfo.1
          rw [hinfo.2.2] at heq
          omega
    · exact h.timesNamed_le u
  nodup b hb := by
    rw [List.mem_append,List.mem_singleton] at hb
    cases hb with
    | inl hold => exact h.nodup b hold
    | inr hnew =>
        rw [hnew,listBatch,nackBatch_fst,List.map_map]
        exact hdistinct.sublist (List.filter_sublist.map _)
  elapsed := by
    rw [List.pairwise_append]
    refine ⟨h.elapsed,List.pairwise_singleton _ _,?_⟩
    intro first hfirst second hsecond u hu hu'
    rw [List.mem_singleton] at hsecond
    rw [hsecond] at hu' ⊢
    cases mem_listBatch_iff.mp hu' with
    | intro info hinfo =>
        have hsent := hcounted.sent info hinfo.1 first hfirst (hinfo.2.2 ▸ hu)
        have hstart := htimes first hfirst
        simp only [listBatch]
        cases sentAtTime_of_due hinfo.2.1 with
        | inl hnever => omega
        | inr hpassed => omega

theorem Counted.append (hcounted : Counted number nackList batches)
    (htimes : ∀ b ∈ batches, b.nowMs ≤ nowMs)
    (hdistinct : (nackList.map fun info => number info.seqNum).Nodup) :
    Counted number (nackBatch r options nowMs nackList).2
      (batches++[listBatch number r options nowMs nackList]) := by
  have hnotdue : ∀ info ∈ nackList, due r options nowMs info = false →
      number info.seqNum ∉ (listBatch number r options nowMs nackList).packets := by
    intro info hinfo hdue hmem
    cases mem_listBatch_iff.mp hmem with
    | intro other hother =>
        have heq := List.inj_on_of_nodup_map hdistinct hother.1 hinfo hother.2.2
        rw [heq,hdue] at hother
        exact Bool.false_ne_true hother.2.1
  have hdue : ∀ info ∈ nackList, due r options nowMs info = true →
      number info.seqNum ∈ (listBatch number r options nowMs nackList).packets :=
    fun info hinfo h => mem_listBatch_iff.mpr ⟨info,hinfo,h,rfl⟩
  constructor
  · intro info hinfo
    rw [timesNamed_append]
    cases mem_nackBatch_snd hinfo with
    | inl hkept =>
        rw [if_neg (hnotdue info hkept.1 hkept.2)]
        exact hcounted.retries_eq info hkept.1
    | inr hsent =>
        cases hsent with
        | intro old hold =>
            rw [hold.2.2.2,if_pos (hdue old hold.1 hold.2.1),← hcounted.retries_eq old hold.1]
  · intro info hinfo
    cases mem_nackBatch_snd hinfo with
    | inl hkept => exact hcounted.retries_lt info hkept.1
    | inr hsent =>
        cases hsent with
        | intro old hold =>
            rw [hold.2.2.2]
            exact hold.2.2.1
  · intro info hinfo b hb hmem
    rw [List.mem_append,List.mem_singleton] at hb
    cases mem_nackBatch_snd hinfo with
    | inl hkept =>
        cases hb with
        | inl hold => exact hcounted.sent info hkept.1 b hold hmem
        | inr hnew =>
            rw [hnew] at hmem
            exact absurd hmem (hnotdue info hkept.1 hkept.2)
    | inr hsent =>
        cases hsent with
        | intro old hold =>
            rw [hold.2.2.2]
            cases hb with
            | inl hbefore => exact htimes b hbefore
            | inr hnew =>
                rw [hnew]
                exact le_rfl

end Batches

/-! ### The log of a run -/

/-- The time that `GetNackBatch` reads in a call. -/
def Call.nowMs : Call → Option ℤ
  | .packet _ _ _ _ nowMs => some nowMs
  | .timer nowMs => some nowMs
  | .updateRtt _ => none
  | .clearUpTo _ => none

/-- `newest` is `newest_seq_num_` unwrapped, and `clock` the time read last. -/
structure Log where
  requester : NackRequester := {}
  newest : ℤ := 0
  clock : ℤ := 0
  batches : List Batch := []

/-- What the observer is given, by unwrapped numbers. -/
def batchOf (nowMs rttMs : ℤ) (number : BitVec 16 → ℤ) : Output → Option Batch
  | .requestNack names => some ⟨nowMs,rttMs,names.map number⟩
  | .requestKeyFrame => none

namespace Log

/-- The packet that a number stands for. -/
def number (l : Log) (x : BitVec 16) : ℤ := l.newest + serialOffset x l.requester.newestSeqNum

/-- A call on trees of some shape. The newest number is unwrapped from call to call as
`SeqNumUnwrapper` does it. -/
def step (l : Log) (e : Descent (BitVec 16) × Call) : Log :=
  let after := l.requester.call e.1 e.2
  let newest :=
    if l.requester.initialized then
      l.newest + serialOffset after.2.newestSeqNum l.requester.newestSeqNum
    else after.2.newestSeqNum.toNat
  let number := fun x => newest + serialOffset x after.2.newestSeqNum
  let clock := e.2.nowMs.getD l.clock
  ⟨after.2,newest,clock,l.batches ++ after.1.filterMap (batchOf clock after.2.rttMs number)⟩

/-- The entries count the batches, and all named packets are behind the newest one. -/
structure Sound (l : Log) : Prop where
  bounded : l.requester.Bounded
  counted : Counted l.number l.requester.nackList l.batches
  paced : Paced l.batches
  passed : ∀ b ∈ l.batches, ∀ u ∈ b.packets, u < l.newest
  times : ∀ b ∈ l.batches, 0 ≤ b.nowMs ∧ b.nowMs ≤ l.clock
  clock_nonneg : 0 ≤ l.clock
  fresh : l.requester.initialized = false → l.batches = []

section Steps
variable {l : Log}

/-- Nothing is listed, and nothing was named. -/
theorem sound_of_nil {r : NackRequester} {newest clock : ℤ} (hlist : r.nackList = [])
    (hclock : 0 ≤ clock) : Sound ⟨r,newest,clock,[]⟩ where
  bounded := by
    refine ⟨?_,?_,fun _ => hlist⟩
    · rw [NackRequester.Listed,hlist]
      exact within_nil _ _ _
    · rw [hlist]
      exact Nat.zero_le _
  counted := by
    rw [hlist]
    exact counted_nil _ _
  paced := paced_nil
  passed _ h := absurd h List.not_mem_nil
  times _ h := absurd h List.not_mem_nil
  clock_nonneg := hclock
  fresh _ := rfl

theorem Sound.distinct (h : Sound l) :
    (l.requester.nackList.map fun info => l.number info.seqNum).Nodup := by
  have hsorted := h.bounded.listed.sorted
  rw [nackKeys,List.pairwise_map] at hsorted
  rw [List.Nodup,List.pairwise_map]
  apply hsorted.imp
  intro x y hxy
  simp only [number]
  omega

/-- Entries are dropped, and time passes. -/
theorem Sound.shrink (h : Sound l) {r : NackRequester} {clock : ℤ}
    (hlist : r.nackList.Sublist l.requester.nackList)
    (hinit : r.initialized = l.requester.initialized)
    (hnewest : r.newestSeqNum = l.requester.newestSeqNum) (hclock : l.clock ≤ clock) :
    Sound { l with requester := r, clock := clock } where
  bounded := h.bounded.sublist (hlist.map NackInfo.seqNum) hinit hnewest
  counted := by
    have hnumber : number { l with requester := r, clock := clock } = l.number := by
      funext x
      simp only [number,hnewest]
    rw [hnumber]
    exact h.counted.sublist hlist
  paced := h.paced
  passed := h.passed
  times b hb := ⟨(h.times b hb).1,(h.times b hb).2.trans hclock⟩
  clock_nonneg := h.clock_nonneg.trans hclock
  fresh hfresh := h.fresh (hinit.symm.trans hfresh)

theorem getNackBatch_eq (r : NackRequester) (options : NackFilterOptions) (nowMs : ℤ) :
    r.getNackBatch options nowMs = ((nackBatch r options nowMs r.nackList).1,
      { r with nackList := (nackBatch r options nowMs r.nackList).2 }) := rfl

/-- A call without a batch. -/
theorem Sound.quiet (h : Sound l) {r : NackRequester} {clock : ℤ}
    (hlist : r.nackList.Sublist l.requester.nackList)
    (hinit : r.initialized = l.requester.initialized)
    (hnewest : r.newestSeqNum = l.requester.newestSeqNum) (hclock : l.clock ≤ clock) :
    Sound ⟨r,
      if l.requester.initialized then
        l.newest + serialOffset r.newestSeqNum l.requester.newestSeqNum
      else r.newestSeqNum.toNat,
      clock,l.batches++[]⟩ := by
  cases hstate : l.requester.initialized with
  | false =>
      rw [h.bounded.fresh hstate,List.sublist_nil] at hlist
      rw [h.fresh hstate]
      exact sound_of_nil hlist (h.clock_nonneg.trans hclock)
  | true =>
      have hsame : serialOffset r.newestSeqNum l.requester.newestSeqNum = 0 :=
        eq_iff_serialOffset_zero.mp hnewest
      rw [if_pos rfl,hsame,add_zero,List.append_nil]
      exact h.shrink hlist hinit hnewest hclock

/-- A batch is made, and given to the observer unless it is empty. -/
theorem Sound.batch (h : Sound l) (options : NackFilterOptions) {nowMs : ℤ}
    (hclock : l.clock ≤ nowMs) :
    Sound {
      requester := (l.requester.getNackBatch options nowMs).2
      newest := l.newest
      clock := nowMs
      batches := l.batches ++ (NackRequester.requestNack
        (l.requester.getNackBatch options nowMs).1).filterMap
          (batchOf nowMs l.requester.rttMs l.number) } := by
  rw [getNackBatch_eq]
  simp only
  cases hbatch : (nackBatch l.requester options nowMs l.requester.nackList).1 with
  | nil =>
      have hrest := h.shrink (r := (l.requester.getNackBatch options nowMs).2)
        (by rw [getNackBatch_eq,nackBatch_snd_of_nil hbatch]) rfl rfl hclock
      rw [getNackBatch_eq] at hrest
      simp only [NackRequester.requestNack,List.isEmpty_nil,if_true,List.filterMap_nil,
        List.append_nil]
      exact hrest
  | cons first rest =>
      have hgiven : (NackRequester.requestNack (first::rest)).filterMap
          (batchOf nowMs l.requester.rttMs l.number) =
            [listBatch l.number l.requester options nowMs l.requester.nackList] := by
        rw [listBatch,hbatch]
        rfl
      rw [hgiven]
      refine ⟨?_,?_,?_,?_,?_,?_,?_⟩
      · exact h.bounded.sublist (nackBatch_sublist _ _ _ _) rfl rfl
      · exact h.counted.append (fun b hb => (h.times b hb).2.trans hclock) h.distinct
      · exact h.paced.append h.counted (fun b hb => (h.times b hb).1) h.distinct
      · intro b hb u hu
        rw [List.mem_append,List.mem_singleton] at hb
        cases hb with
        | inl hold => exact h.passed b hold u hu
        | inr hnew =>
            rw [hnew,mem_listBatch_iff] at hu
            cases hu with
            | intro info hinfo =>
                have hbounds := h.bounded.listed.bounds info.seqNum
                  (List.mem_map_of_mem hinfo.1)
                rw [← hinfo.2.2,number]
                simp only
                omega
      · intro b hb
        rw [List.mem_append,List.mem_singleton] at hb
        cases hb with
        | inl hold => exact ⟨(h.times b hold).1,(h.times b hold).2.trans hclock⟩
        | inr hnew =>
            rw [hnew]
            exact ⟨h.clock_nonneg.trans hclock,le_rfl⟩
      · exact h.clock_nonneg.trans hclock
      · intro hfresh
        rw [h.bounded.fresh hfresh] at hbatch
        exact absurd hbatch (List.cons_ne_nil _ _).symm

/-- The offset of a number behind the packet that the newest number moves to. -/
theorem serialOffset_moved {x m n : BitVec 16} (hm : 0 < serialOffset m n)
    (hx : -(kMaxPacketAge : ℤ) ≤ serialOffset x n ∧ serialOffset x n < serialOffset m n)
    (hx' : -(kMaxPacketAge : ℤ) ≤ serialOffset x m ∧ serialOffset x m < 0) :
    serialOffset x m = serialOffset x n - serialOffset m n := by
  have hspec := serialOffset_spec m n
  have hn := serialOffset_spec x n
  have hm' := serialOffset_spec x m
  omega

/-- The newest number moves to a packet ahead. The old entries stand for the same packets,
and the new ones for packets that no batch has named. -/
theorem Sound.insert (h : Sound l) (hinit : l.requester.initialized = true) {m : BitVec 16}
    (hm : 0 < serialOffset m l.requester.newestSeqNum) (d : Descent (BitVec 16))
    (keyframeList : List (BitVec 16)) (createdAt : BitVec 16 → ℤ) :
    Sound { l with
      requester :=
        { ({ l.requester with keyframeList := keyframeList }.addPacketsToNack d
          (l.requester.newestSeqNum+1) m createdAt).2 with newestSeqNum := m }
      newest := l.newest + serialOffset m l.requester.newestSeqNum } := by
  have hcases := addPacketsToNack_cases createdAt (d := d)
    (r := { l.requester with keyframeList := keyframeList }) h.bounded.listed hm
  have hwithin := addPacketsToNack_within createdAt (d := d)
    (r := { l.requester with keyframeList := keyframeList }) h.bounded.listed hm
  have hlength := length_addPacketsToNack_le (d := d)
    (r := { l.requester with keyframeList := keyframeList }) (l.requester.newestSeqNum+1) m
    createdAt
  have hinit' := (addPacketsToNack_initialized { l.requester with keyframeList := keyframeList } d
    (l.requester.newestSeqNum+1) m createdAt).trans hinit
  generalize NackRequester.addPacketsToNack { l.requester with keyframeList := keyframeList } d
    (l.requester.newestSeqNum+1) m createdAt = added at hcases hwithin hlength hinit' ⊢
  have hfresh : added.2.initialized = false → added.2.nackList = [] := fun hnot =>
    absurd (hinit'.symm.trans hnot) (by decide)
  have hmoved : ∀ x ∈ nackKeys added.2.nackList, serialOffset x l.requester.newestSeqNum <
      serialOffset m l.requester.newestSeqNum →
      -(kMaxPacketAge : ℤ) ≤ serialOffset x l.requester.newestSeqNum →
      l.newest + serialOffset m l.requester.newestSeqNum + serialOffset x m = l.number x := by
    intro x hx hlt hle
    rw [serialOffset_moved hm ⟨hle,hlt⟩ (hwithin.bounds x hx),number]
    omega
  refine ⟨⟨hwithin,hlength,hfresh⟩,?_,h.paced,?_,h.times,h.clock_nonneg,
    fun hnot => absurd (hinit'.symm.trans hnot) (by decide)⟩
  · apply h.counted.extend
    intro info hinfo
    have hkey : info.seqNum ∈ nackKeys added.2.nackList := List.mem_map_of_mem hinfo
    cases hcases with
    | inl hcleared =>
        simp only [hcleared.2] at hinfo
        exact absurd hinfo List.not_mem_nil
    | inr hadded =>
        cases hadded.2.1 with
        | intro old hold =>
            simp only [hold.2] at hinfo
            rw [List.mem_append,List.mem_map] at hinfo
            cases hinfo with
            | inl hkept =>
                have hlisted := hold.1.subset hkept
                have hbounds := h.bounded.listed.bounds info.seqNum
                  (List.mem_map_of_mem hlisted)
                exact .inl ⟨hlisted,hmoved info.seqNum hkey (by omega) hbounds.1⟩
            | inr hnew =>
                cases hnew with
                | intro u hu =>
                    have hskipped : 0 < serialOffset u l.requester.newestSeqNum ∧
                        serialOffset u l.requester.newestSeqNum <
                          serialOffset m l.requester.newestSeqNum :=
                      ((mem_skipped_iff (d := d)
                        (r := { l.requester with keyframeList := keyframeList }) hm).mp hu.1).1
                    have hu' : info.seqNum = u := by rw [← hu.2,newNack]
                    right
                    refine ⟨by rw [← hu.2,newNack],fun b hb hmem => ?_⟩
                    have hpassed := h.passed b hb _ hmem
                    have hnumber := hmoved info.seqNum hkey
                      (by rw [hu']; exact hskipped.2)
                      (by rw [hu']; omega)
                    simp only [number] at hpassed hnumber
                    rw [hu'] at hpassed hnumber
                    omega
  · intro b hb u hu
    have := h.passed b hb u hu
    simp only
    omega

/-- The calls on a packet: the first one; one that is behind, again the newest, or
recovered; and a normal one ahead. -/
theorem onReceivedPacket_cases (r : NackRequester) (d : Descent (BitVec 16)) (m : BitVec 16)
    (isKeyframe isRecovered : Bool) (createdAt : BitVec 16 → ℤ) (nowMs : ℤ) :
    (∃ keyframeList, r.initialized = false ∧
      (r.onReceivedPacket d m isKeyframe isRecovered createdAt nowMs).2 =
        ([],{ r with newestSeqNum := m, keyframeList := keyframeList, initialized := true })) ∨
    (∃ r', r.initialized = true ∧
      (r.onReceivedPacket d m isKeyframe isRecovered createdAt nowMs).2 = ([],r') ∧
      r'.nackList.Sublist r.nackList ∧ r'.initialized = r.initialized ∧
      r'.newestSeqNum = r.newestSeqNum) ∨
    ∃ keyframeList, r.initialized = true ∧ 0 < serialOffset m r.newestSeqNum ∧
      (r.onReceivedPacket d m isKeyframe isRecovered createdAt nowMs).2 =
        let added := { r with keyframeList := keyframeList }.addPacketsToNack d (r.newestSeqNum+1)
          m createdAt
        let batch := { added.2 with newestSeqNum := m }.getNackBatch .seqNumOnly nowMs
        ((if added.1 then [.requestKeyFrame] else []) ++ NackRequester.requestNack batch.1,
          batch.2) := by
  rw [NackRequester.onReceivedPacket]
  split
  · rename_i hinit
    exact .inl ⟨_,by simpa using hinit,rfl⟩
  rename_i hinit
  rw [not_not] at hinit
  split
  · exact .inr (.inl ⟨r,hinit,rfl,List.Sublist.refl _,rfl,rfl⟩)
  rename_i hne
  split
  · split
    · exact .inr (.inl ⟨r,hinit,rfl,List.Sublist.refl _,rfl,rfl⟩)
    · exact .inr (.inl ⟨_,hinit,rfl,List.eraseIdx_sublist _ _,rfl,rfl⟩)
  · rename_i hgt
    cases isRecovered with
    | true => exact .inr (.inl ⟨_,hinit,rfl,List.Sublist.refl _,rfl,rfl⟩)
    | false =>
        exact .inr (.inr ⟨_,hinit,ahead_iff.mpr ⟨hne,hgt⟩,rfl⟩)

theorem filterMap_requestKeyFrame (keyFrameRequested : Bool) (nowMs rttMs : ℤ)
    (number : BitVec 16 → ℤ) :
    (if keyFrameRequested then [Output.requestKeyFrame] else []).filterMap
      (batchOf nowMs rttMs number) = [] := by
  cases keyFrameRequested with
  | false => rfl
  | true => rfl

/-- The clock does not go back in a call. -/
def OnTime (l : Log) (e : Descent (BitVec 16) × Call) : Prop :=
  ∀ nowMs, e.2.nowMs = some nowMs → l.clock ≤ nowMs

theorem Sound.packet (h : Sound l) (d : Descent (BitVec 16)) (m : BitVec 16)
    (isKeyframe isRecovered : Bool) (createdAt : BitVec 16 → ℤ) {nowMs : ℤ}
    (hclock : l.clock ≤ nowMs) :
    Sound (l.step (d,.packet m isKeyframe isRecovered createdAt nowMs)) := by
  have hcases := onReceivedPacket_cases l.requester d m isKeyframe isRecovered createdAt nowMs
  simp only [step,NackRequester.call,Call.nowMs,Option.getD_some]
  generalize (l.requester.onReceivedPacket d m isKeyframe isRecovered createdAt nowMs).2 = after
    at hcases ⊢
  cases hcases with
  | inl hfirst =>
      cases hfirst with
      | intro keyframeList hfirst =>
          rw [hfirst.2,h.fresh hfirst.1]
          exact sound_of_nil (h.bounded.fresh hfirst.1) (h.clock_nonneg.trans hclock)
  | inr hlater =>
      cases hlater with
      | inl hbehind =>
          cases hbehind with
          | intro r' hr' =>
              rw [hr'.2.1]
              exact h.quiet hr'.2.2.1 hr'.2.2.2.1 hr'.2.2.2.2 hclock
      | inr hahead =>
          cases hahead with
          | intro keyframeList hahead =>
              have hinserted := h.insert hahead.1 hahead.2.1 d keyframeList createdAt
              have hbatch := hinserted.batch .seqNumOnly hclock
              rw [hahead.2.2]
              generalize NackRequester.addPacketsToNack
                { l.requester with keyframeList := keyframeList } d (l.requester.newestSeqNum+1) m
                createdAt = added at hbatch ⊢
              simp only [getNackBatch_eq,List.filterMap_append,filterMap_requestKeyFrame,
                List.nil_append,hahead.1,if_true] at hbatch ⊢
              exact hbatch

theorem Sound.step (h : Sound l) (e : Descent (BitVec 16) × Call) (hclock : l.OnTime e) :
    Sound (l.step e) := by
  have hsame : serialOffset l.requester.newestSeqNum l.requester.newestSeqNum = 0 :=
    eq_iff_serialOffset_zero.mp rfl
  cases e with
  | mk d c =>
      cases c with
      | packet m isKeyframe isRecovered createdAt nowMs =>
          exact h.packet d m isKeyframe isRecovered createdAt (hclock nowMs rfl)
      | timer nowMs =>
          have hnow := hclock nowMs rfl
          cases hinit : l.requester.initialized with
          | false =>
              simp only [Log.step,NackRequester.call,NackRequester.onTimerTimeout,getNackBatch_eq,
                h.bounded.fresh hinit,h.fresh hinit]
              exact sound_of_nil rfl (h.clock_nonneg.trans hnow)
          | true =>
              have hbatch := h.batch .timeOnly hnow
              simp only [Log.step,NackRequester.call,NackRequester.onTimerTimeout,getNackBatch_eq,
                hinit,if_true,hsame,add_zero] at hbatch ⊢
              exact hbatch
      | updateRtt rttMs => exact h.quiet (List.Sublist.refl _) rfl rfl le_rfl
      | clearUpTo seqNum => exact h.quiet (List.drop_sublist _ _) rfl rfl le_rfl

end Steps

/-- A clock that never goes back, in milliseconds since its epoch. -/
def ClockRuns (es : List (Descent (BitVec 16) × Call)) : Prop :=
  (0::es.filterMap fun e => e.2.nowMs).Pairwise (· ≤ ·)

instance (es : List (Descent (BitVec 16) × Call)) : Decidable (ClockRuns es) :=
  inferInstanceAs (Decidable (List.Pairwise _ _))

/-- The clock of the log is one of the times read. -/
theorem clock_mem (es : List (Descent (BitVec 16) × Call)) :
    (run step {} es).clock ∈ 0::es.filterMap fun e => e.2.nowMs := by
  induction es using List.reverseRecOn with
  | nil => exact List.mem_cons_self
  | append_singleton es e ih =>
      rw [run_snoc,List.filterMap_append,← List.cons_append,List.mem_append]
      cases hnow : e.2.nowMs with
      | none =>
          left
          simp only [step,hnow,Option.getD_none]
          exact ih
      | some nowMs =>
          right
          simp only [step,hnow,Option.getD_some,List.filterMap_cons,List.filterMap_nil]
          exact List.mem_singleton.mpr rfl

theorem sound_run {es : List (Descent (BitVec 16) × Call)} (h : ClockRuns es) :
    Sound (run step {} es) := by
  induction es using List.reverseRecOn with
  | nil => exact sound_of_nil rfl le_rfl
  | append_singleton es e ih =>
      rw [ClockRuns,List.filterMap_append,← List.cons_append,List.pairwise_append] at h
      rw [run_snoc]
      apply (ih h.1).step
      intro nowMs hnow
      apply h.2.2 _ (clock_mem es)
      rw [List.filterMap_cons,hnow]
      exact List.mem_cons_self

theorem low16_newest (es : List (Descent (BitVec 16) × Call)) :
    low16 (run step {} es).newest = (run step {} es).requester.newestSeqNum := by
  refine run_invariant (I := fun l : Log => low16 l.newest = l.requester.newestSeqNum) ?_ ?_ es
  · rfl
  · intro l e hl
    simp only [step]
    split
    · exact low16_add_serialOffset hl _
    · exact low16_ofNat _

end Log
open Log

/-- In every run: no packet is named by more batches than it has retries, none twice in one
batch, and between two batches that name it the RTT in force at the second has passed.
A number always stands for a packet of that number. -/
theorem run_paced {es : List (Descent (BitVec 16) × Call)} (h : ClockRuns es) :
    Paced (run step {} es).batches ∧ ∀ x, low16 ((run step {} es).number x) = x :=
  ⟨(sound_run h).paced,low16_add_serialOffset (low16_newest es)⟩

/-- Two packets are lost over a wrap. They are requested by the timer, and again when the
RTT, shorter by then, has passed. -/
def lossRun : List (Descent (BitVec 16) × Call) :=
  [.packet 65535 true false (fun _ => 1000) 1000,.packet 2 false false (fun _ => 1001) 1001,
    .timer 1020,.updateRtt 50,.timer 1040,.timer 1070].map fun c => (.leftmost,c)

theorem run_paced_loss :
    (run step {} lossRun).batches =
        [⟨1020,100,[65536,65537]⟩,⟨1070,50,[65536,65537]⟩] ∧
      Paced (run step {} lossRun).batches :=
  ⟨by decide +kernel,(run_paced (by decide)).1⟩

end Ylrtc.Nack
