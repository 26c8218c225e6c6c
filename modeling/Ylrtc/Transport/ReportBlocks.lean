import Mathlib.Algebra.Order.Group.Int
import Mathlib.Algebra.Order.Group.Abs
import Mathlib.Data.Int.Interval
import Ylrtc.Transport.StatisticsRuns

/-!
# Report blocks

The numbers of a report block against the packets received so far. The tentative
unwrapping forgets the last unwrapped number, so the blocks are right along the few
sequences in which that number is zero or its loss goes unnoticed, and along no other.
-/
namespace Ylrtc.Statistics
open MachineInt Packet Run RtcpPackets SequenceNumber TrackStatistics

/-! ### What a packet does to the counters -/

/-- The members behind the numbers of a block. The last in-order packet is `last`, and no
packet waits for a stream restart. -/
structure Counts (ssrc : BitVec 32) (last seqMax loss : ℤ) (t : TrackStatistics) : Prop where
  ssrc_eq : t.ssrc = ssrc
  started : t.receivedSeqFirst ≠ -1
  lastValue : t.seqUnwrapper.lastValue = some (low16 last)
  waiting : t.receivedSeqOutOfOrder = none
  seqMax_eq : t.receivedSeqMax = seqMax
  loss_eq : t.cumulativeLoss = loss
  offset_eq : t.cumulativeLossRtcpOffset = 0

section Receive
variable {t : TrackStatistics} {packet : RtpPacket} {isRetransmit : Bool} {nowMs : ℤ}
  {ssrc : BitVec 32} {last seqMax loss u : ℤ}

/-- The first packet is in order. -/
theorem receivePacket_first {clockRate : BitVec 32} {enable : Bool}
    (hssrc : packet.ssrc = ssrc) (hnumber : packet.sequenceNumber = low16 u) (hlo : 0 ≤ u)
    (hhi : u < 65536) :
    Counts ssrc u u 0
      ((fresh ssrc clockRate enable).receivePacket packet isRetransmit nowMs) := by
  have hunwrapped : (fresh ssrc clockRate enable).unwrapped packet = u := by
    change ((packet.sequenceNumber.toNat : ℕ) : ℤ) = u
    rw [hnumber,low16_toNat]
    omega
  have ho := receivePacket_outcome (fresh ssrc clockRate enable) packet isRetransmit nowMs
  generalize (fresh ssrc clockRate enable).receivePacket packet isRetransmit nowMs = t' at ho ⊢
  cases ho with
  | foreign hforeign => exact absurd hssrc.symm hforeign
  | first _ _ =>
      rw [hunwrapped]
      refine ⟨rfl,?_,congrArg some hnumber,rfl,rfl,?_,rfl⟩
      · simp only [receiveInOrder]
        omega
      · have hcount : int32 ((fresh ssrc clockRate enable).cumulativeLoss-1) = -1 :=
          (int32_of_range (x := 0-1) (by decide) (by decide)).trans rfl
        simp only [receiveInOrder,TrackStatistics.entered,hcount,
          show -1+(u-(u-1)) = (0 : ℤ) by omega]
        rfl
  | restart _ hstarted _ => exact absurd rfl hstarted
  | far _ hstarted _ _ => exact absurd rfl hstarted
  | ahead _ hstarted _ _ _ => exact absurd rfl hstarted
  | behind _ hstarted _ _ _ r => exact absurd rfl hstarted

theorem Counts.counted (h : Counts ssrc last seqMax loss t) (packet : RtpPacket) :
    t.counted packet = t.entered packet := by
  rw [TrackStatistics.counted,h.waiting]
  rfl

/-- A packet is taken by its distance from the last in-order packet, not by its number. -/
theorem receivePacket_cases (isRetransmit : Bool) (nowMs : ℤ)
    (h : Counts ssrc last seqMax loss t) (hssrc : packet.ssrc = ssrc)
    (hnumber : packet.sequenceNumber = low16 u) (hlo : -32768 < u-last) (hhi : u-last < 32768)
    (hloss : 0 ≤ loss) (hloss' : loss < 65536) :
    (5 < |u-last-seqMax| ∧
        (t.receivePacket packet isRetransmit nowMs).receivedSeqFirst ≠ -1 ∧
        (t.receivePacket packet isRetransmit nowMs).receivedSeqMax = seqMax ∧
        (t.receivePacket packet isRetransmit nowMs).cumulativeLoss = loss ∧
        (t.receivePacket packet isRetransmit nowMs).cumulativeLossRtcpOffset = 0) ∨
      (|u-last-seqMax| ≤ 5 ∧ seqMax < u-last ∧
        Counts ssrc u (u-last) (loss-1+(u-last-seqMax))
          (t.receivePacket packet isRetransmit nowMs)) ∨
      (|u-last-seqMax| ≤ 5 ∧ u-last ≤ seqMax ∧
        Counts ssrc last seqMax (loss-1) (t.receivePacket packet isRetransmit nowMs)) := by
  have hs : t.unwrapped packet = u-last := by
    rw [TrackStatistics.unwrapped,
      TentativeUnwrapper.unwrapWithoutUpdate_some _ _ h.lastValue,hnumber]
    exact serialOffset_low16 u last hlo hhi
  have hcount : (t.entered packet).cumulativeLoss = loss-1 := by
    rw [TrackStatistics.entered,h.loss_eq]
    exact int32_of_range (by omega) (by omega)
  have ho := receivePacket_outcome t packet isRetransmit nowMs
  generalize t.receivePacket packet isRetransmit nowMs = t' at ho ⊢
  cases ho with
  | foreign hforeign => exact absurd (h.ssrc_eq.trans hssrc.symm) hforeign
  | first _ hfirst => exact absurd hfirst h.started
  | restart _ _ hrestart =>
      obtain ⟨w,hw,_⟩ := hrestart
      rw [h.waiting] at hw
      exact absurd hw (by simp)
  | far _ _ _ hfar =>
      -- the packet waits for a restart
      rw [hs,h.seqMax_eq] at hfar
      refine .inl ⟨hfar,?_,?_,?_,?_⟩
      · exact h.counted packet ▸ h.started
      · exact (counted_receivedSeqMax t packet).trans h.seqMax_eq
      · change int32 ((t.counted packet).cumulativeLoss+1) = loss
        rw [h.counted packet,hcount,int32_of_range (by omega) (by omega)]
        omega
      · exact h.counted packet ▸ h.offset_eq
  | ahead _ _ _ hnear hahead =>
      rw [hs,h.seqMax_eq] at hnear hahead
      refine .inr (.inl ⟨hnear,hahead,?_⟩)
      rw [h.counted packet,hs]
      refine ⟨h.ssrc_eq,h.started,congrArg some hnumber,h.waiting,rfl,?_,h.offset_eq⟩
      have hclose := abs_le.mp hnear
      simp only [kDefaultMaxReorderingThreshold] at hclose
      simp only [receiveInOrder]
      rw [hcount,show (t.entered packet).receivedSeqMax = seqMax from h.seqMax_eq]
      exact int32_of_range (by omega) (by omega)
  | behind _ _ _ hnear hbehind r =>
      rw [hs,h.seqMax_eq] at hnear hbehind
      refine .inr (.inr ⟨hnear,hbehind,?_⟩)
      rw [h.counted packet]
      exact ⟨h.ssrc_eq,h.started,h.lastValue,h.waiting,h.seqMax_eq,hcount,h.offset_eq⟩

end Receive

/-! ### What a block says -/

section Report
variable {t : TrackStatistics} {nowMs : ℤ} {ssrc : BitVec 32} {last seqMax loss : ℤ}

theorem packetsLost_eq (hloss : t.cumulativeLoss = loss) (hoffset : t.cumulativeLossRtcpOffset = 0)
    (hlo : 0 ≤ loss) (hhi : loss < 65536) : t.packetsLost = (loss,0) := by
  have hsum : int32 (loss+0) = loss := by
    rw [int32_of_range (by omega) (by omega)]
    omega
  simp only [packetsLost,hloss,hoffset,hsum]
  rw [if_neg (by omega),min_eq_left (by omega)]

/-- A block has the largest number and the loss of its counters. -/
theorem block_eq {block : ReportBlock}
    (h : (t.maybeAppendReportBlockAndReset nowMs).1 = some block) :
    block.extendedHighSeqNum = BitVec.ofInt 32 t.receivedSeqMax ∧
      block.cumulativeLost = BitVec.ofInt 32 t.packetsLost.1 := by
  rw [maybeAppendReportBlockAndReset] at h
  split at h
  · simp at h
  · rw [Option.some.injEq] at h
    rw [← h]
    exact ⟨rfl,rfl⟩

/-- A block is appended at the time of the last packet in order. -/
theorem exists_block (h : t.receivedSeqFirst ≠ -1) :
    ∃ block, (t.maybeAppendReportBlockAndReset t.lastReceiveTimeMs).1 = some block := by
  rw [maybeAppendReportBlockAndReset,if_neg]
  · exact ⟨_,rfl⟩
  · simp only [sub_self,h,or_false,kStatisticsTimeoutMs]
    omega

theorem Counts.report (h : Counts ssrc last seqMax loss t) (hlo : 0 ≤ loss) (hhi : loss < 65536)
    (nowMs : ℤ) :
    Counts ssrc last seqMax loss (t.maybeAppendReportBlockAndReset nowMs).2 := by
  rw [maybeAppendReportBlockAndReset]
  split
  · exact h
  · refine ⟨h.ssrc_eq,h.started,h.lastValue,h.waiting,h.seqMax_eq,h.loss_eq,?_⟩
    simp only [packetsLost_eq h.loss_eq h.offset_eq hlo hhi]

end Report

/-! ### Sequences of packets -/

/-- A packet with its unwrapped number, the answer of the retransmission test and the time. -/
structure Arrival where
  number : ℤ
  packet : RtpPacket
  isRetransmit : Bool
  nowMs : ℤ

def numbers (as : List Arrival) : List ℤ := as.map Arrival.number

def largest : List ℤ → ℤ
  | [] => 0
  | u::us => us.foldl max u

def expectedLost (us : List ℤ) : ℤ := largest us - us.headD 0 + 1 - us.length

/-- The packets are of one source and numbered apart, the first from its sixteen bits on,
none of them below the first or far from the largest before it. -/
structure Admissible (ssrc : BitVec 32) (before : List Arrival) (a : Arrival) : Prop where
  ssrc_eq : a.packet.ssrc = ssrc
  sequenceNumber_eq : a.packet.sequenceNumber = low16 a.number
  first : before = [] → 0 ≤ a.number ∧ a.number < 65536
  distinct : a.number ∉ numbers before
  first_le : (numbers before).headD a.number ≤ a.number
  near : before ≠ [] → |a.number - largest (numbers before)| ≤ kDefaultMaxReorderingThreshold

/-- The sequences whose blocks come out right: a packet alone, or a first packet numbered
zero with one packet beyond it and others closely between the two. -/
def Unaffected : List ℤ → Prop
  | [] => True
  | [_] => True
  | first::second::rest => first = 0 ∧ ∀ u ∈ rest, u < second ∧ 2*second-u ≤ 5

section Sequences
variable {ssrc : BitVec 32} {as : List Arrival} {a : Arrival} {us : List ℤ} {u : ℤ}

theorem largest_snoc (hus : us ≠ []) : largest (us++[u]) = max (largest us) u := by
  cases us with
  | nil => exact absurd rfl hus
  | cons v us =>
      simp only [List.cons_append,largest,List.foldl_append,List.foldl_cons,List.foldl_nil]

theorem headD_snoc (hus : us ≠ []) : (us++[u]).headD 0 = us.headD 0 := by
  cases us with
  | nil => exact absurd rfl hus
  | cons v us => rfl

theorem expectedLost_snoc (hus : us ≠ []) :
    expectedLost (us++[u]) = expectedLost us + (max (largest us) u - largest us) - 1 := by
  simp only [expectedLost,largest_snoc hus,headD_snoc hus,List.length_append,List.length_singleton]
  push_cast
  omega

theorem le_largest (hu : u ∈ us) : u ≤ largest us := by
  induction us using List.reverseRecOn with
  | nil => exact absurd hu List.not_mem_nil
  | append_singleton us v ih =>
      by_cases hus : us = []
      · rw [hus,List.nil_append,List.mem_singleton] at hu
        rw [hus,hu]
        exact le_rfl
      · rw [largest_snoc hus]
        rw [List.mem_append,List.mem_singleton] at hu
        cases hu with
        | inl hold => exact le_max_of_le_left (ih hold)
        | inr hnew => exact hnew ▸ le_max_right _ _

theorem largest_mem (hus : us ≠ []) : largest us ∈ us := by
  induction us using List.reverseRecOn with
  | nil => exact absurd rfl hus
  | append_singleton us v ih =>
      by_cases hus : us = []
      · rw [hus]
        exact List.mem_singleton.mpr rfl
      · rw [largest_snoc hus]
        cases max_choice (largest us) v with
        | inl hleft =>
            rw [hleft]
            exact List.mem_append_left _ (ih hus)
        | inr hright =>
            rw [hright]
            exact List.mem_append_right _ (List.mem_singleton.mpr rfl)

/-- The numbers are distinct and none is below the first. -/
theorem numbers_of_admissible (h : Along (Admissible ssrc) as) :
    (numbers as).Nodup ∧ ∀ u ∈ numbers as, (numbers as).headD 0 ≤ u := by
  induction as using List.reverseRecOn with
  | nil => exact ⟨List.nodup_nil,fun u hu => absurd hu List.not_mem_nil⟩
  | append_singleton as a ih =>
      rw [along_snoc] at h
      have hlast := h.2
      have hbefore := ih h.1
      have happend : numbers (as++[a]) = numbers as++[a.number] := List.map_append
      rw [happend]
      constructor
      · rw [List.nodup_append]
        refine ⟨hbefore.1,List.nodup_singleton _,fun x hx y hy => ?_⟩
        rw [List.mem_singleton] at hy
        rw [hy]
        exact fun heq => hlast.distinct (heq ▸ hx)
      · intro u hu
        have hfirst := hlast.first_le
        cases hnumbers : numbers as with
        | nil =>
            rw [hnumbers,List.nil_append,List.mem_singleton] at hu
            rw [hu]
            exact le_rfl
        | cons v us =>
            rw [hnumbers] at hfirst hbefore hu
            rw [List.mem_append,List.mem_singleton] at hu
            cases hu with
            | inl hold => exact hbefore.2 u hold
            | inr hnew => exact hnew ▸ hfirst

/-- No more packets than numbers. -/
theorem expectedLost_nonneg (h : Along (Admissible ssrc) as) (has : as ≠ []) :
    0 ≤ expectedLost (numbers as) := by
  have hnumbers := numbers_of_admissible h
  have hsubset : (numbers as).toFinset ⊆
      Finset.Icc ((numbers as).headD 0) (largest (numbers as)) := by
    intro u hu
    rw [List.mem_toFinset] at hu
    exact Finset.mem_Icc.mpr ⟨hnumbers.2 u hu,le_largest hu⟩
  have hcard := Finset.card_le_card hsubset
  rw [List.toFinset_card_of_nodup hnumbers.1,Int.card_Icc] at hcard
  have hle : (numbers as).headD 0 ≤ largest (numbers as) :=
    hnumbers.2 _ (largest_mem (by simpa [numbers] using has))
  rw [expectedLost]
  omega

theorem unaffected_of_snoc (h : Unaffected (us++[u])) : Unaffected us := by
  match us,h with
  | [],_ => trivial
  | [_],_ => trivial
  | _::_::_,h => exact ⟨h.1,fun v hv => h.2 v (List.mem_append_left _ hv)⟩

/-- What an unaffected sequence of two or more numbers looks like. -/
structure Short (us : List ℤ) : Prop where
  first_eq : us.headD 0 = 0
  lo : 1 ≤ largest us
  hi : largest us ≤ 5
  lost_le : expectedLost us ≤ 4

theorem short_of_unaffected (h : Along (Admissible ssrc) as) {first second : ℤ} {rest : List ℤ}
    (has : numbers as = first::second::rest) (hus : Unaffected (numbers as)) :
    Short (numbers as) ∧ largest (numbers as) = second := by
  have hsecond : first < second ∧ second ≤ first+5 := by
    match as,h,has with
    | [],_,has => simp [numbers] at has
    | [_],_,has => simp [numbers] at has
    | b::c::cs,h,has =>
        simp only [numbers,List.map_cons,List.cons.injEq] at has
        have hc := h [b] c cs rfl
        have hfirst := hc.first_le
        have hdistinct := hc.distinct
        have hnear := abs_le.mp (hc.near (List.cons_ne_nil _ _))
        simp only [numbers,List.map_cons,List.map_nil,List.headD_cons,List.mem_singleton,largest,
          List.foldl_nil,kDefaultMaxReorderingThreshold,has.1,has.2.1] at hfirst hdistinct hnear
        omega
  rw [has] at hus ⊢
  have hlargest : largest (first::second::rest) = second := by
    apply le_antisymm
    · have hmem := largest_mem (List.cons_ne_nil first (second::rest))
      rw [List.mem_cons,List.mem_cons] at hmem
      rcases hmem with heq | heq | hrest
      · omega
      · exact le_of_eq heq
      · exact le_of_lt (hus.2 _ hrest).1
    · exact le_largest (List.mem_cons_of_mem _ List.mem_cons_self)
  have hzero := hus.1
  refine ⟨⟨hzero,by omega,by omega,?_⟩,hlargest⟩
  simp only [expectedLost,hlargest,List.headD_cons,List.length_cons]
  omega

/-- One more number behind the second. -/
theorem unaffected_snoc {first second : ℤ} {rest : List ℤ}
    (hus : Unaffected (first::second::rest)) :
    Unaffected (first::second::rest++[u]) ↔ u < second ∧ 2*second-u ≤ 5 := by
  constructor
  · intro hall
    exact hall.2 u (by simp)
  · intro hlast
    refine ⟨hus.1,fun x (hx : x ∈ rest++[u]) => ?_⟩
    rw [List.mem_append,List.mem_singleton] at hx
    cases hx with
    | inl hold => exact hus.2 x hold
    | inr hnew => exact hnew ▸ hlast

end Sequences

/-! ### Runs -/

inductive Event where
  | packet (a : Arrival)
  | report (nowMs : ℤ)

def Event.call : Event → Call
  | .packet a => .receivePacket a.packet a.isRetransmit a.nowMs
  | .report nowMs => .maybeAppendReportBlockAndReset nowMs

def step (t : TrackStatistics) (e : Event) : TrackStatistics := call t e.call

def arrival : Event → Option Arrival
  | .packet a => some a
  | .report _ => none

def arrivals (es : List Event) : List Arrival := es.filterMap arrival

/-- What a block should say after some packets. -/
def Right (us : List ℤ) (block : ReportBlock) : Prop :=
  block.extendedHighSeqNum = BitVec.ofInt 32 (largest us) ∧
    block.cumulativeLost = BitVec.ofInt 32 (min (expectedLost us) 0x7fffff)

/-- A report in some state, if it appends a block. -/
def BlockRight (t : TrackStatistics) (us : List ℤ) : Event → Prop
  | .packet _ => True
  | .report nowMs => ∀ block, (t.maybeAppendReportBlockAndReset nowMs).1 = some block → Right us block

/-- Every block is right, wherever reports come between the packets. -/
def ReportsRight (ssrc clockRate : BitVec 32) (enable : Bool) (as : List Arrival) : Prop :=
  ∀ es, arrivals es = as → Along (fun before e =>
    BlockRight (run step (fresh ssrc clockRate enable) before) (numbers (arrivals before)) e) es

section Runs
variable {ssrc clockRate : BitVec 32} {enable : Bool} {as : List Arrival} {a : Arrival}
  {t : TrackStatistics}

/-- The counters after an unaffected sequence. -/
structure Tracked (ssrc clockRate : BitVec 32) (enable : Bool) (as : List Arrival)
    (t : TrackStatistics) : Prop where
  begins : as = [] → t = fresh ssrc clockRate enable
  counts : as ≠ [] → Counts ssrc (largest (numbers as)) (largest (numbers as))
    (expectedLost (numbers as)) t

/-- The loss of an unaffected sequence is small. -/
theorem expectedLost_lt (h : Along (Admissible ssrc) as) (hus : Unaffected (numbers as)) :
    expectedLost (numbers as) < 65536 := by
  match hnumbers : numbers as,hus with
  | [],_ => decide
  | [u],_ =>
      simp only [expectedLost,largest,List.foldl_nil,List.headD_cons,List.length_singleton]
      omega
  | first::second::rest,hus =>
      rw [← hnumbers] at hus ⊢
      have hshort := (short_of_unaffected h hnumbers hus).1.lost_le
      omega

theorem numbers_snoc (as : List Arrival) (a : Arrival) :
    numbers (as++[a]) = numbers as++[a.number] := List.map_append

theorem ofInt32_injective {x y : ℤ} (hx : 0 ≤ x) (hx' : x < 2147483648) (hy : 0 ≤ y)
    (hy' : y < 2147483648) (h : BitVec.ofInt 32 x = BitVec.ofInt 32 y) : x = y := by
  rw [← BitVec.toNat_inj,BitVec.toNat_ofInt,BitVec.toNat_ofInt] at h
  omega

/-- The block of some counters is wrong. -/
def Misreports (t : TrackStatistics) (us : List ℤ) : Prop :=
  t.receivedSeqFirst ≠ -1 ∧ ¬(BitVec.ofInt 32 t.receivedSeqMax = BitVec.ofInt 32 (largest us) ∧
    BitVec.ofInt 32 t.packetsLost.1 = BitVec.ofInt 32 (min (expectedLost us) 0x7fffff))

theorem misreports_of_seqMax {us : List ℤ} (hstarted : t.receivedSeqFirst ≠ -1) {seqMax : ℤ}
    (hmax : t.receivedSeqMax = seqMax) (hne : seqMax ≠ largest us) (hlo : 0 ≤ seqMax)
    (hhi : seqMax < 2147483648) (hlo' : 0 ≤ largest us) (hhi' : largest us < 2147483648) :
    Misreports t us :=
  ⟨hstarted,fun h => hne (ofInt32_injective hlo hhi hlo' hhi' (hmax ▸ h.1))⟩

/-- The second packet. -/
theorem receivePacket_second {v : ℤ} (h : Admissible ssrc as a) (hnumbers : numbers as = [v])
    (hlo : 0 ≤ v) (hhi : v < 65536) (ht : Counts ssrc v v 0 t) :
    (Unaffected [v,a.number] ∧ Counts ssrc (largest [v,a.number]) (largest [v,a.number])
        (expectedLost [v,a.number]) (t.receivePacket a.packet a.isRetransmit a.nowMs)) ∨
      ¬Unaffected [v,a.number] ∧
        Misreports (t.receivePacket a.packet a.isRetransmit a.nowMs) [v,a.number] := by
  have hne : as ≠ [] := fun has => by simp [has,numbers] at hnumbers
  have hnear := abs_le.mp (h.near hne)
  have hdistinct := h.distinct
  have hfirst := h.first_le
  simp only [hnumbers,List.mem_singleton,List.headD_cons,largest,List.foldl_nil,
    kDefaultMaxReorderingThreshold] at hnear hdistinct hfirst
  have hlargest : largest [v,a.number] = a.number := by
    simp only [largest,List.foldl_cons,List.foldl_nil]
    omega
  have hlost : expectedLost [v,a.number] = a.number-v-1 := by
    simp only [expectedLost,hlargest,List.headD_cons,List.length_cons,List.length_nil]
    omega
  have hunaffected : Unaffected [v,a.number] ↔ v = 0 := by simp [Unaffected]
  have hcases := receivePacket_cases a.isRetransmit a.nowMs ht
    h.ssrc_eq h.sequenceNumber_eq (by omega) (by omega) le_rfl (by omega)
  rw [hunaffected]
  rcases hcases with ⟨hfar,hstarted,hmax,_,_⟩ | ⟨_,hahead,hcounts⟩ | ⟨_,hbehind,hcounts⟩
  · right
    refine ⟨fun hzero => ?_,misreports_of_seqMax hstarted hmax ?_ ?_ ?_ ?_ ?_⟩
    · rw [hzero,lt_abs] at hfar
      omega
    all_goals omega
  · by_cases hzero : v = 0
    · left
      rw [hlargest,hlost]
      rw [hzero,show a.number-0 = a.number by omega,show 0-1+(a.number-0) = a.number-0-1 by omega]
        at hcounts
      refine ⟨hzero,?_⟩
      rw [hzero]
      exact hcounts
    · right
      refine ⟨hzero,misreports_of_seqMax hcounts.started hcounts.seqMax_eq ?_ ?_ ?_ ?_ ?_⟩
      all_goals omega
  · right
    refine ⟨by omega,misreports_of_seqMax hcounts.started hcounts.seqMax_eq ?_ ?_ ?_ ?_ ?_⟩
    all_goals omega

/-- A packet behind a short sequence. -/
theorem receivePacket_later {first second : ℤ} {rest : List ℤ} (h : Admissible ssrc as a)
    (hnumbers : numbers as = first::second::rest) (hus : Unaffected (numbers as))
    (hshort : Short (numbers as)) (hsecond : largest (numbers as) = second)
    (hbefore : 0 ≤ expectedLost (numbers as))
    (hlost : 0 ≤ expectedLost (numbers as++[a.number]))
    (ht : Counts ssrc (largest (numbers as)) (largest (numbers as))
      (expectedLost (numbers as)) t) :
    (Unaffected (numbers as++[a.number]) ∧ Counts ssrc (largest (numbers as++[a.number]))
        (largest (numbers as++[a.number])) (expectedLost (numbers as++[a.number]))
        (t.receivePacket a.packet a.isRetransmit a.nowMs)) ∨
      ¬Unaffected (numbers as++[a.number]) ∧
        Misreports (t.receivePacket a.packet a.isRetransmit a.nowMs) (numbers as++[a.number]) := by
  have hne : numbers as ≠ [] := fun hnil => by simp [hnil] at hnumbers
  have hne' : as ≠ [] := fun has => by simp [has,numbers] at hnumbers
  have hnear := abs_le.mp (h.near hne')
  have hfirst := h.first_le
  have hother : a.number ≠ largest (numbers as) := fun heq =>
    h.distinct (heq ▸ largest_mem hne)
  have hlo := hshort.lo
  have hhi := hshort.hi
  have hle := hshort.lost_le
  have hzero : 0 ≤ a.number := by
    have hhead := hshort.first_eq
    rw [hnumbers,List.headD_cons] at hfirst hhead
    omega
  have hlargest := largest_snoc (u := a.number) hne
  have hexpected := expectedLost_snoc (u := a.number) hne
  have hunaffected : Unaffected (numbers as++[a.number]) ↔
      a.number < largest (numbers as) ∧ 2*largest (numbers as)-a.number ≤ 5 := by
    rw [hnumbers] at hus
    rw [hsecond,hnumbers]
    exact unaffected_snoc hus
  simp only [kDefaultMaxReorderingThreshold] at hnear
  rw [hunaffected,hlargest,hexpected]
  rw [hexpected] at hlost
  generalize hL : largest (numbers as) = L at *
  generalize hloss : expectedLost (numbers as) = loss at *
  have hcases := receivePacket_cases a.isRetransmit a.nowMs ht
    h.ssrc_eq h.sequenceNumber_eq (by omega) (by omega) (by omega) (by omega)
  rcases hcases with ⟨hfar,hstarted,hmax,hcount,hoffset⟩ | ⟨_,hahead,hcounts⟩ |
    ⟨hclose,hbehind,hcounts⟩
  · right
    rw [lt_abs] at hfar
    refine ⟨by omega,?_⟩
    by_cases hbelow : a.number < L
    · -- the packet is not counted yet
      refine ⟨hstarted,fun hright => ?_⟩
      rw [packetsLost_eq hcount hoffset (by omega) (by omega),hexpected] at hright
      have := ofInt32_injective (by omega) (by omega) (by omega) (by omega) hright.2
      omega
    · exact misreports_of_seqMax hstarted hmax (by rw [hlargest]; omega) (by omega) (by omega)
        (by rw [hlargest]; omega) (by rw [hlargest]; omega)
  · right
    refine ⟨by omega,?_⟩
    exact misreports_of_seqMax hcounts.started hcounts.seqMax_eq (by rw [hlargest]; omega)
      (by omega) (by omega) (by rw [hlargest]; omega) (by rw [hlargest]; omega)
  · have hclose := abs_le.mp hclose
    by_cases hbelow : a.number < L
    · left
      rw [max_eq_left (le_of_lt hbelow),show loss+(L-L)-1 = loss-1 by omega]
      exact ⟨⟨hbelow,by omega⟩,hcounts⟩
    · right
      refine ⟨by omega,?_⟩
      exact misreports_of_seqMax hcounts.started hcounts.seqMax_eq (by rw [hlargest]; omega)
        (by omega) (by omega) (by rw [hlargest]; omega) (by rw [hlargest]; omega)

/-- The first packet has a number that is not unwrapped. -/
theorem range_of_single {v : ℤ} (h : Along (Admissible ssrc) as) (hnumbers : numbers as = [v]) :
    0 ≤ v ∧ v < 65536 := by
  cases as with
  | nil => simp [numbers] at hnumbers
  | cons b rest =>
      cases rest with
      | nil =>
          have hb := (h [] b [] rfl).first rfl
          simp only [numbers,List.map_cons,List.map_nil,List.cons.injEq,and_true] at hnumbers
          rw [← hnumbers]
          exact hb
      | cons c rest => simp [numbers] at hnumbers

/-- The counters follow an unaffected sequence as long as it stays so; the first packet
that affects it makes the next block wrong. -/
theorem Tracked.packet (ht : Tracked ssrc clockRate enable as t)
    (h : Along (Admissible ssrc) (as++[a])) (hus : Unaffected (numbers as)) :
    (Unaffected (numbers (as++[a])) ∧
        Tracked ssrc clockRate enable (as++[a]) (step t (.packet a))) ∨
      ¬Unaffected (numbers (as++[a])) ∧ Misreports (step t (.packet a)) (numbers (as++[a])) := by
  have hne : as++[a] ≠ [] := by simp
  have hlost := expectedLost_nonneg h hne
  have hlast := (along_snoc.mp h).2
  have hbefore := (along_snoc.mp h).1
  match hnumbers : numbers as,hus with
  | [],_ =>
      left
      have has : as = [] := by simpa [numbers] using hnumbers
      have hrange := hlast.first has
      have hsingle : numbers (as++[a]) = [a.number] := by
        rw [numbers_snoc,hnumbers]
        rfl
      have hone : expectedLost [a.number] = 0 := by
        simp only [expectedLost,largest,List.foldl_nil,List.headD_cons,List.length_singleton]
        omega
      rw [hsingle,ht.begins has]
      refine ⟨trivial,fun hnil => absurd hnil hne,fun _ => ?_⟩
      rw [hsingle,hone]
      exact receivePacket_first hlast.ssrc_eq hlast.sequenceNumber_eq hrange.1 hrange.2
  | [v],_ =>
      have has : as ≠ [] := fun hnil => by simp [hnil,numbers] at hnumbers
      have hcounts := ht.counts has
      have hrange := range_of_single hbefore hnumbers
      have hone : expectedLost [v] = 0 := by
        simp only [expectedLost,largest,List.foldl_nil,List.headD_cons,List.length_singleton]
        omega
      rw [hnumbers,hone] at hcounts
      have hcases := receivePacket_second hlast hnumbers hrange.1 hrange.2 hcounts
      have hpair : numbers (as++[a]) = [v,a.number] := by
        rw [numbers_snoc,hnumbers]
        rfl
      rw [hpair]
      cases hcases with
      | inl hgood =>
          refine .inl ⟨hgood.1,fun hnil => absurd hnil hne,fun _ => ?_⟩
          rw [hpair]
          exact hgood.2
      | inr hbad => exact .inr hbad
  | first::second::rest,hus =>
      have has : as ≠ [] := fun hnil => by simp [hnil,numbers] at hnumbers
      rw [← hnumbers] at hus
      have hshort := short_of_unaffected hbefore hnumbers hus
      rw [numbers_snoc] at hlost
      have hcases := receivePacket_later hlast hnumbers hus hshort.1 hshort.2
        (expectedLost_nonneg hbefore has) hlost (ht.counts has)
      rw [← numbers_snoc] at hcases
      cases hcases with
      | inl hgood => exact .inl ⟨hgood.1,fun hnil => absurd hnil hne,fun _ => hgood.2⟩
      | inr hbad => exact .inr hbad

theorem arrivals_snoc (es : List Event) (e : Event) :
    arrivals (es++[e]) = arrivals es ++ arrivals [e] := List.filterMap_append

theorem arrivals_packets (as : List Arrival) : arrivals (as.map .packet) = as := by
  induction as with
  | nil => rfl
  | cons a as ih =>
      change a::arrivals (as.map .packet) = a::as
      rw [ih]

/-- Reports leave the counters of an unaffected sequence alone. -/
theorem tracked_run {es : List Event} (h : Along (Admissible ssrc) (arrivals es))
    (hus : Unaffected (numbers (arrivals es))) :
    Tracked ssrc clockRate enable (arrivals es) (run step (fresh ssrc clockRate enable) es) := by
  induction es using List.reverseRecOn with
  | nil => exact ⟨fun _ => rfl,fun hnil => absurd rfl hnil⟩
  | append_singleton es e ih =>
      rw [arrivals_snoc] at h hus ⊢
      rw [run_snoc]
      cases e with
      | packet a =>
          have hbefore : Unaffected (numbers (arrivals es)) := by
            have hsnoc := numbers_snoc (arrivals es) a
            rw [show arrivals [.packet a] = [a] from rfl,hsnoc] at hus
            exact unaffected_of_snoc hus
          cases (ih h.prefix hbefore).packet h hbefore with
          | inl hgood => exact hgood.2
          | inr hbad => exact absurd hus hbad.1
      | report nowMs =>
          rw [show arrivals [.report nowMs] = [] from rfl,List.append_nil] at h hus ⊢
          have ht := ih h hus
          constructor
          · intro has
            rw [ht.begins has,step,Event.call,call,maybeAppendReportBlockAndReset,
              if_pos (.inr rfl)]
          · intro has
            exact (ht.counts has).report (expectedLost_nonneg h has) (expectedLost_lt h hus) nowMs

theorem unaffected_of_append {us vs : List ℤ} (h : Unaffected (us++vs)) : Unaffected us := by
  induction vs using List.reverseRecOn with
  | nil => rwa [List.append_nil] at h
  | append_singleton vs v ih =>
      rw [← List.append_assoc] at h
      exact ih (unaffected_of_snoc h)

/-- The block of a sequence that is tracked. -/
theorem Tracked.right (ht : Tracked ssrc clockRate enable as t) (h : Along (Admissible ssrc) as)
    (hus : Unaffected (numbers as)) (e : Event) : BlockRight t (numbers as) e := by
  cases e with
  | packet a => trivial
  | report nowMs =>
      intro block hblock
      have hblock' := block_eq hblock
      by_cases has : as = []
      · rw [ht.begins has,maybeAppendReportBlockAndReset,if_pos (.inr rfl)] at hblock
        simp at hblock
      · have hcounts := ht.counts has
        have hlt := expectedLost_lt h hus
        rw [packetsLost_eq hcounts.loss_eq hcounts.offset_eq (expectedLost_nonneg h has) hlt,
          hcounts.seqMax_eq] at hblock'
        refine ⟨hblock'.1,?_⟩
        rw [min_eq_left (by omega)]
        exact hblock'.2

/-- Every block has the largest number and the packets missing so far, whenever reports
come, exactly along the unaffected sequences. -/
theorem reportsRight_iff (clockRate : BitVec 32) (enable : Bool)
    (h : Along (Admissible ssrc) as) :
    ReportsRight ssrc clockRate enable as ↔ Unaffected (numbers as) := by
  constructor
  · intro hright
    induction as using List.reverseRecOn with
    | nil => trivial
    | append_singleton as a ih =>
        have hbefore : ReportsRight ssrc clockRate enable as := by
          intro es hes
          have hmore := hright (es++[.packet a]) (by rw [arrivals_snoc,hes]; rfl)
          exact (along_snoc.mp hmore).1
        have hus := ih h.prefix hbefore
        have hpackets := arrivals_packets as
        have htracked := @tracked_run ssrc clockRate enable (as.map .packet)
          (hpackets.symm ▸ h.prefix) (hpackets.symm ▸ hus)
        rw [hpackets] at htracked
        cases htracked.packet h hus with
        | inl hgood => exact hgood.1
        | inr hbad =>
            -- a report right after the packet shows the wrong counters
            rw [← run_snoc step (fresh ssrc clockRate enable) (as.map .packet) (.packet a)] at hbad
            cases exists_block hbad.2.1 with
            | intro block hblock =>
                have hall := hright (as.map .packet++[.packet a]++
                  [.report (run step (fresh ssrc clockRate enable)
                    (as.map .packet++[.packet a])).lastReceiveTimeMs]) (by
                  rw [arrivals_snoc,arrivals_snoc,hpackets]
                  exact List.append_nil _)
                have hright := (along_snoc.mp hall).2 block hblock
                rw [arrivals_snoc,hpackets,show arrivals [.packet a] = [a] from rfl] at hright
                have hfields := block_eq hblock
                rw [Right,hfields.1,hfields.2] at hright
                exact absurd hright hbad.2.2
  · intro hus es hes before e after heq
    have happend : arrivals before ++ arrivals (e::after) = as := by
      rw [← hes,heq]
      exact List.filterMap_append.symm
    have hbefore : Along (Admissible ssrc) (arrivals before) := by
      rw [← happend] at h
      exact h.prefix
    have husBefore : Unaffected (numbers (arrivals before)) := by
      rw [← happend,numbers,List.map_append] at hus
      exact unaffected_of_append hus
    exact (tracked_run hbefore husBefore).right hbefore husBefore e

end Runs

/-- A packet of source 7 with a number and nothing else. -/
def arrive (number : ℤ) : Arrival :=
  ⟨number,⟨false,96,0,low16 number,0,7,12,0,[],0,[],{},{},[]⟩,false,0⟩

theorem admissible_pair (u v : ℤ) (hu : 0 ≤ u ∧ u < 65536) (huv : u < v ∧ v ≤ u+5) :
    Along (Admissible 7) [arrive u,arrive v] := by
  refine along_snoc.mpr ⟨along_snoc.mpr ⟨along_nil _,?_⟩,?_⟩
  · exact ⟨rfl,rfl,fun _ => hu,List.not_mem_nil,le_rfl,fun hnil => absurd rfl hnil⟩
  · refine ⟨rfl,rfl,fun hnil => absurd hnil (by simp),?_,?_,fun _ => ?_⟩
    · simp only [numbers,arrive,List.nil_append,List.map_cons,List.map_nil,List.mem_singleton]
      omega
    · simp only [numbers,arrive,List.nil_append,List.map_cons,List.map_nil,List.headD_cons]
      omega
    · simp only [numbers,arrive,List.nil_append,List.map_cons,List.map_nil,largest,List.foldl_nil,
        kDefaultMaxReorderingThreshold,abs_le]
      omega

theorem reportsRight_zero_three :
    ReportsRight 7 90000 false [arrive 0,arrive 3] ∧
      ¬ReportsRight 7 90000 false [arrive 100,arrive 101] := by
  rw [reportsRight_iff 90000 false (admissible_pair 0 3 (by decide) (by decide)),
    reportsRight_iff 90000 false (admissible_pair 100 101 (by decide) (by decide))]
  exact ⟨⟨rfl,fun u hu => absurd hu List.not_mem_nil⟩,fun h => absurd h.1 (by decide)⟩

/-- After packets 100 and 101 the block still says 100. -/
theorem not_reportsRight :
    ¬∀ ssrc clockRate enable as, Along (Admissible ssrc) as →
      ReportsRight ssrc clockRate enable as := by
  intro h
  have hall := h 7 90000 false [arrive 100,arrive 101]
    (admissible_pair 100 101 (by decide) (by decide))
    [.packet (arrive 100),.packet (arrive 101),.report 0] rfl
  have hright := hall [.packet (arrive 100),.packet (arrive 101)] (.report 0) [] rfl
  have hblock : ((run step (fresh 7 90000 false) [.packet (arrive 100),.packet (arrive 101)]
      ).maybeAppendReportBlockAndReset 0).1.map ReportBlock.extendedHighSeqNum = some 100 := by
    decide +kernel
  rw [Option.map_eq_some_iff] at hblock
  cases hblock with
  | intro block hblock =>
      have hnumber := (hright block hblock.1).1
      rw [hblock.2] at hnumber
      exact absurd hnumber (by decide +kernel)

end Ylrtc.Statistics
