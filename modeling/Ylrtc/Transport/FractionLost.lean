import Mathlib.Algebra.Order.Group.Abs
import Ylrtc.Transport.StatisticsRuns

/-!
# The fraction lost

The loss since the last report is a difference of one counter, the numbers expected since
then a difference of another one, and a stream restart moves only the second. The packets
since the last report are counted beside the statistics.
-/
namespace Ylrtc.Statistics
open MachineInt Packet Run RtcpPackets SequenceNumber TrackStatistics

/-- The packets since the last report: the numbers skipped less the packets that came late,
in all and up to the last stream restart, and the packets received since that restart. -/
structure Interval where
  lossBefore : ℤ := 0
  packets : ℤ := 0
  loss : ℤ := 0
  deriving DecidableEq, Repr

/-- A packet far off waits, one ahead skips the numbers between, others are late. -/
def Interval.place (i : Interval) (distance : ℤ) : Interval :=
  if kDefaultMaxReorderingThreshold < |distance| then i
  else if 0 < distance then { i with packets := i.packets+1, loss := i.loss+distance-1 }
  else { i with packets := i.packets+1, loss := i.loss-1 }

def Interval.receive (i : Interval) (t : TrackStatistics) (packet : RtpPacket) : Interval :=
  if t.ssrc ≠ packet.ssrc then i
  else if t.receivedSeqFirst = -1 then { i with packets := i.packets+1 }
  else
    let distance := t.unwrapped packet-t.receivedSeqMax
    match t.receivedSeqOutOfOrder with
    | none => i.place distance
    | some w =>
        if packet.sequenceNumber = w+1 then ⟨i.loss,2,i.loss⟩
        else { i with packets := i.packets+1, loss := i.loss-1 }.place distance

/-- The statistics and what they have received since the last report. -/
structure Watched where
  statistics : TrackStatistics
  interval : Interval := {}

def watch (s : Watched) : Call → Watched
  | .receivePacket packet isRetransmit nowMs =>
      ⟨s.statistics.receivePacket packet isRetransmit nowMs,
        s.interval.receive s.statistics packet⟩
  | .maybeAppendReportBlockAndReset nowMs =>
      let r := s.statistics.maybeAppendReportBlockAndReset nowMs
      ⟨r.2,if r.1.isSome then {} else s.interval⟩

def TrackStatistics.expSinceLast (t : TrackStatistics) : ℤ := t.receivedSeqMax-t.lastReportSeqMax

def TrackStatistics.lostSinceLast (t : TrackStatistics) : ℤ :=
  int32 (t.cumulativeLoss-t.lastReportCumulativeLoss)

/-- An appended block has the quotient of the two, and nothing of it is lost on the way. -/
def FractionTrue (t : TrackStatistics) : Call → Prop
  | .receivePacket _ _ _ => True
  | .maybeAppendReportBlockAndReset nowMs => ∀ block,
      (t.maybeAppendReportBlockAndReset nowMs).1 = some block →
      (0 < t.expSinceLast ∧ 0 < t.lostSinceLast → t.lostSinceLast ≤ t.expSinceLast ∧
        255*t.lostSinceLast < 2^31 ∧
        (block.fractionLost.toNat : ℤ) = 255*t.lostSinceLast/t.expSinceLast) ∧
      (¬(0 < t.expSinceLast ∧ 0 < t.lostSinceLast) → block.fractionLost = 0)

/-- At a report, no more was lost before the last stream restart than was received since,
and not so much in all that the product with 255 overflows. -/
def LossFits (s : Watched) : Call → Prop
  | .receivePacket _ _ _ => True
  | .maybeAppendReportBlockAndReset nowMs =>
      (s.statistics.maybeAppendReportBlockAndReset nowMs).1.isSome = true →
        s.interval.lossBefore ≤ s.interval.packets ∧ -2^31 ≤ s.interval.loss ∧
          s.interval.loss ≤ (2^31-1)/255

/-- At a report, the loss is a number of 32 bits. -/
def LossSmall (s : Watched) : Call → Prop
  | .receivePacket _ _ _ => True
  | .maybeAppendReportBlockAndReset nowMs =>
      (s.statistics.maybeAppendReportBlockAndReset nowMs).1.isSome = true →
        -2^31 ≤ s.interval.loss ∧ s.interval.loss < 2^31

/-- The counters are the ones of the packets since the last report. -/
structure Follows (s : Watched) : Prop where
  loss : (s.statistics.cumulativeLoss-s.statistics.lastReportCumulativeLoss-s.interval.loss) % 2^32
    = 0
  expected : s.statistics.expSinceLast =
    s.interval.loss-s.interval.lossBefore+s.interval.packets
  packets : 0 ≤ s.interval.packets
  restarted : s.interval.lossBefore = 0 ∨ 0 < s.statistics.expSinceLast
  unstarted : s.statistics.receivedSeqFirst = -1 →
    s.interval = {} ∧ s.statistics.seqUnwrapper.lastValue = none

theorem int32_step (c x : ℤ) : (int32 (c+x)-c-x) % 2^32 = 0 := by
  have h := int32_spec (c+x)
  omega

theorem Follows.lost {s : Watched} (h : Follows s) (hlo : -2^31 ≤ s.interval.loss)
    (hhi : s.interval.loss < 2^31) : s.statistics.lostSinceLast = s.interval.loss := by
  have hloss := h.loss
  have hspec := int32_spec (s.statistics.cumulativeLoss-s.statistics.lastReportCumulativeLoss)
  rw [TrackStatistics.lostSinceLast]
  omega

section Reports
variable {s : Watched} {t : TrackStatistics} {nowMs : ℤ} {block : ReportBlock}

theorem fractionLost_of_block (h : (t.maybeAppendReportBlockAndReset nowMs).1 = some block) :
    block.fractionLost = t.fractionLost := by
  rw [maybeAppendReportBlockAndReset] at h
  split at h
  · exact absurd h.symm (Option.some_ne_none block)
  · rw [← Option.some.inj h]

/-- The quotient of two counts that fit. -/
theorem fractionLost_eq (hexp : 0 < t.expSinceLast) (hlost : 0 < t.lostSinceLast)
    (hle : t.lostSinceLast ≤ t.expSinceLast) (hproduct : 255*t.lostSinceLast < 2^31) :
    (t.fractionLost.toNat : ℤ) = 255*t.lostSinceLast/t.expSinceLast := by
  have hlo : 0 ≤ 255*t.lostSinceLast/t.expSinceLast := Int.ediv_nonneg (by omega) (by omega)
  have hhi : 255*t.lostSinceLast/t.expSinceLast ≤ 255 := by
    apply Int.ediv_le_of_le_mul hexp
    omega
  have hfraction : t.fractionLost =
      BitVec.ofInt 8 ((int32 (255*t.lostSinceLast)).tdiv t.expSinceLast) := if_pos ⟨hexp,hlost⟩
  rw [hfraction,int32_of_range (by omega) (by omega),tdiv_of_nonneg (by omega),
    BitVec.toNat_ofInt]
  omega

/-- A report is right if its interval fits. -/
theorem fractionTrue_of_fits (hf : Follows s) {e : Call} (h : LossFits s e) :
    FractionTrue s.statistics e := by
  cases e with
  | receivePacket packet isRetransmit nowMs => trivial
  | maybeAppendReportBlockAndReset nowMs =>
      intro block hblock
      obtain ⟨hbefore,hlo,hhi⟩ := h (by rw [hblock]; rfl)
      have hlost := hf.lost hlo (by omega)
      have hexp := hf.expected
      rw [fractionLost_of_block hblock]
      constructor
      · rintro ⟨hexpPos,hlostPos⟩
        have hle : s.statistics.lostSinceLast ≤ s.statistics.expSinceLast := by omega
        have hproduct : 255*s.statistics.lostSinceLast < 2^31 := by omega
        exact ⟨hle,hproduct,fractionLost_eq hexpPos hlostPos hle hproduct⟩
      · exact fun hnot => if_neg hnot

/-- A right report of a loss of 32 bits has an interval that fits. -/
theorem fits_of_fractionTrue (hf : Follows s) {e : Call} (hsmall : LossSmall s e)
    (h : FractionTrue s.statistics e) : LossFits s e := by
  cases e with
  | receivePacket packet isRetransmit nowMs => trivial
  | maybeAppendReportBlockAndReset nowMs =>
      intro hsome
      obtain ⟨block,hblock⟩ := Option.isSome_iff_exists.mp hsome
      obtain ⟨hlo,hhi⟩ := hsmall hsome
      have hlost := hf.lost hlo hhi
      have hexp := hf.expected
      have hpackets := hf.packets
      have hright := (h block hblock).1
      have hbefore : s.interval.lossBefore ≤ s.interval.packets := by
        by_contra hmore
        have hpos : 0 < s.statistics.expSinceLast := hf.restarted.resolve_left (by omega)
        have hle := (hright ⟨hpos,by omega⟩).1
        omega
      refine ⟨hbefore,hlo,?_⟩
      by_contra hlarge
      have hproduct := (hright ⟨by omega,by omega⟩).2.1
      omega

end Reports

/-! ### Packets -/

/-- Whether a packet waits for a stream restart, as a number. -/
def waitingPackets (t : TrackStatistics) : ℤ := if t.receivedSeqOutOfOrder.isSome then 1 else 0

/-- A packet that waited is counted as late. -/
def Interval.postponed (i : Interval) (t : TrackStatistics) : Interval :=
  { i with packets := i.packets+waitingPackets t, loss := i.loss-waitingPackets t }

section Receive
variable {t t' : TrackStatistics} {packet : RtpPacket} {i i' : Interval}

theorem counted_cumulativeLoss :
    ((t.counted packet).cumulativeLoss-t.cumulativeLoss+1+waitingPackets t) % 2^32 = 0 := by
  have hone := int32_spec (t.cumulativeLoss-1)
  have htwo := int32_spec (int32 (t.cumulativeLoss-1)-1)
  unfold TrackStatistics.counted waitingPackets
  split
  · simp only [TrackStatistics.entered]
    omega
  · simp only [TrackStatistics.entered]
    omega

/-- The other counters, when the packet is placed. -/
theorem counted_counters :
    (t.counted packet).lastReportCumulativeLoss = t.lastReportCumulativeLoss ∧
      (t.counted packet).receivedSeqMax = t.receivedSeqMax ∧
      (t.counted packet).lastReportSeqMax = t.lastReportSeqMax ∧
      (t.counted packet).receivedSeqFirst = t.receivedSeqFirst := by
  unfold TrackStatistics.counted
  split <;> exact ⟨rfl,rfl,rfl,rfl⟩

theorem receive_placed (hssrc : t.ssrc = packet.ssrc) (hstarted : t.receivedSeqFirst ≠ -1)
    (hnot : ¬Restarts t packet) :
    i.receive t packet = (i.postponed t).place (t.unwrapped packet-t.receivedSeqMax) := by
  rw [Interval.receive,if_neg (not_not.mpr hssrc),if_neg hstarted,Interval.postponed,
    waitingPackets]
  cases hw : t.receivedSeqOutOfOrder with
  | none =>
      simp only [Option.isSome_none,Bool.false_eq_true,if_false,Int.add_zero,Int.sub_zero]
  | some w =>
      simp only [Option.isSome_some,if_true]
      rw [if_neg fun hnext => hnot ⟨w,hw,hnext⟩]

theorem receive_restart (hssrc : t.ssrc = packet.ssrc) (hstarted : t.receivedSeqFirst ≠ -1)
    (hrestart : Restarts t packet) : i.receive t packet = ⟨i.loss,2,i.loss⟩ := by
  obtain ⟨w,hw,hnext⟩ := hrestart
  rw [Interval.receive,if_neg (not_not.mpr hssrc),if_neg hstarted,hw]
  exact if_pos hnext

/-- Counters and interval that change alike: `a` is the loss, `p` the packets. -/
theorem follows_of_change (hf : Follows ⟨t,i⟩) {a p : ℤ} (hp : 0 ≤ p) (hsum : 0 ≤ a+p)
    (hloss : (t'.cumulativeLoss-t.cumulativeLoss-a) % 2^32 = 0)
    (hlast : t'.lastReportCumulativeLoss = t.lastReportCumulativeLoss)
    (hmax : t'.receivedSeqMax = t.receivedSeqMax+a+p)
    (hlastMax : t'.lastReportSeqMax = t.lastReportSeqMax) (hstarted : t'.receivedSeqFirst ≠ -1)
    (hi : i' = ⟨i.lossBefore,i.packets+p,i.loss+a⟩) : Follows ⟨t',i'⟩ := by
  have hcount := hf.loss
  have hexp := hf.expected
  have hpackets := hf.packets
  have hrestarted := hf.restarted
  subst hi
  simp only [TrackStatistics.expSinceLast] at hcount hexp hpackets hrestarted
  constructor <;> simp only [TrackStatistics.expSinceLast]
  case loss => omega
  case expected => omega
  case packets => omega
  case restarted => omega
  case unstarted => exact fun h => absurd h hstarted

theorem follows_far (hf : Follows ⟨t,i⟩) (hssrc : t.ssrc = packet.ssrc)
    (hstarted : t.receivedSeqFirst ≠ -1) (hnot : ¬Restarts t packet)
    (hfar : kDefaultMaxReorderingThreshold < |t.unwrapped packet-t.receivedSeqMax|) :
    Follows ⟨{ t.counted packet with
      receivedSeqOutOfOrder := some packet.sequenceNumber
      cumulativeLoss := int32 ((t.counted packet).cumulativeLoss+1) },i.receive t packet⟩ := by
  have hq : 0 ≤ waitingPackets t := by unfold waitingPackets; split <;> decide
  have hloss := @counted_cumulativeLoss t packet
  have hstep := int32_step (t.counted packet).cumulativeLoss 1
  obtain ⟨hlast,hmax,hlastMax,hfirst⟩ := @counted_counters t packet
  rw [receive_placed hssrc hstarted hnot,Interval.place,if_pos hfar]
  apply follows_of_change hf (a := -waitingPackets t) (p := waitingPackets t) hq (by omega)
  · change (int32 ((t.counted packet).cumulativeLoss+1)-t.cumulativeLoss-_) % 2^32 = 0
    omega
  · exact hlast
  · change (t.counted packet).receivedSeqMax = _
    omega
  · exact hlastMax
  · exact hfirst ▸ hstarted
  · rfl

theorem follows_ahead (hf : Follows ⟨t,i⟩) (hssrc : t.ssrc = packet.ssrc)
    (hstarted : t.receivedSeqFirst ≠ -1) (hnot : ¬Restarts t packet)
    (hnear : |t.unwrapped packet-t.receivedSeqMax| ≤ kDefaultMaxReorderingThreshold)
    (hahead : t.receivedSeqMax < t.unwrapped packet) (nowMs : ℤ) :
    Follows ⟨(t.counted packet).receiveInOrder packet (t.unwrapped packet) nowMs,
      i.receive t packet⟩ := by
  have hq : 0 ≤ waitingPackets t := by unfold waitingPackets; split <;> decide
  have hloss := @counted_cumulativeLoss t packet
  have hstep := int32_step (t.counted packet).cumulativeLoss
    (t.unwrapped packet-(t.counted packet).receivedSeqMax)
  obtain ⟨hlast,hmax,hlastMax,hfirst⟩ := @counted_counters t packet
  rw [receive_placed hssrc hstarted hnot,Interval.place,if_neg (Int.not_lt.mpr hnear),
    if_pos (by omega)]
  apply follows_of_change hf (a := t.unwrapped packet-t.receivedSeqMax-1-waitingPackets t)
    (p := waitingPackets t+1) (by omega) (by omega)
  · change (int32 ((t.counted packet).cumulativeLoss+
      (t.unwrapped packet-(t.counted packet).receivedSeqMax))-t.cumulativeLoss-_) % 2^32 = 0
    omega
  · exact hlast
  · change t.unwrapped packet = _
    omega
  · exact hlastMax
  · exact hfirst ▸ hstarted
  · simp only [Interval.postponed,Interval.mk.injEq,true_and]
    omega

theorem follows_behind (hf : Follows ⟨t,i⟩) (hssrc : t.ssrc = packet.ssrc)
    (hstarted : t.receivedSeqFirst ≠ -1) (hnot : ¬Restarts t packet)
    (hnear : |t.unwrapped packet-t.receivedSeqMax| ≤ kDefaultMaxReorderingThreshold)
    (hbehind : t.unwrapped packet ≤ t.receivedSeqMax) (r : BitVec 32) :
    Follows ⟨{ t.counted packet with retransmittedPackets := r },i.receive t packet⟩ := by
  have hq : 0 ≤ waitingPackets t := by unfold waitingPackets; split <;> decide
  have hloss := @counted_cumulativeLoss t packet
  obtain ⟨hlast,hmax,hlastMax,hfirst⟩ := @counted_counters t packet
  rw [receive_placed hssrc hstarted hnot,Interval.place,if_neg (Int.not_lt.mpr hnear),
    if_neg (by omega)]
  apply follows_of_change hf (a := -1-waitingPackets t) (p := waitingPackets t+1) (by omega)
    (by omega)
  · change ((t.counted packet).cumulativeLoss-t.cumulativeLoss-_) % 2^32 = 0
    omega
  · exact hlast
  · change (t.counted packet).receivedSeqMax = _
    omega
  · exact hlastMax
  · exact hfirst ▸ hstarted
  · simp only [Interval.postponed,Interval.mk.injEq,true_and]
    omega

/-- The second packet of a stream restart: two packets, and what was lost is lost. -/
theorem follows_restart (hf : Follows ⟨t,i⟩) (hssrc : t.ssrc = packet.ssrc)
    (hstarted : t.receivedSeqFirst ≠ -1) (hrestart : Restarts t packet) (nowMs : ℤ) :
    Follows ⟨receiveInOrder { t.counted packet with
        lastReportSeqMax := t.unwrapped packet-2
        receivedSeqMax := t.unwrapped packet-2 } packet (t.unwrapped packet) nowMs,
      i.receive t packet⟩ := by
  have hq : waitingPackets t = 1 := by
    obtain ⟨w,hw,_⟩ := hrestart
    rw [waitingPackets,hw]
    rfl
  have hcount := hf.loss
  have hloss := @counted_cumulativeLoss t packet
  have hstep := int32_step (t.counted packet).cumulativeLoss
    (t.unwrapped packet-(t.unwrapped packet-2))
  obtain ⟨hlast,_,_,hfirst⟩ := @counted_counters t packet
  rw [receive_restart hssrc hstarted hrestart]
  simp only at hcount
  constructor <;> simp only [TrackStatistics.expSinceLast,receiveInOrder]
  case loss => omega
  case expected => omega
  case packets => omega
  case restarted => omega
  case unstarted => exact fun h => absurd (hfirst.symm.trans h) hstarted

theorem follows_first (hf : Follows ⟨t,i⟩) (hssrc : t.ssrc = packet.ssrc)
    (hfirst : t.receivedSeqFirst = -1) (nowMs : ℤ) :
    Follows ⟨receiveInOrder { t.entered packet with
        receivedSeqFirst := t.unwrapped packet
        lastReportSeqMax := t.unwrapped packet-1
        receivedSeqMax := t.unwrapped packet-1 } packet (t.unwrapped packet) nowMs,
      i.receive t packet⟩ := by
  obtain ⟨hi,hlastValue⟩ := hf.unstarted hfirst
  change i = {} at hi
  change t.seqUnwrapper.lastValue = none at hlastValue
  have hcount := hf.loss
  have hentered := int32_step t.cumulativeLoss (-1)
  have hstep := int32_step (int32 (t.cumulativeLoss-1))
    (t.unwrapped packet-(t.unwrapped packet-1))
  have hnumber : t.unwrapped packet = packet.sequenceNumber.toNat := by
    simp only [TrackStatistics.unwrapped,TentativeUnwrapper.unwrapWithoutUpdate,hlastValue]
  rw [Interval.receive,if_neg (not_not.mpr hssrc),if_pos hfirst,hi]
  simp only [hi] at hcount
  simp only [Int.add_neg_one] at hentered
  constructor <;> simp only [TrackStatistics.expSinceLast,receiveInOrder,TrackStatistics.entered]
  case loss => omega
  case expected => omega
  case packets => omega
  case restarted => exact .inl trivial
  case unstarted => exact fun h => absurd (hnumber.symm.trans h) (by omega)

end Receive

/-- What a packet does to the counters it does to the interval. -/
theorem follows_receivePacket {s : Watched} (hf : Follows s) (packet : RtpPacket)
    (isRetransmit : Bool) (nowMs : ℤ) :
    Follows (watch s (.receivePacket packet isRetransmit nowMs)) := by
  have ho := receivePacket_outcome s.statistics packet isRetransmit nowMs
  rw [watch]
  generalize s.statistics.receivePacket packet isRetransmit nowMs = t' at ho ⊢
  cases ho with
  | foreign hssrc =>
      rw [Interval.receive,if_pos hssrc]
      exact hf
  | first hssrc hfirst => exact follows_first hf hssrc hfirst nowMs
  | restart hssrc hstarted hrestart => exact follows_restart hf hssrc hstarted hrestart nowMs
  | far hssrc hstarted hnot hfar => exact follows_far hf hssrc hstarted hnot hfar
  | ahead hssrc hstarted hnot hnear hahead =>
      exact follows_ahead hf hssrc hstarted hnot hnear hahead nowMs
  | behind hssrc hstarted hnot hnear hbehind r =>
      exact follows_behind hf hssrc hstarted hnot hnear hbehind r

/-- An appended block starts a new interval. -/
theorem follows_report {s : Watched} (hf : Follows s) (nowMs : ℤ) :
    Follows (watch s (.maybeAppendReportBlockAndReset nowMs)) := by
  rw [watch,maybeAppendReportBlockAndReset]
  split
  · exact hf
  · rename_i hactive
    constructor <;> simp only [TrackStatistics.expSinceLast,Option.isSome_some,if_true]
    case loss => simp only [Int.sub_self,Int.zero_emod]
    case expected => simp only [Int.sub_self,Int.add_zero]
    case packets => exact Int.le_refl 0
    case restarted => exact .inl trivial
    case unstarted => exact fun h => absurd (.inr h) hactive

theorem follows_watch {s : Watched} (hf : Follows s) (e : Call) : Follows (watch s e) := by
  cases e with
  | receivePacket packet isRetransmit nowMs =>
      exact follows_receivePacket hf packet isRetransmit nowMs
  | maybeAppendReportBlockAndReset nowMs => exact follows_report hf nowMs

theorem follows_fresh (ssrc clockRate : BitVec 32) (enable : Bool) :
    Follows ⟨fresh ssrc clockRate enable,{}⟩ := by
  constructor
  case loss => rfl
  case expected => rfl
  case packets => exact Int.le_refl 0
  case restarted => exact .inl rfl
  case unstarted => exact fun _ => ⟨rfl,rfl⟩

theorem watch_statistics (s : Watched) (es : List Call) :
    (run watch s es).statistics = run call s.statistics es := by
  induction es using List.reverseRecOn with
  | nil => rfl
  | append_singleton es e ih =>
      rw [run_snoc,run_snoc,← ih]
      cases e <;> rfl

/-- Any packets, with reports anywhere between them. -/
theorem run_fraction_true (ssrc clockRate : BitVec 32) (enable : Bool) (es : List Call) :
    (Along (fun before e => LossFits (run watch ⟨fresh ssrc clockRate enable,{}⟩ before) e) es →
      Along (fun before e => FractionTrue (run call (fresh ssrc clockRate enable) before) e) es) ∧
    (Along (fun before e => LossSmall (run watch ⟨fresh ssrc clockRate enable,{}⟩ before) e) es →
      Along (fun before e => FractionTrue (run call (fresh ssrc clockRate enable) before) e) es →
      Along (fun before e =>
        LossFits (run watch ⟨fresh ssrc clockRate enable,{}⟩ before) e) es) := by
  have hfollows : ∀ before, Follows (run watch ⟨fresh ssrc clockRate enable,{}⟩ before) :=
    run_invariant (follows_fresh ssrc clockRate enable) fun s e hf => follows_watch hf e
  have hstatistics : ∀ before, run call (fresh ssrc clockRate enable) before =
      (run watch ⟨fresh ssrc clockRate enable,{}⟩ before).statistics :=
    fun before => (watch_statistics ⟨fresh ssrc clockRate enable,{}⟩ before).symm
  constructor
  · intro hfits before e after hes
    rw [hstatistics]
    exact fractionTrue_of_fits (hfollows before) (hfits before e after hes)
  · intro hsmall htrue before e after hes
    have htrue' : FractionTrue (run call (fresh ssrc clockRate enable) before) e :=
      htrue before e after hes
    rw [hstatistics] at htrue'
    exact fits_of_fractionTrue (hfollows before) (hsmall before e after hes) htrue'

/-- Four packets lost, and a stream restart just before the report. -/
theorem run_fraction_not_true :
    ¬∀ (ssrc clockRate : BitVec 32) (enable : Bool) (es : List Call),
      Along (fun before e =>
        FractionTrue (run call (fresh ssrc clockRate enable) before) e) es := by
  let packet (number : BitVec 16) : RtpPacket :=
    { marker := false, payloadType := 96, paddingSize := 0, sequenceNumber := number,
      timestamp := 0, ssrc := 1, payloadOffset := 12, payloadSize := 0,
      extensionEntries := [], extensionsSize := 0, data := [] }
  let packets : List Call := [.receivePacket (packet 0) false 1000,
    .receivePacket (packet 5) false 1000,.receivePacket (packet 1000) false 1000,
    .receivePacket (packet 1001) false 1000]
  intro h
  have htrue := h 1 90000 false (packets++[.maybeAppendReportBlockAndReset 1000]) packets _ [] rfl
  obtain ⟨block,hblock⟩ := Option.isSome_iff_exists.mp (show
    ((run call (fresh 1 90000 false) packets).maybeAppendReportBlockAndReset 1000).1.isSome = true
    by decide)
  have hle := ((htrue block hblock).1 (by decide)).1
  exact absurd hle (by decide)

end Ylrtc.Statistics
