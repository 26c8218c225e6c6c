import Ylrtc.Base.BitrateEstimator
import Ylrtc.Signaling.LocalDescription
import Ylrtc.Transport.ReportBlocks
import Ylrtc.Transport.StatisticsRuns

/-!
# The integer divisions of a publish track

`PublishStreamTrack` of `transport/publish_stream_track.cpp` with its statistics, where an
integer division by zero has no result. What the retransmission test takes a square root
of a `float` for, the delay that it allows, is a parameter.
-/
namespace Ylrtc.PublishTrack
open BitRate MachineInt Packet RtcpPackets Run SequenceNumber Signaling Statistics TrackStatistics

/-- An integer division. -/
def divide (a b : ℤ) : Option ℤ := if b = 0 then none else some (a.tdiv b)

theorem divide_eq_some {a b : ℤ} (hb : b ≠ 0) : divide a b = some (a.tdiv b) := if_neg hb

/-! ### Statistics -/

/-- The statistics of an SSRC with the estimator of its bitrate. -/
structure Received where
  statistics : TrackStatistics
  incomingBitrate : BitRateEstimator := {}

/-- `IsRetransmitOfOldPacket`. `allowed` gives `max_delay_ms` for the jitter and the frequency. -/
def isRetransmitOfOldPacket (allowed : BitVec 32 → ℤ → ℤ) (t : TrackStatistics)
    (packet : RtpPacket) (nowMs : ℤ) : Option Bool := do
  let frequencyKhz ← divide t.clockRate.toNat 1000
  let timeDiffMs := nowMs-t.lastReceiveTimeMs
  let timestampDiff := packet.timestamp-t.lastReceivedTimestamp
  let rtpTimeStampDiffMs ← divide timestampDiff.toNat frequencyKhz
  some (decide (rtpTimeStampDiffMs+allowed (t.jitterQ4 >>> 4) frequencyKhz < timeDiffMs))

/-- The packet is late, and the statistics look for retransmissions. -/
def TestsRetransmit (t : TrackStatistics) (packet : RtpPacket) : Prop :=
  t.ssrc = packet.ssrc ∧ t.receivedSeqFirst ≠ -1 ∧
    (∀ w ∈ t.receivedSeqOutOfOrder, packet.sequenceNumber ≠ w+1) ∧
    |t.unwrapped packet-t.receivedSeqMax| ≤ kDefaultMaxReorderingThreshold ∧
    t.unwrapped packet ≤ t.receivedSeqMax ∧ t.enableRetransmitDetection = true

instance (t : TrackStatistics) (packet : RtpPacket) : Decidable (TestsRetransmit t packet) :=
  inferInstanceAs (Decidable (_ ∧ _ ∧ _))

/-- The test, where it is made. -/
def testRetransmit (allowed : BitVec 32 → ℤ → ℤ) (t : TrackStatistics) (packet : RtpPacket)
    (nowMs : ℤ) : Option Bool :=
  if TestsRetransmit t packet then isRetransmitOfOldPacket allowed t packet nowMs else some false

/-- `ReceivePacket`, which divides where it tests for a retransmission. -/
def receivePacket (allowed : BitVec 32 → ℤ → ℤ) (r : Received) (packet : RtpPacket) (nowMs : ℤ) :
    Option Received :=
  if r.statistics.ssrc ≠ packet.ssrc then some r
  else do
    let isRetransmit ← testRetransmit allowed r.statistics packet nowMs
    some ⟨r.statistics.receivePacket packet isRetransmit nowMs,
      r.incomingBitrate.addData packet.size nowMs⟩

/-- The quotient of the fraction lost, where a block is appended and packets were lost. -/
def lostQuotient (t : TrackStatistics) (nowMs : ℤ) : Option ℤ :=
  let expSinceLast := t.receivedSeqMax-t.lastReportSeqMax
  let lostSinceLast := int32 (t.cumulativeLoss-t.lastReportCumulativeLoss)
  if ¬(kStatisticsTimeoutMs ≤ nowMs-t.lastReceiveTimeMs ∨ t.receivedSeqFirst = -1) ∧
      0 < expSinceLast ∧ 0 < lostSinceLast then
    divide (int32 (255*lostSinceLast)) expSinceLast
  else some 0

/-- `MaybeAppendReportBlockAndReset`, which divides where packets were lost. -/
def maybeAppendReportBlockAndReset (r : Received) (nowMs : ℤ) : Option Received :=
  (lostQuotient r.statistics nowMs).map fun _ =>
    { r with statistics := (r.statistics.maybeAppendReportBlockAndReset nowMs).2 }

/-- The quotient of `Rate` behind its tests. -/
def rateQuotient (s : BitRateEstimator) (nowMs : ℤ) : Option ℤ :=
  let activeWindowSize := s.activeWindowSize nowMs
  if s.numSamples = 0 ∨ activeWindowSize ≤ 1 ∨
      s.numSamples ≤ 1 ∧ activeWindowSize < kDefaultWindowSizeMillis ∨ s.overflow = true then
    some 0
  else divide (int64 (s.totalBytes*1000)) activeWindowSize

/-- `BitrateReceived`, which divides by the active window. -/
def bitrateReceived (r : Received) (nowMs : ℤ) : Option (ℤ×Received) :=
  (rateQuotient (r.incomingBitrate.eraseOld nowMs) nowMs).map fun _ =>
    let rate := r.incomingBitrate.rate nowMs
    (rate.1.getD 0,{ r with incomingBitrate := rate.2 })

/-! ### Tracks -/

abbrev kDefaultAudioReportIntervalMillis : ℤ := 5000
abbrev kDefaultVideoReportIntervalMillis : ℤ := 1000

structure PublishStreamTrack where
  configuration : TrackConfiguration
  trackStatistics : Received
  rtxTrackStatistics : Option Received := none

/-- The statistics of a track for retransmissions. The payload type goes where the clock rate
belongs. -/
def rtxStatistics (ssrc : BitVec 32) (configuration : TrackConfiguration) : Received :=
  ⟨{ ssrc := ssrc, clockRate := configuration.rtxPayloadType.setWidth 32 },{}⟩

/-- The constructor. -/
def make (configuration : TrackConfiguration) : PublishStreamTrack where
  configuration := configuration
  trackStatistics := ⟨{
    ssrc := configuration.ssrc
    clockRate := configuration.clockRate
    enableRetransmitDetection := !configuration.rtxEnabled },{}⟩
  rtxTrackStatistics :=
    if configuration.rtxEnabled then
      configuration.rtxSsrc.map fun ssrc => rtxStatistics ssrc configuration
    else none

def setRtxSsrc (track : PublishStreamTrack) (ssrc : BitVec 32) : PublishStreamTrack :=
  if track.configuration.rtxEnabled then
    { track with
      configuration := { track.configuration with rtxSsrc := some ssrc }
      rtxTrackStatistics := some (rtxStatistics ssrc track.configuration) }
  else track

/-- `ReceiveRtpPacket`, as far as the statistics go. -/
def receiveRtpPacket (allowed : BitVec 32 → ℤ → ℤ) (track : PublishStreamTrack)
    (packet : RtpPacket) (nowMs : ℤ) : Option PublishStreamTrack :=
  if track.configuration.rtxEnabled = true ∧ track.configuration.rtxSsrc = some packet.ssrc then
    match track.rtxTrackStatistics with
    | some r => do
        let r ← receivePacket allowed r packet nowMs
        some { track with rtxTrackStatistics := some r }
    | none => some track
  else do
    let r ← receivePacket allowed track.trackStatistics packet nowMs
    some { track with trackStatistics := r }

/-- The calculated interval between reports. -/
def reportInterval (audio : Bool) (rate : ℤ) : Option ℤ :=
  if audio then some kDefaultAudioReportIntervalMillis
  else if rate.tdiv 1000 ≠ 0 then
    (divide (360*1000) (rate.tdiv 1000)).map fun interval =>
      min interval kDefaultVideoReportIntervalMillis
  else some kDefaultVideoReportIntervalMillis

/-- The report of the statistics for retransmissions, if there are any. -/
def reportRtx (nowMs : ℤ) : Option Received → Option (Option Received)
  | some r => (maybeAppendReportBlockAndReset r nowMs).map some
  | none => some none

/-- `OnTimerTimeout`, as far as the statistics and the interval go. The clock is read by
each of the calls. -/
def onTimerTimeout (track : PublishStreamTrack) (nowMs rtxMs rateMs : ℤ) :
    Option PublishStreamTrack := do
  let r ← maybeAppendReportBlockAndReset track.trackStatistics nowMs
  let rtx ← reportRtx rtxMs track.rtxTrackStatistics
  if track.configuration.audio then
    some { track with trackStatistics := r, rtxTrackStatistics := rtx }
  else
    let rate ← bitrateReceived r rateMs
    let _ ← reportInterval track.configuration.audio rate.1
    some { track with trackStatistics := rate.2, rtxTrackStatistics := rtx }

inductive Event where
  | receiveRtpPacket (packet : RtpPacket) (nowMs : ℤ)
  | setRtxSsrc (ssrc : BitVec 32)
  | onTimerTimeout (nowMs rtxMs rateMs : ℤ)

/-- A track goes on as long as no divisor is zero. -/
def step (allowed : BitVec 32 → ℤ → ℤ) (track : Option PublishStreamTrack) :
    Event → Option PublishStreamTrack
  | .receiveRtpPacket packet nowMs => do receiveRtpPacket allowed (← track) packet nowMs
  | .setRtxSsrc ssrc => track.map fun track => setRtxSsrc track ssrc
  | .onTimerTimeout nowMs rtxMs rateMs => do onTimerTimeout (← track) nowMs rtxMs rateMs

/-! ### Divisors -/

/-- The two members that the retransmission test depends on are never changed. -/
theorem receivePacket_kept (t : TrackStatistics) (packet : RtpPacket) (isRetransmit : Bool)
    (nowMs : ℤ) :
    (t.receivePacket packet isRetransmit nowMs).clockRate = t.clockRate ∧
      (t.receivePacket packet isRetransmit nowMs).enableRetransmitDetection =
        t.enableRetransmitDetection := by
  have hcounted : (t.counted packet).clockRate = t.clockRate ∧
      (t.counted packet).enableRetransmitDetection = t.enableRetransmitDetection := by
    unfold TrackStatistics.counted
    split <;> exact ⟨rfl,rfl⟩
  have ho := receivePacket_outcome t packet isRetransmit nowMs
  generalize t.receivePacket packet isRetransmit nowMs = t' at ho ⊢
  cases ho with
  | foreign => exact ⟨rfl,rfl⟩
  | first => exact ⟨rfl,rfl⟩
  | restart => exact hcounted
  | far => exact hcounted
  | ahead => exact hcounted
  | behind => exact hcounted

theorem report_kept (t : TrackStatistics) (nowMs : ℤ) :
    (t.maybeAppendReportBlockAndReset nowMs).2.clockRate = t.clockRate ∧
      (t.maybeAppendReportBlockAndReset nowMs).2.enableRetransmitDetection =
        t.enableRetransmitDetection := by
  rw [TrackStatistics.maybeAppendReportBlockAndReset]
  split <;> exact ⟨rfl,rfl⟩

/-- The retransmission test is made with a frequency of a kilohertz at least, or not at all. -/
def Received.Guarded (r : Received) : Prop :=
  r.statistics.enableRetransmitDetection = false ∨ 1000 ≤ r.statistics.clockRate.toNat

section Statistics
variable {r : Received}

theorem isRetransmitOfOldPacket_isSome (allowed : BitVec 32 → ℤ → ℤ) (packet : RtpPacket) (nowMs : ℤ)
    (hclock : 1000 ≤ r.statistics.clockRate.toNat) :
    ∃ b, isRetransmitOfOldPacket allowed r.statistics packet nowMs = some b := by
  have hkhz : ((r.statistics.clockRate.toNat : ℤ)).tdiv 1000 ≠ 0 := by
    rw [tdiv_of_nonneg (Int.natCast_nonneg _)]
    omega
  rw [isRetransmitOfOldPacket,divide_eq_some (by decide)]
  simp only [Option.bind_eq_bind,Option.bind_some,divide_eq_some hkhz]
  exact ⟨_,rfl⟩

theorem receivePacket_guarded (allowed : BitVec 32 → ℤ → ℤ) (hr : r.Guarded)
    (packet : RtpPacket) (nowMs : ℤ) :
    ∃ r', receivePacket allowed r packet nowMs = some r' ∧ r'.Guarded := by
  unfold receivePacket
  split
  · exact ⟨r,rfl,hr⟩
  · have htest : ∃ b, testRetransmit allowed r.statistics packet nowMs = some b := by
      unfold testRetransmit
      split
      · rename_i htests
        obtain ⟨_,_,_,_,_,henable⟩ := htests
        cases hr with
        | inl hoff => exact absurd (henable.symm.trans hoff) (by decide)
        | inr hclock => exact isRetransmitOfOldPacket_isSome allowed packet nowMs hclock
      · exact ⟨false,rfl⟩
    obtain ⟨b,hb⟩ := htest
    have hkept := receivePacket_kept r.statistics packet b nowMs
    rw [hb]
    refine ⟨_,rfl,?_⟩
    rw [Received.Guarded]
    simp only [hkept]
    exact hr

theorem lostQuotient_isSome (t : TrackStatistics) (nowMs : ℤ) :
    ∃ q, lostQuotient t nowMs = some q := by
  unfold lostQuotient
  simp only
  split
  · rename_i hlost
    exact ⟨_,divide_eq_some (Int.ne_of_gt hlost.2.1)⟩
  · exact ⟨0,rfl⟩

theorem report_guarded (hr : r.Guarded) (nowMs : ℤ) :
    ∃ r', maybeAppendReportBlockAndReset r nowMs = some r' ∧ r'.Guarded := by
  obtain ⟨q,hq⟩ := lostQuotient_isSome r.statistics nowMs
  have hkept := report_kept r.statistics nowMs
  rw [maybeAppendReportBlockAndReset,hq]
  refine ⟨_,rfl,?_⟩
  rw [Received.Guarded]
  simp only [hkept]
  exact hr

theorem reportRtx_guarded {rtx : Option Received} (hr : ∀ r ∈ rtx, r.Guarded) (nowMs : ℤ) :
    ∃ rtx', reportRtx nowMs rtx = some rtx' ∧ ∀ r ∈ rtx', r.Guarded := by
  cases rtx with
  | none => exact ⟨none,rfl,hr⟩
  | some r =>
      obtain ⟨r',hr',hguarded⟩ := report_guarded (hr r rfl) nowMs
      rw [reportRtx,hr']
      refine ⟨some r',rfl,?_⟩
      rintro _ ⟨⟩
      exact hguarded

theorem bitrateReceived_statistics (r : Received) (nowMs : ℤ) :
    ∃ rate r', bitrateReceived r nowMs = some (rate,r') ∧ r'.statistics = r.statistics := by
  have hdivide : ∃ q, rateQuotient (r.incomingBitrate.eraseOld nowMs) nowMs = some q := by
    unfold rateQuotient
    simp only
    split
    · exact ⟨0,rfl⟩
    · rename_i hwindow
      exact ⟨_,divide_eq_some (by omega)⟩
  obtain ⟨q,hq⟩ := hdivide
  rw [bitrateReceived,hq]
  exact ⟨_,_,rfl,rfl⟩

theorem reportInterval_isSome (audio : Bool) (rate : ℤ) :
    ∃ interval, reportInterval audio rate = some interval := by
  unfold reportInterval
  split
  · exact ⟨_,rfl⟩
  · split
    · rename_i hrate
      rw [divide_eq_some hrate]
      exact ⟨_,rfl⟩
    · exact ⟨_,rfl⟩

end Statistics

/-- All statistics of a track are guarded. -/
structure Guarded (track : PublishStreamTrack) : Prop where
  main : track.trackStatistics.Guarded
  rtx : ∀ r ∈ track.rtxTrackStatistics, r.Guarded

theorem guarded_make {configuration : TrackConfiguration}
    (h : configuration.rtxEnabled = true ∨ 1000 ≤ configuration.clockRate.toNat) :
    Guarded (make configuration) := by
  constructor
  case main =>
    rw [Received.Guarded,make]
    exact h.imp_left fun hrtx => by rw [hrtx]; rfl
  case rtx =>
    intro r hr
    rw [make] at hr
    split at hr
    · obtain ⟨ssrc,_,rfl⟩ := Option.map_eq_some_iff.mp hr
      exact .inl rfl
    · exact absurd hr.symm (Option.some_ne_none r)

/-- No event divides a guarded track by zero. -/
theorem step_guarded (allowed : BitVec 32 → ℤ → ℤ) {track : PublishStreamTrack}
    (ht : Guarded track) (e : Event) :
    ∃ track', step allowed (some track) e = some track' ∧ Guarded track' := by
  cases e with
  | receiveRtpPacket packet nowMs =>
      simp only [step,Option.bind_eq_bind,Option.bind_some,receiveRtpPacket]
      split
      · cases hrtx : track.rtxTrackStatistics with
        | none => exact ⟨track,rfl,ht⟩
        | some r =>
            obtain ⟨r',hr',hguarded⟩ :=
              receivePacket_guarded allowed (ht.rtx r hrtx) packet nowMs
            simp only [hr',Option.bind_some]
            refine ⟨_,rfl,ht.main,?_⟩
            rintro _ ⟨⟩
            exact hguarded
      · obtain ⟨r',hr',hguarded⟩ :=
          receivePacket_guarded allowed ht.main packet nowMs
        rw [hr',Option.bind_some]
        exact ⟨_,rfl,hguarded,ht.rtx⟩
  | setRtxSsrc ssrc =>
      simp only [step,Option.map_some,setRtxSsrc]
      split
      · refine ⟨_,rfl,ht.main,?_⟩
        rintro _ ⟨⟩
        exact .inl rfl
      · exact ⟨_,rfl,ht⟩
  | onTimerTimeout nowMs rtxMs rateMs =>
      obtain ⟨r,hr,hmain⟩ := report_guarded ht.main nowMs
      obtain ⟨rtx,hreported,hguarded⟩ := reportRtx_guarded ht.rtx rtxMs
      obtain ⟨rate,r',hrate,hsame⟩ := bitrateReceived_statistics r rateMs
      obtain ⟨interval,hinterval⟩ := reportInterval_isSome track.configuration.audio rate
      simp only [step,Option.bind_eq_bind,Option.bind_some,onTimerTimeout,hr,hreported]
      split
      · exact ⟨_,rfl,hmain,hguarded⟩
      · simp only [hrate,Option.bind_some,hinterval]
        refine ⟨_,rfl,?_,hguarded⟩
        rw [Received.Guarded,hsame]
        exact hmain

theorem run_guarded (allowed : BitVec 32 → ℤ → ℤ) {track : PublishStreamTrack}
    (ht : Guarded track) (es : List Event) :
    ∃ track', run (step allowed) (some track) es = some track' ∧ Guarded track' := by
  induction es using List.reverseRecOn with
  | nil => exact ⟨track,rfl,ht⟩
  | append_singleton es e ih =>
      obtain ⟨track',hrun,ht'⟩ := ih
      rw [run_snoc,hrun]
      exact step_guarded allowed ht' e

/-- A packet of a track with some sequence number. -/
def packetOf (ssrc : BitVec 32) (sequenceNumber : BitVec 16) : RtpPacket where
  marker := false
  payloadType := 96
  paddingSize := 0
  sequenceNumber := sequenceNumber
  timestamp := 0
  ssrc := ssrc
  payloadOffset := 12
  payloadSize := 0
  extensionEntries := []
  extensionsSize := 0
  data := []

/-- A packet behind the first one is tested for a retransmission. -/
theorem testsRetransmit_second {t : TrackStatistics} {ssrc : BitVec 32}
    (hcounts : Counts ssrc 1 1 0 t) (henable : t.enableRetransmitDetection = true) :
    TestsRetransmit t (packetOf ssrc 0) := by
  have hoffset : serialOffset 0 (low16 1) = -1 := by decide
  have hu : t.unwrapped (packetOf ssrc 0) = -1 := by
    rw [TrackStatistics.unwrapped,
      TentativeUnwrapper.unwrapWithoutUpdate_some _ _ hcounts.lastValue]
    exact hoffset
  refine ⟨hcounts.ssrc_eq,hcounts.started,?_,?_,?_,henable⟩
  · rw [hcounts.waiting]
    exact fun w hw => absurd hw.symm (Option.some_ne_none w)
  · rw [hu,hcounts.seqMax_eq]
    decide
  · rw [hu,hcounts.seqMax_eq]
    decide

/-- The test divides by zero below a kilohertz. -/
theorem receivePacket_of_slow (allowed : BitVec 32 → ℤ → ℤ) {r : Received} {packet : RtpPacket}
    (h : TestsRetransmit r.statistics packet) (hclock : r.statistics.clockRate.toNat < 1000)
    (nowMs : ℤ) : receivePacket allowed r packet nowMs = none := by
  have hkhz : ((r.statistics.clockRate.toNat : ℤ)).tdiv 1000 = 0 := by
    rw [tdiv_of_nonneg (Int.natCast_nonneg _)]
    omega
  have htest : testRetransmit allowed r.statistics packet nowMs = none := by
    rw [testRetransmit,if_pos h,isRetransmitOfOldPacket,divide_eq_some (by decide)]
    simp only [Option.bind_eq_bind,Option.bind_some,hkhz]
    rfl
  rw [receivePacket,if_neg (not_not.mpr h.1),htest]
  rfl

theorem receivePacket_untested (allowed : BitVec 32 → ℤ → ℤ) {r : Received} {packet : RtpPacket}
    (hssrc : r.statistics.ssrc = packet.ssrc) (h : ¬TestsRetransmit r.statistics packet)
    (nowMs : ℤ) : receivePacket allowed r packet nowMs =
      some ⟨r.statistics.receivePacket packet false nowMs,
        r.incomingBitrate.addData packet.size nowMs⟩ := by
  rw [receivePacket,if_neg (not_not.mpr hssrc),testRetransmit,if_neg h]
  rfl

/-- Without a track for retransmissions and below a kilohertz, two packets are enough. -/
theorem run_late_packet (allowed : BitVec 32 → ℤ → ℤ) {configuration : TrackConfiguration}
    (hrtx : configuration.rtxEnabled = false) (hclock : configuration.clockRate.toNat < 1000) :
    run (step allowed) (some (make configuration))
      [.receiveRtpPacket (packetOf configuration.ssrc 1) 0,
        .receiveRtpPacket (packetOf configuration.ssrc 0) 0] = none := by
  let fresh := Statistics.fresh configuration.ssrc configuration.clockRate true
  have hmain : (make configuration).trackStatistics = ⟨fresh,{}⟩ := by
    rw [make,hrtx]
    rfl
  have hnotRtx : ∀ packet : RtpPacket, ¬((make configuration).configuration.rtxEnabled = true ∧
      (make configuration).configuration.rtxSsrc = some packet.ssrc) := by
    intro packet h
    exact absurd (hrtx.symm.trans h.1) (by decide)
  have hfirst : ¬TestsRetransmit fresh (packetOf configuration.ssrc 1) := fun h => h.2.1 rfl
  have hone := receivePacket_untested allowed (r := ⟨fresh,{}⟩) rfl hfirst 0
  have hkept := receivePacket_kept fresh (packetOf configuration.ssrc 1) false 0
  have hcounts : Counts configuration.ssrc 1 1 0
      (fresh.receivePacket (packetOf configuration.ssrc 1) false 0) :=
    receivePacket_first rfl rfl (by decide) (by decide)
  have hslow : (fresh.receivePacket (packetOf configuration.ssrc 1) false 0).clockRate.toNat <
      1000 := by
    rw [hkept.1]
    exact hclock
  simp only [run,List.foldl_cons,List.foldl_nil,step,Option.bind_eq_bind,Option.bind_some,
    receiveRtpPacket]
  rw [if_neg (hnotRtx _),hmain,hone]
  simp only [Option.bind_some]
  rw [if_neg (hnotRtx _),
    receivePacket_of_slow allowed (testsRetransmit_second hcounts hkept.2) hslow]
  rfl

/-- A track never divides by zero exactly where it has a track for retransmissions, or a
clock of a kilohertz at least. -/
theorem runs_isSome_iff (allowed : BitVec 32 → ℤ → ℤ) (configuration : TrackConfiguration) :
    (∀ es, (run (step allowed) (some (make configuration)) es).isSome = true) ↔
      configuration.rtxEnabled = true ∨ 1000 ≤ configuration.clockRate.toNat := by
  constructor
  · intro h
    by_contra hnot
    rw [not_or,Bool.not_eq_true,Nat.not_le] at hnot
    have hsome := h [.receiveRtpPacket (packetOf configuration.ssrc 1) 0,
      .receiveRtpPacket (packetOf configuration.ssrc 0) 0]
    rw [run_late_packet allowed hnot.1 hnot.2] at hsome
    exact Bool.noConfusion hsome
  · intro h es
    obtain ⟨track,htrack,_⟩ := run_guarded allowed (guarded_make h) es
    rw [htrack]
    rfl

end Ylrtc.PublishTrack
