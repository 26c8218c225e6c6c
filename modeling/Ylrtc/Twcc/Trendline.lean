import Mathlib.Data.List.DropRight
import Ylrtc.Lib.LeastSquares
import Ylrtc.Lib.Run

/-!
# The trend of the delay

`TrendlineEstimator` of `congestion_controller/trendline_estimator.cpp`, which judges from the
delays of `InterArrivalDelta` whether the bandwidth is overused. Its arithmetic is a parameter:
what is said of its runs holds of doubles, and of exact numbers, where the slope is that of least
squares. The settings stand as they are by default, since nothing sets them: the packets are not
sorted and the slope is not capped.
-/
namespace Ylrtc.Trendline
open Run

abbrev kDefaultTrendlineWindowSize : ℕ := 20
abbrev kMinNumDeltas : ℕ := 60
abbrev kDeltaCounterMax : ℕ := 1000
abbrev kMaxTimeDeltaMs : ℤ := 100

/-- The operations on `double`. Of these only the literals are assumed to be rounded in order. -/
structure Arithmetic (F : Type) where
  literal : ℚ → F
  ofInt : ℤ → F
  add : F → F → F
  sub : F → F → F
  mul : F → F → F
  div : F → F → F
  neg : F → F
  abs : F → F
  lt : F → F → Bool
  le : F → F → Bool
  eq : F → F → Bool
  literal_lt : ∀ p q, p ≤ q → lt (literal q) (literal p) = false

inductive BandwidthUsage where
  | kBwNormal
  | kBwUnderusing
  | kBwOverusing
  deriving DecidableEq

structure PacketTiming (F : Type) where
  arrivalTimeMs : F
  smoothedDelayMs : F
  rawDelayMs : F

variable {F : Type} (A : Arithmetic F)

namespace Arithmetic

/-- A loop that adds up. -/
def sum {α : Type} (f : α → F) (xs : List α) : F :=
  xs.foldl (fun s x => A.add s (f x)) (A.literal 0)

/-- `std::clamp`. -/
def clamp (v lo hi : F) : F := if A.lt v lo then lo else if A.lt hi v then hi else v

end Arithmetic

def linearFitSlope (packets : List (PacketTiming F)) : Option F :=
  let n := A.ofInt packets.length
  let xAvg := A.div (A.sum PacketTiming.arrivalTimeMs packets) n
  let yAvg := A.div (A.sum PacketTiming.smoothedDelayMs packets) n
  let numerator := A.sum
    (fun p => A.mul (A.sub p.arrivalTimeMs xAvg) (A.sub p.smoothedDelayMs yAvg)) packets
  let denominator := A.sum
    (fun p => A.mul (A.sub p.arrivalTimeMs xAvg) (A.sub p.arrivalTimeMs xAvg)) packets
  if A.eq denominator (A.literal 0) then none else some (A.div numerator denominator)

structure TrendlineEstimator (F : Type) where
  numOfDeltas : ℕ := 0
  firstArrivalTimeMs : ℤ := -1
  accumulatedDelay : F
  smoothedDelay : F
  delayHist : List (PacketTiming F) := []
  threshold : F
  lastUpdateMs : ℤ := -1
  prevTrend : F
  timeOverUsing : F
  overuseCounter : ℕ := 0
  hypothesis : BandwidthUsage := .kBwNormal

/-- The constructor. -/
def initial : TrendlineEstimator F where
  accumulatedDelay := A.literal 0
  smoothedDelay := A.literal 0
  threshold := A.literal (25/2)
  prevTrend := A.literal 0
  timeOverUsing := A.literal (-1)

/-- The arguments of `Update` that are used. -/
structure Call (F : Type) where
  recvDeltaMs : F
  sendDeltaMs : F
  arrivalTimeMs : ℤ
  calculatedDeltas : Bool

namespace TrendlineEstimator

def updateThreshold (s : TrendlineEstimator F) (modifiedTrend : F) (nowMs : ℤ) :
    TrendlineEstimator F :=
  let lastUpdateMs := if s.lastUpdateMs = -1 then nowMs else s.lastUpdateMs
  if A.lt (A.add s.threshold (A.literal 15)) (A.abs modifiedTrend) then
    { s with lastUpdateMs := nowMs }
  else
    let k := A.literal (if A.lt (A.abs modifiedTrend) s.threshold then 39/1000 else 87/10000)
    let timeDeltaMs := min (nowMs-lastUpdateMs) kMaxTimeDeltaMs
    let threshold := A.add s.threshold
      (A.mul (A.mul k (A.sub (A.abs modifiedTrend) s.threshold)) (A.ofInt timeDeltaMs))
    { s with
      threshold := A.clamp threshold (A.literal 6) (A.literal 600)
      lastUpdateMs := nowMs }

def modifiedTrend (s : TrendlineEstimator F) (trend : F) : F :=
  A.mul (A.mul (A.ofInt (min s.numOfDeltas kMinNumDeltas : ℕ)) trend) (A.literal 4)

/-- The timer: half of the time since the previous sample, and then all of it. -/
def addTime (timeOverUsing tsDelta : F) : F :=
  if A.eq timeOverUsing (A.literal (-1)) then A.div tsDelta (A.literal 2)
  else A.add timeOverUsing tsDelta

/-- The branch of `Detect` in which the trend is over the threshold. -/
def overThreshold (s : TrendlineEstimator F) (trend tsDelta : F) : TrendlineEstimator F :=
  let timeOverUsing := addTime A s.timeOverUsing tsDelta
  let overuseCounter := s.overuseCounter+1
  if A.lt (A.literal 10) timeOverUsing && 1 < overuseCounter && A.le s.prevTrend trend then
    { s with timeOverUsing := A.literal 0, overuseCounter := 0, hypothesis := .kBwOverusing }
  else { s with timeOverUsing := timeOverUsing, overuseCounter := overuseCounter }

/-- Its other branches. -/
def judge (s : TrendlineEstimator F) (usage : BandwidthUsage) : TrendlineEstimator F :=
  { s with timeOverUsing := A.literal (-1), overuseCounter := 0, hypothesis := usage }

def detect (s : TrendlineEstimator F) (trend tsDelta : F) (nowMs : ℤ) : TrendlineEstimator F :=
  if s.numOfDeltas < 2 then { s with hypothesis := .kBwNormal }
  else
    let modifiedTrend := s.modifiedTrend A trend
    let t :=
      if A.lt s.threshold modifiedTrend then s.overThreshold A trend tsDelta
      else s.judge A
        (if A.lt modifiedTrend (A.neg s.threshold) then .kBwUnderusing else .kBwNormal)
    { t with prevTrend := trend }.updateThreshold A modifiedTrend nowMs

/-- What the filter makes of a call. -/
def timing (s : TrendlineEstimator F) (c : Call F) : PacketTiming F :=
  let firstArrivalTimeMs :=
    if s.firstArrivalTimeMs = -1 then c.arrivalTimeMs else s.firstArrivalTimeMs
  let accumulatedDelay := A.add s.accumulatedDelay (A.sub c.recvDeltaMs c.sendDeltaMs)
  let smoothingCoef := A.literal (9/10)
  ⟨A.ofInt (c.arrivalTimeMs-firstArrivalTimeMs),
    A.add (A.mul smoothingCoef s.smoothedDelay)
      (A.mul (A.sub (A.literal 1) smoothingCoef) accumulatedDelay),accumulatedDelay⟩

/-- The last packets of a list. -/
def window {α : Type} (xs : List α) : List α :=
  if kDefaultTrendlineWindowSize < xs.length then xs.tail else xs

def addTiming (s : TrendlineEstimator F) (c : Call F) : TrendlineEstimator F :=
  { s with
    numOfDeltas := min (s.numOfDeltas+1) kDeltaCounterMax
    firstArrivalTimeMs :=
      if s.firstArrivalTimeMs = -1 then c.arrivalTimeMs else s.firstArrivalTimeMs
    accumulatedDelay := (s.timing A c).rawDelayMs
    smoothedDelay := (s.timing A c).smoothedDelayMs
    delayHist := window (s.delayHist++[s.timing A c]) }

def trend (s : TrendlineEstimator F) : F :=
  if s.delayHist.length = kDefaultTrendlineWindowSize then
    (linearFitSlope A s.delayHist).getD s.prevTrend
  else s.prevTrend

def updateTrendline (s : TrendlineEstimator F) (c : Call F) : TrendlineEstimator F :=
  let s := s.addTiming A c
  s.detect A (s.trend A) c.sendDeltaMs c.arrivalTimeMs

def update (s : TrendlineEstimator F) (c : Call F) : TrendlineEstimator F :=
  if c.calculatedDeltas then s.updateTrendline A c else s

end TrendlineEstimator
open TrendlineEstimator

/-! ### What is judged -/

/-- What `Detect` looks at. -/
structure Sample (F : Type) where
  modifiedTrend : F
  threshold : F
  tsDelta : F
  rising : Bool

def Sample.over (x : Sample F) : Bool := A.lt x.threshold x.modifiedTrend

def Sample.usage (x : Sample F) : BandwidthUsage :=
  if A.lt x.modifiedTrend (A.neg x.threshold) then .kBwUnderusing else .kBwNormal

/-- The estimator with all that it was given. -/
structure Observed (F : Type) where
  estimator : TrendlineEstimator F
  timings : List (PacketTiming F) := []
  samples : List (Sample F) := []

def sample (s : TrendlineEstimator F) (tsDelta : F) : Sample F :=
  ⟨s.modifiedTrend A (s.trend A),s.threshold,tsDelta,A.le s.prevTrend (s.trend A)⟩

def step (o : Observed F) (c : Call F) : Observed F :=
  if c.calculatedDeltas then
    let s := o.estimator.addTiming A c
    { estimator := o.estimator.update A c
      timings := o.timings++[o.estimator.timing A c]
      samples := if s.numOfDeltas < 2 then o.samples else o.samples++[sample A s c.sendDeltaMs] }
  else o

/-- The samples over the threshold that came last. -/
def recent (xs : List (Sample F)) : List (Sample F) := xs.rtakeWhile (Sample.over A)

/-- How long the threshold was passed, as the estimator counts: from halfway to the first
sample. -/
def overTime (xs : List (Sample F)) : F :=
  xs.foldl (fun t x => addTime A t x.tsDelta) (A.literal (-1))

/-- Samples that show overuse: more than one, for more than ten milliseconds, and the trend does
not fall. -/
structure Shows (xs : List (Sample F)) : Prop where
  several : 2 ≤ xs.length
  long : A.lt (A.literal 10) (overTime A xs) = true
  rising : ∃ x, xs.getLast? = some x ∧ x.rising = true

def Overused (xs : List (Sample F)) : Prop := ∃ block, block <+: recent A xs ∧ Shows A block

/-- What the last sample showed that was not over the threshold. -/
def settled (xs : List (Sample F)) : BandwidthUsage :=
  match xs.reverse.find? (fun x => !x.over A) with
  | none => .kBwNormal
  | some x => x.usage A

variable {A}

theorem recent_snoc (xs : List (Sample F)) (x : Sample F) :
    recent A (xs++[x]) = if x.over A then recent A xs++[x] else [] :=
  List.rtakeWhile_concat _ _ _

theorem settled_snoc (xs : List (Sample F)) (x : Sample F) :
    settled A (xs++[x]) = if x.over A then settled A xs else x.usage A := by
  rw [settled,List.reverse_append,List.reverse_singleton,List.singleton_append,List.find?_cons]
  cases x.over A with
  | true => rfl
  | false => rfl

theorem overTime_snoc (xs : List (Sample F)) (x : Sample F) :
    overTime A (xs++[x]) = addTime A (overTime A xs) x.tsDelta := by
  rw [overTime,List.foldl_append]
  rfl

theorem overused_snoc {xs : List (Sample F)} {x : Sample F} : Overused A (xs++[x]) ↔
    x.over A = true ∧ (Overused A xs ∨ Shows A (recent A xs++[x])) := by
  rw [Overused,recent_snoc]
  cases hover : x.over A with
  | false =>
      simp only [Bool.false_eq_true,if_false,false_and,iff_false]
      rintro ⟨block,hblock,hshows⟩
      have hlength := hblock.length_le.trans' hshows.several
      exact absurd hlength (by simp)
  | true =>
      simp only [if_true,true_and]
      constructor
      · rintro ⟨block,hblock,hshows⟩
        cases List.prefix_concat_iff.mp hblock with
        | inl hall => exact .inr (hall ▸ hshows)
        | inr hbefore => exact .inl ⟨block,hbefore,hshows⟩
      · rintro (⟨block,hblock,hshows⟩ | hshows)
        · exact ⟨block,hblock.trans (List.prefix_append _ _),hshows⟩
        · exact ⟨_,List.prefix_refl _,hshows⟩

variable (A)

/-- The judgement follows from the samples: overuse that they show, or what the last one showed
below the threshold. -/
structure Judged (xs : List (Sample F)) (s : TrendlineEstimator F) : Prop where
  overusing : Overused A xs → s.hypothesis = .kBwOverusing
  settled : ¬Overused A xs → s.hypothesis = settled A xs
  time : ¬Overused A xs → s.timeOverUsing = overTime A (recent A xs)
  counter : ¬Overused A xs → s.overuseCounter = (recent A xs).length

structure Inv (o : Observed F) : Prop where
  hist : o.estimator.delayHist =
    o.timings.drop (o.timings.length-kDefaultTrendlineWindowSize)
  count : o.estimator.numOfDeltas = min o.timings.length kDeltaCounterMax
  few : o.timings.length < 2 → o.samples = []
  low : A.lt o.estimator.threshold (A.literal 6) = false
  high : A.lt (A.literal 600) o.estimator.threshold = false
  judged : Judged A o.samples o.estimator

variable {A} {xs : List (Sample F)} {x : Sample F} {s : TrendlineEstimator F}

theorem not_overused_nil : ¬Overused A ([] : List (Sample F)) := by
  rintro ⟨block,hblock,hshows⟩
  have hnil : block = [] := List.prefix_nil.mp hblock
  rw [hnil] at hshows
  exact absurd hshows.several (by simp)

theorem Judged.congr (h : Judged A xs s) {t : TrendlineEstimator F}
    (hhypothesis : t.hypothesis = s.hypothesis) (htime : t.timeOverUsing = s.timeOverUsing)
    (hcounter : t.overuseCounter = s.overuseCounter) : Judged A xs t where
  overusing := by rw [hhypothesis]; exact h.overusing
  settled := by rw [hhypothesis]; exact h.settled
  time := by rw [htime]; exact h.time
  counter := by rw [hcounter]; exact h.counter

theorem Judged.judge (hover : x.over A = false) :
    Judged A (xs++[x]) (s.judge A (x.usage A)) := by
  have hnot : ¬Overused A (xs++[x]) := by
    rw [overused_snoc,hover]
    exact fun h => Bool.noConfusion h.1
  constructor
  · exact fun h => absurd h hnot
  · intro _
    rw [settled_snoc,hover]
    rfl
  · intro _
    rw [recent_snoc,hover]
    rfl
  · intro _
    rw [recent_snoc,hover]
    rfl

/-- What is counted over the threshold is the block of the last samples, and overuse is found as
soon as the block shows it. -/
theorem Judged.overThreshold (h : Judged A xs s) (hover : x.over A = true) {trend : F}
    (hrising : x.rising = A.le s.prevTrend trend) :
    Judged A (xs++[x]) (s.overThreshold A trend x.tsDelta) := by
  by_cases hbefore : Overused A xs
  · have hstill : Overused A (xs++[x]) := overused_snoc.mpr ⟨hover,.inl hbefore⟩
    have hhypothesis : (s.overThreshold A trend x.tsDelta).hypothesis = .kBwOverusing := by
      rw [TrendlineEstimator.overThreshold]
      split
      · rfl
      · exact h.overusing hbefore
    exact ⟨fun _ => hhypothesis,fun hnot => absurd hstill hnot,fun hnot => absurd hstill hnot,
      fun hnot => absurd hstill hnot⟩
  · have htime : addTime A s.timeOverUsing x.tsDelta = overTime A (recent A xs++[x]) := by
      rw [h.time hbefore,overTime_snoc]
    have hcounter : s.overuseCounter+1 = (recent A xs++[x]).length := by
      rw [h.counter hbefore,List.length_append,List.length_singleton]
    have hshows : (A.lt (A.literal 10) (overTime A (recent A xs++[x])) &&
        1 < (recent A xs++[x]).length && A.le s.prevTrend trend) = true ↔
          Shows A (recent A xs++[x]) := by
      rw [Bool.and_eq_true,Bool.and_eq_true,decide_eq_true_eq,← hrising]
      constructor
      · exact fun ⟨⟨hlong,hseveral⟩,hup⟩ => ⟨hseveral,hlong,x,List.getLast?_concat,hup⟩
      · rintro ⟨hseveral,hlong,y,hlast,hup⟩
        rw [List.getLast?_concat] at hlast
        cases hlast
        exact ⟨⟨hlong,hseveral⟩,hup⟩
    have hiff : Overused A (xs++[x]) ↔ Shows A (recent A xs++[x]) := by
      rw [overused_snoc]
      simp [hover,hbefore]
    rw [TrendlineEstimator.overThreshold]
    simp only [htime,hcounter]
    split
    · rename_i hfound
      have hnow := hiff.mpr (hshows.mp hfound)
      exact ⟨fun _ => rfl,fun hnot => absurd hnow hnot,fun hnot => absurd hnow hnot,
        fun hnot => absurd hnow hnot⟩
    · rename_i hnone
      have hnot : ¬Overused A (xs++[x]) := fun hnow => hnone (hshows.mpr (hiff.mp hnow))
      constructor
      · exact fun hnow => absurd hnow hnot
      · intro _
        rw [settled_snoc,if_pos hover]
        exact h.settled hbefore
      · intro _
        rw [recent_snoc,if_pos hover]
      · intro _
        rw [recent_snoc,if_pos hover]

/-! ### Runs -/

/-- What `Detect` leaves alone in every branch. -/
structure Same (s t : TrendlineEstimator F) : Prop where
  hist : t.delayHist = s.delayHist
  count : t.numOfDeltas = s.numOfDeltas
  threshold : t.threshold = s.threshold

theorem clamp_bounds (v : F) {lo hi : ℚ} (h : lo ≤ hi) :
    A.lt (A.clamp v (A.literal lo) (A.literal hi)) (A.literal lo) = false ∧
      A.lt (A.literal hi) (A.clamp v (A.literal lo) (A.literal hi)) = false := by
  rw [Arithmetic.clamp]
  split
  · exact ⟨A.literal_lt lo lo le_rfl,A.literal_lt lo hi h⟩
  split
  · exact ⟨A.literal_lt lo hi h,A.literal_lt hi hi le_rfl⟩
  · rename_i hlow hhigh
    exact ⟨Bool.eq_false_iff.mpr hlow,Bool.eq_false_iff.mpr hhigh⟩

theorem updateThreshold_eq (s : TrendlineEstimator F) (modifiedTrend : F) (nowMs : ℤ) :
    ∃ threshold, s.updateThreshold A modifiedTrend nowMs =
        { s with threshold := threshold, lastUpdateMs := nowMs } ∧
      (threshold = s.threshold ∨ A.lt threshold (A.literal 6) = false ∧
        A.lt (A.literal 600) threshold = false) := by
  rw [TrendlineEstimator.updateThreshold]
  split
  · exact ⟨_,rfl,.inl rfl⟩
  · exact ⟨_,rfl,.inr (clamp_bounds _ (by norm_num))⟩

theorem same_overThreshold (s : TrendlineEstimator F) (trend tsDelta : F) :
    Same s (s.overThreshold A trend tsDelta) := by
  rw [TrendlineEstimator.overThreshold]
  split
  · exact ⟨rfl,rfl,rfl⟩
  · exact ⟨rfl,rfl,rfl⟩

/-- What `Detect` does with enough deltas: it judges one sample more. -/
theorem detect_spec (h : Judged A xs s) (hlow : A.lt s.threshold (A.literal 6) = false)
    (hhigh : A.lt (A.literal 600) s.threshold = false) (hmany : ¬s.numOfDeltas < 2) (tsDelta : F)
    (nowMs : ℤ) : let t := s.detect A (s.trend A) tsDelta nowMs
    t.delayHist = s.delayHist ∧ t.numOfDeltas = s.numOfDeltas ∧
      A.lt t.threshold (A.literal 6) = false ∧ A.lt (A.literal 600) t.threshold = false ∧
      Judged A (xs++[sample A s tsDelta]) t := by
  intro t
  have hjudged : ∃ u, t = { u with prevTrend := s.trend A }.updateThreshold A
      (s.modifiedTrend A (s.trend A)) nowMs ∧ Same s u ∧ Judged A (xs++[sample A s tsDelta]) u := by
    cases hover : (sample A s tsDelta).over A with
    | true =>
        refine ⟨s.overThreshold A (s.trend A) tsDelta,?_,same_overThreshold s _ _,
          h.overThreshold (x := sample A s tsDelta) hover rfl⟩
        have hlt : A.lt s.threshold (s.modifiedTrend A (s.trend A)) = true := hover
        simp only [t,detect,if_neg hmany,hlt,if_true]
    | false =>
        refine ⟨s.judge A ((sample A s tsDelta).usage A),?_,⟨rfl,rfl,rfl⟩,Judged.judge hover⟩
        have hlt : A.lt s.threshold (s.modifiedTrend A (s.trend A)) = false := hover
        simp only [t,detect,if_neg hmany,hlt,Bool.false_eq_true,if_false]
        rfl
  obtain ⟨u,ht,hsame,hu⟩ := hjudged
  obtain ⟨threshold,hupdate,hthreshold⟩ := updateThreshold_eq (A := A)
    { u with prevTrend := s.trend A } (s.modifiedTrend A (s.trend A)) nowMs
  rw [ht,hupdate]
  refine ⟨hsame.hist,hsame.count,?_,?_,hu.congr rfl rfl rfl⟩
  · cases hthreshold with
    | inl hold => rw [hold,hsame.threshold]; exact hlow
    | inr hnew => exact hnew.1
  · cases hthreshold with
    | inl hold => rw [hold,hsame.threshold]; exact hhigh
    | inr hnew => exact hnew.2

theorem detect_prevTrend (s : TrendlineEstimator F) (trend tsDelta : F) (nowMs : ℤ) :
    (s.detect A trend tsDelta nowMs).prevTrend =
      if s.numOfDeltas < 2 then s.prevTrend else trend := by
  rw [detect]
  split
  · rfl
  · dsimp only
    obtain ⟨threshold,hupdate,_⟩ := updateThreshold_eq (A := A) _ (s.modifiedTrend A trend) nowMs
    rw [hupdate]

theorem window_snoc {α : Type} (ts : List α) (t : α) :
    window (ts.drop (ts.length-kDefaultTrendlineWindowSize)++[t]) =
      (ts++[t]).drop ((ts++[t]).length-kDefaultTrendlineWindowSize) := by
  rw [window,List.length_append,List.length_drop,List.length_singleton,List.length_append,
    List.length_singleton]
  simp only [kDefaultTrendlineWindowSize]
  split
  · have hne : ts.drop (ts.length-20) ≠ [] := by
      apply List.ne_nil_of_length_pos
      rw [List.length_drop]
      omega
    rw [List.tail_append_of_ne_nil hne,List.tail_drop,List.drop_append_of_le_length (by omega)]
    congr 2
    omega
  · rw [List.drop_append_of_le_length (by omega)]
    congr 2
    omega

theorem inv_start (A : Arithmetic F) : Inv A { estimator := initial A } where
  hist := rfl
  count := rfl
  few _ := rfl
  low := A.literal_lt 6 (25/2) (by norm_num)
  high := A.literal_lt (25/2) 600 (by norm_num)
  judged := ⟨fun h => absurd h not_overused_nil,fun _ => rfl,fun _ => rfl,fun _ => rfl⟩

theorem Inv.addTiming_count {o : Observed F} (h : Inv A o) (c : Call F) :
    (o.estimator.addTiming A c).numOfDeltas =
      min (o.timings++[o.estimator.timing A c]).length kDeltaCounterMax := by
  rw [List.length_append,List.length_singleton]
  simp only [addTiming,h.count]
  omega

theorem Inv.addTiming_hist {o : Observed F} (h : Inv A o) (c : Call F) :
    (o.estimator.addTiming A c).delayHist = (o.timings++[o.estimator.timing A c]).drop
      ((o.timings++[o.estimator.timing A c]).length-kDefaultTrendlineWindowSize) := by
  simp only [addTiming,h.hist]
  exact window_snoc _ _

theorem Inv.step {o : Observed F} (h : Inv A o) (c : Call F) : Inv A (step A o c) := by
  rw [Trendline.step]
  split
  · rename_i hcalculated
    have hupdate : o.estimator.update A c = (o.estimator.addTiming A c).detect A
        ((o.estimator.addTiming A c).trend A) c.sendDeltaMs c.arrivalTimeMs := by
      rw [update,if_pos hcalculated,updateTrendline]
    have hcount := h.addTiming_count c
    have hhist := h.addTiming_hist c
    have hjudged : Judged A o.samples (o.estimator.addTiming A c) := h.judged.congr rfl rfl rfl
    by_cases hfew : (o.estimator.addTiming A c).numOfDeltas < 2
    · have hdetect : (o.estimator.addTiming A c).detect A ((o.estimator.addTiming A c).trend A)
          c.sendDeltaMs c.arrivalTimeMs =
            { o.estimator.addTiming A c with hypothesis := .kBwNormal } := by
        rw [detect,if_pos hfew]
      have hnone : o.samples = [] := by
        apply h.few
        rw [hcount,List.length_append,List.length_singleton,kDeltaCounterMax] at hfew
        omega
      rw [hupdate,hdetect]
      simp only [if_pos hfew]
      refine ⟨hhist,hcount,fun _ => hnone,h.low,h.high,?_⟩
      rw [hnone] at hjudged ⊢
      exact ⟨fun hnow => absurd hnow not_overused_nil,fun _ => rfl,hjudged.time,hjudged.counter⟩
    · obtain ⟨hist,hnum,hlow,hhigh,hnew⟩ :=
        detect_spec hjudged h.low h.high hfew c.sendDeltaMs c.arrivalTimeMs
      rw [hupdate]
      simp only [if_neg hfew]
      refine ⟨hist.trans hhist,hnum.trans hcount,fun hlt => absurd ?_ hfew,hlow,hhigh,hnew⟩
      rw [hcount]
      exact (min_le_left _ _).trans_lt hlt
  · exact h

/-- Over every run of the estimator, whatever its arithmetic is: the window holds the last twenty
packets, the threshold stays where it is clamped, and the judgement is that of the samples. The
bandwidth is overused exactly if among the last samples, all of them over the threshold, the first
few, two at least, passed it for more than ten milliseconds with a trend that did not fall at the
end; else the last other sample tells. -/
theorem usage_judged (A : Arithmetic F) (calls : List (Call F)) :
    let o := run (step A) { estimator := initial A } calls
    o.estimator.delayHist = o.timings.drop (o.timings.length-kDefaultTrendlineWindowSize) ∧
    A.lt o.estimator.threshold (A.literal 6) = false ∧
    A.lt (A.literal 600) o.estimator.threshold = false ∧
    (o.estimator.hypothesis = .kBwOverusing ↔ Overused A o.samples) ∧
    (o.estimator.hypothesis ≠ .kBwOverusing → o.estimator.hypothesis = settled A o.samples) := by
  intro o
  have h : Inv A o := run_invariant (inv_start A) (fun _ c h => h.step c) calls
  refine ⟨h.hist,h.low,h.high,⟨?_,h.judged.overusing⟩,?_⟩
  · intro hover
    by_contra hnot
    have hsettled := h.judged.settled hnot
    rw [hover,settled] at hsettled
    split at hsettled
    · cases hsettled
    · rw [Sample.usage] at hsettled
      split at hsettled
      · cases hsettled
      · cases hsettled
  · exact fun hother => h.judged.settled fun hnow => hother (h.judged.overusing hnow)

/-! ### The slope of exact numbers -/

section Exact
open LeastSquares
variable (K : Type) [Field K] [LinearOrder K] [IsStrictOrderedRing K]

/-- Arithmetic that does not round. -/
def exact : Arithmetic K where
  literal q := q
  ofInt n := n
  add a b := a+b
  sub a b := a-b
  mul a b := a*b
  div a b := a/b
  neg a := -a
  abs a := |a|
  lt a b := a < b
  le a b := a ≤ b
  eq a b := a = b
  literal_lt _ _ h := decide_eq_false (not_lt.mpr (Rat.cast_le.mpr h))

variable {K}

theorem sum_exact {α : Type} (f : α → K) (ps : List α) : (exact K).sum f ps = total f ps := by
  rw [Arithmetic.sum]
  simp only [exact,Rat.cast_zero,foldl_add,zero_add]

theorem linearFitSlope_exact (ps : List (PacketTiming K)) : linearFitSlope (exact K) ps =
    if deviations PacketTiming.arrivalTimeMs PacketTiming.arrivalTimeMs ps = 0 then none
    else some (slope PacketTiming.arrivalTimeMs PacketTiming.smoothedDelayMs ps) := by
  simp only [linearFitSlope,sum_exact]
  simp only [exact,Int.cast_natCast,Rat.cast_zero,decide_eq_true_eq]
  rfl

/-- In every run with rationals for doubles the trend is the slope of the line through the last
twenty packets with the least squares, and of no other line that is as good. It stays as it is
until there are twenty packets, and while they have all arrived at one time. -/
theorem trend_leastSquares (calls : List (Call ℚ)) (c : Call ℚ) :
    let o := run (step (exact ℚ)) { estimator := initial (exact ℚ) } calls
    let t := step (exact ℚ) o { c with calculatedDeltas := true }
    let last := t.timings.drop (t.timings.length-kDefaultTrendlineWindowSize)
    let distances := residual PacketTiming.arrivalTimeMs PacketTiming.smoothedDelayMs last
    (t.estimator.prevTrend = o.estimator.prevTrend ∧
      (t.timings.length < kDefaultTrendlineWindowSize ∨
        ∀ p ∈ last, ∀ q ∈ last, p.arrivalTimeMs = q.arrivalTimeMs)) ∨
    kDefaultTrendlineWindowSize ≤ t.timings.length ∧
      ∃ a, ∀ b k, distances a t.estimator.prevTrend ≤ distances b k ∧
        (distances b k ≤ distances a t.estimator.prevTrend → k = t.estimator.prevTrend) := by
  intro o t last distances
  have h : Inv (exact ℚ) o := run_invariant (inv_start _) (fun _ c h => h.step c) calls
  have htimings : t.timings = o.timings++[o.estimator.timing (exact ℚ) c] := rfl
  have hhist : (o.estimator.addTiming (exact ℚ) c).delayHist = last := h.addTiming_hist c
  have hlast : last.length = min kDefaultTrendlineWindowSize t.timings.length := by
    simp only [last,List.length_drop,kDefaultTrendlineWindowSize]
    omega
  have htrend : t.estimator.prevTrend =
      if (o.estimator.addTiming (exact ℚ) c).numOfDeltas < 2 then o.estimator.prevTrend
      else (o.estimator.addTiming (exact ℚ) c).trend (exact ℚ) :=
    detect_prevTrend _ _ _ _
  rw [h.addTiming_count c,← htimings,trend,hhist,hlast] at htrend
  by_cases hfew : t.timings.length < kDefaultTrendlineWindowSize
  · have hnot := ((min_le_right kDefaultTrendlineWindowSize t.timings.length).trans_lt hfew).ne
    simp only [if_neg hnot] at htrend
    exact .inl ⟨htrend.trans (ite_self _),.inl hfew⟩
  · simp only [kDefaultTrendlineWindowSize,kDeltaCounterMax] at hfew htrend
    rw [if_neg (by omega),if_pos (by omega),linearFitSlope_exact] at htrend
    by_cases hvar : deviations PacketTiming.arrivalTimeMs PacketTiming.arrivalTimeMs last = 0
    · rw [if_pos hvar] at htrend
      exact .inl ⟨htrend,.inr (deviations_eq_zero.mp hvar)⟩
    · rw [if_neg hvar,Option.getD_some] at htrend
      have hne : last ≠ [] := by
        apply List.ne_nil_of_length_pos
        rw [hlast]
        simp only [kDefaultTrendlineWindowSize]
        omega
      refine .inr ⟨Nat.le_of_not_lt hfew,mean PacketTiming.smoothedDelayMs last-
        slope PacketTiming.arrivalTimeMs PacketTiming.smoothedDelayMs last*
          mean PacketTiming.arrivalTimeMs last,fun b k => ?_⟩
      rw [htrend]
      exact ⟨residual_le hne hvar b k,slope_unique hne hvar⟩

end Exact
end Ylrtc.Trendline
