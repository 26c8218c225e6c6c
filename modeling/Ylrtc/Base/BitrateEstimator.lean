import Mathlib.Algebra.Order.BigOperators.Group.List
import Ylrtc.Lib.FloatRounding
import Ylrtc.Lib.MachineInt
import Ylrtc.Lib.Run
import Ylrtc.Lib.TimeBuckets

/-!
# The bitrate of the last second

`BitRateEstimator` of `base/bitrate_estimator.cpp`. The running totals are those of the samples
in the window; the number of samples is an `int`, and unlike the total of the bytes it is not
kept from overflowing.
-/
namespace Ylrtc.BitRate
open FloatRounding MachineInt Run TimeBuckets

abbrev kDefaultWindowSizeMillis : ℤ := 1000

/-- What `std::numeric_limits<int64_t>::max()` is. -/
abbrev kInt64Max : ℤ := 2^63-1

structure Buffer where
  totalBytes : ℤ := 0
  numSamples : ℤ := 0
  timestamp : ℤ
  deriving DecidableEq, Repr

structure BitRateEstimator where
  buffers : List Buffer := []
  totalBytes : ℤ := 0
  firstTimestamp : ℤ := -1
  overflow : Bool := false
  numSamples : ℤ := 0
  deriving DecidableEq, Repr

namespace BitRateEstimator

/-- The loop of `EraseOld`. -/
def eraseBuffers (newOldestTime : ℤ) : List Buffer → BitRateEstimator → BitRateEstimator
  | [],s => { s with buffers := [] }
  | oldest::buffers,s =>
      if oldest.timestamp < newOldestTime then
        eraseBuffers newOldestTime buffers
          { s with totalBytes := int64 (s.totalBytes - oldest.totalBytes),
                   numSamples := int32 (s.numSamples - oldest.numSamples) }
      else { s with buffers := oldest::buffers }

def eraseOld (s : BitRateEstimator) (nowMs : ℤ) : BitRateEstimator :=
  eraseBuffers (int64 (int64 (nowMs - kDefaultWindowSizeMillis) + 1)) s.buffers s

/-- The buffers with one at the back for a time. A time before the last one counts as that. -/
def withBuffer (buffers : List Buffer) (nowMs : ℤ) : List Buffer :=
  match buffers.getLast? with
  | none => [{ timestamp := nowMs }]
  | some back =>
      if nowMs ≠ back.timestamp then
        buffers ++ [{ timestamp := if nowMs < back.timestamp then back.timestamp else nowMs }]
      else buffers

/-- The last bucket gets a sample. -/
def addToLast (buffers : List Buffer) (bytes : ℤ) : List Buffer :=
  buffers.modifyLast fun last =>
    { last with totalBytes := int64 (last.totalBytes + bytes),
                numSamples := int32 (last.numSamples + 1) }

def addData (s : BitRateEstimator) (bytes nowMs : ℤ) : BitRateEstimator :=
  let s := s.eraseOld nowMs
  let s := if s.firstTimestamp = -1 then { s with firstTimestamp := nowMs } else s
  let s := { s with buffers := addToLast (withBuffer s.buffers nowMs) bytes }
  let s := if bytes < int64 (kInt64Max - s.totalBytes) then
      { s with totalBytes := int64 (s.totalBytes + bytes) }
    else { s with overflow := true }
  { s with numSamples := int32 (s.numSamples + 1) }

def activeWindowSize (s : BitRateEstimator) (nowMs : ℤ) : ℤ :=
  if s.firstTimestamp ≠ -1 then
    if s.firstTimestamp ≤ int64 (nowMs - kDefaultWindowSizeMillis) then kDefaultWindowSizeMillis
    else int64 (int64 (nowMs - s.firstTimestamp) + 1)
  else 0

end BitRateEstimator

/-- The end of `Rate`: a `float` of 24 significant bits that gets a half added, in halves here. -/
def throughFloat (bitrate : ℤ) : Option ℤ :=
  let result := roundTo 24 (2*roundTo 24 bitrate + 1)
  if 2*roundTo 24 kInt64Max < result then none else some (result.tdiv 2)

namespace BitRateEstimator

/-- `Rate`, which erases too. -/
def rate (s : BitRateEstimator) (nowMs : ℤ) : Option ℤ × BitRateEstimator :=
  let s := s.eraseOld nowMs
  let activeWindowSize := s.activeWindowSize nowMs
  if s.numSamples = 0 ∨ activeWindowSize ≤ 1 ∨
      s.numSamples ≤ 1 ∧ activeWindowSize < kDefaultWindowSizeMillis ∨ s.overflow = true then
    (none,s)
  else
    (throughFloat (int64 (int64 ((int64 (s.totalBytes*1000)).tdiv activeWindowSize)*8)),s)

end BitRateEstimator

inductive Call where
  | addData (bytes nowMs : ℤ)
  | rate (nowMs : ℤ)

def Call.nowMs : Call → ℤ
  | .addData _ nowMs => nowMs
  | .rate nowMs => nowMs

def Call.act (s : BitRateEstimator) : Call → BitRateEstimator
  | .addData bytes nowMs => s.addData bytes nowMs
  | .rate nowMs => (s.rate nowMs).2

/-- The estimator behind a sequence of calls. -/
def after (calls : List Call) : BitRateEstimator := run Call.act {} calls

/-! ### The samples -/

/-- The time and the bytes of a sample. -/
def Call.sample : Call → Option (ℤ × ℤ)
  | .addData bytes nowMs => some (nowMs,bytes)
  | .rate _ => none

def samples (calls : List Call) : List (ℤ × ℤ) := calls.filterMap Call.sample

/-- The samples of the last second. -/
def recent (nowMs : ℤ) (calls : List Call) : List (ℤ × ℤ) :=
  (samples calls).filter fun x => nowMs - 1000 < x.1 ∧ x.1 ≤ nowMs

def bytesOf (xs : List (ℤ × ℤ)) : ℤ := (xs.map Prod.snd).sum

/-- The time since the first sample, up to a second. -/
def windowSize (nowMs : ℤ) (calls : List Call) : ℤ :=
  match (samples calls).head? with
  | none => 0
  | some first => min 1000 (nowMs - first.1 + 1)

/-- Calls in the order of their times, with sizes that the rate can be computed of. -/
structure Timely (calls : List Call) : Prop where
  sorted : calls.Pairwise fun c d => c.nowMs ≤ d.nowMs
  times : ∀ c ∈ calls, 0 ≤ c.nowMs ∧ c.nowMs < 2^63
  bytes : ∀ x ∈ samples calls, 0 ≤ x.2
  total : bytesOf (samples calls)*8000 < 2^63

/-- What makes a rate unknown. -/
def Unknown (nowMs : ℤ) (calls : List Call) : Prop :=
  (recent nowMs calls).length = 0 ∨ windowSize nowMs calls ≤ 1 ∨
    (recent nowMs calls).length = 1 ∧ windowSize nowMs calls < 1000

instance (nowMs : ℤ) (calls : List Call) : Decidable (Unknown nowMs calls) :=
  inferInstanceAs (Decidable (_ ∨ _))

/-- The answer of `Rate` behind a sequence of calls, which divides by the window. -/
structure Answers (before : List Call) (nowMs : ℤ) : Prop where
  nothing : ((after before).rate nowMs).1 = none ↔ Unknown nowMs before
  divides : ¬Unknown nowMs before →
    ((after before).eraseOld nowMs).activeWindowSize nowMs = windowSize nowMs before ∧
      2 ≤ windowSize nowMs before ∧ windowSize nowMs before ≤ 1000
  value : ¬Unknown nowMs before → ((after before).rate nowMs).1 =
    throughFloat (1000*bytesOf (recent nowMs before)/windowSize nowMs before*8)

/-- A call leaves the totals of its window, and answers from them. -/
structure Right (before : List Call) (call : Call) : Prop where
  totalBytes : (after (before++[call])).totalBytes =
    bytesOf (recent call.nowMs (before++[call]))
  numSamples : (after (before++[call])).numSamples =
    (recent call.nowMs (before++[call])).length
  answers : ∀ nowMs, call = .rate nowMs → Answers before nowMs

/-! ### The buffers are the buckets of the window -/

/-- Samples of a size that no total overflows. -/
structure Light (xs : List (ℤ × ℤ)) : Prop where
  bytes : ∀ x ∈ xs, 0 ≤ x.2
  total : bytesOf xs*8000 < 2^63

theorem bytesOf_append (xs ys : List (ℤ × ℤ)) : bytesOf (xs++ys) = bytesOf xs + bytesOf ys := by
  rw [bytesOf,List.map_append,List.sum_append]
  rfl

theorem Light.sizes {xs : List (ℤ × ℤ)} (h : Light xs) : ∀ n ∈ xs.map Prod.snd, 0 ≤ n := by
  intro n hn
  cases List.mem_map.mp hn with
  | intro x hx =>
      rw [← hx.2]
      exact h.bytes x hx.1

theorem Light.sublist {xs ys : List (ℤ × ℤ)} (h : Light ys) (hsub : xs.Sublist ys) : Light xs where
  bytes x hx := h.bytes x (hsub.subset hx)
  total := by
    have hle : bytesOf xs ≤ bytesOf ys := (hsub.map Prod.snd).sum_le_sum h.sizes
    have htotal := h.total
    omega

theorem Light.range {xs : List (ℤ × ℤ)} (h : Light xs) :
    0 ≤ bytesOf xs ∧ bytesOf xs*8000 < 2^63 := ⟨List.sum_nonneg h.sizes,h.total⟩

def Buffer.of (b : Bucket ℤ ℤ) : Buffer := ⟨int64 b.items.sum,int32 b.items.length,b.key⟩

/-- The estimator whose buffers are these buckets. -/
def estimator (first : ℤ) (bs : List (Bucket ℤ ℤ)) : BitRateEstimator :=
  ⟨bs.map Buffer.of,bytesOf (items bs),first,false,int32 (items bs).length⟩

theorem Buffer.of_numSamples (b : Bucket ℤ ℤ) :
    (Buffer.of b).numSamples = int32 b.items.length := by
  rw [Buffer.of]

theorem bytesOf_bucket (b : Bucket ℤ ℤ) : bytesOf (b.items.map (Prod.mk b.key)) = b.items.sum := by
  rw [bytesOf,List.map_map]
  exact congrArg List.sum (List.map_id _)

theorem bytesOf_items_cons (b : Bucket ℤ ℤ) (bs : List (Bucket ℤ ℤ)) :
    bytesOf (items (b::bs)) = b.items.sum + bytesOf (items bs) := by
  rw [items_cons,bytesOf_append,bytesOf_bucket]

theorem length_items_cons (b : Bucket ℤ ℤ) (bs : List (Bucket ℤ ℤ)) :
    (items (b::bs)).length = b.items.length + (items bs).length := by
  rw [items_cons,List.length_append,List.length_map]

theorem Light.of_cons {b : Bucket ℤ ℤ} {bs : List (Bucket ℤ ℤ)} (h : Light (items (b::bs))) :
    Light (items bs) := by
  rw [items_cons] at h
  exact h.sublist (List.sublist_append_right _ _)

theorem Light.bucket {b : Bucket ℤ ℤ} {bs : List (Bucket ℤ ℤ)} (h : Light (items (b::bs))) :
    0 ≤ b.items.sum ∧ b.items.sum*8000 < 2^63 := by
  rw [items_cons] at h
  have hrange := (h.sublist (List.sublist_append_left _ _)).range
  rw [bytesOf_bucket] at hrange
  exact hrange

theorem int32_sub_int32 (a b : ℤ) : int32 (int32 (a+b) - int32 a) = int32 b := by
  unfold int32
  rw [← Int.sub_bmod,add_sub_cancel_left]

theorem eraseBuffers_buckets (oldest first : ℤ) {bs : List (Bucket ℤ ℤ)} (h : Light (items bs))
    (buffers : List Buffer) :
    BitRateEstimator.eraseBuffers oldest (bs.map Buffer.of)
      ⟨buffers,bytesOf (items bs),first,false,int32 (items bs).length⟩ =
        estimator first (evict oldest bs) := by
  induction bs generalizing buffers with
  | nil =>
      rw [List.map_nil,BitRateEstimator.eraseBuffers,evict,List.dropWhile_nil,estimator,
        List.map_nil]
  | cons b bs ih =>
      have hrest := h.of_cons.range
      have hbucket := h.bucket
      rw [evict,List.dropWhile_cons,List.map_cons,BitRateEstimator.eraseBuffers]
      by_cases hold : b.key < oldest
      · have hbytes : int64 (bytesOf (items (b::bs)) - (Buffer.of b).totalBytes) =
            bytesOf (items bs) := by
          have hsum : (Buffer.of b).totalBytes = b.items.sum :=
            int64_of_range (by omega) (by omega)
          rw [hsum,bytesOf_items_cons,add_sub_cancel_left,int64_of_range (by omega) (by omega)]
        have hsamples : int32 (int32 (items (b::bs)).length - (Buffer.of b).numSamples) =
            int32 (items bs).length := by
          rw [length_items_cons,Nat.cast_add,Buffer.of_numSamples,int32_sub_int32]
        rw [if_pos (decide_eq_true hold)]
        apply (if_pos hold).trans
        simp only
        rw [hbytes,hsamples]
        exact ih h.of_cons _
      · have hstays : ¬(Buffer.of b).timestamp < oldest := hold
        rw [if_neg hstays,if_neg (by rw [decide_eq_true_eq]; exact hold),estimator,List.map_cons]

theorem eraseOld_estimator {first nowMs : ℤ} {bs : List (Bucket ℤ ℤ)} (h : Light (items bs))
    (hnow : 0 ≤ nowMs ∧ nowMs < 2^63) :
    (estimator first bs).eraseOld nowMs = estimator first (evict (nowMs-999) bs) := by
  have hwindow : kDefaultWindowSizeMillis = 1000 := rfl
  have holdest : int64 (int64 (nowMs - kDefaultWindowSizeMillis) + 1) = nowMs-999 := by
    rw [int64_of_range (x := nowMs - kDefaultWindowSizeMillis) (by omega) (by omega),
      int64_of_range (by omega) (by omega)]
    omega
  rw [BitRateEstimator.eraseOld,holdest]
  exact eraseBuffers_buckets _ first h _

/-- The back of the deque gets a sample as the last bucket does. -/
theorem addToLast_buckets {bs : List (Bucket ℤ ℤ)} {nowMs : ℤ} (h : ∀ b ∈ bs, b.key ≤ nowMs)
    (bytes : ℤ) : BitRateEstimator.addToLast (BitRateEstimator.withBuffer (bs.map Buffer.of) nowMs)
      bytes = (add bs nowMs bytes).map Buffer.of := by
  have hfresh : ∀ buffers : List Buffer,
      BitRateEstimator.addToLast (buffers ++ [{ timestamp := nowMs }]) bytes =
        buffers ++ [Buffer.of ⟨nowMs,[bytes]⟩] := by
    intro buffers
    rw [BitRateEstimator.addToLast,List.modifyLast_concat,Buffer.of,List.sum_singleton]
    simp only [Int.zero_add,List.length_singleton,Nat.cast_one]
  cases bs using List.reverseRecOn with
  | nil => exact hfresh []
  | append_singleton bs b =>
      have hlast := h b (List.mem_append_right _ (List.mem_singleton_self b))
      rw [List.map_append,List.map_singleton,BitRateEstimator.withBuffer,List.getLast?_concat]
      simp only
      by_cases hsame : nowMs = b.key
      · subst hsame
        rw [if_neg (fun hne => hne rfl),add_concat_eq,BitRateEstimator.addToLast,
          List.modifyLast_concat,List.map_append,List.map_singleton]
        simp only [Buffer.of,List.sum_append,List.sum_singleton,List.length_append,
          List.length_singleton,int64,int32,Int.bmod_add_bmod,Nat.cast_add,Nat.cast_one]
      · rw [if_pos (show nowMs ≠ (Buffer.of b).timestamp from hsame),
          add_concat_ne (fun heq => hsame heq.symm),List.map_append,List.map_append]
        have hlater : ¬nowMs < (Buffer.of b).timestamp := Int.not_lt.mpr hlast
        rw [if_neg hlater]
        exact hfresh _

/-- The time of the first sample is set once. -/
theorem estimator_first (first nowMs : ℤ) (bs : List (Bucket ℤ ℤ)) :
    (if (estimator first bs).firstTimestamp = -1 then
        { estimator first bs with firstTimestamp := nowMs }
      else estimator first bs) = estimator (if first = -1 then nowMs else first) bs := by
  by_cases hfirst : first = -1
  · simp only [estimator,hfirst,if_true]
  · simp only [estimator,hfirst,if_false]

theorem addData_estimator {first bytes nowMs : ℤ} {bs : List (Bucket ℤ ℤ)} (hbs : Ordered bs)
    (h : Light (items bs ++ [(nowMs,bytes)])) (hnow : 0 ≤ nowMs ∧ nowMs < 2^63)
    (hkeys : ∀ b ∈ bs, b.key ≤ nowMs) :
    (estimator first bs).addData bytes nowMs =
      estimator (if first = -1 then nowMs else first) (add (evict (nowMs-999) bs) nowMs bytes) := by
  have hsum : bytesOf (items (add (evict (nowMs-999) bs) nowMs bytes)) =
      bytesOf (items (evict (nowMs-999) bs)) + bytes := by
    rw [items_add,bytesOf_append]
    simp [bytesOf]
  have hlight : Light (items (add (evict (nowMs-999) bs) nowMs bytes)) := by
    rw [items_add,items_evict hbs]
    exact h.sublist (List.filter_sublist.append_right _)
  have hrest : Light (items (evict (nowMs-999) bs)) := by
    rw [items_add] at hlight
    exact hlight.sublist (List.sublist_append_left _ _)
  have hbytes : 0 ≤ bytes := h.bytes _ (List.mem_append_right _ (List.mem_singleton_self _))
  have hrange := hrest.range
  have htotal := hlight.range
  rw [hsum] at htotal
  have hmax : kInt64Max = 2^63-1 := rfl
  have hroom : int64 (kInt64Max - bytesOf (items (evict (nowMs-999) bs))) =
      kInt64Max - bytesOf (items (evict (nowMs-999) bs)) :=
    int64_of_range (by omega) (by omega)
  have hfits : bytes < int64 (kInt64Max - bytesOf (items (evict (nowMs-999) bs))) := by omega
  have hadded : int64 (bytesOf (items (evict (nowMs-999) bs)) + bytes) =
      bytesOf (items (evict (nowMs-999) bs)) + bytes := int64_of_range (by omega) (by omega)
  have hcount : int32 (int32 (items (evict (nowMs-999) bs)).length + 1) =
      int32 (items (add (evict (nowMs-999) bs) nowMs bytes)).length := by
    rw [items_add,List.length_append,int32,int32,Int.bmod_add_bmod,← int32]
    rfl
  have hbuffers := @addToLast_buckets (evict (nowMs-999) bs) nowMs
    (fun b hb => hkeys b ((List.dropWhile_sublist _).subset hb)) bytes
  unfold BitRateEstimator.addData
  rw [eraseOld_estimator (h.sublist (List.sublist_append_left _ _)) hnow]
  simp only [estimator_first]
  simp only [estimator,hfits,if_true]
  rw [hbuffers,hsum,hadded,hcount]

/-! ### Runs -/

theorem samples_append (calls : List Call) (call : Call) :
    samples (calls++[call]) = samples calls ++ call.sample.toList := by
  rw [samples,List.filterMap_append]
  cases call with
  | addData bytes nowMs => rfl
  | rate nowMs => rfl

theorem mem_samples {calls : List Call} {x : ℤ × ℤ} (h : x ∈ samples calls) :
    ∃ call ∈ calls, call.nowMs = x.1 := by
  cases List.mem_filterMap.mp h with
  | intro call hcall =>
      cases hsample : call with
      | addData bytes nowMs =>
          rw [hsample] at hcall
          exact ⟨_,hcall.1,congrArg Prod.fst (Option.some.inj hcall.2)⟩
      | rate nowMs =>
          rw [hsample] at hcall
          exact absurd hcall.2 nofun

section Timely
variable {calls : List Call} {call : Call}

theorem Timely.light (h : Timely calls) : Light (samples calls) := ⟨h.bytes,h.total⟩

theorem Timely.before (h : Timely (calls++[call])) : Timely calls := by
  have hlight : Light (samples calls) := by
    apply h.light.sublist
    rw [samples_append]
    exact List.sublist_append_left _ _
  exact {
    sorted := (List.pairwise_append.mp h.sorted).1
    times := fun c hc => h.times c (List.mem_append_left _ hc)
    bytes := hlight.bytes
    total := hlight.total }

theorem Timely.now (h : Timely (calls++[call])) : 0 ≤ call.nowMs ∧ call.nowMs < 2^63 :=
  h.times call (List.mem_append_right _ (List.mem_singleton_self _))

theorem mem_samples_append {x : ℤ × ℤ} (h : x ∈ samples calls) :
    x ∈ samples (calls++[call]) := by
  rw [samples_append]
  exact List.mem_append_left _ h

/-- The samples are no later than the last call, and no earlier than zero. -/
theorem Timely.sample_times (h : Timely (calls++[call])) {x : ℤ × ℤ}
    (hx : x ∈ samples (calls++[call])) : 0 ≤ x.1 ∧ x.1 ≤ call.nowMs := by
  cases mem_samples hx with
  | intro c hc =>
      rw [← hc.2]
      refine ⟨(h.times c hc.1).1,?_⟩
      cases List.mem_append.mp hc.1 with
      | inl hbefore =>
          exact (List.pairwise_append.mp h.sorted).2.2 c hbefore call (List.mem_singleton_self _)
      | inr hlast => rw [List.mem_singleton.mp hlast]

end Timely

/-- The time of the first sample, as the estimator keeps it. -/
def firstTime (calls : List Call) : ℤ :=
  match (samples calls).head? with
  | none => -1
  | some first => first.1

/-- The time of the last call. -/
def lastTime (calls : List Call) : ℤ := (calls.getLast?.map Call.nowMs).getD 0

/-- The samples from the oldest time of a window on. -/
def since (oldest : ℤ) (calls : List Call) : List (ℤ × ℤ) :=
  (samples calls).filter fun x => oldest ≤ x.1

/-- The buffers are buckets of the samples that were in the window at the last call. -/
structure Tracks (calls : List Call) (bs : List (Bucket ℤ ℤ)) : Prop where
  ordered : Ordered bs
  window : items bs = since (lastTime calls-999) calls
  state : after calls = estimator (firstTime calls) bs

theorem lastTime_append (calls : List Call) (call : Call) :
    lastTime (calls++[call]) = call.nowMs := by
  rw [lastTime,List.getLast?_concat]
  rfl

section Tracks
variable {calls : List Call} {call : Call} {bs : List (Bucket ℤ ℤ)}

theorem Timely.lastTime_le (h : Timely (calls++[call])) : lastTime calls ≤ call.nowMs := by
  cases calls using List.reverseRecOn with
  | nil => exact h.now.1
  | append_singleton calls c =>
      rw [lastTime_append]
      exact (List.pairwise_append.mp h.sorted).2.2 c
        (List.mem_append_right _ (List.mem_singleton_self _)) call (List.mem_singleton_self _)

theorem Tracks.light (h : Tracks calls bs) (htimely : Timely calls) : Light (items bs) := by
  rw [h.window]
  exact htimely.light.sublist List.filter_sublist

/-- What is erased at a call leaves the samples of its window. -/
theorem Tracks.evicted (h : Tracks calls bs) (htimely : Timely (calls++[call])) :
    items (evict (call.nowMs-999) bs) = since (call.nowMs-999) calls := by
  have hle := htimely.lastTime_le
  rw [items_evict h.ordered,h.window,since,since,List.filter_filter]
  congr 1
  funext x
  by_cases hx : call.nowMs-999 ≤ x.1
  · have hlast : lastTime calls-999 ≤ x.1 := by omega
    rw [decide_eq_true hx,decide_eq_true hlast]
    rfl
  · rw [decide_eq_false hx]
    rfl

theorem Tracks.erased (h : Tracks calls bs) (htimely : Timely (calls++[call])) :
    (after calls).eraseOld call.nowMs =
      estimator (firstTime calls) (evict (call.nowMs-999) bs) := by
  rw [h.state]
  exact eraseOld_estimator (h.light htimely.before) htimely.now

theorem after_append (calls : List Call) (call : Call) :
    after (calls++[call]) = call.act (after calls) := run_snoc _ _ _ _

theorem rate_snd (s : BitRateEstimator) (nowMs : ℤ) : (s.rate nowMs).2 = s.eraseOld nowMs := by
  unfold BitRateEstimator.rate
  simp only
  split
  · rfl
  · rfl

theorem Tracks.rate {nowMs : ℤ} (h : Tracks calls bs) (htimely : Timely (calls++[.rate nowMs])) :
    Tracks (calls++[.rate nowMs]) (evict (nowMs-999) bs) := by
  have hsamples : samples (calls++[.rate nowMs]) = samples calls := by
    rw [samples_append]
    exact List.append_nil _
  have hwindow := h.evicted htimely
  have hstate := h.erased htimely
  constructor
  · exact h.ordered.evict _
  · rw [lastTime_append,since,hsamples]
    exact hwindow
  · rw [after_append,firstTime,hsamples]
    exact (rate_snd _ _).trans hstate

theorem Tracks.addData {bytes nowMs : ℤ} (h : Tracks calls bs)
    (htimely : Timely (calls++[.addData bytes nowMs])) :
    Tracks (calls++[.addData bytes nowMs]) (add (evict (nowMs-999) bs) nowMs bytes) := by
  have hsamples : samples (calls++[.addData bytes nowMs]) = samples calls ++ [(nowMs,bytes)] :=
    samples_append _ _
  have hwindow := h.evicted htimely
  have hkeys : ∀ x ∈ items bs, x.1 ≤ nowMs := by
    intro x hx
    rw [h.window] at hx
    exact (htimely.sample_times (mem_samples_append (List.mem_of_mem_filter hx))).2
  have hlight : Light (items bs ++ [(nowMs,bytes)]) := by
    have hall := htimely.light
    rw [hsamples] at hall
    rw [h.window]
    exact hall.sublist (List.filter_sublist.append_right _)
  constructor
  · apply (h.ordered.evict _).add
    intro x hx
    rw [items_evict h.ordered] at hx
    exact hkeys x (List.mem_of_mem_filter hx)
  · have hnew : [(nowMs,bytes)].filter (fun x => nowMs-999 ≤ x.1) = [(nowMs,bytes)] := by
      apply List.filter_eq_self.mpr
      intro x hx
      rw [List.mem_singleton.mp hx,decide_eq_true_eq]
      omega
    rw [lastTime_append,items_add,since,hsamples,List.filter_append]
    change _ = since (nowMs-999) calls ++ [(nowMs,bytes)].filter (fun x => nowMs-999 ≤ x.1)
    rw [hnew]
    exact congrArg (· ++ [(nowMs,bytes)]) hwindow
  · have hfirst : (if firstTime calls = -1 then nowMs else firstTime calls) =
        firstTime (calls++[.addData bytes nowMs]) := by
      rw [firstTime,firstTime,hsamples]
      cases hcalls : samples calls with
      | nil => rfl
      | cons x xs =>
          have hx := htimely.sample_times (mem_samples_append (hcalls ▸ List.mem_cons_self))
          rw [List.head?_cons,List.cons_append,List.head?_cons]
          exact if_neg (show ¬x.1 = -1 by omega)
    rw [after_append,h.state,← hfirst]
    exact addData_estimator h.ordered hlight htimely.now fun b hb => h.ordered.key_le hkeys hb

/-- The buffers are buckets of the window behind every run. -/
theorem exists_tracks (h : Timely calls) : ∃ bs, Tracks calls bs := by
  induction calls using List.reverseRecOn with
  | nil => exact ⟨[],ordered_nil,rfl,by rw [after,run_nil]; rfl⟩
  | append_singleton calls call ih =>
      cases ih h.before with
      | intro bs hbs =>
          cases call with
          | addData bytes nowMs => exact ⟨_,hbs.addData h⟩
          | rate nowMs => exact ⟨_,hbs.rate h⟩

theorem recent_eq {before : List Call} (h : Timely (before++[call])) :
    recent call.nowMs (before++[call]) = since (call.nowMs-999) (before++[call]) := by
  apply List.filter_congr
  intro x hx
  have htime := h.sample_times hx
  rw [decide_eq_decide]
  omega

theorem activeWindowSize_of_first {s : BitRateEstimator} {nowMs : ℤ}
    (hfirst : 0 ≤ s.firstTimestamp ∧ s.firstTimestamp ≤ nowMs) (hnow : nowMs < 2^63) :
    s.activeWindowSize nowMs = min 1000 (nowMs - s.firstTimestamp + 1) := by
  have hwindow : kDefaultWindowSizeMillis = 1000 := rfl
  unfold BitRateEstimator.activeWindowSize
  rw [if_pos (by omega),int64_of_range (x := nowMs - kDefaultWindowSizeMillis) (by omega) (by omega)]
  split
  · rw [Int.min_eq_left (by omega)]
  · rw [int64_of_range (x := nowMs - s.firstTimestamp) (by omega) (by omega),
      int64_of_range (by omega) (by omega),Int.min_eq_right (by omega)]

/-- The window as the estimator computes it is the one since the first sample. -/
theorem activeWindowSize_eq {before : List Call} (h : Timely (before++[call]))
    (bs : List (Bucket ℤ ℤ)) : (estimator (firstTime before) bs).activeWindowSize call.nowMs =
      windowSize call.nowMs before := by
  rw [firstTime,windowSize]
  cases hsamples : samples before with
  | nil => rfl
  | cons first rest =>
      have hfirst := h.sample_times (mem_samples_append (hsamples ▸ List.mem_cons_self))
      exact activeWindowSize_of_first hfirst h.now.2

end Tracks

/-- The float is no larger than the largest integer. -/
theorem throughFloat_ne_none {x : ℤ} (hx : 0 ≤ x) (h : x ≤ 2^62) : throughFloat x ≠ none := by
  have hmax : roundTo 24 kInt64Max = 2^63 := by decide
  have hround := @roundTo_le_two_pow 24 62 (by decide) x hx h
  have hsum := @roundTo_le_two_pow 24 64 (by decide) (2*roundTo 24 x + 1) (by omega) (by omega)
  rw [throughFloat,hmax,if_neg (by omega)]
  exact nofun

theorem windowSize_le (nowMs : ℤ) (calls : List Call) : windowSize nowMs calls ≤ 1000 := by
  rw [windowSize]
  cases (samples calls).head? with
  | none => exact Int.zero_le_ofNat 1000
  | some first => exact Int.min_le_left _ _

/-- The value of a rate that there is. -/
theorem rateValue_eq {total window : ℤ} (htotal : 0 ≤ total ∧ total*8000 < 2^63)
    (hwindow : 2 ≤ window) :
    int64 (int64 ((int64 (total*1000)).tdiv window)*8) = 1000*total/window*8 ∧
      0 ≤ 1000*total/window*8 ∧ 1000*total/window*8 ≤ 2^62 := by
  have hnonneg : 0 ≤ 1000*total/window := Int.ediv_nonneg (by omega) (by omega)
  have hhalf : 1000*total/window*window ≤ 1000*total := Int.ediv_mul_le _ (by omega)
  have htwice : 1000*total/window*2 ≤ 1000*total/window*window :=
    Int.mul_le_mul_of_nonneg_left hwindow hnonneg
  rw [int64_of_range (x := total*1000) (by omega) (by omega),Int.mul_comm total 1000,
    tdiv_of_nonneg (by omega),int64_of_range (x := 1000*total/window) (by omega) (by omega),
    int64_of_range (by omega) (by omega)]
  exact ⟨rfl,by omega,by omega⟩

section Right
variable {before : List Call} {call : Call}

theorem recent_snoc_rate (nowMs : ℤ) (before : List Call) :
    recent nowMs (before++[.rate nowMs]) = recent nowMs before := by
  have hsamples : samples (before++[.rate nowMs]) = samples before := by
    rw [samples_append]
    exact List.append_nil _
  rw [recent,recent,hsamples]

/-- Before a rate is answered the window is brought to the present. -/
theorem eraseOld_of_few {nowMs : ℤ} (h : Timely (before++[.rate nowMs]))
    (hfew : (recent nowMs before).length < 2^31) :
    ((after before).eraseOld nowMs).numSamples = (recent nowMs before).length ∧
      ((after before).eraseOld nowMs).totalBytes = bytesOf (recent nowMs before) ∧
      ((after before).eraseOld nowMs).overflow = false ∧
      ((after before).eraseOld nowMs).activeWindowSize nowMs = windowSize nowMs before := by
  cases exists_tracks h.before with
  | intro bs hbs =>
      have hnow : (Call.rate nowMs).nowMs = nowMs := rfl
      have hrecent := recent_eq h
      have hwindow := (hbs.rate h).window
      have herased := hbs.erased h
      have hactive := activeWindowSize_eq h (evict (nowMs-999) bs)
      rw [hnow,recent_snoc_rate] at hrecent
      rw [lastTime_append,hnow,← hrecent] at hwindow
      rw [hnow] at herased hactive
      rw [herased]
      refine ⟨?_,congrArg bytesOf hwindow,rfl,hactive⟩
      simp only [estimator,hwindow]
      exact int32_of_range (by omega) (by omega)

theorem two_le_windowSize {nowMs : ℤ} (h : ¬Unknown nowMs before) :
    2 ≤ windowSize nowMs before := by
  have hmore : ¬windowSize nowMs before ≤ 1 := fun hle => h (Or.inr (Or.inl hle))
  omega

/-- `Rate` gives up on what is unknown, and divides otherwise. -/
theorem rate_of_few {nowMs : ℤ} (h : Timely (before++[.rate nowMs]))
    (hfew : (recent nowMs before).length < 2^31) :
    ((after before).rate nowMs).1 = if Unknown nowMs before then none else
      throughFloat (1000*bytesOf (recent nowMs before)/windowSize nowMs before*8) := by
  have herased := eraseOld_of_few h hfew
  have hunknown : Unknown nowMs before ↔ ((recent nowMs before).length : ℤ) = 0 ∨
      windowSize nowMs before ≤ 1 ∨ ((recent nowMs before).length : ℤ) ≤ 1 ∧
        windowSize nowMs before < kDefaultWindowSizeMillis ∨ false = true := by
    have hdefault : kDefaultWindowSizeMillis = 1000 := rfl
    unfold Unknown
    simp only [Bool.false_eq_true,or_false]
    omega
  unfold BitRateEstimator.rate
  simp only [herased.1,herased.2.1,herased.2.2.1,herased.2.2.2]
  by_cases hu : Unknown nowMs before
  · rw [if_pos hu,if_pos (hunknown.mp hu)]
  · have hsum : Light (recent nowMs before) := h.before.light.sublist List.filter_sublist
    rw [if_neg hu,if_neg (mt hunknown.mpr hu)]
    simp only
    rw [(rateValue_eq hsum.range (two_le_windowSize hu)).1]

/-- A rate is answered from the window, if its samples can be counted. -/
theorem answers_of_few {nowMs : ℤ} (h : Timely (before++[.rate nowMs]))
    (hfew : (recent nowMs (before++[.rate nowMs])).length < 2^31) : Answers before nowMs := by
  rw [recent_snoc_rate] at hfew
  have hrate := rate_of_few h hfew
  constructor
  case nothing =>
    by_cases hu : Unknown nowMs before
    · rw [hrate,if_pos hu]
      exact iff_of_true rfl hu
    · have hsum : Light (recent nowMs before) := h.before.light.sublist List.filter_sublist
      have hbounds := rateValue_eq hsum.range (two_le_windowSize hu)
      rw [hrate,if_neg hu]
      exact iff_of_false (throughFloat_ne_none hbounds.2.1 hbounds.2.2) hu
  case divides =>
    intro hu
    exact ⟨(eraseOld_of_few h hfew).2.2.2,two_le_windowSize hu,windowSize_le _ _⟩
  case value =>
    intro hu
    rw [hrate,if_neg hu]

/-- A call is right exactly when the samples of its window can be counted. -/
theorem right_iff_few (h : Timely (before++[call])) :
    Right before call ↔ (recent call.nowMs (before++[call])).length < 2^31 := by
  cases exists_tracks h with
  | intro bs hbs =>
      have hitems : items bs = recent call.nowMs (before++[call]) := by
        rw [hbs.window,lastTime_append,recent_eq h]
      have hcount : (after (before++[call])).numSamples =
          int32 (recent call.nowMs (before++[call])).length := by
        rw [hbs.state,estimator,hitems]
      constructor
      · intro hright
        have hspec := int32_spec (recent call.nowMs (before++[call])).length
        rw [← hcount,hright.numSamples] at hspec
        omega
      · intro hfew
        constructor
        · rw [hbs.state,estimator,hitems]
        · rw [hcount]
          exact int32_of_range (by omega) (by omega)
        · intro nowMs hcall
          subst hcall
          exact answers_of_few h hfew

/-- In a run of timely calls everything is right exactly when no window holds 2^31 samples. -/
theorem along_right_iff (calls : List Call) (h : Timely calls) : Along Right calls ↔
    Along (fun before call => (recent call.nowMs (before++[call])).length < 2^31) calls := by
  induction calls using List.reverseRecOn with
  | nil => exact iff_of_true (along_nil _) (along_nil _)
  | append_singleton calls call ih =>
      rw [along_snoc,along_snoc,ih h.before,right_iff_few h]

/-- In a run of timely calls, none of which sees more samples in its window than an `int` counts,
the totals are those of the window and every rate is the one of the window. -/
theorem along_right {calls : List Call} (h : Timely calls)
    (hfew : Along (fun before call => (recent call.nowMs (before++[call])).length < 2^31) calls) :
    Along Right calls := (along_right_iff calls h).mpr hfew

end Right

/-- Packets before and after a gap, and a question while the window is not full and later. -/
theorem along_right_packets :
    Along Right [.addData 500 0,.addData 1200 0,.rate 20,.addData 1500 999,.rate 1500] :=
  along_right ⟨by decide,by decide,by decide,by decide⟩ <|
    along_snoc.mpr ⟨along_snoc.mpr ⟨along_snoc.mpr ⟨along_snoc.mpr ⟨along_snoc.mpr ⟨along_nil _,
      by decide⟩,by decide⟩,by decide⟩,by decide⟩,by decide⟩

end Ylrtc.BitRate
