import Ylrtc.Lib.WrappingClock
import Ylrtc.Twcc.PeriodicFeedback
import Ylrtc.Twcc.SendSide
import Mathlib.Algebra.Group.Nat.Defs

/-!
# Receive times from one feedback to the next

What `SendSideTWCC` makes of the arrival times that `ReceiveSideTWCC` reports. Within a
feedback the deltas carry the times exactly, since the times are whole milliseconds; the base
time has 24 bits, and nothing unwraps it.
-/
namespace Ylrtc.ReceiveTimes
open ByteBuffer CursorParser FeedbackBuilder FeedbackWire IndexedDeque MachineInt
open PeriodicFeedback ReceiveSide ReceiveSideTWCC SendSide SendSideTWCC SequenceNumber
open TransportFeedback WrappingClock

/-- `kTimeWrapPeriodUs` in milliseconds. -/
abbrev kTimeWrapPeriodMs : ℕ := 1073741824

/-! ### The parsed lists -/

/-- The two lists of an object that lists lost packets too. -/
structure Complete (fb : TransportFeedback) : Prop where
  lost : fb.includeLost = true
  lists : fb.allPackets.filter (·.received) = fb.receivedPackets

theorem Complete.addParsed {fb : TransportFeedback} (h : Complete fb) (s delta : BitVec 16) :
    Complete (FeedbackWire.addParsed fb (.withDelta s delta)) := by
  refine ⟨h.lost,?_⟩
  simp only [FeedbackWire.addParsed,h.lost,if_true,List.filter_append,h.lists]
  rfl

theorem Complete.addParsedLost {fb : TransportFeedback} (h : Complete fb) (s : BitVec 16) :
    Complete (FeedbackWire.addParsedLost fb s) := by
  refine ⟨h.lost,?_⟩
  simp only [FeedbackWire.addParsedLost,h.lost,if_true,List.filter_append,h.lists]
  exact List.append_nil _

theorem Complete.addStatuses {fb : TransportFeedback} (h : Complete fb) (ds : List ℕ)
    (s : BitVec 16) : Complete (FeedbackWire.addStatuses ds s fb) := by
  induction ds generalizing fb s with
  | nil => exact h
  | cons d ds ih =>
      rw [FeedbackWire.addStatuses]
      split
      · exact ih (h.addParsed s 0) _
      · exact ih (h.addParsedLost s) _

section Parse
variable {b : Region} {payload endIndex : ℕ}

theorem parseChunks_complete {statusCount fuel index : ℕ} {acc : List ℕ} {fb : TransportFeedback}
    {r : ℕ × List ℕ × TransportFeedback} {c c' : Cursor} (hfb : Complete fb)
    (h : (parseChunks payload endIndex statusCount fuel index acc fb).run b c = (some r,c')) :
    Complete r.2.2 := by
  induction fuel generalizing index acc fb c with
  | zero => simp [parseChunks,Parser.fail] at h
  | succ fuel ih =>
      rw [parseChunks] at h
      split at h
      · cases Parser.bind_eq_some h with
        | intro _ h =>
            cases h with
            | intro d h =>
                cases Parser.bind_eq_some h.2 with
                | intro data h =>
                    cases h with
                    | intro e h =>
                        refine ih ?_ h.2
                        exact ⟨hfb.lost,hfb.lists⟩
      · rw [(Parser.pure_eq_some h).1]
        exact hfb

theorem parseDeltas_complete {ds : List ℕ} {seqNo : BitVec 16} {index : ℕ} {fb : TransportFeedback}
    {r : ℕ × TransportFeedback} {c c' : Cursor} (hfb : Complete fb)
    (h : (parseDeltas payload endIndex ds seqNo index fb).run b c = (some r,c')) :
    Complete r.2 := by
  induction ds generalizing seqNo index fb c with
  | nil =>
      rw [(Parser.pure_eq_some h).1]
      exact hfb
  | cons deltaSize ds ih =>
      match deltaSize with
      | 0 =>
          obtain ⟨_,d,_,hloop⟩ := Parser.bind_eq_some h
          exact ih (hfb.addParsedLost _) hloop
      | 1 =>
          obtain ⟨_,d,_,hrest⟩ := Parser.bind_eq_some h
          obtain ⟨data,e,_,hloop⟩ := Parser.bind_eq_some hrest
          exact ih (hfb.addParsed _ _) hloop
      | 2 =>
          obtain ⟨_,d,_,hrest⟩ := Parser.bind_eq_some h
          obtain ⟨data,e,_,hloop⟩ := Parser.bind_eq_some hrest
          exact ih (hfb.addParsed _ _) hloop
      | n+3 =>
          obtain ⟨_,d,_,hrest⟩ := Parser.bind_eq_some h
          have hfail : (none,d) = (some r,c') := hrest
          simp at hfail

theorem parseStatuses_complete {statusCount : BitVec 16} {fb fb' : TransportFeedback}
    {c c' : Cursor} (hfb : Complete fb)
    (h : (parseStatuses payload endIndex statusCount fb).run b c = (some fb',c')) :
    Complete fb' := by
  obtain ⟨⟨index,deltaSizes,fb₁⟩,d,hchunks,h₁⟩ := Parser.bind_eq_some h
  obtain ⟨⟨index',fb₂⟩,e,hreceived,h₂⟩ := Parser.bind_eq_some h₁
  obtain ⟨_,f,_,h₃⟩ := Parser.bind_eq_some h₂
  have hfirst := parseChunks_complete hfb hchunks
  have hsecond : Complete fb₂ := by
    rw [parseReceived] at hreceived
    split at hreceived
    · refine parseDeltas_complete ?_ hreceived
      exact ⟨hfirst.lost,hfirst.lists⟩
    · have hvalue := congrArg Prod.snd (Parser.pure_eq_some hreceived).1
      simp only at hvalue
      rw [hvalue]
      apply Complete.addStatuses
      exact ⟨hfirst.lost,hfirst.lists⟩
  rw [(Parser.pure_eq_some h₃).1]
  exact ⟨hsecond.lost,hsecond.lists⟩

/-- What `Parse` makes of a message, in an object as the sender has it. -/
theorem parse_complete {fb : TransportFeedback} {c c' : Cursor}
    (h : (parse { includeTimestamps := true, includeLost := true }).run b c = (some fb,c')) :
    Complete fb := by
  obtain ⟨_,_,_,h⟩ := Parser.bind_eq_some h
  obtain ⟨_,_,_,h⟩ := Parser.bind_eq_some h
  obtain ⟨_,_,_,h⟩ := Parser.bind_eq_some h
  obtain ⟨_,_,_,h⟩ := Parser.bind_eq_some h
  obtain ⟨_,_,_,h⟩ := Parser.bind_eq_some h
  obtain ⟨_,_,_,h⟩ := Parser.bind_eq_some h
  obtain ⟨_,_,_,h⟩ := Parser.bind_eq_some h
  obtain ⟨_,_,_,h⟩ := Parser.bind_eq_some h
  obtain ⟨_,_,_,h⟩ := Parser.bind_eq_some h
  exact parseStatuses_complete ⟨rfl,rfl⟩ h

end Parse

/-! ### The receive times of a feedback -/

/-- The receive times of `packet_status_vector`. -/
def receiveTimes (s : SendSideTWCC) (feedback : TransportFeedback) : List ℤ :=
  (receiveTransportFeedback s feedback).1.filterMap fun r => r.map (·.receiveTimeMillis)

/-- Every packet that is reported as received is found in the history. -/
def FullyMatched (s : SendSideTWCC) (feedback : TransportFeedback) : Prop :=
  ∀ (i : ℕ) (p : ReceivedPacket), feedback.allPackets[i]? = some p → p.received = true →
    ∃ status, (receiveTransportFeedback s feedback).1[i]? = some (some status)

/-- The times of received packets, from the base time and their deltas. -/
def timesFrom (baseUs : ℤ) : ℤ → List ReceivedPacket → List ℤ
  | _,[] => []
  | offset,p::ps =>
      (baseUs+(offset+p.deltaUs)).tdiv 1000::timesFrom baseUs (offset+p.deltaUs) ps

theorem matchPacket_received {base : ℤ} {m : Matching} {p : ReceivedPacket} {status : PacketStatus}
    (h : (matchPacket base m p).1 = some status) :
    status.receiveTimeMillis = (base+(m.timeOffsetMicros+p.deltaUs)).tdiv 1000 ∧
      (matchPacket base m p).2.timeOffsetMicros = m.timeOffsetMicros+p.deltaUs := by
  rw [matchPacket] at h ⊢
  simp only at h ⊢
  split at h
  · simp at h
  · split at h
    · simp at h
    · split at h
      · rw [Option.some.injEq] at h
        rename_i hreceived
        rw [← h,if_neg ‹_›,if_pos hreceived]
        exact ⟨rfl,rfl⟩
      · simp at h

theorem matchPackets_times {base : ℤ} {m : Matching} {ps : List ReceivedPacket}
    (h : ∀ (i : ℕ) (p : ReceivedPacket), ps[i]? = some p → p.received = true →
      ∃ status, (matchPackets base m ps).1[i]? = some (some status)) :
    (matchPackets base m ps).1.filterMap (fun r => r.map (·.receiveTimeMillis)) =
      timesFrom base m.timeOffsetMicros (ps.filter (·.received)) := by
  induction ps generalizing m with
  | nil => rfl
  | cons p ps ih =>
      have hrest := ih (m := (matchPacket base m p).2)
        (fun i q hq hreceived => h (i+1) q hq hreceived)
      rw [matchPackets]
      simp only
      cases hp : p.received with
      | false =>
          have hpass := matchPacket_pass base m p (by rw [hp]; rfl)
          rw [List.filter_cons_of_neg (by rw [hp]; exact Bool.false_ne_true)]
          rw [hpass] at hrest ⊢
          rw [List.filterMap_cons_none rfl]
          exact hrest
      | true =>
          cases h 0 p rfl hp with
          | intro status hstatus =>
              rw [matchPackets,List.getElem?_cons_zero,Option.some.injEq] at hstatus
              have htime := matchPacket_received hstatus
              rw [List.filter_cons_of_pos hp,timesFrom,hstatus,List.filterMap_cons,Option.map_some,
                hrest,htime.1,htime.2]

theorem receiveTimes_of_fullyMatched {s : SendSideTWCC} {feedback : TransportFeedback}
    (h : FullyMatched s feedback) :
    receiveTimes s feedback = timesFrom feedback.getBaseTimeUs 0
      (feedback.allPackets.filter (·.received)) := by
  rw [FullyMatched,receiveTransportFeedback] at h
  rw [receiveTimes,receiveTransportFeedback]
  by_cases hcount : feedback.getPacketStatusCount = 0
  · rw [if_pos hcount] at h ⊢
    have hnone : feedback.allPackets.filter (·.received) = [] := by
      rw [List.filter_eq_nil_iff]
      intro p hp hreceived
      cases List.mem_iff_getElem?.mp hp with
      | intro i hi =>
          cases h i p hi hreceived with
          | intro _ hfound => simp at hfound
    rw [hnone]
    rfl
  · rw [if_neg hcount] at h ⊢
    exact matchPackets_times h

/-! ### Messages of the receiver -/

/-- A feedback under construction, the base time of which is that of a packet. -/
structure Started (fb : TransportFeedback) (t : ℤ) : Prop where
  built : ∃ syms, Built fb syms
  base : fb.baseTimeTicks = ((t*1000).tmod kTimeWrapPeriodUs).tdiv kBaseScaleFactor
  size : fb.sizeBytes ≤ kMaxSizeBytes

theorem Started.added {fb fb' : TransportFeedback} {t₀ t : ℤ} {seq : BitVec 16} {ok : Bool}
    (h : Started fb t₀) (ha : fb.addReceivedPacket seq t = (ok,fb')) : Started fb' t₀ := by
  cases h.built with
  | intro syms hb =>
      obtain ⟨⟨_,_,_,_,hticks,_⟩,hno,hyes⟩ := addReceivedPacket_spec hb ha
      have hsize : (fb.addReceivedPacket seq t).2.sizeBytes ≤ kMaxSizeBytes :=
        addReceivedPacket_size_le h.size
      rw [ha] at hsize
      refine ⟨?_,hticks.trans h.base,hsize⟩
      cases ok with
      | false =>
          obtain ⟨_,_,k,hbuilt⟩ := hno rfl
          exact ⟨_,hbuilt⟩
      | true =>
          obtain ⟨_,_,_,_,hbuilt⟩ := hyes rfl
          exact ⟨_,hbuilt⟩

section Build
variable {ssrc : BitVec 32} {count : BitVec 8} {d : Deque ℤ} {u : SeqNumUnwrapper 16} {start w : ℤ}

/-- The loop goes on with a feedback it has. -/
theorem buildLoop_started (s : ReceiveSideTWCC) {n : ℕ} {seq next t₀ : ℤ}
    {fb fb' : TransportFeedback} {count : BitVec 8} (h : Started fb t₀)
    (hr : (s.buildLoop true w n seq ⟨some fb,count,next⟩).feedbackPacket = some fb') :
    Started fb' t₀ := by
  induction n generalizing seq next fb with
  | zero => exact Option.some.inj hr ▸ h
  | succ n ih =>
      rw [buildLoop] at hr
      simp only [feedbackFor] at hr
      split at hr
      · exact ih h hr
      · cases ha : fb.addReceivedPacket (low16 seq) (s.packetArrivalTimes.get seq*1000) with
        | mk ok fb₁ =>
            rw [ha] at hr
            cases ok with
            | false => exact Option.some.inj hr ▸ h.added ha
            | true => exact ih (h.added ha) hr

/-- The first packet that was received gives the base time. -/
theorem buildLoop_first {n : ℕ} {seq : ℤ} {fb : TransportFeedback} (hfront : d.front ≤ seq)
    (hr : (buildLoop ⟨ssrc,count,u,some start,⟨d,true⟩⟩ true w n seq
      ⟨none,count,w⟩).feedbackPacket = some fb) :
    ∃ e rest, entriesFrom d seq = e::rest ∧ Started fb e.2 := by
  induction n generalizing seq with
  | zero => simp [buildLoop] at hr
  | succ n ih =>
      rw [buildLoop] at hr
      simp only [get_eq hfront] at hr
      by_cases hz : d.value seq = 0
      · rw [if_pos hz] at hr
        rw [entriesFrom_skip hz]
        exact ih (by omega) hr
      · rw [if_neg hz] at hr
        simp only [feedbackFor] at hr
        refine ⟨_,_,entriesFrom_cons hz,?_⟩
        generalize hfb : TransportFeedback.setFeedbackSequenceNumber _ count = fb₀ at hr
        have hstarted : Started fb₀ (d.value seq) := by
          rw [← hfb]
          exact ⟨⟨[],Fresh.built ⟨rfl,rfl,rfl,rfl,rfl,rfl⟩⟩,rfl,Nat.le_of_ble_eq_true rfl⟩
        cases ha : fb₀.addReceivedPacket (low16 seq) (d.value seq*1000) with
        | mk ok fb₁ =>
            rw [ha] at hr
            cases ok with
            | false => exact Option.some.inj hr ▸ hstarted.added ha
            | true => exact buildLoop_started _ (hstarted.added ha) hr

/-- What a feedback of a round reports, with the base time of its first packet. -/
structure Emitted (d : Deque ℤ) (fb : TransportFeedback) (batch : List (ℤ × ℤ)) : Prop where
  reported : Reported fb batch
  known : ∀ e ∈ batch, d.value e.1 = e.2 ∧ 0 < e.2
  started : ∀ e rest, batch = e::rest → Started fb e.2

theorem maybeBuild_emitted (ssrc : BitVec 32) (count : BitVec 8) (h : Window d u start) (hlt : start < d.stop) :
    ∃ fb count' next batch, maybeBuildFeedbackPacket ⟨ssrc,count,u,some start,⟨d,true⟩⟩ true
        start d.stop true = (some fb,⟨ssrc,count',u,some next,⟨d,true⟩⟩) ∧
      Emitted d fb batch ∧ start < next ∧ next ≤ d.stop := by
  obtain ⟨fb,count',next,taken,heq,hsplit,hreported,hle,hle'⟩ := maybeBuild_spec ssrc count h hlt
  refine ⟨fb,count',next,taken,heq,⟨hreported,fun e he => ?_,?_⟩,hle,hle'⟩
  · have hmem : (e.1,e.2) ∈ entriesFrom d start := hsplit ▸ List.mem_append_left _ he
    have hentry := (mem_entriesFrom.mp hmem).2
    have htime := (h.times e.1).1
    exact ⟨hentry.1,by omega⟩
  · intro e rest hbatch
    rw [maybeBuildFeedbackPacket] at heq
    simp only at heq
    rw [ArrivalMap.PacketArrivalTimeMap.clamp_of_mem ⟨d,true⟩ h.front_le h.le_stop] at heq
    obtain ⟨e',rest',hentries,hstarted⟩ := buildLoop_first h.front_le (congrArg Prod.fst heq)
    rw [hentries,hbatch,List.cons_append] at hsplit
    rw [← (List.cons.inj hsplit).1]
    exact hstarted

theorem sendLoop_emitted {fuel : ℕ} {fbs : List TransportFeedback} {s' : ReceiveSideTWCC}
    (h : Window d u start)
    (hs : sendLoop d.stop fuel ⟨ssrc,count,u,some start,⟨d,true⟩⟩ = some (fbs,s')) :
    ∀ fb ∈ fbs, ∃ batch, Emitted d fb batch := by
  induction fuel generalizing count start fbs with
  | zero => simp [sendLoop] at hs
  | succ fuel ih =>
      rw [sendLoop_start] at hs
      by_cases hlt : start < d.stop
      · rw [if_pos hlt] at hs
        obtain ⟨fb,count',next,batch,heq,hemitted,hle,hle'⟩ :=
          maybeBuild_emitted ssrc count h hlt
        rw [heq] at hs
        obtain ⟨⟨fbs',t⟩,hrest,hcons⟩ := Option.map_eq_some_iff.mp hs
        simp only [Prod.mk.injEq] at hcons
        intro g hg
        rw [← hcons.1,List.mem_cons] at hg
        cases hg with
        | inl hhere => exact ⟨batch,hhere ▸ hemitted⟩
        | inr hlater => exact ih (h.advance (by omega) hle') (hcons.2 ▸ hrest) g hlater
      · rw [if_neg hlt] at hs
        simp only [Option.some.injEq,Prod.mk.injEq] at hs
        rw [← hs.1]
        intro g hg
        exact absurd hg List.not_mem_nil

end Build

/-! ### The deltas carry the times -/

/-- Each time is reported as well as half a tick allows. -/
def NearAll (baseUs : ℤ) : ℤ → List ReceivedPacket → List (ℤ × ℤ) → Prop
  | _,[],[] => True
  | ticks,p::rs,(_,t)::batch =>
      Near (1000*t) (baseUs+kDeltaScaleFactor*(ticks+p.deltaTicks.toInt)) ∧
        NearAll baseUs (ticks+p.deltaTicks.toInt) rs batch
  | _,[],_::_ => False
  | _,_::_,[] => False

theorem NearAll.snoc {baseUs ticks n t : ℤ} {rs : List ReceivedPacket} {batch : List (ℤ × ℤ)}
    {p : ReceivedPacket} (h : NearAll baseUs ticks rs batch)
    (hp : Near (1000*t) (baseUs+kDeltaScaleFactor*(ticks+ticksSum (rs++[p])))) :
    NearAll baseUs ticks (rs++[p]) (batch++[(n,t)]) := by
  induction rs generalizing ticks batch with
  | nil =>
      cases batch with
      | nil =>
          rw [List.nil_append,show ticksSum [p] = p.deltaTicks.toInt from List.sum_singleton] at hp
          exact ⟨hp,trivial⟩
      | cons _ _ => exact h.elim
  | cons q rs ih =>
      cases batch with
      | nil => exact h.elim
      | cons e batch =>
          have hsum : ticksSum (q::rs++[p]) = q.deltaTicks.toInt+ticksSum (rs++[p]) := by
            simp [ticksSum]
          rw [hsum,← Int.add_assoc] at hp
          exact ⟨h.1,ih h.2 hp⟩

theorem nearAll_of_timed {baseUs : ℤ} {rs : List ReceivedPacket} {batch : List (ℤ × ℤ)}
    (h : Timed baseUs rs batch) : NearAll baseUs 0 rs batch := by
  induction h with
  | nil => trivial
  | snoc _ hnear ih =>
      apply ih.snoc
      rw [Int.zero_add]
      exact hnear

/-- Times in whole milliseconds leave nothing to round. -/
theorem near_exact {t y : ℤ} (h : Near (1000*t) (250*y)) :
    ∃ k : ℤ, 250*y = 1000*(t - kTimeWrapPeriodMs*k) := by
  cases h with
  | intro k h =>
      cases h with
      | intro e h =>
          refine ⟨k,?_⟩
          simp only [kTimeWrapPeriodUs,kTimeWrapPeriodMs] at h ⊢
          omega

theorem bmod_of_near {a v k : ℤ} (h : a = v+kTimeWrapPeriodMs*k) (hlo : -8192 ≤ v)
    (hhi : v ≤ 8192) : a.bmod kTimeWrapPeriodMs = v := by
  rw [h,Int.add_mul_bmod_self_left]
  apply Int.bmod_eq_of_le
  · simp only [kTimeWrapPeriodMs]
    omega
  · simp only [kTimeWrapPeriodMs]
    omega

/-- One delta is one step. -/
theorem step_exact {y t r k δ t' : ℤ} (hr : r = t - kTimeWrapPeriodMs*k) (hy : 250*y = 1000*r)
    (hlo : -32768 ≤ δ) (hhi : δ ≤ 32767) (hnear : Near (1000*t') (250*(y+δ))) :
    250*(y+δ) = 1000*(r+(t'-t).bmod kTimeWrapPeriodMs) := by
  cases near_exact hnear with
  | intro k' hk =>
      have hstep : (t'-t).bmod kTimeWrapPeriodMs = t' - kTimeWrapPeriodMs*k' - r := by
        apply bmod_of_near (k := k'-k)
        · rw [hr,Int.mul_sub]
          omega
        · omega
        · omega
      rw [hstep]
      omega

theorem timesFrom_eq_reckonFrom {baseUs base ticks t r k : ℤ} {rs : List ReceivedPacket}
    {batch : List (ℤ × ℤ)} (hbase : baseUs = 250*base) (h : NearAll baseUs ticks rs batch)
    (hr : r = t - kTimeWrapPeriodMs*k) (hy : 250*(base+ticks) = 1000*r) :
    timesFrom baseUs (kDeltaScaleFactor*ticks) rs =
      reckonFrom kTimeWrapPeriodMs t r (batch.map (·.2)) := by
  induction rs generalizing ticks t r k batch with
  | nil =>
      cases batch with
      | nil => rfl
      | cons _ _ => exact h.elim
  | cons p rs ih =>
      cases batch with
      | nil => exact h.elim
      | cons e batch =>
          have hδ := toInt16_range p.deltaTicks
          have hnear := h.1
          have hscale : baseUs+kDeltaScaleFactor*(ticks+p.deltaTicks.toInt) =
              250*(base+ticks+p.deltaTicks.toInt) := by
            rw [hbase]
            simp only [kDeltaScaleFactor]
            omega
          rw [hscale] at hnear
          have hexact := step_exact hr hy hδ.1 hδ.2 hnear
          have hoffset : kDeltaScaleFactor*ticks+p.deltaUs =
              kDeltaScaleFactor*(ticks+p.deltaTicks.toInt) := by
            rw [ReceivedPacket.deltaUs,Int.mul_add,Int.mul_comm p.deltaTicks.toInt]
          have hlost : r+(e.2-t).bmod kTimeWrapPeriodMs =
              e.2 - kTimeWrapPeriodMs*(k+(e.2-t).bdiv kTimeWrapPeriodMs) := by
            have hsplit := Int.bmod_add_bdiv (e.2-t) kTimeWrapPeriodMs
            rw [hr,Int.mul_add]
            omega
          rw [timesFrom,List.map_cons,reckonFrom,hoffset,hscale,hexact,
            Int.mul_tdiv_cancel_left _ (by decide),
            ih h.2 hlost (by rw [← hexact,Int.add_assoc])]

/-- The receive times of an emitted feedback are the arrival times as its clock shows them. -/
theorem timesFrom_of_emitted {d : Deque ℤ} {fb : TransportFeedback} {batch : List (ℤ × ℤ)}
    (h : Emitted d fb batch) :
    timesFrom fb.getBaseTimeUs 0 fb.receivedPackets =
      reckon kTimeWrapPeriodMs (batch.map (·.2)) := by
  have hnear := nearAll_of_timed h.reported.timed
  generalize fb.receivedPackets = rs at hnear
  cases rs with
  | nil =>
      cases batch with
      | nil => rfl
      | cons _ _ => exact hnear.elim
  | cons p rs =>
      cases batch with
      | nil => exact hnear.elim
      | cons e batch =>
          have hpos := (h.known e List.mem_cons_self).2
          have hbase := (h.started e batch rfl).base
          have hδ := toInt16_range p.deltaTicks
          simp only [kTimeWrapPeriodUs,kBaseScaleFactor] at hbase
          rw [tmod_of_nonneg (by omega),tdiv_of_nonneg (by omega)] at hbase
          have hfirst : fb.getBaseTimeUs = 250*(256*fb.baseTimeTicks) := by
            simp only [getBaseTimeUs,kBaseScaleFactor]
            omega
          have hscale : fb.getBaseTimeUs+kDeltaScaleFactor*(0+p.deltaTicks.toInt) =
              250*(256*fb.baseTimeTicks+p.deltaTicks.toInt) := by
            rw [hfirst]
            simp only [kDeltaScaleFactor]
            omega
          have hhead := hnear.1
          rw [hscale] at hhead
          cases near_exact hhead with
          | intro k hk =>
              have hrem : e.2 - kTimeWrapPeriodMs*k = e.2 % kTimeWrapPeriodMs := by
                simp only [kTimeWrapPeriodMs] at hk ⊢
                omega
              rw [hrem] at hk
              have hoffset : 0+p.deltaUs = kDeltaScaleFactor*(0+p.deltaTicks.toInt) := by
                rw [ReceivedPacket.deltaUs,Int.zero_add,Int.zero_add,Int.mul_comm]
              rw [timesFrom,List.map_cons,reckon,hoffset,hscale,hk,
                Int.mul_tdiv_cancel_left _ (by decide),
                timesFrom_eq_reckonFrom hfirst hnear.2 (Int.emod_def _ _)
                  (by rw [← hk,Int.zero_add])]

/-! ### From the receiver to the sender -/

/-- What the sender has of a message after `Serialize` and `Parse`. -/
inductive Carried (fb feedback : TransportFeedback) : Prop
  | mk (buffer bytes : List Byte) (behind : ℕ → Byte) (hlt : bytes.length < 2^63)
      (room : buffer.length = size fb)
      (written : serialize fb (.on buffer) = some ⟨bytes,buffer.length⟩)
      (read : ((parse { includeTimestamps := true, includeLost := true }).run
        (Region.ofList bytes behind hlt) ⟨0,[]⟩).1 = some feedback) : Carried fb feedback

theorem Carried.same {fb feedback : TransportFeedback} (h : Carried fb feedback) {d : Deque ℤ}
    {e : ℤ × ℤ} {batch : List (ℤ × ℤ)} (hfb : Emitted d fb (e::batch)) :
    feedback.getBaseTimeUs = fb.getBaseTimeUs ∧
      feedback.allPackets.filter (·.received) = fb.receivedPackets := by
  have hsize := (hfb.started e batch rfl).size
  cases hfb.reported.built with
  | intro syms hbuilt =>
      have hne : fb.numSeqNo ≠ 0 := by
        intro hzero
        have hcount := hbuilt.count
        have hlength := Reports.length_le hbuilt.reports
        have hnumbers := congrArg List.length hfb.reported.timed.numbers
        simp only [List.length_map,List.length_cons] at hnumbers
        rw [hzero,show (0 : BitVec 16).toNat = 0 from rfl] at hcount
        omega
      cases h with
      | mk buffer bytes behind hlt room written read =>
          have hlength := wireBytes_length hbuilt
          rw [serialize_writes fb (.on _) (Nat.zero_le _),
            ByteWriter.writeBytes_fill _ _ (hlength.trans room.symm),Option.some.injEq,
            ByteWriter.mk.injEq] at written
          obtain ⟨rfl,_⟩ := written
          obtain ⟨parsed,_,hparsed,⟨_,_,_,_,hticks,_⟩,_,hreceived⟩ :=
            parse_wire hbuilt hfb.reported.stamps hne hfb.reported.ticks hsize
              (rfl : TransportFeedback.includeTimestamps
                { includeTimestamps := true, includeLost := true } = true) hlength
              (Region.ofList_holds (wireBytes fb) _ hlt)
          rw [hparsed,Option.some.injEq] at read
          rw [← read]
          refine ⟨by rw [getBaseTimeUs,hticks,getBaseTimeUs],?_⟩
          rw [(parse_complete hparsed).lists,hreceived]

/-- The arrival times of packets that the receiver has in its map. -/
def Arrived (s : ReceiveSideTWCC) (rs : List ReceivedPacket) (times : List ℤ) : Prop :=
  List.Forall₂ (fun p t => ∃ n, p.sequenceNumber = low16 n ∧
    s.packetArrivalTimes.timeAt n = t ∧ t ≠ 0) rs times

/-- A message that the receiver sends in some run, as it comes to the sender, and the arrival
times of the packets it reports. -/
inductive Message (feedback : TransportFeedback) (times : List ℤ) : Prop
  | sent {es : List Event} {s s' : ReceiveSideTWCC} {fuel : ℕ} {fbs : List TransportFeedback}
      {fb : TransportFeedback} (run : Run es s)
      (round : sendPeriodicFeedbacks fuel s = some (fbs,s')) (mem : fb ∈ fbs)
      (arrived : Arrived s fb.receivedPackets times) (carried : Carried fb feedback) :
      Message feedback times

/-- No two numbers in the map have the same 16 bits. -/
theorem arrived_unique {ssrc : BitVec 32} {count : BitVec 8} {d : Deque ℤ} {u : SeqNumUnwrapper 16}
    {start : ℤ} (h : Window d u start) {rs : List ReceivedPacket} {batch : List (ℤ × ℤ)}
    {times : List ℤ} (hnumbers : List.Forall₂ (fun p e => p.sequenceNumber = low16 e.1) rs batch)
    (hknown : ∀ e ∈ batch, d.value e.1 = e.2 ∧ 0 < e.2)
    (harrived : Arrived ⟨ssrc,count,u,some start,⟨d,true⟩⟩ rs times) :
    times = batch.map (·.2) := by
  have hlength := h.length_le
  have hcapacity : ArrivalMap.kMaxNumberOfPackets = 32768 := rfl
  have hstop : d.stop = d.front+d.items.length := rfl
  rw [hcapacity] at hlength
  induction hnumbers generalizing times with
  | nil => exact List.forall₂_nil_left_iff.mp harrived
  | @cons p e rs batch hp _ ih =>
      cases harrived with
      | @cons _ t _ times hhere hrest =>
          cases hhere with
          | intro n hn =>
              have hvalue := hknown e List.mem_cons_self
              have hin := Deque.range_of_value_ne d (show d.value e.1 ≠ 0 by omega)
              have htime : d.value n = t := hn.2.1
              have hin' := Deque.range_of_value_ne d (htime ▸ hn.2.2)
              have hsame := (low16_eq_iff _ _).mp (hp.symm.trans hn.1)
              obtain rfl : n = e.1 := by omega
              rw [List.map_cons,← ih (fun q hq => hknown q (List.mem_cons_of_mem _ hq)) hrest,
                ← htime,hvalue.1]

/-- A fully matched message gives the arrival times as its clock shows them. -/
theorem Message.receiveTimes_eq {s : SendSideTWCC} {feedback : TransportFeedback} {times : List ℤ}
    (h : Message feedback times) (hmatched : FullyMatched s feedback) :
    times = [] ∨ receiveTimes s feedback = reckon kTimeWrapPeriodMs times := by
  cases h with
  | sent run round mem arrived carried =>
      cases run.inv with
      | initial ssrc count hu =>
          simp only [sendPeriodicFeedbacks,Option.some.injEq,Prod.mk.injEq] at round
          rw [← round.1] at mem
          exact absurd mem List.not_mem_nil
      | @running ssrc count d u start hw =>
          cases sendLoop_emitted hw round _ mem with
          | intro batch hemitted =>
              have hnumbers := hemitted.reported.timed.numbers
              rw [← List.forall₂_eq_eq_eq,List.forall₂_map_left_iff,List.forall₂_map_right_iff]
                at hnumbers
              rw [arrived_unique hw hnumbers hemitted.known arrived]
              cases batch with
              | nil => exact Or.inl rfl
              | cons e batch =>
                  apply Or.inr
                  have hsame := carried.same hemitted
                  rw [receiveTimes_of_fullyMatched hmatched,hsame.1,hsame.2,
                    timesFrom_of_emitted hemitted]

/-- The receive times of two messages differ as the arrival times do exactly when the same
number of periods of the base time is missing in all of them. -/
theorem receiveTimes_differ_iff {s s' : SendSideTWCC} {feedback feedback' : TransportFeedback}
    {times times' : List ℤ} (h : Message feedback times) (h' : Message feedback' times')
    (hmatched : FullyMatched s feedback) (hmatched' : FullyMatched s' feedback') :
    SameDifferences (receiveTimes s feedback) times (receiveTimes s' feedback') times' ↔
      ∀ k ∈ lost kTimeWrapPeriodMs times, ∀ k' ∈ lost kTimeWrapPeriodMs times', k = k' := by
  have hnone : ∀ rs ts : List ℤ, SameDifferences (receiveTimes s feedback) [] rs ts ∧
      SameDifferences rs ts (receiveTimes s' feedback') [] := by
    intro rs ts
    exact ⟨fun i j r t r' t' _ ht => by simp at ht,fun i j r t r' t' _ _ _ ht => by simp at ht⟩
  cases h.receiveTimes_eq hmatched with
  | inl hempty =>
      rw [hempty]
      exact ⟨fun _ k hk => absurd hk List.not_mem_nil,fun _ => (hnone _ _).1⟩
  | inr heq =>
      cases h'.receiveTimes_eq hmatched' with
      | inl hempty =>
          rw [hempty]
          exact ⟨fun _ _ _ k hk => absurd hk List.not_mem_nil,fun _ => (hnone _ _).2⟩
      | inr heq' =>
          rw [heq,heq']
          exact sameDifferences_iff (by decide) times times'

/-! ### A wrap between two messages -/

/-- A feedback of one packet, as it is sent or as it is read. -/
def single (includeLost : Bool) (number delta : BitVec 16) (ticks : ℤ) (count : BitVec 8) :
    TransportFeedback :=
  { includeTimestamps := true, includeLost := includeLost, mediaSsrc := 9, baseSeqNo := number
    numSeqNo := 1, baseTimeTicks := ticks, feedbackSeq := count
    lastTimestampUs := ticks*kBaseScaleFactor+delta.toInt*kDeltaScaleFactor
    receivedPackets := [.withDelta number delta]
    allPackets := if includeLost then [.withDelta number delta] else []
    lastChunk := StatusChunk.cleared.add 1, sizeBytes := 23 }

/-- Ten milliseconds before the base time wraps. -/
def early : ReceiveSideTWCC := incomingPacket {} 1073741814 9 1

def reported : ReceiveSideTWCC := ((sendPeriodicFeedbacks 2 early).map (·.2)).getD {}

/-- Twenty milliseconds later. -/
def late : ReceiveSideTWCC := reported.incomingPacket 1073741834 9 2

def sender : SendSideTWCC :=
  ⟨((∅ : History).insertIfNew 1 ⟨10,-1,100,1⟩).insertIfNew 2 ⟨30,-1,100,2⟩,{}⟩

theorem early_round :
    sendPeriodicFeedbacks 2 early = some ([single false 1 216 16777215 0],reported) := rfl

theorem early_run : Run [.incomingPacket 1073741814 9 1] early :=
  .incoming (t := 1073741814) 9 1 .init (by decide) (by decide)

theorem late_run : ∃ es, Run es late :=
  ⟨_,.incoming (t := 1073741834) 9 2 (.send early_run early_round) (by decide) (by decide)⟩

theorem late_round : ∃ s', sendPeriodicFeedbacks 2 late = some ([single false 2 40 0 1],s') :=
  ⟨_,rfl⟩

theorem early_carried : Carried (single false 1 216 16777215 0) (single true 1 216 16777215 0) :=
  .mk (List.replicate 24 0) (wireBytes (single false 1 216 16777215 0)) (fun _ => 0) (by decide)
    (by decide) rfl rfl

theorem late_carried : Carried (single false 2 40 0 1) (single true 2 40 0 1) :=
  .mk (List.replicate 24 0) (wireBytes (single false 2 40 0 1)) (fun _ => 0) (by decide)
    (by decide) rfl rfl

theorem early_arrived : Arrived early [.withDelta 1 216] [1073741814] :=
  .cons ⟨1,rfl,rfl,by decide⟩ .nil

theorem late_arrived : Arrived late [.withDelta 2 40] [1073741834] :=
  .cons ⟨2,rfl,rfl,by decide⟩ .nil

theorem fullyMatched_single {s : SendSideTWCC} {number delta : BitVec 16} {ticks : ℤ}
    {count : BitVec 8} (status : PacketStatus)
    (h : (receiveTransportFeedback s (single true number delta ticks count)).1 = [some status]) :
    FullyMatched s (single true number delta ticks count) := by
  intro i p hp _
  cases i with
  | zero => exact ⟨status,by rw [h]; rfl⟩
  | succ i => simp [single] at hp

theorem early_matched : FullyMatched sender (single true 1 216 16777215 0) :=
  fullyMatched_single ⟨10,1073741814,100,1⟩ (by decide)

theorem late_matched :
    FullyMatched (receiveTransportFeedback sender (single true 1 216 16777215 0)).2
      (single true 2 40 0 1) :=
  fullyMatched_single ⟨30,10,100,2⟩ (by decide)

theorem receiveTimes_differ_iff_wrap :
    ∃ s s' feedback feedback', SameDifferences (receiveTimes s feedback) [1073741814]
      (receiveTimes s' feedback') [1073741834] ↔
      ∀ k ∈ lost kTimeWrapPeriodMs [1073741814], ∀ k' ∈ lost kTimeWrapPeriodMs [1073741834],
        k = k' := by
  cases late_run with
  | intro es hrun =>
      cases late_round with
      | intro s' hround =>
          have hearly : Message (single true 1 216 16777215 0) [1073741814] :=
            .sent early_run early_round List.mem_cons_self early_arrived early_carried
          have hlate : Message (single true 2 40 0 1) [1073741834] :=
            .sent hrun hround List.mem_cons_self late_arrived late_carried
          exact ⟨_,_,_,_,receiveTimes_differ_iff hearly hlate early_matched late_matched⟩

/-- Already for messages of two rounds, with one packet in between. -/
theorem not_receiveTimes_differ : ¬∀ (es : List Event) (s s₁ s₂ : ReceiveSideTWCC) (t : ℤ)
    (ssrc : BitVec 32) (value : BitVec 16) (fuel fuel' : ℕ) (fb fb' m m' : TransportFeedback)
    (times times' : List ℤ) (sender : SendSideTWCC), Run es s →
    sendPeriodicFeedbacks fuel s = some ([fb],s₁) → 0 < t → t ≤ kMaxTimeMs →
    sendPeriodicFeedbacks fuel' (s₁.incomingPacket t ssrc value) = some ([fb'],s₂) →
    Arrived s fb.receivedPackets times →
    Arrived (s₁.incomingPacket t ssrc value) fb'.receivedPackets times' →
    Carried fb m → Carried fb' m' → FullyMatched sender m →
    FullyMatched (receiveTransportFeedback sender m).2 m' →
    SameDifferences (receiveTimes sender m) times
      (receiveTimes (receiveTransportFeedback sender m).2 m') times' := by
  intro h
  cases late_round with
  | intro s' hround =>
      have hsame := h _ early reported s' 1073741834 9 2 2 2 _ _ _ _ _ _ sender early_run
        early_round (by decide) (by decide) hround early_arrived late_arrived early_carried
        late_carried early_matched late_matched
      have hwrong := hsame 0 0 1073741814 1073741814 10 1073741834 (by decide) rfl (by decide) rfl
      exact absurd hwrong (by decide)

end Ylrtc.ReceiveTimes
