import Mathlib.Data.List.Forall2
import Ylrtc.Twcc.ReceiveSide

/-!
# What a round of periodic feedback reports

One feedback reports a batch of consecutive received packets, and the feedbacks
of one round report everything from the window start to the end of the map, in
order. The first packet of a feedback is never refused, so the round ends.
-/
namespace Ylrtc.PeriodicFeedback
open ArrivalMap FeedbackBuilder IndexedDeque MachineInt ReceiveSide ReceiveSideTWCC SequenceNumber
open TransportFeedback

/-- Received packets and their arrival times among the `n` numbers from `seq`. -/
def entries (d : Deque ℤ) : ℕ → ℤ → List (ℤ × ℤ)
  | 0,_ => []
  | n+1,seq =>
      if d.value seq = 0 then entries d n (seq+1)
      else (seq,d.value seq)::entries d n (seq+1)

/-- The received packets a map holds from `seq` on. -/
def entriesFrom (d : Deque ℤ) (seq : ℤ) : List (ℤ × ℤ) := entries d (d.stop - seq).toNat seq

section Entries
variable {d : Deque ℤ}

theorem entriesFrom_stop {seq : ℤ} (h : d.stop ≤ seq) : entriesFrom d seq = [] := by
  rw [entriesFrom,show (d.stop - seq).toNat = 0 by omega]
  rfl

theorem toNat_succ {a b : ℤ} (h : a < b) : (b - a).toNat = (b - (a+1)).toNat+1 := by omega

theorem entriesFrom_skip {seq : ℤ} (hz : d.value seq = 0) :
    entriesFrom d seq = entriesFrom d (seq+1) := by
  by_cases h : seq < d.stop
  · rw [entriesFrom,toNat_succ h,entries,if_pos hz,entriesFrom]
  · rw [entriesFrom_stop (by omega),entriesFrom_stop (by omega)]

theorem entriesFrom_cons {seq : ℤ} (hne : d.value seq ≠ 0) :
    entriesFrom d seq = (seq,d.value seq)::entriesFrom d (seq+1) := by
  have h := Deque.range_of_value_ne d hne
  rw [entriesFrom,toNat_succ h.2,entries,if_neg hne,entriesFrom]

theorem mem_entries {k : ℕ} {seq n t : ℤ} :
    (n,t) ∈ entries d k seq ↔ seq ≤ n ∧ n < seq+k ∧ d.value n = t ∧ t ≠ 0 := by
  induction k generalizing seq with
  | zero =>
      simp only [entries,List.not_mem_nil,false_iff]
      omega
  | succ k ih =>
      rw [entries]
      split
      · rename_i hz
        rw [ih]
        constructor
        · rintro ⟨h1,h2,h3,h4⟩
          exact ⟨by omega,by omega,h3,h4⟩
        · rintro ⟨h1,h2,h3,h4⟩
          have hn : n ≠ seq := fun he => h4 (by rw [← h3,he,hz])
          exact ⟨by omega,by omega,h3,h4⟩
      · rename_i hz
        rw [List.mem_cons,ih,Prod.mk.injEq]
        constructor
        · rintro (⟨rfl,rfl⟩ | ⟨h1,h2,h3,h4⟩)
          · exact ⟨le_rfl,by omega,rfl,hz⟩
          · exact ⟨by omega,by omega,h3,h4⟩
        · rintro ⟨h1,h2,h3,h4⟩
          by_cases hn : n = seq
          · subst hn
            exact Or.inl ⟨rfl,h3.symm⟩
          · exact Or.inr ⟨by omega,by omega,h3,h4⟩

theorem mem_entriesFrom {seq n t : ℤ} :
    (n,t) ∈ entriesFrom d seq ↔ seq ≤ n ∧ d.value n = t ∧ t ≠ 0 := by
  rw [entriesFrom,mem_entries]
  constructor
  · rintro ⟨h1,_,h3,h4⟩
    exact ⟨h1,h3,h4⟩
  · rintro ⟨h1,h3,h4⟩
    have := Deque.range_of_value_ne d (by rw [h3]; exact h4)
    exact ⟨h1,by omega,h3,h4⟩

/-- Within one cycle of the 16-bit numbers no two entries share their number. -/
theorem entries_nodup {k : ℕ} {seq : ℤ} (hk : k ≤ 65536) :
    ((entries d k seq).map fun e => low16 e.1).Nodup := by
  induction k generalizing seq with
  | zero => simp [entries]
  | succ k ih =>
      rw [entries]
      split
      · exact ih (by omega)
      · rw [List.map_cons,List.nodup_cons]
        refine ⟨fun hmem => ?_,ih (by omega)⟩
        obtain ⟨⟨n,t⟩,hn,heq⟩ := List.mem_map.mp hmem
        have hrange := mem_entries.mp hn
        rw [low16_eq_iff] at heq
        simp only at heq
        omega

end Entries

/-- The reported time is right to half a tick, modulo the wrap period. -/
def Near (actualUs reportedUs : ℤ) : Prop :=
  ∃ k e : ℤ, actualUs = reportedUs + k*kTimeWrapPeriodUs + e ∧ -125 ≤ e ∧ e ≤ 125

/-- Reported packets that name the entries of a batch, each at its time. -/
inductive Timed (baseUs : ℤ) : List ReceivedPacket → List (ℤ × ℤ) → Prop
  | nil : Timed baseUs [] []
  | snoc {rs : List ReceivedPacket} {batch : List (ℤ × ℤ)} {n t : ℤ} {delta : BitVec 16} :
      Timed baseUs rs batch →
      Near (1000*t) (baseUs + kDeltaScaleFactor*ticksSum (rs++[.withDelta (low16 n) delta])) →
      Timed baseUs (rs++[.withDelta (low16 n) delta]) (batch++[(n,t)])

/-- A feedback under construction that reports a batch so far. -/
structure Reported (fb : TransportFeedback) (batch : List (ℤ × ℤ)) : Prop where
  built : ∃ syms, Built fb syms
  stamps : fb.includeTimestamps = true
  ticks : 0 ≤ fb.baseTimeTicks ∧ fb.baseTimeTicks < 2^24
  timed : Timed fb.getBaseTimeUs fb.receivedPackets batch

/-- An accepted packet joins the batch. -/
theorem Reported.accepted {fb fb' : TransportFeedback} {batch : List (ℤ × ℤ)} {n t : ℤ}
    (h : Reported fb batch) (ht : 0 < t) (ht' : t ≤ kMaxTimeMs)
    (ha : fb.addReceivedPacket (low16 n) (t*1000) = (true,fb')) :
    Reported fb' (batch++[(n,t)]) := by
  obtain ⟨syms,hb⟩ := h.built
  obtain ⟨hh,_,hyes⟩ := addReceivedPacket_spec hb ha
  obtain ⟨delta,_,hreceived,_,hb'⟩ := hyes rfl
  obtain ⟨hstamps,_,_,_,hticks,_⟩ := hh
  have hstamps' := hstamps.trans h.stamps
  have hbase : fb'.getBaseTimeUs = fb.getBaseTimeUs := by
    rw [getBaseTimeUs,hticks,getBaseTimeUs]
  have hmax : kMaxTimeMs = 9223372036854775 := rfl
  obtain ⟨k,e,hk,he⟩ := hb.accepted_time h.stamps h.ticks (by omega) (by omega) ha
  refine ⟨⟨_,hb'⟩,hstamps',by rw [hticks]; exact h.ticks,?_⟩
  rw [hb'.timestamp hstamps',hbase] at hk
  rw [hreceived] at hk ⊢
  rw [hbase]
  exact .snoc h.timed ⟨k,e,by rw [Int.mul_comm,hk],he⟩

/-- A refused packet leaves the batch as it is. -/
theorem Reported.refused {fb fb' : TransportFeedback} {batch : List (ℤ × ℤ)} {n t : ℤ}
    (h : Reported fb batch) (ha : fb.addReceivedPacket (low16 n) (t*1000) = (false,fb')) :
    Reported fb' batch := by
  obtain ⟨syms,hb⟩ := h.built
  obtain ⟨hh,hno,_⟩ := addReceivedPacket_spec hb ha
  obtain ⟨hreceived,_,k,hb'⟩ := hno rfl
  obtain ⟨hstamps,_,_,_,hticks,_⟩ := hh
  refine ⟨⟨_,hb'⟩,hstamps.trans h.stamps,by rw [hticks]; exact h.ticks,?_⟩
  rw [hreceived,getBaseTimeUs,hticks]
  exact h.timed

/-! ### Building one feedback -/

section Build
variable (ssrc : BitVec 32) (count : BitVec 8) {d : Deque ℤ} {u : SeqNumUnwrapper 16} {start : ℤ}

theorem get_eq {seq : ℤ} (h : d.front ≤ seq) :
    PacketArrivalTimeMap.get ⟨d,true⟩ seq = d.value seq :=
  PacketArrivalTimeMap.get_of_begin_le ⟨d,true⟩ h

/-- The loop once a feedback exists. The numbers between `next` and `seq` were
not received. -/
theorem buildLoop_some (h : Window d u start) (w : ℤ) {n : ℕ} (seq next : ℤ)
    {fb : TransportFeedback} {batch : List (ℤ × ℤ)} (count' : BitVec 8)
    (hn : n = (d.stop - seq).toNat) (hfront : d.front ≤ seq) (hseq : seq ≤ d.stop)
    (hnext : next ≤ seq) (hskip : entriesFrom d next = entriesFrom d seq)
    (hb : Reported fb batch) :
    ∃ fb' next' taken, buildLoop ⟨ssrc,count,u,some start,⟨d,true⟩⟩ true w n seq
        ⟨some fb,count',next⟩ = ⟨some fb',count',next'⟩ ∧
      entriesFrom d seq = taken++entriesFrom d next' ∧ Reported fb' (batch++taken) ∧
      next ≤ next' ∧ next' ≤ d.stop := by
  induction n generalizing seq next fb batch with
  | zero =>
      refine ⟨fb,next,[],rfl,?_,by rw [List.append_nil]; exact hb,le_rfl,by omega⟩
      rw [List.nil_append,hskip]
  | succ n ih =>
      rw [buildLoop]
      simp only [get_eq hfront]
      by_cases hz : d.value seq = 0
      · rw [if_pos hz]
        rw [entriesFrom_skip hz] at hskip ⊢
        exact ih (seq+1) next (by omega) (by omega) (by omega) (by omega) hskip hb
      rw [if_neg hz]
      have htime := h.times seq
      simp only [feedbackFor]
      generalize ha : fb.addReceivedPacket (low16 seq) (d.value seq*1000) = r
      obtain ⟨ok,fb₁⟩ := r
      cases ok with
      | false =>
          refine ⟨fb₁,next,[],rfl,?_,?_,le_rfl,by omega⟩
          · rw [List.nil_append,hskip]
          · rw [List.append_nil]
            exact hb.refused ha
      | true =>
          obtain ⟨fb',next',taken,heq,hsplit,hb',hle,hle'⟩ := ih (seq+1) (seq+1) (by omega)
            (by omega) (by omega) le_rfl rfl (hb.accepted (by omega) htime.2 ha)
          refine ⟨fb',next',(seq,d.value seq)::taken,heq,?_,?_,by omega,hle'⟩
          · rw [entriesFrom_cons hz,hsplit,List.cons_append]
          · rwa [List.append_assoc,List.singleton_append] at hb'

/-- How far the first received packet can be from the window start. -/
theorem first_gap (h : Window d u start) {seq : ℤ}
    (hzero : ∀ m, start ≤ m → m < seq → d.value m = 0) (hne : d.value seq ≠ 0) :
    seq - start ≤ 32767 ∧ (seq - start = 32767 → (start-1) % 65536 < 32768) := by
  have hrange := Deque.range_of_value_ne d hne
  have hstop : d.stop = d.front+d.items.length := rfl
  have hcapacity : kMaxNumberOfPackets = 32768 := rfl
  have hlen := h.length_le
  have hfront := h.front_le
  refine ⟨by omega,fun hgap => ?_⟩
  have hstart : start = d.front := by omega
  rw [hstart]
  apply h.half (by omega)
  intro m hm
  by_cases hmf : m < d.front
  · exact Deque.value_of_lt d hmf
  · exact hzero m (by omega) (by omega)

/-- The first packet of a feedback is accepted. At the exact half-range gap the
comparison of the numbers is decided by their order. -/
theorem first_accepted {w seq t : ℤ} (ht : 0 < t) (ht' : t ≤ kMaxTimeMs) (hle : w ≤ seq)
    (hgap : seq - w ≤ 32767 ∧ (seq - w = 32767 → (w-1) % 65536 < 32768))
    {fb : TransportFeedback} (hb : Built fb []) (hstamps : fb.includeTimestamps = true)
    (hbase : fb.baseSeqNo = low16 w)
    (hlast : fb.lastTimestampUs =
      ((t*1000).tmod kTimeWrapPeriodUs).tdiv kBaseScaleFactor*kBaseScaleFactor) :
    (fb.addReceivedPacket (low16 seq) (t*1000)).1 = true := by
  have hmax : kMaxTimeMs = 9223372036854775 := rfl
  have hnum : fb.numSeqNo = 0 := by
    apply BitVec.eq_of_toNat_eq
    rw [← hb.count]
    rfl
  have hdelta := deltaFull_base (t := t*1000) (by omega) (by omega)
  rw [← hlast] at hdelta
  have hprev : fb.baseSeqNo+fb.numSeqNo-1 = low16 (w-1) := by
    rw [hbase,hnum,← BitVec.toNat_inj]
    have h1 := low16_toNat w
    have h2 := low16_toNat (w-1)
    bv_omega
  have hnext : low16 w+0 = low16 w := BitVec.add_zero _
  apply addReceivedPacket_accepts hb hstamps (by omega)
  · rw [hprev,hbase,hnum,hnext]
    by_cases he : seq = w
    · exact Or.inl (by rw [he])
    · apply Or.inr
      by_cases hhalf : seq - w = 32767
      · rw [show seq = w-1+32768 by omega]
        exact (seqNumGT_low16_half (w-1)).mpr (hgap.2 hhalf)
      · exact seqNumGT_low16 seq (w-1) (by omega) (by omega)
  · rw [hbase,hnum,hnext]
    have h1 := low16_toNat w
    have h2 := low16_toNat seq
    have h3 := sub_toNat (low16 seq) (low16 w)
    have h4 : (0 : BitVec 16).toNat = 0 := rfl
    omega

/-- The loop until a feedback exists. -/
theorem buildLoop_none (h : Window d u start) {n : ℕ} (seq : ℤ)
    (hn : n = (d.stop - seq).toNat) (hle : start ≤ seq)
    (hzero : ∀ m, start ≤ m → m < seq → d.value m = 0) (hne : entriesFrom d seq ≠ []) :
    ∃ fb' count' next' taken, buildLoop ⟨ssrc,count,u,some start,⟨d,true⟩⟩ true start n seq
        ⟨none,count,start⟩ = ⟨some fb',count',next'⟩ ∧
      entriesFrom d seq = taken++entriesFrom d next' ∧ Reported fb' taken ∧
      start < next' ∧ next' ≤ d.stop := by
  have hfront := h.front_le
  induction n generalizing seq with
  | zero => exact absurd (entriesFrom_stop (by omega)) hne
  | succ n ih =>
      rw [buildLoop]
      simp only [get_eq (show d.front ≤ seq by omega)]
      by_cases hz : d.value seq = 0
      · rw [if_pos hz]
        rw [entriesFrom_skip hz] at hne ⊢
        apply ih (seq+1) (by omega) (by omega) _ hne
        intro m hm hm'
        by_cases he : m = seq
        · rw [he,hz]
        · exact hzero m hm (by omega)
      rw [if_neg hz]
      have htime := h.times seq
      have hgap := first_gap h hzero hz
      simp only [feedbackFor]
      generalize hfb : TransportFeedback.setFeedbackSequenceNumber _ count = fb
      have hbuilt : Built fb [] := by
        rw [← hfb]
        exact Fresh.built ⟨rfl,rfl,rfl,rfl,rfl,rfl⟩
      have hreported : Reported fb [] := by
        refine ⟨⟨[],hbuilt⟩,by rw [← hfb]; rfl,?_,by rw [← hfb]; exact .nil⟩
        rw [← hfb]
        exact baseTicks_range (by omega)
      have hok : (fb.addReceivedPacket (low16 seq) (d.value seq*1000)).1 = true :=
        first_accepted (by omega) htime.2 hle hgap hbuilt hreported.stamps
          (by rw [← hfb]; rfl) (by rw [← hfb]; rfl)
      generalize ha : fb.addReceivedPacket (low16 seq) (d.value seq*1000) = r at hok ⊢
      obtain ⟨ok,fb₁⟩ := r
      simp only at hok
      subst hok
      have hrange := Deque.range_of_value_ne d hz
      obtain ⟨fb',next',taken,heq,hsplit,hb',hle₁,hle₂⟩ := buildLoop_some ssrc count h start
        (n := n) (seq+1) (seq+1) (count+1) (by omega) (by omega) (by omega) le_rfl rfl
        (hreported.accepted (by omega) htime.2 ha)
      refine ⟨fb',count+1,next',(seq,d.value seq)::taken,heq,?_,hb',by omega,hle₂⟩
      rw [entriesFrom_cons hz,hsplit,List.cons_append]

/-- One feedback: it reports the first entries of the window and moves the window
start behind them. -/
theorem maybeBuild_spec (h : Window d u start) (hlt : start < d.stop) :
    ∃ fb count' next taken, maybeBuildFeedbackPacket ⟨ssrc,count,u,some start,⟨d,true⟩⟩ true
        start d.stop true = (some fb,⟨ssrc,count',u,some next,⟨d,true⟩⟩) ∧
      entriesFrom d start = taken++entriesFrom d next ∧ Reported fb taken ∧
      start < next ∧ next ≤ d.stop := by
  have hlast := h.ends h.nonempty
  have hmem : (d.stop-1,d.value (d.stop-1)) ∈ entriesFrom d start :=
    mem_entriesFrom.mpr ⟨by omega,rfl,hlast⟩
  obtain ⟨fb,count',next,taken,heq,hsplit,hb,hle,hle'⟩ := buildLoop_none ssrc count h start rfl
    le_rfl (fun m hm hm' => by omega) (List.ne_nil_of_mem hmem)
  refine ⟨fb,count',next,taken,?_,hsplit,hb,hle,hle'⟩
  unfold maybeBuildFeedbackPacket
  simp only
  rw [PacketArrivalTimeMap.clamp_of_mem ⟨d,true⟩ h.front_le h.le_stop,
    PacketArrivalTimeMap.clamp_of_mem ⟨d,true⟩ (Deque.front_le_stop d) le_rfl,heq]
  rfl

end Build

/-! ### A round of feedbacks -/

theorem sendLoop_start {e start : ℤ} (fuel : ℕ) (ssrc : BitVec 32) (count : BitVec 8)
    (u : SeqNumUnwrapper 16) (m : PacketArrivalTimeMap) :
    sendLoop e (fuel+1) ⟨ssrc,count,u,some start,m⟩ =
      if start < e then
        match maybeBuildFeedbackPacket ⟨ssrc,count,u,some start,m⟩ true start e true with
        | (none,s) => some ([],s)
        | (some fb,s) => (sendLoop e fuel s).map fun r => (fb::r.1,r.2)
      else some ([],⟨ssrc,count,u,some start,m⟩) := rfl

/-- The feedbacks of a round report, batch by batch, all entries from the window
start on, and the window start ends up at the end of the map. -/
theorem sendLoop_spec {fuel : ℕ} (ssrc : BitVec 32) (count : BitVec 8) {d : Deque ℤ}
    {u : SeqNumUnwrapper 16} {start : ℤ} {fbs : List TransportFeedback} {s' : ReceiveSideTWCC}
    (h : Window d u start)
    (hs : sendLoop d.stop fuel ⟨ssrc,count,u,some start,⟨d,true⟩⟩ = some (fbs,s')) :
    ∃ count' batches, s' = ⟨ssrc,count',u,some d.stop,⟨d,true⟩⟩ ∧
      List.Forall₂ Reported fbs batches ∧ batches.flatten = entriesFrom d start := by
  induction fuel generalizing count start fbs with
  | zero => simp [sendLoop] at hs
  | succ fuel ih =>
      rw [sendLoop_start] at hs
      by_cases hlt : start < d.stop
      · rw [if_pos hlt] at hs
        obtain ⟨fb,count',next,taken,heq,hsplit,hb,hle,hle'⟩ := maybeBuild_spec ssrc count h hlt
        rw [heq] at hs
        obtain ⟨⟨fbs',t⟩,hrest,hcons⟩ := Option.map_eq_some_iff.mp hs
        simp only [Prod.mk.injEq] at hcons
        obtain ⟨rfl,rfl⟩ := hcons
        obtain ⟨count'',batches,hstate,hall,hflat⟩ := ih count' (h.advance (by omega) hle') hrest
        refine ⟨count'',taken::batches,hstate,.cons hb hall,?_⟩
        rw [List.flatten_cons,hflat,hsplit]
      · rw [if_neg hlt] at hs
        simp only [Option.some.injEq,Prod.mk.injEq] at hs
        obtain ⟨rfl,rfl⟩ := hs
        have hstop : start = d.stop := by
          have := h.le_stop
          omega
        refine ⟨count,[],by rw [hstop],.nil,?_⟩
        rw [entriesFrom_stop (by omega)]
        rfl

/-- Every feedback moves the window start, so the round ends. -/
theorem sendLoop_terminates {fuel : ℕ} (ssrc : BitVec 32) (count : BitVec 8) {d : Deque ℤ}
    {u : SeqNumUnwrapper 16} {start : ℤ} (h : Window d u start)
    (hfuel : (d.stop - start).toNat < fuel) :
    ∃ r, sendLoop d.stop fuel ⟨ssrc,count,u,some start,⟨d,true⟩⟩ = some r := by
  induction fuel generalizing count start with
  | zero => omega
  | succ fuel ih =>
      rw [sendLoop_start]
      by_cases hlt : start < d.stop
      · rw [if_pos hlt]
        obtain ⟨fb,count',next,taken,heq,_,_,hle,hle'⟩ := maybeBuild_spec ssrc count h hlt
        obtain ⟨r,hr⟩ := ih count' (h.advance (by omega) hle') (by omega)
        rw [heq]
        simp only [hr]
        exact ⟨_,rfl⟩
      · rw [if_neg hlt]
        exact ⟨_,rfl⟩

theorem send_terminates {s : ReceiveSideTWCC} (h : Inv s) :
    ∃ fuel fbs s', sendPeriodicFeedbacks fuel s = some (fbs,s') := by
  cases h with
  | initial ssrc count hu => exact ⟨0,[],_,rfl⟩
  | @running ssrc count d u start hw =>
      obtain ⟨⟨fbs,s'⟩,hr⟩ := sendLoop_terminates ssrc count hw (Nat.lt_succ_self _)
      exact ⟨(d.stop - start).toNat+1,fbs,s',hr⟩

/-- A round reports everything that was pending, and nothing that the map does
not hold. -/
theorem send_spec {s s' : ReceiveSideTWCC} (h : Inv s) {fuel : ℕ} {fbs : List TransportFeedback}
    (hs : sendPeriodicFeedbacks fuel s = some (fbs,s')) :
    Inv s' ∧ s'.packetArrivalTimes = s.packetArrivalTimes ∧
      ∃ batches, List.Forall₂ Reported fbs batches ∧
        (batches.flatten.map fun e => low16 e.1).Nodup ∧
        (∀ n t, (n,t) ∈ batches.flatten → s.packetArrivalTimes.timeAt n = t ∧ t ≠ 0) ∧
        ∀ n t, Pending s n t → (n,t) ∈ batches.flatten := by
  cases h with
  | initial ssrc count hu =>
      simp only [sendPeriodicFeedbacks,Option.some.injEq,Prod.mk.injEq] at hs
      obtain ⟨rfl,rfl⟩ := hs
      refine ⟨.initial ssrc count hu,rfl,[],.nil,by simp,fun n t hm => by simp at hm,?_⟩
      intro n t hp
      obtain ⟨_,_,start,hstart,_⟩ := hp
      simp at hstart
  | @running ssrc count d u start hw =>
      obtain ⟨count',batches,rfl,hall,hflat⟩ := sendLoop_spec ssrc count hw hs
      refine ⟨.running ssrc count' (hw.advance hw.le_stop le_rfl),rfl,batches,hall,?_,?_,?_⟩
      · rw [hflat]
        have hlen := hw.length_le
        have hfront := hw.front_le
        have hstop : d.stop = d.front+d.items.length := rfl
        have hcapacity : kMaxNumberOfPackets = 32768 := rfl
        exact entries_nodup (by omega)
      · intro n t hm
        rw [hflat,mem_entriesFrom] at hm
        exact hm.2
      · intro n t hp
        obtain ⟨htime,hne,start',hstart,hle⟩ := hp
        obtain rfl : start = start' := Option.some.inj hstart
        rw [hflat,mem_entriesFrom]
        exact ⟨hle,htime,hne⟩

/-! ### From batches to reported packets -/

theorem Timed.numbers {baseUs : ℤ} {rs : List ReceivedPacket} {batch : List (ℤ × ℤ)}
    (h : Timed baseUs rs batch) :
    rs.map (·.sequenceNumber) = batch.map fun e => low16 e.1 := by
  induction h with
  | nil => rfl
  | snoc _ _ ih => rw [List.map_append,List.map_append,ih,List.map_singleton,List.map_singleton]

theorem Timed.mem {baseUs : ℤ} {rs : List ReceivedPacket} {batch : List (ℤ × ℤ)}
    (h : Timed baseUs rs batch) {n t : ℤ} (hm : (n,t) ∈ batch) :
    ∃ before p after, rs = before++p::after ∧ p.sequenceNumber = low16 n ∧
      Near (1000*t) (baseUs + kDeltaScaleFactor*ticksSum (before++[p])) := by
  induction h with
  | nil => simp at hm
  | @snoc rs batch n' t' delta _ hnear ih =>
      rcases List.mem_append.mp hm with hold | hnew
      · obtain ⟨before,p,after,heq,hseq,hp⟩ := ih hold
        refine ⟨before,p,after++[.withDelta (low16 n') delta],?_,hseq,hp⟩
        rw [heq,List.append_assoc,List.cons_append]
      · rw [List.mem_singleton,Prod.mk.injEq] at hnew
        obtain ⟨rfl,rfl⟩ := hnew
        exact ⟨rs,_,[],rfl,rfl,hnear⟩

/-- Exactly one entry of exactly one feedback names the number, at this time. -/
def ReportedOnce (fbs : List TransportFeedback) (number : BitVec 16) (arrivalTimeMs : ℤ) : Prop :=
  ∃ pre fb post before p after, fbs = pre++fb::post ∧ fb.receivedPackets = before++p::after ∧
    p.sequenceNumber = number ∧
    Near (1000*arrivalTimeMs) (fb.getBaseTimeUs + kDeltaScaleFactor*ticksSum (before++[p])) ∧
    (∀ q ∈ before++after, q.sequenceNumber ≠ number) ∧
    ∀ other ∈ pre++post, ∀ q ∈ other.receivedPackets, q.sequenceNumber ≠ number

/-- All numbers the feedbacks of a round report, in order. -/
def numbers (fbs : List TransportFeedback) : List (BitVec 16) :=
  fbs.flatMap fun fb => fb.receivedPackets.map (·.sequenceNumber)

theorem numbers_eq {fbs : List TransportFeedback} {batches : List (List (ℤ × ℤ))}
    (h : List.Forall₂ Reported fbs batches) :
    numbers fbs = batches.flatten.map fun e => low16 e.1 := by
  induction h with
  | nil => rfl
  | cons hb _ ih =>
      rw [List.flatten_cons,List.map_append,← ih,← hb.timed.numbers]
      rfl

theorem mem_numbers {fbs : List TransportFeedback} {fb : TransportFeedback} {p : ReceivedPacket}
    (hfb : fb ∈ fbs) (hp : p ∈ fb.receivedPackets) : p.sequenceNumber ∈ numbers fbs :=
  List.mem_flatMap.mpr ⟨fb,hfb,List.mem_map_of_mem hp⟩

theorem numbers_append (fbs gbs : List TransportFeedback) :
    numbers (fbs++gbs) = numbers fbs++numbers gbs := List.flatMap_append

/-- In a list without repetitions an element occurs neither before nor after
itself. -/
theorem not_mem_of_nodup_middle {α : Type} {l r : List α} {x : α} (h : (l++x::r).Nodup) :
    x ∉ l ∧ x ∉ r := by
  obtain ⟨_,hr,hdisjoint⟩ := List.nodup_append.mp h
  exact ⟨fun hx => hdisjoint x hx x List.mem_cons_self rfl,(List.nodup_cons.mp hr).1⟩

theorem reportedOnce_of_mem {fbs : List TransportFeedback} {batches : List (List (ℤ × ℤ))}
    (h : List.Forall₂ Reported fbs batches)
    (hnodup : (batches.flatten.map fun e => low16 e.1).Nodup) {n t : ℤ}
    (hm : (n,t) ∈ batches.flatten) : ReportedOnce fbs (low16 n) t := by
  rw [← numbers_eq h] at hnodup
  have hfound : ∃ pre fb post, fbs = pre++fb::post ∧ ∃ before p after,
      fb.receivedPackets = before++p::after ∧ p.sequenceNumber = low16 n ∧
      Near (1000*t) (fb.getBaseTimeUs + kDeltaScaleFactor*ticksSum (before++[p])) := by
    clear hnodup
    induction h with
    | nil => simp at hm
    | @cons fb batch fbs batches hb _ ih =>
        rw [List.flatten_cons,List.mem_append] at hm
        rcases hm with hhere | hlater
        · exact ⟨[],fb,fbs,rfl,hb.timed.mem hhere⟩
        · obtain ⟨pre,g,post,heq,hg⟩ := ih hlater
          exact ⟨fb::pre,g,post,by rw [heq,List.cons_append],hg⟩
  obtain ⟨pre,fb,post,rfl,before,p,after,hrs,hseq,hnear⟩ := hfound
  have hsplit : numbers (pre++fb::post) =
      (numbers pre++before.map (·.sequenceNumber))++p.sequenceNumber::
        (after.map (·.sequenceNumber)++numbers post) := by
    rw [numbers_append]
    simp only [numbers,List.flatMap_cons,hrs,List.map_append,List.map_cons,List.append_assoc,
      List.cons_append]
  rw [hsplit] at hnodup
  obtain ⟨hl,hr⟩ := not_mem_of_nodup_middle hnodup
  rw [List.mem_append,not_or] at hl hr
  refine ⟨pre,fb,post,before,p,after,rfl,hrs,hseq,hnear,?_,?_⟩
  · intro q hq heq
    rw [← hseq] at heq
    rcases List.mem_append.mp hq with hb | ha
    · exact hl.2 (heq ▸ List.mem_map_of_mem hb)
    · exact hr.1 (heq ▸ List.mem_map_of_mem ha)
  · intro other hother q hq heq
    rw [← hseq] at heq
    rcases List.mem_append.mp hother with hpre | hpost
    · exact hl.1 (heq ▸ mem_numbers hpre hq)
    · exact hr.2 (heq ▸ mem_numbers hpost hq)

/-! ### Whole runs -/

inductive Event
  | incomingPacket (arrivalTimeMs : ℤ) (ssrc : BitVec 32) (transportSequenceNumber : BitVec 16)
  | sendPeriodicFeedbacks
  deriving DecidableEq, Repr

/-- The states after a sequence of calls, with valid arrival times. -/
inductive Run : List Event → ReceiveSideTWCC → Prop
  | init : Run [] {}
  | incoming {es : List Event} {s : ReceiveSideTWCC} {t : ℤ} (ssrc : BitVec 32)
      (value : BitVec 16) : Run es s → 0 < t → t ≤ kMaxTimeMs →
      Run (es++[.incomingPacket t ssrc value]) (s.incomingPacket t ssrc value)
  | send {es : List Event} {s s' : ReceiveSideTWCC} {fuel : ℕ} {fbs : List TransportFeedback} :
      Run es s → sendPeriodicFeedbacks fuel s = some (fbs,s') →
      Run (es++[.sendPeriodicFeedbacks]) s'

/-- Packets that arrive before the next round, all with numbers below a limit. -/
inductive Waiting (limit : ℤ) (s : ReceiveSideTWCC) : ReceiveSideTWCC → Prop
  | here : Waiting limit s s
  | packet {s' : ReceiveSideTWCC} {t : ℤ} (ssrc : BitVec 32) {value : BitVec 16} :
      Waiting limit s s' → 0 < t → t ≤ kMaxTimeMs → s'.unwrapped value < limit →
      Waiting limit s (s'.incomingPacket t ssrc value)

theorem Run.inv {es : List Event} {s : ReceiveSideTWCC} (h : Run es s) : Inv s := by
  induction h with
  | init => exact .initial 0 0 rfl
  | incoming ssrc value _ ht ht' ih => exact incomingPacket_inv ih ht ht' ssrc value
  | send _ hs ih => exact (send_spec ih hs).1

theorem Waiting.pending {s s' : ReceiveSideTWCC} {n t : ℤ} (h : Waiting (n+32768) s s')
    (hinv : Inv s) (hp : Pending s n t) : Inv s' ∧ Pending s' n t := by
  induction h with
  | here => exact ⟨hinv,hp⟩
  | packet ssrc _ ht ht' hvalue ih =>
      exact ⟨incomingPacket_inv ih.1 ht ht' ssrc _,ih.2.incomingPacket ih.1 ht ht' ssrc hvalue⟩

/-- A packet adds at most its own number and time to the map. -/
theorem incomingPacket_timeAt {s : ReceiveSideTWCC} (h : Inv s) {t : ℤ} (ht : 0 < t)
    (ht' : t ≤ kMaxTimeMs) (ssrc : BitVec 32) (value : BitVec 16) {n : ℤ}
    (hn : (s.incomingPacket t ssrc value).packetArrivalTimes.timeAt n ≠ 0) :
    (s.incomingPacket t ssrc value).packetArrivalTimes.timeAt n = s.packetArrivalTimes.timeAt n ∨
      ((s.incomingPacket t ssrc value).packetArrivalTimes.timeAt n = t ∧ low16 n = value) := by
  cases h with
  | @initial ssrc₀ count u hu =>
      rw [incomingPacket_eq _ ht ht',recordPacket_first] at hn ⊢
      have hrange := Deque.range_of_value_ne _ hn
      simp only [unwrapped,u.unwrap_none value hu,Deque.stop,List.length_singleton,Nat.cast_one]
        at hrange ⊢
      obtain rfl : n = value.toNat := by omega
      exact Or.inr ⟨by simp [PacketArrivalTimeMap.timeAt,Deque.value],low16_ofNat value⟩
  | @running ssrc₀ count d u start hw =>
      obtain ⟨k,hk,d',_,_,heq,hr⟩ := incomingPacket_spec ssrc₀ ssrc count hw ht ht' value
      rw [heq] at hn ⊢
      simp only [PacketArrivalTimeMap.timeAt] at hn ⊢
      have hdrop := Deque.value_dropFront d k n
      rcases hr.value_cases n with hzero | hsame | ⟨rfl,hself⟩
      · exact absurd hzero hn
      · by_cases hlt : n < d.front+k
        · rw [if_pos hlt] at hdrop
          exact absurd (hsame.trans hdrop) hn
        · rw [if_neg hlt] at hdrop
          exact Or.inl (hsame.trans hdrop)
      · exact Or.inr ⟨hself,u.low16_unwrap value hw.consistent⟩

/-- Every packet in the map arrived, with the number and the time it has there. -/
theorem Run.arrived {es : List Event} {s : ReceiveSideTWCC} (h : Run es s) {n : ℤ}
    (hn : s.packetArrivalTimes.timeAt n ≠ 0) :
    ∃ ssrc, .incomingPacket (s.packetArrivalTimes.timeAt n) ssrc (low16 n) ∈ es := by
  induction h with
  | init => exact absurd (by simp [PacketArrivalTimeMap.timeAt,Deque.value]) hn
  | @incoming es s t ssrc value hrun ht ht' ih =>
      rcases incomingPacket_timeAt hrun.inv ht ht' ssrc value hn with hold | ⟨hnew,hlow⟩
      · rw [hold] at hn ⊢
        obtain ⟨ssrc',hmem⟩ := ih hn
        exact ⟨ssrc',List.mem_append_left _ hmem⟩
      · rw [hnew,hlow]
        exact ⟨ssrc,List.mem_append_right _ (List.mem_singleton.mpr rfl)⟩
  | send hrun hs ih =>
      rw [(send_spec hrun.inv hs).2.1] at hn ⊢
      obtain ⟨ssrc,hmem⟩ := ih hn
      exact ⟨ssrc,List.mem_append_left _ hmem⟩

/-- In every state a run reaches: a round of feedbacks ends; a packet that is
stored is reported once by the next round, at its arrival time, unless a packet
half the range ahead arrives first; and a round reports received packets only. -/
theorem run_reports {es : List Event} {s : ReceiveSideTWCC} (h : Run es s) :
    (∃ fuel fbs s', sendPeriodicFeedbacks fuel s = some (fbs,s')) ∧
    (∀ t ssrc value, 0 < t → t ≤ kMaxTimeMs → Stores s t ssrc value →
      ∀ s₁, Waiting (s.unwrapped value+2^15) (s.incomingPacket t ssrc value) s₁ →
      ∀ fuel fbs s₂, sendPeriodicFeedbacks fuel s₁ = some (fbs,s₂) →
        ReportedOnce fbs (low16 (s.unwrapped value)) t) ∧
    (∀ fuel fbs s', sendPeriodicFeedbacks fuel s = some (fbs,s') →
      ∀ fb ∈ fbs, ∀ p ∈ fb.receivedPackets, ∃ n ssrc, p.sequenceNumber = low16 n ∧
        s.packetArrivalTimes.hasReceived n = true ∧
        .incomingPacket (s.packetArrivalTimes.timeAt n) ssrc p.sequenceNumber ∈ es) := by
  have hinv := h.inv
  refine ⟨send_terminates hinv,?_,?_⟩
  · intro t ssrc value ht ht' hstores s₁ hwait fuel fbs s₂ hs
    have hpending := stores_pending hinv ht ht' hstores
    obtain ⟨hinv₁,hpending₁⟩ :=
      Waiting.pending hwait (incomingPacket_inv hinv ht ht' ssrc value) hpending
    obtain ⟨_,_,batches,hall,hnodup,_,hcovers⟩ := send_spec hinv₁ hs
    exact reportedOnce_of_mem hall hnodup (hcovers _ _ hpending₁)
  · intro fuel fbs s' hs fb hfb p hp
    obtain ⟨_,_,batches,hall,_,honly,_⟩ := send_spec hinv hs
    have hmem := mem_numbers hfb hp
    rw [numbers_eq hall] at hmem
    obtain ⟨⟨n,t⟩,hn,heq⟩ := List.mem_map.mp hmem
    obtain ⟨htime,hne⟩ := honly n t hn
    have hreceived : s.packetArrivalTimes.timeAt n ≠ 0 := by
      rw [htime]
      exact hne
    obtain ⟨ssrc,harrived⟩ := h.arrived hreceived
    refine ⟨n,ssrc,heq.symm,(PacketArrivalTimeMap.hasReceived_iff _ n).mpr hreceived,?_⟩
    rw [← heq]
    exact harrived

/-- Two packets, one of them out of order over a wrap. -/
def twoArrivals : ReceiveSideTWCC :=
  ReceiveSideTWCC.incomingPacket (ReceiveSideTWCC.incomingPacket {} 5 1 2) 6 1 65534

theorem run_twoArrivals : Run [.incomingPacket 5 1 2,.incomingPacket 6 1 65534] twoArrivals := by
  have hfirst : Run ([]++[.incomingPacket 5 1 2]) (ReceiveSideTWCC.incomingPacket {} 5 1 2) :=
    .incoming 1 2 .init (by decide) (by decide)
  exact .incoming 1 65534 hfirst (by decide) (by decide)

/-- A third packet fills in between, another one comes before the round. -/
theorem run_reports_between : ∃ fuel fbs s₂,
    sendPeriodicFeedbacks fuel ((twoArrivals.incomingPacket 9 1 65535).incomingPacket 12 1 40) =
        some (fbs,s₂) ∧ ReportedOnce fbs (low16 (twoArrivals.unwrapped 65535)) 9 := by
  have hrun : Run _ ((twoArrivals.incomingPacket 9 1 65535).incomingPacket 12 1 40) :=
    .incoming 1 40 (.incoming 1 65535 run_twoArrivals (by decide) (by decide)) (by decide)
      (by decide)
  obtain ⟨fuel,fbs,s₂,hs⟩ := (run_reports hrun).1
  refine ⟨fuel,fbs,s₂,hs,?_⟩
  exact (run_reports run_twoArrivals).2.1 9 1 65535 (by decide) (by decide)
    ⟨by decide,by decide⟩ _ (.packet 1 .here (by decide) (by decide) (by decide)) fuel fbs s₂ hs

end Ylrtc.PeriodicFeedback
