import Ylrtc.Twcc.SendSide

/-!
# Transport-wide numbers of a subscribe stream

The counter `transport_seq_` of `transport/subscribe_stream.cpp` and the sender
history it feeds. A packet is recorded under the low sixteen bits of the counter;
a feedback is looked up under unwrapped numbers. The two agree only while the
feedbacks stay on one lap of the counter.
-/
namespace Ylrtc.TransportNumbers
open FeedbackBuilder FeedbackWire SendSide SendSideTWCC SequenceNumber

/-- `transport_seq_`, a `uint64_t` that only counts packets, and
`send_side_twcc_`. -/
structure TransportSequence where
  transportSeq : ℕ := 0
  sendSideTwcc : SendSideTWCC := {}

def injectSendSideTWCC (s : SendSideTWCC) (nowMillis : ℤ) (size : ℕ) (twsn : BitVec 16) :
    SendSideTWCC :=
  s.sendPacket { sentTimeMillis := nowMillis, size := size
                 transportWideSequenceNumber := twsn.toNat }

/-- `(++transport_seq_) & 0xFFFF`. -/
def nextNumber (s : TransportSequence) : BitVec 16 := BitVec.ofNat 16 (s.transportSeq+1)

/-- What each of the three send paths does with the counter and the history. -/
def transmit (s : TransportSequence) (nowMillis : ℤ) (size : ℕ) : TransportSequence :=
  ⟨s.transportSeq+1,injectSendSideTWCC s.sendSideTwcc nowMillis size (nextNumber s)⟩

/-- A feedback comes with the counter values of the packets it names, which its
16-bit numbers only show in part. -/
inductive Event
  | send (nowMillis : ℤ) (size : ℕ)
  | feedback (fb : TransportFeedback) (named : List ℕ)

def step (s : TransportSequence) : Event → TransportSequence
  | .send nowMillis size => transmit s nowMillis size
  | .feedback fb _ =>
      { s with sendSideTwcc := (s.sendSideTwcc.receiveTransportFeedback fb).2 }

def run (es : List Event) : TransportSequence := es.foldl step {}

/-- Send times and sizes, in order; the first packet has number one. -/
def sends (es : List Event) : List (ℤ × ℕ) :=
  es.filterMap fun
    | .send nowMillis size => some (nowMillis,size)
    | .feedback _ _ => none

/-- All numbers the feedbacks name, in order. -/
def allNamed (es : List Event) : List ℕ :=
  es.flatMap fun
    | .send _ _ => []
    | .feedback _ named => named

/-- Of the numbers a feedback names, those it reports as received. -/
def receivedOf : List ℕ → List ReceivedPacket → List ℕ
  | n::ns,p::ps => if p.received then n::receivedOf ns ps else receivedOf ns ps
  | _,_ => []

def allReceived (es : List Event) : List ℕ :=
  es.flatMap fun
    | .send _ _ => []
    | .feedback fb named => receivedOf named fb.allPackets

/-- Each number is less than half the range away from the one named before it. -/
inductive Follows : Option ℕ → List ℕ → Prop
  | nil (last : Option ℕ) : Follows last []
  | cons {last : Option ℕ} {n : ℕ} {ns : List ℕ} :
      (∀ l, last = some l → n < l+32768 ∧ l < n+32768) → Follows (some n) ns →
      Follows last (n::ns)

/-- A feedback that names packets really sent, in increasing order. -/
structure Names (es : List Event) (fb : TransportFeedback) (named : List ℕ) : Prop where
  numbers : fb.allPackets.map (·.sequenceNumber) = named.map (BitVec.ofNat 16)
  count : fb.getPacketStatusCount = fb.allPackets.length
  sent : ∀ n ∈ named, 1 ≤ n ∧ n ≤ (sends es).length
  increasing : named.Pairwise (· < ·)
  follows : Follows (allNamed es).getLast? named

inductive Valid : List Event → Prop
  | nil : Valid []
  | send {es : List Event} {nowMillis : ℤ} {size : ℕ} : Valid es → 0 ≤ nowMillis → 0 < size →
      Valid (es++[.send nowMillis size])
  | feedback {es : List Event} {fb : TransportFeedback} {named : List ℕ} : Valid es →
      Names es fb named → Valid (es++[.feedback fb named])

/-- Every packet a feedback reports for the first time, sent less than the window
before every other send, is passed on with its own send time and size. -/
def Finds (es : List Event) (fb : TransportFeedback) (named : List ℕ) : Prop :=
  ∀ before n after p nowMillis size, named = before++n::after →
    fb.allPackets[before.length]? = some p → p.received = true → n ∉ allReceived es →
    (sends es)[n-1]? = some (nowMillis,size) →
    (∀ e ∈ sends es, e.1 - nowMillis < kSendTimeWindowMillis) →
    ∃ status, ((run es).sendSideTwcc.receiveTransportFeedback fb).1[before.length]? =
        some (some status) ∧
      status.sentTimeMillis = nowMillis ∧ status.size = size

@[simp] theorem run_send (es : List Event) (nowMillis : ℤ) (size : ℕ) :
    run (es++[.send nowMillis size]) = transmit (run es) nowMillis size := by
  simp only [run,List.foldl_append,List.foldl_cons,List.foldl_nil,step]

@[simp] theorem run_feedback (es : List Event) (fb : TransportFeedback) (named : List ℕ) :
    run (es++[.feedback fb named]) = { run es with
      sendSideTwcc := ((run es).sendSideTwcc.receiveTransportFeedback fb).2 } := by
  simp only [run,List.foldl_append,List.foldl_cons,List.foldl_nil,step]

@[simp] theorem sends_send (es : List Event) (nowMillis : ℤ) (size : ℕ) :
    sends (es++[.send nowMillis size]) = sends es++[(nowMillis,size)] := by
  simp [sends]

@[simp] theorem sends_feedback (es : List Event) (fb : TransportFeedback) (named : List ℕ) :
    sends (es++[.feedback fb named]) = sends es := by
  simp [sends]

@[simp] theorem allNamed_send (es : List Event) (nowMillis : ℤ) (size : ℕ) :
    allNamed (es++[.send nowMillis size]) = allNamed es := by
  simp [allNamed]

@[simp] theorem allNamed_feedback (es : List Event) (fb : TransportFeedback) (named : List ℕ) :
    allNamed (es++[.feedback fb named]) = allNamed es++named := by
  simp [allNamed]

@[simp] theorem allReceived_send (es : List Event) (nowMillis : ℤ) (size : ℕ) :
    allReceived (es++[.send nowMillis size]) = allReceived es := by
  simp [allReceived]

@[simp] theorem allReceived_feedback (es : List Event) (fb : TransportFeedback)
    (named : List ℕ) :
    allReceived (es++[.feedback fb named]) = allReceived es++receivedOf named fb.allPackets := by
  simp [allReceived]

theorem run_transportSeq (es : List Event) : (run es).transportSeq = (sends es).length := by
  induction es using List.reverseRec with
  | nil => rfl
  | append_singleton es e ih =>
      cases e with
      | send nowMillis size =>
          rw [run_send,sends_send,List.length_append,← ih]
          rfl
      | feedback fb named =>
          rw [run_feedback,sends_feedback]
          exact ih

/-! ### The unwrapper follows the counter -/

/-- The unwrapper stands at the number named last, less the laps before the
first number it has seen. -/
def At (lap : ℕ) (u : SeqNumUnwrapper 16) : Option ℕ → Prop
  | none => u.lastValue = none
  | some l => u.lastUnwrapped = (l : ℤ) - 65536*lap ∧ u.lastValue = some (BitVec.ofNat 16 l)

theorem low16_lap (n lap : ℕ) : low16 ((n : ℤ) - 65536*lap) = BitVec.ofNat 16 n := by
  rw [← BitVec.toNat_inj,BitVec.toNat_ofNat]
  have h := low16_toNat ((n : ℤ) - 65536*lap)
  omega

theorem At.unwrap {lap : ℕ} {u : SeqNumUnwrapper 16} {last : Option ℕ} {n : ℕ}
    (h : At lap u last) (hn : n/65536 = lap)
    (hgap : ∀ l, last = some l → n < l+32768 ∧ l < n+32768) :
    (u.unwrap (BitVec.ofNat 16 n)).1 = (n : ℤ) - 65536*lap ∧
      At lap (u.unwrap (BitVec.ofNat 16 n)).2 (some n) := by
  have hvalue : (u.unwrap (BitVec.ofNat 16 n)).1 = (n : ℤ) - 65536*lap := by
    cases last with
    | none =>
        rw [u.unwrap_none _ h,BitVec.toNat_ofNat]
        omega
    | some l =>
        have hclose := hgap l rfl
        rw [← low16_lap n lap]
        apply u.unwrap_near
        · intro v hv
          rw [h.2,Option.some.injEq] at hv
          rw [← hv,h.1,low16_lap]
        · rw [h.2]
          simp
        · rw [h.1]
          omega
        · rw [h.1]
          omega
  exact ⟨hvalue,hvalue,SeqNumUnwrapper.unwrap_lastValue u _⟩

/-- The number named last, after some more. -/
def lastOf (last : Option ℕ) (ns : List ℕ) : Option ℕ := ns.getLast?.or last

theorem lastOf_cons (last : Option ℕ) (n : ℕ) (ns : List ℕ) :
    lastOf last (n::ns) = lastOf (some n) ns := by
  cases ns with
  | nil => rfl
  | cons m ms => simp [lastOf,List.getLast?_cons]

theorem lastOf_getLast? (ms ns : List ℕ) : lastOf ms.getLast? ns = (ms++ns).getLast? := by
  rw [lastOf,List.getLast?_append]

/-- All numbers belong to one lap of the 16-bit number. -/
def OnLap (lap : ℕ) (ns : List ℕ) : Prop := ∀ n ∈ ns, n/65536 = lap

theorem OnLap.left {lap : ℕ} {ms ns : List ℕ} (h : OnLap lap (ms++ns)) : OnLap lap ms :=
  fun n hn => h n (List.mem_append_left ns hn)

theorem OnLap.right {lap : ℕ} {ms ns : List ℕ} (h : OnLap lap (ms++ns)) : OnLap lap ns :=
  fun n hn => h n (List.mem_append_right ms hn)

/-- On one lap the unwrapped numbers of a feedback are the counter values it
names, less the laps before. -/
theorem unwrap_named {lap : ℕ} {u : SeqNumUnwrapper 16} {last : Option ℕ} {ns : List ℕ}
    {packets : List ReceivedPacket} (h : At lap u last) (hf : Follows last ns)
    (hn : OnLap lap ns) (hp : packets.map (·.sequenceNumber) = ns.map (BitVec.ofNat 16)) :
    At lap (unwrapAll u packets) (lastOf last ns) ∧
      receivedNumbers u packets =
        (receivedOf ns packets).map fun n : ℕ => (n : ℤ) - 65536*lap := by
  induction hf generalizing u packets with
  | nil last =>
      rw [List.map_nil,List.map_eq_nil_iff] at hp
      subst hp
      exact ⟨by simpa [unwrapAll,lastOf] using h,rfl⟩
  | @cons last n ns hgap _ ih =>
      cases packets with
      | nil => simp at hp
      | cons p ps =>
          rw [List.map_cons,List.map_cons,List.cons.injEq] at hp
          obtain ⟨hvalue,hat⟩ := h.unwrap (hn n List.mem_cons_self) hgap
          rw [← hp.1] at hvalue hat
          obtain ⟨hlast,hreceived⟩ := ih hat (fun m hm => hn m (List.mem_cons_of_mem _ hm)) hp.2
          constructor
          · rw [lastOf_cons]
            exact hlast
          · rw [receivedNumbers,receivedOf,hvalue,hreceived]
            cases p.received with
            | true => rfl
            | false => rfl

theorem Follows.take {last : Option ℕ} {ns ms : List ℕ} (h : Follows last (ns++ms)) :
    Follows last ns ∧ Follows (lastOf last ns) ms := by
  induction ns generalizing last with
  | nil => exact ⟨.nil last,h⟩
  | cons n ns ih =>
      cases h with
      | cons hgap hrest =>
          obtain ⟨hf,hg⟩ := ih hrest
          exact ⟨.cons hgap hf,by rw [lastOf_cons]; exact hg⟩

/-! ### The history -/

theorem transmit_history (s : TransportSequence) {nowMillis : ℤ} {size : ℕ}
    (hnow : 0 ≤ nowMillis) (hsize : 0 < size) :
    (transmit s nowMillis size).sendSideTwcc.history =
      (evict nowMillis s.sendSideTwcc.history.size s.sendSideTwcc.history).insertIfNew
        (nextNumber s).toNat ⟨nowMillis,-1,size,(nextNumber s).toNat⟩ := by
  have hsent : PacketStatus.isSent ⟨nowMillis,-1,size,(nextNumber s).toNat⟩ = true := by
    simp only [PacketStatus.isSent,Bool.and_eq_true,bne_iff_ne]
    omega
  simp only [transmit,injectSendSideTWCC,sendPacket,hsent,Bool.not_true,Bool.false_eq_true,
    if_false]

theorem transmit_unwrapper (s : TransportSequence) (nowMillis : ℤ) (size : ℕ) :
    (transmit s nowMillis size).sendSideTwcc.seqNumUnwrapper =
      s.sendSideTwcc.seqNumUnwrapper := by
  simp only [transmit,injectSendSideTWCC,sendPacket]
  split
  · rfl
  · rfl

/-- A feedback removes the received packets from the history. -/
theorem receiveTransportFeedback_history (s : SendSideTWCC) (fb : TransportFeedback)
    (h : fb.getPacketStatusCount = fb.allPackets.length) (n : ℤ) :
    (s.receiveTransportFeedback fb).2.history[n]? =
      if (receivedNumbers s.seqNumUnwrapper fb.allPackets).contains n && recorded s.history n
      then none else s.history[n]? := by
  rw [receiveTransportFeedback]
  split
  · rename_i h0
    rw [h,List.length_eq_zero_iff] at h0
    simp [h0,receivedNumbers]
  · exact (matchPackets_after s fb.getBaseTimeUs fb.allPackets).history n

theorem receiveTransportFeedback_unwrapper (s : SendSideTWCC) (fb : TransportFeedback)
    (h : fb.getPacketStatusCount = fb.allPackets.length) :
    (s.receiveTransportFeedback fb).2.seqNumUnwrapper =
      unwrapAll s.seqNumUnwrapper fb.allPackets := by
  rw [receiveTransportFeedback]
  split
  · rename_i h0
    rw [h,List.length_eq_zero_iff] at h0
    simp [h0,unwrapAll]
  · exact (matchPackets_after s fb.getBaseTimeUs fb.allPackets).unwrapper

/-- When packet `n` was sent, its sixteen bits were not in use in the history. -/
def KeyFree (es : List Event) (n : ℕ) : Prop :=
  ∀ before nowMillis size after, es = before++.send nowMillis size::after →
    (sends before).length+1 = n →
    (evict nowMillis (run before).sendSideTwcc.history.size
      (run before).sendSideTwcc.history)[((BitVec.ofNat 16 n).toNat : ℤ)]? = none

theorem KeyFree.init {es : List Event} {e : Event} {n : ℕ} (h : KeyFree (es++[e]) n) :
    KeyFree es n := by
  intro before nowMillis size after he hn
  apply h before nowMillis size (after++[e])
  · rw [he,List.append_assoc,List.cons_append]
  · exact hn

theorem KeyFree.last {es : List Event} {nowMillis : ℤ} {size n : ℕ}
    (h : KeyFree (es++[.send nowMillis size]) n) (hn : (sends es).length+1 = n) :
    (evict nowMillis (run es).sendSideTwcc.history.size
      (run es).sendSideTwcc.history)[((BitVec.ofNat 16 n).toNat : ℤ)]? = none :=
  h es nowMillis size [] rfl hn

/-- The unwrapper and the history while the feedbacks stay on one lap. -/
structure Tracks (lap : ℕ) (es : List Event) : Prop where
  unwrapper : At lap (run es).sendSideTwcc.seqNumUnwrapper (allNamed es).getLast?
  history : ∀ n nowMillis size, 1 ≤ n → n/65536 = lap → KeyFree es n → n ∉ allReceived es →
    (sends es)[n-1]? = some (nowMillis,size) →
    (∀ e ∈ sends es, e.1 - nowMillis < kSendTimeWindowMillis) →
    (run es).sendSideTwcc.history[(n : ℤ) - 65536*lap]? =
      some ⟨nowMillis,-1,size,(n : ℤ) - 65536*lap⟩

theorem key_of_lap {n lap : ℕ} (h : n/65536 = lap) :
    ((BitVec.ofNat 16 n).toNat : ℤ) = (n : ℤ) - 65536*lap := by
  rw [BitVec.toNat_ofNat]
  omega

theorem Tracks.send {lap : ℕ} {es : List Event} (h : Tracks lap es) {nowMillis : ℤ} {size : ℕ}
    (hnow : 0 ≤ nowMillis) (hsize : 0 < size) : Tracks lap (es++[.send nowMillis size]) := by
  constructor
  · rw [run_send,transmit_unwrapper,allNamed_send]
    exact h.unwrapper
  · intro n t z hpos hlap hfree hnew hsent hwindow
    rw [allReceived_send] at hnew
    rw [sends_send] at hsent hwindow
    rw [run_send,transmit_history _ hnow hsize,Std.TreeMap.getElem?_insertIfNew]
    have hnext : nextNumber (run es) = BitVec.ofNat 16 ((sends es).length+1) := by
      rw [nextNumber,run_transportSeq]
    rcases Nat.lt_or_ge (n-1) (sends es).length with hlt | hge
    · -- an earlier packet: it is neither evicted nor overwritten
      rw [List.getElem?_append_left hlt] at hsent
      have hold := h.history n t z hpos hlap hfree.init hnew hsent
        fun e he => hwindow e (List.mem_append_left _ he)
      have hrecent : nowMillis - t < kSendTimeWindowMillis :=
        hwindow (nowMillis,size) (List.mem_append_right _ List.mem_cons_self)
      have hkept := evict_getElem? (n := (run es).sendSideTwcc.history.size) hold
        (Int.le_of_lt hrecent)
      rw [if_neg,hkept]
      rintro ⟨heq,habsent⟩
      apply habsent
      rw [Std.LawfulEqCmp.eq_of_compare heq]
      exact (Std.TreeMap.mem_iff_isSome_getElem?).mpr (by rw [hkept]; rfl)
    · -- the packet sent last
      rw [List.getElem?_append_right hge] at hsent
      have hn : n = (sends es).length+1 := by
        have := (List.getElem?_eq_some_iff.mp hsent).1
        simp only [List.length_singleton] at this
        omega
      have hzero : n-1-(sends es).length = 0 := by omega
      rw [hzero,List.getElem?_cons_zero,Option.some.injEq,Prod.mk.injEq] at hsent
      have habsent := hfree.last hn.symm
      rw [hnext,← hn,key_of_lap hlap] at *
      rw [if_pos,hsent.1,hsent.2]
      refine ⟨Std.ReflCmp.compare_self,?_⟩
      rw [Std.TreeMap.mem_iff_isSome_getElem?,habsent]
      simp

theorem Tracks.feedback {lap : ℕ} {es : List Event} (h : Tracks lap es) {fb : TransportFeedback}
    {named : List ℕ} (hn : Names es fb named) (hlap : OnLap lap named) :
    Tracks lap (es++[.feedback fb named]) := by
  obtain ⟨hat,hreceived⟩ := unwrap_named h.unwrapper hn.follows hlap hn.numbers
  constructor
  · rw [run_feedback,allNamed_feedback,← lastOf_getLast?]
    simp only [receiveTransportFeedback_unwrapper _ _ hn.count]
    exact hat
  · intro n t z hpos hnlap hfree hnew hsent hwindow
    rw [allReceived_feedback,List.mem_append,not_or] at hnew
    rw [sends_feedback] at hsent hwindow
    rw [run_feedback]
    simp only [receiveTransportFeedback_history _ _ hn.count,hreceived]
    rw [if_neg]
    · exact h.history n t z hpos hnlap hfree.init hnew.1 hsent hwindow
    · rw [Bool.and_eq_true,List.contains_eq_mem,decide_eq_true_iff,List.mem_map]
      intro hgone
      cases hgone.1 with
      | intro m hm =>
          have hmn : m = n := by
            have := hm.2
            omega
          apply hnew.2
          rw [← hmn]
          exact hm.1

theorem Valid.tracks {lap : ℕ} {es : List Event} (h : Valid es) (hlap : OnLap lap (allNamed es)) :
    Tracks lap es := by
  induction h with
  | nil => exact ⟨rfl,fun n t z _ _ _ _ hsent => by simp [sends] at hsent⟩
  | send _ hnow hsize ih =>
      rw [allNamed_send] at hlap
      exact (ih hlap).send hnow hsize
  | feedback _ hn ih =>
      rw [allNamed_feedback] at hlap
      exact (ih hlap.left).feedback hn hlap.right

/-! ### Keys -/

theorem getElem?_of_receiveTransportFeedback {s : SendSideTWCC} {fb : TransportFeedback} {n : ℤ}
    {status : PacketStatus}
    (h : (s.receiveTransportFeedback fb).2.history[n]? = some status) :
    s.history[n]? = some status := by
  rw [receiveTransportFeedback] at h
  split at h
  · exact h
  · have hafter := (matchPackets_after s fb.getBaseTimeUs fb.allPackets).history n
    simp only at h
    rw [hafter] at h
    split at h
    · simp at h
    · exact h

theorem getElem?_of_sendPacket {s : SendSideTWCC} {packet status : PacketStatus} {n : ℤ}
    (h : (s.sendPacket packet).history[n]? = some status) :
    n = packet.transportWideSequenceNumber ∨ s.history[n]? = some status := by
  rw [sendPacket] at h
  split at h
  · exact Or.inr h
  · simp only [Std.TreeMap.getElem?_insertIfNew] at h
    split at h
    · rename_i hkey
      exact Or.inl (Std.LawfulEqCmp.eq_of_compare hkey.1).symm
    · exact Or.inr (getElem?_of_evict h)

/-- Every entry is kept under the low sixteen bits of a number given out. -/
theorem history_key {es : List Event} {key : ℤ} {status : PacketStatus}
    (h : (run es).sendSideTwcc.history[key]? = some status) :
    ∃ n, 1 ≤ n ∧ n ≤ (sends es).length ∧ key = (BitVec.ofNat 16 n).toNat := by
  induction es using List.reverseRecOn with
  | nil => simp [run] at h
  | append_singleton es e ih =>
      cases e with
      | send nowMillis size =>
          rw [run_send] at h
          simp only [sends_send,List.length_append,List.length_singleton]
          cases getElem?_of_sendPacket h with
          | inl hkey =>
              refine ⟨(sends es).length+1,by omega,by omega,?_⟩
              rw [hkey,nextNumber,run_transportSeq]
          | inr hold =>
              obtain ⟨n,hn,hle,hkey⟩ := ih hold
              exact ⟨n,hn,by omega,hkey⟩
      | feedback fb named =>
          rw [run_feedback] at h
          rw [sends_feedback]
          exact ih (getElem?_of_receiveTransportFeedback h)

/-- On the first lap every packet is recorded. -/
theorem keyFree_of_le {es : List Event} {n : ℕ} (h : n ≤ 65535) : KeyFree es n := by
  intro before nowMillis size after _ hn
  rw [Option.eq_none_iff_forall_ne_some]
  intro status hstatus
  obtain ⟨m,hpos,hle,hkey⟩ := history_key (getElem?_of_evict hstatus)
  rw [BitVec.toNat_ofNat,BitVec.toNat_ofNat] at hkey
  omega

/-! ### Lookups -/

theorem mem_of_mem_receivedOf {n : ℕ} {ns : List ℕ} {packets : List ReceivedPacket}
    (h : n ∈ receivedOf ns packets) : n ∈ ns := by
  induction ns generalizing packets with
  | nil => simp [receivedOf] at h
  | cons m ms ih =>
      cases packets with
      | nil => simp [receivedOf] at h
      | cons p ps =>
          rw [receivedOf] at h
          split at h
          · cases List.mem_cons.mp h with
            | inl heq => exact heq ▸ List.mem_cons_self
            | inr hm => exact List.mem_cons_of_mem m (ih hm)
          · exact List.mem_cons_of_mem m (ih h)

/-- The packets of a feedback before and after the one at a position, with the
numbers they were given. -/
theorem Names.split {es : List Event} {fb : TransportFeedback} {named before after : List ℕ}
    {n : ℕ} {p : ReceivedPacket} (h : Names es fb named) (hnamed : named = before++n::after)
    (hp : fb.allPackets[before.length]? = some p) :
    ∃ pb pa, fb.allPackets = pb++p::pa ∧ pb.length = before.length ∧
      pb.map (·.sequenceNumber) = before.map (BitVec.ofNat 16) ∧
      p.sequenceNumber = BitVec.ofNat 16 n := by
  have hnumbers := h.numbers
  rw [hnamed,List.map_append,List.map_cons,List.map_eq_append_iff] at hnumbers
  obtain ⟨pb,rest,hsplit,hpb,hrest⟩ := hnumbers
  have hlength : pb.length = before.length := by
    rw [← List.length_map (f := fun q => q.sequenceNumber),hpb,List.length_map]
  obtain ⟨q,pa,hq,hqn,_⟩ := List.map_eq_cons_iff.mp hrest
  rw [hsplit,hq,← hlength,List.getElem?_append_right (Nat.le_refl _),Nat.sub_self,
    List.getElem?_cons_zero,Option.some.injEq] at hp
  rw [hq,hp] at hsplit
  exact ⟨pb,pa,hsplit,hlength,hpb,hp ▸ hqn⟩

theorem Valid.sends_pos {es : List Event} (h : Valid es) : ∀ e ∈ sends es, 0 ≤ e.1 ∧ 0 < e.2 := by
  induction h with
  | nil =>
      intro e he
      simp [sends] at he
  | send _ hnow hsize ih =>
      intro e he
      rw [sends_send,List.mem_append,List.mem_singleton] at he
      cases he with
      | inl he => exact ih e he
      | inr he => exact he ▸ ⟨hnow,hsize⟩
  | feedback _ _ ih =>
      rw [sends_feedback]
      exact ih

theorem Valid.finds {lap : ℕ} {es : List Event} (hv : Valid es) {fb : TransportFeedback}
    {named : List ℕ} (hn : Names es fb named) (hlap : OnLap lap (allNamed es++named))
    (hfree : ∀ n ∈ named, KeyFree es n) : Finds es fb named := by
  have h := hv.tracks hlap.left
  replace hlap := hlap.right
  intro before n after p nowMillis size hnamed hp hreceived hnew hsent hwindow
  obtain ⟨pb,pa,hsplit,hlength,hpb,hpn⟩ := hn.split hnamed hp
  have hmem : n ∈ named := by
    rw [hnamed]
    exact List.mem_append_right _ List.mem_cons_self
  have hcount : fb.getPacketStatusCount ≠ 0 := by
    rw [hn.count,hsplit,List.length_append,List.length_cons]
    omega
  -- the number of this entry
  have hfollows := hn.follows
  rw [hnamed] at hfollows hlap
  obtain ⟨hat,hbefore⟩ := unwrap_named h.unwrapper hfollows.take.1 hlap.left hpb
  have hnumber : numberAfter (run es).sendSideTwcc.seqNumUnwrapper pb p =
      (n : ℤ) - 65536*lap := by
    cases hfollows.take.2 with
    | cons hgap _ =>
        rw [numberAfter,hpn]
        exact (hat.unwrap (hlap n (List.mem_append_right _ List.mem_cons_self)) hgap).1
  -- it is still recorded, and this feedback has not taken it
  have hfound := h.history n nowMillis size (hn.sent n hmem).1
    (hlap n (List.mem_append_right _ List.mem_cons_self)) (hfree n hmem) hnew hsent hwindow
  have hfirst : numberAfter (run es).sendSideTwcc.seqNumUnwrapper pb p ∉
      receivedNumbers (run es).sendSideTwcc.seqNumUnwrapper pb := by
    rw [hnumber,hbefore,List.mem_map]
    intro hm
    cases hm with
    | intro m hm =>
        have hlt : m < n := by
          have hincreasing := hn.increasing
          rw [hnamed,List.pairwise_append] at hincreasing
          exact hincreasing.2.2 m (mem_of_mem_receivedOf hm.1) n List.mem_cons_self
        have := hm.2
        omega
  have hsome : PacketStatus.isSent ⟨nowMillis,-1,size,(n : ℤ) - 65536*lap⟩ = true := by
    have hvalid := hv.sends_pos (nowMillis,size) (List.mem_of_getElem? hsent)
    have hpos := hlap n (List.mem_append_right _ List.mem_cons_self)
    simp only at hvalid
    simp only [PacketStatus.isSent,Bool.and_eq_true,bne_iff_ne]
    omega
  have hmatched : matched (run es).sendSideTwcc pb p = true := by
    rw [matched_eq_true_iff]
    refine ⟨hreceived,?_,hfirst⟩
    rw [recorded,hnumber,hfound]
    exact hsome
  obtain ⟨_,_,hpush⟩ := matchPacket_spec
    (matchPackets_after (run es).sendSideTwcc fb.getBaseTimeUs pb) fb.getBaseTimeUs p
  obtain ⟨status,hstatus,heq⟩ := hpush hmatched
  rw [hnumber,hfound,Option.some.injEq] at hstatus
  rw [← hlength,receiveTransportFeedback_at hcount hsplit,heq,← hstatus]
  exact ⟨_,rfl,rfl,rfl⟩

theorem Valid.left {es fs : List Event} (h : Valid (es++fs)) : Valid es := by
  induction fs using List.reverseRecOn with
  | nil => simpa using h
  | append_singleton fs e ih =>
      rw [← List.append_assoc] at h
      apply ih
      generalize es++fs = before at h
      generalize hl : before++[e] = l at h
      cases h with
      | nil => simp at hl
      | send hv _ _ =>
          rw [List.append_singleton_inj] at hl
          exact hl.1 ▸ hv
      | feedback hv _ =>
          rw [List.append_singleton_inj] at hl
          exact hl.1 ▸ hv

theorem Valid.names {es : List Event} {fb : TransportFeedback} {named : List ℕ}
    (h : Valid (es++[.feedback fb named])) : Names es fb named := by
  generalize hl : es++[.feedback fb named] = l at h
  cases h with
  | nil => simp at hl
  | send _ _ _ =>
      rw [List.append_singleton_inj] at hl
      cases hl.2
  | feedback _ hn =>
      rw [List.append_singleton_inj,Event.feedback.injEq] at hl
      rw [hl.1,hl.2.1,hl.2.2]
      exact hn

theorem KeyFree.left {es fs : List Event} {n : ℕ} (h : KeyFree (es++fs) n) : KeyFree es n := by
  induction fs using List.reverseRecOn with
  | nil => simpa using h
  | append_singleton fs e ih =>
      rw [← List.append_assoc] at h
      exact ih h.init

theorem allNamed_append (es fs : List Event) : allNamed (es++fs) = allNamed es++allNamed fs :=
  List.flatMap_append

/-- While all feedbacks name numbers of one lap, each of which was recorded when
it was sent, every feedback finds the packets it reports. -/
theorem run_finds (lap : ℕ) {es : List Event} (hv : Valid es) (hlap : OnLap lap (allNamed es))
    (hfree : ∀ n ∈ allNamed es, KeyFree es n) :
    ∀ before fb named after, es = before++.feedback fb named::after → Finds before fb named := by
  intro before fb named after he
  have hes : es = before++[.feedback fb named]++after := by
    rw [he,List.append_assoc,List.singleton_append]
  rw [hes] at hv hlap hfree
  rw [allNamed_append,allNamed_feedback] at hlap hfree
  apply hv.left.left.finds hv.left.names hlap.left
  intro n hn
  exact (hfree n (List.mem_append_left _ (List.mem_append_right _ hn))).left.left

/-- Two packets and the feedback that reports both. -/
theorem run_finds_two :
    Finds [.send 10 100,.send 20 200] (addAll (start true 1 0 0 0 0) [(1,0),(2,0)]) [1,2] := by
  have hfirst : Valid ([]++[.send 10 100]) := .send .nil (by decide) (by decide)
  have hv : Valid ([.send 10 100]++[.send 20 200]) := .send hfirst (by decide) (by decide)
  have hn : Names [.send 10 100,.send 20 200] (addAll (start true 1 0 0 0 0) [(1,0),(2,0)])
      [1,2] :=
    ⟨by decide,by decide,by decide,by decide,
      .cons (by simp [allNamed]) (.cons (by simp) (.nil _))⟩
  have hlap : ∀ n ∈ [1,2], n/65536 = 0 := by decide
  have hle : ∀ n ∈ [1,2], n ≤ 65535 := by decide
  exact run_finds 0 (hv.feedback hn) hlap (fun n hn => keyFree_of_le (hle n hn)) _ _ _ [] rfl

theorem run_replicate_send (n : ℕ) :
    Valid (List.replicate n (.send 0 100)) ∧
      sends (List.replicate n (.send 0 100)) = List.replicate n (0,100) ∧
      allNamed (List.replicate n (.send 0 100)) = [] ∧
      allReceived (List.replicate n (.send 0 100)) = [] ∧
      (run (List.replicate n (.send 0 100))).sendSideTwcc.seqNumUnwrapper = {} := by
  induction n with
  | zero => exact ⟨.nil,rfl,rfl,rfl,rfl⟩
  | succ n ih =>
      obtain ⟨hv,hs,hn,hr,hu⟩ := ih
      rw [List.replicate_succ']
      refine ⟨.send hv (by decide) (by decide),?_,?_,?_,?_⟩
      · rw [sends_send,hs,List.replicate_succ']
      · rw [allNamed_send,hn]
      · rw [allReceived_send,hr]
      · rw [run_send,transmit_unwrapper,hu]

/-- The first packet of the second lap is recorded under zero and looked up
under 65536. -/
theorem not_run_finds : ¬∀ es, Valid es →
    ∀ before fb named after, es = before++.feedback fb named::after → Finds before fb named := by
  intro h
  obtain ⟨hv,hs,hn,hr,hu⟩ := run_replicate_send 65536
  generalize hes : List.replicate 65536 (Event.send 0 100) = es at hv hs hn hr hu
  have hnames : Names es (addAll (start true 65535 0 0 0 0) [(65535,0),(0,0)]) [65535,65536] := by
    refine ⟨by decide,by decide,?_,by decide,?_⟩
    · rw [hs,List.length_replicate]
      decide
    · rw [hn]
      exact .cons (by simp) (.cons (by simp) (.nil _))
  have hfinds := h _ (hv.feedback hnames) _ _ _ [] rfl [65535] 65536 [] (.withDelta 0 0) 0 100 rfl
    (by decide) rfl (by rw [hr]; simp)
    (by rw [hs,List.getElem?_replicate_of_lt (by decide)])
    (by
      rw [hs]
      intro e he
      rw [List.eq_of_mem_replicate he]
      decide)
  obtain ⟨status,hstatus,_⟩ := hfinds
  have hpackets : (addAll (start true 65535 0 0 0 0) [(65535,0),(0,0)]).allPackets =
      [.withDelta 65535 0]++.withDelta 0 0::[] := by decide
  have hat := receiveTransportFeedback_at (s := (run es).sendSideTwcc) (by decide) hpackets
  have hmatched : matched (run es).sendSideTwcc [.withDelta 65535 0] (.withDelta 0 0) = false := by
    have hnumber : numberAfter (run es).sendSideTwcc.seqNumUnwrapper [.withDelta 65535 0]
        (.withDelta 0 0) = 65536 := by
      rw [hu]
      decide
    have hnone : (run es).sendSideTwcc.history[(65536 : ℤ)]? = none := by
      rw [Option.eq_none_iff_forall_ne_some]
      intro status hstatus
      obtain ⟨n,_,_,hkey⟩ := history_key hstatus
      rw [BitVec.toNat_ofNat] at hkey
      omega
    rw [matched,hnumber,recorded,hnone]
    rfl
  rw [(matchPacket_spec (matchPackets_after (run es).sendSideTwcc _ _) _ _).2.1 hmatched] at hat
  simp only [List.length_singleton] at hstatus hat
  rw [hat] at hstatus
  simp at hstatus

end Ylrtc.TransportNumbers
