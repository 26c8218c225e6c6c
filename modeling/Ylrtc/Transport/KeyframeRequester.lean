import Ylrtc.Base.Timer
import Ylrtc.Rtcp.Serialize

/-!
# Requests for keyframes

`KeyframeRequester` of `transport/keyframe_requester.cpp` with its timer, and what a
publish stream's track makes of its calls: requests of the subscribe streams and of the NACK
requester are gathered, and at most once in a second one message goes to the publisher.
-/
namespace Ylrtc.KeyframeRequests
open RtcpPackets Run Timers

abbrev kKeyFrameRequestIntervalMillis : ℕ := 1000

/-- `PublishStreamTrack::Configuration`, as far as keyframes go. -/
structure Configuration where
  ssrc : BitVec 32
  rid : BitVec 32 := 0
  audio : Bool := false
  rtcpfbPli : Bool := false
  rtcpfbFir : Bool := false

/-- What is handed to `OnPublishStreamTrackSendRtcpPacket`. -/
inductive Message where
  | pli (packet : RtcpPliPacket)
  | fir (packet : RtcpFirPacket)
  deriving DecidableEq

/-- A track with its requester. `sent` records the messages with their times. -/
structure PublishStreamTrack where
  requested : Bool := false
  firSeqNum : BitVec 8 := 0
  sent : List (ℤ × Message) := []

/-- What asks a track for a keyframe: a subscribe stream's request, which the publish stream
hands on by RID, and the track's NACK requester. -/
inductive Request where
  | subscribeStreamFrameRequested (rid : BitVec 32)
  | nackRequesterRequestKeyFrame

section Track
variable (config : Configuration)

/-- The tests of `OnSubscribeStreamFrameRequested`. -/
def Configuration.meets : Request → Bool
  | .subscribeStreamFrameRequested rid =>
      if rid = 0 && !config.audio then true else !config.audio && config.rid = rid
  | .nackRequesterRequestKeyFrame => true

/-- `KeyFrameRequest`, where the request is one for this track. -/
def handle (t : PublishStreamTrack) (r : Request) : PublishStreamTrack :=
  if config.meets r then { t with requested := true } else t

def onKeyframeRequesterRequest (t : PublishStreamTrack) (now : ℤ) : PublishStreamTrack :=
  if config.rtcpfbPli then { t with sent := t.sent++[(now,.pli ⟨config.ssrc,config.ssrc⟩)] }
  else if config.rtcpfbFir then
    { t with
      firSeqNum := t.firSeqNum+1
      sent := t.sent++[(now,.fir ⟨config.ssrc,0,[⟨config.ssrc,t.firSeqNum+1⟩]⟩)] }
  else t

/-- `OnTimerTimeout` of the requester, with the wait it asks for. -/
def onTimerTimeout (t : PublishStreamTrack) (now : ℤ) : PublishStreamTrack × Option ℕ :=
  (if t.requested then { onKeyframeRequesterRequest config t now with requested := false } else t,
    some kKeyFrameRequestIntervalMillis)

def requester : Observer PublishStreamTrack Request :=
  ⟨onTimerTimeout config,fun t _ r => handle config t r⟩

/-- The publisher has negotiated a message that asks for a keyframe. -/
def Configuration.canAsk : Bool := config.rtcpfbPli || config.rtcpfbFir

/-- The message of a number. Only FIR messages carry it. -/
def message (n : ℕ) : Message :=
  if config.rtcpfbPli then .pli ⟨config.ssrc,config.ssrc⟩
  else .fir ⟨config.ssrc,0,[⟨config.ssrc,BitVec.ofNat 8 n⟩]⟩

/-- The requests for the track that reach it. -/
def asks : Event Request → Bool
  | .handle r => config.meets r
  | _ => false

/-! ### One message for many requests -/

structure Inv (first : ℤ) (es : List (Event Request)) (s : State PublishStreamTrack) : Prop where
  soon : ∃ expiry ≤ s.clock+kKeyFrameRequestIntervalMillis, due first s.calls = some expiry
  interval : ∀ c ∈ s.calls, c.2 = some kKeyFrameRequestIntervalMillis
  times : (s.observer.sent.map Prod.fst).Sublist (s.calls.map Prod.fst)
  messages : s.observer.sent.map Prod.snd =
    (List.range s.observer.sent.length).map fun i => message config (i+1)
  number : config.rtcpfbPli = false → s.observer.firSeqNum = BitVec.ofNat 8 s.observer.sent.length
  count : s.observer.sent.length+s.observer.requested.toNat ≤ es.countP (asks config)

theorem inv_start (clock : ℤ) :
    Inv config (clock+kKeyFrameRequestIntervalMillis) []
      (start clock kKeyFrameRequestIntervalMillis {}) where
  soon := ⟨_,le_rfl,rfl⟩
  interval := by simp [start]
  times := List.Sublist.refl _
  messages := rfl
  number _ := rfl
  count := le_rfl

variable {config} {first : ℤ} {es : List (Event Request)} {s : State PublishStreamTrack}

/-- A step that leaves the track and its calls alone. -/
theorem Inv.same (h : Inv config first es s) (e : Event Request) {s' : State PublishStreamTrack}
    (hclock : s.clock ≤ s'.clock) (hobserver : s'.observer = s.observer)
    (hcalls : s'.calls = s.calls) : Inv config first (es++[e]) s' where
  soon := by
    obtain ⟨expiry,hle,hdue⟩ := h.soon
    rw [hcalls]
    exact ⟨expiry,by omega,hdue⟩
  interval := by rw [hcalls]; exact h.interval
  times := by rw [hobserver,hcalls]; exact h.times
  messages := by rw [hobserver]; exact h.messages
  number := by rw [hobserver]; exact h.number
  count := by
    rw [hobserver,List.countP_append]
    exact h.count.trans (Nat.le_add_right _ _)

/-- A timeout after a request sends the next message. -/
theorem onTimerTimeout_eq {t : PublishStreamTrack} (now : ℤ)
    (hnumber : config.rtcpfbPli = false → t.firSeqNum = BitVec.ofNat 8 t.sent.length) :
    (onTimerTimeout config t now).1 =
      if t.requested = true ∧ config.canAsk = true then
        { requested := false
          firSeqNum := if config.rtcpfbPli then t.firSeqNum else t.firSeqNum+1
          sent := t.sent++[(now,message config (t.sent.length+1))] }
      else { t with requested := false } := by
  rw [onTimerTimeout,onKeyframeRequesterRequest,Configuration.canAsk]
  obtain ⟨requested,firSeqNum,sent⟩ := t
  cases requested with
  | false => rfl
  | true =>
      cases hpli : config.rtcpfbPli with
      | true => simp [message,hpli]
      | false =>
          cases hfir : config.rtcpfbFir with
          | true =>
              have hfirst := hnumber hpli
              simp only at hfirst
              simp [message,hpli,hfirst,BitVec.ofNat_add]
          | false => simp

theorem call_calls (s : State PublishStreamTrack) : (s.call (requester config)).calls =
    s.calls++[(s.clock,some kKeyFrameRequestIntervalMillis)] := rfl

theorem Inv.call (h : Inv config first es s) (e : Event Request) :
    Inv config first (es++[e]) (s.call (requester config)) := by
  have hcount : es.countP (asks config) ≤ (es++[e]).countP (asks config) := by
    rw [List.countP_append]
    exact Nat.le_add_right _ _
  have hobserver : (s.call (requester config)).observer =
      (onTimerTimeout config s.observer s.clock).1 := rfl
  rw [onTimerTimeout_eq _ h.number] at hobserver
  have hsoon : ∃ expiry ≤ s.clock+(kKeyFrameRequestIntervalMillis : ℤ),
      due first (s.calls++[(s.clock,some kKeyFrameRequestIntervalMillis)]) = some expiry := by
    rw [due_snoc]
    exact ⟨_,le_rfl,rfl⟩
  have hinterval : ∀ c ∈ s.calls++[(s.clock,some kKeyFrameRequestIntervalMillis)],
      c.2 = some kKeyFrameRequestIntervalMillis := by
    intro c hc
    cases List.mem_append.mp hc with
    | inl hold => exact h.interval c hold
    | inr hnew => rw [List.mem_singleton.mp hnew]
  have hold := h.count
  split at hobserver
  · rename_i hasked
    rw [hasked.1,Bool.toNat_true] at hold
    refine ⟨hsoon,hinterval,?_,?_,?_,?_⟩
    · rw [hobserver,call_calls,List.map_append,List.map_append]
      exact h.times.append (List.Sublist.refl _)
    · rw [hobserver,List.map_append,h.messages,List.length_append,List.length_singleton,
        List.range_succ,List.map_append]
      rfl
    · intro hpli
      rw [hobserver]
      simp only [hpli,List.length_append,List.length_singleton,BitVec.ofNat_add,← h.number hpli]
      rfl
    · rw [hobserver,List.length_append,List.length_singleton,Bool.toNat_false]
      omega
  · refine ⟨hsoon,hinterval,?_,?_,?_,?_⟩
    · rw [hobserver,call_calls,List.map_append]
      exact h.times.trans (List.sublist_append_left _ _)
    · rw [hobserver]
      exact h.messages
    · rw [hobserver]
      exact h.number
    · rw [hobserver,Bool.toNat_false]
      simp only
      omega

theorem Inv.handle (h : Inv config first es s) (r : Request) :
    Inv config first (es++[.handle r])
      { s with observer := KeyframeRequests.handle config s.observer r } := by
  have hcount := h.count
  rw [KeyframeRequests.handle]
  split
  · rename_i hmeets
    refine ⟨h.soon,h.interval,h.times,h.messages,h.number,?_⟩
    have hone : [Event.handle r].countP (asks config) = 1 := by simp [asks,hmeets]
    rw [List.countP_append,hone]
    simp only [Bool.toNat_true]
    omega
  · exact h.same _ le_rfl rfl rfl

theorem Inv.step (h : Inv config first es s) (e : Event Request) :
    Inv config first (es++[e]) (step (requester config) s e) := by
  cases e with
  | advance millis =>
      apply h.same
      · simp only [Timers.step]
        omega
      · rfl
      · rfl
  | expire => exact h.same _ le_rfl rfl rfl
  | run =>
      simp only [Timers.step]
      split
      · exact h.same _ le_rfl rfl rfl
      · rw [onTimeout_eq]
        split
        · have hpop : Inv config first es s.pop :=
            ⟨h.soon,h.interval,h.times,h.messages,h.number,h.count⟩
          exact hpop.call _
        · exact h.same _ le_rfl rfl rfl
  | stop => exact h.same _ le_rfl rfl rfl
  | observerDestroyed => exact h.same _ le_rfl rfl rfl
  | handle r =>
      simp only [Timers.step]
      split
      · exact h.handle r
      · exact h.same _ le_rfl rfl rfl

theorem inv_run (config : Configuration) (clock : ℤ) (es : List (Event Request)) :
    Inv config (clock+kKeyFrameRequestIntervalMillis) es
      (run (step (requester config)) (start clock kKeyFrameRequestIntervalMillis {}) es) := by
  induction es using List.reverseRecOn with
  | nil => exact inv_start config clock
  | append_singleton es e ih =>
      rw [run_snoc]
      exact ih.step e

/-! ### No request is lost -/

/-- A request that came after so many messages is still there, or was answered. -/
def Answered (n : ℕ) (t : PublishStreamTrack) : Prop :=
  n ≤ t.sent.length ∧ (t.requested = true ∨ n < t.sent.length)

theorem Answered.call {n : ℕ} (h : Answered n s.observer) (hcanAsk : config.canAsk = true)
    (hinv : Inv config first es s) : Answered n (s.call (requester config)).observer := by
  have hobserver : (s.call (requester config)).observer =
      (onTimerTimeout config s.observer s.clock).1 := rfl
  rw [hobserver,onTimerTimeout_eq _ hinv.number]
  by_cases hrequested : s.observer.requested = true
  · rw [if_pos ⟨hrequested,hcanAsk⟩,Answered,List.length_append,List.length_singleton]
    have := h.1
    exact ⟨by omega,.inr (by omega)⟩
  · rw [if_neg (fun hboth => hrequested hboth.1)]
    exact ⟨h.1,.inr (h.2.resolve_left hrequested)⟩

theorem Answered.step {n : ℕ} (h : Answered n s.observer) (hcanAsk : config.canAsk = true)
    (hinv : Inv config first es s) (e : Event Request) :
    Answered n (step (requester config) s e).observer := by
  cases e with
  | advance millis => exact h
  | expire => exact h
  | run =>
      simp only [Timers.step]
      split
      · exact h
      · rw [onTimeout_eq]
        split
        · have hpop : Inv config first es s.pop :=
            ⟨hinv.soon,hinv.interval,hinv.times,hinv.messages,hinv.number,hinv.count⟩
          exact Answered.call (s := s.pop) h hcanAsk hpop
        · exact h
  | stop => exact h
  | observerDestroyed => exact h
  | handle r =>
      simp only [Timers.step]
      split
      · simp only [requester,KeyframeRequests.handle]
        split
        · exact ⟨h.1,.inl rfl⟩
        · exact h
      · exact h

theorem answered_run (hcanAsk : config.canAsk = true) (clock : ℤ) (before : List (Event Request))
    {r : Request} (hmeets : config.meets r = true) (after : List (Event Request)) :
    let begun := start clock kKeyFrameRequestIntervalMillis {}
    (run (step (requester config)) begun before).alive = true →
    Answered (run (step (requester config)) begun before).observer.sent.length
      (run (step (requester config)) begun (before++.handle r::after)).observer := by
  intro begun halive
  induction after using List.reverseRecOn with
  | nil =>
      rw [run_snoc]
      generalize run (step (requester config)) begun before = s at halive ⊢
      simp only [Timers.step,halive,if_true,requester,KeyframeRequests.handle,hmeets]
      exact ⟨le_rfl,.inl rfl⟩
  | append_singleton after e ih =>
      rw [← List.cons_append,← List.append_assoc,run_snoc]
      exact ih.step hcanAsk (inv_run config clock _) e

end Track

/-- In every run of a track's keyframe requester: the messages to the publisher are PLIs, or
else FIRs numbered one after the other; they are at least a second apart, and there are never
more of them than requests that met the track. Where PLI or FIR was negotiated, behind a request
a message was sent, or it is still remembered, and one that is remembered is answered when a
second has passed, unless the track was stopped. -/
theorem requests_answered (config : Configuration) (clock : ℤ) (es : List (Event Request)) :
    let begun := start clock kKeyFrameRequestIntervalMillis {}
    let s := run (step (requester config)) begun es
    s.observer.sent.map Prod.snd =
      (List.range s.observer.sent.length).map (fun i => message config (i+1)) ∧
    (s.observer.sent.map Prod.fst).Pairwise
      (fun time later : ℤ => time+kKeyFrameRequestIntervalMillis ≤ later) ∧
    s.observer.sent.length+s.observer.requested.toNat ≤ es.countP (asks config) ∧
    (config.canAsk = true → ∀ before r after, es = before++.handle r::after →
      config.meets r = true → (run (step (requester config)) begun before).alive = true →
      s.observer.requested = true ∨
        (run (step (requester config)) begun before).observer.sent.length <
          s.observer.sent.length) ∧
    (config.canAsk = true → s.observer.requested = true → s.alive = true →
      s.timer.stoped = false → ∀ millis : ℕ, kKeyFrameRequestIntervalMillis ≤ millis →
      (run (step (requester config)) s [.advance millis,.expire,.run]).observer.sent =
        s.observer.sent++[(s.clock+millis,message config (s.observer.sent.length+1))]) := by
  have hinv := inv_run config clock es
  have htimer := run_invariant (Timers.inv_start clock kKeyFrameRequestIntervalMillis {})
    (fun s e (h : Timers.Inv (clock+(kKeyFrameRequestIntervalMillis : ℤ)) s) =>
      h.step (o := requester config) e) es
  refine ⟨hinv.messages,?_,hinv.count,?_,?_⟩
  · exact (pairwise_of_interval hinv.interval htimer.calls).1.sublist hinv.times
  · intro hcanAsk before r after hes hmeets halive
    have hanswered := answered_run hcanAsk clock before hmeets after halive
    rw [← hes] at hanswered
    exact hanswered.2
  · intro hcanAsk hrequested halive hstoped millis hmillis
    obtain ⟨expiry,hle,hdue⟩ := hinv.soon
    obtain ⟨t,hobserver,hclock,_,hrun⟩ :=
      htimer.due_called (o := requester config) hstoped halive hdue millis (by omega)
    have hnumber := hinv.number
    rw [← hobserver] at hnumber hrequested
    have hsent : (t.call (requester config)).observer =
        (onTimerTimeout config t.observer t.clock).1 := rfl
    rw [onTimerTimeout_eq _ hnumber,if_pos ⟨hrequested,hcanAsk⟩] at hsent
    rw [hrun,hsent,hclock,← hobserver]

end Ylrtc.KeyframeRequests
