import Ylrtc.Lib.SyncCalls
import Ylrtc.Transport.SubscribeStream
import Mathlib.Data.Set.Finite.Basic

/-!
# Streams on worker threads

The handlers of `transport/subscribe_stream.cpp` and `transport/publish_stream.cpp`
on the threads of `base/threads.h`, as far as one thread waits for another: a
subscribe stream asks its publish stream with `PostSync` when it changes the
layer (twice) and when a layer is requested. `PostSync` runs a handler in place
only if it is called on the handler's own thread.
-/
namespace Ylrtc.WorkerThreads
open CursorParser Packet Run Subscribe SyncCalls

/-- Which thread each stream was given, the publish stream of each subscribe
stream, and the data observers of each publish stream. -/
structure Placement (T P S : Type) where
  publisherThread : P → T
  subscriberThread : S → T
  source : S → P
  observers : P → List S

structure Streams (P S : Type) where
  publishers : P → PublishStream
  subscribers : S → SubscribeStream

abbrev ValidPacket := {p : RtpPacket // p.Valid}

/-- What reaches the threads from outside: a packet that a publish stream
forwards (with the memory behind each copy of it), a change of what it answers from (a
sender report, a bit rate), and the events of a subscribe stream. -/
inductive Event (P S : Type) where
  | publisherForwards (p : P) (rtpPacket : ValidPacket) (behind : S → List Byte) (nowMillis : ℤ)
  | publisherChanges (p : P) (state : PublishStream)
  | dtlsTransportSetup (s : S)
  | setSimulcastLayer (s : S) (rid : BitVec 32)

/-- The handlers that are posted, and what is left of those that have asked. -/
inductive Job (P S : Type) where
  | event (e : Event P S)
  | receivePublishStreamRtpPacket (s : S) (rtpPacket : ValidPacket) (behind : List Byte)
      (nowMillis : ℤ)
  | referenceAnswered (s : S) (rtpPacket : ValidPacket) (behind : List Byte) (nowMillis : ℤ)
      (reference : Option SenderReport)
  | targetAnswered (s : S) (rtpPacket : ValidPacket) (behind : List Byte) (nowMillis : ℤ)
      (reference target : Option SenderReport)
  | ridAnswered (s : S) (selectedRid : BitVec 32)
  | frameRequested (p : P) (rid : BitVec 32)

inductive Query (P : Type) where
  | lastSr (p : P) (rid : BitVec 32)
  | rid (p : P) (want : BitVec 32)

inductive Answer where
  | lastSr (sr : Option SenderReport)
  | rid (result : BitVec 32)

def Answer.sr : Answer → Option SenderReport
  | .lastSr sr => sr
  | .rid _ => none

def Answer.selected : Answer → BitVec 32
  | .lastSr _ => 0
  | .rid result => result

/-- The track and the copy of a packet at which the stream asks for the sender
reports of two layers. -/
def switching (s : SubscribeStream) (rtpPacket : RtpPacket) (behind : List Byte) :
    Option (SubscribeStreamTrack × RtpPacket) :=
  if !s.connectionEstablished then none
  else if !s.dataReceived && !rtpPacket.isKeyFrame then none
  else
    let clonePacket := rtpPacket.copy behind
    match s.ssrcTrackMap clonePacket.ssrc with
    | none => none
    | some track =>
        let clonePacket :=
          clonePacket.updateExtensionCapability track.configuration.extensionCapability
        match SubscribeStream.streamId clonePacket with
        | none => none
        | some rid =>
            if s.currentLayerRid ≠ s.targetLayerRid ∧ rid = s.targetLayerRid ∧
                clonePacket.isKeyFrame then some (track,clonePacket)
            else none

/-- The rest of the handler, with both answers. -/
def finishSwitch (s : SubscribeStream) (track : SubscribeStreamTrack) (clonePacket : RtpPacket)
    (reference target : Option SenderReport) (nowMillis : ℤ) : SubscribeStream :=
  let s := { s with dataReceived := true }
  match reference,target with
  | some reference,some target =>
      let s := SubscribeStream.setTrack { s with
        timestampOffset :=
          SubscribeStream.timestampOffsetOf reference target track.configuration.clockRate
        currentLayerRid := s.targetLayerRid }
        clonePacket.ssrc (track.syncSequenceNumber clonePacket.sequenceNumber)
      s.forward (clonePacket.setTimestamp (clonePacket.timestamp - s.timestampOffset)) nowMillis
  | _,_ => { s with frameRequests := s.frameRequests++[s.targetLayerRid] }

/-- Both answers from one state of the publish stream give the handler as a whole. -/
theorem finishSwitch_eq {s : SubscribeStream} {rtpPacket : RtpPacket} {behind : List Byte}
    {track : SubscribeStreamTrack} {clonePacket : RtpPacket}
    (h : switching s rtpPacket behind = some (track,clonePacket)) (p : PublishStream) (nowMillis : ℤ) :
    s.receivePublishStreamRtpPacket (some p) rtpPacket behind nowMillis =
      finishSwitch s track clonePacket (p.lastSrRequested s.referenceLayerRid)
        (p.lastSrRequested s.targetLayerRid) nowMillis := by
  simp only [switching] at h
  split at h
  · simp at h
  rename_i hconnected
  split at h
  · simp at h
  rename_i hdata
  split at h
  · simp at h
  rename_i t ht
  split at h
  · simp at h
  rename_i rid hrid
  split at h
  · rename_i hswitch
    simp only [Option.some.injEq,Prod.mk.injEq] at h
    obtain ⟨rfl,rfl⟩ := h
    obtain ⟨hne,rfl,hkey⟩ := hswitch
    simp only [SubscribeStream.receivePublishStreamRtpPacket,SubscribeStream.selectPacket,
      if_neg hconnected,if_neg hdata,ht,hrid,SubscribeStream.switchLayer,Option.bind_some,
      finishSwitch,hkey,ne_eq,hne,not_false_eq_true,and_self,if_true]
    cases p.lastSrRequested s.referenceLayerRid with
    | none => simp [SubscribeStream.requestFrame,Ne.symm hne]
    | some reference =>
        cases p.lastSrRequested s.targetLayerRid with
        | none => simp [SubscribeStream.requestFrame,Ne.symm hne]
        | some target => simp [SubscribeStream.setTrack]
  · simp at h

/-- The handler of a layer request, with its answer. -/
def finishLayer (s : SubscribeStream) (selectedRid : BitVec 32) : SubscribeStream :=
  if selectedRid = 0 then s
  else { s with
    targetLayerRid := selectedRid, frameRequests := s.frameRequests++[selectedRid] }

/-- The request is one that the stream asks about. -/
def asksRid (s : SubscribeStream) (rid : BitVec 32) : Bool :=
  if rid > kMaxSimulcastLayers || rid = kInvalidLayerIndex then false else rid ≠ s.currentLayerRid

theorem finishLayer_eq (s : SubscribeStream) (p : PublishStream) (rid : BitVec 32) :
    s.setSimulcastLayer (some p) rid =
      if asksRid s rid then finishLayer s (p.queryRID rid) else s := by
  simp only [SubscribeStream.setSimulcastLayer,asksRid,finishLayer,SubscribeStream.requestFrame]
  split
  · simp
  · by_cases hsame : rid = s.currentLayerRid
    · simp [hsame]
    · simp [hsame]

section Program
variable {T P S : Type} [DecidableEq P] [DecidableEq S] (pl : Placement T P S)

def Event.home : Event P S → T
  | .publisherForwards p _ _ _ => pl.publisherThread p
  | .publisherChanges p _ => pl.publisherThread p
  | .dtlsTransportSetup s => pl.subscriberThread s
  | .setSimulcastLayer s _ => pl.subscriberThread s

def Job.home : Job P S → T
  | .event e => e.home pl
  | .receivePublishStreamRtpPacket s _ _ _ => pl.subscriberThread s
  | .referenceAnswered s _ _ _ _ => pl.subscriberThread s
  | .targetAnswered s _ _ _ _ _ => pl.subscriberThread s
  | .ridAnswered s _ => pl.subscriberThread s
  | .frameRequested p _ => pl.publisherThread p

/-- A handler of a subscribe stream ends. The frames it has asked for are
requests that are posted to the publish stream's thread. -/
def finish (d : Streams P S) (s : S) (state : SubscribeStream) :
    Streams P S × Action T (Query P) Answer (Job P S) :=
  ({ d with subscribers := Function.update d.subscribers s state },
    .done ((state.frameRequests.drop (d.subscribers s).frameRequests.length).map
      (.frameRequested (pl.source s))))

def exec : Job P S → Streams P S → Streams P S × Action T (Query P) Answer (Job P S)
  | .event (.publisherForwards p rtpPacket behind nowMillis),d =>
      (d,.done ((pl.observers p).map fun s =>
        .receivePublishStreamRtpPacket s rtpPacket (behind s) nowMillis))
  | .event (.publisherChanges p state),d =>
      ({ d with publishers := Function.update d.publishers p state },.done [])
  | .event (.dtlsTransportSetup s),d =>
      finish pl d s (Subscribe.step (d.subscribers s) .dtlsTransportSetup)
  | .event (.setSimulcastLayer s rid),d =>
      if asksRid (d.subscribers s) rid then
        (d,.sync (pl.publisherThread (pl.source s)) (.rid (pl.source s) rid)
          fun a => .ridAnswered s a.selected)
      else (d,.done [])
  | .ridAnswered s selectedRid,d => finish pl d s (finishLayer (d.subscribers s) selectedRid)
  | .receivePublishStreamRtpPacket s rtpPacket behind nowMillis,d =>
      let state := d.subscribers s
      match switching state rtpPacket behind with
      | none => finish pl d s (state.receivePublishStreamRtpPacket
          (some (d.publishers (pl.source s))) rtpPacket behind nowMillis)
      | some _ => (d,.sync (pl.publisherThread (pl.source s))
          (.lastSr (pl.source s) state.referenceLayerRid)
          fun a => .referenceAnswered s rtpPacket behind nowMillis a.sr)
  | .referenceAnswered s rtpPacket behind nowMillis reference,d =>
      (d,.sync (pl.publisherThread (pl.source s))
        (.lastSr (pl.source s) (d.subscribers s).targetLayerRid)
        fun a => .targetAnswered s rtpPacket behind nowMillis reference a.sr)
  | .targetAnswered s rtpPacket behind nowMillis reference target,d =>
      let state := d.subscribers s
      match switching state rtpPacket behind with
      | none => (d,.done [])
      | some (track,clonePacket) =>
          finish pl d s (finishSwitch state track clonePacket reference target nowMillis)
  | .frameRequested _ _,d => (d,.done [])

/-- The handlers of the publish stream that subscribe streams wait for. -/
def answer : Query P → Streams P S → Streams P S × Answer
  | .lastSr p rid,d => (d,.lastSr ((d.publishers p).lastSrRequested rid))
  | .rid p want,d => (d,.rid ((d.publishers p).queryRID want))

def program : Program T (Streams P S) (Query P) Answer (Job P S) (Event P S) where
  home := Job.home pl
  arrive := .event
  exec := exec pl
  answer := answer

/-- A subscribe stream of one thread has its publish stream on another. -/
def Crosses (t u : T) : Prop :=
  t ≠ u ∧ ∃ s, pl.subscriberThread s = t ∧ pl.publisherThread (pl.source s) = u

/-- Only a subscribe stream's handler calls a thread: that of its publish stream. -/
theorem exec_sync {j : Job P S} {d : Streams P S} {u : T} {q : Query P} {k : Answer → Job P S}
    (h : (exec pl j d).2 = .sync u q k) :
    ∃ s, j.home pl = pl.subscriberThread s ∧ u = pl.publisherThread (pl.source s) ∧
      ∀ a, (k a).home pl = pl.subscriberThread s := by
  cases j with
  | event e =>
      cases e with
      | publisherForwards p rtpPacket behind nowMillis => simp [exec] at h
      | publisherChanges p state => simp [exec] at h
      | dtlsTransportSetup s => simp [exec,finish] at h
      | setSimulcastLayer s rid =>
          simp only [exec] at h
          split at h
          · cases h
            exact ⟨s,rfl,rfl,fun _ => rfl⟩
          · simp at h
  | receivePublishStreamRtpPacket s rtpPacket behind nowMillis =>
      simp only [exec] at h
      split at h
      · simp [finish] at h
      · cases h
        exact ⟨s,rfl,rfl,fun _ => rfl⟩
  | referenceAnswered s rtpPacket behind nowMillis reference =>
      simp only [exec] at h
      cases h
      exact ⟨s,rfl,rfl,fun _ => rfl⟩
  | targetAnswered s rtpPacket behind nowMillis reference target =>
      simp only [exec] at h
      split at h
      · simp at h
      · simp [finish] at h
  | ridAnswered s selectedRid => simp [exec,finish] at h
  | frameRequested p rid => simp [exec] at h

theorem program_resumes : Resumes (program pl) := by
  intro j d u q k a h
  obtain ⟨s,hj,_,hk⟩ := exec_sync pl h
  exact (hk a).trans hj.symm

theorem crosses_of_calls {t u : T} (h : Calls (program pl) t u) : Crosses pl t u := by
  obtain ⟨hne,j,d,q,k,hj,hcall⟩ := h
  obtain ⟨s,hhome,hu,_⟩ := exec_sync pl hcall
  exact ⟨hne,s,hhome.symm.trans hj,hu.symm⟩

/-- The streams as they are created. -/
def fresh (publishers : P → PublishStream) (environments : S → Environment)
    (configurations : S → BitVec 32 → Option Configuration) : Streams P S :=
  ⟨publishers,fun s => Subscribe.start (environments s) (configurations s)⟩

/-- Some threads are blocked in a circle. -/
def Deadlocked (s : State T (Streams P S) (Query P) Answer (Job P S)) : Prop :=
  ∃ t, Relation.TransGen (Waits s) t t

/-- A request for layer 2 makes a fresh stream ask. -/
theorem exec_request (publishers : P → PublishStream) (environments : S → Environment)
    (configurations : S → BitVec 32 → Option Configuration) (s : S) :
    exec pl (.event (.setSimulcastLayer s 2)) (fresh publishers environments configurations) =
      (fresh publishers environments configurations,
        .sync (pl.publisherThread (pl.source s)) (.rid (pl.source s) 2)
          fun a => .ridAnswered s a.selected) := by
  have hasks : asksRid ((fresh publishers environments configurations).subscribers s) 2 = true := rfl
  simp only [exec,hasks,if_true]

variable [DecidableEq T]

/-- Where the placement has a cycle, one layer request on each of its threads
is enough to block them all. -/
theorem exists_deadlock [Finite T] {t : T} (h : Relation.TransGen (Crosses pl) t t)
    (publishers : P → PublishStream) (environments : S → Environment)
    (configurations : S → BitVec 32 → Option Configuration) :
    ∃ ms : List (Move T (Event P S)), Deadlocked (run (SyncCalls.step (program pl))
      (State.start (fresh publishers environments configurations)) ms) := by
  classical
  let C : Set T :=
    {x | Relation.ReflTransGen (Crosses pl) t x ∧ Relation.TransGen (Crosses pl) x t}
  have hC : ∀ x ∈ C, ∃ y ∈ C, Crosses pl x y := cycle_successor h
  have hS : Nonempty S := by
    obtain ⟨y,_,_,s,_⟩ := hC t ⟨.refl,h⟩
    exact ⟨s⟩
  have hchoice : ∀ x : T, ∃ ys : T × S, x ∈ C → ys.1 ∈ C ∧ x ≠ ys.1 ∧
      pl.subscriberThread ys.2 = x ∧ pl.publisherThread (pl.source ys.2) = ys.1 := by
    intro x
    by_cases hx : x ∈ C
    · obtain ⟨y,hy,hne,s,hs⟩ := hC x hx
      exact ⟨(y,s),fun _ => ⟨hy,hne,hs⟩⟩
    · exact ⟨(x,hS.some),fun h => absurd h hx⟩
  choose ys hys using hchoice
  have hcalls : ∀ x ∈ (Set.toFinite C).toFinset.toList,
      (program pl).home ((program pl).arrive (.setSimulcastLayer (ys x).2 2)) = x ∧ (ys x).1 ≠ x ∧
      ∃ q k, (program pl).exec ((program pl).arrive (.setSimulcastLayer (ys x).2 2))
        (fresh publishers environments configurations) =
          (fresh publishers environments configurations,.sync (ys x).1 q k) := by
    intro x hx
    obtain ⟨_,hne,hs,hp⟩ := hys x (by simpa using hx)
    refine ⟨hs,hne.symm,.rid (pl.source (ys x).2) 2,fun a => .ridAnswered (ys x).2 a.selected,?_⟩
    rw [← hp]
    exact exec_request pl publishers environments configurations (ys x).2
  obtain ⟨ms,hms⟩ := exists_waits (f := fun x => (ys x).1) (Finset.nodup_toList _)
    (fresh publishers environments configurations) hcalls
  refine ⟨ms,exists_cycle (C := C) ⟨t,.refl,h⟩ fun x hx => ?_⟩
  exact ⟨(ys x).1,(hys x hx).1,hms x (by simpa using hx)⟩

/-- No run of the streams blocks threads in a circle, exactly if the placement
has no cycle of threads of which each carries a subscriber of the next. -/
theorem run_deadlocked_iff [Finite T] (publishers : P → PublishStream)
    (environments : S → Environment) (configurations : S → BitVec 32 → Option Configuration) :
    (∀ ms : List (Move T (Event P S)), ¬Deadlocked (run (SyncCalls.step (program pl))
      (State.start (fresh publishers environments configurations)) ms)) ↔
      ∀ t, ¬Relation.TransGen (Crosses pl) t t := by
  constructor
  · intro h t ht
    obtain ⟨ms,hms⟩ := exists_deadlock pl ht publishers environments configurations
    exact h ms hms
  · rintro h ms ⟨t,ht⟩
    have hle : Waits (run (SyncCalls.step (program pl))
        (State.start (fresh publishers environments configurations)) ms) ≤ Crosses pl :=
      fun _ _ hw => crosses_of_calls pl (waits_calls (program_resumes pl) _ ms hw)
    exact h t (Relation.TransGen.mono hle t t ht)

end Program

/-- Two threads, a publish stream on each, and a subscriber of each on the other. -/
def crosswise : Placement Bool Bool Bool where
  publisherThread := id
  subscriberThread := id
  source := not
  observers := fun p => [!p]

/-- Publish streams without tracks, and subscribe streams without configurations. -/
def bareStreams : Streams Bool Bool :=
  fresh (fun _ => ⟨[],[]⟩) (fun _ => ⟨fun _ => true,fun _ _ => 0⟩) fun _ _ => none

theorem run_deadlocked_iff_crosswise :
    (∀ ms : List (Move Bool (Event Bool Bool)),
      ¬Deadlocked (run (SyncCalls.step (program crosswise)) (State.start bareStreams) ms)) ↔
      ∀ t, ¬Relation.TransGen (Crosses crosswise) t t :=
  run_deadlocked_iff crosswise (fun _ => ⟨[],[]⟩) (fun _ => ⟨fun _ => true,fun _ _ => 0⟩)
    fun _ _ => none

/-- One layer request on each of them blocks both. -/
theorem not_run_deadlocked : ¬∀ (pl : Placement Bool Bool Bool) (publishers : Bool → PublishStream)
    (environments : Bool → Environment)
    (configurations : Bool → BitVec 32 → Option Configuration)
    (ms : List (Move Bool (Event Bool Bool))),
      ¬Deadlocked (run (SyncCalls.step (program pl))
        (State.start (fresh publishers environments configurations)) ms) := by
  intro h
  have hcross : ∀ t : Bool, Crosses crosswise t (!t) := fun t =>
    ⟨fun he => absurd he.symm (Bool.not_ne_self t),t,rfl,rfl⟩
  have hcycle : Relation.TransGen (Crosses crosswise) true true :=
    (Relation.TransGen.single (hcross true)).tail (hcross false)
  obtain ⟨ms,hms⟩ := exists_deadlock crosswise hcycle (fun _ => ⟨[],[]⟩)
    (fun _ => ⟨fun _ => true,fun _ _ => 0⟩) fun _ _ => none
  exact h crosswise _ _ _ ms hms

end Ylrtc.WorkerThreads
