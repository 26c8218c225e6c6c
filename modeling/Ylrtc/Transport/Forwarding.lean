import Ylrtc.Lib.Mailbox
import Ylrtc.Transport.WorkerThreads

/-!
# Forwarding from publish streams to subscribe streams

`RegisterDataObserver`, `UnregisterDataObserver` and the end of `OnRtpPacketReceive` of
`transport/publish_stream.cpp` with `ReceivePublishStreamRtpPacket` of
`transport/subscribe_stream.cpp`. The main thread posts the registrations to a publish
stream's thread, that thread posts every packet that a track has accepted to the threads of
its observers, and those run `Subscribe.step`.

The answers that a subscribe stream waits for come with the handler that it runs.
-/
namespace Ylrtc.Forwarding
open CursorParser Mailbox Packet Run Subscribe WorkerThreads

/-- What the main thread asks a publish stream for. -/
inductive Request (S : Type) where
  | registerDataObserver (observer : S)
  | unregisterDataObserver (observer : S)

/-- The handlers that are posted. -/
inductive Job (P S : Type) where
  | request (p : P) (r : Request S)
  | receivePublishStreamRtpPacket (x : S) (rtpPacket : ValidPacket)

/-- What a publish stream's thread has done. -/
inductive Entry (P S : Type) where
  | request (p : P) (r : Request S)
  | accepted (p : P) (rtpPacket : ValidPacket)

def packetOf : Subscribe.Event → Option ValidPacket
  | .receivePublishStreamRtpPacket _ rtpPacket _ _ => some rtpPacket
  | _ => none

/-- The handlers of a subscribe stream that bring no packet of its publish stream. -/
abbrev OtherEvent := {e : Subscribe.Event // packetOf e = none}

/-- One step: the main thread posts a request, a track of a publish stream accepts a packet, a
handler of a subscribe stream runs that was not posted, or a thread runs what it was posted
first. The publish stream answers from a state of its own, the copy of a packet lies somewhere
in memory, and the clock is read. -/
inductive Event (T P S : Type) where
  | post (p : P) (r : Request S)
  | onRtpPacketReceive (p : P) (rtpPacket : ValidPacket)
  | handle (x : S) (e : OtherEvent)
  | run (t : T) (publisher : Option PublishStream) (behind : List Byte) (nowMillis : ℤ)

section System
variable {T P S : Type} [DecidableEq T] [DecidableEq P] [DecidableEq S] (publisherThread : P → T)
  (subscriberThread : S → T)

def home : Job P S → T
  | .request p _ => publisherThread p
  | .receivePublishStreamRtpPacket x _ => subscriberThread x

/-- `log`, latest first, `events` and `asked` record what was done. -/
structure State where
  mailboxes : Mailboxes (home publisherThread subscriberThread)
  dataObservers : P → List S
  subscribers : S → SubscribeStream
  log : List (Entry P S)
  events : S → List Subscribe.Event
  asked : P → List (Request S)

/-- The handlers of `RegisterDataObserver` and `UnregisterDataObserver`. -/
def Request.apply (dataObservers : List S) : Request S → List S
  | .registerDataObserver x => if x ∈ dataObservers then dataObservers else dataObservers++[x]
  | .unregisterDataObserver x => dataObservers.erase x

variable {publisherThread subscriberThread}
variable (s : State publisherThread subscriberThread)

/-- A handler runs on the subscribe stream's thread. -/
def State.handle (x : S) (e : Subscribe.Event) : State publisherThread subscriberThread :=
  { s with
    subscribers := Function.update s.subscribers x (Subscribe.step (s.subscribers x) e)
    events := Function.update s.events x (s.events x++[e]) }

/-- A posted handler of a publish stream runs on its thread. -/
def State.apply (p : P) (r : Request S) : State publisherThread subscriberThread :=
  { s with
    dataObservers := Function.update s.dataObservers p (r.apply (s.dataObservers p))
    log := .request p r::s.log }

def State.exec (publisher : Option PublishStream) (behind : List Byte) (nowMillis : ℤ) :
    Job P S → State publisherThread subscriberThread
  | .request p r => s.apply p r
  | .receivePublishStreamRtpPacket x rtpPacket =>
      s.handle x (.receivePublishStreamRtpPacket publisher rtpPacket behind nowMillis)

def step : Event T P S → State publisherThread subscriberThread
  | .post p r => { s with
      mailboxes := s.mailboxes.post (.request p r)
      asked := Function.update s.asked p (s.asked p++[r]) }
  | .onRtpPacketReceive p rtpPacket => { s with
      mailboxes := s.mailboxes.postAll
        ((s.dataObservers p).map (.receivePublishStreamRtpPacket · rtpPacket))
      log := .accepted p rtpPacket::s.log }
  | .handle x e => s.handle x e
  | .run t publisher behind nowMillis =>
      match s.mailboxes.next t with
      | none => s
      | some j =>
          State.exec { s with mailboxes := s.mailboxes.behind t } publisher behind nowMillis j

variable (publisherThread subscriberThread) in
def start (environments : S → Environment) (configurations : S → BitVec 32 → Option Configuration) :
    State publisherThread subscriberThread where
  mailboxes := Mailboxes.empty _
  dataObservers := fun _ => []
  subscribers := fun x => Subscribe.start (environments x) (configurations x)
  log := []
  events := fun _ => []
  asked := fun _ => []

/-! ### What is to be forwarded -/

/-- The last request about an observer decides. -/
def registered (p : P) (x : S) : List (Entry P S) → Bool
  | [] => false
  | .request q (.registerDataObserver y)::log => (q = p ∧ y = x) || registered p x log
  | .request q (.unregisterDataObserver y)::log => !(q = p ∧ y = x) && registered p x log
  | .accepted _ _::log => registered p x log

/-- The packets that were accepted while the stream was registered, in order. -/
def offered (x : S) : List (Entry P S) → List ValidPacket
  | [] => []
  | .request _ _::log => offered x log
  | .accepted p rtpPacket::log =>
      if registered p x log then offered x log++[rtpPacket] else offered x log

/-- The requests that a publish stream has met, in order. -/
def met (p : P) : List (Entry P S) → List (Request S)
  | [] => []
  | .request q r::log => if q = p then met p log++[r] else met p log
  | .accepted _ _::log => met p log

/-- A packet in the queue of a stream's thread. -/
def forSubscriber (x : S) : Job P S → Option ValidPacket
  | .receivePublishStreamRtpPacket y rtpPacket => if y = x then some rtpPacket else none
  | .request _ _ => none

def forPublisher (p : P) : Job P S → Option (Request S)
  | .request q r => if q = p then some r else none
  | .receivePublishStreamRtpPacket _ _ => none

omit [DecidableEq T] [DecidableEq P] in
theorem livesOn_forSubscriber (x : S) :
    LivesOn (home (P := P) publisherThread subscriberThread) (forSubscriber x)
      (subscriberThread x) := by
  intro j hj
  cases j with
  | request p r => exact Bool.noConfusion hj
  | receivePublishStreamRtpPacket y rtpPacket =>
      rw [forSubscriber] at hj
      split at hj
      · rename_i hy
        rw [home,hy]
      · exact Bool.noConfusion hj

omit [DecidableEq T] [DecidableEq S] in
theorem livesOn_forPublisher (p : P) :
    LivesOn (home (S := S) publisherThread subscriberThread) (forPublisher p)
      (publisherThread p) := by
  intro j hj
  cases j with
  | receivePublishStreamRtpPacket y rtpPacket => exact Bool.noConfusion hj
  | request q r =>
      rw [forPublisher] at hj
      split at hj
      · rename_i hq
        rw [home,hq]
      · exact Bool.noConfusion hj

/-! ### The observers -/

omit [DecidableEq T] [DecidableEq P] in
theorem nodup_apply {xs : List S} (h : xs.Nodup) (r : Request S) : (r.apply xs).Nodup := by
  cases r with
  | unregisterDataObserver x => exact h.erase x
  | registerDataObserver x =>
      rw [Request.apply]
      split
      · exact h
      · rename_i hx
        exact List.Nodup.append h (List.nodup_singleton x) (by simpa using hx)

omit [DecidableEq T] in
/-- The list of observers says who is registered. -/
theorem mem_apply_iff {xs : List S} (hnodup : xs.Nodup) {p : P} {log : List (Entry P S)}
    (h : ∀ x, x ∈ xs ↔ registered p x log) (r : Request S) (x : S) :
    x ∈ r.apply xs ↔ registered p x (.request p r::log) := by
  cases r with
  | registerDataObserver y =>
      simp only [Request.apply,registered,true_and,Bool.or_eq_true,decide_eq_true_eq,← h]
      split
      · rename_i hy
        constructor
        · exact Or.inr
        · intro hx
          cases hx with
          | inl heq => rw [← heq]; exact hy
          | inr hold => exact hold
      · rw [List.mem_append,List.mem_singleton,or_comm,eq_comm]
  | unregisterDataObserver y =>
      simp only [Request.apply,registered,true_and,Bool.and_eq_true,Bool.not_eq_true',
        decide_eq_false_iff_not,← h]
      rw [hnodup.mem_erase_iff,ne_comm]

omit [DecidableEq T] in
theorem registered_other {p q : P} (hq : q ≠ p) (r : Request S) (x : S)
    (log : List (Entry P S)) : registered p x (.request q r::log) = registered p x log := by
  cases r with
  | registerDataObserver y => simp [registered,hq]
  | unregisterDataObserver y => simp [registered,hq]

/-! ### One step -/

omit [DecidableEq T] [DecidableEq P] in
/-- A packet is posted once to each observer. -/
theorem filterMap_observers {xs : List S} (h : xs.Nodup) (rtpPacket : ValidPacket) (x : S) :
    (xs.map (Job.receivePublishStreamRtpPacket (P := P) · rtpPacket)).filterMap (forSubscriber x) =
      if x ∈ xs then [rtpPacket] else [] := by
  induction xs with
  | nil => rfl
  | cons y xs ih =>
      rw [List.nodup_cons] at h
      rw [List.map_cons,List.filterMap_cons,ih h.2,forSubscriber]
      by_cases hy : y = x
      · rw [hy] at h
        rw [if_pos hy,if_neg h.1,if_pos (by rw [hy]; exact List.mem_cons_self)]
      · rw [if_neg hy]
        refine if_congr ?_ rfl rfl
        rw [List.mem_cons,or_iff_right (Ne.symm hy)]

omit [DecidableEq T] [DecidableEq S] in
theorem filterMap_forPublisher (xs : List S) (rtpPacket : ValidPacket) (p : P) :
    (xs.map (Job.receivePublishStreamRtpPacket · rtpPacket)).filterMap (forPublisher p) = [] := by
  induction xs with
  | nil => rfl
  | cons y xs ih => exact ih

variable (environments : S → Environment)
  (configurations : S → BitVec 32 → Option Configuration)

/-- Requests and packets are met in order, and a job in hand comes before those that wait. -/
structure Inv (hand : Option (Job P S)) (s : State publisherThread subscriberThread) : Prop where
  nodup : ∀ p, (s.dataObservers p).Nodup
  members : ∀ p x, x ∈ s.dataObservers p ↔ registered p x s.log
  requests : ∀ p, met p s.log++(hand.bind (forPublisher p)).toList++
    s.mailboxes.waiting (forPublisher p) (publisherThread p) = s.asked p
  packets : ∀ x, (s.events x).filterMap packetOf++(hand.bind (forSubscriber x)).toList++
    s.mailboxes.waiting (forSubscriber x) (subscriberThread x) = offered x s.log
  runs : ∀ x, s.subscribers x =
    run Subscribe.step (Subscribe.start (environments x) (configurations x)) (s.events x)

variable {environments configurations} {s : State publisherThread subscriberThread}

theorem Inv.take (h : Inv environments configurations none s) {t : T} {j : Job P S}
    (hj : s.mailboxes.next t = some j) :
    Inv environments configurations (some j) { s with mailboxes := s.mailboxes.behind t } where
  nodup := h.nodup
  members := h.members
  requests p := by
    have hp := h.requests p
    rw [waiting_behind (livesOn_forPublisher p) hj] at hp
    rw [← hp,List.append_assoc]
    simp
  packets x := by
    have hx := h.packets x
    rw [waiting_behind (livesOn_forSubscriber x) hj] at hx
    rw [← hx,List.append_assoc]
    simp
  runs := h.runs

omit [DecidableEq T] in
theorem Inv.handle {hand : Option (Job P S)} (h : Inv environments configurations hand s) (x : S)
    (e : Subscribe.Event) (hpublisher : ∀ p, hand.bind (forPublisher p) = none)
    (hsubscriber : ∀ y, hand.bind (forSubscriber y) = if y = x then packetOf e else none) :
    Inv environments configurations none (s.handle x e) where
  nodup := h.nodup
  members := h.members
  requests p := by
    have hp := h.requests p
    rw [hpublisher p] at hp
    exact hp
  packets y := by
    have hy := h.packets y
    rw [hsubscriber y] at hy
    simp only [State.handle,Function.update_apply,Option.bind_none,Option.toList_none,
      List.append_nil]
    rw [← hy]
    split
    · rename_i hx
      rw [hx,List.filterMap_append,List.filterMap_cons,List.filterMap_nil]
      cases packetOf e with
      | none => rfl
      | some rtpPacket => rfl
    · rw [Option.toList_none,List.append_nil]
  runs y := by
    simp only [State.handle,Function.update_apply]
    split
    · rename_i hx
      rw [run_snoc,h.runs x,hx]
    · exact h.runs y

omit [DecidableEq T] in
theorem Inv.apply {p : P} {r : Request S}
    (h : Inv environments configurations (some (.request p r)) s) :
    Inv environments configurations none (s.apply p r) where
  nodup q := by
    simp only [State.apply,Function.update_apply]
    split
    · exact nodup_apply (h.nodup p) r
    · exact h.nodup q
  members q x := by
    simp only [State.apply,Function.update_apply]
    split
    · rename_i hq
      rw [hq]
      exact mem_apply_iff (h.nodup p) (h.members p) r x
    · rename_i hq
      rw [registered_other (Ne.symm hq)]
      exact h.members q x
  requests q := by
    have hq := h.requests q
    rw [Option.bind_some,forPublisher] at hq
    simp only [State.apply,met,Option.bind_none,Option.toList_none,List.append_nil]
    split
    · rename_i hp
      rw [if_pos hp] at hq
      exact hq
    · rename_i hp
      rw [if_neg hp,Option.toList_none,List.append_nil] at hq
      exact hq
  packets := h.packets
  runs := h.runs

omit [DecidableEq T] in
theorem Inv.exec {j : Job P S} (h : Inv environments configurations (some j) s)
    (publisher : Option PublishStream) (behind : List Byte) (nowMillis : ℤ) :
    Inv environments configurations none (s.exec publisher behind nowMillis j) := by
  cases j with
  | request p r => exact h.apply
  | receivePublishStreamRtpPacket x rtpPacket =>
      apply h.handle x
      · intro p
        rfl
      · intro y
        rw [Option.bind_some,forSubscriber,packetOf]
        exact if_congr eq_comm rfl rfl

theorem Inv.accept (h : Inv environments configurations none s) (p : P)
    (rtpPacket : ValidPacket) :
    Inv environments configurations none (step s (.onRtpPacketReceive p rtpPacket)) where
  nodup := h.nodup
  members := h.members
  requests q := by
    have hq := h.requests q
    simp only [step]
    rw [waiting_postAll (livesOn_forPublisher q),filterMap_forPublisher,List.append_nil]
    exact hq
  packets x := by
    have hx := h.packets x
    simp only [step,offered]
    rw [waiting_postAll (livesOn_forSubscriber x),filterMap_observers (h.nodup p),
      ← List.append_assoc,hx]
    by_cases hmem : x ∈ s.dataObservers p
    · rw [if_pos hmem,if_pos ((h.members p x).mp hmem)]
    · rw [if_neg hmem,if_neg (fun hr => hmem ((h.members p x).mpr hr)),List.append_nil]
  runs := h.runs

theorem Inv.post (h : Inv environments configurations none s) (p : P) (r : Request S) :
    Inv environments configurations none (step s (.post p r)) where
  nodup := h.nodup
  members := h.members
  requests q := by
    have hq := h.requests q
    simp only [step,Function.update_apply]
    rw [waiting_post (livesOn_forPublisher q),← List.append_assoc,hq,forPublisher]
    by_cases hp : p = q
    · rw [if_pos hp,if_pos hp.symm,hp]
      rfl
    · rw [if_neg hp,if_neg (Ne.symm hp),Option.toList_none,List.append_nil]
  packets x := by
    have hx := h.packets x
    simp only [step]
    rw [waiting_post (livesOn_forSubscriber x),forSubscriber,Option.toList_none,List.append_nil]
    exact hx
  runs := h.runs

theorem Inv.step (h : Inv environments configurations none s) (e : Event T P S) :
    Inv environments configurations none (step s e) := by
  cases e with
  | post p r => exact h.post p r
  | onRtpPacketReceive p rtpPacket => exact h.accept p rtpPacket
  | handle x e =>
      apply h.handle x e.1
      · intro p
        rfl
      · intro y
        rw [e.2,ite_self]
        rfl
  | run t publisher behind nowMillis =>
      simp only [Forwarding.step]
      cases hj : s.mailboxes.next t with
      | none => exact h
      | some j => exact (h.take hj).exec publisher behind nowMillis

omit [DecidableEq T] in
theorem inv_start : Inv environments configurations none
    (start publisherThread subscriberThread environments configurations) where
  nodup _ := List.nodup_nil
  members p x := by
    rw [start,registered]
    simp
  requests _ := rfl
  packets _ := rfl
  runs _ := rfl

end System

/-- In every run and however the threads take turns, each subscribe stream is what its own
handlers make of it. The packets it has handled and those that wait for it are, in this order,
the packets that were accepted while it was registered: none is lost, sent twice, overtaken or
sent to another stream. A publish stream meets the requests in the order in which they were
made, and has no observer twice. -/
theorem forwarded_in_order {T P S : Type} [DecidableEq T] [DecidableEq P] [DecidableEq S]
    (publisherThread : P → T) (subscriberThread : S → T) (environments : S → Environment)
    (configurations : S → BitVec 32 → Option Configuration) (es : List (Event T P S)) :
    let s := run step (start publisherThread subscriberThread environments configurations) es
    (∀ x, s.subscribers x =
        run Subscribe.step (Subscribe.start (environments x) (configurations x)) (s.events x) ∧
      (s.events x).filterMap packetOf++
        s.mailboxes.waiting (forSubscriber x) (subscriberThread x) = offered x s.log) ∧
    ∀ p, (s.dataObservers p).Nodup ∧ (∀ x, x ∈ s.dataObservers p ↔ registered p x s.log) ∧
      met p s.log++s.mailboxes.waiting (forPublisher p) (publisherThread p) = s.asked p := by
  have hstart : Inv environments configurations none
      (start publisherThread subscriberThread environments configurations) := inv_start
  have h := run_invariant hstart (fun s e h => h.step e) es
  constructor
  · intro x
    have hx := h.packets x
    rw [Option.bind_none,Option.toList_none,List.append_nil] at hx
    exact ⟨h.runs x,hx⟩
  · intro p
    have hp := h.requests p
    rw [Option.bind_none,Option.toList_none,List.append_nil] at hp
    exact ⟨h.nodup p,h.members p,hp⟩

end Ylrtc.Forwarding
