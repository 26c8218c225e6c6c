import Ylrtc.Lib.Run
import Ylrtc.Signaling.Room

/-!
# A room and the worker threads of its streams

The calls of the room wait as tasks in the queue of their stream, which the worker thread of
the stream runs in order; a stream that shuts down queues a handler on the main thread, as long
as the room is there. The events are what the main thread and the worker threads do, in any
order. Streams that share a worker thread run their tasks in fewer orders than here, and the two
kinds of handlers stand in one queue.
-/
namespace Ylrtc.Signaling
open CursorParser Run

/-! ### Streams -/

/-- The lambdas that `Stop`, `RegisterDataObserver` and `UnregisterDataObserver` post. -/
inductive Task where
  | stop
  | registerDataObserver (observer : Id)
  | unregisterDataObserver (observer : Id)
  deriving DecidableEq

/-- What a task does to `data_observers_`. -/
def Task.observe (observers : List Id) : Task → List Id
  | .stop => observers
  | .registerDataObserver s => if s ∈ observers then observers else observers++[s]
  | .unregisterDataObserver s => observers.erase s

/-- A stream, with the tasks in its queue. `stopCalled` is only there to speak of the calls of
`Stop`: no function reads it. -/
structure Stream where
  stoped : Bool := false
  dataObservers : List Id := []
  tasks : List Task := []
  stopCalled : Bool := false

namespace Stream

def post (x : Stream) (t : Task) : Stream :=
  { x with tasks := x.tasks++[t], stopCalled := x.stopCalled || t == .stop }

/-- The observers when the tasks in the queue have run. -/
def settled (x : Stream) : List Id := x.tasks.foldl Task.observe x.dataObservers

@[simp] theorem post_stoped (x : Stream) (t : Task) : (x.post t).stoped = x.stoped := rfl
@[simp] theorem post_dataObservers (x : Stream) (t : Task) :
    (x.post t).dataObservers = x.dataObservers := rfl

theorem post_stopCalled (x : Stream) (t : Task) :
    (x.post t).stopCalled = true ↔ x.stopCalled = true ∨ t = .stop := by
  simp only [post,Bool.or_eq_true,beq_iff_eq]

theorem stop_mem_post (x : Stream) (t : Task) :
    .stop ∈ (x.post t).tasks ↔ .stop ∈ x.tasks ∨ t = .stop := by
  simp only [post,List.mem_append,List.mem_singleton,eq_comm]

theorem settled_post (x : Stream) (t : Task) : (x.post t).settled = t.observe x.settled := by
  simp only [settled,post,List.foldl_append,List.foldl_cons,List.foldl_nil]

end Stream

theorem Task.nodup_observe {observers : List Id} (h : observers.Nodup) (t : Task) :
    (t.observe observers).Nodup := by
  cases t with
  | stop => exact h
  | registerDataObserver s =>
      rw [Task.observe]
      split
      · exact h
      · rename_i hs
        exact List.nodup_append.mpr ⟨h,List.nodup_singleton s,by grind⟩
  | unregisterDataObserver s => exact h.sublist List.erase_sublist

theorem Task.mem_observe {observers : List Id} (h : observers.Nodup) (t : Task) (v : Id) :
    v ∈ t.observe observers ↔
      (v ∈ observers ∧ t ≠ .unregisterDataObserver v) ∨ t = .registerDataObserver v := by
  cases t with
  | stop => simp [Task.observe]
  | registerDataObserver s =>
      rw [Task.observe]
      split <;> grind
  | unregisterDataObserver s =>
      rw [Task.observe,h.mem_erase_iff]
      grind

theorem Stream.nodup_settled {x : Stream} (h : x.dataObservers.Nodup) : x.settled.Nodup := by
  rw [Stream.settled]
  generalize x.dataObservers = observers at h
  induction x.tasks generalizing observers with
  | nil => exact h
  | cons t ts ih => exact ih _ (Task.nodup_observe h t)

/-! ### The system -/

structure System where
  room : Room := {}
  streams : Id → Stream := fun _ => {}
  /-- The ids that streams have been given. -/
  used : Finset Id := ∅
  /-- The handlers of `OnWebrtcStreamShutdown` in the queue of the main thread. -/
  handlers : List Id := []
  /-- The handlers of `OnWebrtcStreamConnected` in that queue. -/
  connecting : List Id := []
  /-- The room is destructed: its streams find no observer to lock. -/
  expired : Bool := false

def Call.stream : Call → Id
  | .stop x => x
  | .registerDataObserver x _ => x
  | .unregisterDataObserver x _ => x

def Call.task : Call → Task
  | .stop _ => .stop
  | .registerDataObserver _ s => .registerDataObserver s
  | .unregisterDataObserver _ s => .unregisterDataObserver s

namespace System

def setStream (s : System) (x : Id) (stream : Stream) : System :=
  { s with streams := Function.update s.streams x stream }

def call (s : System) (c : Call) : System := s.setStream c.stream ((s.streams c.stream).post c.task)

/-- The main thread makes a list of calls. -/
def calls (s : System) (cs : List Call) : System := cs.foldl call s

/-- `WebrtcStream::Shutdown` on the worker thread of a stream. -/
def shutdown (s : System) (x : Id) : System :=
  if (s.streams x).stoped then s
  else { s.setStream x { s.streams x with stoped := true } with
    handlers := if s.expired then s.handlers else s.handlers++[x] }

/-- The end of `WebrtcStream::OnDtlsTransportSetup` on the worker thread of a stream. -/
def connected (s : System) (x : Id) : System :=
  if s.expired then s else { s with connecting := s.connecting++[x] }

/-- The worker thread of a stream runs the next task of its queue. -/
def runTask (s : System) (x : Id) : System :=
  match (s.streams x).tasks with
  | [] => s
  | t::ts =>
      let s := if t = .stop then s.shutdown x else s
      s.setStream x { s.streams x with
        tasks := ts
        dataObservers := t.observe (s.streams x).dataObservers }

/-- The main thread runs the next handler of its queue. -/
def runHandler (s : System) : System :=
  match s.handlers with
  | [] => s
  | x::xs =>
      let r := s.room.onWebrtcStreamShutdown x
      { s with room := r.1, handlers := xs }.calls r.2

/-- The main thread runs the next handler of `OnWebrtcStreamConnected`, which only reads the
maps. -/
def runConnected (s : System) : System := { s with connecting := s.connecting.tail }

inductive Event where
  | join (participant : Id)
  | leave (participant : Id)
  | kickoutParticipant (participant : Id)
  | participantPublish (participant stream : Id)
  | participantSubscribe (srcParticipant dstParticipant publish stream : Id)
  | runTask (stream : Id)
  | shutdown (stream : Id)
  | runHandler
  | connected (stream : Id)
  | runConnected

def leave (s : System) (participant : Id) : System :=
  let r := s.room.leave participant
  { s with room := r.1 }.calls r.2

def participantPublish (s : System) (participant stream : Id) : System :=
  if stream ∈ s.used then s
  else match s.room.participantPublish participant stream with
  | some room => { s with room := room, used := insert stream s.used }
  | none => s

def participantSubscribe (s : System) (srcParticipant dstParticipant publish stream : Id) :
    System :=
  if stream ∈ s.used then s
  else match s.room.participantSubscribe srcParticipant dstParticipant publish stream with
  | some r => { s with room := r.1, used := insert stream s.used }.calls r.2
  | none => s

/-- A stream is only given an id that no stream has had, and only streams that there are connect
or shut down. -/
def step (s : System) : Event → System
  | .join p => { s with room := (s.room.join p).1 }
  | .leave p => s.leave p
  | .kickoutParticipant p => s.leave p
  | .participantPublish p x => s.participantPublish p x
  | .participantSubscribe src dst x v => s.participantSubscribe src dst x v
  | .runTask x => s.runTask x
  | .shutdown x => if x ∈ s.used then s.shutdown x else s
  | .runHandler => s.runHandler
  | .connected x => if x ∈ s.used then s.connected x else s
  | .runConnected => s.runConnected

/-! ### What the calls do to the streams -/

@[simp] theorem calls_nil (s : System) : s.calls [] = s := rfl

@[simp] theorem calls_cons (s : System) (c : Call) (cs : List Call) :
    s.calls (c::cs) = (s.call c).calls cs := rfl

@[simp] theorem setStream_room (s : System) (x : Id) (stream : Stream) :
    (s.setStream x stream).room = s.room := rfl
@[simp] theorem setStream_used (s : System) (x : Id) (stream : Stream) :
    (s.setStream x stream).used = s.used := rfl
@[simp] theorem setStream_handlers (s : System) (x : Id) (stream : Stream) :
    (s.setStream x stream).handlers = s.handlers := rfl
@[simp] theorem setStream_connecting (s : System) (x : Id) (stream : Stream) :
    (s.setStream x stream).connecting = s.connecting := rfl
@[simp] theorem setStream_expired (s : System) (x : Id) (stream : Stream) :
    (s.setStream x stream).expired = s.expired := rfl

theorem setStream_streams (s : System) (x y : Id) (stream : Stream) :
    (s.setStream x stream).streams y = if y = x then stream else s.streams y := by
  by_cases hy : y = x
  · subst hy
    exact (Function.update_self y stream s.streams).trans (if_pos rfl).symm
  · exact (Function.update_of_ne hy stream s.streams).trans (if_neg hy).symm

theorem call_stream (s : System) (c : Call) (x : Id) :
    (s.call c).streams x =
      if x = c.stream then (s.streams x).post c.task else s.streams x := by
  rw [call,setStream_streams]
  split
  · rename_i hx
    rw [hx]
  · rfl

theorem calls_room (s : System) (cs : List Call) : (s.calls cs).room = s.room := by
  induction cs generalizing s with
  | nil => rfl
  | cons c cs ih => exact ih (s.call c)

theorem calls_handlers (s : System) (cs : List Call) : (s.calls cs).handlers = s.handlers := by
  induction cs generalizing s with
  | nil => rfl
  | cons c cs ih => exact ih (s.call c)

theorem calls_connecting (s : System) (cs : List Call) :
    (s.calls cs).connecting = s.connecting := by
  induction cs generalizing s with
  | nil => rfl
  | cons c cs ih => exact ih (s.call c)

theorem calls_expired (s : System) (cs : List Call) : (s.calls cs).expired = s.expired := by
  induction cs generalizing s with
  | nil => rfl
  | cons c cs ih => exact ih (s.call c)

theorem calls_used (s : System) (cs : List Call) : (s.calls cs).used = s.used := by
  induction cs generalizing s with
  | nil => rfl
  | cons c cs ih => exact ih (s.call c)

theorem calls_stoped (s : System) (cs : List Call) (x : Id) :
    ((s.calls cs).streams x).stoped = (s.streams x).stoped := by
  induction cs generalizing s with
  | nil => rfl
  | cons c cs ih =>
      rw [calls_cons,ih,call_stream]
      split <;> rfl

theorem calls_dataObservers (s : System) (cs : List Call) (x : Id) :
    ((s.calls cs).streams x).dataObservers = (s.streams x).dataObservers := by
  induction cs generalizing s with
  | nil => rfl
  | cons c cs ih =>
      rw [calls_cons,ih,call_stream]
      split <;> rfl

theorem stop_iff (c : Call) (x : Id) : (x = c.stream ∧ c.task = .stop) ↔ c = .stop x := by
  cases c <;> simp [Call.stream,Call.task,eq_comm]

theorem calls_stopCalled (s : System) (cs : List Call) (x : Id) :
    ((s.calls cs).streams x).stopCalled = true ↔
      (s.streams x).stopCalled = true ∨ .stop x ∈ cs := by
  induction cs generalizing s with
  | nil => simp
  | cons c cs ih =>
      rw [calls_cons,ih,call_stream,List.mem_cons,← or_assoc]
      refine or_congr_left ?_
      have hstop := stop_iff c x
      by_cases hx : x = c.stream
      · rw [if_pos hx,Stream.post_stopCalled]
        grind
      · rw [if_neg hx]
        grind

theorem stop_mem_calls (s : System) (cs : List Call) (x : Id) :
    .stop ∈ ((s.calls cs).streams x).tasks ↔
      .stop ∈ (s.streams x).tasks ∨ .stop x ∈ cs := by
  induction cs generalizing s with
  | nil => simp
  | cons c cs ih =>
      rw [calls_cons,ih,call_stream,List.mem_cons,← or_assoc]
      refine or_congr_left ?_
      have hstop := stop_iff c x
      by_cases hx : x = c.stream
      · rw [if_pos hx,Stream.stop_mem_post]
        grind
      · rw [if_neg hx]
        grind

theorem mem_settled_call {s : System} {x : Id} (h : (s.streams x).dataObservers.Nodup)
    (c : Call) (v : Id) : v ∈ ((s.call c).streams x).settled ↔
      (v ∈ (s.streams x).settled ∧ c ≠ .unregisterDataObserver x v) ∨
        c = .registerDataObserver x v := by
  rw [call_stream]
  by_cases hx : x = c.stream
  · rw [if_pos hx,Stream.settled_post,Task.mem_observe (Stream.nodup_settled h)]
    cases c <;> simp_all [Call.stream,Call.task]
  · rw [if_neg hx]
    cases c <;> simp_all [Call.stream,eq_comm]

/-- Where nothing is registered, the order of the calls does not matter. -/
theorem mem_settled_calls {s : System} {x : Id} (h : (s.streams x).dataObservers.Nodup)
    {cs : List Call} (hcs : ∀ y v, .registerDataObserver y v ∉ cs) (v : Id) :
    v ∈ ((s.calls cs).streams x).settled ↔
      v ∈ (s.streams x).settled ∧ .unregisterDataObserver x v ∉ cs := by
  induction cs generalizing s with
  | nil => simp
  | cons c cs ih =>
      have hnodup : ((s.call c).streams x).dataObservers.Nodup := by
        have hsame := calls_dataObservers s [c] x
        rw [calls_cons,calls_nil] at hsame
        rw [hsame]
        exact h
      have hc : c ≠ .registerDataObserver x v :=
        fun hc => hcs x v (hc ▸ List.mem_cons_self)
      rw [calls_cons,ih hnodup fun y w hw => hcs y w (List.mem_cons_of_mem _ hw),
        mem_settled_call h,List.mem_cons]
      grind

/-! ### What a shutdown does -/

theorem shutdown_room (s : System) (x : Id) : (s.shutdown x).room = s.room := by
  rw [shutdown]
  split <;> rfl

theorem shutdown_used (s : System) (x : Id) : (s.shutdown x).used = s.used := by
  rw [shutdown]
  split <;> rfl

theorem shutdown_connecting (s : System) (x : Id) :
    (s.shutdown x).connecting = s.connecting := by
  rw [shutdown]
  split <;> rfl

theorem shutdown_expired (s : System) (x : Id) : (s.shutdown x).expired = s.expired := by
  rw [shutdown]
  split <;> rfl

theorem shutdown_stoped (s : System) (x y : Id) :
    ((s.shutdown x).streams y).stoped = true ↔ (s.streams y).stoped = true ∨ y = x := by
  rw [shutdown]
  split
  · grind
  · simp only [setStream_streams]
    split <;> grind

theorem shutdown_stream (s : System) (x y : Id) :
    (s.shutdown x).streams y = { s.streams y with stoped := ((s.shutdown x).streams y).stoped } := by
  rw [shutdown]
  split
  · rfl
  · simp only [setStream_streams]
    split
    · rename_i hy
      rw [hy]
    · rfl

theorem mem_shutdown_handlers {s : System} (h : s.expired = false) (x y : Id) :
    y ∈ (s.shutdown x).handlers ↔
      y ∈ s.handlers ∨ y = x ∧ (s.streams x).stoped = false := by
  rw [shutdown,h]
  split
  · grind
  · simp only [Bool.false_eq_true,if_false,List.mem_append,List.mem_singleton]
    grind

/-- A room that is not there is told nothing. -/
theorem shutdown_handlers_expired {s : System} (h : s.expired = true) (x : Id) :
    (s.shutdown x).handlers = s.handlers := by
  rw [shutdown,h]
  split <;> rfl

theorem connected_eq {s : System} (h : s.expired = false) (x : Id) :
    s.connected x = { s with connecting := s.connecting++[x] } := by
  rw [connected,h]
  rfl

end System
end Ylrtc.Signaling
