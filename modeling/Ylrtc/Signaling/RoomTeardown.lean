import Mathlib.Algebra.BigOperators.Group.Finset.Basic
import Mathlib.Algebra.Order.BigOperators.Group.Finset
import Ylrtc.Lib.Drain
import Ylrtc.Signaling.RoomInvariant

/-!
# How a room is torn down

`Room::Destroy` of `signaling/room.cpp` posts a stop to every stream and forgets nothing. From
then on only the handlers that are pending hold the room: the streams that shut down meanwhile
are taken out of the maps, and with the last handler the room and its maps go. Whatever the
order in which tasks and handlers run, they come to an end, and then nothing is left.
-/
namespace Ylrtc.Signaling
open CursorParser Run

namespace Room

/-- `Destroy`. -/
def destroy (r : Room) : List Call :=
  (r.participantPublishsMap.entries.flatMap fun e => e.2.map .stop) ++
    (r.participantSubscribesMap.entries.flatMap fun e => e.2.map .stop)

theorem mem_destroy {r : Room} {c : Call} : c ∈ r.destroy ↔ ∃ p x, r.Owns p x ∧ c = .stop x := by
  simp only [destroy,List.mem_append,List.mem_flatMap,List.mem_map,Owns,Publishes,Subscribes,
    SetMap.Under]
  constructor
  · rintro (⟨e,he,x,hx,rfl⟩ | ⟨e,he,x,hx,rfl⟩)
    · exact ⟨e.1,x,.inl ⟨e.2,he,hx⟩,rfl⟩
    · exact ⟨e.1,x,.inr ⟨e.2,he,hx⟩,rfl⟩
  · rintro ⟨p,x,⟨vs,he,hx⟩ | ⟨vs,he,hx⟩,rfl⟩
    · exact .inl ⟨(p,vs),he,x,hx,rfl⟩
    · exact .inr ⟨(p,vs),he,x,hx,rfl⟩

end Room

namespace System

/-- The main thread destroys the room. -/
def destroy (s : System) : System := s.calls s.room.destroy

theorem Inv.destroy {s : System} (h : Inv s) : Inv s.destroy := by
  have hstops : ∀ c ∈ s.room.destroy, ∃ x, c = .stop x := by
    intro c hc
    obtain ⟨p,x,_,hx⟩ := Room.mem_destroy.mp hc
    exact ⟨x,hx⟩
  show Inv ({ s with room := s.room, handlers := s.handlers }.calls s.room.destroy)
  refine h.calls h.consistent ?_ (fun _ _ => id) (fun p v hs hno => .inl ⟨hs,hno⟩)
    (fun x => .inl) (fun p x _ hp => .inl hp) ?_ ?_
  · intro x v hc
    obtain ⟨y,hy⟩ := hstops _ hc
    exact absurd hy (by simp)
  · intro x v
    have hno : .unregisterDataObserver x v ∉ s.room.destroy := by
      intro hc
      obtain ⟨y,hy⟩ := hstops _ hc
      exact absurd hy (by simp)
    exact ⟨fun hf => ⟨hf,hno⟩,And.left⟩
  · intro x hc
    obtain ⟨p,y,hy,hxy⟩ := Room.mem_destroy.mp hc
    rw [Call.stop.injEq] at hxy
    exact hxy ▸ h.owned_used p y hy

/-! ### No stream is lost -/

theorem calls_tasks {s : System} {cs : List Call} {x : Id}
    (h : ((s.calls cs).streams x).tasks ≠ []) :
    (s.streams x).tasks ≠ [] ∨ ∃ c ∈ cs, c.stream = x := by
  induction cs generalizing s with
  | nil => exact .inl h
  | cons c cs ih =>
      rw [calls_cons] at h
      rcases ih h with htasks | ⟨c',hc',hx⟩
      · rw [call_stream] at htasks
        by_cases hx : x = c.stream
        · exact .inr ⟨c,List.mem_cons_self,hx.symm⟩
        · rw [if_neg hx] at htasks
          exact .inl htasks
      · exact .inr ⟨c',List.mem_cons_of_mem c hc',hx⟩

/-- A stream has shut down or stands in a map, and what is pending is that of streams that
there are. -/
structure Tracked (s : System) : Prop where
  inv : Inv s
  handled : ∀ x ∈ s.handlers, (s.streams x).stoped = true
  alive : ∀ x ∈ s.used, (s.streams x).stoped = true ∨ ∃ p, s.room.Owns p x
  posted : ∀ x, (s.streams x).tasks ≠ [] → x ∈ s.used

theorem tracked_start (id : Id) : Tracked { room := { id := id } } where
  inv := inv_start id
  handled _ hx := absurd hx List.not_mem_nil
  alive x hx := absurd hx (Finset.notMem_empty x)
  posted _ hx := absurd rfl hx

/-- The room changes and makes calls. -/
theorem Tracked.calls {s : System} (h : Tracked s) {room : Room} {handlers : List Id}
    {cs : List Call} (hinv : Inv ({ s with room := room, handlers := handlers }.calls cs))
    (hhandlers : ∀ x ∈ handlers, x ∈ s.handlers)
    (howns : ∀ p x, s.room.Owns p x → (∃ q, room.Owns q x) ∨ (s.streams x).stoped = true)
    (hcs : ∀ c ∈ cs, c.stream ∈ s.used) :
    Tracked ({ s with room := room, handlers := handlers }.calls cs) where
  inv := hinv
  handled := by
    intro x hx
    rw [calls_handlers] at hx
    rw [calls_stoped]
    exact h.handled x (hhandlers x hx)
  alive := by
    intro x hx
    rw [calls_used] at hx
    rw [calls_stoped,calls_room]
    rcases h.alive x hx with hs | ⟨p,hp⟩
    · exact .inl hs
    · exact (howns p x hp).symm
  posted := by
    intro x hx
    rw [calls_used]
    rcases calls_tasks hx with ht | ⟨c,hc,rfl⟩
    · exact h.posted x ht
    · exact hcs c hc

theorem Tracked.destroy {s : System} (h : Tracked s) : Tracked s.destroy := by
  show Tracked ({ s with room := s.room, handlers := s.handlers }.calls s.room.destroy)
  refine h.calls h.inv.destroy (fun x hx => hx) (fun p x hp => .inl ⟨p,hp⟩) ?_
  intro c hc
  obtain ⟨p,x,hx,rfl⟩ := Room.mem_destroy.mp hc
  exact h.inv.owned_used p x hx

theorem Tracked.leave {s : System} (h : Tracked s) (p : Id) : Tracked (s.leave p) := by
  refine h.calls (h.inv.leave p) (fun x hx => hx) (fun q x hq => .inl ⟨q,hq⟩) ?_
  intro c hc
  obtain ⟨x,rfl⟩ := Room.leave_stops s.room p hc
  exact h.inv.owned_used p x ((Room.stop_mem_leave s.room p x).mp hc)

/-- The handler of a stream takes that stream out of the maps, which has shut down. -/
theorem Tracked.runHandler {s : System} (h : Tracked s) : Tracked s.runHandler := by
  have hinv := h.inv.runHandler
  rw [System.runHandler] at hinv ⊢
  split
  · exact h
  rename_i z zs hz
  rw [hz] at hinv
  have hfed (x v : Id) (hf : s.room.Feeds x v) : x ∈ s.used ∧ v ∈ s.used := by
    obtain ⟨p,hp⟩ := h.inv.consistent.key x hf.hasKey
    obtain ⟨q,hq⟩ := h.inv.consistent.value x v hf
    exact ⟨h.inv.owned_used p x (.inl hp),h.inv.owned_used q v (.inr hq)⟩
  refine h.calls hinv (fun x hx => hz ▸ List.mem_cons_of_mem z hx) ?_ ?_
  · intro p x hp
    by_cases hxz : x = z
    · refine .inr (h.handled x ?_)
      rw [hz,hxz]
      exact List.mem_cons_self
    · refine .inl ⟨p,?_⟩
      rcases hp with hp | hp
      · exact .inl (Room.publishes_shutdown.mpr ⟨hp,hxz⟩)
      · exact .inr (Room.subscribes_shutdown.mpr ⟨hp,hxz⟩)
  · intro c hc
    cases c with
    | stop v => exact (hfed z v ((Room.stop_mem_shutdown h.inv.consistent).mp hc)).2
    | registerDataObserver x v => exact absurd hc (Room.register_not_mem_shutdown s.room z x v)
    | unregisterDataObserver x v =>
        exact (hfed x v ((Room.unregister_mem_shutdown h.inv.consistent).mp hc).1).1

theorem Tracked.join {s : System} (h : Tracked s) (p : Id) :
    Tracked { s with room := (s.room.join p).1 } where
  inv := h.inv.join p
  handled := h.handled
  alive := by
    rw [Room.join_maps]
    exact h.alive
  posted := h.posted

theorem Tracked.publish {s : System} (h : Tracked s) (p x : Id) :
    Tracked (s.participantPublish p x) := by
  have hinv : Inv (s.participantPublish p x) := h.inv.publish
  rw [participantPublish] at hinv ⊢
  split
  · exact h
  rename_i hfresh
  rw [if_neg hfresh] at hinv
  rw [Room.participantPublish] at hinv ⊢
  by_cases hp : p ∈ s.room.participantIdSet
  · rw [if_pos hp] at hinv ⊢
    constructor
    case inv => exact hinv
    case handled => exact h.handled
    case alive =>
      intro y hy
      rcases Finset.mem_insert.mp hy with rfl | hy
      · exact .inr ⟨p,.inl (SetMap.under_insert.mpr (.inr ⟨rfl,rfl⟩))⟩
      · rcases h.alive y hy with hs | ⟨q,hq | hq⟩
        · exact .inl hs
        · exact .inr ⟨q,.inl (SetMap.under_insert.mpr (.inl hq))⟩
        · exact .inr ⟨q,.inr hq⟩
    case posted => exact fun y hy => Finset.mem_insert_of_mem (h.posted y hy)
  · rw [if_neg hp]
    exact h

theorem Tracked.subscribe {s : System} (h : Tracked s) (src dst x v : Id) :
    Tracked (s.participantSubscribe src dst x v) := by
  have hinv : Inv (s.participantSubscribe src dst x v) := h.inv.subscribe
  rw [participantSubscribe] at hinv ⊢
  split
  · exact h
  rename_i hfresh
  rw [if_neg hfresh] at hinv
  rw [Room.participantSubscribe] at hinv ⊢
  by_cases hp : src ∈ s.room.participantIdSet ∧ dst ∈ s.room.participantIdSet ∧
      x ∈ s.room.participantPublishsMap.valuesOf dst
  · rw [if_pos hp] at hinv ⊢
    constructor
    case inv => exact hinv
    case handled =>
      intro y hy
      rw [calls_handlers] at hy
      rw [calls_stoped]
      exact h.handled y hy
    case alive =>
      intro y hy
      rw [calls_used] at hy
      rw [calls_stoped,calls_room]
      rcases Finset.mem_insert.mp hy with rfl | hy
      · exact .inr ⟨src,.inr (SetMap.under_insert.mpr (.inr ⟨rfl,rfl⟩))⟩
      · rcases h.alive y hy with hs | ⟨q,hq | hq⟩
        · exact .inl hs
        · exact .inr ⟨q,.inl hq⟩
        · exact .inr ⟨q,.inr (SetMap.under_insert.mpr (.inl hq))⟩
    case posted =>
      intro y hy
      rw [calls_used]
      rcases calls_tasks hy with ht | ⟨c,hc,rfl⟩
      · exact Finset.mem_insert_of_mem (h.posted y ht)
      · rw [List.mem_singleton.mp hc]
        exact Finset.mem_insert_of_mem
          (h.inv.owned_used dst x (.inl (SetMap.mem_valuesOf.mp hp.2.2)))
  · rw [if_neg hp]
    exact h

theorem Tracked.shutdown {s : System} (h : Tracked s) {x : Id} (hx : x ∈ s.used) :
    Tracked (s.shutdown x) where
  inv := h.inv.shutdown hx
  handled := by
    intro y hy
    rw [mem_shutdown_handlers h.inv.present] at hy
    rw [shutdown_stoped]
    rcases hy with hy | ⟨rfl,_⟩
    · exact .inl (h.handled y hy)
    · exact .inr rfl
  alive := by
    intro y hy
    rw [shutdown_used] at hy
    rw [shutdown_stoped,shutdown_room]
    rcases h.alive y hy with hs | hq
    · exact .inl (.inl hs)
    · exact .inr hq
  posted := by
    intro y hy
    rw [shutdown_stream] at hy
    rw [shutdown_used]
    exact h.posted y hy

theorem Tracked.pop {s : System} (h : Tracked s) {x : Id} {t : Task} {ts : List Task}
    (ht : (s.streams x).tasks = t::ts) (hstop : t = .stop → (s.streams x).stoped = true) :
    Tracked (s.setStream x { s.streams x with
      tasks := ts, dataObservers := t.observe (s.streams x).dataObservers }) := by
  have hflags (y : Id) := setStream_flags s x y ts (t.observe (s.streams x).dataObservers)
  constructor
  case inv => exact h.inv.pop ht hstop
  case handled =>
    intro y hy
    rw [(hflags y).2]
    exact h.handled y hy
  case alive =>
    intro y hy
    rw [(hflags y).2]
    exact h.alive y hy
  case posted =>
    intro y hy
    rw [setStream_streams] at hy
    by_cases hyx : y = x
    · subst hyx
      refine h.posted y ?_
      rw [ht]
      exact List.cons_ne_nil t ts
    · rw [if_neg hyx] at hy
      exact h.posted y hy

theorem Tracked.runTask {s : System} (h : Tracked s) (x : Id) : Tracked (s.runTask x) := by
  rw [System.runTask]
  split
  · exact h
  rename_i t ts ht
  by_cases hstop : t = .stop
  · have hx : x ∈ s.used := by
      refine h.posted x ?_
      rw [ht]
      exact List.cons_ne_nil t ts
    rw [if_pos hstop]
    refine (h.shutdown hx).pop ?_ fun _ => (shutdown_stoped s x x).mpr (.inr rfl)
    rw [shutdown_stream]
    exact ht
  · rw [if_neg hstop]
    exact h.pop ht fun hs => absurd hs hstop

theorem Tracked.connecting {s : System} (h : Tracked s) (connecting : List Id) :
    Tracked { s with connecting := connecting } :=
  ⟨h.inv.connecting connecting,h.handled,h.alive,h.posted⟩

theorem Tracked.step {s : System} (h : Tracked s) (e : Event) : Tracked (s.step e) := by
  cases e with
  | join p => exact h.join p
  | leave p => exact h.leave p
  | kickoutParticipant p => exact h.leave p
  | participantPublish p x => exact h.publish p x
  | participantSubscribe src dst x v => exact h.subscribe src dst x v
  | runTask x => exact h.runTask x
  | shutdown x =>
      rw [System.step]
      split
      · rename_i hx
        exact h.shutdown hx
      · exact h
  | runHandler => exact h.runHandler
  | connected x =>
      rw [System.step]
      split
      · rw [connected_eq h.inv.present]
        exact h.connecting _
      · exact h
  | runConnected => exact h.connecting _

/-! ### Everything pending comes to an end -/

/-- A thread runs something that is pending. -/
def Busy (s : System) : Event → Prop
  | .runTask x => (s.streams x).tasks ≠ []
  | .runHandler => s.handlers ≠ []
  | .runConnected => s.connecting ≠ []
  | _ => False

/-- The handlers that have still to run, those of running streams included. -/
def toHandle (s : System) : ℕ :=
  (s.used.filter fun x => (s.streams x).stoped = false).card+s.handlers.length+s.connecting.length

def pendingTasks (s : System) : ℕ := ∑ x ∈ s.used, (s.streams x).tasks.length

theorem toHandle_calls (s : System) (room : Room) (handlers : List Id) (cs : List Call) :
    ({ s with room := room, handlers := handlers }.calls cs).toHandle =
      (s.used.filter fun x => (s.streams x).stoped = false).card+handlers.length+
        s.connecting.length := by
  rw [toHandle,calls_used,calls_handlers,calls_connecting]
  simp only [calls_stoped]

theorem toHandle_runHandler {s : System} (h : s.handlers ≠ []) :
    s.runHandler.toHandle < s.toHandle := by
  rw [System.runHandler]
  split
  · rename_i hnil
    exact absurd hnil h
  · rename_i z zs hz
    rw [toHandle_calls,toHandle,hz,List.length_cons]
    omega

theorem toHandle_runConnected {s : System} (h : s.connecting ≠ []) :
    s.runConnected.toHandle < s.toHandle := by
  have hpos := List.length_pos_iff.mpr h
  have hrun : s.runConnected.toHandle = (s.used.filter fun x =>
      (s.streams x).stoped = false).card+s.handlers.length+s.connecting.tail.length := rfl
  rw [hrun,toHandle,List.length_tail]
  omega

/-- A stream that shuts down brings the handler that was to come, or none. -/
theorem toHandle_shutdown {s : System} {x : Id} (hx : x ∈ s.used) :
    (s.shutdown x).toHandle ≤ s.toHandle := by
  rw [shutdown]
  split
  · exact Nat.le_refl _
  · rename_i hrunning
    have hfilter : (s.used.filter fun y => ((s.setStream x
        { s.streams x with stoped := true }).streams y).stoped = false) =
        (s.used.filter fun y => (s.streams y).stoped = false).erase x := by
      ext y
      simp only [Finset.mem_filter,Finset.mem_erase,setStream_streams]
      by_cases hyx : y = x
      · rw [if_pos hyx]
        simp [hyx]
      · rw [if_neg hyx]
        simp [hyx]
    have hmem : x ∈ s.used.filter fun y => (s.streams y).stoped = false :=
      Finset.mem_filter.mpr ⟨hx,Bool.eq_false_iff.mpr hrunning⟩
    have hcard := Finset.card_erase_add_one hmem
    simp only [toHandle,setStream_used,setStream_connecting,hfilter]
    split
    · omega
    · rw [List.length_append,List.length_singleton]
      omega

theorem toHandle_pop {s : System} (x : Id) (tasks : List Task) (dataObservers : List Id) :
    (s.setStream x { s.streams x with
      tasks := tasks, dataObservers := dataObservers }).toHandle = s.toHandle := by
  simp only [toHandle,setStream_used,setStream_handlers,setStream_connecting,setStream_flags]

theorem pendingTasks_pop {s : System} {x : Id} {t : Task} {ts : List Task} (hx : x ∈ s.used)
    (ht : (s.streams x).tasks = t::ts) (dataObservers : List Id) :
    (s.setStream x { s.streams x with
      tasks := ts, dataObservers := dataObservers }).pendingTasks < s.pendingTasks := by
  rw [pendingTasks,setStream_used,pendingTasks]
  apply Finset.sum_lt_sum
  · intro y _
    rw [setStream_streams]
    split
    · rename_i hyx
      rw [hyx,ht,List.length_cons]
      exact Nat.le_succ _
    · exact Nat.le_refl _
  · refine ⟨x,hx,?_⟩
    rw [setStream_streams,if_pos rfl,ht,List.length_cons]
    exact Nat.lt_succ_self _

theorem work_runTask {s : System} {x : Id} (hx : x ∈ s.used) (h : (s.streams x).tasks ≠ []) :
    (s.runTask x).toHandle ≤ s.toHandle ∧ (s.runTask x).pendingTasks < s.pendingTasks := by
  rw [System.runTask]
  split
  · rename_i hnil
    exact absurd hnil h
  rename_i t ts ht
  by_cases hstop : t = .stop
  · have hused : x ∈ (s.shutdown x).used := by
      rw [shutdown_used]
      exact hx
    have htasks : ((s.shutdown x).streams x).tasks = t::ts := by
      rw [shutdown_stream]
      exact ht
    have hpending : (s.shutdown x).pendingTasks = s.pendingTasks := by
      rw [pendingTasks,shutdown_used,pendingTasks]
      refine Finset.sum_congr rfl fun y _ => ?_
      rw [shutdown_stream]
    rw [if_pos hstop,toHandle_pop,← hpending]
    exact ⟨toHandle_shutdown hx,pendingTasks_pop hused htasks _⟩
  · rw [if_neg hstop,toHandle_pop]
    exact ⟨Nat.le_refl _,pendingTasks_pop hx ht _⟩

/-! ### After the destruction -/

/-- What goes on without the room being called. -/
def isBackground : Event → Bool
  | .runTask _ | .shutdown _ | .runHandler | .connected _ | .runConnected => true
  | _ => false

/-- All streams of the room were told to stop. -/
structure Doomed (s : System) : Prop extends Tracked s where
  told : ∀ p x, s.room.Owns p x → (s.streams x).stopCalled = true

theorem doomed_destroy {s : System} (h : Tracked s) : Doomed s.destroy where
  toTracked := h.destroy
  told := by
    intro p x hx
    rw [System.destroy,calls_room] at hx
    rw [System.destroy,calls_stopCalled]
    exact .inr (Room.mem_destroy.mpr ⟨p,x,hx,rfl⟩)

theorem runHandler_stopCalled {s : System} {x : Id} (h : (s.streams x).stopCalled = true) :
    (s.runHandler.streams x).stopCalled = true := by
  rw [System.runHandler]
  split
  · exact h
  · rw [calls_stopCalled]
    exact .inl h

theorem runHandler_owns {s : System} {p x : Id} (h : s.runHandler.room.Owns p x) :
    s.room.Owns p x := by
  rw [System.runHandler] at h
  split at h
  · exact h
  · rw [calls_room] at h
    rcases h with h | h
    · exact .inl (Room.publishes_shutdown.mp h).1
    · exact .inr (Room.subscribes_shutdown.mp h).1

theorem runTask_room (s : System) (x : Id) : (s.runTask x).room = s.room := by
  rw [System.runTask]
  split
  · rfl
  · rw [setStream_room]
    split
    · exact shutdown_room s x
    · rfl

theorem runTask_stopCalled (s : System) (x y : Id) :
    ((s.runTask x).streams y).stopCalled = (s.streams y).stopCalled := by
  rw [System.runTask]
  split
  · rfl
  · rename_i t ts _
    rw [(setStream_flags _ x y ts _).1]
    split
    · rw [shutdown_stream]
    · rfl

theorem Doomed.step {s : System} (h : Doomed s) {e : Event} (he : isBackground e = true) :
    Doomed (s.step e) where
  toTracked := h.toTracked.step e
  told := by
    intro p x hx
    cases e with
    | runTask y =>
        rw [System.step,runTask_room] at hx
        rw [System.step,runTask_stopCalled]
        exact h.told p x hx
    | shutdown y =>
        rw [System.step] at hx ⊢
        split at hx
        · rename_i hy
          rw [shutdown_room] at hx
          rw [if_pos hy,shutdown_stream]
          exact h.told p x hx
        · rename_i hy
          rw [if_neg hy]
          exact h.told p x hx
    | runHandler => exact runHandler_stopCalled (h.told p x (runHandler_owns hx))
    | connected y =>
        rw [System.step] at hx ⊢
        split at hx
        · rename_i hy
          rw [connected_eq h.inv.present] at hx ⊢
          rw [if_pos hy]
          exact h.told p x hx
        · rename_i hy
          rw [if_neg hy]
          exact h.told p x hx
    | runConnected => exact h.told p x hx
    | join _ | leave _ | kickoutParticipant _ | participantPublish _ _
    | participantSubscribe _ _ _ _ => exact absurd he Bool.false_ne_true

/-! ### After the destructor -/

/-- `~Room`. -/
def expire (s : System) : System := { s with room := { id := s.room.id }, expired := true }

/-- Nothing but its handlers holds the room. -/
def release (s : System) : System :=
  if s.handlers = [] ∧ s.connecting = [] then s.expire else s

/-- The room is destructed, and each of its streams has shut down or will. -/
structure Gone (s : System) : Prop where
  expired : s.expired = true
  room : s.room = { id := s.room.id }
  handlers : s.handlers = []
  connecting : s.connecting = []
  told : ∀ x ∈ s.used, (s.streams x).stoped = true ∨ .stop ∈ (s.streams x).tasks
  posted : ∀ x, (s.streams x).tasks ≠ [] → x ∈ s.used

/-- A room that only its handlers held goes with the last of them. -/
theorem Doomed.expire {s : System} (h : Doomed s) (hhandlers : s.handlers = [])
    (hconnecting : s.connecting = []) : Gone s.expire where
  expired := rfl
  room := rfl
  handlers := hhandlers
  connecting := hconnecting
  told := by
    intro x hx
    rcases h.alive x hx with hs | ⟨p,hp⟩
    · exact .inl hs
    · exact (h.inv.called x (h.told p x hp)).symm
  posted := h.posted

theorem Gone.expire {s : System} (h : Gone s) : Gone s.expire :=
  ⟨rfl,rfl,h.handlers,h.connecting,h.told,h.posted⟩

/-- A room out of reach: a handler is to run in it, or it is gone. -/
def Leaving (s : System) : Prop := Doomed s ∧ (s.handlers ≠ [] ∨ s.connecting ≠ []) ∨ Gone s

theorem leaving_release {s : System} (h : Doomed s ∨ Gone s) : Leaving s.release := by
  rw [release]
  split
  case isTrue hnone =>
    cases h with
    | inl hdoomed => exact .inr (hdoomed.expire hnone.1 hnone.2)
    | inr hgone => exact .inr hgone.expire
  case isFalse hsome =>
    cases h with
    | inl hdoomed => exact .inl ⟨hdoomed,Decidable.not_and_iff_not_or_not.mp hsome⟩
    | inr hgone => exact .inr hgone

theorem Gone.shutdown {s : System} (h : Gone s) (x : Id) : Gone (s.shutdown x) where
  expired := (shutdown_expired s x).trans h.expired
  room := by
    rw [shutdown_room]
    exact h.room
  handlers := (shutdown_handlers_expired h.expired x).trans h.handlers
  connecting := (shutdown_connecting s x).trans h.connecting
  told := by
    intro y hy
    rw [shutdown_used] at hy
    rw [shutdown_stoped,shutdown_stream]
    exact (h.told y hy).imp_left .inl
  posted := by
    intro y hy
    rw [shutdown_stream] at hy
    rw [shutdown_used]
    exact h.posted y hy

/-- A task leaves the queue, and has been run: a stop has stopped its stream. -/
theorem Gone.pop {s : System} (h : Gone s) {x : Id} {t : Task} {ts : List Task}
    (ht : (s.streams x).tasks = t::ts) (hstop : t = .stop → (s.streams x).stoped = true) :
    Gone (s.setStream x { s.streams x with
      tasks := ts, dataObservers := t.observe (s.streams x).dataObservers }) where
  expired := h.expired
  room := h.room
  handlers := h.handlers
  connecting := h.connecting
  told := by
    intro y hy
    rw [(setStream_flags s x y ts _).2,setStream_streams]
    by_cases hyx : y = x
    · subst hyx
      rw [if_pos rfl]
      rcases h.told y hy with hs | hs
      · exact .inl hs
      · rw [ht,List.mem_cons] at hs
        exact hs.imp_left fun heq => hstop heq.symm
    · rw [if_neg hyx]
      exact h.told y hy
  posted := by
    intro y hy
    rw [setStream_streams] at hy
    by_cases hyx : y = x
    · subst hyx
      refine h.posted y ?_
      rw [ht]
      exact List.cons_ne_nil t ts
    · rw [if_neg hyx] at hy
      exact h.posted y hy

theorem Gone.runTask {s : System} (h : Gone s) (x : Id) : Gone (s.runTask x) := by
  rw [System.runTask]
  split
  · exact h
  rename_i t ts ht
  by_cases hstop : t = .stop
  · rw [if_pos hstop]
    refine (h.shutdown x).pop ?_ fun _ => (shutdown_stoped s x x).mpr (.inr rfl)
    rw [shutdown_stream]
    exact ht
  · rw [if_neg hstop]
    exact h.pop ht fun hs => absurd hs hstop

theorem Gone.step {s : System} (h : Gone s) {e : Event} (he : isBackground e = true) :
    Gone (s.step e) := by
  cases e with
  | runTask x => exact h.runTask x
  | shutdown x =>
      rw [System.step]
      split
      · exact h.shutdown x
      · exact h
  | runHandler =>
      rw [System.step,System.runHandler,h.handlers]
      exact h
  | connected x =>
      rw [System.step,connected,h.expired,if_pos rfl,ite_self]
      exact h
  | runConnected =>
      refine ⟨h.expired,h.room,h.handlers,?_,h.told,h.posted⟩
      simp only [System.step,runConnected,h.connecting,List.tail_nil]
  | join _ | leave _ | kickoutParticipant _ | participantPublish _ _
  | participantSubscribe _ _ _ _ => exact absurd he Bool.false_ne_true

/-- What goes on in a room out of reach. -/
theorem Leaving.step {s : System} (h : Leaving s) {e : Event} (he : isBackground e = true) :
    Leaving (s.step e).release := by
  apply leaving_release
  cases h with
  | inl hdoomed => exact .inl (hdoomed.1.step he)
  | inr hgone => exact .inr (hgone.step he)

theorem Leaving.posted {s : System} (h : Leaving s) {x : Id} (hx : (s.streams x).tasks ≠ []) :
    x ∈ s.used := by
  cases h with
  | inl hdoomed => exact hdoomed.1.posted x hx
  | inr hgone => exact hgone.posted x hx

theorem toHandle_release (s : System) : s.release.toHandle = s.toHandle := by
  rw [release]
  split
  · rfl
  · rfl

theorem pendingTasks_release (s : System) : s.release.pendingTasks = s.pendingTasks := by
  rw [release]
  split
  · rfl
  · rfl

/-- What holds a stream: the maps of the room, a task of its queue or one that names it, and the
list of a publish stream that is held itself. -/
inductive Held (s : System) : Id → Prop where
  | owned {p x : Id} : s.room.Owns p x → Held s x
  | feeding {x : Id} : s.room.publishSubscribesMap.HasKey x → Held s x
  | fed {x v : Id} : s.room.Feeds x v → Held s v
  | posted {x : Id} : (s.streams x).tasks ≠ [] → Held s x
  | registered {x v : Id} : .registerDataObserver v ∈ (s.streams x).tasks → Held s v
  | unregistered {x v : Id} : .unregisterDataObserver v ∈ (s.streams x).tasks → Held s v
  | observer {x v : Id} : Held s x → v ∈ (s.streams x).dataObservers → Held s v

/-- Nothing is left: the room is destructed, every stream has shut down, and nothing holds one. -/
structure Empty (s : System) : Prop where
  expired : s.expired = true
  stoped : ∀ x ∈ s.used, (s.streams x).stoped = true
  unheld : ∀ x, ¬Held s x

theorem Gone.not_held {s : System} (h : Gone s) (hq : s.Quiet) (x : Id) : ¬Held s x := by
  intro hx
  induction hx with
  | owned hp =>
      rw [h.room] at hp
      rcases hp with hp | hp
      · exact SetMap.not_under_empty _ _ hp
      · exact SetMap.not_under_empty _ _ hp
  | feeding hk =>
      rw [h.room] at hk
      exact SetMap.not_hasKey_empty _ hk
  | fed hf =>
      rw [h.room] at hf
      exact SetMap.not_under_empty _ _ hf
  | posted ht => exact ht (hq.1 _)
  | registered ht =>
      rw [hq.1] at ht
      exact List.not_mem_nil ht
  | unregistered ht =>
      rw [hq.1] at ht
      exact List.not_mem_nil ht
  | observer _ _ ih => exact ih

theorem Gone.empty {s : System} (h : Gone s) (hq : s.Quiet) : Empty s where
  expired := h.expired
  stoped := by
    intro x hx
    refine (h.told x hx).resolve_right ?_
    rw [hq.1]
    exact List.not_mem_nil
  unheld := h.not_held hq

end System
end Ylrtc.Signaling
