import Ylrtc.Signaling.RoomRuns

/-!
# What holds of a room in every state

The maps agree with each other at every moment. The streams and the maps agree up to what is
in flight: the tasks in the queues of the streams, and the handlers in the queue of the main
thread.
-/
namespace Ylrtc.Signaling
open CursorParser Run

namespace Room

def Publishes (r : Room) (p x : Id) : Prop := r.participantPublishsMap.Under p x
def Subscribes (r : Room) (p v : Id) : Prop := r.participantSubscribesMap.Under p v
def Feeds (r : Room) (x v : Id) : Prop := r.publishSubscribesMap.Under x v

/-- A stream stands in one of the maps of the participant. -/
def Owns (r : Room) (p x : Id) : Prop := r.Publishes p x ∨ r.Subscribes p x

/-- The three maps agree. -/
structure Consistent (r : Room) : Prop where
  key : ∀ x, r.publishSubscribesMap.HasKey x → ∃ p, r.Publishes p x
  value : ∀ x v, r.Feeds x v → ∃ p, r.Subscribes p v
  unique : ∀ x y v, r.Feeds x v → r.Feeds y v → x = y

/-! ### The operations, by what stands in the maps -/

theorem join_maps (r : Room) (p : Id) :
    (r.join p).1 = { r with participantIdSet := insert p r.participantIdSet } := by
  rw [join]
  split
  · rename_i h
    rw [Finset.insert_eq_of_mem h]
  · rfl

theorem stop_mem_leave (r : Room) (p x : Id) : .stop x ∈ (r.leave p).2 ↔ r.Owns p x := by
  simp [leave,Owns,Publishes,Subscribes,SetMap.mem_valuesOf]

theorem leave_stops (r : Room) (p : Id) {c : Call} (h : c ∈ (r.leave p).2) :
    ∃ x, c = .stop x := by
  simp only [leave,List.mem_append,List.mem_map] at h
  rcases h with ⟨x,_,rfl⟩ | ⟨x,_,rfl⟩
  · exact ⟨x,rfl⟩
  · exact ⟨x,rfl⟩

theorem publishes_shutdown {r : Room} {z p x : Id} :
    (r.onWebrtcStreamShutdown z).1.Publishes p x ↔ r.Publishes p x ∧ x ≠ z :=
  SetMap.under_dropValue

theorem subscribes_shutdown {r : Room} {z p v : Id} :
    (r.onWebrtcStreamShutdown z).1.Subscribes p v ↔ r.Subscribes p v ∧ v ≠ z :=
  SetMap.under_dropValue

theorem hasKey_shutdown {r : Room} {z x : Id} :
    (r.onWebrtcStreamShutdown z).1.publishSubscribesMap.HasKey x ↔
      r.publishSubscribesMap.HasKey x ∧ ¬ (x = z ∧ ∃ p, r.Publishes p z) := by
  simp only [onWebrtcStreamShutdown,hasKey_releaseSubscription,hasKey_releaseSubscribers,
    meets_entries,Publishes]

/-- The loops only go through `publish_subscribes_map_` where the stream stands in the maps of
the participants; that is everywhere it has to be taken out of. -/
theorem feeds_shutdown {r : Room} (h : r.Consistent) {z x v : Id} :
    (r.onWebrtcStreamShutdown z).1.Feeds x v ↔ r.Feeds x v ∧ x ≠ z ∧ v ≠ z := by
  simp only [Feeds,onWebrtcStreamShutdown,under_releaseSubscription,under_releaseSubscribers,
    meets_entries]
  constructor
  · rintro ⟨⟨hf,hx⟩,hv⟩
    refine ⟨hf,?_,?_⟩
    · rintro rfl
      exact hx ⟨rfl,h.key x hf.hasKey⟩
    · rintro rfl
      exact hv ⟨rfl,h.value x v hf⟩
  · rintro ⟨hf,hx,hv⟩
    exact ⟨⟨hf,fun hk => hx hk.1⟩,fun hk => hv hk.1⟩

theorem stop_mem_shutdown {r : Room} (h : r.Consistent) {z v : Id} :
    .stop v ∈ (r.onWebrtcStreamShutdown z).2 ↔ r.Feeds z v := by
  simp only [onWebrtcStreamShutdown,List.mem_append,mem_releaseSubscribers,
    mem_releaseSubscription,meets_entries]
  constructor
  · rintro (⟨_,s,hs,hc | hc⟩ | ⟨_,p,_,hc⟩)
    · exact absurd hc (by simp)
    · rw [Call.stop.injEq] at hc
      exact hc ▸ hs
    · exact absurd hc (by simp)
  · intro hf
    exact .inl ⟨h.key z hf.hasKey,v,hf,.inr rfl⟩

theorem unregister_mem_shutdown {r : Room} (h : r.Consistent) {z x v : Id} :
    .unregisterDataObserver x v ∈ (r.onWebrtcStreamShutdown z).2 ↔
      r.Feeds x v ∧ (x = z ∨ v = z) := by
  simp only [onWebrtcStreamShutdown,List.mem_append,mem_releaseSubscribers,
    mem_releaseSubscription,meets_entries,under_releaseSubscribers]
  constructor
  · rintro (⟨_,s,hs,hc | hc⟩ | ⟨_,p,⟨hp,_⟩,hc⟩)
    · rw [Call.unregisterDataObserver.injEq] at hc
      obtain ⟨rfl,rfl⟩ := hc
      exact ⟨hs,.inl rfl⟩
    · exact absurd hc (by simp)
    · rw [Call.unregisterDataObserver.injEq] at hc
      obtain ⟨rfl,rfl⟩ := hc
      exact ⟨hp,.inr rfl⟩
  · rintro ⟨hf,hz⟩
    have hkey := h.key x hf.hasKey
    by_cases hx : x = z
    · subst hx
      exact .inl ⟨hkey,v,hf,.inl rfl⟩
    · have hv := hz.resolve_left hx
      subst hv
      exact .inr ⟨h.value x v hf,x,⟨hf,fun hk => hx hk.1⟩,rfl⟩

theorem register_not_mem_shutdown (r : Room) (z x v : Id) :
    .registerDataObserver x v ∉ (r.onWebrtcStreamShutdown z).2 := by
  simp [onWebrtcStreamShutdown,mem_releaseSubscribers,mem_releaseSubscription]

/-! ### The maps stay consistent -/

theorem Consistent.shutdown {r : Room} (h : r.Consistent) (z : Id) :
    (r.onWebrtcStreamShutdown z).1.Consistent where
  key := by
    intro x hx
    rw [hasKey_shutdown] at hx
    obtain ⟨p,hp⟩ := h.key x hx.1
    refine ⟨p,publishes_shutdown.mpr ⟨hp,?_⟩⟩
    rintro rfl
    exact hx.2 ⟨rfl,p,hp⟩
  value := by
    intro x v hf
    rw [feeds_shutdown h] at hf
    obtain ⟨p,hp⟩ := h.value x v hf.1
    exact ⟨p,subscribes_shutdown.mpr ⟨hp,hf.2.2⟩⟩
  unique := by
    intro x y v hx hy
    rw [feeds_shutdown h] at hx hy
    exact h.unique x y v hx.1 hy.1

theorem Consistent.publish {r : Room} (h : r.Consistent) (p x : Id) :
    { r with participantPublishsMap := r.participantPublishsMap.insert p x }.Consistent where
  key := by
    intro y hy
    obtain ⟨q,hq⟩ := h.key y hy
    exact ⟨q,SetMap.under_insert.mpr (.inl hq)⟩
  value := h.value
  unique := h.unique

/-- A new subscription to a stream of the room. -/
theorem Consistent.subscribe {r : Room} (h : r.Consistent) {src dst x v : Id}
    (hx : r.Publishes dst x) (hfresh : ∀ y, ¬ r.Feeds y v) :
    { r with
      publishSubscribesMap := r.publishSubscribesMap.insert x v
      participantSubscribesMap := r.participantSubscribesMap.insert src v }.Consistent where
  key := by
    intro y hy
    rcases SetMap.hasKey_insert.mp hy with hy | rfl
    · exact h.key y hy
    · exact ⟨dst,hx⟩
  value := by
    intro y w hw
    rcases SetMap.under_insert.mp hw with hw | ⟨rfl,rfl⟩
    · obtain ⟨p,hp⟩ := h.value y w hw
      exact ⟨p,SetMap.under_insert.mpr (.inl hp)⟩
    · exact ⟨src,SetMap.under_insert.mpr (.inr ⟨rfl,rfl⟩)⟩
  unique := by
    intro y y' w hw hw'
    rcases SetMap.under_insert.mp hw with hold | ⟨hy,hv⟩
    · rcases SetMap.under_insert.mp hw' with hold' | ⟨_,hv'⟩
      · exact h.unique y y' w hold hold'
      · exact absurd (hv' ▸ hold) (hfresh y)
    · rcases SetMap.under_insert.mp hw' with hold' | ⟨hy',_⟩
      · exact absurd (hv ▸ hold') (hfresh y')
      · rw [hy,hy']

end Room

namespace System

/-- The room, its streams and what is in flight between them. -/
structure Inv (s : System) : Prop where
  present : s.expired = false
  consistent : s.room.Consistent
  /-- A subscription to nothing was told to stop. -/
  orphan : ∀ p v, s.room.Subscribes p v → (∀ x, ¬ s.room.Feeds x v) →
    (s.streams v).stopCalled = true
  /-- A call of `Stop` is in the queue or has stopped the stream. -/
  called : ∀ x, (s.streams x).stopCalled = true →
    .stop ∈ (s.streams x).tasks ∨ (s.streams x).stoped = true
  /-- A stream that is shut down has a handler waiting or is in no map. -/
  stoped : ∀ x, (s.streams x).stoped = true → x ∈ s.handlers ∨ ∀ p, ¬ s.room.Owns p x
  /-- The streams of a participant that is not there were told to stop. -/
  member : ∀ p x, s.room.Owns p x →
    p ∈ s.room.participantIdSet ∨ (s.streams x).stopCalled = true
  /-- The observers of a stream are its subscriptions, up to the tasks in its queue. -/
  settled : ∀ x v, v ∈ (s.streams x).settled ↔ s.room.Feeds x v
  nodup : ∀ x, (s.streams x).dataObservers.Nodup
  owned_used : ∀ p x, s.room.Owns p x → x ∈ s.used
  stop_used : ∀ x, .stop ∈ (s.streams x).tasks → x ∈ s.used
  stoped_used : ∀ x, (s.streams x).stoped = true → x ∈ s.used

theorem inv_start (id : Id) : Inv { room := { id := id } } where
  present := rfl
  consistent := {
    key := fun x hx => absurd hx (SetMap.not_hasKey_empty x)
    value := fun x v hf => absurd hf (SetMap.not_under_empty x v)
    unique := fun x y v hf => absurd hf (SetMap.not_under_empty x v) }
  orphan := fun p v hs => absurd hs (SetMap.not_under_empty p v)
  called := fun x hx => absurd hx (by simp)
  stoped := fun x hx => absurd hx (by simp)
  member := fun p x hx => by simp [Room.Owns,Room.Publishes,Room.Subscribes] at hx
  settled := fun x v => by simp [Stream.settled,Room.Feeds]
  nodup := fun x => List.nodup_nil
  owned_used := fun p x hx => by simp [Room.Owns,Room.Publishes,Room.Subscribes] at hx
  stop_used := fun x hx => absurd hx List.not_mem_nil
  stoped_used := fun x hx => absurd hx (by simp)

/-- The room changes and makes calls that register nothing: a leave, or a shutdown. -/
theorem Inv.calls {s : System} (h : Inv s) {room : Room} {handlers : List Id} {cs : List Call}
    (hroom : room.Consistent) (hcs : ∀ x v, .registerDataObserver x v ∉ cs)
    (howns : ∀ p x, room.Owns p x → s.room.Owns p x)
    (horphan : ∀ p v, room.Subscribes p v → (∀ x, ¬ room.Feeds x v) →
      (s.room.Subscribes p v ∧ ∀ x, ¬ s.room.Feeds x v) ∨ .stop v ∈ cs)
    (hhandlers : ∀ x ∈ s.handlers, x ∈ handlers ∨ ∀ p, ¬ room.Owns p x)
    (hmember : ∀ p x, room.Owns p x → p ∈ s.room.participantIdSet →
      p ∈ room.participantIdSet ∨ .stop x ∈ cs)
    (hfeeds : ∀ x v, room.Feeds x v ↔ s.room.Feeds x v ∧ .unregisterDataObserver x v ∉ cs)
    (hstop : ∀ x, .stop x ∈ cs → x ∈ s.used) :
    Inv ({ s with room := room, handlers := handlers }.calls cs) where
  present := by
    rw [calls_expired]
    exact h.present
  consistent := by
    rw [calls_room]
    exact hroom
  orphan := by
    intro p v hs hno
    rw [calls_room] at hs hno
    rw [calls_stopCalled]
    rcases horphan p v hs hno with ⟨hs,hno⟩ | hc
    · exact .inl (h.orphan p v hs hno)
    · exact .inr hc
  called := by
    intro x hx
    rw [calls_stopCalled] at hx
    rw [stop_mem_calls,calls_stoped]
    rcases hx with hx | hx
    · rcases h.called x hx with ht | ht
      · exact .inl (.inl ht)
      · exact .inr ht
    · exact .inl (.inr hx)
  stoped := by
    intro x hx
    rw [calls_stoped] at hx
    rw [calls_handlers,calls_room]
    rcases h.stoped x hx with hh | hh
    · exact hhandlers x hh
    · exact .inr fun p hp => hh p (howns p x hp)
  member := by
    intro p x hx
    rw [calls_room] at hx
    rw [calls_room,calls_stopCalled]
    rcases h.member p x (howns p x hx) with hp | hp
    · rcases hmember p x hx hp with hp | hp
      · exact .inl hp
      · exact .inr (.inr hp)
    · exact .inr (.inl hp)
  settled := by
    intro x v
    rw [calls_room,hfeeds,← h.settled]
    exact mem_settled_calls (s := { s with room := room, handlers := handlers }) (h.nodup x) hcs v
  nodup := by
    intro x
    rw [calls_dataObservers]
    exact h.nodup x
  owned_used := by
    intro p x hx
    rw [calls_room] at hx
    rw [calls_used]
    exact h.owned_used p x (howns p x hx)
  stop_used := by
    intro x hx
    rw [stop_mem_calls] at hx
    rw [calls_used]
    rcases hx with hx | hx
    · exact h.stop_used x hx
    · exact hstop x hx
  stoped_used := by
    intro x hx
    rw [calls_stoped] at hx
    rw [calls_used]
    exact h.stoped_used x hx

theorem Inv.join {s : System} (h : Inv s) (p : Id) :
    Inv { s with room := (s.room.join p).1 } := by
  rw [Room.join_maps]
  exact {
    present := h.present
    consistent := ⟨h.consistent.key,h.consistent.value,h.consistent.unique⟩
    orphan := h.orphan
    called := h.called
    stoped := h.stoped
    member := fun q x hx => (h.member q x hx).imp_left Finset.mem_insert_of_mem
    settled := h.settled
    nodup := h.nodup
    owned_used := h.owned_used
    stop_used := h.stop_used
    stoped_used := h.stoped_used }

theorem Inv.leave {s : System} (h : Inv s) (p : Id) : Inv (s.leave p) := by
  have hstops : ∀ c ∈ (s.room.leave p).2, ∃ x, c = .stop x := fun c => Room.leave_stops s.room p
  refine h.calls ⟨h.consistent.key,h.consistent.value,h.consistent.unique⟩ ?_ (fun _ _ => id) ?_
    (fun x => .inl) ?_ ?_ ?_
  · intro x v hc
    obtain ⟨y,hy⟩ := hstops _ hc
    exact absurd hy (by simp)
  · intro q v hs hno
    exact .inl ⟨hs,hno⟩
  · intro q x hx hq
    by_cases hqp : q = p
    · subst hqp
      exact .inr ((Room.stop_mem_leave s.room q x).mpr hx)
    · exact .inl (Finset.mem_erase.mpr ⟨hqp,hq⟩)
  · intro x v
    have hno : .unregisterDataObserver x v ∉ (s.room.leave p).2 := by
      intro hc
      obtain ⟨y,hy⟩ := hstops _ hc
      exact absurd hy (by simp)
    exact ⟨fun hf => ⟨hf,hno⟩,And.left⟩
  · intro x hx
    exact h.owned_used p x ((Room.stop_mem_leave s.room p x).mp hx)

theorem Inv.runHandler {s : System} (h : Inv s) : Inv s.runHandler := by
  rw [System.runHandler]
  split
  · exact h
  rename_i z zs hz
  have hc := h.consistent
  have howns : ∀ p x, (s.room.onWebrtcStreamShutdown z).1.Owns p x → s.room.Owns p x ∧ x ≠ z := by
    rintro p x (hx | hx)
    · exact ⟨.inl (Room.publishes_shutdown.mp hx).1,(Room.publishes_shutdown.mp hx).2⟩
    · exact ⟨.inr (Room.subscribes_shutdown.mp hx).1,(Room.subscribes_shutdown.mp hx).2⟩
  refine h.calls (hc.shutdown z) (Room.register_not_mem_shutdown s.room z)
    (fun p x hx => (howns p x hx).1) ?_ ?_ (fun p x _ hp => .inl hp) ?_ ?_
  · intro p v hs hno
    rw [Room.subscribes_shutdown] at hs
    by_cases hfed : ∃ x, s.room.Feeds x v
    · obtain ⟨x,hx⟩ := hfed
      have hxz : x = z := by
        by_contra hne
        exact hno x ((Room.feeds_shutdown hc).mpr ⟨hx,hne,hs.2⟩)
      exact .inr ((Room.stop_mem_shutdown hc).mpr (hxz ▸ hx))
    · exact .inl ⟨hs.1,not_exists.mp hfed⟩
  · intro x hx
    by_cases hxz : x = z
    · exact .inr fun p hp => (howns p x hp).2 hxz
    · rw [hz,List.mem_cons] at hx
      exact .inl (hx.resolve_left hxz)
  · intro x v
    rw [Room.feeds_shutdown hc,Room.unregister_mem_shutdown hc]
    tauto
  · intro v hv
    obtain ⟨p,hp⟩ := hc.value z v ((Room.stop_mem_shutdown hc).mp hv)
    exact h.owned_used p v (.inr hp)

theorem Inv.publish {s : System} (h : Inv s) {p x : Id} : Inv (s.participantPublish p x) := by
  rw [participantPublish]
  split
  · exact h
  rename_i hfresh
  rw [Room.participantPublish]
  by_cases hp : p ∈ s.room.participantIdSet
  · rw [if_pos hp]
    have howns : ∀ q y, Room.Owns { s.room with
        participantPublishsMap := s.room.participantPublishsMap.insert p x } q y →
        s.room.Owns q y ∨ q = p ∧ y = x := by
      rintro q y (hy | hy)
      · exact (SetMap.under_insert.mp hy).imp_left .inl
      · exact .inl (.inr hy)
    exact {
      present := h.present
      consistent := h.consistent.publish p x
      orphan := h.orphan
      called := h.called
      stoped := by
        intro y hy
        refine (h.stoped y hy).imp_right fun hno q hq => ?_
        rcases howns q y hq with hq | ⟨_,rfl⟩
        · exact hno q hq
        · exact hfresh (h.stoped_used y hy)
      member := by
        intro q y hy
        rcases howns q y hy with hy | ⟨rfl,_⟩
        · exact h.member q y hy
        · exact .inl hp
      settled := h.settled
      nodup := h.nodup
      owned_used := by
        intro q y hy
        rcases howns q y hy with hy | ⟨_,rfl⟩
        · exact Finset.mem_insert_of_mem (h.owned_used q y hy)
        · exact Finset.mem_insert_self y s.used
      stop_used := fun y hy => Finset.mem_insert_of_mem (h.stop_used y hy)
      stoped_used := fun y hy => Finset.mem_insert_of_mem (h.stoped_used y hy) }
  · rw [if_neg hp]
    exact h

theorem Inv.subscribe {s : System} (h : Inv s) {src dst x v : Id} :
    Inv (s.participantSubscribe src dst x v) := by
  rw [participantSubscribe]
  split
  · exact h
  rename_i hfresh
  rw [Room.participantSubscribe]
  by_cases hp : src ∈ s.room.participantIdSet ∧ dst ∈ s.room.participantIdSet ∧
      x ∈ s.room.participantPublishsMap.valuesOf dst
  · rw [if_pos hp]
    have hunfed : ∀ y, ¬ s.room.Feeds y v := by
      intro y hy
      obtain ⟨q,hq⟩ := h.consistent.value y v hy
      exact hfresh (h.owned_used q v (.inr hq))
    let room : Room := { s.room with
      publishSubscribesMap := s.room.publishSubscribesMap.insert x v
      participantSubscribesMap := s.room.participantSubscribesMap.insert src v }
    let t : System := { s with room := room, used := insert v s.used }
    have howns : ∀ q y, room.Owns q y → s.room.Owns q y ∨ q = src ∧ y = v := by
      rintro q y (hy | hy)
      · exact .inl (.inl hy)
      · exact (SetMap.under_insert.mp hy).imp_left .inr
    have hfeeds : ∀ y w, room.Feeds y w ↔ s.room.Feeds y w ∨ y = x ∧ w = v :=
      fun y w => SetMap.under_insert
    have hstop : ∀ y, Call.stop y ∉ [Call.registerDataObserver x v] := by simp
    have hinv : Inv (t.calls [.registerDataObserver x v]) := {
      present := by
        rw [calls_expired]
        exact h.present
      consistent := by
        rw [calls_room]
        exact h.consistent.subscribe (SetMap.mem_valuesOf.mp hp.2.2) hunfed
      orphan := by
        intro q w hw hno
        rw [calls_room] at hw hno
        rw [calls_stopCalled]
        rcases SetMap.under_insert.mp hw with hw | ⟨_,rfl⟩
        · exact .inl (h.orphan q w hw fun y hy => hno y ((hfeeds y w).mpr (.inl hy)))
        · exact absurd ((hfeeds x w).mpr (.inr ⟨rfl,rfl⟩)) (hno x)
      called := by
        intro y hy
        rw [calls_stopCalled] at hy
        rw [stop_mem_calls,calls_stoped]
        exact (h.called y (hy.resolve_right (hstop y))).imp_left .inl
      stoped := by
        intro y hy
        rw [calls_stoped] at hy
        rw [calls_handlers,calls_room]
        refine (h.stoped y hy).imp_right fun hno q hq => ?_
        rcases howns q y hq with hq | ⟨_,rfl⟩
        · exact hno q hq
        · exact hfresh (h.stoped_used y hy)
      member := by
        intro q y hy
        rw [calls_room] at hy ⊢
        rw [calls_stopCalled]
        rcases howns q y hy with hy | ⟨rfl,_⟩
        · exact (h.member q y hy).imp_right .inl
        · exact .inl hp.1
      settled := by
        intro y w
        rw [calls_room,hfeeds,calls_cons,calls_nil,mem_settled_call (s := t) (h.nodup y),
          ← h.settled]
        simp only [ne_eq,reduceCtorEq,not_false_eq_true,and_true,
          Call.registerDataObserver.injEq,t,eq_comm]
      nodup := by
        intro y
        rw [calls_dataObservers]
        exact h.nodup y
      owned_used := by
        intro q y hy
        rw [calls_room] at hy
        rw [calls_used]
        rcases howns q y hy with hy | ⟨_,rfl⟩
        · exact Finset.mem_insert_of_mem (h.owned_used q y hy)
        · exact Finset.mem_insert_self y s.used
      stop_used := by
        intro y hy
        rw [stop_mem_calls] at hy
        rw [calls_used]
        exact Finset.mem_insert_of_mem (h.stop_used y (hy.resolve_right (hstop y)))
      stoped_used := by
        intro y hy
        rw [calls_stoped] at hy
        rw [calls_used]
        exact Finset.mem_insert_of_mem (h.stoped_used y hy) }
    exact hinv
  · rw [if_neg hp]
    exact h

theorem Inv.shutdown {s : System} (h : Inv s) {x : Id} (hx : x ∈ s.used) :
    Inv (s.shutdown x) where
  present := by
    rw [shutdown_expired]
    exact h.present
  consistent := by
    rw [shutdown_room]
    exact h.consistent
  orphan := by
    intro p v hs hno
    rw [shutdown_room] at hs hno
    rw [shutdown_stream]
    exact h.orphan p v hs hno
  called := by
    intro y hy
    rw [shutdown_stream] at hy
    rw [shutdown_stoped,shutdown_stream]
    exact (h.called y hy).imp_right .inl
  stoped := by
    intro y hy
    rw [shutdown_stoped] at hy
    rw [mem_shutdown_handlers h.present,shutdown_room]
    by_cases hs : (s.streams y).stoped = true
    · exact (h.stoped y hs).imp_left .inl
    · have hyx := hy.resolve_left hs
      subst hyx
      exact .inl (.inr ⟨rfl,Bool.eq_false_iff.mpr hs⟩)
  member := by
    intro p y hy
    rw [shutdown_room] at hy ⊢
    rw [shutdown_stream]
    exact h.member p y hy
  settled := by
    intro y v
    rw [shutdown_room,shutdown_stream]
    exact h.settled y v
  nodup := by
    intro y
    rw [shutdown_stream]
    exact h.nodup y
  owned_used := by
    intro p y hy
    rw [shutdown_room] at hy
    rw [shutdown_used]
    exact h.owned_used p y hy
  stop_used := by
    intro y hy
    rw [shutdown_stream] at hy
    rw [shutdown_used]
    exact h.stop_used y hy
  stoped_used := by
    intro y hy
    rw [shutdown_stoped] at hy
    rw [shutdown_used]
    rcases hy with hy | rfl
    · exact h.stoped_used y hy
    · exact hx

/-- A new queue and new observers of one stream leave the flags of all streams. -/
theorem setStream_flags (s : System) (x y : Id) (tasks : List Task) (dataObservers : List Id) :
    ((s.setStream x { s.streams x with
        tasks := tasks, dataObservers := dataObservers }).streams y).stopCalled =
        (s.streams y).stopCalled ∧
      ((s.setStream x { s.streams x with
        tasks := tasks, dataObservers := dataObservers }).streams y).stoped =
        (s.streams y).stoped := by
  rw [setStream_streams]
  split
  · rename_i hyx
    rw [hyx]
    exact ⟨rfl,rfl⟩
  · exact ⟨rfl,rfl⟩

/-- A task leaves the queue, and has been run: a stop has stopped its stream. -/
theorem Inv.pop {s : System} (h : Inv s) {x : Id} {t : Task} {ts : List Task}
    (ht : (s.streams x).tasks = t::ts) (hstop : t = .stop → (s.streams x).stoped = true) :
    Inv (s.setStream x { s.streams x with
      tasks := ts, dataObservers := t.observe (s.streams x).dataObservers }) := by
  have hmem : ∀ y t', t' ∈ ((s.setStream x { s.streams x with
      tasks := ts, dataObservers := t.observe (s.streams x).dataObservers }).streams y).tasks →
      t' ∈ (s.streams y).tasks := by
    intro y t' hy
    rw [setStream_streams] at hy
    split at hy
    · rename_i hyx
      rw [hyx,ht]
      exact List.mem_cons_of_mem t hy
    · exact hy
  have hflags (y : Id) := setStream_flags s x y ts (t.observe (s.streams x).dataObservers)
  exact {
    present := h.present
    consistent := h.consistent
    orphan := by
      intro p v hs hno
      rw [(hflags v).1]
      exact h.orphan p v hs hno
    called := by
      intro y hy
      rw [(hflags y).1] at hy
      rw [(hflags y).2,setStream_streams]
      by_cases hyx : y = x
      · subst hyx
        rw [if_pos rfl]
        rcases h.called y hy with hc | hc
        · rw [ht,List.mem_cons] at hc
          rcases hc with hc | hc
          · exact .inr (hstop hc.symm)
          · exact .inl hc
        · exact .inr hc
      · rw [if_neg hyx]
        exact h.called y hy
    stoped := by
      intro y hy
      rw [(hflags y).2] at hy
      exact h.stoped y hy
    member := by
      intro p y hy
      rw [(hflags y).1]
      exact h.member p y hy
    settled := by
      intro y v
      rw [setStream_room,← h.settled,setStream_streams]
      split
      · rename_i hyx
        rw [hyx,Stream.settled,Stream.settled,ht,List.foldl_cons]
      · rfl
    nodup := by
      intro y
      rw [setStream_streams]
      split
      · exact Task.nodup_observe (h.nodup x) t
      · exact h.nodup y
    owned_used := h.owned_used
    stop_used := fun y hy => h.stop_used y (hmem y _ hy)
    stoped_used := by
      intro y hy
      rw [(hflags y).2] at hy
      exact h.stoped_used y hy }

theorem Inv.runTask {s : System} (h : Inv s) (x : Id) : Inv (s.runTask x) := by
  rw [System.runTask]
  split
  · exact h
  rename_i t ts ht
  by_cases hstop : t = .stop
  · have hx : x ∈ s.used := by
      refine h.stop_used x ?_
      rw [ht,hstop]
      exact List.mem_cons_self
    rw [if_pos hstop]
    refine (h.shutdown hx).pop ?_ fun _ => (shutdown_stoped s x x).mpr (.inr rfl)
    rw [shutdown_stream]
    exact ht
  · rw [if_neg hstop]
    exact h.pop ht fun hs => absurd hs hstop

/-- The handlers of connected streams change nothing else. -/
theorem Inv.connecting {s : System} (h : Inv s) (connecting : List Id) :
    Inv { s with connecting := connecting } where
  present := h.present
  consistent := h.consistent
  orphan := h.orphan
  called := h.called
  stoped := h.stoped
  member := h.member
  settled := h.settled
  nodup := h.nodup
  owned_used := h.owned_used
  stop_used := h.stop_used
  stoped_used := h.stoped_used

theorem Inv.step {s : System} (h : Inv s) (e : Event) : Inv (s.step e) := by
  cases e with
  | join p => exact h.join p
  | leave p => exact h.leave p
  | kickoutParticipant p => exact h.leave p
  | participantPublish p x => exact h.publish
  | participantSubscribe src dst x v => exact h.subscribe
  | runTask x => exact h.runTask x
  | shutdown x =>
      rw [System.step]
      split
      · rename_i hx
        exact h.shutdown hx
      · exact h
  | runHandler => exact h.runHandler
  | connected x =>
      rw [System.step]
      split
      · rw [connected_eq h.present]
        exact h.connecting _
      · exact h
  | runConnected => exact h.connecting _

theorem inv_run (id : Id) (es : List Event) : Inv (run step { room := { id := id } } es) :=
  run_invariant (inv_start id) (fun _ e h => h.step e) es

/-! ### Rooms that have come to rest -/

/-- Nothing is pending: no task of a stream and no handler. -/
def Quiet (s : System) : Prop := (∀ x, (s.streams x).tasks = []) ∧ s.handlers = []

/-- At rest the streams are those of the participants that are there. -/
theorem Inv.quiet_owns {s : System} (h : Inv s) (hq : s.Quiet) {p x : Id}
    (hx : s.room.Owns p x) : p ∈ s.room.participantIdSet := by
  refine (h.member p x hx).resolve_right fun hc => ?_
  have hs : (s.streams x).stoped = true := by
    refine (h.called x hc).resolve_left ?_
    rw [hq.1]
    exact List.not_mem_nil
  rcases h.stoped x hs with hh | hh
  · rw [hq.2] at hh
    exact List.not_mem_nil hh
  · exact hh p hx

theorem Inv.quiet_observers {s : System} (h : Inv s) (hq : s.Quiet) (x v : Id) :
    v ∈ (s.streams x).dataObservers ↔ s.room.Feeds x v := by
  rw [← h.settled,Stream.settled,hq.1 x,List.foldl_nil]

/-- In every run the maps agree, a subscription to nothing was told to stop, and when nothing
is pending no stream is left of a participant that is gone and each stream feeds its
subscriptions. -/
theorem run_consistent (id : Id) (es : List Event) :
    let s := run step { room := { id := id } } es
    (∀ x, s.room.publishSubscribesMap.HasKey x → ∃ p, s.room.Publishes p x) ∧
    (∀ x v, s.room.Feeds x v →
      (∃ p, s.room.Subscribes p v) ∧ ∀ y, s.room.Feeds y v → y = x) ∧
    (∀ p v, s.room.Subscribes p v → (∀ x, ¬ s.room.Feeds x v) →
      (s.streams v).stopCalled = true) ∧
    (s.Quiet →
      (∀ p x, s.room.Owns p x → p ∈ s.room.participantIdSet) ∧
      ∀ x, (s.streams x).dataObservers.Nodup ∧
        ∀ v, v ∈ (s.streams x).dataObservers ↔ s.room.Feeds x v) := by
  intro s
  have h : Inv s := inv_run id es
  refine ⟨h.consistent.key,?_,h.orphan,?_⟩
  · intro x v hf
    exact ⟨h.consistent.value x v hf,fun y hy => h.consistent.unique y x v hy hf⟩
  · intro hq
    exact ⟨fun p x => h.quiet_owns hq,fun x => ⟨h.nodup x,h.quiet_observers hq x⟩⟩

end System
end Ylrtc.Signaling
