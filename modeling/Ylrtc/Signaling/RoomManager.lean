import Mathlib.Data.List.Nodup
import Ylrtc.Signaling.RoomTeardown
import Ylrtc.Signaling.SignalingHandler

/-!
# All rooms of the server

`RoomManager` of `signaling/room_manager.cpp`. A room is found through the map alone. Out of the
map it lives on for as long as a handler is pending in it, and its streams for as long as they
have tasks; its id may be given to a new room meanwhile.
-/
namespace Ylrtc.Signaling
open CursorParser Run

/-- The map, and all rooms that were ever created, numbered as they are. -/
structure RoomManager where
  idRoomMap : List (Id × ℕ) := []
  rooms : ℕ → System := fun _ => {}
  next : ℕ := 0

namespace RoomManager

def setRoom (m : RoomManager) (r : ℕ) (s : System) : RoomManager :=
  { m with rooms := Function.update m.rooms r s }

def getRoomById (m : RoomManager) (id : Id) : Option ℕ := m.idRoomMap.lookup id

def createRoom (m : RoomManager) (id : Id) : RoomManager × YlError :=
  match m.getRoomById id with
  | some _ => (m,.kRoomIdAlreadyExists)
  | none => ({ m.setRoom m.next { room := { id := id } } with
      idRoomMap := m.idRoomMap++[(id,m.next)], next := m.next+1 },.kOk)

def getAllRoomId (m : RoomManager) : List Id := m.idRoomMap.map Prod.fst

def destroyRoom (m : RoomManager) (id : Id) : RoomManager :=
  match m.getRoomById id with
  | some r => { m.setRoom r (m.rooms r).destroy.release with
      idRoomMap := m.idRoomMap.filter fun e => e.1 ≠ id }
  | none => m

/-- The same done to all rooms of a list. -/
def setRooms (m : RoomManager) (es : List (Id × ℕ)) (f : System → System) : RoomManager :=
  es.foldl (fun m e => m.setRoom e.2 (f (m.rooms e.2))) m

def clear (m : RoomManager) : RoomManager :=
  { (m.setRooms m.idRoomMap System.destroy).setRooms m.idRoomMap System.release with
    idRoomMap := [] }

/-- A session or the management API calls a room that it has looked up, or a thread runs what
is pending in some room. -/
inductive Event where
  | createRoom (id : Id)
  | destroyRoom (id : Id)
  | clear
  | onRoom (id : Id) (e : System.Event)
  | inBackground (r : ℕ) (e : System.Event)

def step (m : RoomManager) : Event → RoomManager
  | .createRoom id => (m.createRoom id).1
  | .destroyRoom id => m.destroyRoom id
  | .clear => m.clear
  | .onRoom id e =>
      match m.getRoomById id with
      | some r => m.setRoom r ((m.rooms r).step e)
      | none => m
  | .inBackground r e =>
      if System.isBackground e then
        let s := (m.rooms r).step e
        m.setRoom r (if r ∈ m.idRoomMap.map Prod.snd then s else s.release)
      else m

/-- The rooms of the map are distinct rooms with distinct ids, and all other rooms that were
created are being torn down. -/
structure Inv (m : RoomManager) : Prop where
  keys : (m.idRoomMap.map Prod.fst).Nodup
  refs : (m.idRoomMap.map Prod.snd).Nodup
  known : ∀ e ∈ m.idRoomMap, e.2 < m.next
  named : ∀ e ∈ m.idRoomMap, (m.rooms e.2).room.id = e.1
  tracked : ∀ r ∈ m.idRoomMap.map Prod.snd, (m.rooms r).Tracked
  leaving : ∀ r < m.next, r ∉ m.idRoomMap.map Prod.snd → (m.rooms r).Leaving

theorem setRoom_rooms (m : RoomManager) (r r' : ℕ) (s : System) :
    (m.setRoom r s).rooms r' = if r' = r then s else m.rooms r' := by
  by_cases h : r' = r
  · subst h
    exact (Function.update_self r' s m.rooms).trans (if_pos rfl).symm
  · exact (Function.update_of_ne h s m.rooms).trans (if_neg h).symm

theorem mem_of_lookup {es : List (Id × ℕ)} {id : Id} {r : ℕ} (h : es.lookup id = some r) :
    (id,r) ∈ es := by
  induction es with
  | nil => cases h
  | cons e es ih =>
      rw [List.lookup_cons] at h
      split at h
      · rename_i heq
        rw [beq_iff_eq] at heq
        cases h
        rw [heq]
        exact List.mem_cons_self
      · exact List.mem_cons_of_mem e (ih h)

theorem lookup_eq_none {es : List (Id × ℕ)} {id : Id} :
    es.lookup id = none ↔ id ∉ es.map Prod.fst := by
  induction es with
  | nil => simp
  | cons e es ih =>
      rw [List.lookup_cons,List.map_cons,List.mem_cons]
      split
      · rename_i heq
        rw [beq_iff_eq] at heq
        simp [heq]
      · rename_i hne
        rw [beq_eq_false_iff_ne] at hne
        rw [ih,not_or]
        exact ⟨fun h => ⟨hne,h⟩,And.right⟩

end RoomManager

namespace System

theorem step_room_id (s : System) (e : Event) : (s.step e).room.id = s.room.id := by
  cases e with
  | join p =>
      rw [step,Room.join_maps]
  | leave p | kickoutParticipant p =>
      rw [step,leave,calls_room]
      rfl
  | participantPublish p x =>
      rw [step,participantPublish]
      split
      · rfl
      · rw [Room.participantPublish]
        by_cases hp : p ∈ s.room.participantIdSet
        · rw [if_pos hp]
        · rw [if_neg hp]
  | participantSubscribe src dst x v =>
      rw [step,participantSubscribe]
      split
      · rfl
      · rw [Room.participantSubscribe]
        split
        · rename_i r hr
          split at hr
          · cases hr
            rw [calls_room]
          · cases hr
        · rfl
  | runTask x => rw [step,runTask_room]
  | shutdown x =>
      rw [step]
      split
      · rw [shutdown_room]
      · rfl
  | runHandler =>
      rw [step,runHandler]
      split
      · rfl
      · rw [calls_room]
        rfl
  | connected x =>
      rw [step,connected]
      split
      · split
        · rfl
        · rfl
      · rfl
  | runConnected => rfl

end System

namespace RoomManager

theorem inv_start : Inv {} where
  keys := List.nodup_nil
  refs := List.nodup_nil
  known _ he := absurd he List.not_mem_nil
  named _ he := absurd he List.not_mem_nil
  tracked _ hr := absurd hr List.not_mem_nil
  leaving _ hr := absurd hr (Nat.not_lt_zero _)

/-- A room goes on under its id in the map, or out of the map. -/
theorem Inv.setRoom {m : RoomManager} (h : Inv m) {r : ℕ} {s : System}
    (hid : r ∈ m.idRoomMap.map Prod.snd → s.room.id = (m.rooms r).room.id)
    (htracked : r ∈ m.idRoomMap.map Prod.snd → (m.rooms r).Tracked → s.Tracked)
    (hleaving : r ∉ m.idRoomMap.map Prod.snd → (m.rooms r).Leaving → s.Leaving) :
    Inv (m.setRoom r s) where
  keys := h.keys
  refs := h.refs
  known := h.known
  named := by
    intro e he
    rw [setRoom_rooms]
    split
    · rename_i heq
      have hmem : r ∈ m.idRoomMap.map Prod.snd := heq ▸ List.mem_map_of_mem he
      rw [hid hmem,← heq]
      exact h.named e he
    · exact h.named e he
  tracked := by
    intro r' hr'
    rw [setRoom_rooms]
    split
    · rename_i heq
      subst heq
      exact htracked hr' (h.tracked r' hr')
    · exact h.tracked r' hr'
  leaving := by
    intro r' hr' hnot
    rw [setRoom_rooms]
    split
    · rename_i heq
      subst heq
      exact hleaving hnot (h.leaving r' hr' hnot)
    · exact h.leaving r' hr' hnot

theorem Inv.createRoom {m : RoomManager} (h : Inv m) (id : Id) : Inv (m.createRoom id).1 := by
  rw [RoomManager.createRoom]
  cases hfind : m.getRoomById id with
  | some r => exact h
  | none =>
      have hfresh : id ∉ m.idRoomMap.map Prod.fst := lookup_eq_none.mp hfind
      have hnext : m.next ∉ m.idRoomMap.map Prod.snd := by
        intro hmem
        obtain ⟨e,he,heq⟩ := List.mem_map.mp hmem
        have hknown := h.known e he
        omega
      have hother {r : ℕ} (hr : r < m.next) :
          (m.setRoom m.next { room := { id := id } }).rooms r = m.rooms r := by
        rw [setRoom_rooms,if_neg (Nat.ne_of_lt hr)]
      constructor
      case keys =>
        rw [List.map_append]
        exact List.nodup_append_comm.mpr (List.nodup_cons.mpr ⟨hfresh,h.keys⟩)
      case refs =>
        rw [List.map_append]
        exact List.nodup_append_comm.mpr (List.nodup_cons.mpr ⟨hnext,h.refs⟩)
      case known =>
        intro e he
        rcases List.mem_append.mp he with he | he
        · exact Nat.lt_succ_of_lt (h.known e he)
        · rw [List.mem_singleton.mp he]
          exact Nat.lt_succ_self m.next
      case named =>
        intro e he
        rcases List.mem_append.mp he with he | he
        · exact (congrArg (fun s => s.room.id) (hother (h.known e he))).trans (h.named e he)
        · rw [List.mem_singleton.mp he]
          show ((m.setRoom m.next { room := { id := id } }).rooms m.next).room.id = id
          rw [setRoom_rooms,if_pos rfl]
      case tracked =>
        intro r hr
        show ((m.setRoom m.next { room := { id := id } }).rooms r).Tracked
        rw [setRoom_rooms]
        split
        · exact System.tracked_start id
        · rename_i hne
          rw [List.map_append,List.mem_append] at hr
          exact h.tracked r (hr.resolve_right fun heq => hne (List.mem_singleton.mp heq))
      case leaving =>
        intro r hr hnot
        rw [List.map_append,List.mem_append,not_or] at hnot
        have hne : r ≠ m.next := fun heq => hnot.2 (List.mem_singleton.mpr heq)
        have hlt : r < m.next := Nat.lt_of_le_of_ne (Nat.le_of_lt_succ hr) hne
        have hsame := hother hlt
        show ((m.setRoom m.next { room := { id := id } }).rooms r).Leaving
        rw [hsame]
        exact h.leaving r hlt hnot.1

/-- With distinct ids, what is found under an id is the one room that has it. -/
theorem ref_mem_filter {m : RoomManager} (h : Inv m) {id : Id} {r r' : ℕ}
    (hr : (id,r) ∈ m.idRoomMap) (hne : r' ≠ r) (hr' : r' ∈ m.idRoomMap.map Prod.snd) :
    r' ∈ (m.idRoomMap.filter fun e => e.1 ≠ id).map Prod.snd := by
  obtain ⟨e,he,heq⟩ := List.mem_map.mp hr'
  refine List.mem_map.mpr ⟨e,List.mem_filter.mpr ⟨he,?_⟩,heq⟩
  rw [decide_eq_true_iff]
  intro hid
  have hsame : e = (id,r) := List.inj_on_of_nodup_map h.keys he hr hid
  rw [hsame] at heq
  exact hne heq.symm

theorem Inv.destroyRoom {m : RoomManager} (h : Inv m) (id : Id) : Inv (m.destroyRoom id) := by
  rw [RoomManager.destroyRoom]
  cases hfind : m.getRoomById id with
  | none => exact h
  | some r =>
      have hmem : (id,r) ∈ m.idRoomMap := mem_of_lookup hfind
      have hsub : (m.idRoomMap.filter fun e => e.1 ≠ id).Sublist m.idRoomMap :=
        List.filter_sublist
      -- the other rooms of the map
      have hne (e : Id × ℕ) (he : e ∈ m.idRoomMap.filter fun e => e.1 ≠ id) : e.2 ≠ r := by
        intro heq
        have hsame : e = (id,r) := List.inj_on_of_nodup_map h.refs (hsub.subset he) hmem heq
        have hid := of_decide_eq_true (List.mem_filter.mp he).2
        exact hid (congrArg Prod.fst hsame)
      constructor
      case keys => exact h.keys.sublist (hsub.map Prod.fst)
      case refs => exact h.refs.sublist (hsub.map Prod.snd)
      case known => exact fun e he => h.known e (hsub.subset he)
      case named =>
        intro e he
        show ((m.setRoom r (m.rooms r).destroy.release).rooms e.2).room.id = e.1
        rw [setRoom_rooms,if_neg (hne e he)]
        exact h.named e (hsub.subset he)
      case tracked =>
        intro r' hr'
        obtain ⟨e,he,rfl⟩ := List.mem_map.mp hr'
        show ((m.setRoom r (m.rooms r).destroy.release).rooms e.2).Tracked
        rw [setRoom_rooms,if_neg (hne e he)]
        exact h.tracked e.2 (List.mem_map_of_mem (hsub.subset he))
      case leaving =>
        intro r' hr' hnot
        show ((m.setRoom r (m.rooms r).destroy.release).rooms r').Leaving
        rw [setRoom_rooms]
        split
        · exact System.leaving_release
            (.inl (System.doomed_destroy (h.tracked r (List.mem_map_of_mem hmem))))
        · rename_i heq
          exact h.leaving r' hr' fun hin => hnot (ref_mem_filter h hmem heq hin)

/-- The loops of `Clear`. -/
theorem setRooms_rooms (m : RoomManager) {es : List (Id × ℕ)} (hrefs : (es.map Prod.snd).Nodup)
    (f : System → System) (r : ℕ) :
    (m.setRooms es f).rooms r = if r ∈ es.map Prod.snd then f (m.rooms r) else m.rooms r := by
  induction es generalizing m with
  | nil => rfl
  | cons e es ih =>
      rw [List.map_cons,List.nodup_cons] at hrefs
      rw [setRooms,List.foldl_cons]
      refine (ih _ hrefs.2).trans ?_
      rw [setRoom_rooms]
      by_cases hr : r = e.2
      · subst hr
        rw [if_neg hrefs.1,if_pos rfl,if_pos (List.mem_map.mpr ⟨e,List.mem_cons_self,rfl⟩)]
      · rw [if_neg hr]
        simp only [List.map_cons,List.mem_cons,hr,false_or]

theorem setRooms_next (m : RoomManager) (es : List (Id × ℕ)) (f : System → System) :
    (m.setRooms es f).next = m.next := by
  induction es generalizing m with
  | nil => rfl
  | cons e es ih => exact ih (m.setRoom e.2 (f (m.rooms e.2)))

theorem Inv.clear {m : RoomManager} (h : Inv m) : Inv m.clear := by
  have hrooms (r : ℕ) : m.clear.rooms r =
      if r ∈ m.idRoomMap.map Prod.snd then (m.rooms r).destroy.release else m.rooms r := by
    refine (setRooms_rooms _ h.refs System.release r).trans ?_
    rw [setRooms_rooms m h.refs System.destroy r]
    split
    · rfl
    · rfl
  constructor
  case keys => exact List.nodup_nil
  case refs => exact List.nodup_nil
  case known => exact fun e he => absurd he List.not_mem_nil
  case named => exact fun e he => absurd he List.not_mem_nil
  case tracked => exact fun r hr => absurd hr List.not_mem_nil
  case leaving =>
    intro r hr _
    have hnext : m.clear.next = m.next := (setRooms_next _ _ _).trans (setRooms_next m _ _)
    rw [hnext] at hr
    rw [hrooms]
    split
    · rename_i hmem
      exact System.leaving_release (.inl (System.doomed_destroy (h.tracked r hmem)))
    · rename_i hnot
      exact h.leaving r hr hnot

theorem Inv.step {m : RoomManager} (h : Inv m) (e : Event) : Inv (m.step e) := by
  cases e with
  | createRoom id => exact h.createRoom id
  | destroyRoom id => exact h.destroyRoom id
  | clear => exact h.clear
  | onRoom id e =>
      rw [RoomManager.step]
      cases hfind : m.getRoomById id with
      | none => exact h
      | some r =>
          have hmem : r ∈ m.idRoomMap.map Prod.snd :=
            List.mem_map.mpr ⟨_,mem_of_lookup hfind,rfl⟩
          exact h.setRoom (fun _ => System.step_room_id _ e) (fun _ ht => ht.step e)
            fun hnot => absurd hmem hnot
  | inBackground r e =>
      rw [RoomManager.step]
      split
      · rename_i he
        simp only
        split
        · rename_i hmem
          exact h.setRoom (fun _ => System.step_room_id _ e) (fun _ ht => ht.step e)
            fun hnot => absurd hmem hnot
        · rename_i hnot
          exact h.setRoom (fun hmem => absurd hmem hnot) (fun hmem => absurd hmem hnot)
            fun _ hl => hl.step he
      · exact h

theorem Inv.posted {m : RoomManager} (h : Inv m) {r : ℕ} (hr : r < m.next) {x : Id}
    (hx : ((m.rooms r).streams x).tasks ≠ []) : x ∈ (m.rooms r).used := by
  by_cases hmem : r ∈ m.idRoomMap.map Prod.snd
  · exact (h.tracked r hmem).posted x hx
  · exact (h.leaving r hr hmem).posted hx

theorem inv_run (es : List Event) : Inv (run step {} es) :=
  run_invariant inv_start (fun _ e h => h.step e) es

theorem getRoomById_iff {m : RoomManager} (h : Inv m) {id : Id} {r : ℕ} :
    m.getRoomById id = some r ↔ (id,r) ∈ m.idRoomMap := by
  constructor
  · exact mem_of_lookup
  · intro hmem
    cases hfind : m.getRoomById id with
    | none =>
        exact absurd (List.mem_map.mpr ⟨_,hmem,rfl⟩) (lookup_eq_none.mp hfind)
    | some r' =>
        have hsame : (id,r') = (id,r) :=
          List.inj_on_of_nodup_map h.keys (mem_of_lookup hfind) hmem rfl
        cases hsame
        rfl

/-- What is done to one room leaves the others alone. -/
theorem rooms_of_ne {m : RoomManager} (h : Inv m) {id id' : Id} {r r' : ℕ}
    (hr : m.getRoomById id = some r) (hr' : m.getRoomById id' = some r') (hne : id ≠ id')
    (s : System) : (m.setRoom r' s).rooms r = m.rooms r := by
  rw [setRoom_rooms,if_neg]
  intro heq
  have hsame : (id,r) = (id',r') :=
    List.inj_on_of_nodup_map h.refs ((getRoomById_iff h).mp hr) ((getRoomById_iff h).mp hr') heq
  cases hsame
  exact hne rfl

/-! ### Everything pending comes to an end -/

/-- Something is pending in a room that there is. -/
def Busy (m : RoomManager) : Event → Prop
  | .inBackground r e => r < m.next ∧ (m.rooms r).Busy e
  | _ => False

def total (m : RoomManager) (g : System → ℕ) : ℕ := ∑ r ∈ Finset.range m.next, g (m.rooms r)

/-- The work of all rooms: a handler may post tasks, a task only brings a handler that was to
come. -/
def work (m : RoomManager) : ℕ × ℕ := (m.total System.toHandle,m.total System.pendingTasks)

theorem total_lt {m : RoomManager} {r : ℕ} (hr : r < m.next) {s : System} {g : System → ℕ}
    (h : g s < g (m.rooms r)) : (m.setRoom r s).total g < m.total g := by
  apply Finset.sum_lt_sum
  · intro r' _
    rw [setRoom_rooms]
    split
    · rename_i heq
      rw [heq]
      exact Nat.le_of_lt h
    · exact Nat.le_refl _
  · refine ⟨r,Finset.mem_range.mpr hr,?_⟩
    rw [setRoom_rooms,if_pos rfl]
    exact h

theorem total_eq {m : RoomManager} {r : ℕ} {s : System} {g : System → ℕ}
    (h : g s = g (m.rooms r)) : (m.setRoom r s).total g = m.total g := by
  refine Finset.sum_congr rfl fun r' _ => ?_
  rw [setRoom_rooms]
  split
  · rename_i heq
    rw [heq,h]
  · rfl

theorem isBackground_of_busy {s : System} {e : System.Event} (h : s.Busy e) :
    System.isBackground e = true := by
  cases e with
  | runTask x => rfl
  | runHandler => rfl
  | runConnected => rfl
  | join _ | leave _ | kickoutParticipant _ | participantPublish _ _
  | participantSubscribe _ _ _ _ | shutdown _ | connected _ => exact absurd h id

/-- What goes on lowers the work of its room. -/
theorem work_step {s : System} {e : System.Event} (he : s.Busy e)
    (hposted : ∀ x, (s.streams x).tasks ≠ [] → x ∈ s.used) :
    (s.step e).toHandle < s.toHandle ∨
      (s.step e).toHandle = s.toHandle ∧ (s.step e).pendingTasks < s.pendingTasks := by
  cases e with
  | runTask x =>
      have hwork := System.work_runTask (hposted x he) he
      exact (Nat.lt_or_eq_of_le hwork.1).imp_right fun heq => ⟨heq,hwork.2⟩
  | runHandler => exact .inl (System.toHandle_runHandler he)
  | runConnected => exact .inl (System.toHandle_runConnected he)
  | join _ | leave _ | kickoutParticipant _ | participantPublish _ _
  | participantSubscribe _ _ _ _ | shutdown _ | connected _ => exact absurd he id

/-- Whatever threads run, they run out of work. -/
theorem lowers_work : Lowers step Inv Busy (Prod.Lex (· < ·) (· < ·)) work where
  wf := WellFounded.prod_lex Nat.lt_wfRel.wf Nat.lt_wfRel.wf
  keeps _ e h _ := h.step e
  lowers := by
    intro m e h hbusy
    cases e with
    | inBackground r e =>
        obtain ⟨hr,he⟩ := hbusy
        have hrelease (g : System → ℕ) (hg : ∀ s, g (System.release s) = g s) :
            g (if r ∈ m.idRoomMap.map Prod.snd then (m.rooms r).step e
              else ((m.rooms r).step e).release) = g ((m.rooms r).step e) := by
          split
          · rfl
          · exact hg _
        have hhandle := hrelease _ System.toHandle_release
        have htasks := hrelease _ System.pendingTasks_release
        rw [step,if_pos (isBackground_of_busy he)]
        rcases work_step he fun x => h.posted hr with hlt | ⟨heq,hlt⟩
        · exact .left _ _ (total_lt hr (hhandle ▸ hlt))
        · rw [work,work,total_eq (hhandle.trans heq)]
          exact .right _ (total_lt hr (htasks ▸ hlt))
    | createRoom _ | destroyRoom _ | clear | onRoom _ _ => exact absurd hbusy id

/-- The rooms over any run. The ids lead to distinct rooms, whatever is pending comes to an
end, and a room in which nothing is pending either stands in the map, with streams of its
participants only, or is destructed with all its streams shut down and held by nothing. -/
theorem rooms_torn_down (es : List Event) :
    let m := run step {} es
    (m.idRoomMap.map Prod.fst).Nodup ∧ (m.idRoomMap.map Prod.snd).Nodup ∧
      (∀ f : ℕ → Event, ∃ n, ¬Busy (run step m (upTo f n)) (f n)) ∧
      ∀ r < m.next, (m.rooms r).Quiet → (m.rooms r).connecting = [] →
        ((∃ id, (id,r) ∈ m.idRoomMap ∧ (m.rooms r).room.id = id) ∧
          (m.rooms r).expired = false ∧
          ∀ p x, (m.rooms r).room.Owns p x → p ∈ (m.rooms r).room.participantIdSet) ∨
        (r ∉ m.idRoomMap.map Prod.snd ∧ (m.rooms r).Empty) := by
  have h := inv_run es
  refine ⟨h.keys,h.refs,lowers_work.ends h,?_⟩
  intro r hr hq hconnecting
  by_cases hmem : r ∈ (run step {} es).idRoomMap.map Prod.snd
  · have htracked := h.tracked r hmem
    obtain ⟨e,he,rfl⟩ := List.mem_map.mp hmem
    exact .inl ⟨⟨e.1,he,h.named e he⟩,htracked.inv.present,fun p x => htracked.inv.quiet_owns hq⟩
  · cases h.leaving r hr hmem with
    | inl hdoomed => exact absurd hdoomed.2 (not_or.mpr ⟨not_not.mpr hq.2,not_not.mpr hconnecting⟩)
    | inr hgone => exact .inr ⟨hmem,hgone.empty hq⟩

end RoomManager
end Ylrtc.Signaling
