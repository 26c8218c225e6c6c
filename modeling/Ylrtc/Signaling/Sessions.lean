import Ylrtc.Lib.Run
import Ylrtc.Signaling.Room

/-!
# Signaling sessions

The rooms of `RoomManager`, and the WebSocket sessions of `signaling_server_base.cpp` that
bind a client to a participant of a room. Everything here runs on the main thread. The
participants of the rooms and the bindings of the sessions are tied by the join request and by
the error handler alone.
-/
namespace Ylrtc.Signaling
open CursorParser Run

@[ext] structure SessionInfo where
  roomId : Id := []
  participantId : Id := []
  deriving DecidableEq

/-- A session. It is open until an error of its socket is handled; the functions do not look
at `failed`. -/
structure Session where
  sessionInfo : SessionInfo := {}
  failed : Bool := false

structure Server where
  idRoomMap : Id → Option Room
  sessions : ℕ → Option Session := fun _ => none

namespace Server

def setRoom (s : Server) (id : Id) (room : Room) : Server :=
  { s with idRoomMap := Function.update s.idRoomMap id (some room) }

def setSession (s : Server) (n : ℕ) (session : Session) : Server :=
  { s with sessions := Function.update s.sessions n (some session) }

/-- The join request of `HandleSignaling`. A participant that is there already is joined all
the same. -/
def join (s : Server) (n : ℕ) (session : Session) (roomId participantId : Id) : Server :=
  match s.idRoomMap roomId with
  | some room =>
      (s.setRoom roomId (room.join participantId).1).setSession n
        { session with sessionInfo := ⟨roomId,participantId⟩ }
  | none => s

/-- `HandleWsError`. -/
def handleWsError (s : Server) (n : ℕ) (session : Session) : Server :=
  match s.idRoomMap session.sessionInfo.roomId with
  | some room =>
      (s.setRoom session.sessionInfo.roomId
        (room.leave session.sessionInfo.participantId).1).setSession n
          { session with failed := true }
  | none => s.setSession n { session with failed := true }

/-- A request may still be read from a session that has failed to write. -/
inductive Event where
  | opened (n : ℕ)
  | join (n : ℕ) (roomId participantId : Id)
  | error (n : ℕ)

def step (s : Server) : Event → Server
  | .opened n => if (s.sessions n).isNone then s.setSession n {} else s
  | .join n roomId participantId =>
      match s.sessions n with
      | some session => s.join n session roomId participantId
      | none => s
  | .error n =>
      match s.sessions n with
      | some session => s.handleWsError n session
      | none => s

/-- Rooms without participants, and no sessions. -/
def start (rooms : Id → Bool) : Server where
  idRoomMap id := if rooms id then some { id := id } else none

/-! ### Members and bindings -/

/-- The participant is in the set of the room. -/
def Member (s : Server) (info : SessionInfo) : Prop :=
  ∃ room, s.idRoomMap info.roomId = some room ∧ info.participantId ∈ room.participantIdSet

def Exists (s : Server) (roomId : Id) : Prop := s.idRoomMap roomId ≠ none

/-- An open session other than the given one has the binding. -/
def BoundBesides (s : Server) (n : ℕ) (info : SessionInfo) : Prop :=
  ∃ m session, m ≠ n ∧ s.sessions m = some session ∧ session.failed = false ∧
    session.sessionInfo = info

/-- An open session has the binding. -/
def Bound (s : Server) (info : SessionInfo) : Prop :=
  ∃ m session, s.sessions m = some session ∧ session.failed = false ∧
    session.sessionInfo = info

/-- The participants of each room are those that open sessions are bound to. -/
def Agree (s : Server) : Prop :=
  ∀ info : SessionInfo, s.Exists info.roomId → (s.Member info ↔ s.Bound info)

theorem bound_iff {s : Server} {n : ℕ} {session : Session} (hn : s.sessions n = some session)
    (info : SessionInfo) : s.Bound info ↔
      s.BoundBesides n info ∨ session.failed = false ∧ session.sessionInfo = info := by
  constructor
  · rintro ⟨m,x,hm,hf,hi⟩
    by_cases hmn : m = n
    · subst hmn
      rw [hn,Option.some.injEq] at hm
      subst hm
      exact .inr ⟨hf,hi⟩
    · exact .inl ⟨m,x,hmn,hm,hf,hi⟩
  · rintro (⟨m,x,_,hm,hf,hi⟩ | ⟨hf,hi⟩)
    · exact ⟨m,x,hm,hf,hi⟩
    · exact ⟨n,session,hn,hf,hi⟩

theorem setSession_self (s : Server) (n : ℕ) (session : Session) :
    (s.setSession n session).sessions n = some session := by
  rw [setSession]
  exact Function.update_self n _ s.sessions

theorem boundBesides_setSession (s : Server) (n : ℕ) (session : Session) (info : SessionInfo) :
    (s.setSession n session).BoundBesides n info ↔ s.BoundBesides n info := by
  have hother : ∀ m, m ≠ n → (s.setSession n session).sessions m = s.sessions m :=
    fun m hm => Function.update_of_ne hm _ _
  constructor
  · rintro ⟨m,x,hm,hx,h⟩
    exact ⟨m,x,hm,hother m hm ▸ hx,h⟩
  · rintro ⟨m,x,hm,hx,h⟩
    exact ⟨m,x,hm,(hother m hm).trans hx,h⟩

/-- A session is set: the other sessions, and what the session itself is bound to. -/
theorem bound_setSession (s : Server) (n : ℕ) (session : Session) (info : SessionInfo) :
    (s.setSession n session).Bound info ↔
      s.BoundBesides n info ∨ session.failed = false ∧ session.sessionInfo = info := by
  rw [bound_iff (s.setSession_self n session),boundBesides_setSession]

theorem exists_setRoom {s : Server} {id : Id} {old : Room} (hold : s.idRoomMap id = some old)
    (room : Room) (roomId : Id) : (s.setRoom id room).Exists roomId ↔ s.Exists roomId := by
  by_cases hid : roomId = id
  · subst hid
    simp [Exists,setRoom,hold]
  · simp [Exists,setRoom,Function.update_of_ne hid]

theorem member_setRoom (s : Server) (id : Id) (room : Room) (info : SessionInfo) :
    (s.setRoom id room).Member info ↔
      if info.roomId = id then info.participantId ∈ room.participantIdSet else s.Member info := by
  by_cases hid : info.roomId = id
  · rw [if_pos hid]
    simp [Member,setRoom,hid]
  · rw [if_neg hid]
    simp [Member,setRoom,Function.update_of_ne hid]

/-- After a join the participant is a member of the room. -/
theorem member_join {s : Server} {n : ℕ} {session : Session} {roomId participantId : Id}
    {room : Room} (hroom : s.idRoomMap roomId = some room) (info : SessionInfo) :
    (s.join n session roomId participantId).Member info ↔
      s.Member info ∨ info = ⟨roomId,participantId⟩ := by
  simp only [join,hroom]
  change (s.setRoom roomId (room.join participantId).1).Member info ↔ _
  rw [member_setRoom]
  obtain ⟨r,p⟩ := info
  by_cases hid : r = roomId
  · subst hid
    have hset : p ∈ (room.join participantId).1.participantIdSet ↔
        p ∈ room.participantIdSet ∨ p = participantId := by
      rw [Room.join]
      split <;> grind
    simp only [if_pos,hset,Member,hroom,Option.some.injEq,exists_eq_left',SessionInfo.mk.injEq,
      true_and]
  · simp [hid]

theorem exists_join {s : Server} {n : ℕ} {session : Session} {roomId participantId : Id}
    {room : Room} (hroom : s.idRoomMap roomId = some room) (id : Id) :
    (s.join n session roomId participantId).Exists id ↔ s.Exists id := by
  simp only [join,hroom]
  exact exists_setRoom hroom _ id

theorem bound_join {s : Server} {n : ℕ} {session : Session} {roomId participantId : Id}
    {room : Room} (hroom : s.idRoomMap roomId = some room) (info : SessionInfo) :
    (s.join n session roomId participantId).Bound info ↔
      s.BoundBesides n info ∨ session.failed = false ∧ info = ⟨roomId,participantId⟩ := by
  simp only [join,hroom]
  rw [bound_setSession,eq_comm (a := info)]
  rfl

/-- After an error the participant of the session is no member, where there is a room to
leave. -/
theorem member_handleWsError {s : Server} {n : ℕ} {session : Session} (info : SessionInfo) :
    (s.handleWsError n session).Member info ↔ s.Member info ∧ info ≠ session.sessionInfo := by
  rw [handleWsError]
  obtain ⟨r,p⟩ := info
  split
  · rename_i room hroom
    change (s.setRoom _ _).Member _ ↔ _
    rw [member_setRoom]
    by_cases hid : r = session.sessionInfo.roomId
    · subst hid
      rw [if_pos rfl]
      simp only [Room.leave,Finset.mem_erase,Member,hroom,Option.some.injEq,exists_eq_left',ne_eq,
        SessionInfo.ext_iff,true_and]
      exact and_comm
    · rw [if_neg hid]
      simp only [ne_eq,SessionInfo.ext_iff,hid,false_and,not_false_eq_true,and_true]
  · rename_i hroom
    change s.Member _ ↔ _
    constructor
    · rintro ⟨room,hr,hp⟩
      refine ⟨⟨room,hr,hp⟩,?_⟩
      intro hinfo
      rw [hinfo,hroom] at hr
      exact absurd hr (by simp)
    · exact And.left

theorem exists_handleWsError {s : Server} {n : ℕ} {session : Session} (id : Id) :
    (s.handleWsError n session).Exists id ↔ s.Exists id := by
  rw [handleWsError]
  split
  · rename_i room hroom
    exact exists_setRoom hroom _ id
  · rfl

theorem bound_handleWsError {s : Server} {n : ℕ} {session : Session} (info : SessionInfo) :
    (s.handleWsError n session).Bound info ↔ s.BoundBesides n info := by
  rw [handleWsError]
  split
  · rw [bound_setSession]
    simp only [Bool.true_eq_false,false_and,or_false]
    exact Iff.rfl
  · rw [bound_setSession]
    simp only [Bool.true_eq_false,false_and,or_false]

/-! ### When the two agree -/

/-- The events that leave the participants of the rooms and the bindings in agreement: a new
session, which is bound to the empty ids, finds no room of that id or the empty participant
bound there; a session that moves was alone with a binding that is no member, and one that
has failed joins for a session that is open; an error comes to a session that shares its
binding with no other. -/
def Keeps (s : Server) : Event → Prop
  | .opened n => s.sessions n = none → s.Exists [] → s.Bound {}
  | .join n roomId participantId => ∀ session, s.sessions n = some session → s.Exists roomId →
      if session.failed then s.Bound ⟨roomId,participantId⟩
      else session.sessionInfo = ⟨roomId,participantId⟩ ∨
        ¬ s.Exists session.sessionInfo.roomId ∨ s.BoundBesides n session.sessionInfo
  | .error n => ∀ session, s.sessions n = some session →
      ¬ s.Exists session.sessionInfo.roomId ∨ ¬ s.BoundBesides n session.sessionInfo

theorem agree_opened_iff {s : Server} (h : s.Agree) {n : ℕ} (hn : s.sessions n = none) :
    (s.setSession n {}).Agree ↔ (s.Exists [] → s.Bound {}) := by
  have hothers : ∀ info, s.BoundBesides n info ↔ s.Bound info := by
    intro info
    constructor
    · rintro ⟨m,x,_,hx⟩
      exact ⟨m,x,hx⟩
    · rintro ⟨m,x,hx,hi⟩
      refine ⟨m,x,?_,hx,hi⟩
      rintro rfl
      rw [hn] at hx
      exact absurd hx (by simp)
  have hbound : ∀ info, (s.setSession n {}).Bound info ↔ s.Bound info ∨ info = {} := by
    intro info
    rw [bound_setSession,hothers,eq_comm (a := info)]
    simp only [true_and]
  constructor
  · intro hagree hempty
    have hmember := (hagree {} hempty).mpr ((hbound {}).mpr (.inr rfl))
    exact (h {} hempty).mp hmember
  · intro hempty info hinfo
    rw [hbound]
    refine (h info hinfo).trans ⟨.inl,?_⟩
    rintro (hb | rfl)
    · exact hb
    · exact hempty hinfo

theorem agree_join_iff {s : Server} (h : s.Agree) {n : ℕ} {session : Session}
    (hn : s.sessions n = some session) {roomId participantId : Id} {room : Room}
    (hroom : s.idRoomMap roomId = some room) :
    (s.join n session roomId participantId).Agree ↔
      if session.failed then s.Bound ⟨roomId,participantId⟩
      else session.sessionInfo = ⟨roomId,participantId⟩ ∨
        ¬ s.Exists session.sessionInfo.roomId ∨ s.BoundBesides n session.sessionInfo := by
  have hnew : s.Exists roomId := by simp [Exists,hroom]
  have hagree : (s.join n session roomId participantId).Agree ↔
      ∀ info : SessionInfo, s.Exists info.roomId →
        (s.Bound info ∨ info = ⟨roomId,participantId⟩ ↔
          s.BoundBesides n info ∨ session.failed = false ∧ info = ⟨roomId,participantId⟩) := by
    refine forall_congr' fun info => ?_
    rw [exists_join hroom,member_join hroom,bound_join hroom]
    refine imp_congr_right fun hinfo => ?_
    rw [h info hinfo]
  rw [hagree]
  simp only [bound_iff hn]
  by_cases hf : session.failed = true
  · simp only [hf,Bool.true_eq_false,false_and,or_false,if_true]
    constructor
    · intro hall
      exact (hall ⟨roomId,participantId⟩ hnew).mp (.inr rfl)
    · intro hb info _
      refine ⟨?_,.inl⟩
      rintro (hi | rfl)
      · exact hi
      · exact hb
  · rw [Bool.not_eq_true] at hf
    simp only [hf,true_and,Bool.false_eq_true,if_false]
    constructor
    · intro hall
      by_cases hold : s.Exists session.sessionInfo.roomId
      · have hi := (hall session.sessionInfo hold).mp (.inl (.inr rfl))
        exact hi.elim (fun hb => .inr (.inr hb)) .inl
      · exact .inr (.inl hold)
    · intro hkeeps info hinfo
      constructor
      · rintro ((hb | rfl) | hi)
        · exact .inl hb
        · rcases hkeeps with hk | hk | hk
          · exact .inr hk
          · exact absurd hinfo hk
          · exact .inl hk
        · exact .inr hi
      · rintro (hb | hi)
        · exact .inl (.inl hb)
        · exact .inr hi

theorem agree_error_iff {s : Server} (h : s.Agree) {n : ℕ} {session : Session}
    (hn : s.sessions n = some session) : (s.handleWsError n session).Agree ↔
      ¬ s.Exists session.sessionInfo.roomId ∨ ¬ s.BoundBesides n session.sessionInfo := by
  have hagree : (s.handleWsError n session).Agree ↔
      ∀ info : SessionInfo, s.Exists info.roomId →
        (s.Bound info ∧ info ≠ session.sessionInfo ↔ s.BoundBesides n info) := by
    refine forall_congr' fun info => ?_
    rw [exists_handleWsError,member_handleWsError,bound_handleWsError]
    refine imp_congr_right fun hinfo => ?_
    rw [h info hinfo]
  rw [hagree]
  simp only [bound_iff hn]
  constructor
  · intro hall
    by_cases hold : s.Exists session.sessionInfo.roomId
    · refine .inr fun hb => ?_
      exact ((hall session.sessionInfo hold).mpr hb).2 rfl
    · exact .inl hold
  · intro hkeeps info hinfo
    constructor
    · rintro ⟨hb | hi,hne⟩
      · exact hb
      · exact absurd hi.2.symm hne
    · intro hb
      refine ⟨.inl hb,?_⟩
      rintro rfl
      rcases hkeeps with hk | hk
      · exact hk hinfo
      · exact hk hb

/-- One event keeps the agreement exactly on its condition. -/
theorem agree_step_iff {s : Server} (h : s.Agree) (e : Event) :
    (s.step e).Agree ↔ s.Keeps e := by
  cases e with
  | opened n =>
      rw [step,Keeps]
      split
      · rename_i hn
        rw [Option.isNone_iff_eq_none] at hn
        rw [agree_opened_iff h hn]
        simp only [hn,forall_const]
      · rename_i hn
        rw [Option.isNone_iff_eq_none] at hn
        exact iff_of_true h fun hnone => absurd hnone hn
  | join n roomId participantId =>
      rw [step,Keeps]
      split
      · rename_i session hn
        simp only [hn,Option.some.injEq,forall_eq']
        cases hroom : s.idRoomMap roomId with
        | some room =>
            rw [agree_join_iff h hn hroom]
            have hnew : s.Exists roomId := by simp [Exists,hroom]
            simp only [hnew,forall_const]
        | none =>
            have hnew : ¬ s.Exists roomId := by simp [Exists,hroom]
            simp only [join,hroom,hnew,false_implies,iff_true]
            exact h
      · rename_i hn
        simp only [hn,reduceCtorEq,false_implies,implies_true,iff_true]
        exact h
  | error n =>
      rw [step,Keeps]
      split
      · rename_i session hn
        simp only [agree_error_iff h hn,hn,Option.some.injEq,forall_eq']
      · rename_i hn
        simp only [hn,reduceCtorEq,false_implies,implies_true,iff_true]
        exact h

theorem agree_start (rooms : Id → Bool) : (start rooms).Agree := by
  intro info hinfo
  constructor
  · rintro ⟨room,hroom,hp⟩
    simp only [start] at hroom
    split at hroom
    · rw [← Option.some.inj hroom] at hp
      exact absurd hp (Finset.notMem_empty _)
    · exact absurd hroom (by simp)
  · rintro ⟨m,session,hm,_⟩
    exact absurd hm (by simp [start])

/-- The participants of the rooms are those of the open sessions in every state of a run
exactly if every event of the run meets its condition. -/
theorem run_agree_iff (rooms : Id → Bool) (es : List Event) :
    (∀ before after, es = before++after → (run step (start rooms) before).Agree) ↔
      Along (fun before e => (run step (start rooms) before).Keeps e) es := by
  rw [reached_iff_along (agree_start rooms)]
  refine along_iff_of_invariant (agree_start rooms) (fun _ _ _ hnext => hnext)
    (fun s e h => agree_step_iff h e) es

/-- Two sessions of one participant: when the first one fails, the participant of the second
one is put out of the room. -/
theorem not_agree : ¬ (run step (start fun id => id = [1])
    [.opened 0,.join 0 [1] [2],.opened 1,.join 1 [1] [2],.error 0]).Agree := by
  intro h
  have hroom : (run step (start fun id => id = [1])
      [.opened 0,.join 0 [1] [2],.opened 1,.join 1 [1] [2],.error 0]).Exists [1] := by
    simp [run,step,start,join,handleWsError,setRoom,setSession,Exists]
  have hmember := (h ⟨[1],[2]⟩ hroom).mpr ⟨1,⟨⟨[1],[2]⟩,false⟩,rfl,rfl,rfl⟩
  obtain ⟨room,hr,hp⟩ := hmember
  have hset : room.participantIdSet = ∅ := by
    rw [← Option.some.inj hr]
    rfl
  rw [hset] at hp
  exact Finset.notMem_empty _ hp

end Server
end Ylrtc.Signaling
