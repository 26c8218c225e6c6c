import Ylrtc.Lib.Segments
import Ylrtc.Signaling.Json
import Ylrtc.Signaling.RoomManager

/-!
# The management API

`ManageApi::HandleRequest` of `signaling/manage_api.h`: HTTP requests that create, list and
delete rooms and that put a participant out of a room, and which rooms stand after any run of
them. The requests come parsed, and the JSON library is a parameter.
-/
namespace Ylrtc.Signaling.ManageApi
open CursorParser Run

variable {J : JsonLibrary}

/-- `http::verb`, as far as the methods are told apart. -/
inductive Verb where
  | get
  | post
  | delete
  | other
  deriving DecidableEq

structure Request where
  method : Verb
  target : Text
  body : Text := []
  version : ℕ := 11
  keepAlive : Bool := true

inductive Status where
  | ok
  | badRequest
  deriving DecidableEq

structure Response where
  status : Status
  version : ℕ
  keepAlive : Bool
  contentType : Option Text
  contentLength : Option ℕ
  body : Text

def badRequest (req : Request) (why : Text) : Response where
  status := .badRequest
  version := req.version
  keepAlive := req.keepAlive
  contentType := some (text "text/html")
  contentLength := some why.length
  body := why

/-- The response at the end. The body has been moved into it when the code asks whether there is
one, so that it gets neither a type nor a length. -/
def ok (req : Request) (body : Text) : Response where
  status := .ok
  version := req.version
  keepAlive := req.keepAlive
  contentType := none
  contentLength := none
  body := body

/-- The order in which an unordered map is gone through. -/
structure Iteration where
  order : List Id → List Id
  perm : ∀ ids, (order ids).Perm ids

abbrev kSlash : Byte := 47

def kRequestParseError : Text := text "Request parse error"

/-- `find(..) != npos`. -/
def found (pattern s : Text) : Bool := decide (pattern <:+: s)

/-- A text that is dumped, where what is thrown is caught at the end. -/
def dumped (dump : Except J.Error Text) : Except Text Text :=
  dump.mapError fun _ => kRequestParseError

/-- The `id` that a body asks for. -/
def requestedId (J : JsonLibrary) (body : Text) : Except J.Error Id := do
  J.toText (← J.atKey (← J.parse body) "id")

/-- The branch of the rooms: the body of the response, or why the request is refused. -/
def onRooms (J : JsonLibrary) (iteration : Iteration) (m : RoomManager) (req : Request) :
    RoomManager × Except Text Text :=
  match req.method with
  | .post =>
      match requestedId J req.body with
      | .error _ => (m,.error kRequestParseError)
      | .ok roomId =>
          match m.createRoom roomId with
          | (m,.kOk) => (m,dumped (J.dump (J.object [("id",J.ofText roomId)])))
          | (m,result) => (m,.error (ylErrorToString result))
  | .get => (m,dumped (J.dump (J.array ((iteration.order m.getAllRoomId).map J.ofText))))
  | .delete =>
      match Pieces.behindLast kSlash req.target with
      | none | some [] => (m,.error kRequestParseError)
      | some roomId => (m.destroyRoom roomId,.ok [])
  | .other => (m,.error (text "Unsupported HTTP-method"))

/-- The branch of the participants. -/
def onParticipants (m : RoomManager) (req : Request) : RoomManager × Except Text Text :=
  match req.method,split req.target kSlash with
  | .delete,[_,roomId,_,participantId] =>
      match m.getRoomById roomId with
      | some _ => (m.step (.onRoom roomId (.kickoutParticipant participantId)),.ok [])
      | none => (m,.error kRequestParseError)
  | _,_ => (m,.error kRequestParseError)

def dispatch (J : JsonLibrary) (iteration : Iteration) (m : RoomManager) (req : Request) :
    RoomManager × Except Text Text :=
  if found (text "/rooms") req.target && !found (text "/participants") req.target then
    onRooms J iteration m req
  else if found (text "/participants") req.target then onParticipants m req
  else (m,.error kRequestParseError)

def handleRequest (J : JsonLibrary) (iteration : Iteration) (m : RoomManager) (req : Request) :
    RoomManager × Response :=
  if req.method = .other then (m,badRequest req (text "Unknown HTTP-method"))
  else if req.target.head? ≠ some kSlash || found (text "..") req.target then
    (m,badRequest req (text "Illegal request-target"))
  else
    match dispatch J iteration m req with
    | (m,.ok body) => (m,ok req body)
    | (m,.error why) => (m,badRequest req why)

/-! ### What a request asks for -/

structure Legal (target : Text) : Prop where
  absolute : target.head? = some kSlash
  inside : ¬text ".." <:+: target

structure OfRooms (target : Text) : Prop extends Legal target where
  rooms : text "/rooms" <:+: target
  others : ¬text "/participants" <:+: target

structure OfParticipants (target : Text) : Prop extends Legal target where
  participants : text "/participants" <:+: target

/-- What is asked of the rooms, apart from their names. -/
inductive Asks (J : JsonLibrary) (req : Request) : RoomManager.Event → Prop where
  | create {id : Id} (method : req.method = .post) (target : OfRooms req.target)
      (body : requestedId J req.body = .ok id) : Asks J req (.createRoom id)
  | destroy {id : Id} {front : Text} (method : req.method = .delete) (target : OfRooms req.target)
      (ends : req.target = front++kSlash::id) (name : id ≠ []) (last : kSlash ∉ id) :
      Asks J req (.destroyRoom id)
  | kickout {id participant : Id} {a b : Text} (method : req.method = .delete)
      (target : OfParticipants req.target)
      (parts : split req.target kSlash = [a,id,b,participant]) :
      Asks J req (.onRoom id (.kickoutParticipant participant))

variable {iteration : Iteration} {m : RoomManager} {req : Request}

theorem Asks.unique {e e' : RoomManager.Event} (h : Asks J req e) (h' : Asks J req e') :
    e = e' := by
  cases h with
  | create hmethod htarget hbody =>
      cases h' with
      | create _ _ hbody' =>
          rw [hbody] at hbody'
          cases hbody'
          rfl
      | destroy hmethod' | kickout hmethod' =>
          rw [hmethod] at hmethod'
          cases hmethod'
  | destroy hmethod htarget hends hname hlast =>
      cases h' with
      | create hmethod' =>
          rw [hmethod] at hmethod'
          cases hmethod'
      | destroy _ _ hends' _ hlast' =>
          have hfirst := Pieces.behindLast_eq_some.mpr ⟨hlast,_,hends⟩
          rw [Pieces.behindLast_eq_some.mpr ⟨hlast',_,hends'⟩] at hfirst
          cases hfirst
          rfl
      | kickout _ htarget' => exact absurd htarget'.participants htarget.others
  | kickout hmethod htarget hparts =>
      cases h' with
      | create hmethod' =>
          rw [hmethod] at hmethod'
          cases hmethod'
      | destroy _ htarget' => exact absurd htarget.participants htarget'.others
      | kickout _ _ hparts' =>
          rw [hparts] at hparts'
          cases hparts'
          rfl

theorem handleRequest_legal (hmethod : req.method ≠ .other) (h : Legal req.target) :
    handleRequest J iteration m req =
      match dispatch J iteration m req with
      | (m,.ok body) => (m,ok req body)
      | (m,.error why) => (m,badRequest req why) := by
  rw [handleRequest,if_neg hmethod,if_neg]
  simp [h.absolute,found,h.inside]

theorem handleRequest_illegal (hmethod : req.method ≠ .other) (h : ¬Legal req.target) :
    handleRequest J iteration m req = (m,badRequest req (text "Illegal request-target")) := by
  rw [handleRequest,if_neg hmethod,if_pos]
  simp only [found,Bool.or_eq_true,decide_eq_true_eq]
  by_contra hnot
  rw [not_or,not_not] at hnot
  exact h ⟨hnot.1,hnot.2⟩

theorem dispatch_rooms (h : OfRooms req.target) :
    dispatch J iteration m req = onRooms J iteration m req := by
  simp [dispatch,found,h.rooms,h.others]

theorem dispatch_participants (h : OfParticipants req.target) :
    dispatch J iteration m req = onParticipants m req := by
  simp [dispatch,found,h.participants]

/-- A request does what it asks for, unless the room that it names is missing or is there. -/
theorem handleRequest_asks {e : RoomManager.Event} (h : Asks J req e) :
    (handleRequest J iteration m req).1 = m.step e := by
  cases h with
  | @create id hmethod htarget hbody =>
      rw [handleRequest_legal (by simp [hmethod]) htarget.toLegal,dispatch_rooms htarget,onRooms]
      simp only [hmethod,hbody,RoomManager.step,RoomManager.createRoom]
      cases m.getRoomById id with
      | some r => rfl
      | none =>
          cases J.dump (J.object [("id",J.ofText id)]) with
          | error e => rfl
          | ok body => rfl
  | @destroy id front hmethod htarget hends hname hlast =>
      have hlast := Pieces.behindLast_eq_some.mpr ⟨hlast,_,hends⟩
      rw [handleRequest_legal (by simp [hmethod]) htarget.toLegal,dispatch_rooms htarget,onRooms]
      simp only [hmethod,hlast,RoomManager.step]
  | @kickout id participant a b hmethod htarget hparts =>
      rw [handleRequest_legal (by simp [hmethod]) htarget.toLegal,dispatch_participants htarget,
        onParticipants]
      simp only [hmethod,hparts]
      cases hfind : m.getRoomById id with
      | some r => rfl
      | none => simp only [RoomManager.step,hfind]

theorem onRooms_idle (htarget : OfRooms req.target) (h : ∀ e, ¬Asks J req e) :
    (onRooms J iteration m req).1 = m := by
  rw [onRooms]
  cases hmethod : req.method with
  | get => rfl
  | other => rfl
  | post =>
      cases hbody : requestedId J req.body with
      | error e => rfl
      | ok id => exact absurd (.create hmethod htarget hbody) (h _)
  | delete =>
      cases hlast : Pieces.behindLast kSlash req.target with
      | none => rfl
      | some id =>
          cases id with
          | nil => rfl
          | cons c id =>
              obtain ⟨hmem,front,hends⟩ := Pieces.behindLast_eq_some.mp hlast
              exact absurd (.destroy hmethod htarget hends (List.cons_ne_nil c id) hmem) (h _)

theorem onParticipants_idle (htarget : OfParticipants req.target) (h : ∀ e, ¬Asks J req e) :
    (onParticipants m req).1 = m := by
  rw [onParticipants]
  split
  · rename_i a id b participant hmethod hparts
    exact absurd (.kickout hmethod htarget hparts) (h _)
  · rfl

theorem handleRequest_idle (h : ∀ e, ¬Asks J req e) : (handleRequest J iteration m req).1 = m := by
  by_cases hmethod : req.method = .other
  · rw [handleRequest,if_pos hmethod]
  by_cases hlegal : Legal req.target
  · have hdispatch : (dispatch J iteration m req).1 = m := by
      rw [dispatch]
      split
      · rename_i hfound
        simp only [found,Bool.and_eq_true,Bool.not_eq_true',decide_eq_true_eq,
          decide_eq_false_iff_not] at hfound
        exact onRooms_idle ⟨hlegal,hfound.1,hfound.2⟩ h
      split
      · rename_i hfound
        exact onParticipants_idle ⟨hlegal,of_decide_eq_true hfound⟩ h
      · rfl
    rw [handleRequest_legal hmethod hlegal]
    split
    · rename_i heq
      rw [heq] at hdispatch
      exact hdispatch
    · rename_i heq
      rw [heq] at hdispatch
      exact hdispatch
  · rw [handleRequest_illegal hmethod hlegal]

/-- What was refused was not done, except that a room may have been created whose id cannot be
told. -/
theorem handleRequest_refused (h : (handleRequest J iteration m req).2.status = .badRequest) :
    (handleRequest J iteration m req).1 = m ∨ ∃ id, Asks J req (.createRoom id) ∧
      (J.dump (J.object [("id",J.ofText id)])).toOption = none := by
  by_cases hasks : ∃ e, Asks J req e
  · obtain ⟨e,he⟩ := hasks
    cases he with
    | @create id hmethod htarget hbody =>
        cases hdump : J.dump (J.object [("id",J.ofText id)]) with
        | error e => exact .inr ⟨id,.create hmethod htarget hbody,by rw [hdump]; rfl⟩
        | ok body =>
            left
            rw [handleRequest_legal (by simp [hmethod]) htarget.toLegal,dispatch_rooms htarget,
              onRooms] at h ⊢
            simp only [hmethod,hbody,RoomManager.createRoom,hdump] at h ⊢
            cases hfind : m.getRoomById id with
            | some r => rfl
            | none =>
                rw [hfind] at h
                cases h
    | @destroy id front hmethod htarget hends hname hlast =>
        have hlast := Pieces.behindLast_eq_some.mpr ⟨hlast,_,hends⟩
        rw [handleRequest_legal (by simp [hmethod]) htarget.toLegal,dispatch_rooms htarget,
          onRooms] at h
        simp only [hmethod,hlast] at h
        cases id with
        | nil => exact absurd rfl hname
        | cons c id => cases h
    | @kickout id participant a b hmethod htarget hparts =>
        left
        rw [handleRequest_asks (.kickout hmethod htarget hparts)]
        rw [handleRequest_legal (by simp [hmethod]) htarget.toLegal,dispatch_participants htarget,
          onParticipants] at h
        simp only [hmethod,hparts] at h
        cases hfind : m.getRoomById id with
        | some r =>
            rw [hfind] at h
            cases h
        | none => simp only [RoomManager.step,hfind]
  · exact .inl (handleRequest_idle (not_exists.mp hasks))

/-- A list of the rooms is sent only by the branch of the rooms. -/
theorem listed (hmethod : req.method = .get)
    (h : (handleRequest J iteration m req).2.status = .ok) :
    J.dump (J.array ((iteration.order m.getAllRoomId).map J.ofText)) =
      .ok (handleRequest J iteration m req).2.body := by
  by_cases hlegal : Legal req.target
  · rw [handleRequest_legal (by simp [hmethod]) hlegal,dispatch] at h ⊢
    cases hrooms : found (text "/rooms") req.target && !found (text "/participants") req.target with
    | true =>
        simp only [hrooms,if_true,onRooms,hmethod] at h ⊢
        cases hdump : J.dump (J.array ((iteration.order m.getAllRoomId).map J.ofText)) with
        | error e =>
            rw [hdump] at h
            cases h
        | ok body => rfl
    | false =>
        simp only [hrooms,Bool.false_eq_true,if_false,onParticipants,hmethod] at h
        split at h
        · rename_i heq
          split at heq <;> cases heq
        · cases h
  · rw [handleRequest_illegal (by simp [hmethod]) hlegal] at h
    cases h

/-! ### Which rooms stand -/

/-- A request is handled, the server is stopped, or a room does something by itself. -/
inductive Event where
  | request (req : Request)
  | clear
  | onRoom (id : Id) (e : System.Event)
  | inBackground (r : ℕ) (e : System.Event)

def step (J : JsonLibrary) (iteration : Iteration) (m : RoomManager) : Event → RoomManager
  | .request req => (handleRequest J iteration m req).1
  | .clear => m.step .clear
  | .onRoom id e => m.step (.onRoom id e)
  | .inBackground r e => m.step (.inBackground r e)

def kTestRoom : Id := text "9527"

/-- The server as it is started. -/
def start : RoomManager := RoomManager.step {} (.createRoom kTestRoom)

def Opens (J : JsonLibrary) (id : Id) : Event → Prop
  | .request req => Asks J req (.createRoom id)
  | _ => False

def Closes (J : JsonLibrary) (id : Id) : Event → Prop
  | .request req => Asks J req (.destroyRoom id)
  | .clear => True
  | _ => False

/-- A room was asked for, or is the one of the start, and was not closed since. -/
def Stands (J : JsonLibrary) (id : Id) (es : List Event) : Prop :=
  (id = kTestRoom ∧ ∀ e ∈ es, ¬Closes J id e) ∨
    ∃ before e after, es = before++e::after ∧ Opens J id e ∧ ∀ e ∈ after, ¬Closes J id e

theorem stands_snoc {id : Id} {es : List Event} {e : Event} :
    Stands J id (es++[e]) ↔ Opens J id e ∨ Stands J id es ∧ ¬Closes J id e := by
  constructor
  · rintro (⟨hid,hopen⟩ | ⟨before,o,after,heq,hopens,hopen⟩)
    · exact .inr ⟨.inl ⟨hid,fun c hc => hopen c (List.mem_append_left _ hc)⟩,
        hopen e (List.mem_append_right _ List.mem_cons_self)⟩
    · rcases List.eq_nil_or_concat after with rfl | ⟨rest,last,rfl⟩
      · obtain ⟨_,rfl⟩ := List.concat_inj.mp (by simpa using heq)
        exact .inl hopens
      · rw [List.concat_eq_append,← List.cons_append,← List.append_assoc] at heq
        obtain ⟨rfl,hlast⟩ := List.append_inj' heq rfl
        cases hlast
        exact .inr ⟨.inr ⟨before,o,rest,rfl,hopens,fun c hc => hopen c (by simp [hc])⟩,
          hopen e (by simp)⟩
  · rintro (hopens | ⟨hid | ⟨before,o,after,rfl,hopens,hopen⟩,hclosed⟩)
    · exact .inr ⟨es,e,[],rfl,hopens,fun c hc => absurd hc List.not_mem_nil⟩
    · left
      refine ⟨hid.1,fun c hc => ?_⟩
      rcases List.mem_append.mp hc with hc | hc
      · exact hid.2 c hc
      · rw [List.mem_singleton.mp hc]
        exact hclosed
    · refine .inr ⟨before,o,after++[e],by simp,hopens,fun c hc => ?_⟩
      rcases List.mem_append.mp hc with hc | hc
      · exact hopen c hc
      · rw [List.mem_singleton.mp hc]
        exact hclosed

theorem mem_createRoom {id id' : Id} : id ∈ (m.step (.createRoom id')).getAllRoomId ↔
    id = id' ∨ id ∈ m.getAllRoomId := by
  rw [RoomManager.step,RoomManager.createRoom]
  cases hfind : m.getRoomById id' with
  | some r =>
      have hmem : id' ∈ m.getAllRoomId :=
        List.mem_map.mpr ⟨_,RoomManager.mem_of_lookup hfind,rfl⟩
      constructor
      · exact .inr
      · rintro (rfl | h)
        · exact hmem
        · exact h
  | none => simp [RoomManager.getAllRoomId,or_comm]

theorem mem_destroyRoom {id id' : Id} : id ∈ (m.step (.destroyRoom id')).getAllRoomId ↔
    id ∈ m.getAllRoomId ∧ id ≠ id' := by
  rw [RoomManager.step,RoomManager.destroyRoom]
  cases hfind : m.getRoomById id' with
  | some r => simp [RoomManager.getAllRoomId]
  | none =>
      have hmem : id' ∉ m.getAllRoomId := RoomManager.lookup_eq_none.mp hfind
      constructor
      · exact fun h => ⟨h,fun heq => hmem (heq ▸ h)⟩
      · exact And.left

theorem getAllRoomId_onRoom (id : Id) (e : System.Event) :
    (m.step (.onRoom id e)).getAllRoomId = m.getAllRoomId := by
  rw [RoomManager.step]
  split
  · rfl
  · rfl

theorem getAllRoomId_inBackground (r : ℕ) (e : System.Event) :
    (m.step (.inBackground r e)).getAllRoomId = m.getAllRoomId := by
  rw [RoomManager.step]
  split
  · rfl
  · rfl

theorem mem_step {id : Id} (e : Event) : id ∈ (step J iteration m e).getAllRoomId ↔
    Opens J id e ∨ id ∈ m.getAllRoomId ∧ ¬Closes J id e := by
  cases e with
  | clear => simp [step,RoomManager.step,RoomManager.clear,RoomManager.getAllRoomId,Opens,Closes]
  | onRoom id' e => rw [step,getAllRoomId_onRoom]; simp [Opens,Closes]
  | inBackground r e => rw [step,getAllRoomId_inBackground]; simp [Opens,Closes]
  | request req =>
      rw [step,Opens,Closes]
      by_cases hasks : ∃ e, Asks J req e
      · obtain ⟨e,he⟩ := hasks
        have hasks {e' : RoomManager.Event} : Asks J req e' ↔ e = e' :=
          ⟨he.unique,fun heq => heq ▸ he⟩
        rw [handleRequest_asks he,hasks,hasks]
        cases he with
        | @create id' => simp [mem_createRoom,eq_comm]
        | @destroy id' => simp [mem_destroyRoom,eq_comm]
        | kickout => simp [getAllRoomId_onRoom]
      · rw [handleRequest_idle (not_exists.mp hasks)]
        simp [not_exists.mp hasks]

theorem mem_run (es : List Event) {id : Id} :
    id ∈ (run (step J iteration) start es).getAllRoomId ↔ Stands J id es := by
  induction es using List.reverseRecOn with
  | nil =>
      rw [run_nil,start,mem_createRoom]
      simp [Stands,RoomManager.getAllRoomId]
  | append_singleton es e ih => rw [run_snoc,mem_step,stands_snoc,ih]

/-- The server as a run of its rooms. -/
theorem inv_run (es : List Event) : (run (step J iteration) start es).Inv := by
  apply run_invariant (RoomManager.inv_start.step _)
  intro m e h
  cases e with
  | clear => exact h.step .clear
  | onRoom id e => exact h.step (.onRoom id e)
  | inBackground r e => exact h.step (.inBackground r e)
  | request req =>
      rw [step]
      by_cases hasks : ∃ e, Asks J req e
      · obtain ⟨e,he⟩ := hasks
        rw [handleRequest_asks he]
        exact h.step e
      · rw [handleRequest_idle (not_exists.mp hasks)]
        exact h

/-! ### What can be named in a path -/

/-- A name that is one part of a legal path. -/
structure Plain (id : Id) : Prop where
  name : id ≠ []
  part : kSlash ∉ id
  inside : ¬text ".." <:+: id

def roomPath (id : Id) : Text := text "/rooms"++kSlash::id

def participantPath (id participant : Id) : Text :=
  text "/rooms"++kSlash::(id++kSlash::(text "participants"++kSlash::participant))

theorem found_dots {a b : Text} : text ".." <:+: a++kSlash::b ↔
    text ".." <:+: a ∨ text ".." <:+: b :=
  Pieces.infix_append_delim (by decide)

theorem found_participants {a b : Text} : text "/participants" <:+: a++kSlash::b ↔
    text "/participants" <:+: a ∨ text "participants" <+: b ∨ text "/participants" <:+: b :=
  Pieces.infix_cons_append_delim (p := text "participants") (by decide)

theorem roomPath_ofRooms {id : Id} (h : Plain id) (hname : ¬text "participants" <+: id) :
    OfRooms (roomPath id) where
  absolute := rfl
  inside := by
    rw [roomPath,found_dots,not_or]
    exact ⟨by decide,h.inside⟩
  rooms := List.infix_append_left
  others := by
    rw [roomPath,found_participants,not_or,not_or]
    exact ⟨by decide,hname,fun hin => h.part (hin.subset (by decide))⟩

theorem participantPath_parts {id participant : Id} (h : Plain id) (hp : Plain participant) :
    split (participantPath id participant) kSlash =
      [text "rooms",id,text "participants",participant] := by
  have hroot : participantPath id participant = []++kSlash::(text "rooms"++kSlash::
      (id++kSlash::(text "participants"++kSlash::participant))) := by
    rw [participantPath,show text "/rooms" = kSlash::text "rooms" by decide]
    rfl
  rw [split,hroot,Pieces.pieces_append_delim (by decide),Pieces.pieces_append_delim (by decide),
    Pieces.pieces_append_delim h.part,Pieces.pieces_append_delim (by decide),
    Pieces.pieces_of_not_mem hp.part,Pieces.flush_of_ne h.name,Pieces.flush_of_ne hp.name]
  rfl

theorem participantPath_ofParticipants {id participant : Id} (h : Plain id)
    (hp : Plain participant) : OfParticipants (participantPath id participant) where
  absolute := rfl
  inside := by
    rw [participantPath,found_dots,found_dots,found_dots,not_or,not_or,not_or]
    exact ⟨by decide,h.inside,by decide,hp.inside⟩
  participants := by
    rw [participantPath,found_participants,found_participants]
    exact .inr (.inr (.inr (.inl (List.prefix_append _ _))))

theorem destroys_iff (id : Id) : (∃ req, Asks J req (.destroyRoom id)) ↔
    Plain id ∧ ¬text "participants" <+: id := by
  constructor
  · rintro ⟨req,h⟩
    cases h with
    | destroy _ htarget hends hname hlast =>
        have hinside := htarget.inside
        have hothers := htarget.others
        rw [hends,found_dots,not_or] at hinside
        rw [hends,found_participants,not_or,not_or] at hothers
        exact ⟨⟨hname,hlast,hinside.2⟩,hothers.2.1⟩
  · rintro ⟨h,hname⟩
    exact ⟨{ method := .delete, target := roomPath id },
      .destroy rfl (roomPath_ofRooms h hname) rfl h.name h.part⟩

theorem kicks_iff (id participant : Id) :
    (∃ req, Asks J req (.onRoom id (.kickoutParticipant participant))) ↔
      Plain id ∧ Plain participant := by
  constructor
  · rintro ⟨req,h⟩
    cases h with
    | @kickout _ _ a b _ htarget hparts =>
        have hplain {part : Id} (hmem : part ∈ [a,id,b,participant]) : Plain part := by
          rw [← hparts] at hmem
          have hpart := Pieces.mem_pieces part hmem
          exact ⟨hpart.1,hpart.2,
            fun hin => htarget.inside (hin.trans (Pieces.infix_of_mem_pieces hmem))⟩
        exact ⟨hplain (by simp),hplain (by simp)⟩
  · rintro ⟨h,hp⟩
    exact ⟨{ method := .delete, target := participantPath id participant },
      .kickout rfl (participantPath_ofParticipants h hp) (participantPath_parts h hp)⟩

/-- The participants of the room that stands under an id. -/
def participants (m : RoomManager) (id : Id) : Option (Finset Id) :=
  (m.getRoomById id).map fun r => (m.rooms r).room.participantIdSet

theorem participants_eq {id : Id} {r : ℕ} (hr : m.getRoomById id = some r) :
    participants m id = some (m.rooms r).room.participantIdSet := by
  rw [participants,hr]
  rfl

theorem participants_setRoom {id : Id} {r : ℕ} (hr : m.getRoomById id = some r) (r' : ℕ)
    (s : System) : participants (m.setRoom r' s) id =
      some ((m.setRoom r' s).rooms r).room.participantIdSet :=
  participants_eq hr

theorem step_kickout {id : Id} {r : ℕ} (hr : m.getRoomById id = some r) (participant : Id) :
    m.step (.onRoom id (.kickoutParticipant participant)) =
      m.setRoom r ((m.rooms r).leave participant) := by
  rw [RoomManager.step]
  simp only [hr]
  rfl

theorem participants_kickout {id participant : Id} {set : Finset Id}
    (hset : participants m id = some set) :
    participants (m.step (.onRoom id (.kickoutParticipant participant))) id =
      some (set.erase participant) := by
  obtain ⟨r,hr,rfl⟩ := Option.map_eq_some_iff.mp hset
  rw [step_kickout hr,participants_setRoom hr,RoomManager.setRoom_rooms,if_pos rfl,
    System.leave,System.calls_room]
  rfl

/-- Only being put out of the room takes a participant out of it while it stands. -/
theorem kickout_of_gone (h : m.Inv) {e : RoomManager.Event} (he : Asks J req e) {id p : Id}
    {set set' : Finset Id} (hset : participants m id = some set) (hp : p ∈ set)
    (hset' : participants (m.step e) id = some set') (hgone : p ∉ set') :
    e = .onRoom id (.kickoutParticipant p) := by
  obtain ⟨r,hr,rfl⟩ := Option.map_eq_some_iff.mp hset
  have hkept (hsame : participants (m.step e) id = participants m id) : False := by
    rw [hset',hset] at hsame
    cases hsame
    exact hgone hp
  cases he with
  | @create id' =>
      refine absurd ?_ hkept
      rw [hset,RoomManager.step,RoomManager.createRoom]
      cases hfind : m.getRoomById id' with
      | some r' => exact hset
      | none =>
          have hlookup : (m.idRoomMap++[(id',m.next)]).lookup id = some r := by
            rw [List.lookup_append,show m.idRoomMap.lookup id = some r from hr]
            rfl
          have hlt := h.known _ ((RoomManager.getRoomById_iff h).mp hr)
          simp only [participants,RoomManager.getRoomById,hlookup,Option.map_some,
            RoomManager.setRoom_rooms,if_neg (Nat.ne_of_lt hlt)]
  | @destroy id' =>
      have hstands : id ∈ (m.step (.destroyRoom id')).getAllRoomId := by
        obtain ⟨r',hr',_⟩ := Option.map_eq_some_iff.mp hset'
        exact List.mem_map.mpr ⟨_,RoomManager.mem_of_lookup hr',rfl⟩
      have hne := (mem_destroyRoom.mp hstands).2
      refine absurd ?_ hkept
      have hinv := h.step (.destroyRoom id')
      have hmem := (RoomManager.getRoomById_iff h).mp hr
      rw [RoomManager.step,RoomManager.destroyRoom] at hinv ⊢
      cases hfind : m.getRoomById id' with
      | none => rfl
      | some r' =>
          simp only [hfind] at hinv
          have hr'' := (RoomManager.getRoomById_iff hinv).mpr
            (List.mem_filter.mpr ⟨hmem,decide_eq_true hne⟩)
          simp only [participants_eq hr'',hset]
          rw [RoomManager.rooms_of_ne h hr hfind hne]
  | @kickout id' participant =>
      by_cases hid : id = id'
      · subst hid
        rw [participants_kickout hset] at hset'
        cases hset'
        by_cases heq : p = participant
        · rw [heq]
        · exact absurd (Finset.mem_erase.mpr ⟨heq,hp⟩) hgone
      · refine absurd ?_ hkept
        cases hfind : m.getRoomById id' with
        | none =>
            rw [RoomManager.step]
            simp only [hfind]
        | some r' =>
            rw [step_kickout hfind,participants_setRoom hr,
              RoomManager.rooms_of_ne h hr hfind hid,hset]

/-- The rooms over any run of the management API. The rooms that stand are those that were asked
for and have not been closed since, and a request that is refused changes nothing, unless it
creates a room whose id cannot be dumped. What is listed is the rooms that stand. But a room can
be deleted only if its id is one part of a path that does not begin like the participants', and a
participant can be put out of a room only if both ids are such parts. -/
theorem rooms_managed (J : JsonLibrary) (iteration : Iteration) (es : List Event) :
    let m := run (step J iteration) start es
    (∀ id, id ∈ m.getAllRoomId ↔ Stands J id es) ∧
    (∀ req, (handleRequest J iteration m req).2.status = .badRequest →
      (handleRequest J iteration m req).1 = m ∨ ∃ id, Asks J req (.createRoom id) ∧
        (J.dump (J.object [("id",J.ofText id)])).toOption = none) ∧
    (∀ req, req.method = .get → (handleRequest J iteration m req).2.status = .ok →
      ∃ ids : List Id, ids.Nodup ∧ (∀ id, id ∈ ids ↔ Stands J id es) ∧
        J.dump (J.array (ids.map J.ofText)) = .ok (handleRequest J iteration m req).2.body) ∧
    (∀ id ∈ m.getAllRoomId, (∃ req, id ∉ (handleRequest J iteration m req).1.getAllRoomId) ↔
      Plain id ∧ ¬text "participants" <+: id) ∧
    ∀ id p set, participants m id = some set → p ∈ set →
      ((∃ req set', participants (handleRequest J iteration m req).1 id = some set' ∧ p ∉ set') ↔
        Plain id ∧ Plain p) := by
  intro m
  have hinv : m.Inv := inv_run es
  refine ⟨fun id => mem_run es,fun req => handleRequest_refused,?_,?_,?_⟩
  · intro req hmethod hstatus
    have hperm := iteration.perm m.getAllRoomId
    refine ⟨iteration.order m.getAllRoomId,hperm.nodup_iff.mpr hinv.keys,
      fun id => hperm.mem_iff.trans (mem_run es),?_⟩
    exact listed hmethod hstatus
  · intro id hid
    rw [← destroys_iff (J := J)]
    constructor
    · rintro ⟨req,hgone⟩
      refine ⟨req,?_⟩
      have hstep : id ∉ (step J iteration m (.request req)).getAllRoomId := hgone
      rw [mem_step,not_or,not_and,not_not] at hstep
      exact hstep.2 hid
    · rintro ⟨req,hasks⟩
      refine ⟨req,?_⟩
      rw [handleRequest_asks hasks,mem_destroyRoom]
      exact fun h => h.2 rfl
  · intro id p set hset hp
    rw [← kicks_iff (J := J)]
    constructor
    · rintro ⟨req,set',hset',hgone⟩
      by_cases hasks : ∃ e, Asks J req e
      · obtain ⟨e,he⟩ := hasks
        rw [handleRequest_asks he] at hset'
        exact ⟨req,kickout_of_gone hinv he hset hp hset' hgone ▸ he⟩
      · rw [handleRequest_idle (not_exists.mp hasks),hset] at hset'
        cases hset'
        exact absurd hp hgone
    · rintro ⟨req,hasks⟩
      refine ⟨req,set.erase p,?_,Finset.notMem_erase p set⟩
      rw [handleRequest_asks hasks,participants_kickout hset]

end Ylrtc.Signaling.ManageApi
