import Mathlib.Data.List.Count
import Ylrtc.Signaling.RoomInvariant
import Ylrtc.Signaling.Sessions

/-!
# How participants learn of a stream

A stream that connects queues the handler of `OnWebrtcStreamConnected` on the main thread and
sets `connection_established_` after that, both on its worker thread. A participant is told of
the stream by the room info of its join response, which reads the flag, or by the notification
of the handler, from which `HijackNotification` keeps what stood in the room info.
-/
namespace Ylrtc.Signaling
open CursorParser Run

/-- A signaling session, for one participant. `learned` is what its client was told, in the
room info and in notifications. -/
structure Client where
  sessionInfo : SessionInfo := {}
  roomInfoWhenJoining : Option (List Id) := none
  learned : List Id := []

namespace Client

/-- `HijackNotification` of a `streamAdded`; before the join there is no room info to look
into. -/
def hijackNotification (c : Client) (stream : Id) : Bool :=
  match c.roomInfoWhenJoining with
  | some streams => stream ∈ streams
  | none => false

/-- `Notify` of the session set, for one session. -/
def notify (c : Client) (roomId stream : Id) : Client :=
  if c.sessionInfo.roomId = roomId then
    if c.hijackNotification stream then c
    else { c with learned := c.learned++[stream] }
  else c

theorem notify_roomInfo (c : Client) (roomId stream : Id) :
    (c.notify roomId stream).roomInfoWhenJoining = c.roomInfoWhenJoining := by
  rw [notify]
  split
  · split <;> rfl
  · rfl

theorem notify_sessionInfo (c : Client) (roomId stream : Id) :
    (c.notify roomId stream).sessionInfo = c.sessionInfo := by
  rw [notify]
  split
  · split <;> rfl
  · rfl

theorem count_notify (c : Client) (roomId stream x : Id) :
    (c.notify roomId stream).learned.count x = c.learned.count x+
      if c.sessionInfo.roomId = roomId then
        if c.hijackNotification stream = true ∨ x ≠ stream then 0 else 1
      else 0 := by
  rw [notify]
  split
  · by_cases hh : c.hijackNotification stream = true
    · simp [hh]
    · by_cases hx : x = stream
      · subst hx
        simp [hh]
      · have hnot : x ∉ [stream] := fun hmem => hx (List.mem_singleton.mp hmem)
        simp [hh,hx,List.count_append,List.count_eq_zero_of_not_mem hnot]
  · rfl

end Client

/-- How far `OnDtlsTransportSetup` has come. -/
inductive Connection where
  | setup
  | handlerQueued
  | established
  deriving DecidableEq

structure Hall where
  room : Room := {}
  connection : Id → Connection := fun _ => .setup
  /-- The handlers of `OnWebrtcStreamConnected` in the queue of the main thread. -/
  handlers : List Id := []
  clients : Id → Option Client := fun _ => none

namespace Hall

/-- The streams of `GetRoomInfo`. -/
def roomInfoStreams (s : Hall) : List Id :=
  s.room.participantPublishsMap.entries.flatMap fun e =>
    e.2.filter fun x => s.connection x = .established

/-- The join request of a participant that has not joined. -/
def join (s : Hall) (participant : Id) (c : Client) : Hall :=
  let room := (s.room.join participant).1
  let streams := { s with room := room }.roomInfoStreams
  { s with
    room := room
    clients := Function.update s.clients participant (some {
      sessionInfo := ⟨s.room.id,participant⟩
      roomInfoWhenJoining := some streams
      learned := c.learned++streams }) }

/-- One `streamAdded` to all sessions. -/
def notify (s : Hall) (stream : Id) : Hall :=
  { s with clients := fun p => (s.clients p).map fun c => c.notify s.room.id stream }

/-- The handler of `OnWebrtcStreamConnected`: a notification for each set that has the
stream. -/
def onWebrtcStreamConnected (s : Hall) (stream : Id) : Hall :=
  s.room.participantPublishsMap.entries.foldl
    (fun s e => if stream ∈ e.2 then s.notify stream else s) s

inductive Event where
  | opened (participant : Id)
  | join (participant : Id)
  | participantPublish (participant stream : Id)
  /-- The next step of the worker thread of the stream. -/
  | connect (stream : Id)
  | runHandler

/-- A participant has one session and joins once; a stream has an id of its own. -/
def step (s : Hall) : Event → Hall
  | .opened p =>
      if (s.clients p).isNone then
        { s with clients := Function.update s.clients p (some {}) }
      else s
  | .join p =>
      match s.clients p with
      | some c => if c.roomInfoWhenJoining.isNone then s.join p c else s
      | none => s
  | .participantPublish p x =>
      if (∃ e ∈ s.room.participantPublishsMap.entries, x ∈ e.2) then s
      else match s.room.participantPublish p x with
      | some room => { s with room := room }
      | none => s
  | .connect x =>
      if (∃ e ∈ s.room.participantPublishsMap.entries, x ∈ e.2) then
        match s.connection x with
        | .setup => { s with
            connection := Function.update s.connection x .handlerQueued
            handlers := s.handlers++[x] }
        | .handlerQueued => { s with
            connection := Function.update s.connection x .established }
        | .established => s
      else s
  | .runHandler =>
      match s.handlers with
      | [] => s
      | x::xs => { s with handlers := xs }.onWebrtcStreamConnected x

/-! ### One announcement -/

/-- The stream stands in the map of the room. -/
def Published (s : Hall) (x : Id) : Prop := ∃ p, s.room.participantPublishsMap.Under p x

/-- The handler of the stream was queued and has run. -/
def HandlerRan (s : Hall) (x : Id) : Prop := s.connection x ≠ .setup ∧ x ∉ s.handlers

theorem published_iff (s : Hall) (x : Id) :
    (∃ e ∈ s.room.participantPublishsMap.entries, x ∈ e.2) ↔ s.Published x :=
  Room.meets_entries

/-- No stream is published twice. -/
def Unique (s : Hall) : Prop :=
  ∀ p q x, s.room.participantPublishsMap.Under p x →
    s.room.participantPublishsMap.Under q x → p = q

theorem foldl_notify_none {s : Hall} {x : Id} {es : List (Id × List Id)}
    (h : ∀ e ∈ es, x ∉ e.2) :
    es.foldl (fun s e => if x ∈ e.2 then s.notify x else s) s = s := by
  induction es with
  | nil => rfl
  | cons e es ih =>
      rw [List.foldl_cons,if_neg (h e List.mem_cons_self)]
      exact ih fun f hf => h f (List.mem_cons_of_mem e hf)

theorem onWebrtcStreamConnected_eq {s : Hall} (hu : s.Unique) {x : Id} (hx : s.Published x) :
    s.onWebrtcStreamConnected x = s.notify x := by
  obtain ⟨p,hp⟩ := hx
  obtain ⟨before,vs,after,hsplit,hv,hbefore,hafter⟩ :=
    SetMap.entries_split hp fun q hq => hu q p x hq hp
  rw [onWebrtcStreamConnected,hsplit,List.foldl_append,foldl_notify_none hbefore,
    List.foldl_cons,if_pos hv,foldl_notify_none hafter]

theorem mem_roomInfoStreams {s : Hall} {x : Id} :
    x ∈ s.roomInfoStreams ↔ s.Published x ∧ s.connection x = .established := by
  simp only [roomInfoStreams,List.mem_flatMap,List.mem_filter,decide_eq_true_eq]
  rw [← published_iff]
  constructor
  · rintro ⟨e,he,hx,hc⟩
    exact ⟨⟨e,he,hx⟩,hc⟩
  · rintro ⟨⟨e,he,hx⟩,hc⟩
    exact ⟨e,he,hx,hc⟩

theorem count_roomInfoStreams {s : Hall} (hu : s.Unique) (x : Id) :
    s.roomInfoStreams.count x = if x ∈ s.roomInfoStreams then 1 else 0 := by
  split
  · rename_i hx
    obtain ⟨⟨p,hp⟩,hc⟩ := mem_roomInfoStreams.mp hx
    obtain ⟨before,vs,after,hsplit,hv,hbefore,hafter⟩ :=
      SetMap.entries_split hp fun q hq => hu q p x hq hp
    have hnone : ∀ es : List (Id × List Id), (∀ e ∈ es, x ∉ e.2) →
        x ∉ es.flatMap fun e => e.2.filter fun x => s.connection x = .established := by
      intro es hes hmem
      obtain ⟨e,he,hxe⟩ := List.mem_flatMap.mp hmem
      exact hes e he (List.mem_filter.mp hxe).1
    have hvs : vs.Nodup := s.room.participantPublishsMap.values_nodup (p,vs)
      (by rw [hsplit]; exact List.mem_append_right _ List.mem_cons_self)
    rw [roomInfoStreams,hsplit,List.flatMap_append,List.flatMap_cons,List.count_append,
      List.count_append,List.count_eq_zero_of_not_mem (hnone before hbefore),
      List.count_eq_zero_of_not_mem (hnone after hafter),List.count_filter (by simpa using hc),
      List.count_eq_one_of_mem hvs hv]
  · rename_i hx
    exact List.count_eq_zero_of_not_mem hx

/-- What is in flight is accounted for: who has joined has learned of a stream once its
handler has run, and before that if it stood in the room info. -/
structure Inv (s : Hall) : Prop where
  unique : s.Unique
  published : ∀ x, s.connection x ≠ .setup → s.Published x
  queued : ∀ x ∈ s.handlers, s.connection x ≠ .setup
  nodup : s.handlers.Nodup
  member : ∀ p ∈ s.room.participantIdSet, ∃ c streams,
    s.clients p = some c ∧ c.roomInfoWhenJoining = some streams
  session : ∀ p c streams, s.clients p = some c → c.roomInfoWhenJoining = some streams →
    c.sessionInfo.roomId = s.room.id
  told : ∀ p c streams x, s.clients p = some c → c.roomInfoWhenJoining = some streams →
    (s.HandlerRan x → c.learned.count x = 1) ∧
      (¬ s.HandlerRan x → c.learned.count x = if x ∈ streams then 1 else 0)
  untold : ∀ p c x, s.clients p = some c → c.roomInfoWhenJoining = none →
    c.learned.count x ≤ 1 ∧ (¬ s.HandlerRan x → c.learned.count x = 0)

/-- A join between the handler of a stream and its flag misses the stream. Where the id of the
room is empty a session is notified before it joins, and must join in between. -/
def Keeps (s : Hall) : Event → Prop
  | .join p => ∀ c, s.clients p = some c → c.roomInfoWhenJoining = none →
      ∀ x, s.HandlerRan x → (s.connection x = .established ↔ x ∉ c.learned)
  | _ => True

theorem inv_start (id : Id) : Inv { room := { id := id } } where
  unique := fun p q x hp => absurd hp (SetMap.not_under_empty p x)
  published := fun x hx => absurd rfl hx
  queued := fun x hx => absurd hx List.not_mem_nil
  nodup := List.nodup_nil
  member := fun p hp => absurd hp (Finset.notMem_empty p)
  session := fun p c streams hc => absurd hc (by simp)
  told := fun p c streams x hc => absurd hc (by simp)
  untold := fun p c x hc => absurd hc (by simp)

/-! ### The steps -/

theorem updated_client {clients : Id → Option Client} {p q : Id} {c d : Client} :
    Function.update clients p (some c) q = some d ↔
      q = p ∧ d = c ∨ q ≠ p ∧ clients q = some d := by
  by_cases hqp : q = p
  · subst hqp
    simp [eq_comm]
  · simp [hqp]

/-- A session is set, and the rest stays or its participant becomes a member. -/
theorem Inv.setClient {s : Hall} (h : Inv s) {p : Id} {c : Client} {set : Finset Id}
    (hset : ∀ q ∈ set, q ∈ s.room.participantIdSet ∨ q = p)
    (hmember : p ∈ set → ∃ streams, c.roomInfoWhenJoining = some streams)
    (hsession : ∀ streams, c.roomInfoWhenJoining = some streams →
      c.sessionInfo.roomId = s.room.id)
    (htold : ∀ streams x, c.roomInfoWhenJoining = some streams →
      (s.HandlerRan x → c.learned.count x = 1) ∧
        (¬ s.HandlerRan x → c.learned.count x = if x ∈ streams then 1 else 0))
    (huntold : ∀ x, c.roomInfoWhenJoining = none →
      c.learned.count x ≤ 1 ∧ (¬ s.HandlerRan x → c.learned.count x = 0)) :
    Inv { s with
      room := { s.room with participantIdSet := set }
      clients := Function.update s.clients p (some c) } where
  unique := h.unique
  published := h.published
  queued := h.queued
  nodup := h.nodup
  member := by
    intro q hq
    by_cases hqp : q = p
    · subst hqp
      obtain ⟨streams,hs⟩ := hmember hq
      exact ⟨c,streams,Function.update_self q (some c) s.clients,hs⟩
    · obtain ⟨d,streams,hd,hs⟩ := h.member q ((hset q hq).resolve_right hqp)
      exact ⟨d,streams,(Function.update_of_ne hqp (some c) s.clients).trans hd,hs⟩
  session := by
    intro q d streams hd hs
    rcases updated_client.mp hd with ⟨rfl,rfl⟩ | hd
    · exact hsession streams hs
    · exact h.session q d streams hd.2 hs
  told := by
    intro q d streams x hd hs
    rcases updated_client.mp hd with ⟨rfl,rfl⟩ | hd
    · exact htold streams x hs
    · exact h.told q d streams x hd.2 hs
  untold := by
    intro q d x hd hs
    rcases updated_client.mp hd with ⟨rfl,rfl⟩ | hd
    · exact huntold x hs
    · exact h.untold q d x hd.2 hs

theorem Inv.opened {s : Hall} (h : Inv s) {p : Id} (hp : s.clients p = none) :
    Inv { s with clients := Function.update s.clients p (some {}) } := by
  refine h.setClient (fun q (hq : q ∈ s.room.participantIdSet) => .inl hq) ?_ ?_ ?_ ?_
  · intro hmem
    obtain ⟨c,streams,hc,_⟩ := h.member p hmem
    rw [hp] at hc
    exact absurd hc (by simp)
  · exact fun streams hs => absurd hs (by simp)
  · exact fun streams x hs => absurd hs (by simp)
  · intro x _
    simp

theorem Inv.join {s : Hall} (h : Inv s) {p : Id} {c : Client} (hc : s.clients p = some c)
    (hnone : c.roomInfoWhenJoining = none)
    (hkeeps : ∀ x, s.HandlerRan x → (s.connection x = .established ↔ x ∉ c.learned)) :
    Inv (s.join p c) := by
  rw [Hall.join,Room.join_maps]
  refine h.setClient (fun q hq => ?_) (fun _ => ⟨_,rfl⟩) (fun _ _ => rfl) ?_ ?_
  · exact (Finset.mem_insert.mp hq).symm
  · intro streams x hs
    rw [Option.some.injEq] at hs
    subst hs
    have hlearned := h.untold p c x hc hnone
    have hcount := count_roomInfoStreams h.unique x
    rw [List.count_append]
    change (s.HandlerRan x → c.learned.count x+s.roomInfoStreams.count x = 1) ∧
      (¬ s.HandlerRan x → c.learned.count x+s.roomInfoStreams.count x =
        if x ∈ s.roomInfoStreams then 1 else 0)
    rw [hcount]
    constructor
    · intro hran
      by_cases hx : x ∈ c.learned
      · have hone : 0 < c.learned.count x := List.count_pos_iff.mpr hx
        have hnot : x ∉ s.roomInfoStreams := fun hmem =>
          ((hkeeps x hran).mp (mem_roomInfoStreams.mp hmem).2) hx
        rw [if_neg hnot]
        omega
      · have hmem : x ∈ s.roomInfoStreams :=
          mem_roomInfoStreams.mpr ⟨h.published x hran.1,(hkeeps x hran).mpr hx⟩
        rw [if_pos hmem,List.count_eq_zero_of_not_mem hx]
    · intro hran
      rw [hlearned.2 hran,Nat.zero_add]
  · intro x hs
    exact absurd hs (by simp)

/-- The maps and the queue of the worker threads change, the sessions do not. -/
theorem Inv.publish {s : Hall} (h : Inv s) {p x : Id} (hx : ¬ s.Published x) :
    Inv { s with room := { s.room with
      participantPublishsMap := s.room.participantPublishsMap.insert p x } } where
  unique := by
    intro q r y hq hr
    rcases SetMap.under_insert.mp hq with holdq | ⟨hqp,hyx⟩
    · rcases SetMap.under_insert.mp hr with holdr | ⟨_,hyx⟩
      · exact h.unique q r y holdq holdr
      · exact absurd ⟨q,hyx ▸ holdq⟩ hx
    · rcases SetMap.under_insert.mp hr with holdr | ⟨hrp,_⟩
      · exact absurd ⟨r,hyx ▸ holdr⟩ hx
      · rw [hqp,hrp]
  published := by
    intro y hy
    obtain ⟨q,hq⟩ := h.published y hy
    exact ⟨q,SetMap.under_insert.mpr (.inl hq)⟩
  queued := h.queued
  nodup := h.nodup
  member := h.member
  session := h.session
  told := h.told
  untold := h.untold

theorem Inv.queue {s : Hall} (h : Inv s) {x : Id} (hx : s.Published x)
    (hsetup : s.connection x = .setup) :
    Inv { s with
      connection := Function.update s.connection x .handlerQueued
      handlers := s.handlers++[x] } := by
  have hqueued : x ∉ s.handlers := fun hmem => h.queued x hmem hsetup
  have hconnection : ∀ y, Function.update s.connection x .handlerQueued y ≠ .setup ↔
      y = x ∨ s.connection y ≠ .setup := by
    intro y
    by_cases hyx : y = x
    · subst hyx
      simp
    · simp [hyx]
  have hran : ∀ y, HandlerRan { s with
      connection := Function.update s.connection x .handlerQueued
      handlers := s.handlers++[x] } y ↔ s.HandlerRan y := by
    intro y
    simp only [HandlerRan,List.mem_append,List.mem_singleton]
    by_cases hyx : y = x
    · subst hyx
      simp [hsetup]
    · simp [hyx]
  exact {
    unique := h.unique
    published := by
      intro y hy
      rcases (hconnection y).mp hy with rfl | hy
      · exact hx
      · exact h.published y hy
    queued := by
      intro y hy
      rw [List.mem_append,List.mem_singleton] at hy
      exact (hconnection y).mpr (hy.symm.imp_right (h.queued y))
    nodup := List.nodup_append.mpr ⟨h.nodup,List.nodup_singleton x,by grind⟩
    member := h.member
    session := h.session
    told := by
      intro p c streams y hc hs
      rw [hran]
      exact h.told p c streams y hc hs
    untold := by
      intro p c y hc hs
      rw [hran]
      exact h.untold p c y hc hs }

theorem Inv.establish {s : Hall} (h : Inv s) {x : Id}
    (hqueued : s.connection x = .handlerQueued) :
    Inv { s with connection := Function.update s.connection x .established } := by
  have hsetup : ∀ y, Function.update s.connection x .established y ≠ .setup ↔
      s.connection y ≠ .setup := by
    intro y
    by_cases hyx : y = x
    · subst hyx
      rw [Function.update_self,hqueued]
      simp
    · rw [Function.update_of_ne hyx]
  have hran : ∀ y, HandlerRan { s with
      connection := Function.update s.connection x .established } y ↔ s.HandlerRan y :=
    fun y => and_congr_left fun _ => hsetup y
  exact {
    unique := h.unique
    published := fun y hy => h.published y ((hsetup y).mp hy)
    queued := fun y hy => (hsetup y).mpr (h.queued y hy)
    nodup := h.nodup
    member := h.member
    session := h.session
    told := by
      intro p c streams y hc hs
      rw [hran]
      exact h.told p c streams y hc hs
    untold := by
      intro p c y hc hs
      rw [hran]
      exact h.untold p c y hc hs }

theorem Inv.notify {s : Hall} (h : Inv s) {x : Id} {xs : List Id} (hx : s.handlers = x::xs) :
    Inv ({ s with handlers := xs }.notify x) := by
  have hnodup := h.nodup
  rw [hx,List.nodup_cons] at hnodup
  have hmem : x ∈ s.handlers := by
    rw [hx]
    exact List.mem_cons_self
  have hpending : ¬ s.HandlerRan x := fun hran => hran.2 hmem
  have hran : ∀ y, HandlerRan ({ s with handlers := xs }.notify x) y ↔
      s.HandlerRan y ∨ y = x := by
    intro y
    change s.connection y ≠ .setup ∧ y ∉ xs ↔ _
    rw [HandlerRan,hx,List.mem_cons]
    by_cases hyx : y = x
    · subst hyx
      simp [hnodup.1,h.queued y hmem]
    · simp [hyx]
  have hclient : ∀ p d, ({ s with handlers := xs }.notify x).clients p = some d →
      ∃ c, s.clients p = some c ∧ c.notify s.room.id x = d :=
    fun p d hd => Option.map_eq_some_iff.mp hd
  exact {
    unique := h.unique
    published := h.published
    queued := by
      intro y hy
      refine h.queued y ?_
      rw [hx]
      exact List.mem_cons_of_mem x hy
    nodup := hnodup.2
    member := by
      intro p hp
      obtain ⟨c,streams,hc,hs⟩ := h.member p hp
      refine ⟨c.notify s.room.id x,streams,Option.map_eq_some_iff.mpr ⟨c,hc,rfl⟩,?_⟩
      rw [Client.notify_roomInfo]
      exact hs
    session := by
      intro p d streams hd hs
      obtain ⟨c,hc,rfl⟩ := hclient p d hd
      rw [Client.notify_roomInfo] at hs
      rw [Client.notify_sessionInfo]
      exact h.session p c streams hc hs
    told := by
      intro p d streams y hd hs
      obtain ⟨c,hc,rfl⟩ := hclient p d hd
      rw [Client.notify_roomInfo] at hs
      have htold := h.told p c streams y hc hs
      rw [hran,Client.count_notify,if_pos (h.session p c streams hc hs)]
      have hhijack : c.hijackNotification x = decide (x ∈ streams) := by
        rw [Client.hijackNotification,hs]
      by_cases hyx : y = x
      · subst hyx
        rw [htold.2 hpending,hhijack]
        by_cases hy : y ∈ streams <;> simp [hy]
      · simpa [hyx] using htold
    untold := by
      intro p d y hd hs
      obtain ⟨c,hc,rfl⟩ := hclient p d hd
      rw [Client.notify_roomInfo] at hs
      have huntold := h.untold p c y hc hs
      rw [hran,Client.count_notify]
      by_cases hyx : y = x
      · subst hyx
        rw [huntold.2 hpending]
        split <;> simp
        split <;> simp
      · simpa [hyx] using huntold }

theorem Inv.step {s : Hall} (h : Inv s) {e : Event} (hkeeps : s.Keeps e) : Inv (s.step e) := by
  cases e with
  | opened p =>
      rw [Hall.step]
      split
      · rename_i hp
        exact h.opened (Option.isNone_iff_eq_none.mp hp)
      · exact h
  | join p =>
      rw [Hall.step]
      split
      · rename_i c hc
        split
        · rename_i hnone
          rw [Option.isNone_iff_eq_none] at hnone
          exact h.join hc hnone (hkeeps c hc hnone)
        · exact h
      · exact h
  | participantPublish p x =>
      rw [Hall.step]
      split
      · exact h
      · rename_i hx
        rw [published_iff] at hx
        rw [Room.participantPublish]
        split
        · rename_i room hroom
          split at hroom
          · rw [← Option.some.inj hroom]
            exact h.publish hx
          · exact absurd hroom (by simp)
        · exact h
  | connect x =>
      rw [Hall.step]
      split
      · rename_i hx
        rw [published_iff] at hx
        split
        · rename_i hsetup
          exact h.queue hx hsetup
        · rename_i hqueued
          exact h.establish hqueued
        · exact h
      · exact h
  | runHandler =>
      rw [Hall.step]
      split
      · exact h
      · rename_i x xs hx
        have hpublished : s.Published x := by
          refine h.published x (h.queued x ?_)
          rw [hx]
          exact List.mem_cons_self
        rw [onWebrtcStreamConnected_eq (s := { s with handlers := xs }) h.unique hpublished]
        exact h.notify hx

/-- Every member has learned once of every stream whose handler has run and whose flag is
set. -/
def Told (s : Hall) : Prop :=
  ∀ x, s.HandlerRan x → s.connection x = .established → ∀ p ∈ s.room.participantIdSet,
    ∃ c, s.clients p = some c ∧ c.learned.count x = 1

theorem Inv.told_members {s : Hall} (h : Inv s) : s.Told := by
  intro x hran _ p hp
  obtain ⟨c,streams,hc,hs⟩ := h.member p hp
  exact ⟨c,hc,(h.told p c streams x hc hs).1 hran⟩

/-- In a run without a join between the handler of a stream and its flag, every member learns
of every stream once. -/
theorem run_told (id : Id) {es : List Event}
    (h : Along (fun before e => (run step { room := { id := id } } before).Keeps e) es) :
    (run step { room := { id := id } } es).Told :=
  (run_invariant_along (inv_start id) (fun _ _ hI hQ => hI.step hQ) h).told_members

theorem run_told_two : (run step { room := { id := [7] } } [.opened [1],.join [1],
    .participantPublish [1] [9],.connect [9],.connect [9],.runHandler,.opened [2],
    .join [2]]).Told := by
  refine run_told [7] ?_
  simp only [along_cons]
  refine ⟨trivial,?_,trivial,trivial,trivial,trivial,trivial,?_,along_nil _⟩
  · intro c _ _ x hran
    exact absurd rfl hran.1
  · intro c hc _ x hran
    have hlearned : c.learned = [] := by
      rw [← Option.some.inj hc]
    have hconnection := hran.1
    change Function.update (Function.update (fun _ => Connection.setup) [9] .handlerQueued)
      [9] .established x ≠ .setup at hconnection
    have hx : x = [9] := by
      by_contra hx
      rw [Function.update_of_ne hx,Function.update_of_ne hx] at hconnection
      exact hconnection rfl
    subst hx
    rw [hlearned]
    exact iff_of_true rfl List.not_mem_nil

/-- A participant that joins when the handler has run and the flag is not set. -/
theorem not_told : ¬ (run step { room := { id := [7] } } [.opened [1],.join [1],
    .participantPublish [1] [9],.connect [9],.runHandler,.opened [2],.join [2],
    .connect [9]]).Told := by
  intro h
  have hmem : [2] ∈ (run step { room := { id := [7] } } [.opened [1],.join [1],
      .participantPublish [1] [9],.connect [9],.runHandler,.opened [2],.join [2],
      .connect [9]]).room.participantIdSet := by decide
  obtain ⟨c,hc,hcount⟩ := h [9] ⟨by decide,by decide⟩ (by decide) [2] hmem
  rw [← Option.some.inj hc] at hcount
  exact absurd hcount (by decide)

end Hall
end Ylrtc.Signaling
