import Ylrtc.Lib.CursorParser
import Ylrtc.Lib.SetMap
import Mathlib.Data.Finset.Basic

/-!
# Rooms

`Room` of `signaling/room.cpp`, which runs on the main thread. A stream is known by its id,
which is never given twice. What the room asks of a stream it posts to the worker thread of
the stream: the functions return these calls in the order in which they are made.
-/
namespace Ylrtc.Signaling
open CursorParser

/-- The `std::string`s that name rooms, participants and streams. -/
abbrev Id := List Byte

/-- A call on a stream that posts a task to its worker thread. -/
inductive Call where
  | stop (stream : Id)
  | registerDataObserver (publish observer : Id)
  | unregisterDataObserver (publish observer : Id)
  deriving DecidableEq

structure Room where
  id : Id := []
  participantIdSet : Finset Id := ∅
  participantPublishsMap : SetMap Id Id := {}
  publishSubscribesMap : SetMap Id Id := {}
  participantSubscribesMap : SetMap Id Id := {}

namespace Room

/-- `Join`; it is true if the participant was not there. -/
def join (r : Room) (participant : Id) : Room × Bool :=
  if participant ∈ r.participantIdSet then (r,false)
  else ({ r with participantIdSet := insert participant r.participantIdSet },true)

/-- `Leave`, which is also what `KickoutParticipant` does. The streams stay in the maps until
they report that they are shut down. -/
def leave (r : Room) (participant : Id) : Room × List Call :=
  ({ r with participantIdSet := r.participantIdSet.erase participant },
    (r.participantPublishsMap.valuesOf participant).map .stop ++
      (r.participantSubscribesMap.valuesOf participant).map .stop)

/-- `ParticipantPublish` of a stream that is accepted. -/
def participantPublish (r : Room) (participant stream : Id) : Option Room :=
  if participant ∈ r.participantIdSet then
    some { r with participantPublishsMap := r.participantPublishsMap.insert participant stream }
  else none

/-- `ParticipantSubscribe` of a stream that is accepted. -/
def participantSubscribe (r : Room) (srcParticipant dstParticipant publish stream : Id) :
    Option (Room × List Call) :=
  if srcParticipant ∈ r.participantIdSet ∧ dstParticipant ∈ r.participantIdSet ∧
      publish ∈ r.participantPublishsMap.valuesOf dstParticipant then
    some ({ r with
      publishSubscribesMap := r.publishSubscribesMap.insert publish stream
      participantSubscribesMap := r.participantSubscribesMap.insert srcParticipant stream },
      [.registerDataObserver publish stream])
  else none

/-! ### OnWebrtcStreamShutdown -/

/-- The loop over `participant_publishs_map_`: what it does to `publish_subscribes_map_`, and
the calls it makes. -/
def releaseSubscribers (stream : Id) :
    List (Id × List Id) → SetMap Id Id → SetMap Id Id × List Call
  | [],subscribes => (subscribes,[])
  | e::es,subscribes =>
      if stream ∈ e.2 then
        match subscribes.find? stream with
        | some observers =>
            let rest := releaseSubscribers stream es (subscribes.eraseKey stream)
            (rest.1,observers.flatMap
              (fun s => [.unregisterDataObserver stream s,.stop s]) ++ rest.2)
        | none => releaseSubscribers stream es subscribes
      else releaseSubscribers stream es subscribes

/-- The loop over `participant_subscribes_map_`, in the same way. For each set with the stream
it goes through all of `publish_subscribes_map_`. -/
def releaseSubscription (stream : Id) :
    List (Id × List Id) → SetMap Id Id → SetMap Id Id × List Call
  | [],subscribes => (subscribes,[])
  | e::es,subscribes =>
      if stream ∈ e.2 then
        let calls := subscribes.entries.flatMap fun p =>
          (p.2.filter (· = stream)).map (.unregisterDataObserver p.1)
        let rest := releaseSubscription stream es (subscribes.eraseValue stream)
        (rest.1,calls ++ rest.2)
      else releaseSubscription stream es subscribes

/-- `OnWebrtcStreamShutdown`, when its handler runs. -/
def onWebrtcStreamShutdown (r : Room) (stream : Id) : Room × List Call :=
  let first := releaseSubscribers stream r.participantPublishsMap.entries r.publishSubscribesMap
  let second := releaseSubscription stream r.participantSubscribesMap.entries first.1
  ({ r with
    participantPublishsMap := r.participantPublishsMap.dropValue stream
    publishSubscribesMap := second.1
    participantSubscribesMap := r.participantSubscribesMap.dropValue stream },
    first.2 ++ second.2)

/-- A stream stands in one of the sets of a loop. -/
def Meets (stream : Id) (es : List (Id × List Id)) : Prop := ∃ e ∈ es, stream ∈ e.2

theorem meets_nil (stream : Id) : ¬ Meets stream [] := by
  rintro ⟨e,he,_⟩
  exact List.not_mem_nil he

theorem meets_cons {stream : Id} {e : Id × List Id} {es : List (Id × List Id)} :
    Meets stream (e::es) ↔ stream ∈ e.2 ∨ Meets stream es := by
  simp only [Meets,List.mem_cons,exists_eq_or_imp]

theorem meets_entries {stream : Id} {m : SetMap Id Id} :
    Meets stream m.entries ↔ ∃ p, m.Under p stream := by
  constructor
  · rintro ⟨⟨p,vs⟩,he,hv⟩
    exact ⟨p,vs,he,hv⟩
  · rintro ⟨p,vs,he,hv⟩
    exact ⟨(p,vs),he,hv⟩

theorem releaseSubscribers_absent {stream : Id} {m : SetMap Id Id} (h : m.find? stream = none)
    (es : List (Id × List Id)) : releaseSubscribers stream es m = (m,[]) := by
  induction es with
  | nil => rfl
  | cons e es ih => simp only [releaseSubscribers,h,ih,ite_self]

theorem releaseSubscribers_not_meets {stream : Id} {m : SetMap Id Id} {es : List (Id × List Id)}
    (h : ¬ Meets stream es) : releaseSubscribers stream es m = (m,[]) := by
  induction es with
  | nil => rfl
  | cons e es ih =>
      rw [meets_cons,not_or] at h
      rw [releaseSubscribers,if_neg h.1,ih h.2]

/-- The first set with the stream takes the entry of the stream away, so that the sets after
it find none. -/
theorem releaseSubscribers_meets {stream : Id} {m : SetMap Id Id} {es : List (Id × List Id)}
    {observers : List Id} (h : Meets stream es) (hf : m.find? stream = some observers) :
    releaseSubscribers stream es m = (m.eraseKey stream,observers.flatMap
      fun s => [.unregisterDataObserver stream s,.stop s]) := by
  induction es with
  | nil => exact absurd h (meets_nil stream)
  | cons e es ih =>
      by_cases he : stream ∈ e.2
      · have hgone : (m.eraseKey stream).find? stream = none := SetMap.find?_eraseKey
        simp only [releaseSubscribers,if_pos he,hf,releaseSubscribers_absent hgone,
          List.append_nil]
      · rw [releaseSubscribers,if_neg he]
        exact ih ((meets_cons.mp h).resolve_left he)

theorem under_releaseSubscribers {stream k v : Id} {es : List (Id × List Id)}
    {m : SetMap Id Id} : (releaseSubscribers stream es m).1.Under k v ↔
      m.Under k v ∧ ¬ (k = stream ∧ Meets stream es) := by
  by_cases h : Meets stream es
  · cases hf : m.find? stream with
    | some observers =>
        rw [releaseSubscribers_meets h hf,SetMap.under_eraseKey]
        simp only [h,and_true,ne_eq]
    | none =>
        rw [releaseSubscribers_absent hf]
        have habsent := SetMap.find?_eq_none.mp hf
        constructor
        · rintro hu
          exact ⟨hu,fun hk => habsent (hk.1 ▸ hu.hasKey)⟩
        · exact And.left
  · rw [releaseSubscribers_not_meets h]
    simp only [h,and_false,not_false_eq_true,and_true]

theorem hasKey_releaseSubscribers {stream k : Id} {es : List (Id × List Id)}
    {m : SetMap Id Id} : (releaseSubscribers stream es m).1.HasKey k ↔
      m.HasKey k ∧ ¬ (k = stream ∧ Meets stream es) := by
  by_cases h : Meets stream es
  · cases hf : m.find? stream with
    | some observers =>
        rw [releaseSubscribers_meets h hf,SetMap.hasKey_eraseKey]
        simp only [h,and_true,ne_eq]
    | none =>
        rw [releaseSubscribers_absent hf]
        have habsent := SetMap.find?_eq_none.mp hf
        constructor
        · rintro hu
          exact ⟨hu,fun hk => habsent (hk.1 ▸ hu)⟩
        · exact And.left
  · rw [releaseSubscribers_not_meets h]
    simp only [h,and_false,not_false_eq_true,and_true]

theorem mem_releaseSubscribers {stream : Id} {c : Call} {es : List (Id × List Id)}
    {m : SetMap Id Id} : c ∈ (releaseSubscribers stream es m).2 ↔
      Meets stream es ∧
        ∃ s, m.Under stream s ∧ (c = .unregisterDataObserver stream s ∨ c = .stop s) := by
  by_cases h : Meets stream es
  · cases hf : m.find? stream with
    | some observers =>
        rw [releaseSubscribers_meets h hf]
        have hobs : ∀ s, s ∈ observers ↔ m.Under stream s := by
          intro s
          rw [← SetMap.mem_valuesOf,SetMap.valuesOf,hf,Option.getD_some]
        simp only [List.mem_flatMap,List.mem_cons,List.not_mem_nil,or_false,h,true_and,hobs]
    | none =>
        rw [releaseSubscribers_absent hf]
        have habsent := SetMap.find?_eq_none.mp hf
        constructor
        · exact fun hc => absurd hc List.not_mem_nil
        · rintro ⟨_,s,hs,_⟩
          exact absurd hs.hasKey habsent
  · rw [releaseSubscribers_not_meets h]
    simp only [h,false_and,List.not_mem_nil]

theorem under_releaseSubscription {stream k v : Id} {es : List (Id × List Id)}
    {m : SetMap Id Id} : (releaseSubscription stream es m).1.Under k v ↔
      m.Under k v ∧ ¬ (v = stream ∧ Meets stream es) := by
  induction es generalizing m with
  | nil => simp [releaseSubscription,meets_nil]
  | cons e es ih =>
      rw [releaseSubscription,meets_cons]
      by_cases he : stream ∈ e.2
      · rw [if_pos he]
        simp only [ih,SetMap.under_eraseValue,he,true_or,and_true]
        tauto
      · rw [if_neg he,ih]
        simp only [he,false_or]

theorem hasKey_releaseSubscription {stream k : Id} {es : List (Id × List Id)}
    {m : SetMap Id Id} :
    (releaseSubscription stream es m).1.HasKey k ↔ m.HasKey k := by
  induction es generalizing m with
  | nil => rfl
  | cons e es ih =>
      rw [releaseSubscription]
      by_cases he : stream ∈ e.2
      · rw [if_pos he]
        exact ih.trans SetMap.hasKey_eraseValue
      · rw [if_neg he]
        exact ih

theorem mem_releaseSubscription {stream : Id} {c : Call} {es : List (Id × List Id)}
    {m : SetMap Id Id} : c ∈ (releaseSubscription stream es m).2 ↔
      Meets stream es ∧ ∃ p, m.Under p stream ∧ c = .unregisterDataObserver p stream := by
  induction es generalizing m with
  | nil => simp [releaseSubscription,meets_nil]
  | cons e es ih =>
      have hround : (c ∈ m.entries.flatMap fun p =>
          (p.2.filter (· = stream)).map (.unregisterDataObserver p.1)) ↔
          ∃ p, m.Under p stream ∧ c = .unregisterDataObserver p stream := by
        simp only [List.mem_flatMap,List.mem_map,List.mem_filter,decide_eq_true_eq,SetMap.Under]
        constructor
        · rintro ⟨p,hp,s,⟨hs,rfl⟩,rfl⟩
          exact ⟨p.1,⟨p.2,hp,hs⟩,rfl⟩
        · rintro ⟨p,⟨vs,hp,hs⟩,rfl⟩
          exact ⟨(p,vs),hp,stream,⟨hs,rfl⟩,rfl⟩
      rw [releaseSubscription,meets_cons]
      by_cases he : stream ∈ e.2
      · rw [if_pos he]
        simp only [List.mem_append,hround,ih,SetMap.under_eraseValue,he,true_or,true_and,
          ne_eq,not_true_eq_false,and_false,false_and,exists_false,or_false]
      · rw [if_neg he,ih]
        simp only [he,false_or]

end Room
end Ylrtc.Signaling
