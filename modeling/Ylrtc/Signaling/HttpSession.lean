import Ylrtc.Lib.Run
import Ylrtc.Lib.WriteQueue

/-!
# HTTP pipelining

`HttpSession` of `signaling/signaling_server_base.h` with its queue, over any order in which
its operations complete. A request is read while there is room for its response, and responses
are written one at a time.
-/
namespace Ylrtc.Signaling.Http
open Run WriteQueue

variable {τ ξ ρ : Type}

/-- The requests, and `ManageApi::HandleRequest` with the rooms behind it. -/
structure Api (τ ξ ρ : Type) where
  isUpgrade : ξ → Bool
  handleRequest : τ → ξ → τ × ρ
  /-- `need_eof` of a response. -/
  needEof : ρ → Bool

def limit : ℕ := 8

/-- `ec` of a read. -/
inductive ReadError where
  | none
  | endOfStream
  | other
  deriving DecidableEq, Repr

/-- The session, the operations that are outstanding, and what it has answered. -/
structure HttpSession (τ ρ : Type) where
  rooms : τ
  queue : Line ρ := {}
  reading : ℕ := 1
  answered : List ρ := []
  /-- The calls of `DoEof` and of `HandleError`, and whether the stream was given away. -/
  eofs : ℕ := 0
  errors : ℕ := 0
  released : Bool := false
  /-- `BOOST_ASSERT` of the queue. -/
  asserted : Bool := true

namespace HttpSession

def isFull (s : HttpSession τ ρ) : Bool := limit ≤ s.queue.waiting.length

def doRead (s : HttpSession τ ρ) : HttpSession τ ρ := { s with reading := s.reading+1 }

def doEof (s : HttpSession τ ρ) : HttpSession τ ρ := { s with eofs := s.eofs+1 }

def handleError (s : HttpSession τ ρ) : HttpSession τ ρ := { s with errors := s.errors+1 }

/-- The response joins the queue. -/
def respond (s : HttpSession τ ρ) (rooms : τ) (msg : ρ) : HttpSession τ ρ :=
  { s with rooms := rooms, queue := s.queue.push msg, answered := s.answered++[msg] }

def onRead (api : Api τ ξ ρ) (s : HttpSession τ ρ) (ec : ReadError) (request : ξ) :
    HttpSession τ ρ :=
  match ec with
  | .endOfStream => s.doEof
  | .other => s.handleError
  | .none =>
      if api.isUpgrade request then { s with released := true }
      else
        let (rooms,msg) := api.handleRequest s.rooms request
        let s := s.respond rooms msg
        if s.isFull then s else s.doRead

/-- `OnWrite` of the queue: whether a read is to be begun, and the session. -/
def queueOnWrite (s : HttpSession τ ρ) : Bool × HttpSession τ ρ :=
  (s.isFull,{ s with
    asserted := s.asserted && !s.queue.waiting.isEmpty
    queue := s.queue.pop })

def onWrite (s : HttpSession τ ρ) (close ec : Bool) : HttpSession τ ρ :=
  if ec then s.handleError
  else if close then s.doEof
  else
    let (wasFull,s) := s.queueOnWrite
    if wasFull then s.doRead else s

end HttpSession

inductive Event (ξ : Type) where
  | onRead (ec : ReadError) (request : ξ)
  | onWrite (ec : Bool)

/-- A handler runs only while its operation is outstanding. The handler of a write knows of its
message whether it needs the end of the stream. -/
def step (api : Api τ ξ ρ) (s : HttpSession τ ρ) : Event ξ → HttpSession τ ρ
  | .onRead ec request =>
      if s.reading = 0 then s else { s with reading := s.reading-1 }.onRead api ec request
  | .onWrite ec =>
      match s.queue.outstanding with
      | [] => s
      | msg::_ => { s with queue := s.queue.ended }.onWrite (api.needEof msg) ec

/-- No read and no write has ended the session, in part or as a whole. -/
def Untroubled (s : HttpSession τ ρ) : Prop := s.eofs = 0 ∧ s.errors = 0 ∧ s.released = false

/-- There is room for the response to a request that is read. -/
structure Kept (s : HttpSession τ ρ) : Prop where
  queue : s.queue.Settled s.answered
  bounded : s.queue.waiting.length+s.reading ≤ limit
  alone : s.reading ≤ 1
  asserted : s.asserted = true
  writing : Untroubled s → s.queue.Writing s.answered

/-- What every operation keeps: an untroubled session reads unless its queue is full. -/
structure Inv (s : HttpSession τ ρ) : Prop extends Kept s where
  flowing : Untroubled s → s.reading = 1 ∨ s.queue.waiting.length = limit

theorem inv_start (rooms : τ) : Inv ({ rooms := rooms } : HttpSession τ ρ) where
  queue := .inl writing_empty
  bounded := Nat.le_add_left 1 7
  alone := Nat.le_refl 1
  asserted := rfl
  writing _ := writing_empty
  flowing _ := .inl rfl

theorem not_untroubled_doEof (s : HttpSession τ ρ) : ¬Untroubled s.doEof :=
  fun h => Nat.succ_ne_zero _ h.1

theorem not_untroubled_handleError (s : HttpSession τ ρ) : ¬Untroubled s.handleError :=
  fun h => Nat.succ_ne_zero _ h.2.1

/-- The end of `OnRead`, where no read is outstanding. -/
theorem inv_respond {s : HttpSession τ ρ} (hs : Kept s) (hidle : s.reading = 0)
    (hroom : s.queue.waiting.length < limit) (rooms : τ) (msg : ρ) :
    Inv (if (s.respond rooms msg).isFull then s.respond rooms msg
      else (s.respond rooms msg).doRead) := by
  have hlength : (s.queue.push msg).waiting.length = s.queue.waiting.length+1 := by
    rw [waiting_push,List.length_append,List.length_singleton]
  have hqueue := admits_settled.push msg hs.queue
  have hwriting (h : Untroubled s) := (hs.writing h).push msg
  cases hfull : (s.respond rooms msg).isFull with
  | true =>
      have hle : limit ≤ (s.queue.push msg).waiting.length := of_decide_eq_true hfull
      rw [if_pos rfl]
      constructor
      case flowing =>
        refine fun _ => .inr ?_
        show (s.queue.push msg).waiting.length = limit
        omega
      constructor
      case queue => exact hqueue
      case bounded =>
        show (s.queue.push msg).waiting.length+s.reading ≤ limit
        omega
      case alone => exact hs.alone
      case asserted => exact hs.asserted
      case writing => exact hwriting
  | false =>
      have hlt : ¬limit ≤ (s.queue.push msg).waiting.length := of_decide_eq_false hfull
      rw [if_neg Bool.false_ne_true]
      constructor
      case flowing =>
        refine fun _ => .inl ?_
        show s.reading+1 = 1
        omega
      constructor
      case queue => exact hqueue
      case bounded =>
        show (s.queue.push msg).waiting.length+(s.reading+1) ≤ limit
        omega
      case alone =>
        show s.reading+1 ≤ 1
        omega
      case asserted => exact hs.asserted
      case writing => exact hwriting

theorem inv_troubled {s : HttpSession τ ρ} (hs : Kept s) (h : ¬Untroubled s) : Inv s :=
  { hs with flowing := fun hu => absurd hu h }

theorem inv_onRead (api : Api τ ξ ρ) {s : HttpSession τ ρ} (hs : Kept s) (hidle : s.reading = 0)
    (hroom : s.queue.waiting.length < limit) (ec : ReadError) (request : ξ) :
    Inv (s.onRead api ec request) := by
  cases ec with
  | endOfStream =>
      have hended := not_untroubled_doEof s
      exact inv_troubled ⟨hs.queue,hs.bounded,hs.alone,hs.asserted,fun h => absurd h hended⟩ hended
  | other =>
      have hended := not_untroubled_handleError s
      exact inv_troubled ⟨hs.queue,hs.bounded,hs.alone,hs.asserted,fun h => absurd h hended⟩ hended
  | none =>
      simp only [HttpSession.onRead]
      split
      · have hreleased : ¬Untroubled { s with released := true } := fun h => Bool.noConfusion h.2.2
        exact inv_troubled ⟨hs.queue,hs.bounded,hs.alone,hs.asserted,
          fun h => absurd h hreleased⟩ hreleased
      · exact inv_respond hs hidle hroom _ _

/-- A message that has been written leaves the queue, and a read is begun if that is what it
had waited for. -/
theorem inv_queueOnWrite {s : HttpSession τ ρ} (hs : Inv s)
    (hstalled : s.queue.ended.Stalled s.answered) :
    Inv (if ({ s with queue := s.queue.ended }.queueOnWrite).1 then
        ({ s with queue := s.queue.ended }.queueOnWrite).2.doRead
      else ({ s with queue := s.queue.ended }.queueOnWrite).2) := by
  have hpop := hstalled.pop
  have hpos : 0 < s.queue.waiting.length := List.length_pos_iff.mpr hstalled.waiting
  have hasserted : (s.asserted && !s.queue.waiting.isEmpty) = true := by
    rw [hs.asserted,Bool.true_and,Bool.not_eq_true',List.isEmpty_eq_false_iff]
    exact hstalled.waiting
  have hlength : s.queue.ended.pop.waiting.length = s.queue.waiting.length-1 := by
    rw [waiting_pop,List.length_tail]
    rfl
  have hbounded := hs.bounded
  have halone := hs.alone
  cases hfull : { s with queue := s.queue.ended }.isFull with
  | true =>
      have hle : limit ≤ s.queue.waiting.length := of_decide_eq_true hfull
      rw [HttpSession.queueOnWrite,if_pos hfull]
      constructor
      case flowing =>
        refine fun _ => .inl ?_
        show s.reading+1 = 1
        omega
      constructor
      case queue => exact .inl hpop
      case bounded =>
        show s.queue.ended.pop.waiting.length+(s.reading+1) ≤ limit
        omega
      case alone =>
        show s.reading+1 ≤ 1
        omega
      case asserted => exact hasserted
      case writing => exact fun _ => hpop
  | false =>
      have hlt : ¬limit ≤ s.queue.waiting.length := of_decide_eq_false hfull
      rw [HttpSession.queueOnWrite,if_neg (by rw [hfull]; exact Bool.false_ne_true)]
      constructor
      case flowing =>
        intro hu
        have hflowing := hs.flowing hu
        exact .inl (hflowing.resolve_right fun heq => hlt (Nat.le_of_eq heq.symm))
      constructor
      case queue => exact .inl hpop
      case bounded =>
        show s.queue.ended.pop.waiting.length+s.reading ≤ limit
        omega
      case alone => exact hs.alone
      case asserted => exact hasserted
      case writing => exact fun _ => hpop

theorem inv_step (api : Api τ ξ ρ) {s : HttpSession τ ρ} (hs : Inv s) (e : Event ξ) :
    Inv (step api s e) := by
  have hbounded := hs.bounded
  have halone := hs.alone
  cases e with
  | onRead ec request =>
      simp only [step]
      split
      · exact hs
      · have hidle : s.reading-1 = 0 := by omega
        have hkept : Kept { s with reading := s.reading-1 } :=
          ⟨hs.queue,by show s.queue.waiting.length+(s.reading-1) ≤ limit; omega,
            by show s.reading-1 ≤ 1; omega,hs.asserted,hs.writing⟩
        exact inv_onRead api hkept hidle (by show s.queue.waiting.length < limit; omega) ec request
  | onWrite ec =>
      simp only [step]
      split
      · exact hs
      · rename_i msg rest hout
        have hbusy : s.queue.outstanding ≠ [] := by
          rw [hout]
          exact List.cons_ne_nil msg rest
        have hended := hs.queue.ended hbusy
        unfold HttpSession.onWrite
        split
        · have h := not_untroubled_handleError { s with queue := s.queue.ended }
          exact inv_troubled ⟨.inr hended,hbounded,halone,hs.asserted,fun hu => absurd hu h⟩ h
        · split
          · have h := not_untroubled_doEof { s with queue := s.queue.ended }
            exact inv_troubled ⟨.inr hended,hbounded,halone,hs.asserted,fun hu => absurd hu h⟩ h
          · exact inv_queueOnWrite hs hended

/-- A session that has stalled, with the writes that it had begun by then. -/
def StalledAt (msgs : List ρ) (s : HttpSession τ ρ) : Prop :=
  s.queue.Stalled s.answered ∧ s.queue.started = msgs

theorem stalledAt_step (api : Api τ ξ ρ) {msgs : List ρ} {s : HttpSession τ ρ}
    (hs : StalledAt msgs s) (e : Event ξ) : StalledAt msgs (step api s e) := by
  cases e with
  | onRead ec request =>
      simp only [step]
      split
      · exact hs
      · cases ec with
        | endOfStream => exact hs
        | other => exact hs
        | none =>
            simp only [HttpSession.onRead]
            split
            · exact hs
            · have hrespond (msg : ρ) : (s.queue.push msg).Stalled (s.answered++[msg]) ∧
                  (s.queue.push msg).started = msgs :=
                ⟨hs.1.push msg,(hs.1.push_started msg).trans hs.2⟩
              split <;> exact hrespond _
  | onWrite ec =>
      simp only [step,hs.1.idle]
      exact hs

/-- The session over any run: one write and one read at most are outstanding, responses are
written in the order of their requests, no more than seven requests are answered ahead of the
writes, and with no write outstanding either all responses have been written or no other one
ever will be. A session that met no error, and has neither ended nor been upgraded, reads exactly
when its queue has room, so that it always waits for something. -/
theorem responses_in_order (api : Api τ ξ ρ) (rooms : τ) (es : List (Event ξ)) :
    let s := run (step api) { rooms := rooms } es
    s.queue.outstanding.length ≤ 1 ∧ s.reading ≤ 1 ∧ s.asserted = true ∧
      s.queue.started <+: s.answered ∧ s.answered.length ≤ s.queue.started.length+7 ∧
      (s.queue.outstanding = [] → s.queue.started = s.answered ∨
        ∀ after, (run (step api) s after).queue.started = s.queue.started) ∧
      (s.eofs = 0 → s.errors = 0 → s.released = false →
        (s.reading = 1 ↔ s.isFull = false) ∧ (s.reading = 1 ∨ s.queue.outstanding ≠ [])) := by
  have hinv := run_invariant (inv_start rooms) (fun _ e hs => inv_step api hs e) es
  generalize run (step api) { rooms := rooms } es = s at hinv
  have hbounded := hinv.bounded
  have hordered := admits_settled.ordered hinv.queue
  refine ⟨admits_settled.length_le hinv.queue,hinv.alone,hinv.asserted,hordered.begins,?_,?_,?_⟩
  · have hlength := congrArg List.length hordered
    simp only [List.length_append,List.length_tail] at hlength
    simp only [limit] at hbounded
    omega
  · intro hidle
    cases hinv.queue with
    | inl hwriting => exact .inl (hwriting.started_of_idle hidle)
    | inr hstalled =>
        refine .inr fun after => ?_
        exact (run_invariant (I := StalledAt _) ⟨hstalled,rfl⟩
          (fun _ e hs => stalledAt_step api hs e) after).2
  · intro heofs herrors hreleased
    have hu : Untroubled s := ⟨heofs,herrors,hreleased⟩
    have hwriting := hinv.writing hu
    have hflowing := hinv.flowing hu
    constructor
    · rw [HttpSession.isFull,decide_eq_false_iff_not]
      omega
    · cases hflowing with
      | inl hreading => exact .inl hreading
      | inr hfull =>
          refine .inr fun hidle => ?_
          have htake := congrArg List.length (hwriting.front.symm.trans hidle)
          rw [List.length_take,hfull,List.length_nil] at htake
          exact absurd htake (by decide)

end Ylrtc.Signaling.Http
