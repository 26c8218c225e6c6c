import Mathlib.Algebra.Ring.Int.Defs
import Ylrtc.Base.Timer

/-!
# Sessions whose client falls silent

`OnTimerTimeout` of `WebsocketSessionBase` in `signaling/signaling_server_base.cpp` with the
time that the signaling handler keeps of the last `keepAlive`. The difference is compared as
an unsigned number; the clock is taken not to go back.
-/
namespace Ylrtc.Signaling.KeepAlive
open Run Timers

abbrev kCheckKeepAliveInterval : ℕ := 3000
abbrev kKeepAliveTimeoutThreshold : ℕ := 3000

/-- `closed` records the calls of `AsyncClose`. -/
structure WebsocketSession where
  lastReceiveKeepAlive : Option ℤ := none
  timedOut : Bool := false
  closed : List ℤ := []

/-- A `keepAlive` that is received. -/
inductive Received where
  | keepAlive

/-- `delta > kKeepAliveTimeoutThreshold`. -/
def timesOut (now received : ℤ) : Bool :=
  kKeepAliveTimeoutThreshold < (BitVec.ofInt 64 (now-received)).toNat

def check (s : WebsocketSession) (now : ℤ) : WebsocketSession :=
  match s.lastReceiveKeepAlive with
  | none => s
  | some received =>
      if timesOut now received then { s with timedOut := true, closed := s.closed++[now] } else s

def onTimerTimeout (s : WebsocketSession) (now : ℤ) : WebsocketSession × Option ℕ :=
  (check s now,if (check s now).timedOut then none else some kCheckKeepAliveInterval)

def session : Observer WebsocketSession Received :=
  ⟨onTimerTimeout,fun s now _ => { s with lastReceiveKeepAlive := some now }⟩

/-- The session has been silent for too long when the handler runs. -/
def Silent (s : State WebsocketSession) : Prop :=
  ∃ received, s.observer.lastReceiveKeepAlive = some received ∧
    kKeepAliveTimeoutThreshold < s.clock-received

/-- Until it times out the session waits for the next check, and then for nothing. -/
structure Inv (first : ℤ) (s : State WebsocketSession) : Prop where
  closed : s.observer.closed.length = s.observer.timedOut.toNat
  waits : s.observer.timedOut = false →
    ∃ expiry ≤ s.clock+kCheckKeepAliveInterval, due first s.calls = some expiry
  rests : s.observer.timedOut = true → due first s.calls = none
  heard : ∀ received, s.observer.lastReceiveKeepAlive = some received → received ≤ s.clock

theorem inv_start (clock : ℤ) :
    Inv (clock+kCheckKeepAliveInterval) (start clock kCheckKeepAliveInterval {}) where
  closed := rfl
  waits _ := ⟨_,Int.le_refl _,rfl⟩
  rests h := Bool.noConfusion h
  heard _ h := by cases h

variable {first : ℤ} {s : State WebsocketSession}

/-- The comparison tells a true difference. -/
theorem timesOut_spec {now received : ℤ} (h : received ≤ now)
    (htimesOut : timesOut now received = true) : kKeepAliveTimeoutThreshold < now-received := by
  rw [timesOut,decide_eq_true_eq,BitVec.toNat_ofInt] at htimesOut
  omega

theorem timesOut_of_lt {now received : ℤ} (h : kKeepAliveTimeoutThreshold < now-received)
    (hlt : now-received < 2^64) : timesOut now received = true := by
  rw [timesOut,decide_eq_true_eq,BitVec.toNat_ofInt]
  omega

theorem call_calls (s : State WebsocketSession) : (s.call session).calls = s.calls++[(s.clock,
    if (check s.observer s.clock).timedOut then none else some kCheckKeepAliveInterval)] := rfl

theorem call_observer (s : State WebsocketSession) :
    (s.call session).observer = check s.observer s.clock := rfl

/-- A check closes the session if it has been silent. -/
theorem check_cases (h : Inv first s) :
    check s.observer s.clock = s.observer ∨
      Silent s ∧ check s.observer s.clock =
        { s.observer with timedOut := true, closed := s.observer.closed++[s.clock] } := by
  rw [check]
  split
  · exact .inl rfl
  · rename_i received hreceived
    split
    · rename_i htimesOut
      exact .inr ⟨⟨received,hreceived,timesOut_spec (h.heard received hreceived) htimesOut⟩,rfl⟩
    · exact .inl rfl

/-- A check is made only while one is due, so the session has not timed out before. -/
theorem Inv.call (h : Inv first s) (hdue : (due first s.calls).isSome = true) :
    Inv first (s.call session) := by
  have hwaiting : s.observer.timedOut = false := by
    cases htimedOut : s.observer.timedOut with
    | false => rfl
    | true =>
        rw [h.rests htimedOut] at hdue
        exact Bool.noConfusion hdue
  have hclosed := h.closed
  rw [hwaiting,Bool.toNat_false] at hclosed
  have hheard : ∀ received, (check s.observer s.clock).lastReceiveKeepAlive = some received →
      received ≤ s.clock := by
    intro received hreceived
    apply h.heard received
    cases check_cases h with
    | inl hsame => rw [hsame] at hreceived; exact hreceived
    | inr hsilent => rw [hsilent.2] at hreceived; exact hreceived
  cases check_cases h with
  | inl hsame =>
      constructor
      · rw [call_observer,hsame]
        exact h.closed
      · intro _
        rw [call_calls,hsame,hwaiting,due_snoc]
        exact ⟨_,Int.le_refl _,rfl⟩
      · intro htimedOut
        rw [call_observer,hsame,hwaiting] at htimedOut
        exact Bool.noConfusion htimedOut
      · exact hheard
  | inr hsilent =>
      constructor
      · rw [call_observer,hsilent.2,List.length_append,hclosed]
        rfl
      · intro htimedOut
        rw [call_observer,hsilent.2] at htimedOut
        exact Bool.noConfusion htimedOut
      · intro _
        rw [call_calls,hsilent.2,due_snoc]
        rfl
      · exact hheard

/-- A step that leaves the session and its calls alone. -/
theorem Inv.same (h : Inv first s) {s' : State WebsocketSession} (hclock : s.clock ≤ s'.clock)
    (hobserver : s'.observer = s.observer) (hcalls : s'.calls = s.calls) : Inv first s' where
  closed := by rw [hobserver]; exact h.closed
  waits := by
    rw [hobserver,hcalls]
    intro htimedOut
    obtain ⟨expiry,hle,hdue⟩ := h.waits htimedOut
    exact ⟨expiry,by omega,hdue⟩
  rests := by rw [hobserver,hcalls]; exact h.rests
  heard := by
    rw [hobserver]
    intro received hreceived
    have := h.heard received hreceived
    omega

/-- The steps of the timer that is armed, and what they say about closing. -/
theorem Inv.step (h : Inv first s) (ht : Timers.Inv first s) (e : Event Received) :
    Inv first (step session s e) ∧
      ((step session s e).observer.closed = s.observer.closed ∨ e = .run ∧ Silent s ∧
        (step session s e).observer.closed = s.observer.closed++[s.clock]) := by
  cases e with
  | advance millis =>
      refine ⟨h.same ?_ rfl rfl,.inl rfl⟩
      simp only [Timers.step]
      omega
  | expire => exact ⟨h.same (Int.le_refl _) rfl rfl,.inl rfl⟩
  | run =>
      simp only [Timers.step]
      cases hresult : s.timer.timer.ended.head? with
      | none => exact ⟨h,.inl rfl⟩
      | some result =>
          have hpop : Inv first s.pop := h.same (Int.le_refl _) rfl rfl
          simp only
          rw [onTimeout_eq]
          split
          · rename_i hcalled
            obtain ⟨_,_,expiry,_,hdue,_⟩ :=
              armed_pop (ht.armed hcalled.2.1 hcalled.2.2) hresult
            have hcall := hpop.call (show (due first s.pop.calls).isSome = true by
              rw [show s.pop.calls = s.calls from rfl,hdue]
              rfl)
            refine ⟨hcall,?_⟩
            cases check_cases hpop with
            | inl hsame => exact .inl (by rw [call_observer,hsame]; rfl)
            | inr hsilent =>
                exact .inr ⟨trivial,hsilent.1,by rw [call_observer,hsilent.2]; rfl⟩
          · exact ⟨hpop,.inl rfl⟩
  | stop => exact ⟨h.same (Int.le_refl _) rfl rfl,.inl rfl⟩
  | observerDestroyed => exact ⟨h.same (Int.le_refl _) rfl rfl,.inl rfl⟩
  | handle e =>
      simp only [Timers.step]
      split
      · refine ⟨⟨h.closed,h.waits,h.rests,?_⟩,.inl rfl⟩
        intro received hreceived
        simp only [session,Option.some.injEq] at hreceived
        exact Int.le_of_eq hreceived.symm
      · exact ⟨h,.inl rfl⟩

/-- Every closing was made in a state that was silent. -/
structure Closed (clock : ℤ) (es : List (Event Received)) (s : State WebsocketSession) : Prop where
  timer : Timers.Inv (clock+(kCheckKeepAliveInterval : ℤ)) s
  inv : Inv (clock+kCheckKeepAliveInterval) s
  silent : ∀ time ∈ s.observer.closed, ∃ before, before++[.run] <+: es ∧
    let t := run (step session) (start clock kCheckKeepAliveInterval {}) before
    t.clock = time ∧ Silent t

theorem closed_run (clock : ℤ) (es : List (Event Received)) :
    Closed clock es (run (step session) (start clock kCheckKeepAliveInterval {}) es) := by
  induction es using List.reverseRecOn with
  | nil => exact ⟨Timers.inv_start _ _ _,inv_start clock,fun _ h => absurd h List.not_mem_nil⟩
  | append_singleton es e ih =>
      rw [run_snoc]
      obtain ⟨hinv,hclosed⟩ := ih.inv.step ih.timer e
      refine ⟨ih.timer.step e,hinv,?_⟩
      have hold : ∀ time ∈ (run (step session) (start clock kCheckKeepAliveInterval {})
          es).observer.closed, ∃ before, before++[.run] <+: es++[e] ∧
          let t := run (step session) (start clock kCheckKeepAliveInterval {}) before
          t.clock = time ∧ Silent t := by
        intro time htime
        obtain ⟨before,hbefore,hsilent⟩ := ih.silent time htime
        exact ⟨before,hbefore.trans (List.prefix_append es [e]),hsilent⟩
      intro time htime
      cases hclosed with
      | inl hsame =>
          rw [hsame] at htime
          exact hold time htime
      | inr hnew =>
          rw [hnew.2.2] at htime
          cases List.mem_append.mp htime with
          | inl hmem => exact hold time hmem
          | inr hlast =>
              rw [List.mem_singleton] at hlast
              rw [hnew.1]
              exact ⟨es,List.prefix_refl _,hlast.symm,hnew.2.1⟩

/-- Only a `keepAlive` is remembered. -/
theorem not_heard (clock : ℤ) {es : List (Event Received)} (h : .handle .keepAlive ∉ es) :
    (run (step session) (start clock kCheckKeepAliveInterval {}) es).observer.lastReceiveKeepAlive =
      none := by
  induction es using List.reverseRecOn with
  | nil => rfl
  | append_singleton es e ih =>
      rw [List.mem_append,not_or,List.mem_singleton] at h
      have hbefore := ih h.1
      rw [run_snoc]
      generalize run (step session) (start clock kCheckKeepAliveInterval {}) es = s at hbefore ⊢
      cases e with
      | advance millis => exact hbefore
      | expire => exact hbefore
      | run =>
          simp only [Timers.step]
          split
          · exact hbefore
          · rw [onTimeout_eq]
            split
            · rw [call_observer,check,show s.pop.observer = s.observer from rfl,hbefore]
              exact hbefore
            · exact hbefore
      | stop => exact hbefore
      | observerDestroyed => exact hbefore
      | handle e =>
          cases e with
          | keepAlive => exact absurd rfl h.2

/-- In every run of a session in which the clock does not go back: the server closes it at most
once for silence, at a check of the timer, and only if its last `keepAlive` is then more than
three seconds old; so never if none has come. And a session that falls silent is closed by the
check that follows, within three seconds of the one before. -/
theorem closed_when_silent (clock : ℤ) (es : List (Event Received)) :
    let begun := start clock kCheckKeepAliveInterval {}
    let s := run (step session) begun es
    s.observer.closed.length ≤ 1 ∧
    (∀ time ∈ s.observer.closed, ∃ before, before++[.run] <+: es ∧
      (run (step session) begun before).clock = time ∧
      Silent (run (step session) begun before)) ∧
    (.handle .keepAlive ∉ es → s.observer.closed = []) ∧
    (s.observer.timedOut = false → s.alive = true → s.timer.stoped = false →
      ∀ received (millis : ℕ), s.observer.lastReceiveKeepAlive = some received →
      kCheckKeepAliveInterval ≤ millis → kKeepAliveTimeoutThreshold < s.clock+millis-received →
      s.clock+millis-received < 2^64 →
      (run (step session) s [.advance millis,.expire,.run]).observer.closed =
        [s.clock+millis]) := by
  have h := closed_run clock es
  refine ⟨?_,h.silent,?_,?_⟩
  · rw [h.inv.closed]
    exact Bool.toNat_le _
  · intro hnever
    rw [List.eq_nil_iff_forall_not_mem]
    intro time htime
    obtain ⟨before,hbegins,_,received,hreceived,_⟩ := h.silent time htime
    have hbefore : .handle .keepAlive ∉ before := fun hmem =>
      hnever (hbegins.subset (List.mem_append_left _ hmem))
    rw [not_heard clock hbefore] at hreceived
    cases hreceived
  · intro htimedOut halive hstoped received millis hreceived hmillis hsilent hlt
    obtain ⟨expiry,hle,hdue⟩ := h.inv.waits htimedOut
    obtain ⟨t,hobserver,hclock,_,hrun⟩ :=
      h.timer.due_called (o := session) hstoped halive hdue millis (by omega)
    have hclosed := h.inv.closed
    rw [htimedOut,Bool.toNat_false,List.length_eq_zero_iff] at hclosed
    rw [← hclock] at hsilent hlt ⊢
    rw [hrun,call_observer,check,hobserver,hreceived]
    simp only [timesOut_of_lt hsilent hlt,if_true,hclosed,List.nil_append]

end Ylrtc.Signaling.KeepAlive
