import Mathlib.Data.Int.Basic
import Ylrtc.Lib.Run

/-!
# Timers

`Timer` of `base/timer.cpp` over a `boost::asio::deadline_timer`: a wait ends when its time
has come or when it is cancelled, and only then its handler is queued. An observer here is
one that calls `AsyncWait` once when it starts and then at most at the end of
`OnTimerTimeout`, as the requesters, the tracks and the sessions do.
-/
namespace Ylrtc.Timers
open Run

/-- The wait, by the time at which it ends, and the handlers of waits that have ended: with
that time, or cancelled. -/
structure DeadlineTimer where
  wait : Option ℤ := none
  ended : List (Option ℤ) := []

namespace DeadlineTimer

def cancel (t : DeadlineTimer) : DeadlineTimer :=
  match t.wait with
  | none => t
  | some _ => ⟨none,t.ended++[none]⟩

/-- `expires_from_now`, which cancels, and `async_wait`. -/
def asyncWait (t : DeadlineTimer) (expiry : ℤ) : DeadlineTimer :=
  { t.cancel with wait := some expiry }

/-- The message loop looks at the clock. -/
def expire (t : DeadlineTimer) (now : ℤ) : DeadlineTimer :=
  match t.wait with
  | none => t
  | some expiry => if expiry ≤ now then ⟨none,t.ended++[some expiry]⟩ else t

end DeadlineTimer

structure Timer where
  timer : DeadlineTimer := {}
  stoped : Bool := false

namespace Timer

def asyncWait (t : Timer) (now : ℤ) (timeoutMillis : ℕ) : Timer :=
  if t.stoped then t else { t with timer := t.timer.asyncWait (now+timeoutMillis) }

def stop (t : Timer) : Timer := if t.stoped then t else ⟨t.timer.cancel,true⟩

end Timer

/-- An observer: what it does at a timeout, with the wait it then asks for, and its other
handlers. They read the clock. -/
structure Observer (σ ε : Type) where
  onTimerTimeout : σ → ℤ → σ × Option ℕ
  handle : σ → ℤ → ε → σ

/-- Time passes, the message loop looks at the clock or runs the next handler, the timer is
stopped, the observer is destroyed, or another handler of it runs. -/
inductive Event (ε : Type) where
  | advance (millis : ℕ)
  | expire
  | run
  | stop
  | observerDestroyed
  | handle (e : ε)

/-- `calls` records when `OnTimerTimeout` was called, with the wait it asked for. -/
structure State (σ : Type) where
  clock : ℤ
  timer : Timer
  alive : Bool
  observer : σ
  calls : List (ℤ × Option ℕ)

variable {σ ε : Type} (o : Observer σ ε)

/-- The call of `OnTimerTimeout` and what follows. -/
def State.call (s : State σ) : State σ :=
  let (observer,timeout) := o.onTimerTimeout s.observer s.clock
  { s with
    observer := observer
    timer := match timeout with
      | none => s.timer
      | some timeoutMillis => s.timer.asyncWait s.clock timeoutMillis
    calls := s.calls++[(s.clock,timeout)] }

/-- `OnTimeout`. -/
def State.onTimeout (s : State σ) (result : Option ℤ) : State σ :=
  if result.isSome && !s.timer.stoped && s.alive then s.call o else s

/-- The message loop takes the handler that it runs next. -/
def State.pop (s : State σ) : State σ :=
  { s with timer := { s.timer with
      timer := { s.timer.timer with ended := s.timer.timer.ended.tail } } }

def step (s : State σ) : Event ε → State σ
  | .advance millis => { s with clock := s.clock+millis }
  | .expire => { s with timer := { s.timer with timer := s.timer.timer.expire s.clock } }
  | .run =>
      match s.timer.timer.ended.head? with
      | none => s
      | some result => s.pop.onTimeout o result
  | .stop => { s with timer := s.timer.stop }
  | .observerDestroyed => { s with alive := false }
  | .handle e => if s.alive then { s with observer := o.handle s.observer s.clock e } else s

/-- The observer's start: a new timer and its first wait. -/
def start (clock : ℤ) (timeoutMillis : ℕ) (observer : σ) : State σ where
  clock := clock
  timer := Timer.asyncWait {} clock timeoutMillis
  alive := true
  observer := observer
  calls := []

/-! ### When a call is due -/

/-- The end of the wait that the last call asked for. -/
def due (first : ℤ) (calls : List (ℤ × Option ℕ)) : Option ℤ :=
  match calls.getLast? with
  | none => some first
  | some (time,timeout) => timeout.map fun (n : ℕ) => time+n

@[simp] theorem due_snoc (first time : ℤ) (timeout : Option ℕ) (calls : List (ℤ × Option ℕ)) :
    due first (calls++[(time,timeout)]) = timeout.map fun (n : ℕ) => time+n := by
  rw [due,List.getLast?_concat]

/-- The wait that is due has not ended, or its handler is the only one in the queue. -/
def Armed (t : DeadlineTimer) (now : ℤ) : Option ℤ → Prop
  | none => t = {}
  | some expiry => t = ⟨some expiry,[]⟩ ∨ t = ⟨none,[some expiry]⟩ ∧ expiry ≤ now

structure Inv (first : ℤ) (s : State σ) : Prop where
  calls : Along (fun before c => ∃ expiry ≤ c.1, due first before = some expiry) s.calls
  armed : s.timer.stoped = false → s.alive = true →
    Armed s.timer.timer s.clock (due first s.calls)

theorem inv_start (clock : ℤ) (timeoutMillis : ℕ) (observer : σ) :
    Inv (clock+timeoutMillis) (start clock timeoutMillis observer) :=
  ⟨along_nil _,fun _ _ => .inl rfl⟩

variable {o} {first : ℤ} {s : State σ}

theorem armed_advance {t : DeadlineTimer} {now : ℤ} {expiry : Option ℤ} (h : Armed t now expiry)
    (millis : ℕ) : Armed t (now+millis) expiry := by
  cases expiry with
  | none => exact h
  | some expiry => exact h.imp id fun hended => ⟨hended.1,by omega⟩

theorem armed_expire {t : DeadlineTimer} {now : ℤ} {expiry : Option ℤ} (h : Armed t now expiry) :
    Armed (t.expire now) now expiry := by
  cases expiry with
  | none =>
      rw [Armed] at h
      rw [h]
      rfl
  | some expiry =>
      cases h with
      | inl hwait =>
          rw [hwait,DeadlineTimer.expire]
          simp only
          split
          · rename_i hle
            exact .inr ⟨rfl,hle⟩
          · exact .inl rfl
      | inr hended =>
          rw [hended.1]
          exact .inr ⟨rfl,hended.2⟩

/-- A handler that runs in a timer that is armed is the one that is due. -/
theorem armed_pop {t : DeadlineTimer} {now : ℤ} {expiry result : Option ℤ} (h : Armed t now expiry)
    (hresult : t.ended.head? = some result) :
    t.wait = none ∧ t.ended.tail = [] ∧ ∃ e ≤ now, expiry = some e ∧ result = some e := by
  cases expiry with
  | none =>
      rw [Armed] at h
      rw [h] at hresult
      cases hresult
  | some e =>
      cases h with
      | inl hwait =>
          rw [hwait] at hresult
          cases hresult
      | inr hended =>
          rw [hended.1] at hresult
          cases hresult
          rw [hended.1]
          exact ⟨rfl,rfl,e,hended.2,rfl,rfl⟩

theorem Inv.call (hcalls : Along (fun before c => ∃ expiry ≤ c.1, due first before = some expiry)
    s.calls) (hstoped : s.timer.stoped = false) (htimer : s.timer.timer = {}) {expiry : ℤ}
    (hexpiry : expiry ≤ s.clock) (hdue : due first s.calls = some expiry) :
    Inv first (s.call o) := by
  rw [State.call]
  generalize o.onTimerTimeout s.observer s.clock = r
  obtain ⟨observer,timeout⟩ := r
  constructor
  · rw [along_snoc]
    exact ⟨hcalls,expiry,hexpiry,hdue⟩
  · intro _ _
    simp only [due_snoc]
    cases timeout with
    | none => exact htimer
    | some timeoutMillis =>
        simp only [Timer.asyncWait,hstoped,htimer]
        exact .inl rfl

/-- The handler that runs is called while nobody has stopped the timer or left it. -/
theorem onTimeout_eq (result : Option ℤ) : s.onTimeout o result =
    if result.isSome = true ∧ s.timer.stoped = false ∧ s.alive = true then s.call o else s := by
  rw [State.onTimeout]
  simp only [Bool.and_eq_true,Bool.not_eq_true',and_assoc]

theorem Inv.run (h : Inv first s) {result : Option ℤ}
    (hresult : s.timer.timer.ended.head? = some result) :
    Inv first (s.pop.onTimeout o result) := by
  rw [onTimeout_eq]
  split
  · rename_i hcalled
    obtain ⟨hwait,hrest,expiry,hle,hdue,_⟩ := armed_pop (h.armed hcalled.2.1 hcalled.2.2) hresult
    have htimer : s.pop.timer.timer = {} := by
      simp only [State.pop,hwait,hrest]
    exact Inv.call h.calls hcalled.2.1 htimer hle hdue
  · rename_i hnot
    refine ⟨h.calls,?_⟩
    intro hs ha
    obtain ⟨_,_,e,_,_,he⟩ := armed_pop (h.armed hs ha) hresult
    exact absurd ⟨by rw [he]; rfl,hs,ha⟩ hnot

theorem Inv.step (h : Inv first s) (e : Event ε) : Inv first (step o s e) := by
  cases e with
  | advance millis => exact ⟨h.calls,fun hs ha => armed_advance (h.armed hs ha) millis⟩
  | expire => exact ⟨h.calls,fun hs ha => armed_expire (h.armed hs ha)⟩
  | run =>
      simp only [Timers.step]
      cases hresult : s.timer.timer.ended.head? with
      | none => exact h
      | some result => exact h.run hresult
  | stop =>
      refine ⟨h.calls,?_⟩
      intro hs
      simp only [Timers.step,Timer.stop] at hs
      split at hs
      · rename_i hstoped
        rw [hstoped] at hs
        exact Bool.noConfusion hs
      · exact Bool.noConfusion hs
  | observerDestroyed => exact ⟨h.calls,fun _ ha => Bool.noConfusion ha⟩
  | handle e =>
      simp only [Timers.step]
      split
      · exact ⟨h.calls,h.armed⟩
      · exact h

/-- The calls of an observer that always asks for the same wait lie that far apart. -/
theorem pairwise_of_interval {n : ℕ} {calls : List (ℤ × Option ℕ)}
    (hinterval : ∀ c ∈ calls, c.2 = some n)
    (hcalls : Along (fun before c => ∃ expiry ≤ c.1, due first before = some expiry) calls) :
    (calls.map Prod.fst).Pairwise (fun time later : ℤ => time+n ≤ later) ∧
      ∀ expiry, due first calls = some expiry → ∀ c ∈ calls, c.1+n ≤ expiry := by
  induction calls using List.reverseRecOn with
  | nil => exact ⟨.nil,fun _ _ c hc => absurd hc List.not_mem_nil⟩
  | append_singleton calls c ih =>
      obtain ⟨time,timeout⟩ := c
      have htimeout := hinterval (time,timeout) (List.mem_append_right _ List.mem_cons_self)
      simp only at htimeout
      rw [along_snoc] at hcalls
      obtain ⟨hbefore,expiry,hle,hdue⟩ := hcalls
      obtain ⟨hpairwise,hlast⟩ := ih (fun c hc => hinterval c (List.mem_append_left _ hc)) hbefore
      have hold : ∀ c ∈ calls, c.1+n ≤ time := fun c hc =>
        Int.le_trans (hlast expiry hdue c hc) hle
      constructor
      · rw [List.map_append,List.pairwise_append]
        refine ⟨hpairwise,List.pairwise_singleton _ _,?_⟩
        intro a ha b hb
        obtain ⟨c,hc,rfl⟩ := List.mem_map.mp ha
        rw [List.mem_singleton.mp hb]
        exact hold c hc
      · intro e he c hc
        rw [due_snoc,htimeout,Option.map_some,Option.some.injEq] at he
        cases List.mem_append.mp hc with
        | inl hmem =>
            have := hold c hmem
            omega
        | inr hnew =>
            rw [List.mem_singleton.mp hnew]
            omega

/-! ### Silence -/

/-- The timer is stopped or nobody is there to be called. -/
def Over (s : State σ) : Prop := s.timer.stoped = true ∨ s.alive = false

theorem over_step (h : Over s) (e : Event ε) :
    Over (step o s e) ∧ (step o s e).calls = s.calls := by
  cases e with
  | advance millis => exact ⟨h,rfl⟩
  | expire => exact ⟨h,rfl⟩
  | run =>
      simp only [Timers.step]
      split
      · exact ⟨h,rfl⟩
      · rw [onTimeout_eq,if_neg]
        · exact ⟨h,rfl⟩
        · intro hcalled
          cases h with
          | inl hs =>
              rw [State.pop,hs] at hcalled
              exact Bool.noConfusion hcalled.2.1
          | inr ha =>
              rw [State.pop,ha] at hcalled
              exact Bool.noConfusion hcalled.2.2
  | stop =>
      refine ⟨.inl ?_,rfl⟩
      simp only [Timers.step,Timer.stop]
      split
      · assumption
      · rfl
  | observerDestroyed => exact ⟨.inr rfl,rfl⟩
  | handle e =>
      simp only [Timers.step]
      split
      · exact ⟨h,rfl⟩
      · exact ⟨h,rfl⟩

/-- Nothing is called any more. -/
theorem over_run (h : Over s) (es : List (Event ε)) : (run (step o) s es).calls = s.calls :=
  (run_invariant (I := fun t => Over t ∧ t.calls = s.calls) ⟨h,rfl⟩
    (fun _ e ht => ⟨(over_step ht.1 e).1,(over_step ht.1 e).2.trans ht.2⟩) es).2

/-! ### Runs -/

/-- A wait that is due has ended when the message loop has looked at the clock. -/
theorem expire_of_due {t : DeadlineTimer} {now expiry : ℤ} (h : Armed t now (some expiry))
    (hle : expiry ≤ now) : t.expire now = ⟨none,[some expiry]⟩ := by
  cases h with
  | inl hwait =>
      rw [hwait,DeadlineTimer.expire]
      simp only [hle,if_true,List.nil_append]
  | inr hended =>
      rw [hended.1]
      rfl

/-- A call that is due is made when the message loop comes to it. -/
theorem Inv.due_called (h : Inv first s) (hstoped : s.timer.stoped = false)
    (halive : s.alive = true) {expiry : ℤ} (hdue : due first s.calls = some expiry) (millis : ℕ)
    (hle : expiry ≤ s.clock+millis) :
    ∃ t : State σ, t.observer = s.observer ∧ t.clock = s.clock+millis ∧ t.calls = s.calls ∧
      Run.run (Timers.step o) s [.advance millis,.expire,.run] = t.call o := by
  have harmed := armed_advance (h.armed hstoped halive) millis
  rw [hdue] at harmed
  have htimer := expire_of_due harmed hle
  simp only [Run.run,List.foldl_cons,List.foldl_nil,Timers.step,htimer,List.head?_cons]
  rw [onTimeout_eq,if_pos ⟨rfl,hstoped,halive⟩]
  let ended : State σ := { s with
    clock := s.clock+millis, timer := ⟨⟨none,[some expiry]⟩,s.timer.stoped⟩ }
  exact ⟨ended.pop,rfl,rfl,rfl,rfl⟩

/-- Whatever an observer does, in every run: `OnTimerTimeout` is called only when the wait that
the last call asked for is over, and once for each wait; never after `Stop` and never when the
observer is gone; and until then a call that is due is made as soon as the message loop has
looked at the clock and run its handler. -/
theorem called_when_due {σ ε : Type} (o : Observer σ ε) (clock : ℤ) (timeoutMillis : ℕ)
    (observer : σ) (es : List (Event ε)) :
    let first := clock+timeoutMillis
    let begun := start clock timeoutMillis observer
    let s := run (step o) begun es
    Along (fun before c => ∃ expiry ≤ c.1, due first before = some expiry) s.calls ∧
    (∀ before after, es = before++.stop::after ∨ es = before++.observerDestroyed::after →
      s.calls = (run (step o) begun before).calls) ∧
    (s.timer.stoped = false → s.alive = true → ∀ expiry (millis : ℕ),
      due first s.calls = some expiry → expiry ≤ s.clock+millis →
      ∃ timeout, (run (step o) s [.advance millis,.expire,.run]).calls =
        s.calls++[(s.clock+millis,timeout)]) := by
  have hinv := run_invariant (inv_start clock timeoutMillis observer)
    (fun s e (h : Inv (clock+timeoutMillis) s) => h.step (o := o) e) es
  refine ⟨hinv.calls,?_,?_⟩
  · intro before after hes
    have hsplit : ∀ e : Event ε, es = before++e::after →
        Over (step o (run (step o) (start clock timeoutMillis observer) before) e) →
        (run (step o) (start clock timeoutMillis observer) es).calls =
          (step o (run (step o) (start clock timeoutMillis observer) before) e).calls := by
      intro e he hover
      have hrun := over_run (o := o) hover after
      rw [he]
      simp only [run,List.foldl_append,List.foldl_cons] at hrun ⊢
      exact hrun
    cases hes with
    | inl hstop =>
        refine hsplit .stop hstop (.inl ?_)
        simp only [step,Timer.stop]
        split
        · assumption
        · rfl
    | inr hgone => exact hsplit .observerDestroyed hgone (.inr rfl)
  · intro hstoped halive expiry millis hdue hle
    obtain ⟨t,_,hclock,hcalls,hrun⟩ := hinv.due_called (o := o) hstoped halive hdue millis hle
    rw [hrun,← hclock,← hcalls]
    exact ⟨_,rfl⟩

end Ylrtc.Timers
