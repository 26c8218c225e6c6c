import Mathlib.Data.List.Induction

/-!
# Runs of a state machine

A machine that takes one event at a time, what holds of every state it reaches, and
properties of the events of a run that depend on the events before them.
-/
namespace Ylrtc.Run
variable {σ ε : Type}

def run (step : σ → ε → σ) (s : σ) (es : List ε) : σ := es.foldl step s

@[simp] theorem run_nil (step : σ → ε → σ) (s : σ) : run step s [] = s := rfl

@[simp] theorem run_snoc (step : σ → ε → σ) (s : σ) (es : List ε) (e : ε) :
    run step s (es++[e]) = step (run step s es) e := by
  simp only [run,List.foldl_append,List.foldl_cons,List.foldl_nil]

/-- Invariant rule. -/
theorem run_invariant {step : σ → ε → σ} {I : σ → Prop} {s : σ} (hstart : I s)
    (hstep : ∀ s e, I s → I (step s e)) (es : List ε) : I (run step s es) := by
  induction es using List.reverseRecOn with
  | nil => exact hstart
  | append_singleton es e ih =>
      rw [run_snoc]
      exact hstep _ e ih

/-- Every event of a run has a property, given the events before it. -/
def Along (Q : List ε → ε → Prop) (es : List ε) : Prop :=
  ∀ before e after, es = before++e::after → Q before e

theorem along_nil (Q : List ε → ε → Prop) : Along Q [] := by
  intro before e after h
  simp at h

theorem along_snoc {Q : List ε → ε → Prop} {es : List ε} {e : ε} :
    Along Q (es++[e]) ↔ Along Q es ∧ Q es e := by
  constructor
  · intro h
    constructor
    · intro before x after hx
      apply h before x (after++[e])
      rw [hx,List.append_assoc,List.cons_append]
    · exact h es e [] rfl
  · intro h before x after hx
    cases after using List.reverseRecOn with
    | nil =>
        rw [List.append_singleton_inj] at hx
        rw [← hx.1,← hx.2]
        exact h.2
    | append_singleton after y =>
        rw [← List.cons_append,← List.append_assoc,List.append_singleton_inj] at hx
        exact h.1 before x after hx.1

theorem Along.prefix {Q : List ε → ε → Prop} {xs ys : List ε} (h : Along Q (xs++ys)) :
    Along Q xs := by
  intro before e after hxs
  apply h before e (after++ys)
  rw [hxs,List.append_assoc,List.cons_append]

/-- The events before one that there is. -/
theorem Along.of_mem {Q : List ε → ε → Prop} {es : List ε} (h : Along Q es) {e : ε}
    (he : e ∈ es) : ∃ before, before <+: es ∧ Q before e := by
  obtain ⟨before,after,hes⟩ := List.append_of_mem he
  exact ⟨before,⟨e::after,hes.symm⟩,h before e after hes⟩

theorem Along.mono {Q R : List ε → ε → Prop} {es : List ε} (h : Along Q es)
    (hQR : ∀ before e, Q before e → R before e) : Along R es :=
  fun before e after he => hQR before e (h before e after he)

/-- A property of the state that each event keeps on condition. -/
theorem run_invariant_along {step : σ → ε → σ} {I : σ → Prop} {Q : σ → ε → Prop} {s : σ}
    (hstart : I s) (hstep : ∀ s e, I s → Q s e → I (step s e)) {es : List ε}
    (h : Along (fun before e => Q (run step s before) e) es) : I (run step s es) := by
  induction es using List.reverseRecOn with
  | nil => exact hstart
  | append_singleton es e ih =>
      rw [along_snoc] at h
      rw [run_snoc]
      exact hstep _ e (ih h.1) h.2

/-- What each event does on condition, in the states that the condition keeps. -/
theorem along_of_invariant {step : σ → ε → σ} {I : σ → Prop} {Q R : σ → ε → Prop} {s : σ}
    (hstart : I s) (hstep : ∀ s e, I s → Q s e → I (step s e)) (hR : ∀ s e, I s → Q s e → R s e)
    {es : List ε} (h : Along (fun before e => Q (run step s before) e) es) :
    Along (fun before e => R (run step s before) e) es := by
  induction es using List.reverseRecOn with
  | nil => exact along_nil _
  | append_singleton es e ih =>
      rw [along_snoc] at h ⊢
      exact ⟨ih h.1,hR _ e (run_invariant_along hstart hstep h.1) h.2⟩

/-- Two properties of the events that are the same in the states that each of them keeps. -/
theorem along_iff_of_invariant {step : σ → ε → σ} {I : σ → Prop} {Q R : σ → ε → Prop} {s : σ}
    (hstart : I s) (hstep : ∀ s e, I s → Q s e → I (step s e))
    (hiff : ∀ s e, I s → (Q s e ↔ R s e)) (es : List ε) :
    Along (fun before e => Q (run step s before) e) es ↔
      Along (fun before e => R (run step s before) e) es := by
  constructor
  · exact along_of_invariant hstart hstep fun s e hI hQ => (hiff s e hI).mp hQ
  · exact along_of_invariant hstart (fun s e hI hR => hstep s e hI ((hiff s e hI).mpr hR))
      fun s e hI hR => (hiff s e hI).mpr hR

/-- A property of the events in the states before them, read off from the first event on. -/
theorem along_cons {step : σ → ε → σ} {Q : σ → ε → Prop} {s : σ} {e : ε} {es : List ε} :
    Along (fun before e => Q (run step s before) e) (e::es) ↔
      Q s e ∧ Along (fun before x => Q (run step (step s e) before) x) es := by
  constructor
  · intro h
    refine ⟨h [] e es rfl,?_⟩
    intro before x after hx
    exact h (e::before) x after (by rw [hx,List.cons_append])
  · rintro ⟨hQ,h⟩ before x after hx
    cases before with
    | nil =>
        obtain ⟨rfl,_⟩ := List.cons.inj hx
        exact hQ
    | cons y before =>
        obtain ⟨rfl,hes⟩ := List.cons.inj hx
        exact h before x after hes

/-- A property of all states that a run goes through is one of its events. -/
theorem reached_iff_along {step : σ → ε → σ} {I : σ → Prop} {s : σ} (hstart : I s)
    (es : List ε) : (∀ before after, es = before++after → I (run step s before)) ↔
      Along (fun before e => I (step (run step s before) e)) es := by
  constructor
  · intro h before e after he
    have hnext := h (before++[e]) after (by rw [he,List.append_assoc,List.singleton_append])
    rw [run_snoc] at hnext
    exact hnext
  · intro h before after he
    cases before using List.reverseRecOn with
    | nil => exact hstart
    | append_singleton before e =>
        rw [run_snoc]
        exact h before e after (by rw [he,List.append_assoc,List.singleton_append])

end Ylrtc.Run
