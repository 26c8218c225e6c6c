import Ylrtc.Lib.Run
import Mathlib.Data.Prod.Lex
import Mathlib.Order.WellFounded

/-!
# Machines that come to rest

Some events of a machine find nothing to do in some states. Where each event that does find
something lowers a measure, every run of such events comes to an end.
-/
namespace Ylrtc.Run
variable {σ ε μ : Type}

/-- The first `n` events of an endless sequence. -/
def upTo (f : ℕ → ε) (n : ℕ) : List ε := (List.range n).map f

theorem upTo_succ (f : ℕ → ε) (n : ℕ) : upTo f (n+1) = upTo f n++[f n] := by
  rw [upTo,List.range_succ,List.map_append]
  rfl

/-- Events that find something to do keep an invariant and lower a measure. -/
structure Lowers (step : σ → ε → σ) (I : σ → Prop) (Busy : σ → ε → Prop) (lt : μ → μ → Prop)
    (measure : σ → μ) : Prop where
  wf : WellFounded lt
  keeps : ∀ s e, I s → Busy s e → I (step s e)
  lowers : ∀ s e, I s → Busy s e → lt (measure (step s e)) (measure s)

variable {step : σ → ε → σ} {I : σ → Prop} {Busy : σ → ε → Prop} {lt : μ → μ → Prop}
  {measure : σ → μ}

/-- No endless sequence of events always finds something to do. -/
theorem Lowers.ends (h : Lowers step I Busy lt measure) {s : σ} (hs : I s) (f : ℕ → ε) :
    ∃ n, ¬Busy (run step s (upTo f n)) (f n) := by
  by_contra hbusy
  rw [not_exists] at hbusy
  have hkept (n : ℕ) : I (run step s (upTo f n)) := by
    induction n with
    | zero => exact hs
    | succ n ih =>
        rw [upTo_succ,run_snoc]
        exact h.keeps _ _ ih (not_not.mp (hbusy n))
  have hlower (n : ℕ) : lt (measure (run step s (upTo f (n+1)))) (measure (run step s (upTo f n))) := by
    rw [upTo_succ,run_snoc]
    exact h.lowers _ _ (hkept n) (not_not.mp (hbusy n))
  obtain ⟨m,⟨n,rfl⟩,hmin⟩ := h.wf.has_min (Set.range fun n => measure (run step s (upTo f n)))
    ⟨_,0,rfl⟩
  exact hmin _ ⟨n+1,rfl⟩ (hlower n)

end Ylrtc.Run
