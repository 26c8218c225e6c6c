import Mathlib.Data.List.Basic
import Mathlib.Logic.Function.Basic

/-!
# Queues of threads

A job is posted to the thread it belongs to, and a thread takes its jobs in the order in
which they were posted. What waits for a receiver is read off the queue of its thread.
-/
namespace Ylrtc.Mailbox
variable {T J β : Type} [DecidableEq T]

/-- The queue of every thread. A job waits at home. -/
structure Mailboxes (home : J → T) where
  queue : T → List J
  at_home : ∀ t, ∀ j ∈ queue t, home j = t

namespace Mailboxes
variable {home : J → T}

def empty (home : J → T) : Mailboxes home := ⟨fun _ => [],fun _ _ h => absurd h List.not_mem_nil⟩

def post (m : Mailboxes home) (j : J) : Mailboxes home where
  queue := Function.update m.queue (home j) (m.queue (home j)++[j])
  at_home := by
    intro t j' hj
    rw [Function.update_apply] at hj
    split at hj
    · rename_i ht
      cases List.mem_append.mp hj with
      | inl hold => rw [ht]; exact m.at_home _ j' hold
      | inr hnew => rw [ht,List.mem_singleton.mp hnew]
    · exact m.at_home t j' hj

def postAll (m : Mailboxes home) (js : List J) : Mailboxes home := js.foldl post m

/-- The job that a thread takes next. -/
def next (m : Mailboxes home) (t : T) : Option J := (m.queue t).head?

/-- The queues when a thread has taken its next job. -/
def behind (m : Mailboxes home) (t : T) : Mailboxes home where
  queue := Function.update m.queue t (m.queue t).tail
  at_home := by
    intro u j hj
    rw [Function.update_apply] at hj
    split at hj
    · rename_i hu
      rw [hu]
      exact m.at_home t j (List.mem_of_mem_tail hj)
    · exact m.at_home u j hj

/-- What the jobs in the queue of a thread bring to a receiver. -/
def waiting (m : Mailboxes home) (f : J → Option β) (t : T) : List β := (m.queue t).filterMap f

end Mailboxes
open Mailboxes

/-- A receiver that jobs of one thread only bring something. -/
def LivesOn (home : J → T) (f : J → Option β) (t : T) : Prop := ∀ j, (f j).isSome → home j = t

section Waiting
variable {home : J → T} {f : J → Option β} {t u : T}

omit [DecidableEq T] in
theorem LivesOn.eq_none (hf : LivesOn home f t) {j : J} (hj : home j ≠ t) : f j = none := by
  cases hb : f j with
  | none => rfl
  | some b => exact absurd (hf j (by rw [hb]; rfl)) hj

theorem waiting_post (hf : LivesOn home f t) (m : Mailboxes home) (j : J) :
    (m.post j).waiting f t = m.waiting f t++(f j).toList := by
  simp only [waiting,post,Function.update_apply]
  split
  · rename_i ht
    rw [← ht,List.filterMap_append]
    cases hb : f j with
    | none => simp [hb]
    | some b => simp [hb]
  · rename_i ht
    rw [hf.eq_none (Ne.symm ht),Option.toList_none,List.append_nil]

/-- Several jobs bring what they bring one after the other. -/
theorem waiting_postAll (hf : LivesOn home f t) (m : Mailboxes home) (js : List J) :
    (m.postAll js).waiting f t = m.waiting f t++js.filterMap f := by
  induction js generalizing m with
  | nil => exact (List.append_nil _).symm
  | cons j js ih =>
      have hrest := ih (m.post j)
      rw [waiting_post hf] at hrest
      rw [postAll,List.foldl_cons]
      refine hrest.trans ?_
      rw [List.append_assoc,List.filterMap_cons]
      cases f j with
      | none => rfl
      | some b => rfl

/-- A job that is taken stood before everything else of its receiver. -/
theorem waiting_behind (hf : LivesOn home f u) {m : Mailboxes home} {j : J}
    (hj : m.next t = some j) : m.waiting f u = (f j).toList++(m.behind t).waiting f u := by
  have hqueue : m.queue t = j::(m.queue t).tail := (List.cons_head?_tail hj).symm
  simp only [waiting,behind,Function.update_apply]
  split
  · rename_i hu
    rw [hu,hqueue,List.filterMap_cons,List.tail_cons]
    cases f j with
    | none => rfl
    | some b => rfl
  · rename_i hu
    have hhome : home j = t := m.at_home t j (hqueue ▸ List.mem_cons_self)
    rw [hf.eq_none (by rw [hhome]; exact Ne.symm hu),Option.toList_none,List.nil_append]

end Waiting
end Ylrtc.Mailbox
