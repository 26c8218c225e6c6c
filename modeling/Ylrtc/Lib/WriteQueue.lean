import Mathlib.Data.List.Infix

/-!
# Queues that are written one at a time

Messages wait in a queue whose front one is being written: an asynchronous write
is begun when a message meets an empty queue, and when a write has ended the
front message leaves and the next one is begun. No second write is begun while
one is outstanding, and the writes follow the order of the messages.
-/
namespace Ylrtc.WriteQueue
variable {α : Type}

/-- The queue, the writes that are outstanding, and all that were begun so far. -/
structure Line (α : Type) where
  waiting : List α := []
  outstanding : List α := []
  started : List α := []
  deriving DecidableEq, Repr

/-- Begin to write the front message. -/
def Line.write (l : Line α) : Line α :=
  { l with outstanding := l.outstanding++l.waiting.take 1
           started := l.started++l.waiting.take 1 }

/-- A message joins the queue without being written. -/
def Line.append (l : Line α) (x : α) : Line α := { l with waiting := l.waiting++[x] }

def Line.push (l : Line α) (x : α) : Line α :=
  let l := l.append x
  if l.waiting.length = 1 then l.write else l

/-- The oldest write ends, its message still in the queue. -/
def Line.ended (l : Line α) : Line α := { l with outstanding := l.outstanding.tail }

/-- The front message leaves without the next one being written. -/
def Line.drop (l : Line α) : Line α := { l with waiting := l.waiting.tail }

def Line.pop (l : Line α) : Line α :=
  let l := l.drop
  if l.waiting = [] then l else l.write

/-- All messages but those behind the front one have been begun. -/
def Line.Ordered (pushed : List α) (l : Line α) : Prop :=
  l.started++l.waiting.tail = pushed

/-- Between two operations: what is outstanding is the front message. -/
structure Line.Writing (pushed : List α) (l : Line α) : Prop where
  front : l.outstanding = l.waiting.take 1
  ordered : l.Ordered pushed

/-- Between the end of a write and the removal of its message. -/
structure Line.Stalled (pushed : List α) (l : Line α) : Prop where
  waiting : l.waiting ≠ []
  idle : l.outstanding = []
  ordered : l.Ordered pushed

theorem writing_empty : Line.Writing ([] : List α) {} := ⟨rfl,rfl⟩

theorem Line.Ordered.begins {pushed : List α} {l : Line α} (h : l.Ordered pushed) :
    l.started <+: pushed := ⟨l.waiting.tail,h⟩

theorem Line.Writing.length_le {pushed : List α} {l : Line α} (h : l.Writing pushed) :
    l.outstanding.length ≤ 1 := by
  rw [h.front,List.length_take]
  exact Nat.min_le_left 1 _

/-- A queue at rest has written everything. -/
theorem Line.Writing.started_of_idle {pushed : List α} {l : Line α} (h : l.Writing pushed)
    (hidle : l.outstanding = []) : l.started = pushed := by
  have hordered := h.ordered
  have hwaiting : l.waiting = [] := by
    have htake := h.front.symm.trans hidle
    cases hw : l.waiting with
    | nil => rfl
    | cons x xs =>
        rw [hw] at htake
        cases htake
  rw [Line.Ordered,hwaiting,List.tail_nil,List.append_nil] at hordered
  exact hordered

theorem Line.Ordered.append {pushed : List α} {l : Line α} (h : l.Ordered pushed) (x : α)
    (hwaiting : l.waiting ≠ []) : (l.append x).Ordered (pushed++[x]) := by
  rw [Line.Ordered,Line.append,List.tail_append_of_ne_nil hwaiting,← List.append_assoc,h]

theorem waiting_push (l : Line α) (x : α) : (l.push x).waiting = l.waiting++[x] := by
  by_cases h : (l.append x).waiting.length = 1
  · rw [Line.push,if_pos h]
    rfl
  · rw [Line.push,if_neg h]
    rfl

theorem waiting_pop (l : Line α) : l.pop.waiting = l.waiting.tail := by
  by_cases h : l.drop.waiting = []
  · rw [Line.pop,if_pos h]
    rfl
  · rw [Line.pop,if_neg h]
    rfl

theorem push_of_waiting {l : Line α} (x : α) (hwaiting : l.waiting ≠ []) :
    l.push x = l.append x := by
  have hlength : (l.append x).waiting.length ≠ 1 := by
    have hpos := List.length_pos_iff.mpr hwaiting
    simp only [Line.append,List.length_append,List.length_singleton]
    omega
  simp only [Line.push,if_neg hlength]

theorem push_of_empty {l : Line α} (x : α) (hwaiting : l.waiting = []) :
    l.push x = { waiting := [x], outstanding := l.outstanding++[x], started := l.started++[x] } := by
  simp only [Line.push,Line.append,Line.write,hwaiting,List.nil_append,List.length_singleton,
    if_true,List.take_succ_cons,List.take_zero]

theorem started_write (l : Line α) : l.started <+: l.write.started := List.prefix_append _ _

theorem started_push (l : Line α) (x : α) : l.started <+: (l.push x).started := by
  by_cases h : (l.append x).waiting.length = 1
  · rw [Line.push,if_pos h]
    exact started_write (l.append x)
  · rw [Line.push,if_neg h]
    exact List.prefix_rfl

theorem started_pop (l : Line α) : l.started <+: l.pop.started := by
  by_cases h : l.drop.waiting = []
  · rw [Line.pop,if_pos h]
    exact List.prefix_rfl
  · rw [Line.pop,if_neg h]
    exact started_write l.drop

theorem Line.Writing.push {pushed : List α} {l : Line α} (h : l.Writing pushed) (x : α) :
    (l.push x).Writing (pushed++[x]) := by
  by_cases hwaiting : l.waiting = []
  · have hfront := h.front
    have hordered := h.ordered
    rw [hwaiting,List.take_nil] at hfront
    rw [Line.Ordered,hwaiting,List.tail_nil,List.append_nil] at hordered
    rw [push_of_empty x hwaiting,hfront]
    constructor
    case front => rfl
    case ordered => rw [Line.Ordered,hordered,List.tail_cons,List.append_nil]
  · rw [push_of_waiting x hwaiting]
    constructor
    case front =>
      rw [Line.append,List.take_append_of_le_length (List.length_pos_iff.mpr hwaiting)]
      exact h.front
    case ordered => exact h.ordered.append x hwaiting

theorem Line.Stalled.push {pushed : List α} {l : Line α} (h : l.Stalled pushed) (x : α) :
    (l.push x).Stalled (pushed++[x]) := by
  rw [push_of_waiting x h.waiting]
  constructor
  case waiting => exact List.append_ne_nil_of_left_ne_nil h.waiting [x]
  case idle => exact h.idle
  case ordered => exact h.ordered.append x h.waiting

/-- Messages that meet a stalled queue are not written. -/
theorem Line.Stalled.push_started {pushed : List α} {l : Line α} (h : l.Stalled pushed) (x : α) :
    (l.push x).started = l.started := by
  rw [push_of_waiting x h.waiting,Line.append]

theorem Line.Writing.ended {pushed : List α} {l : Line α} (h : l.Writing pushed)
    (hbusy : l.outstanding ≠ []) : l.ended.Stalled pushed := by
  constructor
  case waiting =>
    intro hwaiting
    exact hbusy (h.front.trans (by rw [show l.waiting = [] from hwaiting,List.take_nil]))
  case idle =>
    rw [Line.ended,h.front]
    cases l.waiting <;> rfl
  case ordered => exact h.ordered

theorem Line.Stalled.pop {pushed : List α} {l : Line α} (h : l.Stalled pushed) :
    l.pop.Writing pushed := by
  have hordered := h.ordered
  unfold Line.pop Line.drop
  cases hrest : l.waiting.tail with
  | nil =>
      rw [Line.Ordered,hrest] at hordered
      rw [if_pos rfl]
      exact ⟨h.idle,hordered⟩
  | cons x xs =>
      rw [Line.Ordered,hrest] at hordered
      rw [if_neg (List.cons_ne_nil x xs)]
      constructor
      case front => rw [Line.write,h.idle,List.nil_append]
      case ordered =>
        rw [Line.Ordered,Line.write,← hordered,List.append_assoc]
        rfl

/-- A property of the queue that new messages leave in place, whether the front one is
being written or not. -/
structure Admits (P : List α → Line α → Prop) : Prop where
  push : ∀ {pushed : List α} {l : Line α} (x : α), P pushed l → P (pushed++[x]) (l.push x)
  ordered : ∀ {pushed : List α} {l : Line α}, P pushed l → l.Ordered pushed
  length_le : ∀ {pushed : List α} {l : Line α}, P pushed l → l.outstanding.length ≤ 1

theorem admits_writing : Admits fun pushed (l : Line α) => l.Writing pushed :=
  ⟨fun x h => h.push x,fun h => h.ordered,fun h => h.length_le⟩

theorem admits_stalled : Admits fun pushed (l : Line α) => l.Stalled pushed :=
  ⟨fun x h => h.push x,fun h => h.ordered,fun h => by rw [h.idle]; exact Nat.zero_le 1⟩

/-- A queue that goes on, or has stalled for good because nothing takes its front message out. -/
def Line.Settled (pushed : List α) (l : Line α) : Prop := l.Writing pushed ∨ l.Stalled pushed

theorem admits_settled : Admits fun pushed (l : Line α) => l.Settled pushed where
  push x h := h.imp (fun h => h.push x) fun h => h.push x
  ordered h := h.elim (fun h => h.ordered) fun h => h.ordered
  length_le h := h.elim admits_writing.length_le admits_stalled.length_le

/-- Only a write that is outstanding can end. -/
theorem Line.Settled.ended {pushed : List α} {l : Line α} (h : l.Settled pushed)
    (hbusy : l.outstanding ≠ []) : l.ended.Stalled pushed :=
  (h.resolve_right fun hstalled => hbusy hstalled.idle).ended hbusy

end Ylrtc.WriteQueue
