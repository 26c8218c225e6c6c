import Ylrtc.Lib.Run
import Mathlib.Data.Fintype.Card
import Mathlib.Logic.Relation
import Mathlib.Order.WellFounded

/-!
# Threads that call each other and wait

A thread with a queue takes one item at a time. A job may leave jobs for other
threads and go on, or call a handler on another thread and wait until that
thread has run it. A thread that calls itself runs the handler in place, and
one that waits does not look at its queue.
-/
namespace Ylrtc.SyncCalls
open Run

/-- How a job goes on: it ends and leaves jobs behind, or it wants an answer. -/
inductive Action (T Q A J : Type) where
  | done (posts : List J)
  | sync (target : T) (query : Q) (resume : A → J)

/-- What the threads run: the thread of each job, the jobs that come from
outside, and the meaning of jobs and queries over shared data. -/
structure Program (T D Q A J E : Type) where
  home : J → T
  arrive : E → J
  exec : J → D → D × Action T Q A J
  answer : Q → D → D × A

inductive Item (T Q J : Type) where
  | job (j : J)
  | query (caller : T) (q : Q)

inductive Status (T A J : Type) where
  | idle
  | ready (j : J)
  | waiting (target : T) (resume : A → J)

structure State (T D Q A J : Type) where
  data : D
  queue : T → List (Item T Q J)
  status : T → Status T A J

inductive Move (T E : Type) where
  | post (e : E)
  | run (t : T)

variable {T D Q A J E : Type} [DecidableEq T]

namespace State

def start (d : D) : State T D Q A J := ⟨d,fun _ => [],fun _ => .idle⟩

def push (s : State T D Q A J) (t : T) (i : Item T Q J) : State T D Q A J :=
  { s with queue := Function.update s.queue t (s.queue t++[i]) }

def setStatus (s : State T D Q A J) (t : T) (st : Status T A J) : State T D Q A J :=
  { s with status := Function.update s.status t st }

/-- The promise of a caller is fulfilled. -/
def resume (s : State T D Q A J) (caller : T) (a : A) : State T D Q A J :=
  match s.status caller with
  | .waiting _ k => s.setStatus caller (.ready (k a))
  | _ => s

end State

variable (p : Program T D Q A J E)

def runJob (s : State T D Q A J) (t : T) (j : J) : State T D Q A J :=
  match p.exec j s.data with
  | (d,.done posts) =>
      posts.foldl (fun s j => s.push (p.home j) (.job j)) ({ s with data := d }.setStatus t .idle)
  | (d,.sync target q k) =>
      if target = t then
        let (d,a) := p.answer q d
        { s with data := d }.setStatus t (.ready (k a))
      else ({ s with data := d }.push target (.query t q)).setStatus t (.waiting target k)

def runThread (s : State T D Q A J) (t : T) : State T D Q A J :=
  match s.status t with
  | .waiting _ _ => s
  | .ready j => runJob p s t j
  | .idle =>
      match s.queue t with
      | [] => s
      | .job j::rest => runJob p { s with queue := Function.update s.queue t rest } t j
      | .query caller q::rest =>
          let (d,a) := p.answer q s.data
          { s with data := d, queue := Function.update s.queue t rest }.resume caller a

def step (s : State T D Q A J) : Move T E → State T D Q A J
  | .post e => s.push (p.home (p.arrive e)) (.job (p.arrive e))
  | .run t => runThread p s t

/-- A thread is blocked until another has run a handler that is still queued there. -/
def Waits (s : State T D Q A J) (t u : T) : Prop :=
  ∃ k q, s.status t = .waiting u k ∧ .query t q ∈ s.queue u

/-- Some job of a thread calls another thread. -/
def Calls (t u : T) : Prop :=
  t ≠ u ∧ ∃ j d q k, p.home j = t ∧ (p.exec j d).2 = .sync u q k

/-- A job stays on its thread when it goes on with an answer. -/
def Resumes : Prop :=
  ∀ j d u q k a, (p.exec j d).2 = .sync u q k → p.home (k a) = p.home j

/-- Jobs are on their own threads, and who waits has called. -/
structure Placed (s : State T D Q A J) : Prop where
  queue : ∀ t j, .job j ∈ s.queue t → p.home j = t
  ready : ∀ t j, s.status t = .ready j → p.home j = t
  waiting : ∀ t u k, s.status t = .waiting u k → Calls p t u ∧ ∀ a, p.home (k a) = t

omit [DecidableEq T] in
theorem placed_start (d : D) : Placed p (State.start d : State T D Q A J) := by
  constructor
  · intro t j h
    simp [State.start] at h
  · intro t j h
    simp [State.start] at h
  · intro t u k h
    simp [State.start] at h

variable {p}

theorem Placed.push_job {s : State T D Q A J} (h : Placed p s) (j : J) :
    Placed p (s.push (p.home j) (.job j)) := by
  constructor
  · intro t j' hj
    simp only [State.push,Function.update_apply] at hj
    split at hj
    · rename_i ht
      rcases List.mem_append.mp hj with hj | hj
      · rw [ht]
        exact h.queue _ j' hj
      · simp only [List.mem_singleton,Item.job.injEq] at hj
        rw [hj,ht]
    · exact h.queue t j' hj
  · exact h.ready
  · exact h.waiting

theorem Placed.push_query {s : State T D Q A J} (h : Placed p s) (t u : T) (q : Q) :
    Placed p (s.push u (.query t q)) := by
  constructor
  · intro v j hj
    simp only [State.push,Function.update_apply] at hj
    split at hj
    · rename_i hv
      rcases List.mem_append.mp hj with hj | hj
      · rw [hv]
        exact h.queue _ j hj
      · simp at hj
    · exact h.queue v j hj
  · exact h.ready
  · exact h.waiting

omit [DecidableEq T] in
theorem Placed.data {s : State T D Q A J} (h : Placed p s) (d : D) :
    Placed p { s with data := d } := ⟨h.queue,h.ready,h.waiting⟩

theorem Placed.setStatus {s : State T D Q A J} (h : Placed p s) {t : T} {st : Status T A J}
    (hready : ∀ j, st = .ready j → p.home j = t)
    (hwaiting : ∀ u k, st = .waiting u k → Calls p t u ∧ ∀ a, p.home (k a) = t) :
    Placed p (s.setStatus t st) := by
  constructor
  · exact h.queue
  · intro v j hj
    simp only [State.setStatus,Function.update_apply] at hj
    split at hj
    · rename_i hv
      rw [hv]
      exact hready j hj
    · exact h.ready v j hj
  · intro v u k hk
    simp only [State.setStatus,Function.update_apply] at hk
    split at hk
    · rename_i hv
      rw [hv]
      exact hwaiting u k hk
    · exact h.waiting v u k hk

theorem Placed.posts {posts : List J} {s : State T D Q A J} (h : Placed p s) :
    Placed p (posts.foldl (fun s j => s.push (p.home j) (.job j)) s) := by
  induction posts generalizing s with
  | nil => exact h
  | cons j posts ih => exact ih (h.push_job j)

theorem Placed.pop {s : State T D Q A J} (h : Placed p s) {t : T} {i : Item T Q J}
    {rest : List (Item T Q J)} (hq : s.queue t = i::rest) :
    Placed p { s with queue := Function.update s.queue t rest } := by
  constructor
  · intro u j hj
    simp only [Function.update_apply] at hj
    split at hj
    · rename_i hu
      apply h.queue u j
      rw [hu,hq]
      exact List.mem_cons_of_mem i hj
    · exact h.queue u j hj
  · exact h.ready
  · exact h.waiting

theorem Placed.runJob (hr : Resumes p) {s : State T D Q A J} (h : Placed p s) {t : T} {j : J}
    (hj : p.home j = t) : Placed p (runJob p s t j) := by
  unfold SyncCalls.runJob
  cases he : p.exec j s.data with
  | mk d action =>
      cases action with
      | done posts =>
          apply Placed.posts
          apply (h.data d).setStatus
          · intro j' hj'
            cases hj'
          · intro u k hk
            cases hk
      | sync target q k =>
          have hcall : (p.exec j s.data).2 = .sync target q k := by rw [he]
          have hhome : ∀ a, p.home (k a) = t := fun a => (hr _ _ _ _ _ a hcall).trans hj
          by_cases ht : target = t
          · simp only [if_pos ht]
            apply (h.data _).setStatus
            · intro j' hj'
              cases hj'
              exact hhome _
            · intro u k' hk'
              cases hk'
          · simp only [if_neg ht]
            apply ((h.data d).push_query t target q).setStatus
            · intro j' hj'
              cases hj'
            · intro u k' hk'
              cases hk'
              exact ⟨⟨fun he => ht he.symm,j,s.data,q,k,hj,hcall⟩,hhome⟩

theorem Placed.resume {s : State T D Q A J} (h : Placed p s) (caller : T) (a : A) :
    Placed p (s.resume caller a) := by
  unfold State.resume
  cases hst : s.status caller with
  | idle => exact h
  | ready j => exact h
  | waiting u k =>
      apply h.setStatus
      · intro j hj
        cases hj
        exact (h.waiting caller u k hst).2 a
      · intro u' k' hk'
        cases hk'

theorem Placed.step (hr : Resumes p) (s : State T D Q A J) (m : Move T E) (h : Placed p s) :
    Placed p (step p s m) := by
  cases m with
  | post e => exact h.push_job (p.arrive e)
  | run t =>
      simp only [SyncCalls.step,runThread]
      cases hst : s.status t with
      | waiting u k => exact h
      | ready j => exact h.runJob hr (h.ready t j hst)
      | idle =>
          cases hq : s.queue t with
          | nil => exact h
          | cons i rest =>
              cases i with
              | job j =>
                  apply (h.pop hq).runJob hr
                  apply h.queue t j
                  rw [hq]
                  exact List.mem_cons_self
              | query caller q => exact ((h.pop hq).data _).resume caller _

/-- In every reachable state a thread waits only for a thread that it calls. -/
theorem waits_calls (hr : Resumes p) (d : D) (ms : List (Move T E)) {t u : T}
    (h : Waits (run (step p) (State.start d) ms) t u) : Calls p t u := by
  obtain ⟨k,_,hk,_⟩ := h
  have hp := run_invariant (placed_start p d) (fun s m hs => Placed.step hr s m hs) ms
  exact (hp.waiting t u k hk).1

/-! ### Reaching a cycle -/

/-- Some threads have made their calls and wait, others still have their job at
the head of their queues. -/
structure Stuck (p : Program T D Q A J E) (e : T → E) (f : T → T) (d : D) (waiting todo : List T)
    (s : State T D Q A J) : Prop where
  data : s.data = d
  todo : ∀ t ∈ todo, s.status t = .idle ∧ ∃ rest, s.queue t = .job (p.arrive (e t))::rest
  waits : ∀ t ∈ waiting, Waits s t (f t)

theorem stuck_post {e : T → E} {f : T → T} {d : D} {todo : List T} {t : T}
    {s : State T D Q A J} (h : Stuck p e f d [] todo s) (ht : p.home (p.arrive (e t)) = t)
    (hidle : s.status t = .idle) (hempty : s.queue t = []) :
    Stuck p e f d [] (t::todo) (step p s (.post (e t))) := by
  constructor
  · exact h.data
  · intro u hu
    simp only [step,ht,State.push,Function.update_apply]
    by_cases hut : u = t
    · rw [if_pos hut,hut,hempty]
      exact ⟨hidle,[],rfl⟩
    · rw [if_neg hut]
      exact h.todo u ((List.mem_cons.mp hu).resolve_left hut)
  · intro u hu
    simp at hu

/-- All jobs are posted. -/
theorem exists_posted {e : T → E} {f : T → T} {L : List T} (hnodup : L.Nodup)
    (hhome : ∀ t ∈ L, p.home (p.arrive (e t)) = t) (d : D) :
    ∃ ms : List (Move T E), Stuck p e f d [] L (run (step p) (State.start d) ms) ∧
      ∀ t ∉ L, (run (step p) (State.start d) ms).status t = .idle ∧
        (run (step p) (State.start d) ms).queue t = [] := by
  induction L with
  | nil => exact ⟨[],⟨rfl,by simp,by simp⟩,fun t _ => ⟨rfl,rfl⟩⟩
  | cons t L ih =>
      rw [List.nodup_cons] at hnodup
      obtain ⟨ms,hs,hrest⟩ := ih hnodup.2 fun u hu => hhome u (List.mem_cons_of_mem t hu)
      obtain ⟨hidle,hempty⟩ := hrest t hnodup.1
      have ht := hhome t List.mem_cons_self
      refine ⟨ms++[.post (e t)],?_,?_⟩
      · rw [run_snoc]
        exact stuck_post hs ht hidle hempty
      · intro u hu
        rw [run_snoc]
        rw [List.mem_cons,not_or] at hu
        simp only [step,ht,State.push,Function.update_apply,if_neg hu.1]
        exact hrest u hu.2

/-- The next thread makes its call. Queries that are queued behind its job stay. -/
theorem stuck_run {e : T → E} {f : T → T} {d : D} {waiting todo : List T} {t : T}
    {s : State T D Q A J} (h : Stuck p e f d waiting (t::todo) s) (htodo : t ∉ todo)
    (hf : f t ≠ t) {q : Q} {k : A → J}
    (hcall : p.exec (p.arrive (e t)) d = (d,.sync (f t) q k)) :
    Stuck p e f d (t::waiting) todo (step p s (.run t)) := by
  obtain ⟨hidle,rest,hqueue⟩ := h.todo t List.mem_cons_self
  have hstep : step p s (.run t) =
      (({ s with queue := Function.update s.queue t rest }.push (f t) (.query t q)).setStatus t
        (.waiting (f t) k)) := by
    simp only [step,runThread,hidle,hqueue,runJob,h.data,hcall,if_neg hf]
  rw [hstep]
  constructor
  · exact h.data
  · intro u hu
    have hut : u ≠ t := fun he => htodo (he ▸ hu)
    obtain ⟨hstatus,more,hmore⟩ := h.todo u (List.mem_cons_of_mem t hu)
    simp only [State.setStatus,State.push,Function.update_apply,if_neg hut]
    refine ⟨hstatus,?_⟩
    split
    · rename_i hfu
      rw [← hfu,hmore]
      exact ⟨more++[.query t q],rfl⟩
    · exact ⟨more,hmore⟩
  · intro u hu
    simp only [Waits,State.setStatus,State.push,Function.update_apply]
    by_cases hut : u = t
    · rw [hut]
      refine ⟨k,q,if_pos rfl,?_⟩
      rw [if_pos rfl]
      exact List.mem_append_right _ List.mem_cons_self
    · obtain ⟨k',q',hk',hq'⟩ := h.waits u ((List.mem_cons.mp hu).resolve_left hut)
      refine ⟨k',q',by rw [if_neg hut]; exact hk',?_⟩
      have hkept : Item.query u q' ∈ if f u = t then rest else s.queue (f u) := by
        split
        · rename_i hfu
          rw [hfu,hqueue] at hq'
          simpa using hq'
        · exact hq'
      split
      · rename_i hfu
        rw [← hfu]
        exact List.mem_append_left _ hq'
      · exact hkept

/-- Threads that can each call another one can all come to wait at once. -/
theorem exists_waits {e : T → E} {f : T → T} {L : List T} (hnodup : L.Nodup) (d : D)
    (hcalls : ∀ t ∈ L, p.home (p.arrive (e t)) = t ∧ f t ≠ t ∧
      ∃ q k, p.exec (p.arrive (e t)) d = (d,.sync (f t) q k)) :
    ∃ ms : List (Move T E), ∀ t ∈ L, Waits (run (step p) (State.start d) ms) t (f t) := by
  obtain ⟨posts,hposted,_⟩ := exists_posted (f := f) hnodup (fun t ht => (hcalls t ht).1) d
  have hrun : ∀ (todo waiting : List T) (ms : List (Move T E)), todo.Nodup →
      (∀ t ∈ todo, t ∈ L) → Stuck p e f d waiting todo (run (step p) (State.start d) ms) →
      ∃ ms' : List (Move T E), ∀ t ∈ todo++waiting,
        Waits (run (step p) (State.start d) ms') t (f t) := by
    intro todo
    induction todo with
    | nil =>
        intro waiting ms _ _ h
        exact ⟨ms,h.waits⟩
    | cons t todo ih =>
        intro waiting ms hnd hL h
        rw [List.nodup_cons] at hnd
        obtain ⟨_,hf,q,k,hcall⟩ := hcalls t (hL t List.mem_cons_self)
        have hs := stuck_run h hnd.1 hf hcall
        rw [← run_snoc (step p)] at hs
        obtain ⟨ms',hms'⟩ := ih (t::waiting) _ hnd.2
          (fun u hu => hL u (List.mem_cons_of_mem t hu)) hs
        exact ⟨ms',fun u hu => hms' u (List.perm_middle.symm.subset hu)⟩
  obtain ⟨ms',hms'⟩ := hrun L [] posts hnodup (fun t ht => ht) hposted
  exact ⟨ms',fun t ht => hms' t (by rwa [List.append_nil])⟩

omit [DecidableEq T] in
/-- In a finite set where everything has a successor there is a cycle. -/
theorem exists_cycle [Finite T] {r : T → T → Prop} {C : Set T} (hne : C.Nonempty)
    (hsucc : ∀ a ∈ C, ∃ b ∈ C, r a b) : ∃ a, Relation.TransGen r a a := by
  by_contra hacyclic
  rw [not_exists] at hacyclic
  have : Std.Irrefl (Relation.TransGen (Function.swap r)) :=
    ⟨fun a ha => hacyclic a (Relation.transGen_swap.mp ha)⟩
  have hwf : WellFounded (Relation.TransGen (Function.swap r)) :=
    Finite.wellFounded_of_trans_of_irrefl _
  obtain ⟨m,hm,hmin⟩ := hwf.has_min C hne
  obtain ⟨b,hb,hmb⟩ := hsucc m hm
  exact hmin b hb (.single hmb)

omit [DecidableEq T] in
/-- The points of a cycle have successors among themselves. -/
theorem cycle_successor {r : T → T → Prop} {a : T} (h : Relation.TransGen r a a) :
    ∀ x ∈ {x | Relation.ReflTransGen r a x ∧ Relation.TransGen r x a},
      ∃ y ∈ {x | Relation.ReflTransGen r a x ∧ Relation.TransGen r x a}, r x y := by
  rintro x ⟨hax,hxa⟩
  obtain ⟨y,hxy,hya⟩ := Relation.TransGen.head'_iff.mp hxa
  refine ⟨y,⟨hax.tail hxy,?_⟩,hxy⟩
  exact Relation.TransGen.trans_right hya h

end Ylrtc.SyncCalls
