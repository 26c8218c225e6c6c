import Mathlib.Data.List.Perm.Basic
import Ylrtc.Lib.Run
import Ylrtc.Lib.SharedPtr

/-!
# The memory pool

`MemoryPool` of `base/memory_pool.cpp` among the callers that hold its buffers. Which
memory `new` takes is not decided here: each call comes with the address it gives.
-/
namespace Ylrtc.Pool
open Run SharedPtr

abbrev kSizeThresholdHalfMTU : ℕ := 750
abbrev kSizeThresholdMTU : ℕ := 1500

structure ServerConfig where
  memoryPoolEnabled : Bool
  memoryPoolMaxListLength : ℕ
  deriving DecidableEq, Repr

structure MemoryPool where
  lowSizeList : List Ref := []
  highSizeList : List Ref := []
  deriving DecidableEq, Repr

def MemoryPool.refs (pool : MemoryPool) : List Ref := pool.lowSizeList++pool.highSizeList

/-- The branch for a size that is pooled: the first buffer of the list that only the pool
holds, or a new one, which the list keeps while it is not too long. -/
def allocFromList (config : ServerConfig) (threshold : ℕ) (list : List Ref) (h : Heap)
    (address : ℕ) : Ref×List Ref×Heap :=
  match list.find? fun m => h.useCount m = 1 with
  | some m => ⟨m,list,h.copy m⟩
  | none =>
      let newBuffer := h.length
      let h := h.make address threshold
      if list.length ≤ config.memoryPoolMaxListLength then
        ⟨newBuffer,list++[newBuffer],h.copy newBuffer⟩
      else ⟨newBuffer,list,h⟩

def allocMemory (config : ServerConfig) (pool : MemoryPool) (h : Heap) (size address : ℕ) :
    Ref×MemoryPool×Heap :=
  if !config.memoryPoolEnabled then ⟨h.length,pool,h.make address size⟩
  else if size ≤ kSizeThresholdHalfMTU then
    let r := allocFromList config kSizeThresholdHalfMTU pool.lowSizeList h address
    ⟨r.1,{pool with lowSizeList := r.2.1},r.2.2⟩
  else if size ≤ kSizeThresholdMTU then
    let r := allocFromList config kSizeThresholdMTU pool.highSizeList h address
    ⟨r.1,{pool with highSizeList := r.2.1},r.2.2⟩
  else ⟨h.length,pool,h.make address size⟩

/-- The bytes that a call asks `new` for, if it makes a buffer. -/
def newSize (config : ServerConfig) (size : ℕ) : ℕ :=
  if !config.memoryPoolEnabled then size
  else if size ≤ kSizeThresholdHalfMTU then kSizeThresholdHalfMTU
  else if size ≤ kSizeThresholdMTU then kSizeThresholdMTU
  else size

/-- A `shared_ptr` that a caller holds, with the size the caller asked for. -/
structure Handle where
  caller : ℕ
  size : ℕ
  buffer : Ref
  deriving DecidableEq, Repr

structure State where
  pool : MemoryPool := {}
  heap : Heap := []
  handles : List Handle := []
  calls : ℕ := 0
  deriving DecidableEq, Repr

/-- A call, with the address that `new` gives if the call comes to it, and what the callers
do with the handles they have. -/
inductive Event where
  | alloc (size address : ℕ)
  | copy (i : ℕ)
  | drop (i : ℕ)
  deriving DecidableEq, Repr

def step (config : ServerConfig) (s : State) : Event → State
  | .alloc size address =>
      let r := allocMemory config s.pool s.heap size address
      {pool := r.2.1, heap := r.2.2, handles := s.handles++[⟨s.calls,size,r.1⟩],
        calls := s.calls+1}
  | .copy i =>
      match s.handles[i]? with
      | some x => {s with heap := s.heap.copy x.buffer, handles := s.handles++[x]}
      | none => s
  | .drop i =>
      match s.handles[i]? with
      | some x => {s with heap := s.heap.reset x.buffer, handles := s.handles.eraseIdx i}
      | none => s

/-- What `new` promises: memory that nothing in use has a byte of. -/
def NewOk (config : ServerConfig) (s : State) : Event → Prop
  | .alloc size address => s.heap.Free address (newSize config size)
  | _ => True

instance (config : ServerConfig) (s : State) : (e : Event) → Decidable (NewOk config s e)
  | .alloc size address =>
      inferInstanceAs (Decidable (s.heap.Free address (newSize config size)))
  | .copy _ => .isTrue trivial
  | .drop _ => .isTrue trivial

/-- All references there are, the pool's and the callers'. -/
def State.refs (s : State) : List Ref := s.pool.refs++s.handles.map Handle.buffer

/-- What holds between calls. -/
structure Inv (s : State) : Prop where
  counted : s.heap.Counted s.refs
  low : ∀ m ∈ s.pool.lowSizeList, (s.heap.block m).capacity = kSizeThresholdHalfMTU
  high : ∀ m ∈ s.pool.highSizeList, (s.heap.block m).capacity = kSizeThresholdMTU
  separate : s.heap.Separate
  sole : ∀ x ∈ s.handles, ∀ y ∈ s.handles, x.buffer = y.buffer → x.caller = y.caller
  callers : ∀ x ∈ s.handles, x.caller < s.calls
  room : ∀ x ∈ s.handles, x.size ≤ (s.heap.block x.buffer).capacity

/-- What a call can do. -/
inductive Outcome (config : ServerConfig) (pool : MemoryPool) (h : Heap) (size address : ℕ) :
    Ref×MemoryPool×Heap → Prop
  | reusedLow {m : Ref} (hm : m ∈ pool.lowSizeList) (hone : h.useCount m = 1)
      (hsize : size ≤ kSizeThresholdHalfMTU) : Outcome config pool h size address ⟨m,pool,h.copy m⟩
  | reusedHigh {m : Ref} (hm : m ∈ pool.highSizeList) (hone : h.useCount m = 1)
      (hsize : size ≤ kSizeThresholdMTU) : Outcome config pool h size address ⟨m,pool,h.copy m⟩
  | keptLow (hnew : newSize config size = kSizeThresholdHalfMTU) :
      Outcome config pool h size address
        ⟨h.length,{pool with lowSizeList := pool.lowSizeList++[h.length]},
          (h.make address kSizeThresholdHalfMTU).copy h.length⟩
  | keptHigh (hnew : newSize config size = kSizeThresholdMTU) :
      Outcome config pool h size address
        ⟨h.length,{pool with highSizeList := pool.highSizeList++[h.length]},
          (h.make address kSizeThresholdMTU).copy h.length⟩
  | made {n : ℕ} (hnew : newSize config size = n) : Outcome config pool h size address
      ⟨h.length,pool,h.make address n⟩

theorem le_newSize (config : ServerConfig) (size : ℕ) : size ≤ newSize config size := by
  unfold newSize
  split_ifs with _ hlow hhigh
  · exact Nat.le_refl _
  · exact hlow
  · exact hhigh
  · exact Nat.le_refl _

/-- The two ends of the branch for a size that is pooled. -/
theorem allocFromList_cases (config : ServerConfig) (threshold : ℕ) (list : List Ref) (h : Heap)
    (address : ℕ) :
    (∃ m ∈ list, h.useCount m = 1 ∧
      allocFromList config threshold list h address = ⟨m,list,h.copy m⟩) ∨
    allocFromList config threshold list h address =
      ⟨h.length,list++[h.length],(h.make address threshold).copy h.length⟩ ∨
    allocFromList config threshold list h address = ⟨h.length,list,h.make address threshold⟩ := by
  unfold allocFromList
  cases hfind : list.find? fun m => h.useCount m = 1 with
  | some m =>
      have hone := List.find?_some hfind
      exact .inl ⟨m,List.mem_of_find?_eq_some hfind,of_decide_eq_true hone,rfl⟩
  | none =>
      right
      by_cases hshort : list.length ≤ config.memoryPoolMaxListLength
      · left
        simp only [hshort,if_true]
      · right
        simp only [hshort,if_false]

theorem allocMemory_outcome (config : ServerConfig) (pool : MemoryPool) (h : Heap)
    (size address : ℕ) :
    Outcome config pool h size address (allocMemory config pool h size address) := by
  have hnew : newSize config size = newSize config size := rfl
  unfold allocMemory
  conv at hnew => rhs; rw [newSize]
  split_ifs at hnew ⊢ with hoff hlow hhigh
  · exact .made hnew
  · rcases allocFromList_cases config kSizeThresholdHalfMTU pool.lowSizeList h address with
      ⟨m,hm,hone,hr⟩ | hr | hr
    · rw [hr]
      exact .reusedLow hm hone hlow
    · rw [hr]
      exact .keptLow hnew
    · rw [hr]
      exact .made hnew
  · rcases allocFromList_cases config kSizeThresholdMTU pool.highSizeList h address with
      ⟨m,hm,hone,hr⟩ | hr | hr
    · rw [hr]
      exact .reusedHigh hm hone hhigh
    · rw [hr]
      exact .keptHigh hnew
    · rw [hr]
      exact .made hnew
  · exact .made hnew

/-- What the caller gets, and what the call leaves as it was. -/
structure Granted (s : State) (size : ℕ) (r : Ref×MemoryPool×Heap) : Prop where
  counted : r.2.2.Counted (r.2.1.refs++(s.handles.map Handle.buffer++[r.1]))
  low : ∀ m ∈ r.2.1.lowSizeList, (r.2.2.block m).capacity = kSizeThresholdHalfMTU
  high : ∀ m ∈ r.2.1.highSizeList, (r.2.2.block m).capacity = kSizeThresholdMTU
  separate : r.2.2.Separate
  unheld : ∀ x ∈ s.handles, x.buffer ≠ r.1
  room : size ≤ (r.2.2.block r.1).capacity
  same : ∀ p ∈ s.refs, (r.2.2.block p).capacity = (s.heap.block p).capacity
  keptLow : s.pool.lowSizeList <+: r.2.1.lowSizeList
  keptHigh : s.pool.highSizeList <+: r.2.1.highSizeList

section Calls
variable {config : ServerConfig} {s : State} {size address : ℕ}

theorem mem_refs_of_low {m : Ref} (hm : m ∈ s.pool.lowSizeList) : m ∈ s.refs :=
  List.mem_append_left _ (List.mem_append_left _ hm)

theorem mem_refs_of_high {m : Ref} (hm : m ∈ s.pool.highSizeList) : m ∈ s.refs :=
  List.mem_append_left _ (List.mem_append_right _ hm)

theorem mem_refs_of_handle {x : Handle} (hx : x ∈ s.handles) : x.buffer ∈ s.refs :=
  List.mem_append_right _ (List.mem_map_of_mem hx)

/-- A buffer of the pool with one reference is held by no caller. -/
theorem Inv.unheld (hI : Inv s) {m : Ref} (hm : m ∈ s.pool.refs) (hone : s.heap.useCount m = 1) :
    ∀ x ∈ s.handles, x.buffer ≠ m := by
  intro x hx hxm
  have hpool := List.count_pos_iff.mpr hm
  have hheld : 0 < (s.handles.map Handle.buffer).count m :=
    List.count_pos_iff.mpr (hxm ▸ List.mem_map_of_mem hx)
  rw [hI.counted,State.refs,List.count_append] at hone
  omega

/-- References are to blocks that were made before. -/
theorem Inv.ne_fresh (hI : Inv s) {p : Ref} (hp : p ∈ s.refs) : p ≠ s.heap.length :=
  Nat.ne_of_lt (lt_length_of_useCount (hI.counted.live hp))

theorem granted_reused (hI : Inv s) {m : Ref} (hm : m ∈ s.pool.refs)
    (hone : s.heap.useCount m = 1) (hroom : size ≤ (s.heap.block m).capacity) :
    Granted s size ⟨m,s.pool,s.heap.copy m⟩ := by
  have hmem : m ∈ s.refs := List.mem_append_left _ hm
  constructor
  case counted =>
    apply (counted_copy hI.counted hmem).perm
    rw [← List.append_assoc]
    exact (List.perm_append_singleton m s.refs).symm
  case low =>
    intro p hp
    rw [Heap.copy,memory_setCount.2]
    exact hI.low p hp
  case high =>
    intro p hp
    rw [Heap.copy,memory_setCount.2]
    exact hI.high p hp
  case separate => exact separate_setCount hI.separate (hI.counted.live hmem)
  case unheld => exact hI.unheld hm hone
  case room =>
    rw [Heap.copy,memory_setCount.2]
    exact hroom
  case same => exact fun p _ => memory_setCount.2
  case keptLow => exact List.prefix_rfl
  case keptHigh => exact List.prefix_rfl

theorem granted_made (hI : Inv s) {n : ℕ} (hfree : s.heap.Free address n) (hn : size ≤ n) :
    Granted s size ⟨s.heap.length,s.pool,s.heap.make address n⟩ := by
  have hsame : ∀ p ∈ s.refs, ((s.heap.make address n).block p).capacity =
      (s.heap.block p).capacity := fun p hp => by rw [block_make (hI.ne_fresh hp)]
  constructor
  case counted =>
    apply (counted_make hI.counted).perm
    rw [← List.append_assoc]
    exact (List.perm_append_singleton _ s.refs).symm
  case low => exact fun m hm => (hsame m (mem_refs_of_low hm)).trans (hI.low m hm)
  case high => exact fun m hm => (hsame m (mem_refs_of_high hm)).trans (hI.high m hm)
  case separate => exact separate_make hI.separate hfree
  case unheld => exact fun x hx => hI.ne_fresh (mem_refs_of_handle hx)
  case room =>
    rw [block_make_self]
    exact hn
  case same => exact hsame
  case keptLow => exact List.prefix_rfl
  case keptHigh => exact List.prefix_rfl

/-- A new buffer that the pool keeps as well has one reference more. -/
theorem granted_kept {pool : MemoryPool} {n : ℕ}
    (hg : Granted s size ⟨s.heap.length,s.pool,s.heap.make address n⟩)
    (hpool : pool.refs.Perm (s.heap.length::s.pool.refs))
    (hlow : ∀ m ∈ pool.lowSizeList, m ∈ s.pool.lowSizeList ∨
      m = s.heap.length ∧ n = kSizeThresholdHalfMTU)
    (hhigh : ∀ m ∈ pool.highSizeList, m ∈ s.pool.highSizeList ∨
      m = s.heap.length ∧ n = kSizeThresholdMTU)
    (hkl : s.pool.lowSizeList <+: pool.lowSizeList)
    (hkh : s.pool.highSizeList <+: pool.highSizeList) :
    Granted s size ⟨s.heap.length,pool,(s.heap.make address n).copy s.heap.length⟩ := by
  have hmem : s.heap.length ∈
      s.pool.refs++(s.handles.map Handle.buffer++[s.heap.length]) := by
    simp only [List.mem_append,List.mem_singleton,or_true]
  have hnew : ((s.heap.make address n).block s.heap.length).capacity = n := by
    rw [block_make_self]
  constructor
  case counted =>
    apply (counted_copy hg.counted hmem).perm
    exact (hpool.append_right _).symm
  case low =>
    intro m hm
    rw [Heap.copy,memory_setCount.2]
    cases hlow m hm with
    | inl hold => exact hg.low m hold
    | inr hself => rw [hself.1,hnew,hself.2]
  case high =>
    intro m hm
    rw [Heap.copy,memory_setCount.2]
    cases hhigh m hm with
    | inl hold => exact hg.high m hold
    | inr hself => rw [hself.1,hnew,hself.2]
  case separate => exact separate_setCount hg.separate (hg.counted.live hmem)
  case unheld => exact hg.unheld
  case room =>
    rw [Heap.copy,memory_setCount.2]
    exact hg.room
  case same =>
    intro p hp
    rw [Heap.copy,memory_setCount.2]
    exact hg.same p hp
  case keptLow => exact hkl
  case keptHigh => exact hkh

theorem mem_snoc_cases {list : List Ref} {m p : Ref} {P : Prop} (hP : P) (hm : m ∈ list++[p]) :
    m ∈ list ∨ m = p ∧ P := by
  rw [List.mem_append,List.mem_singleton] at hm
  exact hm.imp_right fun h => ⟨h,hP⟩

theorem granted_of_outcome (hI : Inv s) (hfree : s.heap.Free address (newSize config size))
    {r : Ref×MemoryPool×Heap} (hr : Outcome config s.pool s.heap size address r) :
    Granted s size r := by
  have hroom := le_newSize config size
  cases hr with
  | reusedLow hm hone hsize =>
      apply granted_reused hI (List.mem_append_left _ hm) hone
      rw [hI.low _ hm]
      exact hsize
  | reusedHigh hm hone hsize =>
      apply granted_reused hI (List.mem_append_right _ hm) hone
      rw [hI.high _ hm]
      exact hsize
  | keptLow hnew =>
      rw [hnew] at hfree hroom
      apply granted_kept (granted_made hI hfree hroom)
      · simp only [MemoryPool.refs,List.append_assoc,List.singleton_append]
        exact List.perm_middle
      · exact fun m hm => mem_snoc_cases rfl hm
      · exact fun m hm => .inl hm
      · exact List.prefix_append _ _
      · exact List.prefix_rfl
  | keptHigh hnew =>
      rw [hnew] at hfree hroom
      apply granted_kept (granted_made hI hfree hroom)
      · simp only [MemoryPool.refs,← List.append_assoc]
        exact List.perm_append_singleton _ _
      · exact fun m hm => .inl hm
      · exact fun m hm => mem_snoc_cases rfl hm
      · exact List.prefix_rfl
      · exact List.prefix_append _ _
  | made hnew =>
      rw [hnew] at hfree hroom
      exact granted_made hI hfree hroom

theorem inv_alloc (hI : Inv s) (hfree : s.heap.Free address (newSize config size)) :
    Inv (step config s (.alloc size address)) := by
  have hg := granted_of_outcome hI hfree (allocMemory_outcome config s.pool s.heap size address)
  have hcases : ∀ {x}, x ∈ (step config s (.alloc size address)).handles → x ∈ s.handles ∨
      x = ⟨s.calls,size,(allocMemory config s.pool s.heap size address).1⟩ := fun hx => by
    simpa only [step,List.mem_append,List.mem_singleton] using hx
  constructor
  case counted =>
    simp only [step,State.refs,List.map_append,List.map_cons,List.map_nil]
    exact hg.counted
  case low => exact hg.low
  case high => exact hg.high
  case separate => exact hg.separate
  case sole =>
    intro x hx y hy hxy
    rcases hcases hx with hx | rfl <;> rcases hcases hy with hy | rfl
    · exact hI.sole x hx y hy hxy
    · exact absurd hxy (hg.unheld x hx)
    · exact absurd hxy.symm (hg.unheld y hy)
    · rfl
  case callers =>
    intro x hx
    rcases hcases hx with hx | rfl
    · exact Nat.lt_succ_of_lt (hI.callers x hx)
    · exact Nat.lt_succ_self s.calls
  case room =>
    intro x hx
    rcases hcases hx with hx | rfl
    · exact le_of_le_of_eq (hI.room x hx) (hg.same _ (mem_refs_of_handle hx)).symm
    · exact hg.room

end Calls

theorem inv_copy {config : ServerConfig} {s : State} (hI : Inv s) (i : ℕ) :
    Inv (step config s (.copy i)) := by
  rw [step]
  cases hi : s.handles[i]? with
  | none => exact hI
  | some x =>
      have hx : x ∈ s.handles := List.mem_of_getElem? hi
      have hold : ∀ {y}, y ∈ s.handles++[x] → y ∈ s.handles := fun hy =>
        (List.mem_append.mp hy).elim id fun hy => List.mem_singleton.mp hy ▸ hx
      constructor
      case counted =>
        apply (counted_copy hI.counted (mem_refs_of_handle hx)).perm
        simp only [State.refs,List.map_append,List.map_cons,List.map_nil]
        rw [← List.append_assoc]
        exact (List.perm_append_singleton _ _).symm
      case low => exact fun m hm => memory_setCount.2.trans (hI.low m hm)
      case high => exact fun m hm => memory_setCount.2.trans (hI.high m hm)
      case separate =>
        exact separate_setCount hI.separate (hI.counted.live (mem_refs_of_handle hx))
      case sole => exact fun y hy z hz => hI.sole y (hold hy) z (hold hz)
      case callers => exact fun y hy => hI.callers y (hold hy)
      case room =>
        exact fun y hy => le_of_le_of_eq (hI.room y (hold hy)) memory_setCount.2.symm

theorem inv_drop {config : ServerConfig} {s : State} (hI : Inv s) (i : ℕ) :
    Inv (step config s (.drop i)) := by
  rw [step]
  cases hi : s.handles[i]? with
  | none => exact hI
  | some x =>
      have hlt := (List.getElem?_eq_some_iff.mp hi).choose
      have hx : x ∈ s.handles := List.mem_of_getElem? hi
      have hold : ∀ {y}, y ∈ s.handles.eraseIdx i → y ∈ s.handles := List.mem_of_mem_eraseIdx
      have hperm : s.handles.Perm (x::s.handles.eraseIdx i) := by
        rw [← (List.getElem?_eq_some_iff.mp hi).choose_spec]
        exact (List.getElem_cons_eraseIdx_perm hlt).symm
      constructor
      case counted =>
        apply counted_reset (p := x.buffer)
        apply hI.counted.perm
        exact ((hperm.map Handle.buffer).append_left _).trans List.perm_middle
      case low => exact fun m hm => memory_setCount.2.trans (hI.low m hm)
      case high => exact fun m hm => memory_setCount.2.trans (hI.high m hm)
      case separate =>
        exact separate_setCount hI.separate (hI.counted.live (mem_refs_of_handle hx))
      case sole => exact fun y hy z hz => hI.sole y (hold hy) z (hold hz)
      case callers => exact fun y hy => hI.callers y (hold hy)
      case room =>
        exact fun y hy => le_of_le_of_eq (hI.room y (hold hy)) memory_setCount.2.symm

theorem inv_step (config : ServerConfig) (s : State) (e : Event) (hI : Inv s)
    (hnew : NewOk config s e) : Inv (step config s e) := by
  cases e with
  | alloc size address => exact inv_alloc hI hnew
  | copy i => exact inv_copy hI i
  | drop i => exact inv_drop hI i

theorem inv_start : Inv {} := by
  constructor
  case counted => exact fun p => rfl
  case separate => exact fun p q _ hp => absurd hp (Nat.lt_irrefl 0)
  all_goals simp only [List.not_mem_nil,false_implies,implies_true]

/-- A call returns a buffer with enough room that shares no memory with a buffer that some
caller still holds. -/
def CallOk (config : ServerConfig) (s : State) : Event → Prop
  | .alloc size address =>
      let r := allocMemory config s.pool s.heap size address
      size ≤ (r.2.2.block r.1).capacity ∧ ∀ x ∈ s.handles, x.buffer ≠ r.1 ∧
        (r.2.2.block x.buffer).Apart (r.2.2.block r.1)
  | _ => True

/-- The lists hold live buffers of their own class, and the buffers of different callers
are apart. -/
structure Isolated (s : State) : Prop where
  low : ∀ m ∈ s.pool.lowSizeList,
    0 < s.heap.useCount m ∧ (s.heap.block m).capacity = kSizeThresholdHalfMTU
  high : ∀ m ∈ s.pool.highSizeList,
    0 < s.heap.useCount m ∧ (s.heap.block m).capacity = kSizeThresholdMTU
  room : ∀ x ∈ s.handles,
    0 < s.heap.useCount x.buffer ∧ x.size ≤ (s.heap.block x.buffer).capacity
  apart : ∀ x ∈ s.handles, ∀ y ∈ s.handles, x.caller ≠ y.caller →
    (s.heap.block x.buffer).Apart (s.heap.block y.buffer)

/-- What a list holds it goes on to hold. -/
def Stays (s t : State) : Prop :=
  s.pool.lowSizeList <+: t.pool.lowSizeList ∧ s.pool.highSizeList <+: t.pool.highSizeList

theorem callOk_of_inv (config : ServerConfig) (s : State) (e : Event) (hI : Inv s)
    (hnew : NewOk config s e) : CallOk config s e := by
  cases e with
  | alloc size address =>
      have hg := granted_of_outcome hI hnew
        (allocMemory_outcome config s.pool s.heap size address)
      refine ⟨hg.room,fun x hx => ⟨hg.unheld x hx,?_⟩⟩
      apply hg.separate _ _ (hg.unheld x hx)
      · apply hg.counted.live
        exact List.mem_append_right _ (List.mem_append_left _ (List.mem_map_of_mem hx))
      · apply hg.counted.live
        exact List.mem_append_right _ (List.mem_append_right _ (List.mem_singleton_self _))
  | copy i => trivial
  | drop i => trivial

theorem Inv.isolated {s : State} (hI : Inv s) : Isolated s where
  low m hm := ⟨hI.counted.live (mem_refs_of_low hm),hI.low m hm⟩
  high m hm := ⟨hI.counted.live (mem_refs_of_high hm),hI.high m hm⟩
  room x hx := ⟨hI.counted.live (mem_refs_of_handle hx),hI.room x hx⟩
  apart x hx y hy hxy := hI.separate _ _ (fun h => hxy (hI.sole x hx y hy h))
    (hI.counted.live (mem_refs_of_handle hx)) (hI.counted.live (mem_refs_of_handle hy))

theorem stays_step (config : ServerConfig) (s : State) (e : Event) (hI : Inv s)
    (hnew : NewOk config s e) : Stays s (step config s e) := by
  cases e with
  | alloc size address =>
      have hg := granted_of_outcome hI hnew
        (allocMemory_outcome config s.pool s.heap size address)
      exact ⟨hg.keptLow,hg.keptHigh⟩
  | copy i =>
      rw [step]
      split <;> exact ⟨List.prefix_rfl,List.prefix_rfl⟩
  | drop i =>
      rw [step]
      split <;> exact ⟨List.prefix_rfl,List.prefix_rfl⟩

theorem stays_run (config : ServerConfig) {s : State} (hI : Inv s) {es : List Event}
    (hnew : Along (fun before e => NewOk config (run (step config) s before) e) es) :
    Stays s (run (step config) s es) := by
  induction es using List.reverseRecOn with
  | nil => exact ⟨List.prefix_rfl,List.prefix_rfl⟩
  | append_singleton es e ih =>
      rw [along_snoc] at hnew
      have hes := ih hnew.1
      have he := stays_step config _ e
        (run_invariant_along hI (inv_step config) hnew.1) hnew.2
      rw [run_snoc]
      exact ⟨hes.1.trans he.1,hes.2.trans he.2⟩

/-- Calls of any sizes and holders that copy and drop what they hold in any order. -/
theorem run_isolated (config : ServerConfig) {es : List Event}
    (hnew : Along (fun before e => NewOk config (run (step config) {} before) e) es) :
    Along (fun before e => CallOk config (run (step config) {} before) e) es ∧
      ∀ before after, es = before++after → Isolated (run (step config) {} before) ∧
        Stays (run (step config) {} before) (run (step config) {} es) := by
  constructor
  · exact along_of_invariant inv_start (inv_step config) (callOk_of_inv config) hnew
  · intro before after hes
    subst hes
    have hI := run_invariant_along inv_start (inv_step config) hnew.prefix
    refine ⟨hI.isolated,?_⟩
    have hrun : run (step config) {} (before++after) =
        run (step config) (run (step config) {} before) after := List.foldl_append
    rw [hrun]
    apply stays_run config hI
    intro mid e rest hmid
    have hnext := hnew (before++mid) e rest (by rw [hmid,List.append_assoc])
    simpa only [run,List.foldl_append] using hnext

/-- The memory of a dropped buffer is handed out again while another one is held. -/
theorem run_isolated_reuse :
    let config : ServerConfig := ⟨true,10⟩
    let es : List Event := [.alloc 100 0,.alloc 1400 750,.drop 0,.alloc 60 9000,.alloc 700 2250]
    (Along (fun before e => CallOk config (run (step config) {} before) e) es ∧
      ∀ before after, es = before++after → Isolated (run (step config) {} before) ∧
        Stays (run (step config) {} before) (run (step config) {} es)) ∧
      (run (step config) {} es).handles.map Handle.buffer = [1,0,2] := by
  refine ⟨run_isolated ⟨true,10⟩ ?_,by decide⟩
  exact along_cons.mpr ⟨by decide,along_cons.mpr ⟨by decide,along_cons.mpr ⟨by decide,
    along_cons.mpr ⟨by decide,along_cons.mpr ⟨by decide,along_nil _⟩⟩⟩⟩⟩

end Ylrtc.Pool
