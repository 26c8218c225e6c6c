import Mathlib.Algebra.Group.Nat.Defs
import Mathlib.Data.List.Basic

/-!
# Parsers over a byte region that log every byte they read

A parser moves a cursor over a region of memory. It may fail, and it may also
read bytes without a bounds check, so a region carries the bytes behind its
declared end as well: what lies there is arbitrary. The cursor records the
offset of every byte that was read, also on the way to a failure.
-/
namespace Ylrtc.CursorParser

abbrev Byte := BitVec 8

/-- Membership in a list of byte strings is decided with this one proof everywhere. -/
instance : LawfulBEq (List Byte) := inferInstance

/-- The bytes from a data pointer on. Only the first `size` of them belong to
the buffer. No object is larger than half the address space. -/
structure Region where
  bytes : ℕ → Byte
  size : ℕ
  size_lt : size < 2^63

structure Cursor where
  start : ℕ
  touched : List ℕ := []
  deriving DecidableEq, Repr

structure Parser (α : Type) where
  run : Region → Cursor → Option α × Cursor

namespace Parser
variable {α β : Type}

def fail : Parser α := ⟨fun _ c => (none,c)⟩

def seq (p : Parser α) (f : α → Parser β) : Parser β := ⟨fun b c =>
  match p.run b c with
  | (some a,c') => (f a).run b c'
  | (none,c') => (none,c')⟩

instance : Monad Parser where
  pure a := ⟨fun _ c => (some a,c)⟩
  bind := seq

/-- Continue only if the condition holds. -/
def guard (p : Prop) [Decidable p] : Parser Unit := if p then pure () else fail

/-- Number of unprocessed bytes. -/
def left : Parser ℕ := ⟨fun b c => (some (b.size - c.start),c)⟩

def position : Parser ℕ := ⟨fun _ c => (some c.start,c)⟩

/-- Read `n` bytes at an absolute offset, without any check. -/
def load (offset n : ℕ) : Parser (ℕ → Byte) := ⟨fun b c =>
  (some fun i => b.bytes (offset+i),{c with touched := List.range' offset n ++ c.touched})⟩

/-- Move past `n` bytes if so many are left. -/
def skip (n : ℕ) : Parser Unit := ⟨fun b c =>
  if b.size - c.start < n then (none,c) else (some (),{c with start := c.start+n})⟩

/-- The same when the caller ignores the answer. -/
def trySkip (n : ℕ) : Parser Unit := ⟨fun b c =>
  (some (),if b.size - c.start < n then c else {c with start := c.start+n})⟩

/-- The same when the caller looks at the answer. -/
def consume (n : ℕ) : Parser Bool := ⟨fun b c =>
  if b.size - c.start < n then (some false,c) else (some true,{c with start := c.start+n})⟩

/-- Read the next `n` bytes and move past them, if so many are left. -/
def take (n : ℕ) : Parser (ℕ → Byte) := ⟨fun b c =>
  if b.size - c.start < n then (none,c) else
    (some fun i => b.bytes (c.start+i),⟨c.start+n,List.range' c.start n ++ c.touched⟩)⟩

/-- The values of `n` runs of one parser, in order. -/
def repeated (p : Parser α) : ℕ → Parser (List α)
  | 0 => pure []
  | n+1 => do
      let a ← p
      let as ← repeated p n
      return a::as

@[simp] theorem run_pure (a : α) (b : Region) (c : Cursor) :
    (pure a : Parser α).run b c = (some a,c) := rfl

@[simp] theorem run_fail (b : Region) (c : Cursor) : (fail : Parser α).run b c = (none,c) := rfl

theorem run_bind (p : Parser α) (f : α → Parser β) (b : Region) (c : Cursor) :
    (p >>= f).run b c = match p.run b c with
      | (some a,c') => (f a).run b c'
      | (none,c') => (none,c') := rfl

/-- Execution rule: a step that succeeds hands its value and cursor on. -/
theorem bind_of_some {p : Parser α} {b : Region} {c c' : Cursor} {a : α}
    (h : p.run b c = (some a,c')) (f : α → Parser β) : (p >>= f).run b c = (f a).run b c' := by
  rw [run_bind,h]

/-- Inversion rule: a sequence succeeds only through both of its parts. -/
theorem bind_eq_some {p : Parser α} {f : α → Parser β} {b : Region} {c c' : Cursor} {y : β}
    (h : (p >>= f).run b c = (some y,c')) :
    ∃ a d, p.run b c = (some a,d) ∧ (f a).run b d = (some y,c') := by
  rw [run_bind] at h
  split at h
  · rename_i a d hp
    exact ⟨a,d,hp,h⟩
  · simp at h

/-- Two continuations that agree on what the first part can return. -/
theorem bind_congr {p : Parser α} {f g : α → Parser β} {b : Region} {c : Cursor}
    (h : ∀ a d, p.run b c = (some a,d) → (f a).run b d = (g a).run b d) :
    (p >>= f).run b c = (p >>= g).run b c := by
  rw [run_bind,run_bind]
  split
  · exact h _ _ ‹_›
  · rfl

theorem pure_eq_some {a y : α} {b : Region} {c c' : Cursor}
    (h : (pure a : Parser α).run b c = (some y,c')) : y = a ∧ c' = c := by
  simp only [run_pure,Prod.mk.injEq,Option.some.injEq] at h
  exact ⟨h.1.symm,h.2.symm⟩

theorem guard_of {p : Prop} [Decidable p] (h : p) (b : Region) (c : Cursor) :
    (guard p).run b c = (some (),c) := by
  unfold guard
  rw [if_pos h,run_pure]

theorem guard_eq_some {p : Prop} [Decidable p] {b : Region} {c c' : Cursor} {y : Unit}
    (h : (guard p).run b c = (some y,c')) : p ∧ c' = c := by
  unfold guard at h
  split at h
  · exact ⟨‹p›,(pure_eq_some h).2⟩
  · simp at h

@[simp] theorem run_left (b : Region) (c : Cursor) :
    left.run b c = (some (b.size - c.start),c) := rfl

@[simp] theorem run_position (b : Region) (c : Cursor) : position.run b c = (some c.start,c) := rfl

@[simp] theorem run_load (offset n : ℕ) (b : Region) (c : Cursor) :
    (load offset n).run b c = (some fun i => b.bytes (offset+i),
      {c with touched := List.range' offset n ++ c.touched}) := rfl

theorem take_of_le {n : ℕ} {b : Region} {c : Cursor} (h : c.start+n ≤ b.size) :
    (take n).run b c = (some fun i => b.bytes (c.start+i),
      ⟨c.start+n,List.range' c.start n ++ c.touched⟩) :=
  if_neg (by omega)

theorem take_of_lt {n : ℕ} {b : Region} {c : Cursor} (h : b.size - c.start < n) :
    (take n).run b c = (none,c) :=
  if_pos h

/-- A sequence whose first part fails. -/
theorem bind_of_none {p : Parser α} {b : Region} {c c' : Cursor} (h : p.run b c = (none,c'))
    (f : α → Parser β) : (p >>= f).run b c = (none,c') := by
  rw [run_bind,h]

theorem take_eq_some {n : ℕ} {b : Region} {c c' : Cursor} {f : ℕ → Byte} (hn : 0 < n)
    (h : (take n).run b c = (some f,c')) :
    c.start+n ≤ b.size ∧ (f = fun i => b.bytes (c.start+i)) ∧ c'.start = c.start+n ∧
      c'.touched = List.range' c.start n ++ c.touched := by
  simp only [take] at h
  split at h
  · simp at h
  · simp only [Prod.mk.injEq,Option.some.injEq] at h
    obtain ⟨rfl,rfl⟩ := h
    exact ⟨by omega,rfl,rfl,rfl⟩

theorem skip_of_le {n : ℕ} {b : Region} {c : Cursor} (h : c.start+n ≤ b.size) :
    (skip n).run b c = (some (),{c with start := c.start+n}) :=
  if_neg (by omega)

theorem skip_eq_some {n : ℕ} {b : Region} {c c' : Cursor} {u : Unit}
    (h : (skip n).run b c = (some u,c')) :
    n ≤ b.size - c.start ∧ c' = {c with start := c.start+n} := by
  simp only [skip] at h
  split at h
  · simp at h
  · simp only [Prod.mk.injEq,true_and] at h
    exact ⟨by omega,h.symm⟩

theorem trySkip_of_le {n : ℕ} {b : Region} {c : Cursor} (h : c.start+n ≤ b.size) :
    (trySkip n).run b c = (some (),{c with start := c.start+n}) := by
  simp only [trySkip]
  rw [if_neg (by omega)]

theorem consume_eq_false {n : ℕ} {b : Region} {c c' : Cursor}
    (h : (consume n).run b c = (some false,c')) : b.size - c.start < n ∧ c' = c := by
  simp only [consume] at h
  split at h
  · simp only [Prod.mk.injEq,true_and] at h
    exact ⟨‹_›,h.symm⟩
  · simp at h

end Parser

/-- From `c` on a parser has moved over `n` bytes of the region. It has read no
byte outside these, and the last of them. -/
structure Consumes (b : Region) (n : ℕ) (c c' : Cursor) : Prop where
  start : c'.start = c.start+n
  inside : c.start ≤ b.size → c'.start ≤ b.size
  within : ∀ i ∈ c'.touched, i ∈ c.touched ∨ c.start ≤ i ∧ i < c'.start
  kept : ∀ i ∈ c.touched, i ∈ c'.touched
  last : 0 < n → c'.start-1 ∈ c'.touched

theorem Consumes.none (b : Region) (c : Cursor) : Consumes b 0 c c :=
  ⟨rfl,id,fun _ h => .inl h,fun _ h => h,fun h => absurd h (Nat.lt_irrefl 0)⟩

theorem Consumes.trans {b : Region} {m n : ℕ} {c d e : Cursor} (h : Consumes b m c d)
    (h' : Consumes b n d e) : Consumes b (m+n) c e where
  start := by rw [h'.start,h.start,Nat.add_assoc]
  inside hc := h'.inside (h.inside hc)
  within i hi := by
    have hs := h.start
    have hs' := h'.start
    rcases h'.within i hi with hd | hd
    · rcases h.within i hd with hc | hc
      · exact .inl hc
      · exact .inr (by omega)
    · exact .inr (by omega)
  kept i hi := h'.kept i (h.kept i hi)
  last hpos := by
    cases n with
    | zero =>
        rw [h'.start]
        exact h'.kept _ (h.last hpos)
    | succ n => exact h'.last (Nat.succ_pos n)

/-- Bytes passed over unread, before bytes that are read. -/
theorem Consumes.skip {b : Region} {m n : ℕ} {c e : Cursor}
    (h : Consumes b n {c with start := c.start+m} e) (hm : m ≤ b.size - c.start) (hn : 0 < n) :
    Consumes b (m+n) c e where
  start := by rw [h.start,Nat.add_assoc]
  inside hc := h.inside (Nat.add_le_of_le_sub' hc hm)
  within i hi := by
    rcases h.within i hi with hc | hc
    · exact .inl hc
    · exact .inr ⟨Nat.le_trans (Nat.le_add_right _ _) hc.1,hc.2⟩
  kept i hi := h.kept i hi
  last _ := h.last hn

namespace Parser
variable {α β : Type}

/-- Whenever the parser succeeds it has moved over exactly `n` bytes. -/
def Reads (p : Parser α) (n : ℕ) : Prop :=
  ∀ ⦃b : Region⦄ ⦃c c' : Cursor⦄ ⦃a : α⦄, p.run b c = (some a,c') → Consumes b n c c'

theorem Reads.cast {p : Parser α} {m n : ℕ} (h : p.Reads m) (e : m = n) : p.Reads n := e ▸ h

theorem reads_pure (a : α) : (pure a : Parser α).Reads 0 := by
  intro b c c' y h
  rw [(pure_eq_some h).2]
  exact .none b c

theorem Reads.bind {p : Parser α} {f : α → Parser β} {m n : ℕ} (hp : p.Reads m)
    (hf : ∀ a, (f a).Reads n) : (p >>= f).Reads (m+n) := by
  intro b c c' y h
  obtain ⟨a,d,ha,hy⟩ := bind_eq_some h
  exact (hp ha).trans (hf a hy)

theorem Reads.map {p : Parser α} {n : ℕ} (hp : p.Reads n) (g : α → β) :
    (p >>= fun a => pure (g a)).Reads n :=
  hp.bind fun a => reads_pure (g a)

theorem Reads.repeated {p : Parser α} {m : ℕ} (hp : p.Reads m) (n : ℕ) :
    (p.repeated n).Reads (n*m) := by
  induction n with
  | zero => exact (reads_pure []).cast (Nat.zero_mul m).symm
  | succ n ih =>
      have h : (p.repeated (n+1)).Reads (m+n*m) := hp.bind fun a => ih.map (a::·)
      exact h.cast ((Nat.add_comm m (n*m)).trans (Nat.succ_mul n m).symm)

theorem reads_take {n : ℕ} (hn : 0 < n) : (take n).Reads n := by
  intro b c c' f h
  obtain ⟨hsize,_,hs,ht⟩ := take_eq_some hn h
  constructor
  · exact hs
  · intro _
    exact hs ▸ hsize
  · intro i hi
    rw [ht,List.mem_append,List.mem_range'_1] at hi
    rw [hs]
    exact hi.symm
  · intro i hi
    rw [ht]
    exact List.mem_append_right _ hi
  · intro _
    rw [ht,hs,List.mem_append,List.mem_range'_1]
    exact .inl (by omega)

end Parser

/-- Every byte read so far lies in `[lo, hi)`. -/
def Cursor.Within (lo hi : ℕ) (c : Cursor) : Prop := ∀ i ∈ c.touched, lo ≤ i ∧ i < hi

theorem Cursor.Within.mono {lo lo' hi hi' : ℕ} {c : Cursor} (h : c.Within lo hi)
    (hlo : lo' ≤ lo) (hhi : hi ≤ hi') : c.Within lo' hi' := by
  intro i hi₀
  have := h i hi₀
  omega

theorem Cursor.Within.range {lo hi k n : ℕ} {c d : Cursor} (h : c.Within lo hi)
    (hd : d.touched = List.range' k n ++ c.touched) (hlo : lo ≤ k) (hhi : k+n ≤ hi) :
    d.Within lo hi := by
  intro i hi₀
  rw [hd,List.mem_append,List.mem_range'_1] at hi₀
  rcases hi₀ with hk | hc
  · omega
  · exact h i hc

theorem Consumes.within_start {b : Region} {n k : ℕ} {c : Cursor} (h : Consumes b n ⟨k,[]⟩ c) :
    c.Within k (k+n) := by
  intro i hi
  rcases h.within i hi with hk | hk
  · simp at hk
  · rw [h.start] at hk
    exact hk

/-- From `c` to `c'` only bytes of `[lo, hi)` were read, and the last of them, whether the
parser went on or failed. -/
structure Cursor.Adds (lo hi : ℕ) (c c' : Cursor) : Prop where
  within : ∀ i ∈ c'.touched, i ∈ c.touched ∨ lo ≤ i ∧ i < hi
  kept : ∀ i ∈ c.touched, i ∈ c'.touched
  last : lo < hi → hi-1 ∈ c'.touched

theorem Cursor.Adds.nothing (lo : ℕ) (c : Cursor) : Cursor.Adds lo lo c c :=
  ⟨fun _ h => .inl h,fun _ h => h,fun h => absurd h (Nat.lt_irrefl lo)⟩

theorem Cursor.Adds.range (k n : ℕ) (c : Cursor) (s : ℕ) :
    Cursor.Adds k (k+n) c ⟨s,List.range' k n++c.touched⟩ where
  within i hi := by
    rw [List.mem_append,List.mem_range'_1] at hi
    exact hi.symm
  kept i hi := List.mem_append_right _ hi
  last hlt := by
    rw [List.mem_append,List.mem_range'_1]
    exact .inl (by omega)

theorem Cursor.Adds.trans {lo mid hi : ℕ} {c d e : Cursor} (h : Cursor.Adds lo mid c d)
    (h' : Cursor.Adds mid hi d e) (hlo : lo ≤ mid) (hhi : mid ≤ hi) : Cursor.Adds lo hi c e where
  within i hi' := by
    cases h'.within i hi' with
    | inl hd =>
        cases h.within i hd with
        | inl hc => exact .inl hc
        | inr hrange => exact .inr (by omega)
    | inr hrange => exact .inr (by omega)
  kept i hi' := h'.kept i (h.kept i hi')
  last hlt := by
    by_cases hnone : mid = hi
    · rw [← hnone]
      exact h'.kept _ (h.last (by omega))
    · exact h'.last (by omega)

/-- Bytes passed over unread, before bytes that are read. -/
theorem Cursor.Adds.skip {lo mid hi : ℕ} {c d : Cursor} (h : Cursor.Adds mid hi c d)
    (hlo : lo ≤ mid) (hlt : mid < hi) : Cursor.Adds lo hi c d where
  within i hi' := by
    cases h.within i hi' with
    | inl hc => exact .inl hc
    | inr hrange => exact .inr (by omega)
  kept := h.kept
  last _ := h.last hlt

theorem Cursor.Adds.congr {lo hi : ℕ} {c d e : Cursor} (h : Cursor.Adds lo hi c d)
    (he : e.touched = d.touched) : Cursor.Adds lo hi c e :=
  ⟨fun i hi' => h.within i (he ▸ hi'),fun i hi' => he ▸ h.kept i hi',fun hlt => he ▸ h.last hlt⟩

/-- What was read in an interval lies within bounds exactly when the interval does. -/
theorem Cursor.Adds.within_iff {k lo hi n : ℕ} {c c' : Cursor} (h : Cursor.Adds lo hi c c')
    (hc : c.touched = []) (hk : k ≤ lo) (hlt : lo < hi) : c'.Within k n ↔ hi ≤ n := by
  constructor
  · intro hw
    have hlast := hw (hi-1) (h.last hlt)
    omega
  · intro hle i hi'
    have hi'' := h.within i hi'
    rw [hc] at hi''
    simp only [List.not_mem_nil,false_or] at hi''
    omega

namespace Parser
variable {α β : Type}

/-- The parser reads `n` words of four bytes and gives a value of them, or it stops behind
the last whole word that the region has. -/
structure Words (p : Parser α) (n : ℕ) (value : Region → ℕ → α) : Prop where
  enough : ∀ (b : Region) (c : Cursor), c.start+4*n ≤ b.size →
    ∃ d, p.run b c = (some (value b c.start),d) ∧ d.start = c.start+4*n ∧
      Cursor.Adds c.start (c.start+4*n) c d
  short : ∀ (b : Region) (c : Cursor), c.start ≤ b.size → b.size < c.start+4*n →
    ∃ d, p.run b c = (none,d) ∧ Cursor.Adds c.start (c.start+4*((b.size-c.start)/4)) c d

theorem words_pure (a : α) : (pure a : Parser α).Words 0 fun _ _ => a where
  enough b c _ := ⟨c,rfl,rfl,Cursor.Adds.nothing _ c⟩
  short b c hc hshort := by omega

theorem words_take {g : (ℕ → Byte) → α} :
    (take 4 >>= fun data => pure (g data)).Words 1 fun b p => g fun i => b.bytes (p+i) where
  enough b c h := by
    rw [bind_of_some (take_of_le h)]
    exact ⟨_,rfl,rfl,Cursor.Adds.range _ 4 c _⟩
  short b c hc hshort := by
    rw [bind_of_none (take_of_lt (by omega))]
    have hzero : (b.size-c.start)/4 = 0 := by omega
    rw [hzero]
    exact ⟨c,rfl,Cursor.Adds.nothing _ c⟩

theorem Words.bind {p : Parser α} {f : α → Parser β} {m n : ℕ} {v : Region → ℕ → α}
    {w : α → Region → ℕ → β} (hp : p.Words m v) (hf : ∀ a, (f a).Words n (w a)) :
    (p >>= f).Words (m+n) fun b s => w (v b s) b (s+4*m) where
  enough b c h := by
    cases hp.enough b c (by omega) with
    | intro d hd =>
        rw [bind_of_some hd.1]
        cases (hf (v b c.start)).enough b d (by rw [hd.2.1]; omega) with
        | intro e he =>
            rw [hd.2.1] at he
            refine ⟨e,he.1,by rw [he.2.1]; omega,?_⟩
            rw [show c.start+4*(m+n) = c.start+4*m+4*n by omega]
            exact hd.2.2.trans he.2.2 (by omega) (by omega)
  short b c hc hshort := by
    by_cases hm : c.start+4*m ≤ b.size
    · cases hp.enough b c hm with
      | intro d hd =>
          rw [bind_of_some hd.1]
          cases (hf (v b c.start)).short b d (by rw [hd.2.1]; exact hm)
            (by rw [hd.2.1]; omega) with
          | intro e he =>
              rw [hd.2.1] at he
              refine ⟨e,he.1,?_⟩
              rw [show c.start+4*((b.size-c.start)/4) =
                c.start+4*m+4*((b.size-(c.start+4*m))/4) by omega]
              exact hd.2.2.trans he.2 (by omega) (by omega)
    · cases hp.short b c hc (by omega) with
      | intro d hd => exact ⟨d,bind_of_none hd.1 f,hd.2⟩

theorem Words.map {p : Parser α} {n : ℕ} {v : Region → ℕ → α} (hp : p.Words n v) (g : α → β) :
    (p >>= fun a => pure (g a)).Words n fun b s => g (v b s) :=
  hp.bind fun a => words_pure (g a)

theorem Words.repeated {p : Parser α} {m : ℕ} {v : Region → ℕ → α} (hp : p.Words m v) (n : ℕ) :
    (p.repeated n).Words (n*m) fun b s => (List.range n).map fun i => v b (s+4*m*i) := by
  induction n with
  | zero =>
      rw [Nat.zero_mul]
      exact words_pure []
  | succ n ih =>
      have h := hp.bind fun a => ih.map (a::·)
      rw [Nat.succ_mul,Nat.add_comm (n*m) m]
      have hvalue : (fun (b : Region) (s : ℕ) => (List.range (n+1)).map fun i => v b (s+4*m*i)) =
          fun b s => v b s :: (List.range n).map fun i => v b (s+4*m+4*m*i) := by
        funext b s
        rw [List.range_succ_eq_map,List.map_cons,List.map_map,Nat.mul_zero,Nat.add_zero]
        congr 1
        apply List.map_congr_left
        intro i _
        simp only [Function.comp_apply,Nat.mul_succ]
        congr 1
        omega
      rw [hvalue]
      exact h

end Parser

/-- The region holds the bytes `l` at offset `k`, inside its declared size. -/
def Region.Holds (b : Region) (k : ℕ) (l : List Byte) : Prop :=
  k+l.length ≤ b.size ∧ ∀ (i : ℕ) (h : i < l.length), b.bytes (k+i) = l[i]

theorem Region.holds_append {b : Region} {k : ℕ} {l r : List Byte} :
    b.Holds k (l++r) ↔ b.Holds k l ∧ b.Holds (k+l.length) r := by
  constructor
  · rintro ⟨hs,hb⟩
    rw [List.length_append] at hs
    refine ⟨⟨by omega,fun i hi => ?_⟩,⟨by omega,fun i hi => ?_⟩⟩
    · rw [hb i (by rw [List.length_append]; omega),List.getElem_append_left hi]
    · rw [Nat.add_assoc,hb (l.length+i) (by rw [List.length_append]; omega),
        List.getElem_append_right (by omega)]
      simp only [Nat.add_sub_cancel_left]
  · rintro ⟨⟨_,hl⟩,⟨hs,hr⟩⟩
    refine ⟨by rw [List.length_append]; omega,fun i hi => ?_⟩
    by_cases h : i < l.length
    · rw [hl i h,List.getElem_append_left h]
    · rw [List.length_append] at hi
      have := hr (i-l.length) (by omega)
      rw [List.getElem_append_right (by omega),← this]
      congr 1
      omega

/-- The region of a list of bytes, with arbitrary memory behind it. -/
def Region.ofList (l : List Byte) (behind : ℕ → Byte) (h : l.length < 2^63) : Region :=
  ⟨fun i => l.getD i (behind i),l.length,h⟩

theorem Region.ofList_holds (l : List Byte) (behind : ℕ → Byte) (h : l.length < 2^63) :
    (Region.ofList l behind h).Holds 0 l := by
  refine ⟨by simp [ofList],fun i hi => ?_⟩
  simp only [ofList,Nat.zero_add,List.getD_eq_getElem?_getD,List.getElem?_eq_getElem hi,
    Option.getD_some]

end Ylrtc.CursorParser
