import Ylrtc.Lib.CursorParser

/-!
# Parsers that read at absolute offsets

Such a parser looks at the size of the region itself and then reads wherever it
likes. Its whole behaviour on a region is the value it gives and an interval that
holds every byte it reads.
-/
namespace Ylrtc.CursorParser
namespace Parser
variable {α β : Type}

/-- The declared size of the region. -/
def size : Parser ℕ := ⟨fun b c => (some b.size,c)⟩

/-- Read one byte, without any check. -/
def byte (offset : ℕ) : Parser Byte := do
  let data ← load offset 1
  return data 0

/-- On this region the parser gives `v`, also when it fails, and it reads nothing outside
`[lo, hi)`. -/
def Gives (p : Parser α) (b : Region) (lo hi : ℕ) (v : Option α) : Prop :=
  ∀ c : Cursor, c.Within lo hi → (p.run b c).1 = v ∧ (p.run b c).2.Within lo hi

variable {b : Region} {lo hi : ℕ}

theorem gives_pure (a : α) : (pure a : Parser α).Gives b lo hi (some a) :=
  fun _ hc => ⟨rfl,hc⟩

theorem gives_fail : (fail : Parser α).Gives b lo hi none := fun _ hc => ⟨rfl,hc⟩

theorem gives_size : size.Gives b lo hi (some b.size) := fun _ hc => ⟨rfl,hc⟩

theorem gives_guard_of {p : Prop} [Decidable p] (h : p) : (guard p).Gives b lo hi (some ()) := by
  intro c hc
  rw [guard_of h]
  exact ⟨rfl,hc⟩

theorem gives_guard_not {p : Prop} [Decidable p] (h : ¬p) : (guard p).Gives b lo hi none := by
  intro c hc
  unfold guard
  rw [if_neg h]
  exact ⟨rfl,hc⟩

theorem gives_load {k n : ℕ} (hlo : lo ≤ k) (hhi : k+n ≤ hi) :
    (load k n).Gives b lo hi (some fun i => b.bytes (k+i)) :=
  fun _ hc => ⟨rfl,hc.range rfl hlo hhi⟩

/-- The rule for sequences. The second part is only looked at where the first succeeds. -/
theorem Gives.bind {p : Parser α} {f : α → Parser β} {v : Option α} {w : α → Option β}
    (hp : p.Gives b lo hi v) (hf : ∀ a, v = some a → (f a).Gives b lo hi (w a)) :
    (p >>= f).Gives b lo hi (v.bind w) := by
  intro c hc
  have hfirst := hp c hc
  rw [run_bind]
  cases hrun : p.run b c with
  | mk a d =>
      rw [hrun] at hfirst
      cases a with
      | none =>
          rw [← hfirst.1]
          exact ⟨rfl,hfirst.2⟩
      | some a =>
          rw [← hfirst.1,Option.bind_some]
          exact hf a hfirst.1.symm d hfirst.2

/-- The first part succeeds. -/
theorem Gives.then {p : Parser α} {f : α → Parser β} {a : α} {w : Option β}
    (hp : p.Gives b lo hi (some a)) (hf : (f a).Gives b lo hi w) :
    (p >>= f).Gives b lo hi w :=
  hp.bind (w := fun _ => w) fun _ ha => Option.some.inj ha ▸ hf

/-- The first part fails. -/
theorem Gives.failed {p : Parser α} {f : α → Parser β} (hp : p.Gives b lo hi none) :
    (p >>= f).Gives b lo hi none :=
  hp.bind (w := fun _ => none) fun a ha => by simp at ha

theorem gives_byte {k : ℕ} (hlo : lo ≤ k) (hhi : k < hi) :
    (byte k).Gives b lo hi (some (b.bytes k)) :=
  (gives_load hlo hhi).then (gives_pure _)

/-- What a run from a fresh cursor gives and reads. -/
theorem Gives.run {p : Parser α} {v : Option α} (h : p.Gives b lo hi v) (start : ℕ) :
    (p.run b ⟨start,[]⟩).1 = v ∧ (p.run b ⟨start,[]⟩).2.Within lo hi :=
  h _ fun _ hi => absurd hi List.not_mem_nil

end Parser

/-- The region shows exactly the list. What memory holds behind it is left open. -/
structure Region.Shows (b : Region) (l : List Byte) : Prop where
  size : b.size = l.length
  bytes : ∀ i < l.length, b.bytes i = l.getD i 0

theorem Region.ofList_shows (l : List Byte) (behind : ℕ → Byte) (h : l.length < 2^63) :
    (Region.ofList l behind h).Shows l where
  size := rfl
  bytes i hi := by
    change l.getD i (behind i) = l.getD i 0
    rw [List.getD_eq_getElem?_getD,List.getD_eq_getElem?_getD,List.getElem?_eq_getElem hi]
    rfl

end Ylrtc.CursorParser
