import Mathlib.Init

/-!
# Programs that change a state and may throw

What was done to the state before an exception stays done. A program whose exceptions are
faults may also abort, which no handler catches; a program without faults cannot, and keeps
that property when it is made part of one that can.
-/
namespace Ylrtc

def Prog (σ ε α : Type) : Type := σ → Except ε α × σ

namespace Prog
variable {σ τ ε α β : Type}

def ret (a : α) : Prog σ ε α := fun s => (.ok a,s)

def andThen (m : Prog σ ε α) (f : α → Prog σ ε β) : Prog σ ε β := fun s =>
  match m s with
  | (.ok a,t) => f a t
  | (.error e,t) => (.error e,t)

instance : Monad (Prog σ ε) where
  pure := ret
  bind := andThen

def throw (e : ε) : Prog σ ε α := fun s => (.error e,s)

def get : Prog σ ε σ := fun s => (.ok s,s)

def set (s : σ) : Prog σ ε Unit := fun _ => (.ok (),s)

def modify (f : σ → σ) : Prog σ ε Unit := fun s => (.ok (),f s)

/-- What throws or gives a value, and leaves the state alone. -/
def ofExcept (x : Except ε α) : Prog σ ε α := fun s => (x,s)

def mapError {δ : Type} (f : ε → δ) (m : Prog σ ε α) : Prog σ δ α := fun s =>
  match m s with
  | (.ok a,t) => (.ok a,t)
  | (.error e,t) => (.error (f e),t)

theorem mapError_state {δ : Type} (f : ε → δ) (m : Prog σ ε α) (s : σ) :
    (m.mapError f s).2 = (m s).2 := by
  rw [mapError]
  rcases m s with ⟨_ | _,t⟩ <;> rfl

/-- An exception gives a value in the end. -/
def recover (a : α) (m : Prog σ ε α) : Prog σ ε α := fun s =>
  match m s with
  | (.ok a,t) => (.ok a,t)
  | (.error _,t) => (.ok a,t)

/-- A program on a part of the state. -/
def zoom (part : τ → σ) (put : σ → τ → τ) (m : Prog σ ε α) : Prog τ ε α := fun t =>
  let r := m (part t)
  (r.1,put r.2 t)

/-- A program on a state of its own, which it gives back. -/
def isolated (t : τ) (m : Prog τ ε α) : Prog σ ε (α × τ) := fun s =>
  match m t with
  | (.ok a,u) => (.ok (a,u),s)
  | (.error e,_) => (.error e,s)

/-- The items in order, for as long as the body says to go on. -/
def whileItems (body : β → Prog σ ε Bool) : List β → Prog σ ε Bool
  | [] => ret true
  | b::bs => do
      let go ← body b
      if go then whileItems body bs else ret false

/-- The items in order. -/
def forItems (body : β → Prog σ ε Unit) : List β → Prog σ ε Unit
  | [] => ret ()
  | b::bs => do
      body b
      forItems body bs

theorem bind_ok {m : Prog σ ε α} {f : α → Prog σ ε β} {s t : σ} {a : α} (h : m s = (.ok a,t)) :
    (m >>= f) s = f a t := by
  change andThen m f s = f a t
  rw [andThen,h]

theorem bind_error {m : Prog σ ε α} {f : α → Prog σ ε β} {s t : σ} {e : ε}
    (h : m s = (.error e,t)) : (m >>= f) s = (.error e,t) := by
  change andThen m f s = _
  rw [andThen,h]

theorem get_bind {f : σ → Prog σ ε β} {s : σ} : (get >>= f) s = f s s := rfl

theorem bind_eq_ok {m : Prog σ ε α} {f : α → Prog σ ε β} {s u : σ} {b : β} :
    (m >>= f) s = (.ok b,u) ↔ ∃ a t, m s = (.ok a,t) ∧ f a t = (.ok b,u) := by
  constructor
  · intro h
    rcases hm : m s with ⟨e | a,t⟩
    · rw [bind_error hm] at h
      exact absurd h (by simp)
    · rw [bind_ok hm] at h
      exact ⟨a,t,rfl,h⟩
  · rintro ⟨a,t,hm,h⟩
    rw [bind_ok hm]
    exact h

theorem pure_eq_ok {a b : α} {s t : σ} : (pure a : Prog σ ε α) s = (.ok b,t) ↔ a = b ∧ s = t := by
  change ((Except.ok a : Except ε α),s) = (.ok b,t) ↔ a = b ∧ s = t
  rw [Prod.mk.injEq,Except.ok.injEq]

/-- A sequence of two calls that may throw. -/
theorem except_bind_eq_ok {x : Except ε α} {f : α → Except ε β} {b : β} :
    (x >>= f) = .ok b ↔ ∃ a, x = .ok a ∧ f a = .ok b := by
  cases x with
  | error e =>
      constructor
      · exact fun h => nomatch h
      · exact fun ⟨_,h,_⟩ => nomatch h
  | ok a =>
      constructor
      · exact fun h => ⟨a,rfl,h⟩
      · rintro ⟨_,⟨⟩,h⟩
        exact h

theorem zoom_eq_ok {part : τ → σ} {put : σ → τ → τ} {m : Prog σ ε α} {t u : τ} {a : α} :
    zoom part put m t = (.ok a,u) ↔ ∃ s, m (part t) = (.ok a,s) ∧ put s t = u := by
  rw [zoom]
  rcases m (part t) with ⟨e | b,s⟩
  · simp
  · simp only [Prod.mk.injEq,Except.ok.injEq]
    constructor
    · rintro ⟨hb,hu⟩
      exact ⟨s,⟨hb,rfl⟩,hu⟩
    · rintro ⟨_,⟨hb,rfl⟩,hu⟩
      exact ⟨hb,hu⟩

theorem isolated_eq_ok {m : Prog τ ε α} {t u : τ} {s s' : σ} {a : α} :
    isolated t m s = (.ok (a,u),s') ↔ m t = (.ok a,u) ∧ s = s' := by
  rw [isolated]
  rcases m t with ⟨e | b,v⟩
  · simp
  · simp only [Prod.mk.injEq,Except.ok.injEq]

end Prog

/-! ### Faults -/

/-- An exception, or the end of the process. -/
inductive Fault (ε : Type) where
  | thrown (e : ε)
  | aborted

namespace Prog
variable {σ τ ε α β : Type}

def abort : Prog σ (Fault ε) α := throw .aborted

/-- A program without faults as part of one that may have them. -/
def safe (m : Prog σ ε α) : Prog σ (Fault ε) α := m.mapError .thrown

/-- `try` and `catch`. -/
def catchThrown (m : Prog σ (Fault ε) α) (handler : ε → Prog σ (Fault ε) α) :
    Prog σ (Fault ε) α := fun s =>
  match m s with
  | (.error (.thrown e),t) => handler e t
  | r => r

def Aborts (m : Prog σ (Fault ε) α) (s : σ) : Prop := (m s).1 = .error .aborted

@[simp] theorem aborts_abort (s : σ) : (abort : Prog σ (Fault ε) α).Aborts s := rfl

@[simp] theorem not_aborts_pure (a : α) (s : σ) :
    ¬ (pure a : Prog σ (Fault ε) α).Aborts s := by
  change ¬ (Except.ok a : Except (Fault ε) α) = .error .aborted
  simp

@[simp] theorem not_aborts_get (s : σ) : ¬ (get : Prog σ (Fault ε) σ).Aborts s := by
  change ¬ (Except.ok s : Except (Fault ε) σ) = .error .aborted
  simp

@[simp] theorem not_aborts_modify (f : σ → σ) (s : σ) :
    ¬ (modify f : Prog σ (Fault ε) Unit).Aborts s := by
  change ¬ (Except.ok () : Except (Fault ε) Unit) = .error .aborted
  simp

@[simp] theorem not_aborts_safe (m : Prog σ ε α) (s : σ) : ¬ m.safe.Aborts s := by
  rw [Aborts,safe,mapError]
  rcases m s with ⟨_ | _,t⟩ <;> simp

theorem safe_eq_ok {m : Prog σ ε α} {s t : σ} {a : α} :
    m.safe s = (.ok a,t) ↔ m s = (.ok a,t) := by
  rw [safe,mapError]
  rcases m s with ⟨_ | _,u⟩ <;> simp

/-- A sequence aborts in its first part or, where that gets through, in its second. -/
theorem aborts_bind {m : Prog σ (Fault ε) α} {f : α → Prog σ (Fault ε) β} {s : σ} :
    (m >>= f).Aborts s ↔ m.Aborts s ∨ ∃ a t, m s = (.ok a,t) ∧ (f a).Aborts t := by
  change (andThen m f s).1 = _ ↔ _
  rw [andThen,Aborts]
  rcases hm : m s with ⟨e | a,t⟩
  · simp
  · simp only [reduceCtorEq,false_or,Prod.mk.injEq,Except.ok.injEq]
    constructor
    · intro h
      exact ⟨a,t,⟨rfl,rfl⟩,h⟩
    · rintro ⟨_,_,⟨rfl,rfl⟩,h⟩
      exact h

theorem aborts_safe_bind {m : Prog σ ε α} {f : α → Prog σ (Fault ε) β} {s : σ} :
    (m.safe >>= f).Aborts s ↔ ∃ a t, m s = (.ok a,t) ∧ (f a).Aborts t := by
  rw [aborts_bind]
  simp only [not_aborts_safe,false_or,safe_eq_ok]

theorem aborts_get_bind {f : σ → Prog σ (Fault ε) β} {s : σ} :
    (get >>= f).Aborts s ↔ (f s).Aborts s := Iff.rfl

theorem aborts_modify_bind {g : σ → σ} {f : Unit → Prog σ (Fault ε) β} {s : σ} :
    (modify g >>= f).Aborts s ↔ (f ()).Aborts (g s) := Iff.rfl

theorem aborts_zoom {part : τ → σ} {put : σ → τ → τ} {m : Prog σ (Fault ε) α} {t : τ} :
    (zoom part put m).Aborts t ↔ m.Aborts (part t) := Iff.rfl

/-- A handler catches exceptions and lets an abort pass. -/
theorem aborts_catchThrown {m : Prog σ (Fault ε) α} {handler : ε → Prog σ (Fault ε) α} {s : σ} :
    (m.catchThrown handler).Aborts s ↔
      m.Aborts s ∨ ∃ e t, m s = (.error (.thrown e),t) ∧ (handler e).Aborts t := by
  rw [Aborts,catchThrown,Aborts]
  rcases hm : m s with ⟨(e | _) | a,t⟩
  · simp only [Except.error.injEq,reduceCtorEq,false_or,Prod.mk.injEq,Fault.thrown.injEq]
    constructor
    · intro h
      exact ⟨e,t,⟨rfl,rfl⟩,h⟩
    · rintro ⟨_,_,⟨rfl,rfl⟩,h⟩
      exact h
  · simp
  · simp

theorem not_aborts_whileItems {body : β → Prog σ (Fault ε) Bool}
    (h : ∀ b s, ¬ (body b).Aborts s) (bs : List β) (s : σ) : ¬ (whileItems body bs).Aborts s := by
  induction bs generalizing s with
  | nil => exact not_aborts_pure true s
  | cons b bs ih =>
      rw [whileItems,aborts_bind]
      rintro (hb | ⟨go,t,_,ht⟩)
      · exact h b s hb
      · cases go with
        | true => exact ih t ht
        | false => exact not_aborts_pure false t ht

/-- A loop aborts at one of its items, the items before it having got through. -/
theorem aborts_forItems {body : β → Prog σ (Fault ε) Unit} {bs : List β} {s : σ} :
    (forItems body bs).Aborts s ↔ ∃ before b after t, bs = before++b::after ∧
      forItems body before s = (.ok (),t) ∧ (body b).Aborts t := by
  induction bs generalizing s with
  | nil =>
      have hnil : ¬ (forItems body []).Aborts s := not_aborts_pure () s
      simp [hnil]
  | cons b bs ih =>
      rw [forItems,aborts_bind]
      constructor
      · rintro (hb | ⟨_,t,ht,hrest⟩)
        · exact ⟨[],b,bs,s,rfl,rfl,hb⟩
        · obtain ⟨before,c,after,u,rfl,hu,hc⟩ := ih.mp hrest
          refine ⟨b::before,c,after,u,rfl,?_,hc⟩
          rw [forItems,bind_ok ht]
          exact hu
      · rintro ⟨before,c,after,t,hsplit,ht,hc⟩
        cases before with
        | nil =>
            obtain ⟨rfl,rfl⟩ := List.cons.inj hsplit
            obtain ⟨_,rfl⟩ := Prod.mk.inj ht
            exact .inl hc
        | cons a before =>
            obtain ⟨rfl,rfl⟩ := List.cons.inj hsplit
            rw [forItems] at ht
            rcases hb : body b s with ⟨e | _,u⟩
            · rw [bind_error hb] at ht
              exact absurd ht (by simp)
            · rw [bind_ok hb] at ht
              exact .inr ⟨(),u,rfl,ih.mpr ⟨before,c,after,t,rfl,ht,hc⟩⟩

/-! ### Frames -/

/-- What a program does to the state stays within a relation, whether it throws or not. -/
def Within (R : σ → σ → Prop) (m : Prog σ ε α) : Prop := ∀ s, R s (m s).2

section Within
variable {R : σ → σ → Prop}

theorem within_pure (hR : ∀ s, R s s) (a : α) : Within R (pure a : Prog σ ε α) := hR

theorem within_get (hR : ∀ s, R s s) : Within R (get : Prog σ ε σ) := hR

theorem within_ofExcept (hR : ∀ s, R s s) (x : Except ε α) : Within R (ofExcept x) := hR

theorem within_modify {f : σ → σ} (hf : ∀ s, R s (f s)) :
    Within R (modify f : Prog σ ε Unit) := hf

theorem Within.bind (hR : ∀ s t u, R s t → R t u → R s u) {m : Prog σ ε α}
    {f : α → Prog σ ε β} (hm : Within R m) (hf : ∀ a, Within R (f a)) :
    Within R (m >>= f) := by
  intro s
  have hs := hm s
  rcases h : m s with ⟨e | a,t⟩
  · rw [bind_error h]
    rw [h] at hs
    exact hs
  · rw [bind_ok h]
    rw [h] at hs
    exact hR s t _ hs (hf a t)

theorem Within.mapError {δ : Type} {m : Prog σ ε α} (hm : Within R m) (f : ε → δ) :
    Within R (m.mapError f) := by
  intro s
  rw [mapError_state]
  exact hm s

theorem within_zoom {part : τ → σ} {put : σ → τ → τ} {T : τ → τ → Prop}
    (hput : ∀ s t, T t (put s t)) (m : Prog σ ε α) : Within T (zoom part put m) :=
  fun t => hput (m (part t)).2 t

/-- What a program does stays within a relation, unless it gives a value of a kind. -/
def WithinUnless (R : σ → σ → Prop) (good : α → Prop) (m : Prog σ ε α) : Prop :=
  ∀ s, (∃ a t, m s = (.ok a,t) ∧ good a) ∨ R s (m s).2

theorem Within.unless {m : Prog σ ε α} (hm : Within R m) (good : α → Prop) :
    WithinUnless R good m := fun s => .inr (hm s)

theorem withinUnless_of_good {good : α → Prop} {m : Prog σ ε α}
    (h : ∀ s, ∃ a t, m s = (.ok a,t) ∧ good a) : WithinUnless R good m := fun s => .inl (h s)

theorem Within.bind_unless (hR : ∀ s t u, R s t → R t u → R s u) {good : β → Prop}
    {m : Prog σ ε α} {f : α → Prog σ ε β} (hm : Within R m)
    (hf : ∀ a, WithinUnless R good (f a)) : WithinUnless R good (m >>= f) := by
  intro s
  have hs := hm s
  rcases h : m s with ⟨e | a,t⟩
  · rw [bind_error h]
    rw [h] at hs
    exact .inr hs
  · rw [bind_ok h]
    rw [h] at hs
    exact (hf a t).imp_right (hR s t _ hs)

theorem WithinUnless.bind (hR : ∀ s t u, R s t → R t u → R s u) {good : α → Prop}
    {good' : β → Prop} {m : Prog σ ε α} {f : α → Prog σ ε β} (hm : WithinUnless R good m)
    (hgood : ∀ a t, good a → ∃ b u, f a t = (.ok b,u) ∧ good' b)
    (hf : ∀ a, WithinUnless R good' (f a)) : WithinUnless R good' (m >>= f) := by
  intro s
  rcases hm s with ⟨a,t,h,ha⟩ | hs
  · rw [bind_ok h]
    exact .inl (hgood a t ha)
  · rcases h : m s with ⟨e | a,t⟩
    · rw [bind_error h]
      rw [h] at hs
      exact .inr hs
    · rw [bind_ok h]
      rw [h] at hs
      exact (hf a t).imp_right (hR s t _ hs)

end Within

/-! ### What a program that gets through does -/

/-- Where the program gives a value, the value and the state have a property. -/
def Ends (Q : α → σ → Prop) (m : Prog σ ε α) (s : σ) : Prop := ∀ a t, m s = (.ok a,t) → Q a t

section Ends
variable {Q Q' : α → σ → Prop} {s : σ}

theorem Ends.mono {m : Prog σ ε α} (hm : Ends Q m s) (hQ : ∀ a t, Q a t → Q' a t) :
    Ends Q' m s := fun a t h => hQ a t (hm a t h)

theorem Ends.and {m : Prog σ ε α} (hm : Ends Q m s) (hm' : Ends Q' m s) :
    Ends (fun a t => Q a t ∧ Q' a t) m s := fun a t h => ⟨hm a t h,hm' a t h⟩

theorem ends_pure {a : α} : Ends Q (pure a : Prog σ ε α) s ↔ Q a s := by
  constructor
  · exact fun h => h a s rfl
  · intro h b t hp
    obtain ⟨rfl,rfl⟩ := pure_eq_ok.mp hp
    exact h

theorem ends_bind {Q : β → σ → Prop} {m : Prog σ ε α} {f : α → Prog σ ε β} :
    Ends Q (m >>= f) s ↔ Ends (fun a t => Ends Q (f a) t) m s := by
  constructor
  · exact fun h a t ha b u hb => h b u (bind_eq_ok.mpr ⟨a,t,ha,hb⟩)
  · intro h b u hp
    obtain ⟨a,t,ha,hb⟩ := bind_eq_ok.mp hp
    exact h a t ha b u hb

theorem ends_get_bind {Q : β → σ → Prop} {f : σ → Prog σ ε β} :
    Ends Q (get >>= f) s ↔ Ends Q (f s) s := Iff.rfl

theorem ends_modify {Q : Unit → σ → Prop} {f : σ → σ} :
    Ends Q (modify f : Prog σ ε Unit) s ↔ Q () (f s) := by
  constructor
  · exact fun h => h () (f s) rfl
  · intro h a t hp
    obtain ⟨_,rfl⟩ := Prod.mk.inj hp
    exact h

theorem ends_recover {a : α} {m : Prog σ ε α} (ha : ∀ t, Q a t) (hm : Ends Q m s) :
    Ends Q (recover a m) s := by
  intro b t h
  rw [recover] at h
  split at h
  · rename_i b' t' hok
    exact hm b t (hok.trans h)
  · obtain ⟨hb,rfl⟩ := Prod.mk.inj h
    obtain rfl := Except.ok.inj hb
    exact ha _

theorem ends_abort : Ends Q (abort : Prog σ (Fault ε) α) s := fun _ _ h => nomatch h

theorem ends_safe {m : Prog σ ε α} : Ends Q m.safe s ↔ Ends Q m s := by
  simp only [Ends,safe_eq_ok]

theorem ends_zoom {Q : α → τ → Prop} {part : τ → σ} {put : σ → τ → τ} {m : Prog σ ε α} {t : τ} :
    Ends Q (zoom part put m) t ↔ Ends (fun a s => Q a (put s t)) m (part t) := by
  constructor
  · exact fun h a s hm => h a (put s t) (zoom_eq_ok.mpr ⟨s,hm,rfl⟩)
  · intro h a u hz
    obtain ⟨s,hm,rfl⟩ := zoom_eq_ok.mp hz
    exact h a s hm

theorem Within.ends {R : σ → σ → Prop} {m : Prog σ ε α} (hm : Within R m) (s : σ) :
    Ends (fun _ t => R s t) m s := by
  intro a t h
  have hs := hm s
  rw [h] at hs
  exact hs

end Ends

end Prog
end Ylrtc
