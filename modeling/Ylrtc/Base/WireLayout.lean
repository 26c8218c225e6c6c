import Ylrtc.Base.ByteBuffer

/-!
# Layouts on the wire

What a serializer lays over a buffer, byte by byte: a value, or nothing where it moves on
without writing. A parser that reads a value back from its bytes composes in the same way.
-/
namespace Ylrtc.ByteBuffer
open CursorParser

/-- A byte that is written, or one that is passed over. -/
abbrev Layout := List (Option Byte)

/-- The bytes of `old` with a layout over them. -/
def overlay : Layout → List Byte → List Byte
  | [],old => old
  | _::_,[] => []
  | new::layout,byte::old => new.getD byte::overlay layout old

@[simp] theorem overlay_nil (old : List Byte) : overlay [] old = old := by
  cases old with
  | nil => rfl
  | cons byte old => rfl

@[simp] theorem overlay_length (l : Layout) (old : List Byte) :
    (overlay l old).length = old.length := by
  induction l generalizing old with
  | nil => rw [overlay_nil]
  | cons new l ih =>
      cases old with
      | nil => rfl
      | cons byte old => rw [overlay,List.length_cons,ih,List.length_cons]

theorem overlay_append (l r : Layout) (old : List Byte) :
    overlay (l++r) old = (overlay l old).take l.length ++ overlay r (old.drop l.length) := by
  induction l generalizing old with
  | nil => simp
  | cons new l ih =>
      cases old with
      | nil => cases r with
        | nil => rfl
        | cons _ _ => rfl
      | cons byte old =>
          simp only [List.cons_append,overlay,List.length_cons,List.take_succ_cons,
            List.drop_succ_cons,ih]

/-- Behind a layout nothing changes. -/
theorem drop_overlay (l : Layout) (old : List Byte) :
    (overlay l old).drop l.length = old.drop l.length := by
  induction l generalizing old with
  | nil => rw [overlay_nil]
  | cons new l ih =>
      cases old with
      | nil => rfl
      | cons byte old => exact ih old

@[simp] theorem overlay_replicate_none (n : ℕ) (old : List Byte) :
    overlay (List.replicate n none) old = old := by
  induction n generalizing old with
  | zero => exact overlay_nil old
  | succ n ih =>
      cases old with
      | nil => rfl
      | cons byte old =>
          rw [List.replicate_succ,overlay,ih]
          rfl

theorem overlay_some (bytes old : List Byte) (h : bytes.length ≤ old.length) :
    overlay (bytes.map some) old = bytes ++ old.drop bytes.length := by
  induction bytes generalizing old with
  | nil => simp
  | cons byte bytes ih =>
      cases old with
      | nil => simp at h
      | cons first old =>
          rw [List.map_cons,overlay,ih old (by simpa using h)]
          rfl

/-- Whether what lies under a layout shows. -/
def Covers (l : Layout) (size : ℕ) : Prop := none ∉ l ∧ l.length = size

theorem overlay_eq_of_covers {l : Layout} {old old' : List Byte} (h : Covers l old.length)
    (hold : old'.length = old.length) : overlay l old = overlay l old' := by
  induction l generalizing old old' with
  | nil =>
      have hlength : old.length = 0 := h.2.symm
      rw [List.length_eq_zero_iff.mp hlength,List.length_eq_zero_iff.mp (hold.trans hlength)]
  | cons new l ih =>
      cases old with
      | nil => exact absurd h.2 (by simp)
      | cons byte old =>
          cases old' with
          | nil => simp at hold
          | cons byte' old' =>
              have hnew : new ≠ none := fun hnone => h.1 (hnone ▸ List.mem_cons_self)
              have hrest : Covers l old.length :=
                ⟨fun hmem => h.1 (List.mem_cons_of_mem _ hmem),by simpa using h.2⟩
              rw [overlay,overlay,ih hrest (by simpa using hold)]
              cases new with
              | none => exact absurd rfl hnew
              | some value => rfl

/-- Two contents tell a layout with a hole, or one that is too short, apart. -/
theorem covers_of_overlay_eq {l : Layout} {size : ℕ} (hsize : l.length ≤ size)
    (h : overlay l (List.replicate size 0) = overlay l (List.replicate size 1)) :
    Covers l size := by
  induction l generalizing size with
  | nil =>
      rw [overlay_nil,overlay_nil,List.replicate_inj] at h
      refine ⟨List.not_mem_nil,?_⟩
      cases h.2 with
      | inl hzero => exact hzero.symm
      | inr heq => exact absurd heq (by decide)
  | cons new l ih =>
      cases size with
      | zero => simp at hsize
      | succ size =>
          rw [List.replicate_succ,List.replicate_succ,overlay,overlay,List.cons.injEq] at h
          have hrest := ih (by simpa using hsize) h.2
          refine ⟨?_,by rw [List.length_cons,hrest.2]⟩
          intro hmem
          cases List.mem_cons.mp hmem with
          | inl hnone =>
              rw [← hnone] at h
              exact absurd h.1 (by decide)
          | inr hmem => exact hrest.1 hmem

namespace ByteWriter

/-- `Consume`: move on without writing. -/
def consume (w : ByteWriter) (n : ℕ) : Option ByteWriter :=
  if w.left < n then none else some { w with used := w.used+n }

/-- A serializer lays `l` at the place of any writer that has the room. -/
def Lays (p : ByteWriter → Option ByteWriter) (l : Layout) : Prop :=
  ∀ w : ByteWriter, w.used ≤ w.bytes.length → l.length ≤ w.left →
    p w = some ⟨w.bytes.take w.used ++ overlay l (w.bytes.drop w.used),w.used+l.length⟩

theorem lays_nothing : Lays some [] := by
  intro w _ _
  rw [overlay_nil,List.take_append_drop]
  rfl

theorem lays_writeBytes (bytes : List Byte) :
    Lays (fun w => w.writeBytes bytes) (bytes.map some) := by
  intro w hw hroom
  have hleft : w.left = w.bytes.length - w.used := rfl
  rw [List.length_map] at hroom ⊢
  refine (writeBytes_of_le hroom).trans ?_
  rw [overlay_some _ _ (by rw [List.length_drop]; omega),List.drop_drop,List.append_assoc]

theorem lays_consume (n : ℕ) : Lays (fun w => w.consume n) (List.replicate n none) := by
  intro w hw hroom
  rw [List.length_replicate] at hroom ⊢
  rw [overlay_replicate_none,List.take_append_drop]
  exact if_neg (by omega)

theorem Lays.bind {p q : ByteWriter → Option ByteWriter} {l r : Layout} (hp : Lays p l)
    (hq : Lays q r) : Lays (fun w => p w >>= q) (l++r) := by
  intro w hw hroom
  have hleft : w.left = w.bytes.length - w.used := rfl
  rw [List.length_append] at hroom
  have hlength : (w.bytes.take w.used ++ overlay l (w.bytes.drop w.used)).length =
      w.bytes.length := by
    rw [List.length_append,overlay_length,List.length_take,List.length_drop]
    omega
  have htake : (w.bytes.take w.used).length = w.used := by
    rw [List.length_take]
    omega
  have hfirst := hp w hw (by omega)
  have hsecond := hq ⟨w.bytes.take w.used ++ overlay l (w.bytes.drop w.used),w.used+l.length⟩
    (by simp only [hlength]; omega) (by simp only [left,hlength]; omega)
  simp only [hfirst,Option.bind_eq_bind,Option.bind_some,hsecond,Option.some.injEq,
    ByteWriter.mk.injEq,List.length_append,Nat.add_assoc,and_true]
  have hkept : (w.bytes.take w.used).take (w.used+l.length) = w.bytes.take w.used :=
    List.take_of_length_le (by omega)
  have hgone : (w.bytes.take w.used).drop (w.used+l.length) = [] :=
    List.drop_eq_nil_of_le (by omega)
  rw [List.take_append,List.drop_append,htake,hkept,hgone,Nat.add_sub_cancel_left,
    List.nil_append,drop_overlay,overlay_append,List.append_assoc]

theorem Lays.forEach {α : Type} {p : ByteWriter → α → Option ByteWriter} {f : α → Layout}
    (h : ∀ a, Lays (fun w => p w a) (f a)) (l : List α) :
    Lays (fun w => l.foldlM p w) (l.flatMap f) := by
  induction l with
  | nil => exact lays_nothing
  | cons a l ih =>
      rw [List.flatMap_cons]
      exact (h a).bind ih

/-- On a fresh buffer with the room. -/
theorem Lays.on {p : ByteWriter → Option ByteWriter} {l : Layout} (h : Lays p l)
    (buffer : List Byte) (hroom : l.length ≤ buffer.length) :
    p (ByteWriter.on buffer) = some ⟨overlay l buffer,l.length⟩ := by
  rw [h (ByteWriter.on buffer) (Nat.zero_le _) hroom]
  simp [ByteWriter.on]

end ByteWriter

/-! ### Reading back -/

/-- The region has room for a layout, and holds its bytes. -/
def Fits (b : Region) (k : ℕ) (l : Layout) : Prop :=
  k+l.length ≤ b.size ∧ ∀ i value, l[i]? = some (some value) → b.bytes (k+i) = value

theorem fits_append {b : Region} {k : ℕ} {l r : Layout} :
    Fits b k (l++r) ↔ Fits b k l ∧ Fits b (k+l.length) r := by
  constructor
  · intro h
    have hsize := h.1
    rw [List.length_append] at hsize
    refine ⟨⟨by omega,fun i value hi => ?_⟩,⟨by omega,fun i value hi => ?_⟩⟩
    · apply h.2 i value
      rw [List.getElem?_append_left (List.getElem?_eq_some_iff.mp hi).1]
      exact hi
    · rw [Nat.add_assoc]
      apply h.2 (l.length+i) value
      rw [List.getElem?_append_right (Nat.le_add_right _ _),Nat.add_sub_cancel_left]
      exact hi
  · intro h
    have hsize := h.2.1
    refine ⟨by rw [List.length_append]; omega,fun i value hi => ?_⟩
    by_cases hlt : i < l.length
    · rw [List.getElem?_append_left hlt] at hi
      exact h.1.2 i value hi
    · rw [List.getElem?_append_right (by omega)] at hi
      have hbyte := h.2.2 (i-l.length) value hi
      rwa [show k+l.length+(i-l.length) = k+i by omega] at hbyte

theorem fits_some {b : Region} {k : ℕ} {bytes : List Byte} :
    Fits b k (bytes.map some) ↔ b.Holds k bytes := by
  constructor
  · intro h
    refine ⟨by simpa using h.1,fun i hi => h.2 i _ ?_⟩
    rw [List.getElem?_map,List.getElem?_eq_getElem hi,Option.map_some]
  · intro h
    refine ⟨by simpa using h.1,fun i value hi => ?_⟩
    rw [List.getElem?_map,Option.map_eq_some_iff] at hi
    cases hi with
    | intro byte hbyte =>
        have hlt := (List.getElem?_eq_some_iff.mp hbyte.1).1
        rw [h.2 i hlt,← Option.some.inj hbyte.2]
        exact (List.getElem?_eq_some_iff.mp hbyte.1).2

/-- A region fits what was laid over its bytes. -/
theorem fits_overlay {b : Region} {k : ℕ} {l : Layout} {old : List Byte}
    (h : b.Holds k (overlay l old)) (hroom : l.length ≤ old.length) : Fits b k l := by
  induction l generalizing k old with
  | nil =>
      refine ⟨?_,fun i value hi => by simp at hi⟩
      have := h.1
      rw [List.length_nil]
      omega
  | cons new l ih =>
      cases old with
      | nil => simp at hroom
      | cons byte old =>
          rw [overlay] at h
          have happend := Region.holds_append.mp (show b.Holds k ([new.getD byte] ++ _) from h)
          refine (fits_append (l := [new])).mpr ⟨⟨happend.1.1,fun i value hi => ?_⟩,
            ih happend.2 (by simpa using hroom)⟩
          cases i with
          | zero =>
              rw [List.getElem?_cons_zero,Option.some.injEq] at hi
              rw [happend.1.2 0 (by simp)]
              simp [hi]
          | succ i => simp at hi

/-- A parser that reads `a` back wherever a layout fits, and moves over it. -/
def Parses {α : Type} (p : Parser α) (l : Layout) (a : α) : Prop :=
  ∀ b c, Fits b c.start l → ∃ t, p.run b c = (some a,⟨c.start+l.length,t⟩)

section Parses
variable {α β : Type} {p : Parser α} {l r : Layout} {a : α}

theorem parses_pure (a : α) : Parses (pure a) [] a := fun _ c _ => ⟨c.touched,rfl⟩

theorem Parses.bind {f : α → Parser β} {y : β} (hp : Parses p l a) (hf : Parses (f a) r y) :
    Parses (p >>= f) (l++r) y := by
  intro b c h
  have hfits := fits_append.mp h
  cases hp b c hfits.1 with
  | intro t ht =>
      cases hf b ⟨c.start+l.length,t⟩ hfits.2 with
      | intro u hu =>
          refine ⟨u,?_⟩
          rw [Parser.bind_of_some ht,hu,List.length_append,Nat.add_assoc]

theorem Parses.map (hp : Parses p l a) (g : α → β) : Parses (p >>= fun a => pure (g a)) l (g a) := by
  have h := hp.bind (f := fun a => pure (g a)) (parses_pure (g a))
  rwa [List.append_nil] at h

theorem Parses.repeated {γ : Type} {as : List γ} {f : γ → Layout} {g : γ → α}
    (h : ∀ a ∈ as, Parses p (f a) (g a)) :
    Parses (p.repeated as.length) (as.flatMap f) (as.map g) := by
  induction as with
  | nil => exact parses_pure []
  | cons a as ih =>
      rw [List.flatMap_cons]
      exact (h a List.mem_cons_self).bind
        ((ih fun x hx => h x (List.mem_cons_of_mem _ hx)).map (g a::·))

theorem parses_skip (l : Layout) : Parses (Parser.skip l.length) l () := by
  intro b c h
  exact ⟨c.touched,Parser.skip_of_le h.1⟩

/-- At the start of a region that holds the layout over some buffer. -/
theorem Parses.run_overlay (h : Parses p l a) {b : Region} {buffer : List Byte}
    (hb : b.Holds 0 (overlay l buffer)) (hroom : l.length ≤ buffer.length) :
    ∃ t, p.run b ⟨0,[]⟩ = (some a,⟨l.length,t⟩) := by
  have hrun := h b ⟨0,[]⟩ (fits_overlay hb hroom)
  rwa [Nat.zero_add] at hrun

theorem parses_guard {q : Prop} [Decidable q] (h : q) : Parses (Parser.guard q) [] () :=
  fun b c _ => ⟨c.touched,Parser.guard_of h b c⟩

/-- A checked read of so many bytes. -/
theorem parses_take {n : ℕ} (bytes : List Byte) (g : (ℕ → Byte) → α) (hlength : bytes.length = n)
    (h : ∀ b k, Region.Holds b k bytes → g (fun i => b.bytes (k+i)) = a) :
    Parses (Parser.take n >>= fun data => pure (g data)) (bytes.map some) a := by
  intro b c hfits
  have hholds := fits_some.mp hfits
  have hsize := hholds.1
  refine ⟨List.range' c.start n ++ c.touched,?_⟩
  rw [Parser.bind_of_some (Parser.take_of_le (by omega)),Parser.run_pure,h b c.start hholds,
    List.length_map,hlength]

theorem readUInt8_parses (v : Byte) : Parses readUInt8 [some v] v :=
  parses_take [v] (fun data => data 0) rfl fun _ _ h => h.2 0 (by simp)

theorem readUInt16_parses (v : BitVec 16) : Parses readUInt16 ((storeUInt16BE v).map some) v :=
  parses_take _ _ rfl fun _ _ h => loadUInt16BE_of_holds h

/-- Of a value of three bytes the rest is lost. -/
theorem readUInt24_parses (v : BitVec 32) :
    Parses readUInt24 ((storeUInt24BE v).map some) (BitVec.ofNat 32 (v.toNat%2^24)) := by
  have hstore : storeUInt24BE v = storeUInt24BE (BitVec.ofNat 32 (v.toNat%2^24)) := by
    have hlt : v.toNat%2^24%2^32 = v.toNat%2^24 := Nat.mod_eq_of_lt (by omega)
    simp only [storeUInt24BE,List.cons.injEq,and_true,← BitVec.toNat_inj,BitVec.extractLsb'_toNat,
      BitVec.toNat_ofNat,Nat.shiftRight_eq_div_pow,hlt]
    omega
  rw [hstore]
  refine parses_take _ _ rfl fun _ _ h => loadUInt24BE_of_holds ?_ h
  rw [BitVec.toNat_ofNat]
  omega

theorem readUInt32_parses (v : BitVec 32) : Parses readUInt32 ((storeUInt32BE v).map some) v :=
  parses_take _ _ rfl fun _ _ h => loadUInt32BE_of_holds h

end Parses
end Ylrtc.ByteBuffer
