import Ylrtc.Lib.CursorParser

/-!
# Big-endian loads and stores, `ByteReader` and `ByteWriter`

`base/byte_buffer.cpp`. The reader is the cursor parser over the region it was
built on; `Consume`, `Left` and `CurrentData` are `skip`, `left` and `position`
there. The writer keeps the whole destination buffer, so that bytes it never
writes stay what they were.
-/
namespace Ylrtc.ByteBuffer
open CursorParser

/-- `LoadUInt16BE` and its siblings, on the bytes from a pointer on. -/
def loadUInt16BE (data : ℕ → Byte) : BitVec 16 := data 0 ++ data 1
def loadUInt24BE (data : ℕ → Byte) : BitVec 32 := 0#8 ++ data 0 ++ data 1 ++ data 2
def loadUInt32BE (data : ℕ → Byte) : BitVec 32 := data 0 ++ data 1 ++ data 2 ++ data 3

def storeUInt16BE (v : BitVec 16) : List Byte := [v.extractLsb' 8 8,v.extractLsb' 0 8]
def storeUInt24BE (v : BitVec 32) : List Byte :=
  [v.extractLsb' 16 8,v.extractLsb' 8 8,v.extractLsb' 0 8]
def storeUInt32BE (v : BitVec 32) : List Byte :=
  [v.extractLsb' 24 8,v.extractLsb' 16 8,v.extractLsb' 8 8,v.extractLsb' 0 8]

@[simp] theorem storeUInt16BE_length (v : BitVec 16) : (storeUInt16BE v).length = 2 := rfl
@[simp] theorem storeUInt24BE_length (v : BitVec 32) : (storeUInt24BE v).length = 3 := rfl
@[simp] theorem storeUInt32BE_length (v : BitVec 32) : (storeUInt32BE v).length = 4 := rfl

theorem loadUInt16BE_of_holds {b : Region} {k : ℕ} {v : BitVec 16}
    (h : b.Holds k (storeUInt16BE v)) : loadUInt16BE (fun i => b.bytes (k+i)) = v := by
  have h0 := h.2 0 (by simp)
  have h1 := h.2 1 (by simp)
  simp only [loadUInt16BE,h0,h1,storeUInt16BE,List.getElem_cons_zero,List.getElem_cons_succ]
  rw [BitVec.extractLsb'_append_extractLsb'_eq_extractLsb' (by rfl)]
  simp

theorem loadUInt24BE_of_holds {b : Region} {k : ℕ} {v : BitVec 32} (hv : v.toNat < 2^24)
    (h : b.Holds k (storeUInt24BE v)) : loadUInt24BE (fun i => b.bytes (k+i)) = v := by
  have h0 := h.2 0 (by simp)
  have h1 := h.2 1 (by simp)
  have h2 := h.2 2 (by simp)
  simp only [loadUInt24BE,h0,h1,h2,storeUInt24BE,List.getElem_cons_zero,List.getElem_cons_succ]
  have hz : (0#8 : BitVec 8) = v.extractLsb' 24 8 := by
    apply BitVec.eq_of_toNat_eq
    simp only [BitVec.extractLsb'_toNat,BitVec.toNat_ofNat,Nat.shiftRight_eq_div_pow]
    omega
  rw [hz,BitVec.extractLsb'_append_extractLsb'_eq_extractLsb' (by rfl),
    BitVec.extractLsb'_append_extractLsb'_eq_extractLsb' (by rfl),
    BitVec.extractLsb'_append_extractLsb'_eq_extractLsb' (by rfl)]
  simp

theorem loadUInt32BE_of_holds {b : Region} {k : ℕ} {v : BitVec 32}
    (h : b.Holds k (storeUInt32BE v)) : loadUInt32BE (fun i => b.bytes (k+i)) = v := by
  have h0 := h.2 0 (by simp)
  have h1 := h.2 1 (by simp)
  have h2 := h.2 2 (by simp)
  have h3 := h.2 3 (by simp)
  simp only [loadUInt32BE,h0,h1,h2,h3,storeUInt32BE,List.getElem_cons_zero,List.getElem_cons_succ]
  rw [BitVec.extractLsb'_append_extractLsb'_eq_extractLsb' (by rfl),
    BitVec.extractLsb'_append_extractLsb'_eq_extractLsb' (by rfl),
    BitVec.extractLsb'_append_extractLsb'_eq_extractLsb' (by rfl)]
  simp

def readUInt8 : Parser Byte := do
  let data ← Parser.take 1
  return data 0

def readUInt16 : Parser (BitVec 16) := do
  let data ← Parser.take 2
  return loadUInt16BE data

def readUInt24 : Parser (BitVec 32) := do
  let data ← Parser.take 3
  return loadUInt24BE data

def readUInt32 : Parser (BitVec 32) := do
  let data ← Parser.take 4
  return loadUInt32BE data

/-- A checked read of `n` bytes whose value depends on these bytes alone. -/
theorem take_map_eq_some {α : Type} {n : ℕ} {g : (ℕ → Byte) → α} {b : Region} {c c' : Cursor}
    {v : α} (hn : 0 < n)
    (h : (Parser.take n >>= fun data => pure (g data)).run b c = (some v,c')) :
    c.start+n ≤ b.size ∧ v = g (fun i => b.bytes (c.start+i)) ∧ c'.start = c.start+n ∧
      c'.touched = List.range' c.start n ++ c.touched := by
  obtain ⟨data,d,ht,hp⟩ := Parser.bind_eq_some h
  obtain ⟨hs,hf,hstart,htouched⟩ := Parser.take_eq_some hn ht
  obtain ⟨rfl,rfl⟩ := Parser.pure_eq_some hp
  exact ⟨hs,by rw [hf],hstart,htouched⟩

theorem readUInt8_eq_some {b : Region} {c c' : Cursor} {v : Byte}
    (h : readUInt8.run b c = (some v,c')) :
    c.start+1 ≤ b.size ∧ v = b.bytes c.start ∧ c'.start = c.start+1 ∧
      c'.touched = List.range' c.start 1 ++ c.touched :=
  take_map_eq_some (g := fun data => data 0) (by omega) h

theorem readUInt16_eq_some {b : Region} {c c' : Cursor} {v : BitVec 16}
    (h : readUInt16.run b c = (some v,c')) :
    c.start+2 ≤ b.size ∧ v = loadUInt16BE (fun i => b.bytes (c.start+i)) ∧
      c'.start = c.start+2 ∧ c'.touched = List.range' c.start 2 ++ c.touched :=
  take_map_eq_some (by omega) h

theorem readUInt8_reads : readUInt8.Reads 1 := (Parser.reads_take Nat.one_pos).map _
theorem readUInt16_reads : readUInt16.Reads 2 := (Parser.reads_take Nat.two_pos).map _
theorem readUInt24_reads : readUInt24.Reads 3 := (Parser.reads_take (Nat.succ_pos 2)).map _
theorem readUInt32_reads : readUInt32.Reads 4 := (Parser.reads_take (Nat.succ_pos 3)).map _

theorem readUInt32_words :
    readUInt32.Words 1 fun b p => loadUInt32BE fun i => b.bytes (p+i) :=
  Parser.words_take

theorem readUInt32_of_holds {b : Region} {c : Cursor} {v : BitVec 32}
    (h : b.Holds c.start (storeUInt32BE v)) :
    readUInt32.run b c = (some v,⟨c.start+4,List.range' c.start 4 ++ c.touched⟩) := by
  unfold readUInt32
  rw [Parser.bind_of_some (Parser.take_of_le (n := 4) h.1)]
  simp only [Parser.run_pure,loadUInt32BE_of_holds h]

/-- A destination buffer and the number of bytes used so far. -/
structure ByteWriter where
  bytes : List Byte
  used : ℕ
  deriving DecidableEq, Repr

namespace ByteWriter

/-- The constructor `ByteWriter(bytes, len)`. -/
def on (buffer : List Byte) : ByteWriter := ⟨buffer,0⟩

def left (w : ByteWriter) : ℕ := w.bytes.length - w.used

def writeBytes (w : ByteWriter) (val : List Byte) : Option ByteWriter :=
  if w.left < val.length then none else
    some ⟨w.bytes.take w.used ++ val ++ w.bytes.drop (w.used+val.length),w.used+val.length⟩

def writeUInt8 (w : ByteWriter) (val : Byte) : Option ByteWriter := w.writeBytes [val]
def writeUInt16 (w : ByteWriter) (val : BitVec 16) : Option ByteWriter :=
  w.writeBytes (storeUInt16BE val)
def writeUInt24 (w : ByteWriter) (val : BitVec 32) : Option ByteWriter :=
  w.writeBytes (storeUInt24BE val)
def writeUInt32 (w : ByteWriter) (val : BitVec 32) : Option ByteWriter :=
  w.writeBytes (storeUInt32BE val)

theorem writeBytes_of_lt {w : ByteWriter} {l : List Byte} (h : w.left < l.length) :
    w.writeBytes l = none := if_pos h

theorem writeBytes_of_le {w : ByteWriter} {l : List Byte} (h : l.length ≤ w.left) :
    w.writeBytes l =
      some ⟨w.bytes.take w.used ++ l ++ w.bytes.drop (w.used+l.length),w.used+l.length⟩ :=
  if_neg (by omega)

/-- Consecutive writes are one write of the concatenation. -/
theorem writeBytes_append (w : ByteWriter) (l r : List Byte) (hw : w.used ≤ w.bytes.length) :
    ((w.writeBytes l).bind fun w' => w'.writeBytes r) = w.writeBytes (l++r) := by
  have hleft : w.left = w.bytes.length - w.used := rfl
  have hlr : (l++r).length = l.length+r.length := List.length_append
  by_cases hl : l.length ≤ w.left
  · rw [writeBytes_of_le hl,Option.bind_some]
    have hlen : (w.bytes.take w.used ++ l ++ w.bytes.drop (w.used+l.length)).length =
        w.bytes.length := by
      simp only [List.length_append,List.length_take,List.length_drop]
      omega
    have hpre : (w.bytes.take w.used ++ l).length = w.used+l.length := by
      simp only [List.length_append,List.length_take]
      omega
    have hleft' : left ⟨w.bytes.take w.used ++ l ++ w.bytes.drop (w.used+l.length),
        w.used+l.length⟩ = w.bytes.length - (w.used+l.length) := by
      simp only [left,hlen]
    by_cases hr : r.length ≤ w.bytes.length - (w.used+l.length)
    · rw [writeBytes_of_le (by omega),writeBytes_of_le (by omega),Option.some.injEq,
        ByteWriter.mk.injEq]
      refine ⟨?_,by simp only [hlr]; omega⟩
      simp only [hlr]
      rw [List.take_append_of_le_length (by omega),List.take_of_length_le (by omega),
        List.drop_append,List.drop_eq_nil_of_le (by omega),List.nil_append,List.drop_drop,hpre]
      simp only [List.append_assoc]
      congr 4
      omega
    · rw [writeBytes_of_lt (by omega),writeBytes_of_lt (by omega)]
  · rw [writeBytes_of_lt (by omega),writeBytes_of_lt (by omega),Option.bind_none]

theorem writeBytes_used_le {w w' : ByteWriter} {l : List Byte} (hw : w.used ≤ w.bytes.length)
    (h : w.writeBytes l = some w') : w'.used ≤ w'.bytes.length := by
  have hleft : w.left = w.bytes.length - w.used := rfl
  by_cases hl : l.length ≤ w.left
  · rw [writeBytes_of_le hl,Option.some.injEq] at h
    subst h
    simp only [List.length_append,List.length_take,List.length_drop]
    omega
  · rw [writeBytes_of_lt (by omega)] at h
    simp at h

/-- A write that exactly fills a fresh buffer leaves nothing of its old content. -/
theorem writeBytes_fill (buffer val : List Byte) (h : val.length = buffer.length) :
    (on buffer).writeBytes val = some ⟨val,buffer.length⟩ := by
  have hleft : (on buffer).left = buffer.length := rfl
  rw [writeBytes_of_le (by omega)]
  simp [on,h]

/-- A serializer that writes exactly the bytes `l`, wherever the writer stands. -/
def Writes (p : ByteWriter → Option ByteWriter) (l : List Byte) : Prop :=
  ∀ w : ByteWriter, w.used ≤ w.bytes.length → p w = w.writeBytes l

theorem writes_writeBytes (l : List Byte) : Writes (fun w => w.writeBytes l) l := fun _ _ => rfl

theorem writes_nothing : Writes some [] := by
  intro w hw
  rw [writeBytes_of_le (Nat.zero_le _)]
  simp

theorem Writes.bind {p q : ByteWriter → Option ByteWriter} {l r : List Byte} (hp : Writes p l)
    (hq : Writes q r) : Writes (fun w => p w >>= q) (l++r) := by
  intro w hw
  rw [← writeBytes_append w l r hw]
  change (p w).bind q = _
  rw [hp w hw]
  cases h : w.writeBytes l with
  | none => rfl
  | some w' => exact hq w' (writeBytes_used_le hw h)

theorem Writes.forEach {α : Type} {p : ByteWriter → α → Option ByteWriter} {f : α → List Byte}
    (h : ∀ a, Writes (fun w => p w a) (f a)) (l : List α) :
    Writes (fun w => l.foldlM p w) (l.flatMap f) := by
  induction l with
  | nil => exact writes_nothing
  | cons a l ih =>
      rw [List.flatMap_cons]
      exact (h a).bind ih

end ByteWriter
end Ylrtc.ByteBuffer
