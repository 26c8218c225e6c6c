import Ylrtc.Lib.Pieces
import Ylrtc.Lib.Prog
import Ylrtc.Signaling.Room
import Mathlib.Algebra.Group.Int.Defs

/-!
# JSON values and strings

The JSON library and the SDP parser are not part of the repository: they are a parameter, of
which nothing is assumed but that their functions return or throw. The string functions are
those of the standard library and of `utils.cpp`.
-/
namespace Ylrtc.Signaling
open CursorParser

/-- A `std::string`. -/
abbrev Text := List Byte

/-- A string literal. -/
def text (s : String) : Text := s.toList.map fun c => BitVec.ofNat 8 c.toNat

/-- `nlohmann::json` and `sdptransform`, as far as the signaling uses them. -/
structure JsonLibrary where
  Json : Type
  Error : Type
  what : Error → Text
  parse : Text → Except Error Json
  dump : Json → Except Error Text
  sdpParse : Text → Except Error Json
  sdpWrite : Json → Except Error Text
  null : Json
  ofText : Text → Json
  ofBool : Bool → Json
  ofInt : ℤ → Json
  array : List Json → Json
  object : List (String × Json) → Json
  /-- `find`, where `none` is `end()`. -/
  find : Json → String → Option Json
  atKey : Json → String → Except Error Json
  /-- `operator[]` at a place that there is. -/
  index : Json → ℕ → Except Error Json
  isEmpty : Json → Bool
  size : Json → ℕ
  /-- What a range-based loop meets. -/
  elements : Json → List Json
  toText : Json → Except Error Text
  toBool : Json → Except Error Bool
  toUInt : (w : ℕ) → Json → Except Error (BitVec w)
  /-- `==` with a string. -/
  isText : Json → Text → Bool
  /-- `==` with a number. -/
  isInt : Json → ℤ → Bool
  /-- `j[key] = v`. -/
  set : Json → String → Json → Except Error Json
  erase : Json → String → Except Error Json
  /-- `j.erase(std::remove_if(..), j.end())`, given what is kept. -/
  retain : Json → List Json → Except Error Json
  /-- Assignment through a reference to a member, an element, or each element in turn. -/
  putMember : Json → String → Json → Json
  putElement : Json → ℕ → Json → Json
  putElements : Json → List Json → Json

/-- An exception of the library, or of the standard library. -/
inductive Exc (J : JsonLibrary) where
  | json (e : J.Error)
  | std (what : Text)

def Exc.what {J : JsonLibrary} : Exc J → Text
  | .json e => J.what e
  | .std what => what

/-- A call of the library. -/
def lib {J : JsonLibrary} {σ α : Type} (x : Except J.Error α) : Prog σ (Exc J) α :=
  Prog.ofExcept (x.mapError .json)

theorem lib_eq_ok {J : JsonLibrary} {σ α : Type} {x : Except J.Error α} {s t : σ} {a : α} :
    (lib x : Prog σ (Exc J) α) s = (.ok a,t) ↔ x = .ok a ∧ s = t := by
  cases x with
  | error e => simp [lib,Prog.ofExcept,Except.mapError]
  | ok b => simp [lib,Prog.ofExcept,Except.mapError]

theorem lib_bind_eq_ok {J : JsonLibrary} {σ α β : Type} {x : Except J.Error α}
    {f : α → Prog σ (Exc J) β} {s t : σ} {b : β} :
    (lib x >>= f) s = (.ok b,t) ↔ ∃ a, x = .ok a ∧ f a s = (.ok b,t) := by
  rw [Prog.bind_eq_ok]
  constructor
  · rintro ⟨a,_,hx,hf⟩
    obtain ⟨rfl,rfl⟩ := lib_eq_ok.mp hx
    exact ⟨a,rfl,hf⟩
  · rintro ⟨a,rfl,hf⟩
    exact ⟨a,s,lib_eq_ok.mpr ⟨rfl,rfl⟩,hf⟩

theorem ends_lib {J : JsonLibrary} {σ α : Type} {x : Except J.Error α} {s : σ}
    {Q : α → σ → Prop} : Prog.Ends Q (lib x : Prog σ (Exc J) α) s ↔ ∀ a, x = .ok a → Q a s := by
  constructor
  · exact fun h a hx => h a s (lib_eq_ok.mpr ⟨hx,rfl⟩)
  · intro h a t hl
    obtain ⟨hx,rfl⟩ := lib_eq_ok.mp hl
    exact h a hx

/-- A call of the standard library. -/
def std {J : JsonLibrary} {σ α : Type} (x : Except Text α) : Prog σ (Exc J) α :=
  Prog.ofExcept (x.mapError .std)

theorem ends_std {J : JsonLibrary} {σ α : Type} {x : Except Text α} {s : σ}
    {Q : α → σ → Prop} : Prog.Ends Q (std x : Prog σ (Exc J) α) s ↔ ∀ a, x = .ok a → Q a s := by
  cases x with
  | error e =>
      constructor
      · exact fun _ a h => nomatch h
      · exact fun _ a t h => nomatch h
  | ok b =>
      constructor
      · rintro h _ ⟨⟩
        exact h b s rfl
      · rintro h _ _ ⟨⟩
        exact h b rfl

/-! ### Strings and numbers -/

def isSpace (c : Byte) : Bool := c = 32 ∨ 9 ≤ c.toNat ∧ c.toNat ≤ 13
def isDigit (c : Byte) : Bool := 48 ≤ c.toNat ∧ c.toNat ≤ 57

/-- `std::stoi` and `std::stol`: the number at the start of the string, which may stand behind
white space and a sign. Without a digit, or out of range, the name of the function is thrown. -/
def parseNumber (name : Text) (bits : ℕ) (s : Text) : Except Text ℤ :=
  let s := s.dropWhile isSpace
  let negative := s.head? = some 45
  let s := if s.head? = some 45 ∨ s.head? = some 43 then s.tail else s
  let digits := s.takeWhile isDigit
  if digits = [] then .error name
  else
    let n : ℤ := digits.foldl (fun n d => 10*n+(d.toNat-48)) (0 : ℕ)
    let n := if negative then -n else n
    if -2^(bits-1) ≤ n ∧ n < 2^(bits-1) then .ok n else .error name

def stoi : Text → Except Text ℤ := parseNumber (text "stoi") 32
def stol : Text → Except Text ℤ := parseNumber (text "stol") 64

/-- `std::to_string`. -/
def decimal (n : ℤ) : Text :=
  let digits := (Nat.toDigits 10 n.natAbs).map fun c => BitVec.ofNat 8 c.toNat
  if n < 0 then 45::digits else digits

/-- `StringSplit` at a string of one character. -/
def split (s : Text) (delim : Byte) : List Text := Pieces.pieces delim s

/-- `StringToLower`. -/
def stringToLower (s : Text) : Text :=
  s.map fun c => if 65 ≤ c.toNat ∧ c.toNat ≤ 90 then c+32 else c

/-! ### Numbers in decimal -/

theorem toDigits_range {n : ℕ} {c : Char} (hc : c ∈ Nat.toDigits 10 n) :
    48 ≤ c.toNat ∧ c.toNat ≤ 57 := by
  have hdigit := Nat.isDigit_of_mem_toDigits (by decide) (by decide) hc
  rw [Char.isDigit,Bool.and_eq_true,decide_eq_true_eq,decide_eq_true_eq] at hdigit
  exact hdigit

theorem digits_byte {n : ℕ} {b : Byte}
    (h : b ∈ (Nat.toDigits 10 n).map fun c => BitVec.ofNat 8 c.toNat) : isDigit b = true := by
  obtain ⟨c,hc,rfl⟩ := List.mem_map.mp h
  obtain ⟨hlow,hhigh⟩ := toDigits_range hc
  rw [isDigit,BitVec.toNat_ofNat,Nat.mod_eq_of_lt (by omega)]
  simp only [hlow,hhigh,and_self,decide_true]

theorem decimal_ne_nil (n : ℤ) : decimal n ≠ [] := by
  rw [decimal]
  split
  · exact List.cons_ne_nil _ _
  · exact fun h => Nat.toDigits_ne_nil (List.map_eq_nil_iff.mp h)

theorem not_mem_decimal {b : Byte} (hdigit : isDigit b = false) (hminus : b ≠ 45) (n : ℤ) :
    b ∉ decimal n := by
  intro h
  have hnot : b ∉ (Nat.toDigits 10 n.natAbs).map fun c => BitVec.ofNat 8 c.toNat :=
    fun hmem => absurd ((digits_byte hmem).symm.trans hdigit) (by decide)
  rw [decimal] at h
  split at h
  · cases List.mem_cons.mp h with
    | inl heq => exact hminus heq
    | inr hmem => exact hnot hmem
  · exact hnot h

theorem digits_injective {m n : ℕ} (h : (Nat.toDigits 10 m).map (fun c => BitVec.ofNat 8 c.toNat) =
    (Nat.toDigits 10 n).map fun c => BitVec.ofNat 8 c.toNat) : m = n := by
  have hchars : ∀ k : ℕ, ((Nat.toDigits 10 k).map fun c => BitVec.ofNat 8 c.toNat).map
      (fun b => Char.ofNat b.toNat) = Nat.toDigits 10 k := by
    intro k
    rw [List.map_map]
    refine (List.map_congr_left fun c hc => ?_).trans (List.map_id _)
    have hhigh := (toDigits_range hc).2
    rw [Function.comp_apply,BitVec.toNat_ofNat,Nat.mod_eq_of_lt (by omega),Char.ofNat_toNat,id]
  have hdigits : Nat.toDigits 10 m = Nat.toDigits 10 n := by rw [← hchars m,h,hchars]
  rw [← Nat.ofDigitChars_ten_toDigits (n := m),hdigits,Nat.ofDigitChars_ten_toDigits]

theorem decimal_injective {m n : ℤ} (h : decimal m = decimal n) : m = n := by
  have hminus : ∀ k : ℕ, (45 : Byte) ∉ (Nat.toDigits 10 k).map fun c => BitVec.ofNat 8 c.toNat :=
    fun k hmem => absurd (digits_byte hmem) (by decide)
  rw [decimal,decimal] at h
  split at h
  · rename_i hm
    split at h
    · rename_i hn
      have habs := digits_injective (List.cons.inj h).2
      omega
    · exact absurd (h ▸ List.mem_cons_self) (hminus n.natAbs)
  · rename_i hm
    split at h
    · exact absurd (h.symm ▸ List.mem_cons_self) (hminus m.natAbs)
    · rename_i hn
      have habs := digits_injective h
      omega

theorem split_decimal (n : ℤ) : split (decimal n) 32 = [decimal n] := by
  rw [split,Pieces.pieces_of_not_mem (not_mem_decimal (by decide) (by decide) n),
    Pieces.flush_of_ne (decimal_ne_nil n)]

theorem split_decimals (m n : ℤ) :
    split (decimal m++text " "++decimal n) 32 = [decimal m,decimal n] := by
  rw [List.append_assoc]
  exact (Pieces.pieces_join_iff (not_mem_decimal (by decide) (by decide) n)
    (decimal_ne_nil n)).mpr ⟨decimal_ne_nil m,not_mem_decimal (by decide) (by decide) m⟩

end Ylrtc.Signaling
