import Ylrtc.Signaling.Json

/-!
# A JSON library on trees

A `JsonLibrary` on which requests can be run. Its parsers know the texts that they are given;
on these, and where no text is to be written but plain ASCII, it does what `nlohmann::json`
does.
-/
namespace Ylrtc.Signaling

inductive Value where
  | null
  | bool (b : Bool)
  | int (n : ℤ)
  | string (s : Text)
  | array (vs : List Value)
  | object (ms : List (String × Value))

namespace Value

def find? : Value → String → Option Value
  | .object ms,key => ms.lookup key
  | _,_ => none

/-- The messages name the key only where the library does. -/
def at? (v : Value) (key : String) : Except Text Value :=
  match v,v.find? key with
  | _,some member => .ok member
  | .object _,none =>
      .error (text "[json.exception.out_of_range.403] key '"++text key++text "' not found")
  | _,none => .error (text "[json.exception.type_error.304] cannot use at()")

/-- A member takes its place, or a new one at the end. -/
def put (key : String) (value : Value) : List (String × Value) → List (String × Value)
  | [] => [(key,value)]
  | m::ms => if m.1 = key then (key,value)::ms else m::put key value ms

def set : Value → String → Value → Except Text Value
  | .object ms,key,value => .ok (.object (put key value ms))
  | .null,key,value => .ok (.object [(key,value)])
  | _,_,_ => .error (text "[json.exception.type_error.305] cannot use operator[]")

def erase : Value → String → Except Text Value
  | .object ms,key => .ok (.object (ms.filter fun m => m.1 ≠ key))
  | _,_ => .error (text "[json.exception.type_error.307] cannot use erase()")

def index : Value → ℕ → Except Text Value
  | .array vs,i =>
      match vs[i]? with
      | some v => .ok v
      | none => .ok .null
  | _,_ => .error (text "[json.exception.type_error.305] cannot use operator[]")

def elements : Value → List Value
  | .null => []
  | .array vs => vs
  | .object ms => ms.map Prod.snd
  | v => [v]

def toText : Value → Except Text Text
  | .string s => .ok s
  | _ => .error (text "[json.exception.type_error.302] type must be string")

def toBool : Value → Except Text Bool
  | .bool b => .ok b
  | _ => .error (text "[json.exception.type_error.302] type must be boolean")

def toUInt (w : ℕ) : Value → Except Text (BitVec w)
  | .int n => .ok (BitVec.ofInt w n)
  | .bool b => .ok (if b then 1 else 0)
  | _ => .error (text "[json.exception.type_error.302] type must be number")

def isText : Value → Text → Bool
  | .string s,t => s = t
  | _,_ => false

def isInt : Value → ℤ → Bool
  | .int n,m => n = m
  | _,_ => false

def retain : Value → List Value → Except Text Value
  | .array _,kept => .ok (.array kept)
  | _,_ => .error (text "[json.exception.type_error.307] cannot use erase()")

def putMember (v : Value) (key : String) (value : Value) : Value :=
  match v with
  | .object ms => .object (put key value ms)
  | v => v

def putElement (v : Value) (i : ℕ) (value : Value) : Value :=
  match v with
  | .array vs => .array (vs.set i value)
  | v => v

def putElements (v : Value) (values : List Value) : Value :=
  match v with
  | .array _ => .array values
  | .object ms => .object ((ms.map Prod.fst).zip values)
  | v => v

/-- A string that is printable ASCII, with its escapes. -/
def quote (s : Text) : Except Text Text :=
  if s.all fun c => (32 ≤ c.toNat ∧ c.toNat < 127) ∨ c = 13 ∨ c = 10 then
    .ok (34::s.flatMap (fun c =>
      if c = 34 ∨ c = 92 then [92,c]
      else if c = 13 then text "\\r" else if c = 10 then text "\\n" else [c])++[34])
  else .error (text "[json.exception.type_error.316] invalid UTF-8 byte")

mutual

/-- The text of a value, without blanks. -/
def dump : Value → Except Text Text
  | .null => .ok (text "null")
  | .bool b => .ok (if b then text "true" else text "false")
  | .int n => .ok (decimal n)
  | .string s => quote s
  | .array vs => do
      let vs ← dumpElements vs
      pure (text "["++List.intercalate (text ",") vs++text "]")
  | .object ms => do
      let ms ← dumpMembers ms
      pure (text "\x7b"++List.intercalate (text ",") ms++text "\x7d")

def dumpElements : List Value → Except Text (List Text)
  | [] => .ok []
  | v::vs => do
      let v ← dump v
      let vs ← dumpElements vs
      pure (v::vs)

def dumpMembers : List (String × Value) → Except Text (List Text)
  | [] => .ok []
  | (key,v)::ms => do
      let key ← quote (text key)
      let v ← dump v
      let ms ← dumpMembers ms
      pure ((key++text ":"++v)::ms)

end

/-- The text of a value that can be written. -/
def written (v : Value) : Text := v.dump.toOption.getD []

/-! ### Members -/

theorem lookup_cons_ite (name k : String) (v : Value) (ms : List (String × Value)) :
    List.lookup k ((name,v)::ms) = if k = name then some v else ms.lookup k := by
  rw [List.lookup_cons]
  by_cases hk : k = name
  · rw [if_pos hk,beq_iff_eq.mpr hk]
  · rw [if_neg hk,beq_eq_false_iff_ne.mpr hk]

theorem lookup_put (key k : String) (value : Value) (ms : List (String × Value)) :
    (put key value ms).lookup k = if k = key then some value else ms.lookup k := by
  induction ms with
  | nil => exact lookup_cons_ite key k value []
  | cons m ms ih =>
      obtain ⟨name,v⟩ := m
      rw [put]
      split
      · rename_i hname
        obtain rfl : name = key := hname
        rw [lookup_cons_ite,lookup_cons_ite]
        split <;> rfl
      · rename_i hname
        rw [lookup_cons_ite,lookup_cons_ite,ih]
        by_cases hk : k = name
        · subst hk
          rw [if_pos rfl,if_pos rfl,if_neg hname]
        · rw [if_neg hk,if_neg hk]

theorem lookup_filter_ne (key k : String) (ms : List (String × Value)) :
    (ms.filter fun m => m.1 ≠ key).lookup k = if k = key then none else ms.lookup k := by
  induction ms with
  | nil => exact (ite_self none).symm
  | cons m ms ih =>
      obtain ⟨name,v⟩ := m
      by_cases hname : name = key
      · rw [List.filter_cons_of_neg (by simpa using hname),ih,lookup_cons_ite,hname]
        split <;> rfl
      · rw [List.filter_cons_of_pos (by simpa using hname),lookup_cons_ite,lookup_cons_ite,ih]
        by_cases hk : k = name
        · subst hk
          rw [if_pos rfl,if_pos rfl,if_neg hname]
        · rw [if_neg hk,if_neg hk]

section Members
variable {v v' : Value} {key : String} {value : Value}

theorem find?_of_set (h : v.set key value = .ok v') (k : String) :
    v'.find? k = if k = key then some value else v.find? k := by
  cases v with
  | object ms =>
      obtain rfl := Except.ok.inj h
      exact lookup_put key k value ms
  | null =>
      obtain rfl := Except.ok.inj h
      exact lookup_cons_ite key k value []
  | bool | int | string | array => nomatch h

theorem find?_of_erase (h : v.erase key = .ok v') (k : String) :
    v'.find? k = if k = key then none else v.find? k := by
  cases v with
  | object ms =>
      obtain rfl := Except.ok.inj h
      exact lookup_filter_ne key k ms
  | null | bool | int | string | array => nomatch h

theorem find?_putMember {member : Value} (h : v.find? key = some member) (k : String) :
    (v.putMember key value).find? k = if k = key then some value else v.find? k := by
  cases v with
  | object ms => exact lookup_put key k value ms
  | null | bool | int | string | array => nomatch h

theorem at?_eq_ok {member : Value} : v.at? key = .ok member ↔ v.find? key = some member := by
  rw [at?.eq_def]
  cases h : v.find? key with
  | some other => simp
  | none => cases v <;> simp

theorem toText_eq_ok {t : Text} : v.toText = .ok t ↔ v = .string t := by
  cases v <;> simp [toText]

end Members

end Value

/-- The library of these values. It reads the texts of `requests` and the descriptions of
`offers`, and writes no descriptions. -/
@[reducible] def plainJson (requests : List Value) (offers : List (Text × Value)) : JsonLibrary where
  Json := Value
  Error := Text
  what := id
  parse t :=
    match requests.find? fun v => v.dump.toOption = some t with
    | some v => .ok v
    | none => .error (text "[json.exception.parse_error.101] parse error")
  dump := Value.dump
  sdpParse t :=
    match offers.lookup t with
    | some v => .ok v
    | none => .ok (.object [("media",.array [])])
  sdpWrite _ := .error (text "no description")
  null := .null
  ofText := .string
  ofBool := .bool
  ofInt := .int
  array := .array
  object := .object
  find := Value.find?
  atKey := Value.at?
  index := Value.index
  isEmpty v := v.elements.isEmpty
  size v := v.elements.length
  elements := Value.elements
  toText := Value.toText
  toBool := Value.toBool
  toUInt := Value.toUInt
  isText := Value.isText
  isInt := Value.isInt
  set := Value.set
  erase := Value.erase
  retain := Value.retain
  putMember := Value.putMember
  putElement := Value.putElement
  putElements := Value.putElements

/-- The library of these values with a parser and a writer of descriptions. -/
abbrev sdpJson (parse : Text → Except Text Value) (write : Value → Except Text Text) : JsonLibrary :=
  { plainJson [] [] with
    sdpParse := parse
    sdpWrite := write }

/-- What the library reads is what it writes as the same text. -/
theorem plainJson_parse {requests : List Value} {offers : List (Text × Value)} {t : Text}
    {v : Value} (h : (plainJson requests offers).parse t = .ok v) : v.dump = .ok t := by
  change (match requests.find? fun v => v.dump.toOption = some t with
    | some v => Except.ok v
    | none => .error (text "[json.exception.parse_error.101] parse error")) = .ok v at h
  split at h
  · rename_i w hw
    obtain rfl := Except.ok.inj h
    have hdump : w.dump.toOption = some t := by simpa using List.find?_some hw
    cases hd : w.dump with
    | error e =>
        rw [hd] at hdump
        exact absurd hdump (by simp [Except.toOption])
    | ok u =>
        rw [hd] at hdump
        rw [Option.some.inj hdump]
  · exact absurd h (by simp)

/-- A media section of an offer with what each one needs, and more members. -/
def offeredSection (type : String) (members : List (String × Value)) : Value := .object
  ([("type",.string (text type)),("port",.int 9),("direction",.string (text "sendonly")),
    ("setup",.string (text "actpass")),("iceUfrag",.string []),("icePwd",.string []),
    ("fingerprint",.object [("type",.string []),("hash",.string [])])]++members)

/-- An offer of one section. -/
def offerOf (mediaSection : Value) : Value := .object
  [("groups",.array [.object [("type",.string (text "BUNDLE"))]]),("media",.array [mediaSection])]

def rtpmap (payload : ℤ) (codec : String) (rate : ℤ) : Value := .object
  [("payload",.int payload),("codec",.string (text codec)),("rate",.int rate)]

end Ylrtc.Signaling
