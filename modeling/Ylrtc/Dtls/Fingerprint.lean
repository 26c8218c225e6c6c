import Mathlib.Data.List.TakeWhile
import Ylrtc.Lib.BoundedArray
import Ylrtc.Signaling.Json

/-!
# Fingerprints of certificates

`DtlsContext` writes the digest of its certificate for the SDP, and `DtlsTransport` reads the
one of its peer. Each byte is read into four, and the last of 64 is not read at all: a
fingerprint is read back as it was written for each hash but SHA-512, whose bytes are also
written past the array.
-/
namespace Ylrtc.Dtls
open CursorParser Signaling

/-! ### Hashes -/

inductive Hash where
  | kSha1
  | kSha224
  | kSha256
  | kSha384
  | kSha512
  | kUnknown
  deriving DecidableEq

def stringToHash : List (Text × Hash) := [(text "sha-1",.kSha1),(text "sha-224",.kSha224),
  (text "sha-256",.kSha256),(text "sha-384",.kSha384),(text "sha-512",.kSha512)]

def getHashFromString (hashName : Text) : Hash := (stringToHash.lookup hashName).getD .kUnknown

/-- The length of a digest. -/
def Hash.size : Hash → ℕ
  | .kSha1 => 20
  | .kSha224 => 28
  | .kSha256 => 32
  | .kSha384 => 48
  | .kSha512 => 64
  | .kUnknown => 0

/-- `EVP_MAX_MD_SIZE`. -/
abbrev maxMdSize : ℕ := 64

/-! ### The local fingerprint -/

def hexDigit (n : ℕ) : Byte := BitVec.ofNat 8 (if n < 10 then 48+n else 55+n)

/-- `"%.2X"`. -/
def hexByte (b : Byte) : Text := [hexDigit (b.toNat/16),hexDigit (b.toNat%16)]

abbrev HexBuffer : Type := BoundedArray Byte (maxMdSize*3+1)

/-- The loop of `sprintf`, which ends each text with a zero. -/
def printFrom (buffer : HexBuffer) (j : ℕ) : List Byte → HexBuffer
  | [] => buffer
  | b::bs => printFrom (buffer.writeAll (j*3) (hexByte b++[58,0])) (j+1) bs

/-- The fingerprint of `Initialize`, for a digest that is not empty. -/
def hexFingerprint (digest : List Byte) : HexBuffer :=
  (printFrom { cells := Vector.replicate _ 0 } 0 digest).write (digest.length*3-1) 0

/-- A string ends at its first zero. -/
def cString (s : List Byte) : Text := s.takeWhile (· ≠ 0)

/-! ### The remote fingerprint -/

def digit? (c : Byte) : Option (BitVec 32) :=
  if 48 ≤ c.toNat ∧ c.toNat ≤ 57 then some (BitVec.ofNat 32 (c.toNat-48))
  else if 65 ≤ c.toNat ∧ c.toNat ≤ 70 then some (BitVec.ofNat 32 (c.toNat-55))
  else if 97 ≤ c.toNat ∧ c.toNat ≤ 102 then some (BitVec.ofNat 32 (c.toNat-87))
  else none

/-- `sscanf` with `"%02x"`: behind white space, two characters at most, of which the first
may be a sign; `none` where nothing is stored. -/
def scanHex (value : Text) : Option (BitVec 32) :=
  match (value.dropWhile isSpace).take 2 with
  | [a,b] =>
      if a = 45 then (digit? b).map fun y => -y
      else if a = 43 then digit? b
      else
        match digit? a,digit? b with
        | some x,some y => some (16*x+y)
        | some x,none => if a = 48 ∧ (b = 88 ∨ b = 120) then none else some x
        | none,_ => none
  | [a] => digit? a
  | _ => none

/-- An `unsigned int` in memory, its lowest byte first. -/
def unsignedBytes (value : BitVec 32) : List Byte :=
  [value.setWidth 8,(value >>> 8).setWidth 8,(value >>> 16).setWidth 8,(value >>> 24).setWidth 8]

structure DtlsTransport where
  remoteHash : Hash := .kUnknown
  remoteFingerprint : BoundedArray Byte maxMdSize := { cells := Vector.replicate _ 0 }

/-- The loop of `strsep` and `sscanf`. -/
def readFrom (fingerprint : BoundedArray Byte maxMdSize) (pos : ℕ) :
    List Text → BoundedArray Byte maxMdSize
  | [] => fingerprint
  | value::values =>
      if pos = maxMdSize-1 then fingerprint
      else
        match scanHex value with
        | some n => readFrom (fingerprint.writeAll pos (unsignedBytes n)) (pos+1) values
        | none => readFrom fingerprint (pos+1) values

def setRemoteFingerprint (t : DtlsTransport) (hash fingerprint : Text) : DtlsTransport where
  remoteHash := getHashFromString hash
  remoteFingerprint := readFrom t.remoteFingerprint 0 ((cString fingerprint).splitOn 58)

/-- `CheckRemoteCertificate`, where the peer's certificate is known by `X509_digest`. -/
def checkRemoteCertificate (t : DtlsTransport)
    (certificate : Option (Hash → Option (List Byte))) : Bool :=
  match certificate with
  | none => false
  | some x509Digest =>
      if t.remoteHash = .kUnknown then false
      else
        match x509Digest t.remoteHash with
        | some fingerprint => t.remoteFingerprint.cells.toList.take fingerprint.length = fingerprint
        | none => false

/-! ### Digits -/

section Digits
variable {n : ℕ} (h : n < 16)
include h

theorem toNat_hexDigit : (hexDigit n).toNat = if n < 10 then 48+n else 55+n := by
  rw [hexDigit,BitVec.toNat_ofNat]
  split <;> omega

theorem digit?_hexDigit : digit? (hexDigit n) = some (BitVec.ofNat 32 n) := by
  rw [digit?,toNat_hexDigit h]
  by_cases hlow : n < 10
  · rw [if_pos hlow,if_pos (by omega),Nat.add_sub_cancel_left]
  · rw [if_neg hlow,if_neg (by omega),if_pos (by omega),Nat.add_sub_cancel_left]

/-- A digit is none of the characters below the digits, and not the colon. -/
theorem hexDigit_ne {c : Byte} (hc : c.toNat < 48 ∨ c.toNat = 58) : hexDigit n ≠ c := by
  intro heq
  have hdigit := toNat_hexDigit h
  rw [heq] at hdigit
  split at hdigit <;> omega

end Digits

theorem not_mem_hexByte {c : Byte} (hc : c.toNat < 48 ∨ c.toNat = 58) (b : Byte) :
    c ∉ hexByte b := by
  have hhigh := hexDigit_ne (n := b.toNat/16) (by omega) hc
  have hlow := hexDigit_ne (n := b.toNat%16) (by omega) hc
  simp only [hexByte,List.mem_cons,List.not_mem_nil,or_false,not_or]
  exact ⟨hhigh.symm,hlow.symm⟩

theorem isSpace_hexDigit {n : ℕ} (h : n < 16) : isSpace (hexDigit n) = false := by
  have hne := hexDigit_ne h (c := 32) (.inl (by decide))
  have hdigit := toNat_hexDigit h
  rw [isSpace,decide_eq_false_iff_not,not_or]
  refine ⟨hne,?_⟩
  split at hdigit <;> omega

/-- A byte is read as it was written. -/
theorem scanHex_hexByte (b : Byte) : scanHex (hexByte b) = some (b.setWidth 32) := by
  have hhigh : b.toNat/16 < 16 := by omega
  have hlow : b.toNat%16 < 16 := by omega
  have htwo : ((hexByte b).dropWhile isSpace).take 2 =
      [hexDigit (b.toNat/16),hexDigit (b.toNat%16)] := by
    rw [hexByte,List.dropWhile_cons_of_neg (by rw [isSpace_hexDigit hhigh]; decide)]
    rfl
  rw [scanHex,htwo]
  simp only [hexDigit_ne hhigh (c := 45) (.inl (by decide)),
    hexDigit_ne hhigh (c := 43) (.inl (by decide)),if_false,digit?_hexDigit hhigh,
    digit?_hexDigit hlow,Option.some.injEq]
  have hsixteen : (16 : BitVec 32).toNat = 16 := rfl
  apply BitVec.eq_of_toNat_eq
  rw [BitVec.toNat_add,BitVec.toNat_mul,hsixteen,BitVec.toNat_ofNat,BitVec.toNat_ofNat,
    BitVec.toNat_setWidth]
  omega

/-! ### What is written -/

/-- The text of a digest. -/
def joined (digest : List Byte) : Text := List.intercalate [58] (digest.map hexByte)

theorem flatMap_hexByte {digest : List Byte} (h : digest ≠ []) :
    digest.flatMap (fun b => hexByte b++[58]) = joined digest++[58] := by
  induction digest with
  | nil => exact absurd rfl h
  | cons b digest ih =>
      cases digest with
      | nil => simp [joined]
      | cons c digest =>
          rw [List.flatMap_cons,ih (List.cons_ne_nil _ _)]
          simp [joined,List.intercalate_cons_cons]

theorem ne_zero_of_mem_joined {digest : List Byte} (h : digest ≠ []) :
    ∀ c ∈ joined digest, c ≠ 0 := by
  rintro c hc rfl
  have hmem := List.mem_append_left [58] hc
  rw [← flatMap_hexByte h] at hmem
  obtain ⟨b,_,hb⟩ := List.mem_flatMap.mp hmem
  cases List.mem_append.mp hb with
  | inl hhex => exact not_mem_hexByte (.inl (by decide)) b hhex
  | inr hcolon => exact absurd (List.mem_singleton.mp hcolon) (by decide)

theorem cString_joined {digest : List Byte} (h : digest ≠ []) :
    cString (joined digest) = joined digest := by
  rw [cString,List.takeWhile_eq_self_iff]
  simpa using ne_zero_of_mem_joined h

theorem length_flatMap_hexByte (digest : List Byte) :
    (digest.flatMap fun b => hexByte b++[58]).length = digest.length*3 := by
  induction digest with
  | nil => rfl
  | cons b digest ih =>
      rw [List.flatMap_cons,List.length_append,ih,List.length_cons]
      simp only [hexByte,List.length_append,List.length_cons,List.length_nil]
      omega

theorem printFrom_take (buffer : HexBuffer) (j : ℕ) (bs : List Byte)
    (h : (j+bs.length)*3+1 ≤ maxMdSize*3+1) :
    (printFrom buffer j bs).cells.toList.take ((j+bs.length)*3) =
      buffer.cells.toList.take (j*3)++bs.flatMap fun b => hexByte b++[58] := by
  induction bs generalizing buffer j with
  | nil => simp [printFrom]
  | cons b bs ih =>
      rw [List.length_cons] at h
      have hindex : j+(bs.length+1) = j+1+bs.length := by omega
      have hlength : (hexByte b++[58,0]).length = 4 := rfl
      have hstart : (buffer.cells.toList.take (j*3)++(hexByte b++[58])).length = (j+1)*3 := by
        rw [List.length_append,List.length_take,Vector.length_toList,
          Nat.min_eq_left (by omega)]
        change j*3+3 = (j+1)*3
        omega
      have htext : hexByte b++[58,0] = (hexByte b++[58])++[0] := rfl
      rw [printFrom,List.length_cons,hindex,ih _ _ (by omega),
        BoundedArray.toList_writeAll _ (by omega),htext,← List.append_assoc (List.take _ _),
        List.append_assoc _ [0],List.take_left' hstart,List.flatMap_cons,List.append_assoc]

/-- The digest stands in the buffer, and the string ends behind it. -/
theorem cString_hexFingerprint {digest : List Byte} (h : digest ≠ [])
    (hlength : digest.length ≤ maxMdSize) :
    cString (hexFingerprint digest).cells.toList = joined digest := by
  have hpos := List.length_pos_of_ne_nil h
  have hprinted := printFrom_take { cells := Vector.replicate _ 0 } 0 digest (by omega)
  rw [Nat.zero_add,Nat.zero_mul,List.take_zero,List.nil_append,flatMap_hexByte h] at hprinted
  have hend : (joined digest).length = digest.length*3-1 := by
    have hall := length_flatMap_hexByte digest
    rw [flatMap_hexByte h,List.length_append,List.length_singleton] at hall
    omega
  have hjoined : (printFrom { cells := Vector.replicate _ 0 } 0 digest).cells.toList.take
      (digest.length*3-1) = joined digest := by
    have htake := congrArg (List.take (digest.length*3-1)) hprinted
    rw [List.take_take,Nat.min_eq_left (by omega),← hend,List.take_left] at htake
    exact hend ▸ htake
  rw [cString,hexFingerprint,BoundedArray.toList_write _ (by omega),
    List.set_eq_take_append_cons_drop,if_pos (by rw [Vector.length_toList]; omega),hjoined,
    List.takeWhile_append_of_pos (by simpa using ne_zero_of_mem_joined h),
    List.takeWhile_cons_of_neg (by simp),List.append_nil]

/-! ### What is read -/

theorem splitOn_joined {digest : List Byte} (h : digest ≠ []) :
    (joined digest).splitOn 58 = digest.map hexByte := by
  apply List.splitOn_intercalate
  · intro value hvalue
    obtain ⟨b,_,rfl⟩ := List.mem_map.mp hvalue
    exact not_mem_hexByte (.inr (by decide)) b
  · exact fun hnil => h (List.map_eq_nil_iff.mp hnil)

theorem unsignedBytes_byte (b : Byte) : unsignedBytes (b.setWidth 32) = [b,0,0,0] := by
  have hb := b.isLt
  have hnat : (b.setWidth 32).toNat = b.toNat := by
    rw [BitVec.toNat_setWidth]
    omega
  have hlow : (b.setWidth 32).setWidth 8 = b := by
    apply BitVec.eq_of_toNat_eq
    rw [BitVec.toNat_setWidth,hnat]
    omega
  have hshift : ∀ k, 8 ≤ k → ((b.setWidth 32) >>> k).setWidth 8 = (0 : Byte) := by
    intro k hk
    apply BitVec.eq_of_toNat_eq
    rw [BitVec.toNat_setWidth,BitVec.toNat_ushiftRight,hnat,Nat.shiftRight_eq_div_pow,
      Nat.div_eq_of_lt (hb.trans_le (Nat.pow_le_pow_right (by decide) hk))]
    rfl
  rw [unsignedBytes,hlow,hshift 8 (by decide),hshift 16 (by decide),hshift 24 (by decide)]

/-- Bytes up to the third from the end are read where they belong. -/
theorem readFrom_take (fingerprint : BoundedArray Byte maxMdSize) (pos : ℕ) {digest : List Byte}
    (h : pos+digest.length+3 ≤ maxMdSize) :
    (readFrom fingerprint pos (digest.map hexByte)).cells.toList.take (pos+digest.length) =
        fingerprint.cells.toList.take pos++digest ∧
      (readFrom fingerprint pos (digest.map hexByte)).outside = fingerprint.outside := by
  induction digest generalizing fingerprint pos with
  | nil => exact ⟨by simp [readFrom],rfl⟩
  | cons b digest ih =>
      rw [List.length_cons] at h
      have hfits : pos+(unsignedBytes (b.setWidth 32)).length ≤ maxMdSize := by
        change pos+4 ≤ maxMdSize
        omega
      have hstart : (fingerprint.cells.toList.take pos++[b]).length = pos+1 := by
        rw [List.length_append,List.length_take,Vector.length_toList,Nat.min_eq_left (by omega)]
        rfl
      have hstep := ih (fingerprint.writeAll pos (unsignedBytes (b.setWidth 32))) (pos+1)
        (by omega)
      rw [BoundedArray.toList_writeAll _ hfits,BoundedArray.outside_writeAll _ hfits] at hstep
      rw [List.map_cons,readFrom,if_neg (by omega),scanHex_hexByte]
      refine ⟨?_,hstep.2⟩
      rw [List.length_cons,Nat.add_comm digest.length,← Nat.add_assoc]
      refine hstep.1.trans ?_
      have htext : unsignedBytes (b.setWidth 32) = [b]++[0,0,0] := unsignedBytes_byte b
      rw [htext,← List.append_assoc (List.take _ _),List.append_assoc _ [0,0,0],
        List.take_left' hstart,List.append_assoc]
      rfl

theorem prefix_outside_readFrom (fingerprint : BoundedArray Byte maxMdSize) (pos : ℕ)
    (values : List Text) :
    fingerprint.outside <+: (readFrom fingerprint pos values).outside := by
  induction values generalizing fingerprint pos with
  | nil => exact List.prefix_refl _
  | cons value values ih =>
      rw [readFrom]
      split
      · exact List.prefix_refl _
      · split
        · exact (BoundedArray.prefix_outside_writeAll _ _ _).trans (ih _ _)
        · exact ih _ _

/-- The byte before the last two is written past the array. -/
theorem outside_lt_readFrom (fingerprint : BoundedArray Byte maxMdSize) (pos : ℕ)
    (digest : List Byte) (hpos : pos+3 ≤ maxMdSize) (h : maxMdSize < pos+digest.length+3) :
    fingerprint.outside.length <
      (readFrom fingerprint pos (digest.map hexByte)).outside.length := by
  induction digest generalizing fingerprint pos with
  | nil =>
      rw [List.length_nil] at h
      omega
  | cons b digest ih =>
      rw [List.length_cons] at h
      rw [List.map_cons,readFrom,if_neg (by omega),scanHex_hexByte]
      dsimp only
      by_cases hfits : pos+4 ≤ maxMdSize
      · have hlength : pos+(unsignedBytes (b.setWidth 32)).length ≤ maxMdSize := hfits
        rw [← BoundedArray.outside_writeAll fingerprint hlength]
        exact ih _ _ (by omega) (by omega)
      · have hlength : maxMdSize < pos+(unsignedBytes (b.setWidth 32)).length :=
          Nat.lt_of_not_le hfits
        refine Nat.lt_of_lt_of_le
          (BoundedArray.outside_lt_writeAll fingerprint (List.cons_ne_nil _ _) hlength) ?_
        exact (prefix_outside_readFrom _ _ _).length_le

/-! ### A fingerprint of the peer -/

def DtlsTransport.afterFingerprint (t : DtlsTransport) (hashName : Text) (digest : List Byte) :
    DtlsTransport :=
  setRemoteFingerprint t hashName (cString (hexFingerprint digest).cells.toList)

theorem remoteFingerprint_afterFingerprint (t : DtlsTransport) (hashName : Text)
    {digest : List Byte} (h : digest ≠ []) (hlength : digest.length ≤ maxMdSize) :
    (t.afterFingerprint hashName digest).remoteFingerprint =
      readFrom t.remoteFingerprint 0 (digest.map hexByte) := by
  rw [DtlsTransport.afterFingerprint,cString_hexFingerprint h hlength]
  change readFrom _ 0 ((cString (joined digest)).splitOn 58) = _
  rw [cString_joined h,splitOn_joined h]

/-- What a fingerprint of `hash` leaves behind: the digest, written inside the array, and a
transport that takes the certificate it is of. -/
structure FingerprintRead (t t' : DtlsTransport) (hash : Hash) (digest : List Byte) : Prop where
  remoteHash : t'.remoteHash = hash
  remoteFingerprint : t'.remoteFingerprint.cells.toList.take digest.length = digest
  outside : t'.remoteFingerprint.outside = t.remoteFingerprint.outside
  accepted : ∀ x509Digest : Hash → Option (List Byte), x509Digest hash = some digest →
    checkRemoteCertificate t' (some x509Digest) = true

theorem getHashFromString_of_mem {hashName : Text} {hash : Hash}
    (h : (hashName,hash) ∈ stringToHash) : getHashFromString hashName = hash := by
  simp only [stringToHash,List.mem_cons,List.not_mem_nil,or_false,Prod.mk.injEq] at h
  obtain ⟨rfl,rfl⟩ | ⟨rfl,rfl⟩ | ⟨rfl,rfl⟩ | ⟨rfl,rfl⟩ | ⟨rfl,rfl⟩ := h <;> rfl

theorem Hash.size_le (hash : Hash) : hash.size ≤ maxMdSize := by
  cases hash <;> decide

theorem Hash.size_pos_of_mem {hashName : Text} {hash : Hash}
    (h : (hashName,hash) ∈ stringToHash) : 0 < hash.size := by
  simp only [stringToHash,List.mem_cons,List.not_mem_nil,or_false,Prod.mk.injEq] at h
  obtain ⟨_,rfl⟩ | ⟨_,rfl⟩ | ⟨_,rfl⟩ | ⟨_,rfl⟩ | ⟨_,rfl⟩ := h <;> decide

/-- A certificate is taken if its digest stands in the transport. -/
theorem checkRemoteCertificate_of_take {t : DtlsTransport} {digest : List Byte}
    (hhash : t.remoteHash ≠ .kUnknown)
    (h : t.remoteFingerprint.cells.toList.take digest.length = digest)
    {x509Digest : Hash → Option (List Byte)} (hdigest : x509Digest t.remoteHash = some digest) :
    checkRemoteCertificate t (some x509Digest) = true := by
  simp only [checkRemoteCertificate,if_neg hhash,hdigest,h,decide_true]

/-- A fingerprint is read as it was written for each hash but SHA-512. -/
theorem fingerprint_read_iff (t : DtlsTransport) {hashName : Text} {hash : Hash}
    {digest : List Byte} (hname : (hashName,hash) ∈ stringToHash)
    (hlength : digest.length = hash.size) :
    FingerprintRead t (t.afterFingerprint hashName digest) hash digest ↔ hash ≠ .kSha512 := by
  have hpos := Hash.size_pos_of_mem hname
  have hne : digest ≠ [] := List.ne_nil_of_length_pos (hlength ▸ hpos)
  have hknown : hash ≠ .kUnknown := by
    rintro rfl
    exact absurd hpos (by decide)
  have hread := remoteFingerprint_afterFingerprint t hashName hne (hlength ▸ hash.size_le)
  constructor
  case mp =>
    rintro ⟨_,_,houtside,_⟩ rfl
    have hwritten := outside_lt_readFrom t.remoteFingerprint 0 digest (by decide)
      (by rw [hlength]; decide)
    rw [← hread,houtside] at hwritten
    exact Nat.lt_irrefl _ hwritten
  case mpr =>
    intro hhash
    have hfits : 0+digest.length+3 ≤ maxMdSize := by
      rw [hlength]
      cases hash <;> first | decide | exact absurd rfl hhash
    obtain ⟨htake,houtside⟩ := readFrom_take t.remoteFingerprint 0 hfits
    rw [← hread,Nat.zero_add] at htake
    rw [← hread] at houtside
    have hremote := getHashFromString_of_mem hname
    constructor
    case remoteHash => exact hremote
    case remoteFingerprint => exact htake
    case outside => exact houtside
    case accepted =>
      intro x509Digest hdigest
      have hdigest' : x509Digest (t.afterFingerprint hashName digest).remoteHash = some digest := by
        rw [← hdigest]
        exact congrArg x509Digest hremote
      exact checkRemoteCertificate_of_take (fun h => hknown (hremote.symm.trans h)) htake hdigest'

theorem fingerprint_read_iff_sha256 :
    FingerprintRead {} (DtlsTransport.afterFingerprint {} (text "sha-256") (List.replicate 32 171))
      .kSha256 (List.replicate 32 171) :=
  (fingerprint_read_iff {} (by simp [stringToHash]) (by decide)).mpr (by decide)

/-- Two of the bytes of a SHA-512 are written past the array. -/
theorem not_fingerprint_read : ¬ ∀ (t : DtlsTransport) (hashName : Text) (hash : Hash)
    (digest : List Byte), (hashName,hash) ∈ stringToHash → digest.length = hash.size →
      FingerprintRead t (t.afterFingerprint hashName digest) hash digest := by
  intro hall
  have hlength : (List.replicate 64 (171 : Byte)).length = 64 := List.length_replicate
  have hread := hall {} (text "sha-512") .kSha512 (List.replicate 64 171)
    (by simp [stringToHash]) hlength
  have hwritten := outside_lt_readFrom (DtlsTransport.remoteFingerprint {}) 0
    (List.replicate 64 171) (by decide) (by rw [hlength]; decide)
  have hne : List.replicate 64 (171 : Byte) ≠ [] :=
    List.ne_nil_of_length_pos (by rw [hlength]; decide)
  rw [← remoteFingerprint_afterFingerprint {} (text "sha-512") hne hlength.le,hread.outside]
    at hwritten
  exact Nat.lt_irrefl _ hwritten

end Ylrtc.Dtls
