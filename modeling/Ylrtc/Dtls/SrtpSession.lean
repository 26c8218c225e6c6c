import Ylrtc.Lib.CursorParser

/-!
# SRTP sessions and their keys

`SrtpSession` of `dtls_srtp/srtp_session.cpp`, and the part of
`DtlsTransport::ExtractSrtpParams` that takes the exported material apart. libsrtp
is a library, so it is a parameter. A session remembers the policy that it was
created with.
-/
namespace Ylrtc.Srtp
open CursorParser

inductive CipherSuite where
  | suiteNone
  | suiteAesCm128HmacSha1_80
  | suiteAesCm128HmacSha1_32
  | suiteAeadAes128Gcm
  | suiteAeadAes256Gcm
  deriving DecidableEq, Repr

def strToCipherSuite : List (String × CipherSuite) :=
  [("SRTP_AES128_CM_SHA1_80",.suiteAesCm128HmacSha1_80),
    ("SRTP_AES128_CM_SHA1_32",.suiteAesCm128HmacSha1_32),
    ("SRTP_AEAD_AES_128_GCM",.suiteAeadAes128Gcm),
    ("SRTP_AEAD_AES_256_GCM",.suiteAeadAes256Gcm)]

def getCipherSuiteFromString (str : String) : CipherSuite :=
  (strToCipherSuite.lookup str).getD .suiteNone

structure CipherSuiteKeySaltLength where
  keyLength : ℕ := 0
  saltLength : ℕ := 0

def getSuiteKeySaltLength : CipherSuite → CipherSuiteKeySaltLength
  | .suiteNone => {}
  | .suiteAesCm128HmacSha1_80 => ⟨16,14⟩
  | .suiteAesCm128HmacSha1_32 => ⟨16,14⟩
  | .suiteAeadAes128Gcm => ⟨16,12⟩
  | .suiteAeadAes256Gcm => ⟨32,12⟩

/-! ### The exported material -/

/-- `max_length` of `ExtractSrtpParams`. -/
abbrev maxLength : ℕ := 44

/-- What a `memcpy` of `n` bytes takes out of the material. -/
def cut (material : List Byte) (start n : ℕ) : List Byte := (material.drop start).take n

/-- Key and salt, one behind the other, of the side whose key stands first or second. -/
def masterKey (lengths : CipherSuiteKeySaltLength) (material : List Byte) (second : Bool) :
    List Byte :=
  let key := lengths.keyLength
  let salt := lengths.saltLength
  if second then cut material key key++cut material (2*key+salt) salt
  else cut material 0 key++cut material (2*key) salt

/-- The local and the remote master key. The side that is active has its key first. -/
def masterKeys (active : Bool) (suite : CipherSuite) (material : List Byte) :
    List Byte × List Byte :=
  let lengths := getSuiteKeySaltLength suite
  if active then (masterKey lengths material false,masterKey lengths material true)
  else (masterKey lengths material true,masterKey lengths material false)

/-- What one side sends with is what the other one receives with. -/
theorem masterKeys_swap (active : Bool) (suite : CipherSuite) (material : List Byte) :
    masterKeys (!active) suite material = (masterKeys active suite material).swap := by
  cases active <;> rfl

/-- All four parts lie inside the material, and none of them is short. -/
theorem masterKey_length {suite : CipherSuite} {material : List Byte} (second : Bool)
    (hmaterial : material.length = maxLength*2) :
    (masterKey (getSuiteKeySaltLength suite) material second).length =
      (getSuiteKeySaltLength suite).keyLength+(getSuiteKeySaltLength suite).saltLength := by
  cases second <;> cases suite <;>
    simp only [masterKey,cut,getSuiteKeySaltLength,List.length_append,List.length_take,
      List.length_drop,hmaterial,maxLength,if_true,Bool.false_eq_true,if_false] <;>
    omega

theorem masterKeys_length {suite : CipherSuite} {material : List Byte} (active second : Bool)
    (hmaterial : material.length = maxLength*2) :
    (if second then (masterKeys active suite material).2
      else (masterKeys active suite material).1).length =
      (getSuiteKeySaltLength suite).keyLength+(getSuiteKeySaltLength suite).saltLength := by
  cases active <;> cases second
  · exact masterKey_length true hmaterial
  · exact masterKey_length false hmaterial
  · exact masterKey_length false hmaterial
  · exact masterKey_length true hmaterial

/-! ### Policies -/

/-- What the functions of libsrtp set that are called on a policy. -/
inductive CryptoPolicy where
  | aesCm128HmacSha1_80
  | aesCm128HmacSha1_32
  | aesGcm128_16Auth
  | aesGcm256_16Auth
  deriving DecidableEq, Repr

def CryptoPolicy.authTagLen : CryptoPolicy → ℕ
  | .aesCm128HmacSha1_80 => 10
  | .aesCm128HmacSha1_32 => 4
  | .aesGcm128_16Auth => 16
  | .aesGcm256_16Auth => 16

/-- The bytes of key and salt that libsrtp reads. -/
def CryptoPolicy.cipherKeyLen : CryptoPolicy → ℕ
  | .aesCm128HmacSha1_80 => 30
  | .aesCm128HmacSha1_32 => 30
  | .aesGcm128_16Auth => 28
  | .aesGcm256_16Auth => 44

/-- `srtp_policy_t`; `incoming` is the type of its SSRC. -/
structure Policy where
  rtp : CryptoPolicy
  rtcp : CryptoPolicy
  incoming : Bool
  key : List Byte
  allowRepeatTx : Bool := true
  windowSize : ℕ := 1024
  deriving DecidableEq, Repr

/-- The policy that `Init` makes; `none` for no suite. -/
def policy (incoming : Bool) (suite : CipherSuite) (key : List Byte) : Option Policy :=
  match suite with
  | .suiteAesCm128HmacSha1_80 => some
      { rtp := .aesCm128HmacSha1_80, rtcp := .aesCm128HmacSha1_80, incoming := incoming
        key := key }
  | .suiteAesCm128HmacSha1_32 => some
      { rtp := .aesCm128HmacSha1_32, rtcp := .aesCm128HmacSha1_80, incoming := incoming
        key := key }
  | .suiteAeadAes128Gcm => some
      { rtp := .aesGcm128_16Auth, rtcp := .aesGcm128_16Auth, incoming := incoming, key := key }
  | .suiteAeadAes256Gcm => some
      { rtp := .aesGcm256_16Auth, rtcp := .aesGcm256_16Auth, incoming := incoming, key := key }
  | .suiteNone => none

/-- Both policies read exactly the master key. -/
theorem policy_reads {incoming : Bool} {suite : CipherSuite} {key : List Byte} {p : Policy}
    (h : policy incoming suite key = some p) :
    p.key = key ∧ p.rtp.cipherKeyLen = p.rtcp.cipherKeyLen ∧ p.rtp.cipherKeyLen =
      (getSuiteKeySaltLength suite).keyLength+(getSuiteKeySaltLength suite).saltLength := by
  cases suite <;> cases h <;> exact ⟨rfl,rfl,rfl⟩

/-! ### Sessions -/

/-- libsrtp, with what it keeps of a session. A failed `srtp_create` leaves no session. -/
structure LibSrtp (κ : Type) where
  create : Policy → Option κ
  protect : κ → List Byte → κ × Option (List Byte)
  protectRtcp : κ → List Byte → κ × Option (List Byte)
  unprotect : κ → List Byte → κ × Option (List Byte)
  unprotectRtcp : κ → List Byte → κ × Option (List Byte)

structure Context (κ : Type) where
  policy : Policy
  state : κ
  deriving DecidableEq, Repr

structure SrtpSession (κ : Type) where
  session : Option (Context κ) := none
  rtpAuthTagLen : ℕ := 0
  rtcpAuthTagLen : ℕ := 0
  deriving DecidableEq, Repr

namespace SrtpSession
variable {κ : Type} (lib : LibSrtp κ)

def init (s : SrtpSession κ) (incoming : Bool) (suite : CipherSuite) (key : List Byte) :
    SrtpSession κ × Bool :=
  match policy incoming suite key with
  | none => (s,false)
  | some p =>
      match lib.create p with
      | none => ({ s with session := none },false)
      | some x => (⟨some ⟨p,x⟩,p.rtp.authTagLen,p.rtcp.authTagLen⟩,true)

/-- A packet goes through libsrtp, if there is a session. -/
def through (s : SrtpSession κ) (f : κ → List Byte → κ × Option (List Byte))
    (data : List Byte) : SrtpSession κ × Option (Policy × List Byte) :=
  match s.session with
  | none => (s,none)
  | some c =>
      let (x,out) := f c.state data
      ({ s with session := some ⟨c.policy,x⟩ },out.map fun out => (c.policy,out))

def getProtectRtpNeedLength (s : SrtpSession κ) (len : ℕ) : ℕ := len+s.rtpAuthTagLen

/-- `sizeof(uint32_t)` is for the index that follows an RTCP packet. -/
def getProtectRtcpNeedLength (s : SrtpSession κ) (len : ℕ) : ℕ := len+4+s.rtcpAuthTagLen

def protectRtp (s : SrtpSession κ) (data : List Byte) (maxLen : ℕ) :
    SrtpSession κ × Option (Policy × List Byte) :=
  if maxLen < data.length+s.rtpAuthTagLen then (s,none) else s.through lib.protect data

def protectRtcp (s : SrtpSession κ) (data : List Byte) (maxLen : ℕ) :
    SrtpSession κ × Option (Policy × List Byte) :=
  if maxLen < data.length+4+s.rtcpAuthTagLen then (s,none) else s.through lib.protectRtcp data

def unprotectRtp (s : SrtpSession κ) (data : List Byte) :
    SrtpSession κ × Option (Policy × List Byte) := s.through lib.unprotect data

def unprotectRtcp (s : SrtpSession κ) (data : List Byte) :
    SrtpSession κ × Option (Policy × List Byte) := s.through lib.unprotectRtcp data

/-- The session, if there is one, has the policy `p`. -/
def Under (s : SrtpSession κ) (P : Policy → Prop) : Prop :=
  ∀ c, s.session = some c → P c.policy

variable {lib} {s : SrtpSession κ} {P : Policy → Prop}

theorem Under.mono {Q : Policy → Prop} (h : s.Under P) (hPQ : ∀ p, P p → Q p) : s.Under Q :=
  fun c hc => hPQ _ (h c hc)

/-- A session changes its policy only where it is created. -/
theorem Under.init (h : s.Under P) {incoming : Bool} {suite : CipherSuite} {key : List Byte}
    (hnew : ∀ p, policy incoming suite key = some p → P p) :
    (s.init lib incoming suite key).1.Under P := by
  unfold SrtpSession.init
  cases hpolicy : policy incoming suite key with
  | none => exact h
  | some p =>
      simp only
      cases lib.create p with
      | none =>
          intro c hc
          cases hc
      | some x =>
          intro c hc
          obtain rfl := Option.some.inj hc
          exact hnew p hpolicy

/-- A packet that has gone through a session, and the session behind it. -/
theorem through_spec (h : s.Under P) (f : κ → List Byte → κ × Option (List Byte))
    (data : List Byte) : (s.through f data).1.Under P ∧
      ∀ p out, (s.through f data).2 = some (p,out) → P p := by
  unfold SrtpSession.through
  cases hsession : s.session with
  | none =>
      refine ⟨h,?_⟩
      intro p out hout
      cases hout
  | some c =>
      constructor
      · intro c' hc'
        obtain rfl := Option.some.inj hc'
        exact h c hsession
      · intro p out hout
        obtain ⟨data',_,hp⟩ := Option.map_eq_some_iff.mp hout
        obtain ⟨rfl,_⟩ := Prod.mk.inj hp
        exact h c hsession

/-- The buffers that the callers allocate are long enough. -/
theorem protectRtp_eq (s : SrtpSession κ) (data : List Byte) :
    s.protectRtp lib data (s.getProtectRtpNeedLength data.length) = s.through lib.protect data :=
  if_neg (Nat.lt_irrefl _)

theorem protectRtcp_eq (s : SrtpSession κ) (data : List Byte) :
    s.protectRtcp lib data (s.getProtectRtcpNeedLength data.length) =
      s.through lib.protectRtcp data :=
  if_neg (Nat.lt_irrefl _)

end SrtpSession
end Ylrtc.Srtp
