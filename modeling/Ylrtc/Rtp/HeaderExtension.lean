import Mathlib.Data.Int.Basic
import Ylrtc.Base.ByteBuffer

/-!
# RTP header extensions

`rtp_rtcp/rtp_header_extension.cpp`: the table from extension types to negotiated
ids, and the extensions whose values the server reads or writes. An extension
value is read from a pointer into the packet, here the bytes from there on.
-/
namespace Ylrtc.HeaderExtension
open ByteBuffer CursorParser

inductive RTPHeaderExtensionType
  | none | transmissionTimeOffset | audioLevel | csrcAudioLevel | inbandComfortNoise
  | absoluteSendTime | absoluteCaptureTime | videoRotation | transportSequenceNumber
  | transportSequenceNumber02 | playoutDelay | videoContentType | videoLayersAllocation
  | videoTiming | rtpStreamId | repairedRtpStreamId | mid | genericFrameDescriptor00
  | genericFrameDescriptor02 | colorSpace | videoFrameTrackingId
  deriving DecidableEq, Repr

/-- `type_id_map_`. The order matters only where two types have one id, and there
the source's `unordered_map` promises none. -/
structure RtpHeaderExtensionCapability where
  typeIdMap : List (RTPHeaderExtensionType × ℤ) := []
  deriving DecidableEq, Repr

def RtpHeaderExtensionCapability.getTypeId (c : RtpHeaderExtensionCapability)
    (type : RTPHeaderExtensionType) : Option ℤ := c.typeIdMap.lookup type

def RtpHeaderExtensionCapability.getIdType (c : RtpHeaderExtensionCapability) (id : ℤ) :
    Option RTPHeaderExtensionType :=
  (c.typeIdMap.find? fun item => item.2 == id).map Prod.fst

@[simp] theorem getIdType_empty (id : ℤ) :
    RtpHeaderExtensionCapability.getIdType {} id = .none := rfl

@[simp] theorem getTypeId_empty (type : RTPHeaderExtensionType) :
    RtpHeaderExtensionCapability.getTypeId {} type = .none := rfl

/-- `isspace` in the C locale. -/
def isSpace (b : Byte) : Bool := b = 32 || (9 ≤ b && b ≤ 13)

def isDigit (b : Byte) : Bool := 48 ≤ b && b ≤ 57

def digits (data : List Byte) : ℤ :=
  (data.takeWhile isDigit).foldl (fun n b => 10*n + (b.toNat - 48)) 0

/-- `atoi` reads up to the first byte that is no digit, past the extension if its
value ends in one. Numbers outside `int` are undefined in C. -/
def atoi (data : List Byte) : ℤ :=
  match data.dropWhile isSpace with
  | 45::rest => -digits rest
  | 43::rest => digits rest
  | rest => digits rest

/-- `kType` and `Parse` of an extension class. -/
structure Extension (α : Type) where
  kType : RTPHeaderExtensionType
  parse : List Byte → Byte → Option α

/-- `Parse` of the two stream id classes. -/
def parseStreamId (data : List Byte) (size : Byte) : Option (BitVec 32) :=
  if size = 0 || data.getD 0 0 = 0 then .none else
    let rtpStreamId := BitVec.ofInt 32 (atoi data)
    if rtpStreamId = 0 then .none else some rtpStreamId

def rtpStreamIdExtension : Extension (BitVec 32) := ⟨.rtpStreamId,parseStreamId⟩
def repairedRtpStreamIdExtension : Extension (BitVec 32) := ⟨.repairedRtpStreamId,parseStreamId⟩

namespace TransportSequenceNumberExtension

abbrev kType : RTPHeaderExtensionType := .transportSequenceNumber
abbrev kValueSizeBytes : Byte := 2

def parse (data : List Byte) (size : Byte) : Option (BitVec 16) :=
  if size ≠ kValueSizeBytes then .none else some (loadUInt16BE fun i => data.getD i 0)

/-- The bytes from the pointer on, after the call. -/
def serialize (data : List Byte) (size : Byte) (transportSequenceNumber : BitVec 16) : List Byte :=
  if size ≠ kValueSizeBytes then data
  else storeUInt16BE transportSequenceNumber ++ data.drop 2

end TransportSequenceNumberExtension

def transportSequenceNumberExtension : Extension (BitVec 16) :=
  ⟨TransportSequenceNumberExtension.kType,TransportSequenceNumberExtension.parse⟩

theorem loadUInt16BE_storeUInt16BE (v : BitVec 16) (rest : List Byte) :
    (loadUInt16BE fun i => (storeUInt16BE v ++ rest).getD i 0) = v := by
  simp only [storeUInt16BE,loadUInt16BE,List.cons_append,List.nil_append,List.getD_cons_zero,
    List.getD_cons_succ]
  rw [BitVec.extractLsb'_append_extractLsb'_eq_extractLsb' (by rfl)]
  simp

/-- What was written is read back. -/
theorem TransportSequenceNumberExtension.parse_serialized (data : List Byte) (size : Byte)
    (v : BitVec 16) {n : BitVec 16} (h : parse (serialize data size v) size = some n) : n = v := by
  rw [parse,serialize] at h
  split at h
  · simp at h
  · rw [loadUInt16BE_storeUInt16BE,Option.some.injEq] at h
    exact h.symm

end Ylrtc.HeaderExtension
