import Ylrtc.Rtcp.NtpTime

/-!
# Differences of NTP times

The conversions of `NtpTime` with their doubles read as rationals. They are what the doubles
compute. A compact time is rounded down by less than a 65536th of a second, so that two of
them differ, modulo 2^32, by what rounds to the milliseconds between them.
-/
namespace Ylrtc.RtcpPackets
open BinaryRounding

namespace NtpTime

/-! ### Exact conversions -/

/-- `CreateFromMillis`, with a quotient and a product that are not rounded. -/
def createFromMillisExact (millis : BitVec 64) : NtpTime where
  seconds := BitVec.ofNat 32 (millis.toNat/1000)
  fractions := BitVec.ofInt 32 (truncate ((millis.toNat%1000 : ℕ)/1000*kFractionsPerSecond))

/-- `ToMillis`, with a quotient and a sum that are not rounded. -/
def toMillisExact (ntp : NtpTime) : ℤ :=
  let fracMs : ℚ := ntp.fractions.toNat/4294967.296
  1000*ntp.seconds.toNat+truncate (fracMs+1/2)

theorem truncate_div (n d : ℕ) : truncate ((n : ℚ)/d) = (n/d : ℕ) := by
  rw [truncate_of_nonneg (by positivity),Rat.floor_natCast_div_natCast,Int.natCast_ediv]

theorem createFromMillisExact_eq (millis : BitVec 64) :
    createFromMillisExact millis = createFromMillis millis := by
  have hm : millis.toNat%1000 < 1000 := Nat.mod_lt _ (by decide)
  have hfraction : ((millis.toNat%1000 : ℕ)/1000*kFractionsPerSecond : ℚ) =
      (millis.toNat%1000*2^32 : ℕ)/(1000 : ℕ) := by
    rw [div_mul_eq_mul_div]
    push_cast
    rfl
  rw [createFromMillisExact,createFromMillis,truncate_fractions hm,hfraction,truncate_div]

theorem toMillisExact_eq (ntp : NtpTime) : ntp.toMillisExact = ntp.toMillis := by
  have hfraction : (ntp.fractions.toNat/4294967.296+1/2 : ℚ) =
      (125*ntp.fractions.toNat+2^28 : ℕ)/(2^29 : ℕ) := by
    push_cast
    ring
  rw [toMillisExact,toMillis_eq]
  simp only [hfraction,truncate_div]

/-! ### Round trip -/

theorem toMillis_createFromMillis (millis : BitVec 64) :
    (createFromMillis millis).toMillis = (millis.toNat%(2^32*1000) : ℕ) := by
  have hm := Nat.mod_lt millis.toNat (y := 1000) (by decide)
  have hround : (125*(millis.toNat%1000*2^32/1000)+2^28)/2^29 = millis.toNat%1000 := by omega
  rw [toMillis_eq,toNat_seconds_createFromMillis,toNat_fractions_createFromMillis,hround,
    Nat.mul_comm (2^32),Nat.mod_mul]
  push_cast
  ring

/-! ### Compact times -/

/-- A compact time is the number of 65536ths of a second, rounded down, modulo 2^32. -/
theorem toNat_toCompactNtp_createFromMillis (millis : BitVec 64) :
    (createFromMillis millis).toCompactNtp.toNat = 2^16*millis.toNat/1000%2^32 := by
  have hm := Nat.mod_lt millis.toNat (y := 1000) (by decide)
  have hlow : millis.toNat%1000*2^32/1000/2^16 = 2^16*(millis.toNat%1000)/1000 := by
    have hscaled : millis.toNat%1000*2^32 = 2^16*(millis.toNat%1000)*2^16 := by omega
    rw [Nat.div_div_eq_div_mul,hscaled,Nat.mul_div_mul_right _ _ (by decide)]
  have hhigh : ((createFromMillis millis).seconds <<< 16).toNat =
      2^16*(millis.toNat/1000%2^16) := by
    rw [BitVec.toNat_shiftLeft,Nat.shiftLeft_eq,toNat_seconds_createFromMillis]
    omega
  have hsplit : 2^16*millis.toNat/1000 =
      2^16*(millis.toNat/1000)+2^16*(millis.toNat%1000)/1000 := by omega
  have hbound : 2^16*(millis.toNat%1000)/1000 < 2^16 := by omega
  rw [toCompactNtp,BitVec.toNat_or,hhigh,BitVec.toNat_ushiftRight,Nat.shiftRight_eq_div_pow,
    toNat_fractions_createFromMillis,hlow,← Nat.two_pow_add_eq_or_of_lt hbound,hsplit]
  omega

variable {a b : BitVec 64}

/-- Both times are rounded down to a compact time, by less than half a millisecond. -/
theorem toMillis_sub_toCompactNtp (hab : a.toNat ≤ b.toNat)
    (hnear : b.toNat-a.toNat < 2^15*1000) :
    (createFromCompactNtp ((createFromMillis b).toCompactNtp-
      (createFromMillis a).toCompactNtp)).toMillis = b.toNat-a.toNat := by
  have hsub : ((createFromMillis b).toCompactNtp-(createFromMillis a).toCompactNtp).toNat =
      2^16*b.toNat/1000-2^16*a.toNat/1000 := by
    rw [BitVec.toNat_sub,toNat_toCompactNtp_createFromMillis,
      toNat_toCompactNtp_createFromMillis]
    omega
  have hround : (1000*(2^16*b.toNat/1000-2^16*a.toNat/1000)+2^15)/2^16 = b.toNat-a.toNat := by
    omega
  rw [toMillis_createFromCompactNtp,hsub,hround,Nat.cast_sub hab]

theorem exact_roundTrip_and_difference :
    (∀ millis : BitVec 64, millis.toNat < 2^32*1000 →
      (createFromMillisExact millis).toMillisExact = millis.toNat) ∧
    ∀ a b : BitVec 64, a.toNat ≤ b.toNat → b.toNat-a.toNat < 2^15*1000 →
      (createFromCompactNtp ((createFromMillisExact b).toCompactNtp-
        (createFromMillisExact a).toCompactNtp)).toMillisExact = b.toNat-a.toNat := by
  simp only [createFromMillisExact_eq,toMillisExact_eq]
  constructor
  · intro millis hera
    rw [toMillis_createFromMillis,Nat.mod_eq_of_lt hera]
  · intro a b hab hnear
    exact toMillis_sub_toCompactNtp hab hnear

/-- A difference across a wrap of the compact time. -/
theorem exact_roundTrip_and_difference_wrap :
    (createFromMillisExact 4294967295999).toMillisExact = 4294967295999 ∧
      (createFromCompactNtp ((createFromMillisExact 65536001).toCompactNtp-
        (createFromMillisExact 65535998).toCompactNtp)).toMillisExact = 3 :=
  ⟨exact_roundTrip_and_difference.1 4294967295999 (by decide),
    exact_roundTrip_and_difference.2 65535998 65536001 (by decide) (by decide)⟩

end NtpTime
end Ylrtc.RtcpPackets
