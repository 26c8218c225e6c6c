import Ylrtc.Lib.BinaryRounding
import Ylrtc.Rtcp.Packets

/-!
# NTP times

`NtpTime` of `base/utils.cpp`. Fractions of a second go through `double`, and the integers
that come back are those of exact division: down from milliseconds, and to the nearest
millisecond back.
-/
namespace Ylrtc.RtcpPackets
open BinaryRounding

/-- The result of an operation on `double`. -/
def double (x : ℚ) : ℚ := nearest 53 x

namespace NtpTime

abbrev kFractionsPerSecond : ℕ := 2^32

def kNtpFracPerMs : ℚ := double 4294967.296

def createFromMillis (millis : BitVec 64) : NtpTime where
  seconds := BitVec.ofNat 32 (millis.toNat/1000)
  fractions := BitVec.ofInt 32
    (truncate (double (double ((millis.toNat%1000 : ℕ)/1000)*kFractionsPerSecond)))

def createFromCompactNtp (compactNtp : BitVec 32) : NtpTime where
  seconds := compactNtp >>> 16
  fractions := compactNtp <<< 16

def toMillis (ntp : NtpTime) : ℤ :=
  let fracMs := double (ntp.fractions.toNat/kNtpFracPerMs)
  1000*ntp.seconds.toNat+truncate (double (fracMs+1/2))

def toCompactNtp (ntp : NtpTime) : BitVec 32 := ntp.seconds <<< 16 ||| ntp.fractions >>> 16

/-! ### Rounding -/

theorem double_nonneg {x : ℚ} (hx : 0 ≤ x) : 0 ≤ double x := nearest_nonneg (by decide) hx

/-- A result is at most the fraction above what is rounded. -/
theorem double_le {x : ℚ} (hx : 0 ≤ x) {k : ℕ} (hk : k < 2^53) (j : ℕ) (h : x ≤ k/2^j) :
    double x ≤ k/2^j := nearest_le hx (inFormat_div hk j) h

theorem le_double {x : ℚ} {k : ℕ} (hk : k < 2^53) (j : ℕ) (h : k/2^j ≤ x) : k/2^j ≤ double x :=
  le_nearest (by decide) ((inFormat_div hk j).nonneg.trans h) (inFormat_div hk j) h

/-- Between an integer and the next, by no less than a fraction, rounding keeps the integer. -/
theorem truncate_double {x : ℚ} {n : ℕ} (j : ℕ) (hn : (n+1)*2^j ≤ 2^53) (hlo : n ≤ x)
    (hhi : x+1/2^j ≤ n+1) : truncate (double x) = n := by
  have hpower : 0 < 2^j := Nat.two_pow_pos j
  have hpower' : (0 : ℚ) < 2^j := by exact_mod_cast hpower
  have hle : n+1 ≤ (n+1)*2^j := Nat.le_mul_of_pos_right _ hpower
  obtain ⟨k,hk⟩ : ∃ k, (n+1)*2^j = k+1 := ⟨(n+1)*2^j-1,by omega⟩
  have hcast : ((n : ℚ)+1)*2^j = k+1 := by exact_mod_cast hk
  apply truncate_eq
  · have hbelow := le_double (x := x) (k := n) (by omega) 0 (by simpa using hlo)
    simpa using hbelow
  · have habove : double x ≤ k/2^j := by
      apply double_le ((Nat.cast_nonneg n).trans hlo) (by omega)
      rw [le_div_iff₀ hpower']
      have hscaled := mul_le_mul_of_nonneg_right hhi hpower'.le
      rw [add_mul,div_mul_cancel₀ _ hpower'.ne'] at hscaled
      linarith
    rw [le_div_iff₀ hpower'] at habove
    exact lt_of_mul_lt_mul_right (by linarith) hpower'.le

/-! ### From milliseconds -/

/-- The fraction of a second, rounded down. -/
theorem truncate_fractions {m : ℕ} (hm : m < 1000) :
    truncate (double (double (m/1000)*kFractionsPerSecond)) = (m*2^32/1000 : ℕ) := by
  have hdiv := Nat.div_add_mod (m*2^32) 1000
  have hrest := Nat.mod_lt (m*2^32) (y := 1000) (by decide)
  generalize m*2^32/1000 = n at hdiv ⊢
  have hn : n < 2^32 := by omega
  have hbelow : (n/2^32 : ℚ) ≤ double (m/1000) := by
    apply le_double (by omega)
    rw [div_le_div_iff₀ (by norm_num) (by norm_num)]
    exact_mod_cast (by omega : n*1000 ≤ m*2^32)
  obtain ⟨k,hk⟩ : ∃ k, (n+1)*2^20 = k+1 := ⟨(n+1)*2^20-1,by omega⟩
  have hcast : ((n : ℚ)+1)*2^20 = k+1 := by exact_mod_cast hk
  have habove : double (m/1000) ≤ k/2^52 := by
    apply double_le (by positivity) (by omega)
    rw [div_le_div_iff₀ (by norm_num) (by norm_num)]
    exact_mod_cast (by omega : m*2^52 ≤ k*1000)
  have hpower : ((kFractionsPerSecond : ℕ) : ℚ) = 2^32 := by norm_num
  rw [hpower]
  rw [div_le_iff₀ (by norm_num)] at hbelow
  rw [le_div_iff₀ (by norm_num)] at habove
  apply truncate_double 20 (by omega) hbelow
  linarith

theorem toNat_seconds_createFromMillis (millis : BitVec 64) :
    (createFromMillis millis).seconds.toNat = millis.toNat/1000%2^32 := BitVec.toNat_ofNat ..

theorem toNat_fractions_createFromMillis (millis : BitVec 64) :
    (createFromMillis millis).fractions.toNat = millis.toNat%1000*2^32/1000 := by
  have hm : millis.toNat%1000 < 1000 := Nat.mod_lt _ (by decide)
  rw [createFromMillis,truncate_fractions hm,BitVec.ofInt_natCast,BitVec.toNat_ofNat]
  omega

/-- An NTP time says what its milliseconds are, to the 136 years of an era. -/
theorem createFromMillis_eq_iff (a b : BitVec 64) :
    createFromMillis a = createFromMillis b ↔ a.toNat%(2^32*1000) = b.toNat%(2^32*1000) := by
  have hfields : createFromMillis a = createFromMillis b ↔
      a.toNat/1000%2^32 = b.toNat/1000%2^32 ∧
        a.toNat%1000*2^32/1000 = b.toNat%1000*2^32/1000 := by
    rw [← toNat_seconds_createFromMillis,← toNat_seconds_createFromMillis,
      ← toNat_fractions_createFromMillis,← toNat_fractions_createFromMillis,
      BitVec.toNat_inj,BitVec.toNat_inj]
    constructor
    · exact fun h => ⟨congrArg seconds h,congrArg fractions h⟩
    · rintro ⟨hseconds,hfractions⟩
      cases ha : createFromMillis a
      cases hb : createFromMillis b
      rw [ha,hb] at hseconds hfractions
      exact congrArg₂ NtpTime.mk hseconds hfractions
  have hfraction : a.toNat%1000*2^32/1000 = b.toNat%1000*2^32/1000 ↔
      a.toNat%1000 = b.toNat%1000 := by
    have ha := Nat.mod_lt a.toNat (y := 1000) (by decide)
    have hb := Nat.mod_lt b.toNat (y := 1000) (by decide)
    constructor <;> omega
  have hsplit : ∀ n : ℕ, n%(2^32*1000) = n%1000+1000*(n/1000%2^32) := by
    intro n
    rw [Nat.mul_comm,Nat.mod_mul]
  rw [hfields,hfraction,hsplit,hsplit]
  omega

/-! ### To milliseconds -/

theorem kNtpFracPerMs_eq : kNtpFracPerMs = 4611686018427388/2^30 := by decide +kernel

/-- The times between two milliseconds are rounded to what they are. -/
theorem double_midpoint : ∀ k < 8,
    double (((2*k+1)*2^28 : ℕ)/kNtpFracPerMs) = ((2*k+1)*125 : ℕ)/2 := by decide +kernel

theorem div_kNtpFracPerMs (f : ℕ) :
    (f : ℚ)/kNtpFracPerMs = (f*2^30 : ℕ)/4611686018427388 := by
  rw [kNtpFracPerMs_eq,div_div_eq_mul_div]
  norm_num

theorem div_kNtpFracPerMs_nonneg (f : ℕ) : (0 : ℚ) ≤ f/kNtpFracPerMs := by
  rw [kNtpFracPerMs_eq]
  exact div_nonneg (Nat.cast_nonneg f) (by norm_num)

/-- Half a millisecond more is not below the millisecond that is nearest. -/
theorem millis_below {f n r : ℕ} (hf : f < 2^32) (hdiv : 2^29*n+r = 125*f+2^28)
    (hrest : r < 2^29) : (n : ℚ) ≤ double (f/kNtpFracPerMs)+1/2 := by
  cases n with
  | zero =>
      have hdouble := double_nonneg (div_kNtpFracPerMs_nonneg f)
      rw [Nat.cast_zero]
      linarith
  | succ n =>
      by_cases hr : r = 0
      · have hcoprime : Nat.Coprime (2^28) 125 := by decide
        obtain ⟨q,rfl⟩ : 2^28 ∣ f := hcoprime.dvd_of_dvd_mul_left ⟨2*n+1,by omega⟩
        have hodd : q*125 = 2*n+1 := by omega
        obtain ⟨k,rfl⟩ : ∃ k, q = 2*k+1 := ⟨q/2,by omega⟩
        rw [Nat.mul_comm (2^28),double_midpoint k (by omega),hodd]
        push_cast
        linarith
      · have hbelow : ((2*n+1)*2^29+1 : ℕ)/2^30 ≤ double (f/kNtpFracPerMs) := by
          apply le_double (by omega)
          rw [div_kNtpFracPerMs,div_le_div_iff₀ (by norm_num) (by norm_num)]
          exact_mod_cast (by omega : ((2*n+1)*2^29+1)*4611686018427388 ≤ f*2^30*2^30)
        rw [div_le_iff₀ (by norm_num)] at hbelow
        push_cast at hbelow ⊢
        linarith

theorem truncate_millis (f : ℕ) (hf : f < 2^32) :
    truncate (double (double (f/kNtpFracPerMs)+1/2)) = ((125*f+2^28)/2^29 : ℕ) := by
  have hdiv := Nat.div_add_mod (125*f+2^28) (2^29)
  have hrest := Nat.mod_lt (125*f+2^28) (y := 2^29) (by decide)
  generalize (125*f+2^28)/2^29 = n at hdiv ⊢
  obtain ⟨k,hk⟩ : ∃ k, (2*n+1)*2^28 = k+1 := ⟨(2*n+1)*2^28-1,by omega⟩
  have hcast : (2*(n : ℚ)+1)*2^28 = k+1 := by exact_mod_cast hk
  have habove : double (f/kNtpFracPerMs) ≤ k/2^29 := by
    apply double_le (div_kNtpFracPerMs_nonneg f) (by omega)
    rw [div_kNtpFracPerMs,div_le_div_iff₀ (by norm_num) (by norm_num)]
    exact_mod_cast (by omega : f*2^30*2^29 ≤ k*4611686018427388)
  rw [le_div_iff₀ (by norm_num)] at habove
  apply truncate_double 29 (by omega) (millis_below hf hdiv hrest)
  linarith

theorem toMillis_eq (ntp : NtpTime) :
    ntp.toMillis = 1000*ntp.seconds.toNat+((125*ntp.fractions.toNat+2^28)/2^29 : ℕ) := by
  rw [toMillis,truncate_millis _ ntp.fractions.isLt]

/-- A compact time counts 65536 to the second. -/
theorem toMillis_createFromCompactNtp (compactNtp : BitVec 32) :
    (createFromCompactNtp compactNtp).toMillis = ((1000*compactNtp.toNat+2^15)/2^16 : ℕ) := by
  have hseconds : (createFromCompactNtp compactNtp).seconds.toNat = compactNtp.toNat/2^16 := by
    rw [createFromCompactNtp,BitVec.toNat_ushiftRight,Nat.shiftRight_eq_div_pow]
  have hfractions : (createFromCompactNtp compactNtp).fractions.toNat =
      compactNtp.toNat%2^16*2^16 := by
    rw [createFromCompactNtp,BitVec.toNat_shiftLeft,Nat.shiftLeft_eq]
    omega
  rw [toMillis_eq,hseconds,hfractions]
  omega

end NtpTime
end Ylrtc.RtcpPackets
