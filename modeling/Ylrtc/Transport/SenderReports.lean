import Ylrtc.Lib.MachineInt
import Ylrtc.Rtcp.NtpTime
import Ylrtc.Transport.SubscribeStream

/-!
# Sender reports

`BuildSr` of `transport/subscribe_stream_track.cpp`. The clock is read into an `int`, and both
times of a report are computed from what is left of it: they are those of the clock until it
reaches 2^31, and in one span of an era of NTP if nothing is rounded.
-/
namespace Ylrtc.Subscribe
open MachineInt RtcpHeader RtcpPackets

namespace SubscribeStreamTrack

/-- `BuildSr` of a track with this SSRC. The header is set where the packet is serialized. -/
def buildSr (t : SubscribeStreamTrack) (ssrc : BitVec 32) (header : RtcpCommonHeader)
    (timeMillis : ℤ) : Option SenderReportPacket :=
  if t.lastSendTimestamp = -1 then none
  else
    let nowMillis := int32 timeMillis
    let ntp := NtpTime.createFromMillis (BitVec.ofInt 64 nowMillis)
    let diffInMillis := int64 (nowMillis-t.lastSendTimestamp)
    let diffInClockrate := (int64 (diffInMillis*t.configuration.clockRate.toNat)).tdiv 1000
    some
      { header := header
        senderSsrc := ssrc
        ntpSeconds := ntp.seconds
        ntpFractions := ntp.fractions
        rtpTimestamp := BitVec.ofInt 32 (t.lastRtpTimestamp.toNat+diffInClockrate)
        sendPacketCount := t.packetsSent
        sendOctets := BitVec.ofNat 32 t.mediaBytesSent }

/-- The ticks of the media clock since the last packet, in thousandths. -/
def elapsed (t : SubscribeStreamTrack) (now : ℤ) : ℤ :=
  (now-t.lastSendTimestamp)*t.configuration.clockRate.toNat

/-- Both times of the report are those of the clock. -/
structure ReportsTime (t : SubscribeStreamTrack) (now : ℤ) (sr : SenderReportPacket) : Prop where
  ntp : (⟨sr.ntpSeconds,sr.ntpFractions⟩ : NtpTime) =
    NtpTime.createFromMillis (BitVec.ofInt 64 now)
  rtp : sr.rtpTimestamp = t.lastRtpTimestamp+BitVec.ofInt 32 (t.elapsed now/1000)

/-- The times of an era of NTP that an `int` below zero is taken for. -/
def InWrappedSpan (now : ℤ) : Prop := 296*2^32-2^31 ≤ now ∧ now < 296*2^32

/-! ### The NTP time -/

/-- The clock as an `int`. -/
theorem int32_eq_of_lt {now : ℤ} (hnow : 0 ≤ now) (h : now < 2^31) : int32 now = now :=
  int32_of_range (by omega) (by omega)

theorem int32_of_inWrappedSpan {now : ℤ} (h : InWrappedSpan now) :
    int32 now = now-296*2^32 := by
  have hspec := int32_spec now
  obtain ⟨hlo,hhi⟩ := h
  omega

theorem createFromMillis_int32_iff {now : ℤ} (hnow : 0 ≤ now) (hera : now < 2^32*1000) :
    NtpTime.createFromMillis (BitVec.ofInt 64 (int32 now)) =
        NtpTime.createFromMillis (BitVec.ofInt 64 now) ↔
      now < 2^31 ∨ InWrappedSpan now := by
  obtain ⟨hlo,hhi,hmod⟩ := int32_spec now
  rw [NtpTime.createFromMillis_eq_iff,BitVec.toNat_ofInt,BitVec.toNat_ofInt,InWrappedSpan]
  simp only [Nat.cast_pow,Nat.cast_ofNat]
  rw [Int.emod_eq_of_lt hnow (by omega)]
  by_cases hsign : 0 ≤ int32 now
  · rw [Int.emod_eq_of_lt hsign (by omega)]
    omega
  · have hunsigned : int32 now%2^64 = int32 now+2^64 := by omega
    rw [hunsigned]
    omega

/-! ### The RTP timestamp -/

theorem ofInt_add_eq_iff (b : BitVec 32) (x y : ℤ) :
    BitVec.ofInt 32 (b.toNat+x) = b+BitVec.ofInt 32 y ↔ (x-y)%2^32 = 0 := by
  rw [← BitVec.toNat_inj,BitVec.toNat_add,BitVec.toNat_ofInt,BitVec.toNat_ofInt]
  omega

/-- A whole number of spans is a whole number of timestamps only where nothing is rounded. -/
theorem tdiv_span_iff {a c : ℤ} (h : a-296*2^32*c ≤ 0) :
    ((a-296*2^32*c).tdiv 1000-a/1000)%2^32 = 0 ↔ 125∣c ∧ 1000∣a := by
  have hdiv : (a-296*2^32*c).tdiv 1000 = -((296*2^32*c-a)/1000) := by
    cases h.lt_or_eq with
    | inl hlt => rw [tdiv_of_neg hlt,neg_sub]
    | inr heq =>
        have hneg : 296*2^32*c-a = 0 := by omega
        rw [heq,hneg]
        rfl
  rw [hdiv]
  omega

theorem elapsed_of_inWrappedSpan {t : SubscribeStreamTrack} {now : ℤ}
    (hsent : 0 ≤ t.lastSendTimestamp) (h : InWrappedSpan now) :
    t.elapsed (int32 now) =
        t.elapsed now-296*2^32*(t.configuration.clockRate.toNat : ℤ) ∧
      t.elapsed (int32 now) ≤ 0 := by
  have hsplit := int32_of_inWrappedSpan h
  obtain ⟨hlo,hhi⟩ := h
  constructor
  · rw [elapsed,elapsed,hsplit]
    ring
  · exact mul_nonpos_of_nonpos_of_nonneg (by omega) (Int.natCast_nonneg _)

section Elapsed
variable {t : SubscribeStreamTrack} {now : ℤ} (hsent : 0 ≤ t.lastSendTimestamp)
  (hlast : t.lastSendTimestamp ≤ now) (hera : now < 2^32*1000)
  (hclock : t.configuration.clockRate.toNat < 2^20)
include hsent hlast hera hclock

/-- No 64-bit operation overflows. -/
theorem int64_elapsed {n : ℤ} (hlo : -2^31 ≤ n) (hhi : n < 2^31) :
    int64 (int64 (n-t.lastSendTimestamp)*t.configuration.clockRate.toNat) = t.elapsed n := by
  have hdiff : int64 (n-t.lastSendTimestamp) = n-t.lastSendTimestamp :=
    int64_of_range (by omega) (by omega)
  rw [hdiff,elapsed]
  have hbelow : -(2^32*1000+2^31) ≤ n-t.lastSendTimestamp := by omega
  have habove : n-t.lastSendTimestamp ≤ 2^31 := by omega
  have hrate : (t.configuration.clockRate.toNat : ℤ) < 2^20 := by exact_mod_cast hclock
  have hpos : (0 : ℤ) ≤ t.configuration.clockRate.toNat := Int.natCast_nonneg _
  generalize (t.configuration.clockRate.toNat : ℤ) = c at *
  apply int64_of_range
  · nlinarith
  · nlinarith

/-- The two halves of a report, for the clock as an `int`. -/
theorem buildSr_halves (ssrc : BitVec 32) (header : RtcpCommonHeader) :
    (∃ sr, t.buildSr ssrc header now = some sr ∧ ReportsTime t now sr) ↔
      NtpTime.createFromMillis (BitVec.ofInt 64 (int32 now)) =
          NtpTime.createFromMillis (BitVec.ofInt 64 now) ∧
        ((t.elapsed (int32 now)).tdiv 1000-t.elapsed now/1000)%2^32 = 0 := by
  have hspec := int32_spec now
  have hne : t.lastSendTimestamp ≠ -1 := by omega
  rw [← ofInt_add_eq_iff t.lastRtpTimestamp,
    ← int64_elapsed hsent hlast hera hclock hspec.1 hspec.2.1,buildSr,if_neg hne]
  constructor
  · rintro ⟨sr,hsr,hntp,hrtp⟩
    cases Option.some.inj hsr
    exact ⟨hntp,hrtp⟩
  · rintro ⟨hntp,hrtp⟩
    exact ⟨_,rfl,hntp,hrtp⟩

/-- A report has the times of the clock as long as the clock is an `int`, and in one span
behind if no division rounds. -/
theorem buildSr_times_iff (ssrc : BitVec 32) (header : RtcpCommonHeader) :
    (∃ sr, t.buildSr ssrc header now = some sr ∧ ReportsTime t now sr) ↔
      now < 2^31 ∨ InWrappedSpan now ∧ (125 : ℤ) ∣ t.configuration.clockRate.toNat ∧
        1000 ∣ t.elapsed now := by
  have hnow : 0 ≤ now := hsent.trans hlast
  rw [buildSr_halves hsent hlast hera hclock,createFromMillis_int32_iff hnow hera]
  constructor
  · rintro ⟨hsmall | hspan,hrtp⟩
    · exact .inl hsmall
    · obtain ⟨helapsed,hneg⟩ := elapsed_of_inWrappedSpan hsent hspan
      rw [helapsed] at hrtp hneg
      exact .inr ⟨hspan,(tdiv_span_iff hneg).mp hrtp⟩
  · rintro (hsmall | ⟨hspan,hexact⟩)
    · refine ⟨.inl hsmall,?_⟩
      have hpos : 0 ≤ t.elapsed now := mul_nonneg (by omega) (Int.natCast_nonneg _)
      rw [int32_eq_of_lt hnow hsmall,tdiv_of_nonneg hpos,sub_self]
      rfl
    · obtain ⟨helapsed,hneg⟩ := elapsed_of_inWrappedSpan hsent hspan
      rw [helapsed] at hneg
      rw [helapsed]
      exact ⟨.inr hspan,(tdiv_span_iff hneg).mpr hexact⟩

end Elapsed

theorem buildSr_times_iff_opus :
    ∃ sr, ({ configuration := { clockRate := 48000 }, lastSendTimestamp := 1000 } :
        SubscribeStreamTrack).buildSr 1 ⟨2,0,0,200,6⟩ 1020 = some sr ∧
      ReportsTime { configuration := { clockRate := 48000 }, lastSendTimestamp := 1000 } 1020 sr :=
  (buildSr_times_iff (by decide) (by decide) (by decide) (by decide) 1 ⟨2,0,0,200,6⟩).mpr
    (.inl (by decide))

/-- No report of the year 2023 has the time of the clock. -/
theorem not_buildSr_times : ¬ ∀ (t : SubscribeStreamTrack) (ssrc : BitVec 32)
    (header : RtcpCommonHeader) (now : ℤ), 0 ≤ t.lastSendTimestamp → t.lastSendTimestamp ≤ now →
      now < 2^32*1000 → t.configuration.clockRate.toNat < 2^20 →
        ∃ sr, t.buildSr ssrc header now = some sr ∧ ReportsTime t now sr := by
  intro hall
  have hreport := hall { configuration := { clockRate := 48000 }
                         lastSendTimestamp := 1700000000000 } 1 ⟨2,0,0,200,6⟩ 1700000000000
    (by decide) (by decide) (by decide) (by decide)
  obtain ⟨hntp,_⟩ := (buildSr_halves (by decide) (by decide) (by decide) (by decide) _ _).mp hreport
  cases (createFromMillis_int32_iff (by decide) (by decide)).mp hntp with
  | inl hsmall => exact absurd hsmall (by decide)
  | inr hspan => exact absurd hspan.2 (by decide)

end SubscribeStreamTrack
end Ylrtc.Subscribe
