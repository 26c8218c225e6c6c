import Ylrtc.Lib.Run
import Ylrtc.Twcc.ArrivalMap

/-!
# Runs of the map of arrival times

`AddPacket`, `RemoveOldPackets` and `EraseTo` in any order. The header promises that the
last packet of the map was received. A map that was emptied keeps its begin, and a packet
two or more before it brings placeholders that nothing follows.
-/
namespace Ylrtc.ArrivalMap
open IndexedDeque Run PacketArrivalTimeMap

inductive Event where
  | addPacket (sequenceNumber : ℤ) (arrivalTimeMs : {t : ℤ // 0 < t})
  | removeOldPackets (sequenceNumber arrivalTimeLimit : ℤ)
  | eraseTo (sequenceNumber : ℤ)
  deriving DecidableEq, Repr

/-- The early return of `AddPacket`: the map does not expand to the left. -/
def Refuses (m : PacketArrivalTimeMap) (sequenceNumber : ℤ) : Prop :=
  m.hasSeenPacket = true ∧ sequenceNumber < m.beginSequenceNumber ∧
    (-(sequenceNumber - m.beginSequenceNumber)).toNat+m.arrivalTimes.items.length >
      kMaxNumberOfPackets

instance (m : PacketArrivalTimeMap) (sequenceNumber : ℤ) : Decidable (Refuses m sequenceNumber) :=
  inferInstanceAs (Decidable (_ ∧ _ ∧ _))

/-- The map beside the time of the latest addition of each number that was stored. -/
structure Recorded where
  map : PacketArrivalTimeMap := {}
  latest : ℤ → Option ℤ := fun _ => none

def step (r : Recorded) : Event → Recorded
  | .addPacket n t => ⟨r.map.addPacket n t,
      if Refuses r.map n then r.latest else fun s => if s = n then some t else r.latest s⟩
  | .removeOldPackets n limit => {r with map := r.map.removeOldPackets n limit}
  | .eraseTo n => {r with map := r.map.eraseTo n}

/-- What is said of the map in every state. -/
structure Right (r : Recorded) : Prop where
  bounded : r.map.arrivalTimes.items.length ≤ kMaxNumberOfPackets
  times : ∀ n, r.map.hasReceived n = true → r.latest n = some (r.map.get n)
  last : r.map.arrivalTimes.items ≠ [] →
    r.map.hasReceived (r.map.endSequenceNumber-1) = true

/-- No packet goes two or more before the begin of a map that was emptied. -/
def Fits (r : Recorded) : Event → Prop
  | .addPacket n _ => ¬(r.map.hasSeenPacket = true ∧ r.map.arrivalTimes.items = [] ∧
      r.map.beginSequenceNumber-kMaxNumberOfPackets ≤ n ∧ n < r.map.beginSequenceNumber-1)
  | _ => True

/-- `Right` by the values, with what the first packet relies on. -/
structure Inv (r : Recorded) : Prop where
  seen : r.map.hasSeenPacket = false → r.map.arrivalTimes.items = []
  bounded : r.map.arrivalTimes.items.length ≤ kMaxNumberOfPackets
  times : ∀ n, r.map.timeAt n ≠ 0 → r.latest n = some (r.map.timeAt n)
  last : EndsReceived r.map.arrivalTimes

theorem Inv.right {r : Recorded} (hI : Inv r) : Right r where
  bounded := hI.bounded
  times n hn := by
    rw [hasReceived_iff] at hn
    rw [hI.times n hn,get_of_begin_le _ (Deque.range_of_value_ne _ hn).1]
  last hne := by
    rw [hasReceived_iff]
    exact hI.last hne

theorem Right.endsReceived {r : Recorded} (h : Right r) : EndsReceived r.map.arrivalTimes :=
  fun hne => (hasReceived_iff _ _).mp (h.last hne)

/-- What `AddPacket` writes: one time, and nothing else but zeros. -/
structure Written (d d' : Deque ℤ) (n t : ℤ) : Prop where
  bounded : d'.items.length ≤ kMaxNumberOfPackets
  self : d'.value n = t
  other : ∀ s, s ≠ n → d'.value s ≠ 0 → d'.value s = d.value s
  last : EndsReceived d'

section Additions
variable {d : Deque ℤ} {n t : ℤ}

theorem written_first (hd : d.items = []) (ht : t ≠ 0) : Written d ⟨n,d.items++[t]⟩ n t := by
  rw [hd,List.nil_append]
  have hself : (⟨n,[t]⟩ : Deque ℤ).value n = t := by
    rw [Deque.value_of_ge _ (Int.le_refl n),Int.sub_self]
    rfl
  have hstop : (⟨n,[t]⟩ : Deque ℤ).stop = n+1 := rfl
  constructor
  case bounded => exact Nat.one_le_two_pow (n := 15)
  case self => exact hself
  case other =>
    intro s hs hne
    have hrange := Deque.range_of_value_ne _ hne
    rw [hstop] at hrange
    change n ≤ s ∧ s < n+1 at hrange
    omega
  case last =>
    intro _
    rw [hstop,Int.add_sub_cancel,hself]
    exact ht

theorem written_put (hlen : d.items.length ≤ kMaxNumberOfPackets) (hend : EndsReceived d)
    (ht : t ≠ 0) (hlo : d.front ≤ n) (hhi : n < d.stop) : Written d (d.put n t) n t := by
  have hvalue := Deque.value_put d hlo hhi t
  constructor
  case bounded => rwa [Deque.put,List.length_set]
  case self => rw [hvalue,if_pos rfl]
  case other => exact fun s hs _ => by rw [hvalue,if_neg hs]
  case last =>
    intro _
    rw [Deque.stop_put,hvalue]
    split
    · exact ht
    · exact hend ((length_pos_iff_stop d).mpr (by omega))

/-- The map expands to the left, onto a map that is not empty or by one packet. -/
theorem written_growFront (hend : EndsReceived d) (ht : t ≠ 0) (hlt : n < d.front)
    (hfit : (-(n-d.front)).toNat+d.items.length ≤ kMaxNumberOfPackets)
    (hclose : d.items = [] → d.front-1 ≤ n) :
    Written d (d.growFront (-(n-d.front)).toNat t) n t := by
  have hk : d.front-(-(n-d.front)).toNat = n := by omega
  have hvalue := Deque.value_growFront d (k := (-(n-d.front)).toNat) (by omega) t
  rw [hk] at hvalue
  constructor
  case bounded =>
    simpa only [Deque.growFront,List.length_set,List.length_append,List.length_replicate] using hfit
  case self => rw [hvalue,if_pos rfl]
  case other => exact fun s hs _ => by rw [hvalue,if_neg hs]
  case last =>
    intro _
    rw [Deque.stop_growFront,hvalue]
    split
    · exact ht
    · rename_i hne
      apply hend
      intro hnil
      have hstop : d.stop = d.front := by simp only [Deque.stop,hnil,List.length_nil]; omega
      have := hclose hnil
      omega

/-- Onto an empty map by two packets or more: the last entry is a placeholder. -/
theorem growFront_gap (hd : d.items = []) (hlt : n < d.front-1) :
    ¬EndsReceived (d.growFront (-(n-d.front)).toNat t) := by
  have hk : d.front-(-(n-d.front)).toNat = n := by omega
  have hvalue := Deque.value_growFront d (k := (-(n-d.front)).toNat) (by omega) t
  have hstop : d.stop = d.front := by simp only [Deque.stop,hd,List.length_nil]; omega
  rw [hk] at hvalue
  intro hend
  apply hend
  · rw [length_pos_iff_stop,Deque.stop_growFront,hstop]
    change d.front-(-(n-d.front)).toNat < d.front
    omega
  · rw [Deque.stop_growFront,hstop,hvalue,if_neg (by omega),
      Deque.value_of_lt _ (by omega)]

theorem written_growBack (hend : EndsReceived d) (ht : t ≠ 0) (hn : d.stop ≤ n) :
    Written d ((makeRoom d n).growBack (n-(makeRoom d n).stop).toNat t) n t := by
  have hstored := growBack_stored (t := t) hend hn
  constructor
  case bounded => exact hstored.length_le
  case self => exact hstored.value_self
  case other => exact fun s hs hne => hstored.value_other s hs (Deque.range_of_value_ne _ hne).1
  case last => exact hstored.endsReceived ht hend fun _ => hn

end Additions

/-- `AddPacket` refuses, or writes the one time. -/
theorem addPacket_written {r : Recorded} (hI : Inv r) {n : ℤ} {t : {t : ℤ // 0 < t}}
    (hfits : Fits r (.addPacket n t)) :
    (Refuses r.map n ∧ r.map.addPacket n t = r.map) ∨ (¬Refuses r.map n ∧
      Written r.map.arrivalTimes (r.map.addPacket n t).arrivalTimes n t ∧
        (r.map.addPacket n t).hasSeenPacket = true) := by
  have ht : (t : ℤ) ≠ 0 := Int.ne_of_gt t.2
  have hstop : r.map.arrivalTimes.stop =
    r.map.arrivalTimes.front+r.map.arrivalTimes.items.length := rfl
  unfold addPacket Refuses
  simp only [Fits,beginSequenceNumber] at hfits ⊢
  cases hseen : r.map.hasSeenPacket with
  | false =>
      right
      exact ⟨fun h => Bool.noConfusion h.1,written_first (hI.seen hseen) ht,rfl⟩
  | true =>
      simp only [Bool.not_true,Bool.false_eq_true,if_false,true_and,hseen] at hfits ⊢
      split_ifs with hin hleft hfull
      · right
        exact ⟨by omega,written_put hI.bounded hI.last ht (by omega) (by omega),rfl⟩
      · exact .inl ⟨⟨by omega,hfull⟩,rfl⟩
      · right
        refine ⟨fun h => hfull h.2,?_,rfl⟩
        apply written_growFront hI.last ht (by omega) (by omega)
        intro hnil
        simp only [hnil,List.length_nil] at hfull
        by_contra hgap
        exact hfits ⟨hnil,by omega,by omega⟩
      · right
        exact ⟨by omega,written_growBack hI.last ht (by omega),rfl⟩

/-- A packet two or more before the begin of an emptied map: placeholders come last. -/
theorem not_right_of_gap {r : Recorded} {n : ℤ} {t : {t : ℤ // 0 < t}}
    (hfits : ¬Fits r (.addPacket n t)) : ¬Right (step r (.addPacket n t)) := by
  rw [Fits,Decidable.not_not] at hfits
  obtain ⟨hseen,hnil,hlo,hhi⟩ := hfits
  intro hright
  have hend := hright.endsReceived
  unfold beginSequenceNumber at hlo hhi
  simp only [step,addPacket,beginSequenceNumber,hseen,Bool.not_true,Bool.false_eq_true,if_false]
    at hend
  rw [if_neg (by omega),if_pos (by omega),if_neg (by rw [hnil,List.length_nil]; omega)] at hend
  exact growFront_gap hnil hhi hend

/-- What drops a prefix of the map drops nothing else. -/
theorem inv_dropFront {r : Recorded} (hI : Inv r) {k : ℕ}
    (hk : k ≤ r.map.arrivalTimes.items.length) :
    Inv {r with map := {r.map with arrivalTimes := r.map.arrivalTimes.dropFront k}} := by
  have hvalue := Deque.value_dropFront r.map.arrivalTimes k
  have hstop := Deque.stop_dropFront r.map.arrivalTimes hk
  constructor
  case seen =>
    intro hseen
    simp only [Deque.dropFront,hI.seen hseen,List.drop_nil]
  case bounded =>
    rw [Deque.dropFront,List.length_drop]
    exact (Nat.sub_le _ _).trans hI.bounded
  case times =>
    intro n hn
    simp only [timeAt,hvalue] at hn ⊢
    split at hn
    · exact absurd rfl hn
    · rename_i hge
      rw [if_neg hge]
      exact hI.times n hn
  case last =>
    intro hne
    rw [length_pos_iff_stop,hstop] at hne
    change r.map.arrivalTimes.front+k < r.map.arrivalTimes.stop at hne
    rw [hstop,hvalue,if_neg (by omega)]
    exact hI.last ((length_pos_iff_stop _).mpr (by omega))

theorem inv_addPacket {r : Recorded} (hI : Inv r) {n : ℤ} {t : {t : ℤ // 0 < t}}
    (hfits : Fits r (.addPacket n t)) : Inv (step r (.addPacket n t)) := by
  rw [step]
  cases addPacket_written hI hfits with
  | inl hrefused =>
      rw [hrefused.2,if_pos hrefused.1]
      exact hI
  | inr hstored =>
      obtain ⟨hnot,hwritten,hseen⟩ := hstored
      rw [if_neg hnot]
      constructor
      case seen => exact fun h => Bool.noConfusion (hseen.symm.trans h)
      case bounded => exact hwritten.bounded
      case times =>
        intro s hs
        simp only [timeAt] at hs ⊢
        split
        · rename_i hsn
          rw [hsn,hwritten.self]
        · rename_i hsn
          have hold := hwritten.other s hsn hs
          rw [hold] at hs ⊢
          exact hI.times s hs
      case last => exact hwritten.last

theorem inv_step (r : Recorded) (e : Event) (hI : Inv r) (hfits : Fits r e) : Inv (step r e) := by
  cases e with
  | addPacket n t => exact inv_addPacket hI hfits
  | removeOldPackets n limit =>
      obtain ⟨k,hk,heq,_⟩ := removeOldPackets_spec r.map n limit
      rw [step,heq]
      exact inv_dropFront hI hk
  | eraseTo n =>
      obtain ⟨k,hk,heq⟩ := eraseTo_spec r.map n
      rw [step,heq]
      exact inv_dropFront hI hk

theorem inv_start : Inv {} := by
  constructor
  case seen => exact fun _ => rfl
  case bounded => exact Nat.zero_le _
  case times =>
    intro n hn
    have hrange := Deque.range_of_value_ne _ hn
    change 0 ≤ n ∧ n < 0 at hrange
    omega
  case last => exact fun h => absurd rfl h

theorem right_step_iff (r : Recorded) (e : Event) (hI : Inv r) : Right (step r e) ↔ Fits r e := by
  constructor
  · intro hright
    cases e with
    | addPacket n t =>
        by_contra hfits
        exact not_right_of_gap hfits hright
    | removeOldPackets n limit => trivial
    | eraseTo n => trivial
  · exact fun hfits => (inv_step r e hI hfits).right

/-- Any calls in any order. -/
theorem run_right_iff (es : List Event) :
    (∀ before after, es = before++after → Right (run step {} before)) ↔
      Along (fun before e => Fits (run step {} before) e) es := by
  rw [reached_iff_along inv_start.right]
  exact along_iff_of_invariant (Q := fun r e => Right (step r e)) inv_start
    (fun r e hI hright => inv_step r e hI ((right_step_iff r e hI).mp hright)) right_step_iff es

/-- A map emptied by `EraseTo`, and a packet two before its begin. -/
theorem run_not_right :
    ¬∀ es : List Event, ∀ before after, es = before++after → Right (run step {} before) := by
  intro h
  have hright := h [.addPacket 10 ⟨1,by decide⟩,.eraseTo 11,.addPacket 9 ⟨2,by decide⟩] _ []
    (List.append_nil _).symm
  exact absurd (hright.last (by decide)) (by decide)

end Ylrtc.ArrivalMap
