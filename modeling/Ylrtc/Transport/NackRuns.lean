import Ylrtc.Lib.Run
import Ylrtc.Transport.NackWindow

/-!
# Runs of the NACK requester

Packets carry their unwrapped numbers here, and the history of a run remembers which
were received and which packet a number of the list stands for. Along every run, the
numbers of a gap are listed exactly when the set of recovered numbers mistakes none of
them for a received one, and no batch names a received packet as long as the set still
knows those received ahead of their gap.
-/
namespace Ylrtc.Nack
open Run SearchTree SequenceNumber

/-- A call of `OnReceivedPacket`: the packet, the times it reads, and the shape of the
trees it searches. -/
structure Arrival where
  number : ℤ
  isKeyframe : Bool
  isRecovered : Bool
  createdAt : BitVec 16 → ℤ
  nowMs : ℤ
  descent : Descent (BitVec 16)

inductive Event where
  | packet (a : Arrival)
  | timer (nowMs : ℤ)
  | updateRtt (rttMs : ℤ)

/-- `newest` is the packet that set `newest_seq_num_`, and `standsFor` the one that the
newest number passed over last under a number. -/
structure History where
  requester : NackRequester := {}
  newest : ℤ := 0
  received : List ℤ := []
  standsFor : BitVec 16 → ℤ := fun x => x.toNat

namespace History

def receive (h : History) (a : Arrival) : List Output × NackRequester :=
  (h.requester.onReceivedPacket a.descent (low16 a.number) a.isKeyframe a.isRecovered a.createdAt
    a.nowMs).2

/-- How far a packet is ahead of the newest number. -/
def ahead (h : History) (a : Arrival) : ℤ := serialOffset (low16 a.number) h.requester.newestSeqNum

/-- A packet that moves the newest number from another. -/
def Moves (h : History) (a : Arrival) : Prop :=
  h.requester.initialized = true ∧ a.isRecovered = false ∧ 0 < h.ahead a

instance (h : History) (a : Arrival) : Decidable (h.Moves a) :=
  inferInstanceAs (Decidable (_ ∧ _ ∧ _))

def outputs (h : History) : Event → List Output
  | .packet a => (h.receive a).1
  | .timer nowMs => (h.requester.onTimerTimeout nowMs).1
  | .updateRtt _ => []

def step (h : History) : Event → History
  | .packet a => {
      requester := (h.receive a).2
      newest := if h.requester.initialized = false ∨ h.Moves a then a.number else h.newest
      received := a.number::h.received
      standsFor := fun x =>
        let offset := serialOffset x h.requester.newestSeqNum
        if h.Moves a ∧ 0 < offset ∧ offset < h.ahead a then h.newest + offset
        else h.standsFor x }
  | .timer nowMs => { h with requester := (h.requester.onTimerTimeout nowMs).2 }
  | .updateRtt rttMs => { h with requester := h.requester.updateRtt rttMs }

/-- The unwrapped and the wrapped state agree. -/
structure Consistent (h : History) : Prop where
  newest_eq : h.requester.initialized = true → low16 h.newest = h.requester.newestSeqNum
  listed : h.requester.Listed
  fresh : h.requester.initialized = false → h.requester.nackList = []

section Steps
variable {h : History} {a : Arrival}

theorem behind_of_not_moves (hinit : h.requester.initialized = true) (hnot : ¬h.Moves a) :
    h.ahead a ≤ 0 ∨ a.isRecovered = true := by
  by_contra hboth
  rw [not_or,not_le,Bool.not_eq_true] at hboth
  exact hnot ⟨hinit,hboth.2,hboth.1⟩

theorem consistent_start : Consistent {} where
  newest_eq hinit := by simp at hinit
  listed := within_nil _ _ _
  fresh _ := rfl

theorem moves_iff (hinit : h.requester.initialized = true) :
    h.Moves a ↔ 0 < serialOffset (low16 a.number) h.requester.newestSeqNum ∧
      a.isRecovered = false := by
  rw [Moves,ahead,and_comm (a := a.isRecovered = false)]
  exact and_iff_right hinit

theorem Consistent.packet (hc : Consistent h) (a : Arrival) : Consistent (h.step (.packet a)) := by
  have hwindow := onReceivedPacket_window a.createdAt a.isKeyframe a.isRecovered a.nowMs
    (d := a.descent) (m := low16 a.number) hc.listed hc.fresh
  refine ⟨fun _ => ?_,hwindow.2.2,fun hnot => ?_⟩
  · simp only [step,receive]
    rw [hwindow.2.1]
    cases hinit : h.requester.initialized with
    | false => simp only [true_or,if_true]
    | true =>
        simp only [Bool.true_eq_false,false_or,moves_iff hinit]
        split
        · rfl
        · exact hc.newest_eq hinit
  · exact absurd (hwindow.1.symm.trans hnot) Bool.false_ne_true.symm

theorem Consistent.step (hc : Consistent h) (e : Event) : Consistent (h.step e) := by
  cases e with
  | packet a => exact hc.packet a
  | timer nowMs =>
      refine ⟨hc.newest_eq,Within.sublist hc.listed (nackBatch_sublist _ _ _ _),fun hinit => ?_⟩
      simp only [History.step,NackRequester.onTimerTimeout,NackRequester.getNackBatch]
      rw [hc.fresh hinit]
      rfl
  | updateRtt rttMs => exact ⟨hc.newest_eq,hc.listed,hc.fresh⟩

theorem consistent_run (es : List Event) : Consistent (run step {} es) :=
  run_invariant consistent_start (fun _ e hc => hc.step e) es

/-! ### Gaps -/

/-- A normal packet moves the newest number over a gap, and the list is not cleared. -/
def Opens (h : History) (a : Arrival) : Prop :=
  h.Moves a ∧ .requestKeyFrame ∉ h.outputs (.packet a)

instance (h : History) (a : Arrival) : Decidable (h.Opens a) :=
  inferInstanceAs (Decidable (_ ∧ _))

/-- What an opened gap does to the list. -/
theorem listed_of_opens (hc : Consistent h) (ho : h.Opens a) :
    (∀ u ∈ h.requester.skipped a.descent (low16 a.number),
        u ∈ nackKeys (h.step (.packet a)).requester.nackList) ∧
      ∀ x ∈ nackKeys (h.step (.packet a)).requester.nackList,
        x ∈ nackKeys h.requester.nackList ∨
          x ∈ h.requester.skipped a.descent (low16 a.number) := by
  have hahead := onReceivedPacket_ahead a.createdAt a.isKeyframe a.nowMs (d := a.descent)
    ho.1.1 hc.listed ho.1.2.2
  have hkept := ho.2
  simp only [outputs,receive,ho.1.2.1] at hkept
  simp only [step,receive,ho.1.2.1]
  cases hahead.2.2.2 with
  | inl hcleared => exact absurd hcleared.1 hkept
  | inr hadded => exact ⟨hadded.2.1,hadded.2.2.1⟩

/-- An unwrapped number close to the newest one and its offset. -/
theorem serialOffset_newest (hc : Consistent h) (hinit : h.requester.initialized = true) {u : ℤ}
    (hlo : -32768 < u - h.newest) (hhi : u - h.newest < 32768) :
    serialOffset (low16 u) h.requester.newestSeqNum = u - h.newest := by
  rw [← hc.newest_eq hinit]
  exact serialOffset_low16 u h.newest hlo hhi

/-- The numbers of the gap that the newest number is moved over from `newest` to a packet
less than half the range ahead. -/
structure InGap (h : History) (a : Arrival) (u : ℤ) : Prop where
  opens : h.Opens a
  near : a.number < h.newest+32768
  newest_lt : h.newest < u
  lt_number : u < a.number

/-- The numbers of the gap that were never received are in the list afterwards. -/
def GapListed (h : History) : Event → Prop
  | .packet a => ∀ u, h.InGap a u → u ∉ h.received →
      low16 u ∈ nackKeys (h.step (.packet a)).requester.nackList
  | _ => True

/-- None of them is found among the recovered numbers before the packet. -/
def NoneMistaken (h : History) : Event → Prop
  | .packet a => ∀ u, h.InGap a u → u ∉ h.received →
      contains a.descent isSeqNumLessThan h.requester.recoveredList (low16 u) = false
  | _ => True

theorem mem_list_iff (hc : Consistent h) {u : ℤ} (hu : h.InGap a u) :
    low16 u ∈ nackKeys (h.step (.packet a)).requester.nackList ↔
      contains a.descent isSeqNumLessThan h.requester.recoveredList (low16 u) = false := by
  have hlisted := listed_of_opens hc hu.opens
  have hinit := hu.opens.1.1
  have hnear := hu.near
  have hlo := hu.newest_lt
  have hhi := hu.lt_number
  have hoffset := serialOffset_newest hc hinit (u := u) (by omega) (by omega)
  have hm := serialOffset_newest hc hinit (u := a.number) (by omega) (by omega)
  have hskipped := mem_skipped_iff (d := a.descent) hu.opens.1.2.2 (u := low16 u)
  constructor
  · intro hmem
    cases hlisted.2 _ hmem with
    | inl hold =>
        have := hc.listed.bounds _ hold
        omega
    | inr hnew => exact (hskipped.mp hnew).2
  · intro hnot
    apply hlisted.1
    rw [hskipped]
    exact ⟨⟨by omega,lt_of_lt_of_eq (by omega) hm.symm⟩,hnot⟩

theorem gapListed_iff (hc : Consistent h) (e : Event) : h.GapListed e ↔ h.NoneMistaken e := by
  cases e with
  | packet a =>
      constructor
      · intro hlisted u hu hnever
        exact (mem_list_iff hc hu).mp (hlisted u hu hnever)
      · intro hnone u hu hnever
        exact (mem_list_iff hc hu).mpr (hnone u hu hnever)
  | timer nowMs => exact Iff.rfl
  | updateRtt rttMs => exact Iff.rfl

/-! ### Batches -/

/-- Every entry stands for a packet of its number that was not received. -/
structure Sound (h : History) : Prop where
  consistent : Consistent h
  named : ∀ x ∈ nackKeys h.requester.nackList, low16 (h.standsFor x) = x
  clean : ∀ x ∈ nackKeys h.requester.nackList, h.standsFor x ∉ h.received

/-- A batch names no packet that was received, the one just passed included. -/
def NeverNamed (h : History) (e : Event) : Prop :=
  ∀ names, .requestNack names ∈ h.outputs e →
    ∀ x ∈ names, (h.step e).standsFor x ∉ (h.step e).received

/-- The packets of an opened gap that were already received are found among the
recovered numbers. -/
def Remembered (h : History) : Event → Prop
  | .packet a => h.Opens a → ∀ u ∈ h.received, h.newest < u → u < h.newest + h.ahead a →
      contains a.descent isSeqNumLessThan h.requester.recoveredList (low16 u) = true
  | _ => True

theorem sound_start : Sound {} where
  consistent := consistent_start
  named _ hx := absurd hx List.not_mem_nil
  clean _ hx := absurd hx List.not_mem_nil

/-- The number at an offset from the newest. -/
theorem low16_newest_add (hc : Consistent h) (hinit : h.requester.initialized = true)
    (x : BitVec 16) :
    low16 (h.newest + serialOffset x h.requester.newestSeqNum) = x :=
  low16_add_serialOffset (hc.newest_eq hinit) x

/-- An entry that is left by a packet other than its own. -/
theorem not_mem_received (hs : Sound h) {x : BitVec 16} (hx : x ∈ nackKeys h.requester.nackList)
    (hne : x ≠ low16 a.number) : h.standsFor x ∉ a.number::h.received := by
  rw [List.mem_cons,not_or]
  constructor
  · intro heq
    apply hne
    rw [← heq,hs.named x hx]
  · exact hs.clean x hx

/-- The entries before a packet and the numbers that it adds. -/
theorem standsFor_opens (hs : Sound h) (ho : h.Opens a) (hr : h.Remembered (.packet a))
    {x : BitVec 16} (hx : x ∈ nackKeys h.requester.nackList ∨
      x ∈ h.requester.skipped a.descent (low16 a.number)) :
    low16 ((h.step (.packet a)).standsFor x) = x ∧
      (h.step (.packet a)).standsFor x ∉ (h.step (.packet a)).received := by
  have hahead : 0 < h.ahead a := ho.1.2.2
  simp only [History.step]
  cases hx with
  | inl hold =>
      have hbounds := hs.consistent.listed.bounds x hold
      rw [if_neg (by omega)]
      refine ⟨hs.named x hold,not_mem_received hs hold fun heq => ?_⟩
      rw [History.ahead,← heq] at hahead
      omega
  | inr hnew =>
      have hskipped := (mem_skipped_iff ho.1.2.2).mp hnew
      have hlow := low16_newest_add hs.consistent ho.1.1 x
      rw [if_pos ⟨ho.1,hskipped.1⟩]
      refine ⟨hlow,fun hmem => ?_⟩
      rw [List.mem_cons] at hmem
      cases hmem with
      | inl heq =>
          rw [heq] at hlow
          rw [hlow] at hskipped
          omega
      | inr hreceived =>
          have hfound := hr ho _ hreceived (by omega) (by rw [History.ahead]; omega)
          rw [hlow,hskipped.2] at hfound
          exact Bool.false_ne_true hfound

theorem Sound.packet (hs : Sound h) (hr : h.Remembered (.packet a)) :
    Sound (h.step (.packet a)) ∧ h.NeverNamed (.packet a) := by
  have hconsistent := hs.consistent.packet a
  cases hinit : h.requester.initialized with
  | false =>
      have hfirst := onReceivedPacket_first a.createdAt a.isKeyframe a.isRecovered a.nowMs
        (d := a.descent) (m := low16 a.number) hinit
      have hempty : nackKeys (h.step (.packet a)).requester.nackList = [] := by
        simp only [History.step,receive]
        rw [hfirst.2.2.2,hs.consistent.fresh hinit]
        rfl
      refine ⟨⟨hconsistent,?_,?_⟩,fun names hnames => ?_⟩
      · rw [hempty]
        exact fun x hx => absurd hx List.not_mem_nil
      · rw [hempty]
        exact fun x hx => absurd hx List.not_mem_nil
      · simp only [outputs,receive,hfirst.1] at hnames
        exact absurd hnames List.not_mem_nil
  | true =>
      by_cases hmoves : h.Moves a
      · have hahead := onReceivedPacket_ahead a.createdAt a.isKeyframe a.nowMs (d := a.descent)
          hinit hs.consistent.listed hmoves.2.2
        rw [← hmoves.2.1] at hahead
        cases hahead.2.2.2 with
        | inl hcleared =>
            refine ⟨⟨hconsistent,?_,?_⟩,fun names hnames => ?_⟩
            · simp only [History.step,receive]
              rw [hcleared.2.1]
              exact fun x hx => absurd hx List.not_mem_nil
            · simp only [History.step,receive]
              rw [hcleared.2.1]
              exact fun x hx => absurd hx List.not_mem_nil
            · rw [hcleared.2.2 names hnames]
              exact fun x hx => absurd hx List.not_mem_nil
        | inr hadded =>
            have ho : h.Opens a := ⟨hmoves,hadded.1⟩
            exact ⟨⟨hconsistent,
              fun x hx => (standsFor_opens hs ho hr (hadded.2.2.1 x hx)).1,
              fun x hx => (standsFor_opens hs ho hr (hadded.2.2.1 x hx)).2⟩,
              fun names hnames x hx =>
                (standsFor_opens hs ho hr (hadded.2.2.2 names hnames x hx)).2⟩
      · have hbehind := onReceivedPacket_behind a.createdAt a.isKeyframe a.nowMs (d := a.descent)
          hinit hs.consistent.listed (behind_of_not_moves hinit hmoves)
        have hstands : (h.step (.packet a)).standsFor = h.standsFor := by
          funext x
          simp only [History.step,hmoves,false_and,if_false]
        refine ⟨⟨hconsistent,?_,?_⟩,fun names hnames => ?_⟩
        · intro x hx
          rw [hstands]
          exact hs.named x (hbehind.2.2.2.1.subset hx)
        · intro x hx
          rw [hstands]
          refine not_mem_received hs (hbehind.2.2.2.1.subset hx) fun heq => ?_
          rw [heq] at hx
          exact hbehind.2.2.2.2 hx
        · simp only [outputs,receive,hbehind.1] at hnames
          exact absurd hnames List.not_mem_nil

theorem Sound.step (hs : Sound h) {e : Event} (hr : h.Remembered e) :
    Sound (h.step e) ∧ h.NeverNamed e := by
  cases e with
  | packet a => exact hs.packet hr
  | timer nowMs =>
      have hsublist := nackBatch_sublist h.requester .timeOnly nowMs h.requester.nackList
      refine ⟨⟨hs.consistent.step _,fun x hx => hs.named x (hsublist.subset hx),
        fun x hx => hs.clean x (hsublist.subset hx)⟩,fun names hnames x hx => ?_⟩
      rw [mem_requestNack hnames] at hx
      exact hs.clean x (mem_of_mem_nackBatch hx)
  | updateRtt rttMs =>
      refine ⟨⟨hs.consistent.step _,hs.named,hs.clean⟩,fun names hnames => ?_⟩
      exact absurd hnames List.not_mem_nil

/-- A gap with a forgotten packet puts that packet into the list, so no weaker condition
keeps the list sound. -/
theorem remembered_of_sound_step (hs : Sound h) {e : Event} (hstep : Sound (h.step e)) :
    h.Remembered e := by
  cases e with
  | packet a =>
      intro ho u hreceived hlo hhi
      have hspec := serialOffset_spec (low16 a.number) h.requester.newestSeqNum
      have hoffset := serialOffset_newest hs.consistent ho.1.1 (u := u) (by omega)
        (by rw [ahead] at hhi; omega)
      by_contra hnot
      rw [Bool.not_eq_true] at hnot
      have hskipped : low16 u ∈ h.requester.skipped a.descent (low16 a.number) := by
        rw [mem_skipped_iff ho.1.2.2]
        exact ⟨⟨by omega,by rw [ahead] at hhi; omega⟩,hnot⟩
      apply hstep.clean _ ((listed_of_opens hs.consistent ho).1 _ hskipped)
      simp only [History.step]
      rw [if_pos ⟨ho.1,by omega,by omega⟩,hoffset,List.mem_cons]
      right
      rw [show h.newest + (u - h.newest) = u by omega]
      exact hreceived
  | timer nowMs => trivial
  | updateRtt rttMs => trivial

end Steps
end History
open History

/-- In every run: the never received numbers of each gap are listed after it exactly when
none of them is found among the recovered before it. -/
theorem run_gapListed_iff (es : List Event) :
    Along (fun before e => GapListed (run step {} before) e) es ↔
      Along (fun before e => NoneMistaken (run step {} before) e) es := by
  constructor
  · intro h
    exact h.mono fun before e => (gapListed_iff (consistent_run before) e).mp
  · intro h
    exact h.mono fun before e => (gapListed_iff (consistent_run before) e).mpr

/-- Every packet is less than half the range ahead of the newest one. -/
def Near (h : History) : Event → Prop
  | .packet a => h.requester.initialized = true → a.number < h.newest+32768
  | _ => True

def arrive (number nowMs : ℤ) (isRecovered : Bool) : Event :=
  .packet ⟨number,false,isRecovered,fun _ => nowMs,nowMs,.leftmost⟩

/-- Packet 5 comes as recovered; a cycle later packet 65541 is lost and never listed. -/
theorem not_run_gapListed :
    ¬∀ es, Along (fun before e => Near (run step {} before) e) es →
      Along (fun before e => GapListed (run step {} before) e) es := by
  intro h
  have hnear : Along (fun before e => Near (run step {} before) e)
      [arrive 0 0 false,arrive 5 0 true,arrive 30000 0 false,arrive 60000 0 false,
        arrive 65540 0 false,arrive 65542 0 false] :=
    along_snoc.mpr ⟨along_snoc.mpr ⟨along_snoc.mpr ⟨along_snoc.mpr ⟨along_snoc.mpr ⟨along_snoc.mpr
      ⟨along_nil _,fun _ => by decide⟩,fun _ => by decide⟩,fun _ => by decide⟩,
      fun _ => by decide⟩,fun _ => by decide⟩,fun _ => by decide⟩
  have hlisted := h _ hnear
    [arrive 0 0 false,arrive 5 0 true,arrive 30000 0 false,arrive 60000 0 false,
      arrive 65540 0 false] (arrive 65542 0 false) [] rfl
  exact absurd (hlisted 65541 ⟨by decide +kernel,by decide,by decide,by decide⟩ (by decide))
    (by decide +kernel)

/-- In every run whose gaps find their received packets among the recovered, no batch
names a received packet. -/
theorem run_neverNamed {es : List Event}
    (h : Along (fun before e => Remembered (run step {} before) e) es) :
    Along (fun before e => NeverNamed (run step {} before) e) es :=
  along_of_invariant sound_start (fun _ _ hs hr => (hs.step hr).1)
    (fun _ _ hs hr => (hs.step hr).2) h

/-- A packet is received ahead of its gap, and the others of the gap are requested. -/
def recoveredRun : List Event :=
  [arrive 0 0 false,arrive 2 0 true,arrive 4 0 false,.timer 200]

theorem run_neverNamed_recovered :
    outputs (run step {} recoveredRun.dropLast) (.timer 200) = [.requestNack [1,3]] ∧
      Along (fun before e => NeverNamed (run step {} before) e) recoveredRun := by
  refine ⟨by decide +kernel,?_⟩
  apply run_neverNamed
  have hgap : Remembered (run step {} [arrive 0 0 false,arrive 2 0 true]) (arrive 4 0 false) := by
    intro _ u hu hlo _
    have hreceived : u = 2 ∨ u = 0 := by simpa [run,step,arrive] using hu
    cases hreceived with
    | inl htwo =>
        rw [htwo]
        decide +kernel
    | inr hzero =>
        rw [hzero] at hlo
        exact absurd hlo (by decide +kernel)
  exact along_snoc.mpr ⟨along_snoc.mpr ⟨along_snoc.mpr ⟨along_snoc.mpr
    ⟨along_nil _,fun ho => absurd ho.1.1 (by decide)⟩,
    fun ho => absurd ho.1.2.1 (by decide)⟩,hgap⟩,trivial⟩

/-- Packet 5 is forgotten when a recovered packet comes 10001 ahead of it, and then
requested. -/
theorem not_run_neverNamed :
    ¬∀ es, Along (fun before e => NeverNamed (run step {} before) e) es := by
  intro h
  have hnever := h
    [arrive 0 0 false,arrive 5 0 true,arrive 10006 0 true,arrive 7 0 false,.timer 200]
    [arrive 0 0 false,arrive 5 0 true,arrive 10006 0 true,arrive 7 0 false] (.timer 200) [] rfl
  exact absurd (hnever [1,2,3,4,5,6] (by decide +kernel) 5 (by decide)) (by decide +kernel)

end Ylrtc.Nack
