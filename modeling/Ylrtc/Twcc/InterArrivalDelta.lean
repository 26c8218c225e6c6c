import Mathlib.Algebra.BigOperators.Group.List.Basic
import Ylrtc.Lib.MachineInt
import Ylrtc.Lib.Run

/-!
# Deltas between groups of packets

`InterArrivalDelta` of `congestion_controller/inter_arrival_delta.cpp`. The class keeps six
numbers of each group; what they are about is the packets of the group. A packet that is sent
after the first packet of its group, but before another one, can complete the group, and the
group that follows then lies before it.
-/
namespace Ylrtc.InterArrivalDelta
open MachineInt Run

abbrev kBurstDeltaThresholdMillis : ℤ := 5
abbrev kMaxBurstDurationMillis : ℤ := 100
abbrev kDefaultSendTimeGroupLengthMillis : ℤ := 5
abbrev kReorderedResetThreshold : ℕ := 3
abbrev kArrivalTimeOffsetThresholdMillis : ℤ := 3000

/-- The arguments of a call. -/
structure Packet where
  sendTimeMillis : ℤ
  arrivalTimeMillis : ℤ
  systemTimeMillis : ℤ
  packetSize : ℕ
  sent : 0 ≤ sendTimeMillis ∧ sendTimeMillis < 2^63
  arrived : 0 ≤ arrivalTimeMillis ∧ arrivalTimeMillis < 2^63
  noticed : 0 ≤ systemTimeMillis ∧ systemTimeMillis < 2^63
  fits : packetSize < 2^64

structure SendTimeGroup where
  size : ℕ := 0
  firstSendTimeMillis : ℤ := -1
  sendTimeMillis : ℤ := -1
  firstArrivalMillis : ℤ := -1
  completeTimeMillis : ℤ := -1
  lastSystemTimeMillis : ℤ := -1
  deriving DecidableEq, Repr

namespace SendTimeGroup

def isFirstPacket (g : SendTimeGroup) : Bool := g.completeTimeMillis = -1

/-- What the first packet of a group sets. -/
def openWith (g : SendTimeGroup) (p : Packet) : SendTimeGroup :=
  { g with firstSendTimeMillis := p.sendTimeMillis, sendTimeMillis := p.sendTimeMillis,
           firstArrivalMillis := p.arrivalTimeMillis }

/-- What every packet of a group sets. -/
def accumulate (g : SendTimeGroup) (p : Packet) : SendTimeGroup :=
  { g with size := (g.size+p.packetSize)%2^64, completeTimeMillis := p.arrivalTimeMillis,
           lastSystemTimeMillis := p.systemTimeMillis }

def belongsToBurst (current : SendTimeGroup) (arrivalTimeMillis sendTimeMillis : ℤ) : Bool :=
  let arrivalTimeDeltaMillis := int64 (arrivalTimeMillis - current.completeTimeMillis)
  let sendTimeDeltaMillis := int64 (sendTimeMillis - current.sendTimeMillis)
  if sendTimeDeltaMillis = 0 then true
  else
    let propagationDelta := int64 (arrivalTimeDeltaMillis - sendTimeDeltaMillis)
    propagationDelta < 0 && arrivalTimeDeltaMillis ≤ kBurstDeltaThresholdMillis &&
      int64 (arrivalTimeMillis - current.firstArrivalMillis) < kMaxBurstDurationMillis

def newTimestampGroup (current : SendTimeGroup) (arrivalTimeMillis sendTimeMillis : ℤ) : Bool :=
  if current.isFirstPacket then false
  else if current.belongsToBurst arrivalTimeMillis sendTimeMillis then false
  else kDefaultSendTimeGroupLengthMillis < int64 (sendTimeMillis - current.firstSendTimeMillis)

end SendTimeGroup

/-- The members of the class. Its window of five milliseconds is a constant. -/
structure State where
  currentTimestampGroup : SendTimeGroup := {}
  prevTimestampGroup : SendTimeGroup := {}
  numConsecutiveReorderedPackets : ℕ := 0
  deriving DecidableEq, Repr

structure Deltas where
  sendTimeDeltaMillis : ℤ
  arrivalTimeDeltaMillis : ℤ
  packetSizeDelta : ℤ
  deriving DecidableEq, Repr

namespace State

/-- The current group becomes the previous one, and a packet begins the next one. -/
def nextGroup (s : State) (p : Packet) : State :=
  { s with prevTimestampGroup := s.currentTimestampGroup,
           currentTimestampGroup :=
             ({ s.currentTimestampGroup.openWith p with size := 0 }).accumulate p }

/-- The deltas of the current group, and `Reset`, if the clock jumped or too many groups in a row
arrived before the previous one. -/
def compareGroups (s : State) (p : Packet) : Option Deltas × State :=
  let current := s.currentTimestampGroup
  let prev := s.prevTimestampGroup
  let sendTimeDeltaMillis := int64 (current.sendTimeMillis - prev.sendTimeMillis)
  let arrivalTimeDeltaMillis := int64 (current.completeTimeMillis - prev.completeTimeMillis)
  let systemTimeDelta := int64 (current.lastSystemTimeMillis - prev.lastSystemTimeMillis)
  if kArrivalTimeOffsetThresholdMillis ≤ int64 (arrivalTimeDeltaMillis - systemTimeDelta) then
    (none,{})
  else if arrivalTimeDeltaMillis < 0 then
    if kReorderedResetThreshold ≤ s.numConsecutiveReorderedPackets+1 then (none,{})
    else (none,{ s with numConsecutiveReorderedPackets := s.numConsecutiveReorderedPackets+1 })
  else
    (some ⟨sendTimeDeltaMillis,arrivalTimeDeltaMillis,int32 (int32 current.size - int32 prev.size)⟩,
      { s.nextGroup p with numConsecutiveReorderedPackets := 0 })

/-- `ComputeDeltas`: the deltas, if it returns true. -/
def computeDeltas (s : State) (p : Packet) : Option Deltas × State :=
  let current := s.currentTimestampGroup
  if current.isFirstPacket then
    (none,{ s with currentTimestampGroup := (current.openWith p).accumulate p })
  else if p.sendTimeMillis < current.firstSendTimeMillis then (none,s)
  else if current.newTimestampGroup p.arrivalTimeMillis p.sendTimeMillis then
    if 0 ≤ s.prevTimestampGroup.completeTimeMillis then s.compareGroups p
    else (none,s.nextGroup p)
  else
    (none,{ s with currentTimestampGroup := ({ current with
      sendTimeMillis := max current.sendTimeMillis p.sendTimeMillis }).accumulate p })

end State

/-! ### The groups themselves -/

/-- The packets of a group: the first one, and the others, the last one first. -/
structure Group where
  first : Packet
  others : List Packet

namespace Group

def packets (g : Group) : List Packet := g.others ++ [g.first]

def last (g : Group) : Packet := g.others.head?.getD g.first

/-- The time at which the last of them was sent. -/
def lastSent (g : Group) : ℤ :=
  g.others.foldr (fun p t => max t p.sendTimeMillis) g.first.sendTimeMillis

def totalSize (g : Group) : ℕ := (g.packets.map Packet.packetSize).sum

/-- What the class keeps of a group. -/
def summary (g : Group) : SendTimeGroup where
  size := g.totalSize%2^64
  firstSendTimeMillis := g.first.sendTimeMillis
  sendTimeMillis := g.lastSent
  firstArrivalMillis := g.first.arrivalTimeMillis
  completeTimeMillis := g.last.arrivalTimeMillis
  lastSystemTimeMillis := g.last.systemTimeMillis

/-- The arrival times of two groups are further apart than the system times. -/
def Jumped (g g' : Group) : Prop :=
  kArrivalTimeOffsetThresholdMillis ≤
    int64 (int64 (g.last.arrivalTimeMillis - g'.last.arrivalTimeMillis) -
      int64 (g.last.systemTimeMillis - g'.last.systemTimeMillis))

instance (g g' : Group) : Decidable (g.Jumped g') :=
  inferInstanceAs (Decidable (_ ≤ _))

end Group

/-- The groups since the last reset: those that were completed, the last one first, and the one
that packets are accumulated in. -/
structure Groups where
  completed : List Group := []
  current : Option Group := none
  reordered : ℕ := 0

namespace Groups

def step (s : Groups) (p : Packet) : Groups :=
  match s.current with
  | none => { s with current := some ⟨p,[]⟩ }
  | some g =>
      if p.sendTimeMillis < g.first.sendTimeMillis then s
      else if g.summary.newTimestampGroup p.arrivalTimeMillis p.sendTimeMillis then
        match s.completed with
        | [] => { s with completed := [g], current := some ⟨p,[]⟩ }
        | g'::_ =>
            if g.Jumped g' then {}
            else if g.last.arrivalTimeMillis < g'.last.arrivalTimeMillis then
              if kReorderedResetThreshold ≤ s.reordered+1 then {}
              else { s with reordered := s.reordered+1 }
            else ⟨g::s.completed,some ⟨p,[]⟩,0⟩
      else { s with current := some ⟨g.first,p::g.others⟩ }

/-- The two groups that a call compares: the one that it completes and the one before. -/
def compared (s : Groups) (p : Packet) : Option (Group × Group) :=
  match s.current,s.completed with
  | some g,g'::_ =>
      if g.first.sendTimeMillis ≤ p.sendTimeMillis ∧
          g.summary.newTimestampGroup p.arrivalTimeMillis p.sendTimeMillis = true ∧
          ¬g.Jumped g' ∧ g'.last.arrivalTimeMillis ≤ g.last.arrivalTimeMillis then some (g,g')
      else none
  | _,_ => none

/-- The members of the class for these groups. -/
def state (s : Groups) : State where
  currentTimestampGroup := (s.current.map Group.summary).getD {}
  prevTimestampGroup := (s.completed.head?.map Group.summary).getD {}
  numConsecutiveReorderedPackets := s.reordered

end Groups

/-- The groups behind a sequence of calls. -/
def groups (before : List Packet) : Groups := run Groups.step {} before

/-- The members of the class behind a sequence of calls. -/
def members (before : List Packet) : State := run (fun s p => (s.computeDeltas p).2) {} before

/-- A call that returns true has the differences of the two groups completed last, and no time
runs backwards. -/
def Right (before : List Packet) (p : Packet) : Prop :=
  ∀ deltas, ((members before).computeDeltas p).1 = some deltas →
    0 ≤ deltas.arrivalTimeDeltaMillis ∧ 0 ≤ deltas.sendTimeDeltaMillis ∧
      ∃ g g' older, (groups (before++[p])).completed = g::g'::older ∧
        deltas.packetSizeDelta = g.totalSize - g'.totalSize

/-- A packet of the first group was sent no earlier than every packet of the second one, and the
difference of the sizes is an `int`. -/
structure Group.Follows (g g' : Group) : Prop where
  sent : ∃ p ∈ g.packets, ∀ q ∈ g'.packets, q.sendTimeMillis ≤ p.sendTimeMillis
  size : -2^31 ≤ (g.totalSize : ℤ) - g'.totalSize ∧ (g.totalSize : ℤ) - g'.totalSize < 2^31

/-! ### The members are those of the groups -/

namespace Group

theorem totalSize_cons (g : Group) (p : Packet) :
    (Group.mk g.first (p::g.others)).totalSize = p.packetSize + g.totalSize := rfl

/-- A group begins with one packet, whatever the size was set to before. -/
theorem summary_single (g : SendTimeGroup) (p : Packet) :
    (Group.mk p []).summary = ({ g.openWith p with size := 0 }).accumulate p := by
  rw [SendTimeGroup.accumulate,Nat.zero_add]
  rfl

/-- A packet is accumulated. -/
theorem summary_cons (g : Group) (p : Packet) :
    (Group.mk g.first (p::g.others)).summary = ({ g.summary with
      sendTimeMillis := max g.summary.sendTimeMillis p.sendTimeMillis }).accumulate p := by
  have hsize : (Group.mk g.first (p::g.others)).totalSize%2^64 =
      (g.totalSize%2^64+p.packetSize)%2^64 := by
    rw [totalSize_cons]
    omega
  rw [summary,hsize]
  rfl

theorem not_isFirstPacket (g : Group) : g.summary.isFirstPacket = false := by
  have harrived := g.last.arrived
  apply decide_eq_false
  change g.last.arrivalTimeMillis ≠ -1
  omega

theorem arrivalDelta (g g' : Group) :
    int64 (g.last.arrivalTimeMillis - g'.last.arrivalTimeMillis) =
      g.last.arrivalTimeMillis - g'.last.arrivalTimeMillis := by
  have harrived := g.last.arrived
  have harrived' := g'.last.arrived
  exact int64_of_range (by omega) (by omega)

/-- What the members give for two groups. -/
def deltas (g g' : Group) : Deltas where
  sendTimeDeltaMillis := int64 (g.lastSent - g'.lastSent)
  arrivalTimeDeltaMillis := int64 (g.last.arrivalTimeMillis - g'.last.arrivalTimeMillis)
  packetSizeDelta := int32 (int32 (g.totalSize%2^64 : ℕ) - int32 (g'.totalSize%2^64 : ℕ))

end Group

namespace Groups

theorem computeDeltas_none {s : Groups} (h : s.current = none) (p : Packet) :
    s.state.computeDeltas p = (none,(s.step p).state) := by
  have hfirst : s.state.currentTimestampGroup = {} := by rw [state,h]; rfl
  rw [State.computeDeltas,hfirst,if_pos (by decide),step,h]
  simp only [state,Option.map_some,Option.getD_some,Group.summary_single {} p]
  rfl

/-- Only a packet that begins a group makes a call compare. -/
theorem compared_eq_none {s : Groups} {g : Group} {p : Packet} (hcurrent : s.current = some g)
    (h : ¬(g.first.sendTimeMillis ≤ p.sendTimeMillis ∧
      g.summary.newTimestampGroup p.arrivalTimeMillis p.sendTimeMillis = true)) :
    s.compared p = none := by
  rw [compared,hcurrent]
  cases s.completed with
  | nil => rfl
  | cons g' older => exact if_neg fun hall => h ⟨hall.1,hall.2.1⟩

theorem state_eq {s : Groups} {g g' : Group} {older : List Group} (hcurrent : s.current = some g)
    (hcompleted : s.completed = g'::older) : s.state = ⟨g.summary,g'.summary,s.reordered⟩ := by
  rw [state,hcurrent,hcompleted]
  rfl

/-- Two groups are compared as their summaries are. -/
theorem compareGroups_state {s : Groups} {g g' : Group} {older : List Group}
    (hcurrent : s.current = some g) (hcompleted : s.completed = g'::older) (p : Packet) :
    s.state.compareGroups p =
      if g.Jumped g' then (none,({} : Groups).state)
      else if g.last.arrivalTimeMillis < g'.last.arrivalTimeMillis then
        if kReorderedResetThreshold ≤ s.reordered+1 then (none,({} : Groups).state)
        else (none,({ s with reordered := s.reordered+1 } : Groups).state)
      else (some (g.deltas g'),(Groups.mk (g::s.completed) (some ⟨p,[]⟩) 0).state) := by
  have hdelta := g.arrivalDelta g'
  rw [state_eq hcurrent hcompleted]
  by_cases hjump : g.Jumped g'
  · rw [if_pos hjump]
    exact if_pos hjump
  rw [if_neg hjump]
  apply (if_neg hjump).trans
  by_cases horder : g.last.arrivalTimeMillis < g'.last.arrivalTimeMillis
  · rw [if_pos horder]
    apply (if_pos (show int64 (g.last.arrivalTimeMillis - g'.last.arrivalTimeMillis) < 0 by
      omega)).trans
    split
    · rfl
    · rw [state,hcurrent,hcompleted]
      rfl
  · rw [if_neg horder]
    apply (if_neg (show ¬int64 (g.last.arrivalTimeMillis - g'.last.arrivalTimeMillis) < 0 by
      omega)).trans
    simp only [state,Option.map_some,Option.getD_some,Group.summary_single g.summary p]
    rfl

/-- A packet of the current group leaves the others as they are. -/
theorem state_push (s : Groups) (g : Group) (p : Packet) :
    ({ s with current := some ⟨g.first,p::g.others⟩ } : Groups).state = { s.state with
      currentTimestampGroup := ({ g.summary with
        sendTimeMillis := max g.summary.sendTimeMillis p.sendTimeMillis }).accumulate p } := by
  simp only [state,Option.map_some,Option.getD_some,g.summary_cons p]

theorem computeDeltas_some {s : Groups} {g : Group} (hcurrent : s.current = some g) (p : Packet) :
    s.state.computeDeltas p =
      if p.sendTimeMillis < g.first.sendTimeMillis then (none,s.state)
      else if g.summary.newTimestampGroup p.arrivalTimeMillis p.sendTimeMillis then
        if 0 ≤ s.state.prevTimestampGroup.completeTimeMillis then s.state.compareGroups p
        else (none,s.state.nextGroup p)
      else (none,({ s with current := some ⟨g.first,p::g.others⟩ } : Groups).state) := by
  have hmember : s.state.currentTimestampGroup = g.summary := by
    rw [state,hcurrent]
    rfl
  rw [state_push,State.computeDeltas,hmember,g.not_isFirstPacket]
  rfl

/-- A call does to the members what it does to the groups. -/
theorem computeDeltas_state (s : Groups) (p : Packet) :
    s.state.computeDeltas p =
      ((s.compared p).map fun pair => pair.1.deltas pair.2,(s.step p).state) := by
  cases hcurrent : s.current with
  | none =>
      rw [computeDeltas_none hcurrent,compared,hcurrent]
      rfl
  | some g =>
      rw [computeDeltas_some hcurrent,step,hcurrent]
      simp only
      by_cases hsent : p.sendTimeMillis < g.first.sendTimeMillis
      · rw [if_pos hsent,if_pos hsent,compared_eq_none hcurrent fun h => absurd hsent (by omega)]
        rfl
      rw [if_neg hsent,if_neg hsent]
      by_cases hnew : g.summary.newTimestampGroup p.arrivalTimeMillis p.sendTimeMillis = true
      · rw [if_pos hnew,if_pos hnew]
        cases hcompleted : s.completed with
        | nil =>
            have hprev : s.state.prevTimestampGroup = {} := by
              rw [state,hcompleted]
              rfl
            rw [hprev,if_neg (by decide),compared,hcurrent,hcompleted]
            simp only [state,hcurrent,hcompleted,State.nextGroup,Option.map_some,Option.getD_some,
              List.head?_cons,Group.summary_single g.summary p]
            rfl
        | cons g' older =>
            have harrived := g'.last.arrived
            have hprev : s.state.prevTimestampGroup = g'.summary := by
              rw [state,hcompleted]
              rfl
            rw [hprev,if_pos (show 0 ≤ g'.summary.completeTimeMillis from harrived.1),
              compareGroups_state hcurrent hcompleted,compared,hcurrent,hcompleted]
            simp only
            by_cases hjump : g.Jumped g'
            · rw [if_pos hjump,if_pos hjump,if_neg fun h => h.2.2.1 hjump]
              rfl
            rw [if_neg hjump,if_neg hjump]
            by_cases horder : g.last.arrivalTimeMillis < g'.last.arrivalTimeMillis
            · have hearlier : ¬g'.last.arrivalTimeMillis ≤ g.last.arrivalTimeMillis := by omega
              rw [if_pos horder,if_pos horder]
              by_cases hreset : kReorderedResetThreshold ≤ s.reordered+1
              · rw [if_pos hreset,if_pos hreset,if_neg fun h => hearlier h.2.2.2]
                rfl
              · rw [if_neg hreset,if_neg hreset,if_neg fun h => hearlier h.2.2.2]
                rfl
            · rw [if_neg horder,if_neg horder,if_pos ⟨by omega,hnew,hjump,by omega⟩]
              rfl
      · rw [if_neg hnew,if_neg hnew,compared_eq_none hcurrent fun h => absurd h.2 hnew]
        rfl

end Groups

/-- The members are those of the groups, in every run. -/
theorem members_eq (before : List Packet) : members before = (groups before).state := by
  induction before using List.reverseRecOn with
  | nil => rfl
  | append_singleton before p ih =>
      rw [members,groups,run_snoc,run_snoc]
      change ((members before).computeDeltas p).2 = _
      rw [ih,Groups.computeDeltas_state]
      rfl

/-! ### What the deltas are -/

namespace Group

theorem lastSent_cons (first p : Packet) (others : List Packet) :
    (Group.mk first (p::others)).lastSent =
      max (Group.mk first others).lastSent p.sendTimeMillis := rfl

theorem le_lastSent {g : Group} {p : Packet} (h : p ∈ g.packets) :
    p.sendTimeMillis ≤ g.lastSent := by
  cases g with
  | mk first others =>
      induction others with
      | nil =>
          rw [List.mem_singleton.mp h]
          exact Int.le_refl _
      | cons q others ih =>
          rw [lastSent_cons]
          cases List.mem_cons.mp h with
          | inl hq =>
              rw [hq]
              exact Int.le_max_right _ _
          | inr hothers => exact Int.le_trans (ih hothers) (Int.le_max_left _ _)

theorem exists_lastSent (g : Group) : ∃ p ∈ g.packets, p.sendTimeMillis = g.lastSent := by
  cases g with
  | mk first others =>
      induction others with
      | nil => exact ⟨first,List.mem_singleton_self _,rfl⟩
      | cons q others ih =>
          rw [lastSent_cons]
          by_cases hle : (Group.mk first others).lastSent ≤ q.sendTimeMillis
          · exact ⟨q,List.mem_cons_self,(Int.max_eq_right hle).symm⟩
          · cases ih with
            | intro p hp =>
                refine ⟨p,List.mem_cons_of_mem _ hp.1,?_⟩
                rw [hp.2,Int.max_eq_left (by omega)]

/-- The later of two groups by their last packets. -/
theorem lastSent_le_iff (g g' : Group) : g'.lastSent ≤ g.lastSent ↔
    ∃ p ∈ g.packets, ∀ q ∈ g'.packets, q.sendTimeMillis ≤ p.sendTimeMillis := by
  constructor
  · intro h
    cases g.exists_lastSent with
    | intro p hp =>
        refine ⟨p,hp.1,fun q hq => ?_⟩
        have hle := le_lastSent hq
        omega
  · intro h
    cases h with
    | intro p hp =>
        cases g'.exists_lastSent with
        | intro q hq =>
            have hle := le_lastSent hp.1
            have hbefore := hp.2 q hq.1
            omega

theorem sendDelta (g g' : Group) : int64 (g.lastSent - g'.lastSent) = g.lastSent - g'.lastSent := by
  cases g.exists_lastSent with
  | intro p hp =>
      cases g'.exists_lastSent with
      | intro q hq =>
          have hsent := p.sent
          have hsent' := q.sent
          exact int64_of_range (by omega) (by omega)

/-- The sizes wrap, and their difference is right if it is an `int`. -/
theorem sizeDelta_iff (a b : ℕ) : int32 (int32 (a%2^64 : ℕ) - int32 (b%2^64 : ℕ)) = a - b ↔
    -2^31 ≤ (a : ℤ) - b ∧ (a : ℤ) - b < 2^31 := by
  have ha := int32_spec (a%2^64 : ℕ)
  have hb := int32_spec (b%2^64 : ℕ)
  have hdelta := int32_spec (int32 (a%2^64 : ℕ) - int32 (b%2^64 : ℕ))
  constructor
  · intro h
    omega
  · intro h
    omega

/-- The deltas of two groups are right exactly when the first one follows. -/
theorem deltas_right_iff {g g' : Group} (h : g'.last.arrivalTimeMillis ≤ g.last.arrivalTimeMillis) :
    (0 ≤ (g.deltas g').arrivalTimeDeltaMillis ∧ 0 ≤ (g.deltas g').sendTimeDeltaMillis ∧
      (g.deltas g').packetSizeDelta = g.totalSize - g'.totalSize) ↔ g.Follows g' := by
  have harrival : 0 ≤ (g.deltas g').arrivalTimeDeltaMillis := by
    change 0 ≤ int64 (g.last.arrivalTimeMillis - g'.last.arrivalTimeMillis)
    rw [arrivalDelta]
    omega
  have hsend : 0 ≤ (g.deltas g').sendTimeDeltaMillis ↔ g'.lastSent ≤ g.lastSent := by
    change 0 ≤ int64 (g.lastSent - g'.lastSent) ↔ _
    rw [sendDelta]
    omega
  have hsize : (g.deltas g').packetSizeDelta = g.totalSize - g'.totalSize ↔
      -2^31 ≤ (g.totalSize : ℤ) - g'.totalSize ∧ (g.totalSize : ℤ) - g'.totalSize < 2^31 := by
    rw [← sizeDelta_iff,deltas]
  rw [hsend,hsize,lastSent_le_iff]
  constructor
  · exact fun h => ⟨h.2.1,h.2.2⟩
  · exact fun h => ⟨harrival,h.sent,h.size⟩

end Group

/-- A call that compares two groups completes the first one. -/
theorem Groups.compared_some {s : Groups} {p : Packet} {g g' : Group}
    (h : s.compared p = some (g,g')) : (∃ older, (s.step p).completed = g::g'::older) ∧
      g'.last.arrivalTimeMillis ≤ g.last.arrivalTimeMillis := by
  cases hcurrent : s.current with
  | none =>
      rw [compared,hcurrent] at h
      exact absurd h nofun
  | some current =>
      cases hcompleted : s.completed with
      | nil =>
          rw [compared,hcurrent,hcompleted] at h
          exact absurd h nofun
      | cons prev older =>
          rw [compared,hcurrent,hcompleted] at h
          simp only [Option.ite_none_right_eq_some,Option.some.injEq,Prod.mk.injEq] at h
          have hall := h.1
          rw [h.2.1,h.2.2] at hall
          rw [step,hcurrent,h.2.1]
          simp only
          rw [if_neg (by omega),if_pos hall.2.1,hcompleted,h.2.2]
          simp only
          rw [if_neg hall.2.2.1,if_neg (by omega)]
          exact ⟨⟨older,rfl⟩,hall.2.2.2⟩

/-- A call is right exactly when the group that it completes follows the one before. -/
theorem right_iff_follows (before : List Packet) (p : Packet) : Right before p ↔
    ∀ g g', (groups before).compared p = some (g,g') → g.Follows g' := by
  have hdeltas : ((members before).computeDeltas p).1 =
      ((groups before).compared p).map fun pair => pair.1.deltas pair.2 := by
    rw [members_eq,Groups.computeDeltas_state]
  have hnext : groups (before++[p]) = (groups before).step p := run_snoc _ _ _ _
  unfold Right
  rw [hdeltas,hnext]
  constructor
  · intro h g g' hcompared
    have hspec := Groups.compared_some hcompared
    rw [hcompared] at h
    have hright := h _ rfl
    cases hspec.1 with
    | intro older hcompleted =>
        rw [hcompleted] at hright
        apply (Group.deltas_right_iff hspec.2).mp
        refine ⟨hright.1,hright.2.1,?_⟩
        cases hright.2.2 with
        | intro g₁ hlast =>
            cases hlast with
            | intro g₂ hlast =>
                cases hlast with
                | intro older' hlast =>
                    simp only [List.cons.injEq] at hlast
                    rw [hlast.2,hlast.1.1,hlast.1.2.1]
  · intro h deltas hsome
    cases hcompared : (groups before).compared p with
    | none =>
        rw [hcompared] at hsome
        exact absurd hsome nofun
    | some pair =>
        have hspec := Groups.compared_some hcompared
        have hright := (Group.deltas_right_iff hspec.2).mpr (h _ _ hcompared)
        rw [hcompared] at hsome
        rw [← Option.some.inj hsome]
        cases hspec.1 with
        | intro older hcompleted =>
            exact ⟨hright.1,hright.2.1,pair.1,pair.2,older,hcompleted,hright.2.2⟩

/-- Every call of a run is right exactly when every group that is completed and compared follows
the one before. -/
theorem run_right_iff_follows (packets : List Packet) : Along Right packets ↔
    Along (fun before p => ∀ g g', (groups before).compared p = some (g,g') → g.Follows g')
      packets := by
  constructor
  · exact fun h => h.mono fun before p => (right_iff_follows before p).mp
  · exact fun h => h.mono fun before p => (right_iff_follows before p).mpr

/-- A packet that is noticed when it arrives. -/
def Packet.at (sendTimeMillis arrivalTimeMillis : ℤ)
    (hsent : 0 ≤ sendTimeMillis ∧ sendTimeMillis < 2^63)
    (harrived : 0 ≤ arrivalTimeMillis ∧ arrivalTimeMillis < 2^63) : Packet :=
  ⟨sendTimeMillis,arrivalTimeMillis,arrivalTimeMillis,1000,hsent,harrived,harrived,by decide⟩

/-- A burst that runs ahead to 50, and a packet of time 10 behind it. -/
def burstAhead : List Packet :=
  [.at 0 0 (by decide) (by decide),.at 50 1 (by decide) (by decide),
    .at 10 60 (by decide) (by decide),.at 20 70 (by decide) (by decide)]

theorem not_right_burstAhead : ¬∀ packets, Along Right packets := by
  intro h
  have hright := (h burstAhead) (burstAhead.take 3) _ [] rfl
  have hdeltas := hright ⟨-40,59,-1000⟩ (by decide)
  exact absurd hdeltas.2.1 (by decide)

end Ylrtc.InterArrivalDelta
