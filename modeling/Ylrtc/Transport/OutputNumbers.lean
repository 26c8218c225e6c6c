import Mathlib.Algebra.Order.Group.Unbundled.Abs
import Mathlib.Data.BitVec
import Ylrtc.Transport.SubscribeStream

/-!
# Output sequence numbers across layer switches

At a switch `base_rtp_seq_` is set so that the key frame continues the numbers sent
so far. Packets of the new layer from before the key frame fall into the numbers of
the old layer; as long as none is forwarded, one number means one packet.
-/
namespace Ylrtc.OutputNumbers
open ByteBuffer CursorParser HeaderExtension Packet Run SequenceNumber Subscribe
open RtpPacket SubscribeStream SubscribeStreamTrack

/-- A forwarded packet: its layer, input and output number, and the output number
without wrapping. -/
structure Forwarded where
  layer : Option (BitVec 32)
  input : BitVec 16
  output : BitVec 16
  unwrapped : ℤ
  deriving DecidableEq, Repr

/-- The numbers of one SSRC: the largest so far, that of the key frame of the latest
switch, and all packets. -/
structure Numbering where
  newest : Option ℤ := none
  keyframe : Option ℤ := none
  forwarded : List Forwarded := []
  deriving DecidableEq, Repr

/-- The number closest to the largest one. -/
def Numbering.unwrap (g : Numbering) (output : BitVec 16) : ℤ :=
  match g.newest with
  | none => output.toNat
  | some m => m + serialOffset output (low16 m)

/-- A packet passed to `SendRtpPacket` of the SSRC's track. -/
def forwarded (ssrc : BitVec 32) (s : SubscribeStream) (g : Numbering) (packet : RtpPacket) :
    Option Forwarded :=
  if packet.ssrc ≠ ssrc then none
  else (s.ssrcTrackMap ssrc).map fun track =>
    let output := track.baseRtpSeq + packet.sequenceNumber
    ⟨streamId packet,packet.sequenceNumber,output,g.unwrap output⟩

/-- What an event forwards on an SSRC. -/
def forwards (ssrc : BitVec 32) (s : SubscribeStream) (g : Numbering) : Event → Option Forwarded
  | .receivePublishStreamRtpPacket publisher rtpPacket behind _ =>
      let r := s.selectPacket publisher rtpPacket behind
      r.2.bind (forwarded ssrc r.1 g)
  | _ => none

def Numbering.add (g : Numbering) (f : Forwarded) : Numbering where
  newest := some (match g.newest with
    | none => f.unwrapped
    | some m => max m f.unwrapped)
  keyframe := g.keyframe
  forwarded := g.forwarded++[f]

/-- The numbering after an event. A switch starts at the packet that made it. -/
def Numbering.after (g : Numbering) (f : Option Forwarded) (switched : Bool) : Numbering :=
  match f with
  | none => g
  | some f => add (if switched then { g with keyframe := some f.unwrapped } else g) f

def observe (ssrc : BitVec 32) (s : SubscribeStream) (g : Numbering) (e : Event) : Numbering :=
  g.after (forwards ssrc s g e) ((step s e).currentLayerRid != s.currentLayerRid)

/-- The stream together with the numbering of one SSRC. -/
def observedStep (ssrc : BitVec 32) (o : SubscribeStream × Numbering) (e : Event) :
    SubscribeStream × Numbering := (step o.1 e,observe ssrc o.1 o.2 e)

/-- Packets with a layer are those of one SSRC. -/
def OneSimulcast (configurations : BitVec 32 → Option Configuration) (ssrc : BitVec 32) :
    Event → Prop
  | .receivePublishStreamRtpPacket _ rtpPacket behind _ =>
      ∀ c, configurations rtpPacket.1.ssrc = some c →
        ((streamId { rtpPacket.1.copy behind with
          extensionCapability := c.extensionCapability }).isSome ↔ rtpPacket.1.ssrc = ssrc)
  | _ => True

/-- Nothing older than the key frame of the latest switch is forwarded. -/
def NotLate (ssrc : BitVec 32) (o : SubscribeStream × Numbering) (e : Event) : Prop :=
  ∀ f k, forwards ssrc o.1 o.2 e = some f → o.2.keyframe = some k → k ≤ f.unwrapped

/-- One output number, less than half the range apart, means one packet. -/
def SamePacket (f f' : Forwarded) : Prop :=
  f.output = f'.output → |f.unwrapped - f'.unwrapped| < 32768 →
    f.layer = f'.layer ∧ f.input = f'.input

/-! ### The invariant -/

structure Numbered (configurations : BitVec 32 → Option Configuration) (ssrc : BitVec 32)
    (s : SubscribeStream) (g : Numbering) : Prop where
  configured : ∀ x t, s.ssrcTrackMap x = some t → configurations x = some t.configuration
  first : g.newest = none → g.forwarded = [] ∧
    ∀ t, s.ssrcTrackMap ssrc = some t → t.firstPacket = true
  newest : ∀ m, g.newest = some m → ∀ t, s.ssrcTrackMap ssrc = some t →
    t.firstPacket = false ∧ t.maxRtpSeq = low16 m
  outputs : ∀ f ∈ g.forwarded, f.output = low16 f.unwrapped
  below : ∀ f ∈ g.forwarded, ∀ m, g.newest = some m → f.unwrapped ≤ m
  current : ∀ f ∈ g.forwarded, (∃ k, g.keyframe = some k ∧ f.unwrapped < k) ∨
    ∀ t, s.ssrcTrackMap ssrc = some t →
      f.layer = some s.currentLayerRid ∧ f.output = t.baseRtpSeq + f.input
  same : ∀ f ∈ g.forwarded, ∀ f' ∈ g.forwarded, SamePacket f f'

/-- What the other handlers leave alone. -/
structure SameNumbers (ssrc : BitVec 32) (s s' : SubscribeStream) : Prop where
  currentLayerRid : s'.currentLayerRid = s.currentLayerRid
  configuration : ∀ x t', s'.ssrcTrackMap x = some t' → ∃ t, s.ssrcTrackMap x = some t ∧
    t'.configuration = t.configuration
  numbers : ∀ t', s'.ssrcTrackMap ssrc = some t' → ∃ t, s.ssrcTrackMap ssrc = some t ∧
    t'.baseRtpSeq = t.baseRtpSeq ∧ t'.maxRtpSeq = t.maxRtpSeq ∧ t'.firstPacket = t.firstPacket

theorem SameNumbers.of_eq {ssrc : BitVec 32} {s s' : SubscribeStream}
    (hc : s'.currentLayerRid = s.currentLayerRid) (hm : s'.ssrcTrackMap = s.ssrcTrackMap) :
    SameNumbers ssrc s s' :=
  ⟨hc,fun _ t' h => ⟨t',hm ▸ h,rfl⟩,fun t' h => ⟨t',hm ▸ h,rfl,rfl,rfl⟩⟩

/-- A handler that changes other fields of one track. -/
theorem SameNumbers.of_track {ssrc x : BitVec 32} {s s' : SubscribeStream}
    {t t' : SubscribeStreamTrack} (ht : s.ssrcTrackMap x = some t)
    (hc : s'.currentLayerRid = s.currentLayerRid)
    (hm : s'.ssrcTrackMap = (s.setTrack x t').ssrcTrackMap)
    (hconfiguration : t'.configuration = t.configuration)
    (hnumbers : x = ssrc → t'.baseRtpSeq = t.baseRtpSeq ∧ t'.maxRtpSeq = t.maxRtpSeq ∧
      t'.firstPacket = t.firstPacket) : SameNumbers ssrc s s' := by
  refine ⟨hc,fun y u hu => ?_,fun u hu => ?_⟩
  · rw [hm] at hu
    simp only [setTrack] at hu
    split at hu
    · rename_i hy
      rw [Option.some.injEq] at hu
      exact ⟨t,hy ▸ ht,hu ▸ hconfiguration⟩
    · exact ⟨u,hu,rfl⟩
  · rw [hm] at hu
    simp only [setTrack] at hu
    split at hu
    · rename_i hx
      rw [Option.some.injEq] at hu
      exact ⟨t,hx ▸ ht,hu ▸ hnumbers hx.symm⟩
    · exact ⟨u,hu,rfl,rfl,rfl⟩

theorem Numbered.of_same {configurations : BitVec 32 → Option Configuration} {ssrc : BitVec 32}
    {s s' : SubscribeStream} {g : Numbering} (h : Numbered configurations ssrc s g)
    (hs : SameNumbers ssrc s s') : Numbered configurations ssrc s' g := by
  constructor
  · intro x t' ht'
    obtain ⟨t,ht,hconfiguration⟩ := hs.configuration x t' ht'
    rw [hconfiguration]
    exact h.configured x t ht
  · intro hnone
    refine ⟨(h.first hnone).1,fun t' ht' => ?_⟩
    obtain ⟨t,ht,_,_,hfirst⟩ := hs.numbers t' ht'
    rw [hfirst]
    exact (h.first hnone).2 t ht
  · intro m hm t' ht'
    obtain ⟨t,ht,_,hmax,hfirst⟩ := hs.numbers t' ht'
    rw [hfirst,hmax]
    exact h.newest m hm t ht
  · exact h.outputs
  · exact h.below
  · intro f hf
    cases h.current f hf with
    | inl hold => exact Or.inl hold
    | inr hnew =>
        refine Or.inr fun t' ht' => ?_
        obtain ⟨t,ht,hbase,_,_⟩ := hs.numbers t' ht'
        rw [hs.currentLayerRid,hbase]
        exact hnew t ht
  · exact h.same

/-! ### Numbers -/

/-- The unwrapped number has the right residue. -/
theorem low16_unwrap (g : Numbering) (output : BitVec 16) : low16 (g.unwrap output) = output := by
  rw [Numbering.unwrap]
  cases g.newest with
  | none => exact low16_ofNat output
  | some m =>
      obtain ⟨hm,_⟩ := serialOffset_spec output (low16 m)
      rw [← BitVec.toNat_inj]
      have hl := low16_toNat (m + serialOffset output (low16 m))
      have hlow := low16_toNat m
      simp only
      omega

/-- The key frame of a switch gets the number after the largest one. -/
theorem unwrap_succ {g : Numbering} {m : ℤ} (hm : g.newest = some m) :
    g.unwrap (low16 m + 1) = m+1 := by
  have hsucc : low16 m + 1 = low16 (m+1) := by
    rw [← BitVec.toNat_inj,BitVec.toNat_add]
    have h := low16_toNat m
    have h' := low16_toNat (m+1)
    have hone : (1 : BitVec 16).toNat = 1 := rfl
    omega
  rw [Numbering.unwrap,hm]
  simp only
  rw [hsucc,serialOffset_low16 (m+1) m (by omega) (by omega)]
  omega

/-- `max_rtp_seq_` stays the low half of the largest number. -/
theorem newMaxRtpSeq_low16 {g : Numbering} {t : SubscribeStreamTrack} {output : BitVec 16}
    {f : Forwarded} (hu : f.unwrapped = g.unwrap output)
    (hfirst : g.newest = none → t.firstPacket = true)
    (hnewest : ∀ m, g.newest = some m → t.firstPacket = false ∧ t.maxRtpSeq = low16 m) (m : ℤ)
    (hm : (g.add f).newest = some m) : t.newMaxRtpSeq output = low16 m := by
  have hlow := low16_unwrap g output
  rw [← hu] at hlow
  simp only [Numbering.add,Option.some.injEq] at hm
  rw [newMaxRtpSeq]
  cases hg : g.newest with
  | none =>
      rw [hg] at hm
      rw [hfirst hg,if_pos rfl,← hm,hlow]
  | some n =>
      obtain ⟨hfalse,hmax⟩ := hnewest n hg
      rw [hg] at hm
      simp only at hm
      have hun : f.unwrapped = n + serialOffset output (low16 n) := by
        rw [hu,Numbering.unwrap,hg]
      rw [hfalse,if_neg (by simp),hmax]
      have hgt := seqNumGT_iff output (low16 n)
      split
      · rename_i h
        rw [hgt] at h
        rw [← hm,max_eq_right (by omega),hlow]
      · rename_i h
        rw [hgt] at h
        rw [← hm,max_eq_left (by omega)]

/-! ### Forwarding -/

theorem SamePacket.symm {f f' : Forwarded} (h : SamePacket f f') : SamePacket f' f := by
  intro hout hnear
  rw [abs_sub_comm] at hnear
  exact ⟨(h hout.symm hnear).1.symm,(h hout.symm hnear).2.symm⟩

/-- A packet of the current layer against one from before: either that one is of the current
layer too, or it is older than the key frame. -/
theorem Numbered.samePacket {configurations : BitVec 32 → Option Configuration} {ssrc : BitVec 32}
    {s : SubscribeStream} {g : Numbering} (h : Numbered configurations ssrc s g)
    {t : SubscribeStreamTrack} (ht : s.ssrcTrackMap ssrc = some t) {f : Forwarded}
    (hlayer : f.layer = some s.currentLayerRid) (houtput : f.output = t.baseRtpSeq + f.input)
    (hresidue : f.output = low16 f.unwrapped)
    (hlate : ∀ k, g.keyframe = some k → k ≤ f.unwrapped) {f' : Forwarded}
    (hf' : f' ∈ g.forwarded) : SamePacket f' f := by
  intro hout hnear
  cases h.current f' hf' with
  | inl hold =>
      obtain ⟨k,hk,hlt⟩ := hold
      have hle := hlate k hk
      rw [h.outputs f' hf',hresidue,low16_eq_iff] at hout
      rw [abs_lt] at hnear
      omega
  | inr hnew =>
      obtain ⟨hl,ho⟩ := hnew t ht
      rw [ho,houtput] at hout
      exact ⟨hl.trans hlayer.symm,add_left_cancel hout⟩

/-- The largest number stays the largest one. -/
theorem Numbered.below_add {configurations : BitVec 32 → Option Configuration} {ssrc : BitVec 32}
    {s : SubscribeStream} {g : Numbering} (h : Numbered configurations ssrc s g) (f : Forwarded) :
    ∀ f' ∈ (g.add f).forwarded, ∀ m, (g.add f).newest = some m → f'.unwrapped ≤ m := by
  intro f' hf' m hm
  simp only [Numbering.add,Option.some.injEq] at hm
  cases hg : g.newest with
  | none =>
      rw [hg] at hm
      simp only [Numbering.add,(h.first hg).1,List.nil_append,List.mem_singleton] at hf'
      rw [hf']
      exact Int.le_of_eq hm
  | some n =>
      rw [hg] at hm
      simp only at hm
      cases List.mem_append.mp hf' with
      | inl hold => exact Int.le_trans (h.below f' hold n hg) (hm ▸ Int.le_max_left _ _)
      | inr hnew => exact List.mem_singleton.mp hnew ▸ hm ▸ Int.le_max_right _ _

/-- One more packet of the current layer, not older than the key frame. -/
theorem Numbered.forward {configurations : BitVec 32 → Option Configuration} {ssrc : BitVec 32}
    {s s' : SubscribeStream} {g : Numbering} (h : Numbered configurations ssrc s g)
    {t : SubscribeStreamTrack} (ht : s.ssrcTrackMap ssrc = some t) {f : Forwarded}
    (hlayer : f.layer = some s.currentLayerRid) (houtput : f.output = t.baseRtpSeq + f.input)
    (hunwrapped : f.unwrapped = g.unwrap f.output)
    (hlate : ∀ k, g.keyframe = some k → k ≤ f.unwrapped)
    (hcurrent : s'.currentLayerRid = s.currentLayerRid)
    (hconfiguration : ∀ x t', s'.ssrcTrackMap x = some t' →
      configurations x = some t'.configuration)
    (hnumbers : ∀ t', s'.ssrcTrackMap ssrc = some t' → t'.baseRtpSeq = t.baseRtpSeq ∧
      t'.maxRtpSeq = t.newMaxRtpSeq f.output ∧ t'.firstPacket = false) :
    Numbered configurations ssrc s' (g.add f) := by
  have hresidue : f.output = low16 f.unwrapped := by
    rw [hunwrapped,low16_unwrap]
  have hagainst : ∀ f' ∈ g.forwarded, SamePacket f' f := fun _ hf' =>
    h.samePacket ht hlayer houtput hresidue hlate hf'
  constructor
  · exact hconfiguration
  · intro hnone
    simp [Numbering.add] at hnone
  · intro m hm t' ht'
    obtain ⟨_,hmax,hfirst⟩ := hnumbers t' ht'
    refine ⟨hfirst,?_⟩
    rw [hmax]
    exact newMaxRtpSeq_low16 hunwrapped (fun hnone => (h.first hnone).2 t ht)
      (fun m hm => h.newest m hm t ht) m hm
  · intro f' hf'
    cases List.mem_append.mp hf' with
    | inl hold => exact h.outputs f' hold
    | inr hnew => exact List.mem_singleton.mp hnew ▸ hresidue
  · exact h.below_add f
  · intro f' hf'
    cases List.mem_append.mp hf' with
    | inl hold =>
        cases h.current f' hold with
        | inl hbefore => exact Or.inl hbefore
        | inr hnow =>
            refine Or.inr fun t' ht' => ?_
            rw [hcurrent,(hnumbers t' ht').1]
            exact hnow t ht
    | inr hnew =>
        refine Or.inr fun t' ht' => ?_
        rw [List.mem_singleton.mp hnew,hcurrent,(hnumbers t' ht').1]
        exact ⟨hlayer,houtput⟩
  · intro f' hf' f'' hf''
    cases List.mem_append.mp hf' with
    | inl hold =>
        cases List.mem_append.mp hf'' with
        | inl hold' => exact h.same f' hold f'' hold'
        | inr hnew' => exact List.mem_singleton.mp hnew' ▸ hagainst f' hold
    | inr hnew =>
        rw [List.mem_singleton.mp hnew]
        cases List.mem_append.mp hf'' with
        | inl hold' => exact (hagainst f'' hold').symm
        | inr hnew' =>
            rw [List.mem_singleton.mp hnew']
            exact fun _ _ => ⟨rfl,rfl⟩

/-- A switch of the layer starts a new line of numbers above all numbers so far. -/
theorem Numbered.switch {configurations : BitVec 32 → Option Configuration} {ssrc : BitVec 32}
    {s s' : SubscribeStream} {g : Numbering} (h : Numbered configurations ssrc s g)
    {t : SubscribeStreamTrack} (ht : s.ssrcTrackMap ssrc = some t) {seq : BitVec 16}
    (hmap : s'.ssrcTrackMap = (s.setTrack ssrc (t.syncSequenceNumber seq)).ssrcTrackMap) :
    Numbered configurations ssrc s'
      { g with keyframe := some (g.unwrap (t.maxRtpSeq - seq + 1 + seq)) } := by
  have htracks : ∀ t', s'.ssrcTrackMap ssrc = some t' → t' = t.syncSequenceNumber seq := by
    intro t' ht'
    rw [hmap] at ht'
    simp only [setTrack,if_true,Option.some.injEq] at ht'
    exact ht'.symm
  constructor
  · intro x t' ht'
    rw [hmap] at ht'
    simp only [setTrack] at ht'
    split at ht'
    · rename_i hx
      rw [Option.some.injEq] at ht'
      rw [hx,← ht']
      exact h.configured ssrc t ht
    · exact h.configured x t' ht'
  · intro hnone
    refine ⟨(h.first hnone).1,fun t' ht' => ?_⟩
    rw [htracks t' ht']
    exact (h.first hnone).2 t ht
  · intro m hm t' ht'
    rw [htracks t' ht']
    exact h.newest m hm t ht
  · exact h.outputs
  · exact h.below
  · intro f hf
    refine Or.inl ⟨_,rfl,?_⟩
    cases hg : g.newest with
    | none => exact absurd hf (by rw [(h.first hg).1]; exact List.not_mem_nil)
    | some m =>
        have hbelow := h.below f hf m hg
        have hmax := (h.newest m hg t ht).2
        have hout : t.maxRtpSeq - seq + 1 + seq = low16 m + 1 := by
          rw [hmax]
          ring
        rw [hout,unwrap_succ hg]
        omega
  · exact h.same

/-! ### Selection -/

/-- A new timestamp leaves the extensions alone. -/
theorem streamId_setTimestamp {p : RtpPacket} (h : p.Valid) (timestamp : BitVec 32) :
    streamId (p.setTimestamp timestamp) = streamId p := by
  have hvalue : ∀ extension : Extension (BitVec 32),
      (p.setTimestamp timestamp).getExtensionValue extension = p.getExtensionValue extension := by
    intro extension
    rw [getExtensionValue,getExtensionValue]
    have hsame : (p.setTimestamp timestamp).findExtension extension.kType =
        p.findExtension extension.kType := rfl
    rw [hsame]
    cases hfound : p.findExtension extension.kType with
    | none => rfl
    | some e =>
        have hentry : 12 ≤ e.offset.toNat := (h.entries e (findExtension_mem hfound)).1
        have hlength := h.twelve_le
        simp only [RtpPacket.setTimestamp]
        rw [List.drop_append,List.drop_append,
          drop_store (by rw [storeUInt32BE_length]; omega) (by omega),
          store_length (by rw [storeUInt32BE_length]; omega)]
  rw [streamId,streamId,hvalue,hvalue]

theorem sameNumbers_requestFrame {ssrc : BitVec 32} (s : SubscribeStream)
    (publisher : Option PublishStream) (rid : BitVec 32) :
    SameNumbers ssrc s (s.requestFrame publisher rid) := by
  rw [requestFrame_eq]
  exact .of_eq rfl rfl

theorem switchLayer_cases {ssrc : BitVec 32} (s : SubscribeStream)
    (publisher : Option PublishStream) (track : SubscribeStreamTrack) {clonePacket : RtpPacket}
    (hssrc : clonePacket.ssrc = ssrc) (rid : BitVec 32) :
    SameNumbers ssrc s (s.switchLayer publisher track clonePacket rid) ∨
      (s.switchLayer publisher track clonePacket rid).currentLayerRid = rid ∧
        (s.switchLayer publisher track clonePacket rid).currentLayerRid ≠ s.currentLayerRid ∧
        (s.switchLayer publisher track clonePacket rid).ssrcTrackMap =
          (s.setTrack ssrc
            (track.syncSequenceNumber clonePacket.sequenceNumber)).ssrcTrackMap := by
  rw [switchLayer]
  split
  · rename_i hswitch
    obtain ⟨hne,hrid,_⟩ := hswitch
    split
    · exact Or.inr ⟨hrid.symm,hne.symm,by rw [hssrc]; rfl⟩
    · exact Or.inl (sameNumbers_requestFrame s publisher _)
  · exact Or.inl (.of_eq rfl rfl)

/-- The packet goes on without a change of the numbers, or it is the key frame of a
switch. -/
theorem selectPacket_cases {configurations : BitVec 32 → Option Configuration} {ssrc : BitVec 32}
    {s : SubscribeStream} (hs : ∀ x t, s.ssrcTrackMap x = some t →
      configurations x = some t.configuration) (publisher : Option PublishStream)
    {p : RtpPacket} (hp : p.Valid) {behind : List Byte}
    (hone : ∀ c, configurations p.ssrc = some c →
      ((streamId { p.copy behind with extensionCapability := c.extensionCapability }).isSome ↔
        p.ssrc = ssrc)) :
    (SameNumbers ssrc s (s.selectPacket publisher p behind).1 ∧
      ∀ c, (s.selectPacket publisher p behind).2 = some c → c.ssrc = ssrc →
        streamId c = some (s.selectPacket publisher p behind).1.currentLayerRid) ∨
    ∃ t c, s.ssrcTrackMap ssrc = some t ∧ (s.selectPacket publisher p behind).2 = some c ∧
      c.ssrc = ssrc ∧ streamId c = some (s.selectPacket publisher p behind).1.currentLayerRid ∧
      (s.selectPacket publisher p behind).1.ssrcTrackMap =
        (s.setTrack ssrc (t.syncSequenceNumber c.sequenceNumber)).ssrcTrackMap ∧
      (s.selectPacket publisher p behind).1.currentLayerRid ≠ s.currentLayerRid := by
  have hselects := selectPacket_selects s publisher p behind
  generalize s.selectPacket publisher p behind = r at hselects ⊢
  cases hselects with
  | closed _ => exact Or.inl ⟨.of_eq rfl rfl,fun _ h => nomatch h⟩
  | waiting _ _ => exact Or.inl ⟨sameNumbers_requestFrame s publisher 0,fun _ h => nomatch h⟩
  | unknown _ => exact Or.inl ⟨.of_eq rfl rfl,fun _ h => nomatch h⟩
  | @plain track htrack hrid =>
      refine Or.inl ⟨.of_eq rfl rfl,fun c h hc => ?_⟩
      rw [← Option.some.inj h] at hc
      have hlayer := (hone track.configuration (hs _ track htrack)).mpr hc
      change (streamId (track.clone p behind)).isSome = true at hlayer
      rw [hrid] at hlayer
      simp at hlayer
  | @dropped track rid s' htrack hrid hs' hother =>
      have hssrc : p.ssrc = ssrc := by
        apply (hone track.configuration (hs _ track htrack)).mp
        change (streamId (track.clone p behind)).isSome = true
        rw [hrid]
        rfl
      have hcases := switchLayer_cases { s with dataReceived := true } publisher track
        (show (track.clone p behind).ssrc = ssrc from hssrc) rid
      rw [← hs'] at hcases
      cases hcases with
      | inl hsame =>
          exact Or.inl ⟨⟨hsame.currentLayerRid,hsame.configuration,hsame.numbers⟩,
            fun _ h => nomatch h⟩
      | inr hswitch => exact absurd hswitch.1.symm hother
  | @selected track rid s' htrack hrid hs' hcurrent =>
      have hssrc : p.ssrc = ssrc := by
        apply (hone track.configuration (hs _ track htrack)).mp
        change (streamId (track.clone p behind)).isSome = true
        rw [hrid]
        rfl
      have hcases := switchLayer_cases { s with dataReceived := true } publisher track
        (show (track.clone p behind).ssrc = ssrc from hssrc) rid
      rw [← hs'] at hcases
      have hid (v : BitVec 32) :
          streamId ((track.clone p behind).setTimestamp v) = some s'.currentLayerRid := by
        rw [streamId_setTimestamp (valid_clone track hp behind),hrid,hcurrent]
      cases hcases with
      | inl hsame =>
          refine Or.inl ⟨⟨hsame.currentLayerRid,hsame.configuration,hsame.numbers⟩,fun c h _ => ?_⟩
          rw [← Option.some.inj h]
          exact hid _
      | inr hswitch =>
          rw [hssrc] at htrack
          exact Or.inr ⟨track,_,htrack,rfl,hssrc,hid _,hswitch.2.2,hswitch.2.1⟩

/-! ### Runs -/

/-- Handlers other than the one for packets. -/
theorem sameNumbers_step {ssrc : BitVec 32} (s : SubscribeStream) {e : Event}
    (h : ∀ publisher p behind nowMillis,
      e ≠ .receivePublishStreamRtpPacket publisher p behind nowMillis) :
    SameNumbers ssrc s (step s e) := by
  cases e with
  | dtlsTransportSetup => exact .of_eq rfl rfl
  | receivePublishStreamRtpPacket publisher p behind nowMillis =>
      exact absurd rfl (h publisher p behind nowMillis)
  | setSimulcastLayer publisher rid =>
      rw [step]
      unfold SubscribeStream.setSimulcastLayer
      split
      · exact .of_eq rfl rfl
      split
      · exact .of_eq rfl rfl
      cases publisher with
      | none => exact .of_eq rfl rfl
      | some p =>
          simp only
          split
          · exact .of_eq rfl rfl
          · exact .of_eq rfl rfl
  | receiveNack mediaSsrc lostPackets nowMillis =>
      rw [step,SubscribeStream.receiveNack]
      cases htrack : s.ssrcTrackMap mediaSsrc with
      | none => exact .of_eq rfl rfl
      | some track =>
          simp only [SubscribeStreamTrack.receiveNack]
          split
          · exact .of_track htrack rfl rfl rfl fun _ => ⟨rfl,rfl,rfl⟩
          · obtain ⟨hsends,ht⟩ := foldl_resend_frame track s nowMillis
              track.configuration.extensionCapability lostPackets
            apply SameNumbers.of_track htrack
            · rw [hsends]
              rfl
            · rw [hsends]
              rfl
            · rw [ht]
            · intro _
              rw [ht]
              exact ⟨rfl,rfl,rfl⟩
  | receiveReceiverReport mediaSsrc rttMillis nowMillis =>
      rw [step,SubscribeStream.receiveReceiverReport]
      cases htrack : s.ssrcTrackMap mediaSsrc with
      | none => exact .of_eq rfl rfl
      | some track => exact .of_track htrack rfl rfl rfl fun _ => ⟨rfl,rfl,rfl⟩
  | receiveTransportFeedback feedback => exact .of_eq rfl rfl

/-- The packet that was selected is forwarded. -/
theorem Numbered.receive {configurations : BitVec 32 → Option Configuration} {ssrc : BitVec 32}
    {s : SubscribeStream} {g : Numbering} (h : Numbered configurations ssrc s g)
    {c : RtpPacket} (hlayer : c.ssrc = ssrc → streamId c = some s.currentLayerRid)
    (hlate : ∀ f k, forwarded ssrc s g c = some f → g.keyframe = some k → k ≤ f.unwrapped)
    (nowMillis : ℤ) :
    Numbered configurations ssrc (s.forward c nowMillis)
      (g.after (forwarded ssrc s g c) false) := by
  have hcurrent := (forward_layers s c nowMillis).2
  cases htrack : s.ssrcTrackMap c.ssrc with
  | none =>
      have hsame : s.forward c nowMillis = s := by
        rw [SubscribeStream.forward,htrack]
      have hnone : forwarded ssrc s g c = none := by
        rw [forwarded]
        split
        · rfl
        · rename_i hssrc
          rw [not_not] at hssrc
          rw [← hssrc,htrack,Option.map_none]
      rw [hsame,hnone]
      exact h
  | some t =>
      obtain ⟨t',hmap,hconfiguration,hbase,hmax,hfirst⟩ := forward_track htrack nowMillis
      by_cases hssrc : c.ssrc = ssrc
      · rw [hssrc] at htrack hmap
        have hsome : forwarded ssrc s g c = some ⟨streamId c,c.sequenceNumber,
            t.baseRtpSeq+c.sequenceNumber,g.unwrap (t.baseRtpSeq+c.sequenceNumber)⟩ := by
          rw [forwarded,if_neg (not_not.mpr hssrc),htrack]
          rfl
        rw [hsome]
        apply h.forward htrack (hlayer hssrc) rfl rfl (fun k hk => hlate _ k hsome hk) hcurrent
        · intro x u hu
          rw [hmap] at hu
          simp only [setTrack] at hu
          split at hu
          · rename_i hx
            rw [Option.some.injEq] at hu
            rw [hx,← hu,hconfiguration]
            exact h.configured ssrc t htrack
          · exact h.configured x u hu
        · intro u hu
          rw [hmap] at hu
          simp only [setTrack,if_true,Option.some.injEq] at hu
          rw [← hu]
          exact ⟨hbase,hmax,hfirst⟩
      · rw [forwarded,if_pos hssrc]
        exact h.of_same (.of_track htrack hcurrent hmap hconfiguration fun hx => absurd hx hssrc)

theorem numbered_step {configurations : BitVec 32 → Option Configuration} {ssrc : BitVec 32}
    {o : SubscribeStream × Numbering} (h : Numbered configurations ssrc o.1 o.2) {e : Event}
    (hone : OneSimulcast configurations ssrc e) (hlate : NotLate ssrc o e) :
    Numbered configurations ssrc (observedStep ssrc o e).1 (observedStep ssrc o e).2 := by
  obtain ⟨s,g⟩ := o
  simp only [observedStep,observe]
  cases e with
  | receivePublishStreamRtpPacket publisher p behind nowMillis =>
      have hcases := selectPacket_cases (s := s) h.configured publisher p.2 hone
      simp only [NotLate,forwards] at hlate
      simp only [forwards,step,receivePublishStreamRtpPacket]
      generalize s.selectPacket publisher p.1 behind = r at hcases hlate ⊢
      obtain ⟨s',packet⟩ := r
      cases hcases with
      | inl hsame =>
          obtain ⟨hsame,hlayer⟩ := hsame
          have h' := Numbered.of_same (s := s) h hsame
          cases packet with
          | none => exact h'
          | some c =>
              have hreceive := h'.receive (hlayer c rfl) hlate nowMillis
              have hcurrent : s'.currentLayerRid = s.currentLayerRid := hsame.currentLayerRid
              simp only [Option.bind_some,(forward_layers s' c nowMillis).2,hcurrent,
                bne_self_eq_false]
              exact hreceive
      | inr hswitch =>
          obtain ⟨t,c,ht,hc,hssrc,hlayer,hmap,hne⟩ := hswitch
          simp only at hc hlayer hmap hne
          subst hc
          have hswitched := Numbered.switch (s := s) h ht hmap
          have htrack : s'.ssrcTrackMap ssrc =
              some (t.syncSequenceNumber c.sequenceNumber) := by
            rw [hmap]
            simp only [setTrack,if_true]
          have hreceive := hswitched.receive (fun _ => hlayer) (by
            intro f k hf hk
            rw [forwarded,if_neg (not_not.mpr hssrc),htrack,Option.map_some,
              Option.some.injEq] at hf
            rw [Option.some.injEq] at hk
            rw [← hf,← hk]
            exact Int.le_refl _) nowMillis
          have hbne : (s'.currentLayerRid != s.currentLayerRid) = true := bne_iff_ne.mpr hne
          simp only [Option.bind_some,(forward_layers s' c nowMillis).2,hbne]
          simp only [forwarded,hssrc,htrack,ne_eq,not_true_eq_false,if_false,Option.map_some,
            Numbering.after,Bool.false_eq_true,if_true] at hreceive ⊢
          exact hreceive
  | _ =>
      apply Numbered.of_same h
      apply sameNumbers_step
      intro publisher p behind nowMillis heq
      cases heq

theorem numbered_start (environment : Environment)
    (configurations : BitVec 32 → Option Configuration) (ssrc : BitVec 32) :
    Numbered configurations ssrc (start environment configurations) {} := by
  have htracks : ∀ x t, (start environment configurations).ssrcTrackMap x = some t →
      ∃ c, configurations x = some c ∧ t = { configuration := c } := by
    intro x t ht
    simp only [start,Option.map_eq_some_iff] at ht
    obtain ⟨c,hc,rfl⟩ := ht
    exact ⟨c,hc,rfl⟩
  constructor
  · intro x t ht
    obtain ⟨c,hc,rfl⟩ := htracks x t ht
    exact hc
  · intro _
    refine ⟨rfl,fun t ht => ?_⟩
    obtain ⟨c,_,rfl⟩ := htracks ssrc t ht
    rfl
  · intro m hm
    simp at hm
  · exact fun f hf => absurd hf List.not_mem_nil
  · exact fun f hf => absurd hf List.not_mem_nil
  · exact fun f hf => absurd hf List.not_mem_nil
  · exact fun f hf => absurd hf List.not_mem_nil

/-- While nothing older than the key frame of the latest switch is forwarded, packets
with one output number, less than half the range apart, are copies of one packet. -/
theorem run_samePacket (environment : Environment)
    (configurations : BitVec 32 → Option Configuration) (ssrc : BitVec 32) (es : List Event)
    (hone : ∀ e ∈ es, OneSimulcast configurations ssrc e)
    (hlate : Along (fun before e => NotLate ssrc
      (run (observedStep ssrc) (start environment configurations,{}) before) e) es) :
    ∀ f ∈ (run (observedStep ssrc) (start environment configurations,{}) es).2.forwarded,
      ∀ f' ∈ (run (observedStep ssrc) (start environment configurations,{}) es).2.forwarded,
        SamePacket f f' := by
  have hsteps : Along (fun before e => OneSimulcast configurations ssrc e ∧ NotLate ssrc
      (run (observedStep ssrc) (start environment configurations,{}) before) e) es := by
    intro before e after he
    refine ⟨hone e ?_,hlate before e after he⟩
    rw [he]
    exact List.mem_append_right _ List.mem_cons_self
  have hnumbered := run_invariant_along (I := fun o => Numbered configurations ssrc o.1 o.2)
    (Q := fun o e => OneSimulcast configurations ssrc e ∧ NotLate ssrc o e)
    (numbered_start environment configurations ssrc)
    (fun _ _ h hstep => numbered_step h hstep.1 hstep.2) hsteps
  exact hnumbered.same

instance (ssrc : BitVec 32) (o : SubscribeStream × Numbering) (e : Event) :
    Decidable (NotLate ssrc o e) :=
  decidable_of_iff
    ((forwards ssrc o.1 o.2 e).all fun f => o.2.keyframe.all fun k => k ≤ f.unwrapped) (by
      rw [Option.all_eq_true]
      simp only [Option.all_eq_true,decide_eq_true_eq]
      exact ⟨fun h f k hf hk => h f hf k hk,fun h f hf k hk => h f k hf hk⟩)

/-- A packet of a layer, its RID in extension 4. -/
def layerPacket (digit : Byte) (sequenceNumber : BitVec 16) (keyframe : Bool) : RtpPacket where
  marker := false
  payloadType := 96
  paddingSize := 0
  sequenceNumber := sequenceNumber
  timestamp := 0
  ssrc := 9527
  payloadOffset := 20
  payloadSize := 1
  extensionEntries := [⟨4,1,17,1⟩]
  extensionsSize := 4
  data := [0x90,96]++storeUInt16BE sequenceNumber++[0,0,0,0]++storeUInt32BE 9527++
    [0xBE,0xDE,0,1,0x40,digit,0,0,7]
  payloadInfo := ⟨keyframe⟩

theorem layerPacket_valid (digit : Byte) (sequenceNumber : BitVec 16) (keyframe : Bool) :
    (layerPacket digit sequenceNumber keyframe).Valid := by
  constructor
  · simp [layerPacket,kMinRtpPacketLen]
  · simp [layerPacket,RtpPacket.size]
  · simp [layerPacket,kMinRtpPacketLen]

/-- It arrives while both layers have a sender report. -/
def received (digit : Byte) (sequenceNumber : BitVec 16) (keyframe : Bool) : Event :=
  .receivePublishStreamRtpPacket
    (some ⟨[⟨false,1,some ⟨0,0⟩⟩,⟨false,2,some ⟨0,0⟩⟩],[(2,800000),(1,200000)]⟩)
    ⟨layerPacket digit sequenceNumber keyframe,layerPacket_valid digit sequenceNumber keyframe⟩
    [] 1000

def requested (rid : BitVec 32) : Event :=
  .setSimulcastLayer (some ⟨[],[(2,800000),(1,200000)]⟩) rid

/-- One track, the RID under id 4. -/
def simulcastConfigurations (ssrc : BitVec 32) : Option Configuration :=
  if ssrc = 9527 then
    some { clockRate := 90000, extensionCapability := ⟨[(.rtpStreamId,4)]⟩ }
  else none

theorem simulcastConfigurations_eq_some {ssrc : BitVec 32} {c : Configuration}
    (h : simulcastConfigurations ssrc = some c) :
    c.extensionCapability = ⟨[(.rtpStreamId,4)]⟩ := by
  rw [simulcastConfigurations] at h
  split at h
  · rw [Option.some.injEq] at h
    rw [← h]
  · simp at h

/-- A key frame of layer 1, a switch to layer 2, and the packet after its key frame. -/
def switchRun : SubscribeStream × Numbering :=
  run (observedStep 9527) (start ⟨fun _ => true,fun _ _ => 0⟩ simulcastConfigurations,{})
    [.dtlsTransportSetup,received 49 100 true,requested 2,received 50 500 true,
      received 50 501 false]

theorem run_samePacket_switch : switchRun.2.forwarded.length = 3 ∧
    ∀ f ∈ switchRun.2.forwarded, ∀ f' ∈ switchRun.2.forwarded, SamePacket f f' := by
  refine ⟨by decide +kernel,?_⟩
  apply run_samePacket
  · intro e he
    simp only [List.mem_cons,List.not_mem_nil,or_false] at he
    rcases he with rfl | rfl | rfl | rfl | rfl
    · trivial
    · intro c hc
      rw [simulcastConfigurations_eq_some hc]
      decide
    · trivial
    · intro c hc
      rw [simulcastConfigurations_eq_some hc]
      decide
    · intro c hc
      rw [simulcastConfigurations_eq_some hc]
      decide
  · exact along_snoc.mpr ⟨along_snoc.mpr ⟨along_snoc.mpr ⟨along_snoc.mpr ⟨along_snoc.mpr
      ⟨along_nil _,by decide⟩,by decide⟩,by decide⟩,by decide⟩,by decide⟩

/-- The last packet of layer 2 before its key frame comes late: it gets the number of
the key frame of layer 1. -/
theorem not_run_samePacket : ¬∀ environment configurations ssrc es,
    (∀ e ∈ es, OneSimulcast configurations ssrc e) →
    ∀ f ∈ (run (observedStep ssrc) (start environment configurations,{}) es).2.forwarded,
      ∀ f' ∈ (run (observedStep ssrc) (start environment configurations,{}) es).2.forwarded,
        SamePacket f f' := by
  intro h
  have hsame := h ⟨fun _ => true,fun _ _ => 0⟩ simulcastConfigurations 9527
    [.dtlsTransportSetup,received 49 100 true,requested 2,received 50 500 true,
      received 50 499 false] (by
    intro e he
    simp only [List.mem_cons,List.not_mem_nil,or_false] at he
    rcases he with rfl | rfl | rfl | rfl | rfl
    · trivial
    · intro c hc
      rw [simulcastConfigurations_eq_some hc]
      decide
    · trivial
    · intro c hc
      rw [simulcastConfigurations_eq_some hc]
      decide
    · intro c hc
      rw [simulcastConfigurations_eq_some hc]
      decide)
    ⟨some 1,100,100,100⟩ (by decide) ⟨some 2,499,100,100⟩ (by decide) rfl (by decide)
  exact absurd hsame (by decide)

end Ylrtc.OutputNumbers
