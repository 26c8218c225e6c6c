import Ylrtc.Signaling.PlainJson
import Ylrtc.Transport.PublishTrack

/-!
# The clocks of the tracks of an answer

The clock rate of a publish track comes from the first mapping of its media section, and
nothing checks it. The tracks of an answer never divide by zero exactly where each section
with an SSRC or a new RID has a mapping for retransmissions or a first mapping of a kilohertz.
-/
namespace Ylrtc.Signaling
open Prog PublishTrack Run
variable {J : JsonLibrary} {σ : Type}

/-- The section has a track. -/
def HasSsrc (mediaSection : J.Json) : Prop :=
  has mediaSection "ssrcs" = true ∧
    ∃ ssrcs, J.atKey mediaSection "ssrcs" = .ok ssrcs ∧ J.isEmpty ssrcs = false

/-- The mappings of a section, if it has any. -/
def HasMappings (mediaSection rtpmaps : J.Json) : Prop :=
  has mediaSection "rtp" = true ∧ J.atKey mediaSection "rtp" = .ok rtpmaps

/-- Some mapping is for retransmissions. -/
def HasRtx (mediaSection : J.Json) : Prop :=
  ∃ rtpmaps, HasMappings mediaSection rtpmaps ∧ ∃ rtpmap ∈ J.elements rtpmaps,
    ∃ codec, J.atKey rtpmap "codec" = .ok codec ∧ J.isText codec (text "rtx") = true

/-- The first mapping has a clock rate of a kilohertz at least, as a number of 32 bits. -/
def HasClock (mediaSection : J.Json) : Prop :=
  ∃ rtpmaps, HasMappings mediaSection rtpmaps ∧ J.isEmpty rtpmaps = false ∧
    ∃ first rate value, J.index rtpmaps 0 = .ok first ∧ J.atKey first "rate" = .ok rate ∧
      J.toUInt 32 rate = .ok value ∧ 1000 ≤ value.toNat

/-- The clock rate is large enough, or not needed. -/
def Timed (mediaSection : J.Json) : Prop := HasRtx mediaSection ∨ HasClock mediaSection

/-- The key of a RID. -/
def ridKey (rid : Text) : Option (BitVec 32) := (stoi rid).toOption.map (BitVec.ofInt 32)

/-- The keys of the RIDs of a section. -/
def namedRids (mediaSection : J.Json) : List (BitVec 32) :=
  if has mediaSection "simulcast" then
    match J.atKey mediaSection "simulcast" with
    | .ok simulcast =>
        if has simulcast "list1" then
          match textAt simulcast "list1" with
          | .ok rids => (split rids 59).filterMap ridKey
          | .error _ => []
        else []
    | .error _ => []
  else []

/-- A configuration with which its track does not divide by zero. -/
def ClockFits (config : TrackConfiguration) : Prop :=
  config.rtxEnabled = true ∨ 1000 ≤ config.clockRate.toNat

/-- The two members that decide it. -/
def SameClock (c d : TrackConfiguration) : Prop :=
  c.rtxEnabled = d.rtxEnabled ∧ c.clockRate = d.clockRate

theorem SameClock.clockFits {c d : TrackConfiguration} (h : SameClock c d) :
    ClockFits c ↔ ClockFits d := by
  rw [ClockFits,ClockFits,h.1,h.2]

theorem SameClock.trans {b c d : TrackConfiguration} (h : SameClock b c) (h' : SameClock c d) :
    SameClock b d := ⟨h.1.trans h'.1,h.2.trans h'.2⟩

section Readers
variable {s t : σ} {m : J.Json} {config config' : TrackConfiguration}

theorem readSsrc_ok {b : Bool} (h : readSsrc m config s = (.ok (config',b),t)) :
    s = t ∧ SameClock config' config ∧ (b = true ↔ HasSsrc m) := by
  unfold readSsrc at h
  split at h
  · rename_i hhas
    obtain ⟨ssrcs,u,hread,h⟩ := bind_eq_ok.mp h
    obtain ⟨hssrcs,rfl⟩ := lib_eq_ok.mp hread
    split at h
    · rename_i hempty
      obtain ⟨hpair,rfl⟩ := pure_eq_ok.mp h
      obtain ⟨rfl,rfl⟩ := Prod.mk.inj hpair
      refine ⟨rfl,⟨rfl,rfl⟩,?_⟩
      constructor
      · exact fun hfalse => Bool.noConfusion hfalse
      · rintro ⟨_,other,hother,hne⟩
        rw [hssrcs] at hother
        obtain rfl := Except.ok.inj hother
        exact absurd (hempty.symm.trans hne) (by decide)
    · rename_i hempty
      obtain ⟨ssrc,u,hssrc,h⟩ := bind_eq_ok.mp h
      obtain ⟨_,rfl⟩ := lib_eq_ok.mp hssrc
      obtain ⟨hpair,rfl⟩ := pure_eq_ok.mp h
      obtain ⟨rfl,rfl⟩ := Prod.mk.inj hpair
      exact ⟨rfl,⟨rfl,rfl⟩,fun _ => ⟨hhas,ssrcs,hssrcs,Bool.not_eq_true _ ▸ hempty⟩,fun _ => rfl⟩
  · rename_i hhas
    obtain ⟨hpair,rfl⟩ := pure_eq_ok.mp h
    obtain ⟨rfl,rfl⟩ := Prod.mk.inj hpair
    exact ⟨rfl,⟨rfl,rfl⟩,fun hfalse => Bool.noConfusion hfalse,fun hm => absurd hm.1 hhas⟩

theorem readRtx_ok {rtpmaps : List J.Json} (h : readRtx rtpmaps config s = (.ok config',t)) :
    s = t ∧ config'.clockRate = config.clockRate ∧
      (config'.rtxEnabled = true ↔ config.rtxEnabled = true ∨ ∃ rtpmap ∈ rtpmaps, ∃ codec,
        J.atKey rtpmap "codec" = .ok codec ∧ J.isText codec (text "rtx") = true) := by
  induction rtpmaps generalizing config s with
  | nil =>
      obtain ⟨rfl,rfl⟩ := pure_eq_ok.mp h
      exact ⟨rfl,rfl,by simp⟩
  | cons rtpmap rtpmaps ih =>
      rw [readRtx] at h
      obtain ⟨codec,u,hread,h⟩ := bind_eq_ok.mp h
      obtain ⟨hcodec,rfl⟩ := lib_eq_ok.mp hread
      split at h
      · rename_i hrtx
        obtain ⟨payload,u,hpayload,h⟩ := bind_eq_ok.mp h
        obtain ⟨_,rfl⟩ := lib_eq_ok.mp hpayload
        obtain ⟨rfl,hclock,henabled⟩ := ih h
        refine ⟨rfl,hclock,?_⟩
        rw [henabled]
        exact iff_of_true (.inl rfl) (.inr ⟨rtpmap,List.mem_cons_self,codec,hcodec,hrtx⟩)
      · rename_i hrtx
        obtain ⟨rfl,hclock,henabled⟩ := ih h
        refine ⟨rfl,hclock,henabled.trans (or_congr_right ?_)⟩
        constructor
        · rintro ⟨other,hmem,hother⟩
          exact ⟨other,List.mem_cons_of_mem _ hmem,hother⟩
        · rintro ⟨other,hmem,code,hcode,htext⟩
          cases hmem with
          | head =>
              rw [hcodec] at hcode
              obtain rfl := Except.ok.inj hcode
              exact absurd htext hrtx
          | tail _ hmem => exact ⟨other,hmem,code,hcode,htext⟩

theorem HasMappings.unique {rtpmaps rtpmaps' : J.Json} (h : HasMappings m rtpmaps)
    (h' : HasMappings m rtpmaps') : rtpmaps' = rtpmaps :=
  Except.ok.inj (h'.2.symm.trans h.2)

theorem HasMappings.hasRtx_iff {rtpmaps : J.Json} (h : HasMappings m rtpmaps) :
    HasRtx m ↔ ∃ rtpmap ∈ J.elements rtpmaps, ∃ codec,
      J.atKey rtpmap "codec" = .ok codec ∧ J.isText codec (text "rtx") = true := by
  constructor
  · rintro ⟨other,hother,hfound⟩
    exact h.unique hother ▸ hfound
  · exact fun hfound => ⟨rtpmaps,h,hfound⟩

theorem HasMappings.not_hasClock {rtpmaps : J.Json} (h : HasMappings m rtpmaps)
    (hempty : J.isEmpty rtpmaps = true) : ¬HasClock m := by
  rintro ⟨other,hother,hne,_⟩
  rw [h.unique hother,hempty] at hne
  exact Bool.noConfusion hne

theorem HasMappings.hasClock_iff {rtpmaps first : J.Json} {rate : BitVec 32}
    (h : HasMappings m rtpmaps) (hempty : J.isEmpty rtpmaps = false)
    (hfirst : J.index rtpmaps 0 = .ok first)
    (hrate : (do J.toUInt 32 (← J.atKey first "rate")) = .ok rate) :
    HasClock m ↔ 1000 ≤ rate.toNat := by
  obtain ⟨json,hjson,hvalue⟩ := except_bind_eq_ok.mp hrate
  constructor
  · rintro ⟨other,hother,_,first',json',rate',hfirst',hjson',hvalue',hlarge⟩
    rw [h.unique hother,hfirst] at hfirst'
    obtain rfl := Except.ok.inj hfirst'
    rw [hjson] at hjson'
    obtain rfl := Except.ok.inj hjson'
    rw [hvalue] at hvalue'
    obtain rfl := Except.ok.inj hvalue'
    exact hlarge
  · exact fun hlarge => ⟨rtpmaps,h,hempty,first,json,rate,hfirst,hjson,hvalue,hlarge⟩

theorem readRtp_ok (h : readRtp true m config s = (.ok config',t))
    (hrtx : config.rtxEnabled = false) (hclock : config.clockRate = 0) :
    s = t ∧ (ClockFits config' ↔ Timed m) := by
  unfold readRtp at h
  split at h
  · rename_i hhas
    obtain ⟨rtpmaps,u,hread,h⟩ := bind_eq_ok.mp h
    obtain ⟨hrtpmaps,rfl⟩ := lib_eq_ok.mp hread
    have hmaps : HasMappings m rtpmaps := ⟨hhas,hrtpmaps⟩
    split at h
    · rename_i hempty
      obtain ⟨_,u,hpure,h⟩ := bind_eq_ok.mp h
      obtain ⟨rfl,rfl⟩ := pure_eq_ok.mp hpure
      obtain ⟨rfl,hrate,henabled⟩ := readRtx_ok h
      refine ⟨rfl,or_congr ?_ ?_⟩
      · rw [henabled,hrtx,hmaps.hasRtx_iff]
        simp only [Bool.false_eq_true,false_or]
      · rw [hrate,hclock]
        exact iff_of_false (by decide) (hmaps.not_hasClock hempty)
    · rename_i hempty
      obtain ⟨first,u,hread,h⟩ := bind_eq_ok.mp h
      obtain ⟨hfirst,rfl⟩ := lib_eq_ok.mp hread
      obtain ⟨payload,u,hread,h⟩ := bind_eq_ok.mp h
      obtain ⟨_,rfl⟩ := lib_eq_ok.mp hread
      obtain ⟨codec,u,hread,h⟩ := bind_eq_ok.mp h
      obtain ⟨_,rfl⟩ := lib_eq_ok.mp hread
      obtain ⟨rate,u,hread,h⟩ := bind_eq_ok.mp h
      obtain ⟨hrate,rfl⟩ := lib_eq_ok.mp hread
      obtain ⟨_,u,hpure,h⟩ := bind_eq_ok.mp h
      obtain ⟨rfl,rfl⟩ := pure_eq_ok.mp hpure
      obtain ⟨rfl,hsame,henabled⟩ := readRtx_ok h
      refine ⟨rfl,or_congr ?_ ?_⟩
      · rw [henabled,hrtx,hmaps.hasRtx_iff]
        simp only [Bool.false_eq_true,false_or]
      · rw [hsame]
        exact (hmaps.hasClock_iff (Bool.not_eq_true _ ▸ hempty) hfirst hrate).symm
  · rename_i hhas
    obtain ⟨rfl,rfl⟩ := pure_eq_ok.mp h
    refine ⟨rfl,or_congr ?_ ?_⟩
    · rw [hrtx]
      apply iff_of_false (by decide)
      rintro ⟨rtpmaps,hrtpmaps,_⟩
      exact hhas hrtpmaps.1
    · rw [hclock]
      apply iff_of_false (by decide)
      rintro ⟨rtpmaps,hrtpmaps,_⟩
      exact hhas hrtpmaps.1

end Readers

/-! ### What else is read -/

/-- A program leaves the state alone and gives a configuration with the same clock. -/
def KeepsClock (config : TrackConfiguration) (p : Prog σ (Exc J) TrackConfiguration) : Prop :=
  ∀ s, Ends (fun c t => SameClock c config ∧ t = s) p s

section Keeps
variable {config : TrackConfiguration}

theorem keepsClock_pure {c : TrackConfiguration} (h : SameClock c config) :
    KeepsClock config (pure c : Prog σ (Exc J) TrackConfiguration) :=
  fun _ => ends_pure.mpr ⟨h,rfl⟩

theorem keepsClock_lib {α : Type} {x : Except J.Error α}
    {f : α → Prog σ (Exc J) TrackConfiguration} (hf : ∀ a, KeepsClock config (f a)) :
    KeepsClock config (lib x >>= f) :=
  fun s => ends_bind.mpr (ends_lib.mpr fun a _ => hf a s)

theorem keepsClock_std {α : Type} {x : Except Text α}
    {f : α → Prog σ (Exc J) TrackConfiguration} (hf : ∀ a, KeepsClock config (f a)) :
    KeepsClock config (std x >>= f) :=
  fun s => ends_bind.mpr (ends_std.mpr fun a _ => hf a s)

theorem KeepsClock.trans {c : TrackConfiguration} {p : Prog σ (Exc J) TrackConfiguration}
    (hp : KeepsClock c p) (h : SameClock c config) : KeepsClock config p :=
  fun s => (hp s).mono fun _ _ hc => ⟨hc.1.trans h,hc.2⟩

theorem keepsClock_readGroups (groups : List J.Json) (config : TrackConfiguration) :
    KeepsClock config (readGroups groups config : Prog σ (Exc J) TrackConfiguration) := by
  induction groups generalizing config with
  | nil => exact keepsClock_pure ⟨rfl,rfl⟩
  | cons group groups ih =>
      rw [readGroups]
      apply keepsClock_lib
      intro semantics
      split
      · apply keepsClock_lib
        intro ssrcs
        split
        · apply keepsClock_std
          intro primary
          split
          · apply keepsClock_std
            intro rtx
            exact (ih _).trans ⟨rfl,rfl⟩
          · exact ih config
        · exact ih config
      · exact ih config

theorem keepsClock_readSsrcGroups (m : J.Json) (config : TrackConfiguration) :
    KeepsClock config (readSsrcGroups m config : Prog σ (Exc J) TrackConfiguration) := by
  unfold readSsrcGroups
  split
  · exact keepsClock_lib fun groups => keepsClock_readGroups _ config
  · exact keepsClock_pure ⟨rfl,rfl⟩

theorem keepsClock_readPublishFb (fbs : List J.Json) (config : TrackConfiguration) :
    KeepsClock config (readPublishFb fbs config : Prog σ (Exc J) TrackConfiguration) := by
  induction fbs generalizing config with
  | nil => exact keepsClock_pure ⟨rfl,rfl⟩
  | cons fb fbs ih =>
      rw [readPublishFb]
      split
      · split
        · apply keepsClock_lib
          intro subtype
          split
          · exact (ih _).trans ⟨rfl,rfl⟩
          · split
            · exact (ih _).trans ⟨rfl,rfl⟩
            · exact ih config
        · apply keepsClock_lib
          intro payload
          split
          · exact keepsClock_lib fun type => (ih _).trans ⟨rfl,rfl⟩
          · exact ih config
      · exact ih config

theorem keepsClock_readExtensions (extensions : List J.Json) (config : TrackConfiguration) :
    KeepsClock config (readExtensions extensions config : Prog σ (Exc J) TrackConfiguration) := by
  induction extensions generalizing config with
  | nil => exact keepsClock_pure ⟨rfl,rfl⟩
  | cons extension extensions ih =>
      rw [readExtensions]
      exact keepsClock_lib fun value => keepsClock_lib fun uri => (ih _).trans ⟨rfl,rfl⟩

end Keeps

/-! ### A section -/

/-- A RID that is there keeps its configuration. -/
theorem insertRids_ends (config : TrackConfiguration) (rids : List Text) (s : StreamData J) :
    Ends (fun _ t => t.tracks = s.tracks ∧ ∀ key, t.ridConfigurationMap key =
        (s.ridConfigurationMap key).or (if key ∈ rids.filterMap ridKey then some config else none))
      (insertRids config rids) s := by
  induction rids generalizing s with
  | nil =>
      rw [insertRids,ends_pure]
      exact ⟨rfl,fun key => by simp⟩
  | cons rid rids ih =>
      rw [insertRids,ends_bind,ends_std]
      intro n hn
      rw [ends_bind,ends_modify]
      refine (ih _).mono ?_
      rintro _ t ⟨htracks,hrids⟩
      refine ⟨htracks,fun key => ?_⟩
      have hkey : ridKey rid = some (BitVec.ofInt 32 n) := by
        rw [ridKey,hn]
        rfl
      rw [hrids,List.filterMap_cons_some hkey]
      simp only [List.mem_cons]
      cases hold : s.ridConfigurationMap (BitVec.ofInt 32 n) with
      | some c =>
          change (s.ridConfigurationMap key).or _ = _
          by_cases hsame : key = BitVec.ofInt 32 n
          · rw [hsame,hold,Option.some_or,Option.some_or]
          · simp only [hsame,false_or]
      | none =>
          change (Function.update s.ridConfigurationMap (BitVec.ofInt 32 n) (some config) key).or
            _ = _
          by_cases hsame : key = BitVec.ofInt 32 n
          · rw [hsame,Function.update_self,hold]
            simp
          · simp only [Function.update_of_ne hsame,hsame,false_or]

/-- What a section adds to the RIDs. -/
def RidsAdded (m : J.Json) (s t : StreamData J) : Prop :=
  ∃ config, (ClockFits config ↔ Timed m) ∧ ∀ key, t.ridConfigurationMap key =
    (s.ridConfigurationMap key).or (if key ∈ namedRids m then some config else none)

/-- What a section of an offer makes of a stream: a configuration, and entries for its RIDs. -/
structure SectionPublished (m : J.Json) (s : StreamData J) (r : TrackConfiguration×Bool)
    (t : StreamData J) : Prop where
  fits : ClockFits r.1 ↔ Timed m
  ssrc : r.2 = true ↔ HasSsrc m
  tracks : t.tracks = s.tracks
  rids : RidsAdded m s t

theorem ridsAdded_of_named {m : J.Json} {s t : StreamData J} {config : TrackConfiguration}
    {keys : List (BitVec 32)} (hfits : ClockFits config ↔ Timed m) (hnamed : namedRids m = keys)
    (hrids : ∀ key, t.ridConfigurationMap key =
      (s.ridConfigurationMap key).or (if key ∈ keys then some config else none)) :
    RidsAdded m s t := by
  refine ⟨config,hfits,fun key => ?_⟩
  rw [hnamed]
  exact hrids key

theorem ridsAdded_of_nil {m : J.Json} {s t : StreamData J} {config : TrackConfiguration}
    (hfits : ClockFits config ↔ Timed m) (hnamed : namedRids m = [])
    (hrids : t.ridConfigurationMap = s.ridConfigurationMap) : RidsAdded m s t := by
  apply ridsAdded_of_named hfits hnamed
  intro key
  rw [hrids,if_neg List.not_mem_nil,Option.or_none]

theorem namedRids_of_not_has {m : J.Json} (h : ¬has m "simulcast" = true) : namedRids m = [] := by
  rw [namedRids,if_neg h]

theorem namedRids_of_no_list {m simulcast : J.Json} (h : has m "simulcast" = true)
    (hread : J.atKey m "simulcast" = .ok simulcast) (hlist : ¬has simulcast "list1" = true) :
    namedRids m = [] := by
  rw [namedRids,if_pos h,hread]
  simp only [hlist]
  rfl

theorem namedRids_of_list {m simulcast : J.Json} {rids : Text} (h : has m "simulcast" = true)
    (hread : J.atKey m "simulcast" = .ok simulcast) (hlist : has simulcast "list1" = true)
    (hnames : textAt simulcast "list1" = .ok rids) :
    namedRids m = (split rids 59).filterMap ridKey := by
  rw [namedRids,if_pos h,hread]
  simp only [hlist,if_true,hnames]

theorem configurePublish_ends {config : TrackConfiguration} (hrtx : config.rtxEnabled = false)
    (hclock : config.clockRate = 0) (m : J.Json) (s : StreamData J) :
    Ends (SectionPublished m s) (configurePublish config m) s := by
  unfold configurePublish
  rw [ends_bind,ends_lib]
  intro type _
  extract_lets config' read
  -- the flags of the stream are set before, and nothing below looks at them
  have hread : ∀ s' : StreamData J, s'.tracks = s.tracks →
      s'.ridConfigurationMap = s.ridConfigurationMap →
      Ends (SectionPublished m s) (read ()) s' := by
    intro s' htracks hrids
    change Ends _ (readSsrc m config' >>= _) s'
    rw [ends_bind]
    rintro ⟨c,hasSsrc⟩ _ hssrc
    obtain ⟨rfl,hsame,hhas⟩ := readSsrc_ok hssrc
    change Ends _ (readRtp true m c >>= _) _
    rw [ends_bind]
    intro c' _ hrtp
    obtain ⟨rfl,hfits⟩ := readRtp_ok hrtp (hsame.1.trans hrtx) (hsame.2.trans hclock)
    rw [ends_bind]
    refine (keepsClock_readSsrcGroups m c' _).mono ?_
    rintro d t ⟨hd,rfl⟩
    extract_lets readRids
    have hrids' : ∀ e, SameClock e c' → Ends (SectionPublished m s) (readRids e) t := by
      intro e he
      have hfits' : ClockFits e ↔ Timed m := he.clockFits.trans hfits
      unfold readRids
      extract_lets readExt
      have hext : ∀ t', t'.tracks = s.tracks → RidsAdded m s t' →
          Ends (SectionPublished m s) (readExt ()) t' := by
        intro t' htracks hadded
        unfold readExt
        split
        · rw [ends_bind,ends_lib]
          intro extensions _
          rw [ends_bind]
          refine (keepsClock_readExtensions _ e t').mono ?_
          rintro c _ ⟨hc,rfl⟩
          rw [ends_bind,ends_modify,ends_pure]
          exact ⟨hc.clockFits.trans hfits',hhas,htracks,hadded⟩
        · rw [ends_pure]
          exact ⟨hfits',hhas,htracks,hadded⟩
      split
      · rename_i hhasSimulcast
        rw [ends_bind,ends_lib]
        intro simulcast hsimulcast
        split
        · rename_i hlist
          rw [ends_bind,ends_lib]
          intro rids hnames
          rw [ends_bind]
          refine (insertRids_ends e _ t).mono ?_
          rintro _ t' ⟨htracks',hrids'⟩
          apply hext t' (htracks'.trans htracks)
          apply ridsAdded_of_named hfits'
            (namedRids_of_list hhasSimulcast hsimulcast hlist hnames)
          intro key
          rw [hrids',hrids]
        · rename_i hlist
          exact hext t htracks
            (ridsAdded_of_nil hfits' (namedRids_of_no_list hhasSimulcast hsimulcast hlist) hrids)
      · rename_i hhasSimulcast
        exact hext t htracks (ridsAdded_of_nil hfits' (namedRids_of_not_has hhasSimulcast) hrids)
    split
    · rw [ends_bind,ends_lib]
      intro fbs _
      rw [ends_bind]
      refine (keepsClock_readPublishFb _ d t).mono ?_
      rintro e _ ⟨he,rfl⟩
      exact hrids' e (he.trans hd)
    · rw [ends_bind,ends_pure]
      exact hrids' d hd
  split
  · rw [ends_bind,ends_modify]
    exact hread _ rfl rfl
  · split
    · rw [ends_bind,ends_modify]
      exact hread _ rfl rfl
    · exact hread s rfl rfl

theorem addPublishTrack_ends (config : TrackConfiguration) (s : StreamData J) :
    Ends (fun _ t => t.tracks = s.tracks++[config] ∧
      t.ridConfigurationMap = s.ridConfigurationMap) (addPublishTrack config) s := by
  have hinsert : ∀ (u : StreamData J) (ssrc : BitVec 32) (track : ℕ),
      (insertSsrc u ssrc track).tracks = u.tracks ∧
        (insertSsrc u ssrc track).ridConfigurationMap = u.ridConfigurationMap := by
    intro u ssrc track
    rw [insertSsrc]
    split <;> exact ⟨rfl,rfl⟩
  unfold addPublishTrack
  rw [ends_get_bind,ends_bind,ends_modify]
  split
  · split
    · rw [ends_modify]
      simp only [hinsert,and_self]
    · exact ends_abort
  · rw [ends_pure]
    simp only [hinsert,and_self]

open Classical in
/-- The tracks and the RIDs of a stream come from the sections: a track from each section
with an SSRC, the configuration of a RID from the first section that names it. -/
structure Configured (sections : List J.Json) (s : StreamData J) : Prop where
  tracks : List.Forall₂ (fun c m => ClockFits c ↔ Timed m) s.tracks
    (sections.filter fun m => HasSsrc m)
  rids : ∀ key, Option.Rel (fun c m => ClockFits c ↔ Timed m) (s.ridConfigurationMap key)
    (sections.find? fun m => key ∈ namedRids m)

theorem publishLocalSection_configured {memory : TrackConfiguration}
    (hrtx : memory.rtxEnabled = false) (hclock : memory.clockRate = 0) (mediaSections : J.Json)
    (i : ℕ) {sections : List J.Json} {s : StreamData J} (hs : Configured sections s) :
    Ends (fun _ t => ∃ m, J.index mediaSections i = .ok m ∧ Configured (sections++[m]) t)
      (publishLocalSection memory mediaSections i) s := by
  unfold publishLocalSection
  rw [ends_bind,ends_safe,ends_lib]
  intro m hm
  rw [ends_bind,ends_safe]
  refine (configurePublish_ends hrtx hclock m s).mono ?_
  rintro ⟨config,hasSsrc⟩ t ⟨hfits,hhas,htracks,config',hfits',hrids⟩
  have hfound : ∀ key, Option.Rel (fun c m => ClockFits c ↔ Timed m) (t.ridConfigurationMap key)
      ((sections++[m]).find? fun m => key ∈ namedRids m) := by
    intro key
    have hkey := hs.rids key
    rw [hrids,List.find?_append]
    generalize hmap : s.ridConfigurationMap key = entry at hkey ⊢
    generalize hfirst : (sections.find? fun m => decide (key ∈ namedRids m)) = first at hkey ⊢
    cases hkey with
    | some hfit => exact .some hfit
    | none =>
        rw [Option.none_or,Option.none_or,List.find?_singleton]
        by_cases hmem : key ∈ namedRids m
        · simp only [hmem,if_true,decide_true]
          exact .some hfits'
        · simp only [hmem,if_false,decide_false]
          exact .none
  dsimp only
  split
  · rename_i hssrc
    refine (addPublishTrack_ends config t).mono ?_
    rintro _ u ⟨htracks',hrids'⟩
    refine ⟨m,hm,?_,fun key => hrids' ▸ hfound key⟩
    rw [htracks',htracks,List.filter_append,List.filter_cons_of_pos (by simpa using hhas.mp hssrc)]
    exact List.rel_append hs.tracks (.cons hfits .nil)
  · rename_i hssrc
    rw [ends_pure]
    refine ⟨m,hm,?_,hfound⟩
    have hno : ¬HasSsrc m := fun h => hssrc (hhas.mpr h)
    rw [htracks,List.filter_append,List.filter_cons_of_neg (by simpa using hno),List.filter_nil,
      List.append_nil]
    exact hs.tracks

theorem publishLocalSections_configured {memory : TrackConfiguration}
    (hrtx : memory.rtxEnabled = false) (hclock : memory.clockRate = 0) (mediaSections : J.Json)
    (is : List ℕ) {sections : List J.Json} {s : StreamData J} (hs : Configured sections s) :
    Ends (fun _ t => ∃ ms, List.Forall₂ (fun i m => J.index mediaSections i = .ok m) is ms ∧
        Configured (sections++ms) t)
      (forItems (publishLocalSection memory mediaSections) is) s := by
  induction is generalizing sections s with
  | nil =>
      change Ends _ (pure ()) s
      rw [ends_pure]
      exact ⟨[],.nil,(List.append_nil sections).symm ▸ hs⟩
  | cons i is ih =>
      rw [forItems,ends_bind]
      refine (publishLocalSection_configured hrtx hclock mediaSections i hs).mono ?_
      rintro _ t ⟨m,hm,ht⟩
      refine (ih ht).mono ?_
      rintro _ u ⟨ms,hms,hu⟩
      rw [List.append_assoc] at hu
      exact ⟨m::ms,.cons hm hms,hu⟩

/-! ### All tracks -/

/-- The sections of a description. -/
def sectionsOf (mediaSections : J.Json) : List J.Json :=
  (List.range (J.size mediaSections)).filterMap fun i => (J.index mediaSections i).toOption

/-- What tracks are made with: a track of a RID gets the SSRC of its first packet. -/
def Configures (s : StreamData J) (configuration : TrackConfiguration) : Prop :=
  configuration ∈ s.tracks ∨ ∃ rid config ssrc, s.ridConfigurationMap rid = some config ∧
    configuration = { config with ssrc := ssrc }

/-- The section has an SSRC, or a RID that no section before it has. -/
def MakesTrack (before : List J.Json) (m : J.Json) : Prop :=
  HasSsrc m ∨ ∃ rid ∈ namedRids m, ∀ m' ∈ before, rid ∉ namedRids m'

theorem filterMap_toOption {α β ε : Type} {f : α → Except ε β} {as : List α} {bs : List β}
    (h : List.Forall₂ (fun a b => f a = .ok b) as bs) :
    as.filterMap (fun a => (f a).toOption) = bs := by
  induction h with
  | nil => rfl
  | cons hb _ ih => rw [List.filterMap_cons_some (by rw [hb]; rfl),ih]

theorem forall_mem_iff_of_forall₂ {α β : Type} {p : α → Prop} {q : β → Prop} {as : List α}
    {bs : List β} (h : List.Forall₂ (fun a b => p a ↔ q b) as bs) :
    (∀ a ∈ as, p a) ↔ ∀ b ∈ bs, q b := by
  induction h with
  | nil => exact iff_of_true (fun _ h => nomatch h) fun _ h => nomatch h
  | cons hab _ ih => simp only [List.forall_mem_cons,hab,ih]

theorem publishSetLocalDescription_configured {memory : TrackConfiguration}
    (hrtx : memory.rtxEnabled = false) (hclock : memory.clockRate = 0) {s : StreamData J}
    {mediaSections : J.Json} (htracks : s.tracks = [])
    (hrids : ∀ rid, s.ridConfigurationMap rid = none)
    (hread : s.sdp.getMediaSections = .ok mediaSections) :
    Ends (fun _ t => Configured (sectionsOf mediaSections) t)
      (publishSetLocalDescription memory) s := by
  have hs : Configured [] s := by
    constructor
    · rw [htracks]
      exact .nil
    · intro key
      rw [hrids]
      exact .none
  rw [publishSetLocalDescription,ends_get_bind,ends_bind,ends_safe,ends_lib]
  intro media hmedia
  rw [hread] at hmedia
  obtain rfl := Except.ok.inj hmedia
  refine (publishLocalSections_configured hrtx hclock mediaSections _ hs).mono ?_
  rintro _ t ⟨sections,hsections,ht⟩
  rw [sectionsOf,filterMap_toOption hsections]
  exact ht

theorem Configured.clockFits_iff {sections : List J.Json} {s : StreamData J}
    (hs : Configured sections s) :
    (∀ configuration, Configures s configuration → ClockFits configuration) ↔
      ∀ before m after, sections = before++m::after → MakesTrack before m → Timed m := by
  have htracks := forall_mem_iff_of_forall₂ hs.tracks
  constructor
  · rintro hfits before m after rfl hmakes
    cases hmakes with
    | inl hssrc =>
        apply htracks.mp (fun c hc => hfits c (.inl hc)) m
        simp [hssrc]
    | inr hnamed =>
        obtain ⟨rid,hrid,hnew⟩ := hnamed
        have hfirst : (before++m::after).find? (fun m => rid ∈ namedRids m) = some m := by
          rw [List.find?_append,List.find?_eq_none.mpr (by simpa using hnew),Option.none_or,
            List.find?_cons_of_pos (by simpa using hrid)]
        have hkey := hs.rids rid
        rw [hfirst] at hkey
        cases hmap : s.ridConfigurationMap rid with
        | none =>
            rw [hmap] at hkey
            nomatch hkey
        | some c =>
            rw [hmap] at hkey
            cases hkey with
            | some hfit => exact hfit.mp (hfits c (.inr ⟨rid,c,c.ssrc,hmap,rfl⟩))
  · rintro htimed configuration (hmem | ⟨rid,config,ssrc,hmap,rfl⟩)
    · refine htracks.mpr (fun m hm => ?_) configuration hmem
      obtain ⟨hin,hssrc⟩ := List.mem_filter.mp hm
      obtain ⟨before,after,hsplit⟩ := List.append_of_mem hin
      exact htimed before m after hsplit (.inl (by simpa using hssrc))
    · have hkey := hs.rids rid
      rw [hmap] at hkey
      generalize hfirst : (sections.find? fun m => decide (rid ∈ namedRids m)) = first at hkey
      cases hkey with
      | @some _ m hfit =>
          obtain ⟨hrid,before,after,hsplit,hnew⟩ := List.find?_eq_some_iff_append.mp hfirst
          apply hfit.mpr
          apply htimed before m after hsplit (.inr ⟨rid,by simpa using hrid,?_⟩)
          intro m' hm'
          simpa using hnew m' hm'

/-- No track of a stream ever divides by zero exactly where each section that makes a track
has a mapping for retransmissions, or a first mapping of a kilohertz at least. -/
theorem publish_tracks_divide_iff (allowed : BitVec 32 → ℤ → ℤ) {memory : TrackConfiguration}
    (hrtx : memory.rtxEnabled = false) (hclock : memory.clockRate = 0) {s t : StreamData J}
    {mediaSections : J.Json} (htracks : s.tracks = [])
    (hrids : ∀ rid, s.ridConfigurationMap rid = none)
    (hread : s.sdp.getMediaSections = .ok mediaSections)
    (h : publishSetLocalDescription memory s = (.ok (),t)) :
    (∀ configuration, Configures t configuration →
        ∀ es, (run (step allowed) (some (make configuration)) es).isSome = true) ↔
      ∀ before m after, sectionsOf mediaSections = before++m::after →
        MakesTrack before m → Timed m := by
  have ht := publishSetLocalDescription_configured hrtx hclock htracks hrids hread () t h
  rw [← ht.clockFits_iff]
  simp only [runs_isSome_iff,ClockFits]

/-- A configuration of which nothing is set. -/
def unset : TrackConfiguration where
  ssrc := 0
  payloadType := 0

/-- A library that reads each description as an offer of Opus. -/
def opusJson (rate : ℤ) : JsonLibrary := sdpJson
  (fun _ => .ok (offerOf (offeredSection "audio" [("ssrcs",.array [.object [("id",.int 1)]]),
    ("rtp",.array [rtpmap 111 "opus" rate])]))) fun _ => .ok []

/-- The negotiator behind the answer to an offer of Opus. -/
def opusAnswered (rate : ℤ) : SdpNegotiator (opusJson rate) :=
  (SdpNegotiator.createPublishAnswer false (SdpNegotiator.setPublishOffer [] {}).2).2

theorem publish_tracks_divide_iff_opus :
    (∃ configuration,
      Configures (publishSetLocalDescription unset { sdp := opusAnswered 48000 }).2 configuration) ∧
    ∀ configuration,
      Configures (publishSetLocalDescription unset { sdp := opusAnswered 48000 }).2 configuration →
        ∀ es, (run (step fun _ _ => 0) (some (make configuration)) es).isSome = true := by
  have h : publishSetLocalDescription unset { sdp := opusAnswered 48000 } = (.ok (),_) :=
    Prod.ext rfl rfl
  constructor
  · exact ⟨_,.inl (List.mem_singleton.mpr rfl)⟩
  · apply (publish_tracks_divide_iff (fun _ _ => 0) rfl rfl rfl (fun _ => rfl)
      (show (opusAnswered 48000).getMediaSections = .ok _ from rfl) h).mpr
    intro before m after hsplit _
    have hm : m ∈ before++m::after := List.mem_append_right before List.mem_cons_self
    rw [← hsplit] at hm
    obtain rfl := List.mem_singleton.mp hm
    exact .inr ⟨_,⟨rfl,rfl⟩,rfl,_,_,48000,rfl,rfl,rfl,by decide⟩

/-- A track with a clock below a kilohertz and no retransmissions divides by zero. -/
theorem not_publish_tracks_divide : ¬∀ (J : JsonLibrary) (offer answer : Text) (dtx : Bool)
    (n n' : SdpNegotiator J) (t : StreamData J),
    SdpNegotiator.setPublishOffer offer {} = (.ok true,n) →
      SdpNegotiator.createPublishAnswer dtx n = (.ok (some answer),n') →
      publishSetLocalDescription unset { sdp := n' } = (.ok (),t) →
      ∀ configuration, Configures t configuration → ∀ allowed es,
        (run (step allowed) (some (make configuration)) es).isSome = true := by
  intro hall
  let configuration : TrackConfiguration := {
    ssrc := 1
    payloadType := 111
    codec := text "opus"
    audio := true
    clockRate := 999 }
  have hsome := hall (opusJson 999) [] [] false _ _ _ (Prod.ext rfl rfl) (Prod.ext rfl rfl)
    (Prod.ext rfl rfl) configuration (.inl (List.mem_singleton.mpr rfl)) (fun _ _ => 0)
    [.receiveRtpPacket (packetOf 1 1) 0,.receiveRtpPacket (packetOf 1 0) 0]
  have hlate : run (step fun _ _ => 0) (some (make configuration))
      [.receiveRtpPacket (packetOf 1 1) 0,.receiveRtpPacket (packetOf 1 0) 0] = none :=
    run_late_packet _ rfl (by decide)
  rw [hlate] at hsome
  exact Bool.noConfusion hsome

end Ylrtc.Signaling
