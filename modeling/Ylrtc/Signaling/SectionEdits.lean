import Ylrtc.Signaling.PlainJson
import Ylrtc.Signaling.SdpNegotiator

/-!
# What editing a section keeps

Each edit of a media section changes the members that it names, and leaves the others and
the description around the section alone.
-/
namespace Ylrtc.Signaling
open Prog

namespace Editing
variable {parse : Text → Except Text Value} {write : Value → Except Text Text} {ε α : Type}

theorem ends_read {J : JsonLibrary} {f : J.Json → Except J.Error α} {s : Editing J}
    {Q : α → Editing J → Prop} :
    Ends Q (read f) s ↔ ∀ a, f s.mediaSection = .ok a → Q a s := by
  rw [read,ends_get_bind,ends_lib]

theorem ends_hasKey {J : JsonLibrary} {key : String} {s : Editing J}
    {Q : Bool → Editing J → Prop} :
    Ends Q (hasKey key) s ↔ Q (has s.mediaSection key) s := by
  rw [hasKey,ends_read]
  constructor
  · exact fun h => h _ rfl
  · rintro h _ ⟨⟩
    exact h

/-- The members but those with some keys, and the answer, stay as they are. -/
def Kept (keys : List String) (s t : Editing (sdpJson parse write)) : Prop :=
  t.negotiator.publishAnwserSdp = s.negotiator.publishAnwserSdp ∧
    ∀ k ∉ keys, Value.find? t.mediaSection k = Value.find? s.mediaSection k

variable {keys : List String}

theorem kept_refl (s : Editing (sdpJson parse write)) : Kept keys s s := ⟨rfl,fun _ _ => rfl⟩

theorem kept_trans (s t u : Editing (sdpJson parse write)) (h : Kept keys s t)
    (h' : Kept keys t u) : Kept keys s u :=
  ⟨h'.1.trans h.1,fun k hk => (h'.2 k hk).trans (h.2 k hk)⟩

/-- More keys may change. -/
theorem Kept.mono {keys' : List String} {s t : Editing (sdpJson parse write)} (h : Kept keys s t)
    (hsub : ∀ k ∈ keys, k ∈ keys') : Kept keys' s t :=
  ⟨h.1,fun k hk => h.2 k fun hmem => hk (hsub k hmem)⟩

theorem within_lib (x : Except (sdpJson parse write).Error α) :
    Within (Kept keys) (lib x : Prog (Editing (sdpJson parse write)) (Exc _) α) :=
  within_ofExcept kept_refl _

theorem within_read (f : Value → Except Text α) :
    Within (Kept keys) (read f : Prog (Editing (sdpJson parse write)) (Exc _) α) :=
  (within_get kept_refl).bind kept_trans fun s => within_lib (f s.mediaSection)

theorem within_edit {f : Value → Except Text Value}
    (hf : ∀ m m', f m = .ok m' → ∀ k ∉ keys, m'.find? k = m.find? k) :
    Within (Kept keys) (edit f : Prog (Editing (sdpJson parse write)) (Exc _) Unit) := by
  intro s
  have hs := hf s.mediaSection
  unfold edit
  rw [get_bind]
  cases hm : f s.mediaSection with
  | error e => exact kept_refl s
  | ok m' => exact ⟨rfl,hs m' hm⟩

section Member
variable {key : String}

theorem within_erase (hkey : key ∈ keys) :
    Within (Kept keys) (erase key : Prog (Editing (sdpJson parse write)) (Exc _) Unit) := by
  apply within_edit
  intro m m' hm k hk
  rw [Value.find?_of_erase hm,if_neg (ne_of_mem_of_not_mem hkey hk).symm]

theorem within_assign (hkey : key ∈ keys) (value : Value) :
    Within (Kept keys) (assign key value : Prog (Editing (sdpJson parse write)) (Exc _) Unit) := by
  apply within_edit
  intro m m' hm k hk
  rw [Value.find?_of_set hm,if_neg (ne_of_mem_of_not_mem hkey hk).symm]

theorem within_editMember (hkey : key ∈ keys) (f : Value → Except Text Value) :
    Within (Kept keys) (editMember key f : Prog (Editing (sdpJson parse write)) (Exc _) Unit) := by
  apply within_edit
  intro m m' hm k hk
  obtain ⟨member,hmember,hm⟩ := except_bind_eq_ok.mp hm
  obtain ⟨member',_,hm⟩ := except_bind_eq_ok.mp hm
  obtain rfl := Except.ok.inj hm
  exact (Value.find?_putMember (Value.at?_eq_ok.mp hmember) k).trans
    (if_neg (ne_of_mem_of_not_mem hkey hk).symm)

theorem within_subscript (hkey : key ∈ keys) :
    Within (Kept keys) (subscript key : Prog (Editing (sdpJson parse write)) (Exc _) Value) := by
  refine (within_edit ?_).bind kept_trans fun _ => within_read _
  intro m m' hm k hk
  split at hm
  · obtain rfl := Except.ok.inj hm
    rfl
  · rw [Value.find?_of_set hm,if_neg (ne_of_mem_of_not_mem hkey hk).symm]

/-- What becomes of the member. -/
theorem editMember_ends (f : Value → Except Text Value) (s : Editing (sdpJson parse write)) :
    Ends (fun _ t => Kept [key] s t ∧ ∃ member member',
        Value.find? s.mediaSection key = some member ∧ f member = .ok member' ∧
          Value.find? t.mediaSection key = some member') (editMember key f) s := by
  have hkept : Within (Kept [key])
      (editMember key f : Prog (Editing (sdpJson parse write)) (Exc _) Unit) :=
    within_editMember List.mem_cons_self f
  refine (hkept.ends s).and ?_
  unfold editMember edit
  rw [ends_get_bind,ends_bind,ends_lib]
  intro m' hm
  obtain ⟨member,hmember,hm⟩ := except_bind_eq_ok.mp hm
  obtain ⟨member',hmember',hm⟩ := except_bind_eq_ok.mp hm
  obtain rfl := Except.ok.inj hm
  have hfind := Value.at?_eq_ok.mp hmember
  intro _ t ht
  obtain ⟨_,rfl⟩ := Prod.mk.inj ht
  exact ⟨member,member',hfind,hmember',(Value.find?_putMember hfind key).trans (if_pos rfl)⟩

theorem assign_ends (value : Value) (s : Editing (sdpJson parse write)) :
    Ends (fun _ t => Kept [key] s t ∧ Value.find? t.mediaSection key = some value)
      (assign key value) s := by
  have hkept : Within (Kept [key])
      (assign key value : Prog (Editing (sdpJson parse write)) (Exc _) Unit) :=
    within_assign List.mem_cons_self value
  refine (hkept.ends s).and ?_
  unfold assign edit
  rw [ends_get_bind,ends_bind,ends_lib]
  intro m' hm _ t ht
  obtain ⟨_,rfl⟩ := Prod.mk.inj ht
  exact (Value.find?_of_set hm key).trans (if_pos rfl)

theorem within_hasKey :
    Within (Kept keys) (hasKey key : Prog (Editing (sdpJson parse write)) (Exc _) Bool) :=
  within_read _

end Member

/-! ### Before the codec is selected -/

/-- What is changed whatever the type of the section is. -/
def preparedKeys : List String := ["port","ssrcs","ssrcGroups","iceOptions","candidates",
  "extmapAllowMixed","direction","icePwd","iceUfrag","icelite","fingerprint","setup","rids",
  "simulcast"]

theorem within_assignCandidates : Within (Kept preparedKeys)
    (assignCandidates : Prog (Editing (sdpJson parse write)) (Exc _) Unit) :=
  (within_get kept_refl).bind kept_trans fun _ =>
    (within_assign (by decide) _).bind kept_trans fun _ => within_editMember (by decide) _

theorem within_preparePublish : Within (Kept preparedKeys)
    (preparePublish : Prog (Editing (sdpJson parse write)) (Exc _) Unit) := by
  unfold preparePublish
  refine (within_read _).bind kept_trans fun port => ?_
  extract_lets rest
  have hrest : Within (Kept preparedKeys) (rest ()) :=
    (within_erase (by decide)).bind kept_trans fun _ =>
    (within_erase (by decide)).bind kept_trans fun _ =>
    (within_erase (by decide)).bind kept_trans fun _ =>
    (within_erase (by decide)).bind kept_trans fun _ =>
    (within_erase (by decide)).bind kept_trans fun _ =>
    within_assignCandidates.bind kept_trans fun _ =>
    (within_assign (by decide) _).bind kept_trans fun _ =>
    (within_get kept_refl).bind kept_trans fun s =>
    (within_assign (by decide) _).bind kept_trans fun _ =>
    (within_assign (by decide) _).bind kept_trans fun _ =>
    (within_assign (by decide) _).bind kept_trans fun _ =>
    (within_subscript (by decide)).bind kept_trans fun _ =>
    (within_editMember (by decide) _).bind kept_trans fun _ =>
    (within_subscript (by decide)).bind kept_trans fun _ => within_editMember (by decide) _
  split
  · exact (within_assign (by decide) _).bind kept_trans fun _ => hrest
  · exact hrest

theorem within_assignSetup (remoteDtlsSetup : Text) : Within (Kept preparedKeys)
    (assignSetup remoteDtlsSetup : Prog (Editing (sdpJson parse write)) (Fault (Exc _)) Unit) := by
  unfold assignSetup
  split
  · rename_i setup _
    refine Within.mapError ?_ _
    exact (within_modify fun s => ⟨rfl,fun _ _ => rfl⟩).bind kept_trans fun _ =>
      within_assign (by decide) _
  · exact kept_refl

theorem within_assignRids (direction : Text) : Within (Kept preparedKeys)
    (assignRids direction : Prog (Editing (sdpJson parse write)) (Exc _) Unit) := by
  refine within_hasKey.bind kept_trans fun rids => ?_
  split
  · exact within_editMember (by decide) _
  · exact within_pure kept_refl _

theorem within_assignSimulcast (direction : Text) : Within (Kept preparedKeys)
    (assignSimulcast direction : Prog (Editing (sdpJson parse write)) (Exc _) Unit) := by
  refine within_hasKey.bind kept_trans fun simulcast => ?_
  split
  · exact within_editMember (by decide) _
  · exact within_pure kept_refl _

end Editing
end Ylrtc.Signaling
