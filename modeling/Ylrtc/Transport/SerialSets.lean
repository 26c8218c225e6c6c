import Mathlib.Data.List.Perm.Subperm
import Ylrtc.Transport.NackKeys

/-!
# Sets of serial numbers

The comparator of the NACK requester orders only numbers less than half the range apart. Within
such a window a set is searched in the order of the unwrapped numbers: what is inserted comes
between the earlier and the later ones, and what is erased for its age are those too far behind.
-/
namespace Ylrtc.Nack
open SearchTree SequenceNumber

/-! ### Searches -/

/-- Numbers in a stretch shorter than half the range, wherever it begins. -/
def InWindow (numbers : List (BitVec 16)) : Prop :=
  ∃ start : BitVec 16, ∀ x ∈ numbers, (x-start).toNat < 2^15

/-- A search of a set: what it stores and the number that is compared with it. -/
structure Search where
  stored : List (BitVec 16)
  probe : BitVec 16
  deriving DecidableEq

/-- The comparator orders what a search compares. -/
structure Search.Ordered (s : Search) : Prop where
  window : InWindow (s.probe::s.stored)
  order : IsStrictTotalOrder {x // x ∈ s.probe::s.stored} fun x y => isSeqNumLessThan x.1 y.1 = true

/-- A set in which a number can be looked for: it is at most half the range ahead of the oldest
one, or as little behind the newest. -/
def InSight (set : List (BitVec 16)) (m : BitVec 16) : Prop :=
  ∀ oldest ∈ set.head?, ∀ newest ∈ set.getLast?,
    (m-oldest).toNat < 2^15 ∨ (newest-m).toNat < 2^15

/-- A set that has room for a number, and for one more that is too old for it: the oldest one is
at least that old and less than half the range behind, or all are in the half range that begins
with what is too old. -/
def HasRoom (set : List (BitVec 16)) (m : BitVec 16) : Prop :=
  (∃ oldest ∈ set.head?, kMaxPacketAge ≤ (m-oldest).toNat ∧ (m-oldest).toNat < 2^15) ∨
    ∀ x ∈ set, (x - (m - BitVec.ofNat 16 kMaxPacketAge)).toNat < 2^15

/-! ### Unwrapped numbers -/

/-- The numbers of a set in their order, with one more. -/
def track (n : ℤ) (numbers : List ℤ) : List ℤ :=
  numbers.filter (· < n) ++ n::numbers.filter (n < ·)

/-- Those at most `kMaxPacketAge` behind a packet. -/
def recent (n : ℤ) (numbers : List ℤ) : List ℤ := numbers.filter (n-kMaxPacketAge ≤ ·)

/-! ### Windows -/

section Windows
variable {ns : List ℤ} {n x y : ℤ}

/-- Numbers less than half the range apart. -/
def Close (ns : List ℤ) : Prop := ∀ x ∈ ns, ∀ y ∈ ns, x-y < 2^15

theorem Close.subset {other : List ℤ} (h : Close ns) (hsub : other ⊆ ns) : Close other :=
  fun x hx y hy => h x (hsub hx) y (hsub hy)

theorem Close.cons (h : Close ns) (hn : ∀ x ∈ ns, n-x < 2^15 ∧ x-n < 2^15) : Close (n::ns) := by
  intro x hx y hy
  rw [List.mem_cons] at hx hy
  cases hx with
  | inl hx =>
      cases hy with
      | inl hy =>
          rw [hx,hy,Int.sub_self]
          decide
      | inr hy => exact hx ▸ (hn y hy).1
  | inr hx =>
      cases hy with
      | inl hy => exact hy ▸ (hn x hx).2
      | inr hy => exact h x hx y hy

theorem low16_sub_toNat (x y : ℤ) : ((low16 x - low16 y).toNat : ℤ) = (x-y)%65536 := by
  have hx := low16_toNat x
  have hy := low16_toNat y
  rw [sub_toNat,hx,hy]
  omega

theorem Close.inWindow (h : Close ns) : InWindow (ns.map low16) := by
  cases ns with
  | nil => exact ⟨0,fun x hx => absurd hx List.not_mem_nil⟩
  | cons n ns =>
      obtain ⟨least,hmin⟩ : ∃ least, (n::ns).min? = some least := ⟨_,List.min?_cons'⟩
      obtain ⟨hleast,hall⟩ := List.min?_eq_some_iff.mp hmin
      refine ⟨low16 least,fun x hx => ?_⟩
      obtain ⟨y,hy,rfl⟩ := List.mem_map.mp hx
      have hclose := h y hy least hleast
      have hle := hall y hy
      have hsub := low16_sub_toNat y least
      omega

theorem InWindow.isStrictTotalOrder {numbers : List (BitVec 16)} (h : InWindow numbers) :
    IsStrictTotalOrder {x // x ∈ numbers} fun x y => isSeqNumLessThan x.1 y.1 = true := by
  obtain ⟨start,hstart⟩ := h
  have hbounds : ∀ x ∈ numbers, 0 ≤ serialOffset x start ∧ serialOffset x start < 32768 := by
    intro x hx
    have hnear := hstart x hx
    have hge : seqNumGE x start = true := (seqNumGE_iff x start).mpr (.inl hnear)
    rw [serialOffset,if_pos hge]
    omega
  exact isStrictTotalOrder_of_bounds hbounds le_rfl

/-- The order of the numbers of a window is the comparator's. -/
theorem InWindow.ordered {stored : List (BitVec 16)} {probe : BitVec 16}
    (h : InWindow (probe::stored)) : Search.Ordered ⟨stored,probe⟩ := ⟨h,h.isStrictTotalOrder⟩

/-- Unwrapped numbers that are close are searched in order. -/
theorem Close.searchOrdered (h : Close (n::ns)) : Search.Ordered ⟨ns.map low16,low16 n⟩ :=
  h.inWindow.ordered

/-- Where a window holds unwrapped numbers. -/
theorem InWindow.exists_start {numbers : List (BitVec 16)} (h : InWindow numbers) :
    ∃ start : ℤ, ∀ x : ℤ, low16 x ∈ numbers → (x-start)%65536 < 32768 := by
  obtain ⟨start,hstart⟩ := h
  refine ⟨start.toNat,fun x hx => ?_⟩
  have hnear := hstart (low16 x) hx
  have hsub := low16_sub_toNat x start.toNat
  rw [low16_ofNat] at hsub
  omega

/-- Two numbers at most half the range and the age apart, in a window with the older of them less
the age. -/
theorem InWindow.behind {numbers : List (BitVec 16)} (h : InWindow numbers)
    (hold : low16 (n-kMaxPacketAge) ∈ numbers) (hx : low16 x ∈ numbers)
    (hle : n-x ≤ 2^15+kMaxPacketAge) : n-x < 2^15+kMaxPacketAge := by
  obtain ⟨start,hstart⟩ := h.exists_start
  have hprobe := hstart _ hold
  have hstored := hstart x hx
  omega

/-- With the newer one in the window as well. -/
theorem InWindow.reach {numbers : List (BitVec 16)} (h : InWindow numbers)
    (hold : low16 (n-kMaxPacketAge) ∈ numbers) (hn : low16 n ∈ numbers) (hx : low16 x ∈ numbers)
    (hle : n-x ≤ 2^15+kMaxPacketAge) (hge : x-n < 2^15) :
    n-x < 2^15 ∧ x-n < 2^15-kMaxPacketAge := by
  obtain ⟨start,hstart⟩ := h.exists_start
  have hprobe := hstart _ hold
  have hnew := hstart n hn
  have hstored := hstart x hx
  simp only [kMaxPacketAge] at hprobe hle ⊢
  omega

theorem isSeqNumLessThan_wrap {x y : ℤ} (h : x < y+65536) (h' : y+65536 < x+32768) :
    isSeqNumLessThan (low16 x) (low16 y) = true := by
  have hwrap : low16 y = low16 (y+65536) := (low16_eq_iff _ _).mpr (by omega)
  rw [isSeqNumLessThan,hwrap]
  exact seqNumGT_low16 _ _ (by omega) (by omega)

end Windows

/-! ### Sets of unwrapped numbers -/

section Sets
variable {ns : List ℤ} {n x : ℤ} {d : Descent (BitVec 16)}

theorem mem_track : x ∈ track n ns ↔ x = n ∨ x ∈ ns := by
  simp only [track,List.mem_append,List.mem_cons,List.mem_filter,decide_eq_true_eq]
  constructor
  · intro hx
    rcases hx with hx | hx | hx
    · exact .inr hx.1
    · exact .inl hx
    · exact .inr hx.1
  · intro hx
    rcases lt_trichotomy x n with hlt | heq | hgt
    · exact .inl ⟨hx.resolve_left hlt.ne,hlt⟩
    · exact .inr (.inl heq)
    · exact .inr (.inr ⟨hx.resolve_left hgt.ne',hgt⟩)

theorem mem_recent : x ∈ recent n ns ↔ x ∈ ns ∧ n-x ≤ kMaxPacketAge := by
  rw [recent,List.mem_filter,decide_eq_true_eq]
  constructor
  · intro hx
    exact ⟨hx.1,by omega⟩
  · intro hx
    exact ⟨hx.1,by omega⟩

theorem track_sorted (h : ns.Pairwise (· < ·)) : (track n ns).Pairwise (· < ·) := by
  rw [track,List.pairwise_append,List.pairwise_cons]
  refine ⟨h.sublist List.filter_sublist,⟨?_,h.sublist List.filter_sublist⟩,?_⟩
  · intro x hx
    exact decide_eq_true_eq.mp (List.mem_filter.mp hx).2
  · intro x hx y hy
    have hxn := decide_eq_true_eq.mp (List.mem_filter.mp hx).2
    rw [List.mem_cons] at hy
    cases hy with
    | inl hy => exact hy ▸ hxn
    | inr hy => exact hxn.trans (decide_eq_true_eq.mp (List.mem_filter.mp hy).2)

/-- The number that a stored one stands for, next to another. -/
theorem position_low16 (h : n-x < 2^15) (h' : x-n < 2^15) :
    n + serialOffset (low16 x) (low16 n) = x := by
  rw [serialOffset_low16 x n (by omega) (by omega)]
  omega

theorem position_self (n : ℤ) : n + serialOffset (low16 n) (low16 n) = n := by
  rw [eq_iff_serialOffset_zero.mp rfl,Int.add_zero]

theorem ordered_low16 (hsorted : ns.Pairwise (· < ·)) (h : Close (n::ns)) :
    Ordered isSeqNumLessThan (fun x => n + serialOffset x (low16 n)) (ns.map low16) (low16 n) := by
  have hposition : ∀ x ∈ n::ns, n + serialOffset (low16 x) (low16 n) = x := fun x hx =>
    position_low16 (h n List.mem_cons_self x hx) (h x hx n List.mem_cons_self)
  have hless : ∀ x ∈ n::ns, ∀ y ∈ n::ns, isSeqNumLessThan (low16 x) (low16 y) = true ↔ x < y := by
    intro x hx y hy
    have hxy := h x hx y hy
    have hyx := h y hy x hx
    rw [isSeqNumLessThan,seqNumGT_iff,serialOffset_low16 y x (by omega) (by omega)]
    omega
  have hn : n ∈ n::ns := List.mem_cons_self
  constructor
  case sorted =>
    rw [List.pairwise_map]
    apply hsorted.imp_of_mem
    intro x y hx hy hxy
    rw [hposition x (List.mem_cons_of_mem n hx),hposition y (List.mem_cons_of_mem n hy)]
    exact hxy
  case before =>
    intro x hx
    obtain ⟨y,hy,rfl⟩ := List.mem_map.mp hx
    rw [hposition y (List.mem_cons_of_mem n hy),hposition n hn,
      hless y (List.mem_cons_of_mem n hy) n hn]
  case behind =>
    intro x hx
    obtain ⟨y,hy,rfl⟩ := List.mem_map.mp hx
    rw [hposition y (List.mem_cons_of_mem n hy),hposition n hn,
      hless n hn y (List.mem_cons_of_mem n hy)]

/-- A filter by positions, of the unwrapped numbers. -/
theorem filter_low16 (h : Close (n::ns)) (p : ℤ → Bool) :
    ((ns.map low16).filter fun x => p (n + serialOffset x (low16 n))) =
      (ns.filter p).map low16 := by
  rw [List.filter_map]
  congr 1
  apply List.filter_congr
  intro x hx
  rw [Function.comp_apply,position_low16 (h n List.mem_cons_self x (List.mem_cons_of_mem n hx))
    (h x (List.mem_cons_of_mem n hx) n List.mem_cons_self)]

/-- A set that stores unwrapped numbers, all close. -/
structure Stores (set : List (BitVec 16)) (ns : List ℤ) : Prop where
  eq : set = ns.map low16
  sorted : ns.Pairwise (· < ·)
  close : Close ns

theorem stores_nil : Stores [] [] := ⟨rfl,.nil,fun _ hx => absurd hx List.not_mem_nil⟩

variable {set : List (BitVec 16)}

theorem mem_insert_self (d : Descent (BitVec 16)) (set : List (BitVec 16)) (m : BitVec 16) :
    m ∈ insert d isSeqNumLessThan set m := by
  cases insert_self d isSeqNumLessThan set m with
  | inl hm => exact hm
  | inr hm =>
      obtain ⟨x,hx,hless,hgreater⟩ := hm
      rw [isSeqNumLessThan_total hless hgreater] at hx
      exact mem_insert_of_mem d hx

theorem Stores.insert (h : Stores set ns) (hn : ∀ x ∈ ns, n-x < 2^15 ∧ x-n < 2^15) :
    Search.Ordered ⟨set,low16 n⟩ ∧
      Stores (insert d isSeqNumLessThan set (low16 n)) (track n ns) := by
  have hclose := h.close.cons hn
  have hordered := ordered_low16 h.sorted hclose
  rw [h.eq]
  refine ⟨hclose.searchOrdered,?_,track_sorted h.sorted,hclose.subset fun _ hx => ?_⟩
  · rw [hordered.insert_eq d fun _ _ hx => ?_]
    · rw [position_self,filter_low16 hclose (· < n),filter_low16 hclose (n < ·),track,
        List.map_append,List.map_cons]
    · apply serialOffset_injective (n := low16 n)
      omega
  · rw [List.mem_cons]
    exact mem_track.mp hx

theorem low16_sub_age (n : ℤ) :
    low16 n - BitVec.ofNat 16 kMaxPacketAge = low16 (n-kMaxPacketAge) := by
  have hnumber : BitVec.ofNat 16 kMaxPacketAge = low16 kMaxPacketAge := by decide
  have hsub := low16_sub_toNat n kMaxPacketAge
  have hlow := low16_toNat (n-kMaxPacketAge)
  rw [hnumber]
  apply BitVec.eq_of_toNat_eq
  omega

theorem Stores.erase (h : Stores set ns)
    (hn : ∀ x ∈ ns, n-x < 2^15+kMaxPacketAge ∧ x-n < 2^15-kMaxPacketAge) :
    Search.Ordered ⟨set,low16 n - BitVec.ofNat 16 kMaxPacketAge⟩ ∧
      Stores (eraseOld d set (low16 n)) (recent n ns) := by
  have hclose : Close ((n-kMaxPacketAge)::ns) := by
    apply h.close.cons
    intro x hx
    have hnear := hn x hx
    omega
  have hordered := ordered_low16 h.sorted hclose
  rw [h.eq,low16_sub_age]
  refine ⟨hclose.searchOrdered,?_,h.sorted.sublist List.filter_sublist,
    h.close.subset List.filter_sublist.subset⟩
  rw [eraseOld,low16_sub_age,hordered.drop_lowerBound d,position_self,
    filter_low16 hclose (n-kMaxPacketAge ≤ ·),recent]

/-- A packet is inserted, and what is too old for it erased. -/
theorem Stores.insert_erase (h : Stores set ns)
    (hn : ∀ x ∈ ns, n-x < 2^15 ∧ x-n < 2^15-kMaxPacketAge) :
    Search.Ordered ⟨set,low16 n⟩ ∧
      Search.Ordered ⟨SearchTree.insert d isSeqNumLessThan set (low16 n),
        low16 n - BitVec.ofNat 16 kMaxPacketAge⟩ ∧
      Stores (eraseOld d (SearchTree.insert d isSeqNumLessThan set (low16 n)) (low16 n))
        (recent n (track n ns)) := by
  have hinserted := h.insert (n := n) (d := d) fun x hx => by
    have hnear := hn x hx
    omega
  have herased := hinserted.2.erase (n := n) (d := d) fun x hx => by
    cases mem_track.mp hx with
    | inl heq =>
        rw [heq,Int.sub_self]
        decide
    | inr hmem =>
        have hnear := hn x hmem
        omega
  exact ⟨hinserted.1,herased.1,herased.2⟩

/-- A keyframe that is too far ahead of what is compared with it would be erased with all others
that a window has room for. -/
theorem eraseOld_of_far {n k : ℤ} {ns : List ℤ} {d : Descent (BitVec 16)} (hclose : Close ns)
    (hwindow : InWindow ((low16 n - BitVec.ofNat 16 kMaxPacketAge)::ns.map low16))
    (hbound : ∀ x ∈ ns, x-n < 2^15) (hk : k ∈ ns) (hfar : 2^15-kMaxPacketAge ≤ k-n) :
    eraseOld d (ns.map low16) (low16 n) = [] := by
  simp only [kMaxPacketAge] at hfar
  rw [low16_sub_age] at hwindow
  obtain ⟨start,hstart⟩ := hwindow.exists_start
  have hprobe := hstart (n-kMaxPacketAge) List.mem_cons_self
  have hfirst := hstart k (List.mem_cons_of_mem _ (List.mem_map_of_mem hk))
  rw [eraseOld,low16_sub_age,lowerBound_eq_length,List.drop_length]
  intro x hx
  obtain ⟨y,hy,rfl⟩ := List.mem_map.mp hx
  have hy' := hstart y (List.mem_cons_of_mem _ (List.mem_map_of_mem hy))
  have hkn := hbound k hk
  have hyn := hbound y hy
  have hyk := hclose y hy k hk
  have hky := hclose k hk y hy
  simp only [kMaxPacketAge] at hprobe
  apply isSeqNumLessThan_wrap
  · simp only [kMaxPacketAge]
    omega
  · simp only [kMaxPacketAge]
    omega

theorem recent_first (n : ℤ) : recent n (track n []) = track n [] := by
  simp [recent,track]

end Sets

/-! ### Sets around the circle -/

section Circle
variable {ns : List ℤ} {n x : ℤ} {set : List (BitVec 16)} {d : Descent (BitVec 16)}

/-- The oldest and the newest number of a set. -/
structure Ends (set : List (BitVec 16)) (ns : List ℤ) (a b : ℤ) : Prop where
  head : set.head? = some (low16 a)
  last : set.getLast? = some (low16 b)
  oldest : a ∈ ns
  newest : b ∈ ns
  between : ∀ x ∈ ns, a ≤ x ∧ x ≤ b

theorem Stores.ends (h : Stores set ns) (hne : ns ≠ []) : ∃ a b, Ends set ns a b := by
  refine ⟨ns.head hne,ns.getLast hne,?_,?_,List.head_mem hne,List.getLast_mem hne,?_⟩
  · rw [h.eq,List.head?_map,List.head?_eq_some_head hne]
    rfl
  · rw [h.eq,List.getLast?_map,List.getLast?_eq_some_getLast hne]
    rfl
  · intro x hx
    constructor
    · have hsorted := h.sorted
      rw [← List.cons_head_tail hne] at hsorted hx
      cases List.mem_cons.mp hx with
      | inl heq => exact Int.le_of_eq heq.symm
      | inr hmem => exact Int.le_of_lt ((List.pairwise_cons.mp hsorted).1 x hmem)
    · have hsorted := h.sorted
      rw [← List.dropLast_append_getLast hne] at hsorted hx
      cases List.mem_append.mp hx with
      | inl hmem =>
          have hlast := (List.pairwise_append.mp hsorted).2.2 x hmem
          exact Int.le_of_lt (hlast _ (List.mem_singleton_self _))
      | inr heq => exact Int.le_of_eq (List.mem_singleton.mp heq)

/-- A number is in a window with a set exactly if it is in sight. -/
theorem Stores.inWindow_iff (h : Stores set ns) :
    InWindow (low16 n::set) ↔ InSight set (low16 n) := by
  by_cases hne : ns = []
  · have hset : set = [] := by rw [h.eq,hne]; rfl
    rw [hset]
    refine iff_of_true ⟨low16 n,fun x hx => ?_⟩ fun oldest holdest => ?_
    · rw [List.mem_singleton.mp hx,BitVec.sub_self]
      decide
    · cases holdest
  · obtain ⟨a,b,hends⟩ := h.ends hne
    have hclose := h.close b hends.newest a hends.oldest
    have hbehind := low16_sub_toNat n a
    have hahead := low16_sub_toNat b n
    have hab := hends.between b hends.newest
    have hsight : InSight set (low16 n) ↔
        (low16 n - low16 a).toNat < 2^15 ∨ (low16 b - low16 n).toNat < 2^15 := by
      rw [InSight,hends.head,hends.last]
      simp
    rw [hsight]
    constructor
    · intro hwindow
      obtain ⟨start,hstart⟩ := hwindow.exists_start
      have hn := hstart n List.mem_cons_self
      have ha := hstart a (List.mem_cons_of_mem _ (h.eq ▸ List.mem_map_of_mem hends.oldest))
      have hb := hstart b (List.mem_cons_of_mem _ (h.eq ▸ List.mem_map_of_mem hends.newest))
      omega
    · intro hnear
      by_cases hwithin : (low16 n - low16 a).toNat < 2^15
      · refine ⟨low16 a,fun x hx => ?_⟩
        cases List.mem_cons.mp hx with
        | inl heq => exact heq ▸ hwithin
        | inr hmem =>
            rw [h.eq] at hmem
            obtain ⟨y,hy,rfl⟩ := List.mem_map.mp hmem
            have hy' := hends.between y hy
            have hsub := low16_sub_toNat y a
            omega
      · refine ⟨low16 n,fun x hx => ?_⟩
        cases List.mem_cons.mp hx with
        | inl heq =>
            rw [heq,BitVec.sub_self]
            decide
        | inr hmem =>
            rw [h.eq] at hmem
            obtain ⟨y,hy,rfl⟩ := List.mem_map.mp hmem
            have hy' := hends.between y hy
            have hsub := low16_sub_toNat y n
            omega

/-- The numbers of a set may be moved around the circle together. -/
theorem Stores.turn (h : Stores set ns) (turns : ℤ) :
    Stores set (ns.map (· + 65536*turns)) where
  eq := by
    rw [h.eq,List.map_map]
    apply List.map_congr_left
    intro x _
    apply (low16_eq_iff _ _).mpr
    simp only
    omega
  sorted := by
    rw [List.pairwise_map]
    exact h.sorted.imp fun hxy => by omega
  close := by
    intro x hx y hy
    obtain ⟨x',hx',rfl⟩ := List.mem_map.mp hx
    obtain ⟨y',hy',rfl⟩ := List.mem_map.mp hy
    have hxy := h.close x' hx' y' hy'
    omega

/-- Where a set has room for a number, its numbers stand around it on some turn. -/
theorem Stores.near_of_hasRoom (h : Stores set ns) (hroom : HasRoom set (low16 n)) :
    ∃ ns', Stores set ns' ∧ ∀ x ∈ ns', n-x < 2^15 ∧ x-n < 2^15-kMaxPacketAge := by
  by_cases hne : ns = []
  · exact ⟨ns,h,fun x hx => absurd (hne ▸ hx) List.not_mem_nil⟩
  · obtain ⟨a,b,hends⟩ := h.ends hne
    have hclose := h.close b hends.newest a hends.oldest
    have hbehind := low16_sub_toNat n a
    have hold := low16_sub_toNat a (n-kMaxPacketAge)
    have hold' := low16_sub_toNat b (n-kMaxPacketAge)
    refine ⟨_,h.turn ((n-a)/65536 + if 2^15 ≤ (low16 n - low16 a).toNat then 1 else 0),?_⟩
    rw [HasRoom,hends.head,low16_sub_age] at hroom
    simp only [Option.mem_some_iff,exists_eq_left'] at hroom
    intro x hx
    obtain ⟨y,hy,rfl⟩ := List.mem_map.mp hx
    have hy' := hends.between y hy
    have hmem : low16 y ∈ set := h.eq ▸ List.mem_map_of_mem hy
    have hmem' : low16 a ∈ set := h.eq ▸ List.mem_map_of_mem hends.oldest
    have hsub := low16_sub_toNat y (n-kMaxPacketAge)
    simp only [kMaxPacketAge] at hold hsub hroom ⊢
    cases hroom with
    | inl hbehind' => split <;> omega
    | inr hall =>
        have hall' := hall _ hmem
        have halla := hall _ hmem'
        split <;> omega

/-- A window with a number in the set and one that is too old for it leaves room for both. -/
theorem Stores.hasRoom_of_inWindow (h : Stores set ns) {numbers : List (BitVec 16)}
    (hwindow : InWindow numbers) (hold : low16 (n-kMaxPacketAge) ∈ numbers)
    (hn : low16 n ∈ numbers) (hset : set ⊆ numbers) : HasRoom set (low16 n) := by
  by_cases hne : ns = []
  · right
    rw [h.eq,hne]
    exact fun x hx => absurd hx List.not_mem_nil
  · obtain ⟨a,b,hends⟩ := h.ends hne
    obtain ⟨start,hstart⟩ := hwindow.exists_start
    have hprobe := hstart _ hold
    have hnew := hstart n hn
    have ha := hstart a (hset (h.eq ▸ List.mem_map_of_mem hends.oldest))
    have hbehind := low16_sub_toNat n a
    rw [HasRoom,hends.head,low16_sub_age]
    simp only [Option.mem_some_iff,exists_eq_left']
    simp only [kMaxPacketAge] at hprobe ⊢
    by_cases hfirst : (a-start)%65536 ≤ (n-10000-start)%65536
    · left
      omega
    · right
      intro x hx
      have hx' : x ∈ set := hx
      rw [h.eq] at hx'
      obtain ⟨y,hy,rfl⟩ := List.mem_map.mp hx'
      have hy' := hends.between y hy
      have hclose := h.close y hy a hends.oldest
      have hstored := hstart y (hset hx)
      have hsub := low16_sub_toNat y (n-kMaxPacketAge)
      simp only [kMaxPacketAge] at hsub
      omega

/-- A number is inserted and what is too old for it looked for in order exactly if there is room
for both. -/
theorem Stores.ordered_iff_hasRoom (h : Stores set ns) (d : Descent (BitVec 16)) :
    Search.Ordered ⟨set,low16 n⟩ ∧
        Search.Ordered ⟨SearchTree.insert d isSeqNumLessThan set (low16 n),
          low16 n - BitVec.ofNat 16 kMaxPacketAge⟩ ↔ HasRoom set (low16 n) := by
  constructor
  · intro hordered
    apply h.hasRoom_of_inWindow hordered.2.window
    · rw [low16_sub_age]
      exact List.mem_cons_self
    · exact List.mem_cons_of_mem _ (mem_insert_self d _ _)
    · exact fun x hx => List.mem_cons_of_mem _ (mem_insert_of_mem d hx)
  · intro hroom
    obtain ⟨ns',hstores,hnear⟩ := h.near_of_hasRoom hroom
    have hadded := hstores.insert_erase (d := d) hnear
    exact ⟨hadded.1,hadded.2.1⟩

/-- Such a set stores unwrapped numbers again. -/
theorem Stores.renew (h : Stores set ns) (d : Descent (BitVec 16))
    (hroom : HasRoom set (low16 n)) :
    ∃ ns', Stores (eraseOld d (SearchTree.insert d isSeqNumLessThan set (low16 n)) (low16 n))
      ns' := by
  obtain ⟨ns',hstores,hnear⟩ := h.near_of_hasRoom hroom
  exact ⟨_,(hstores.insert_erase (d := d) hnear).2.2⟩

/-- A number is stored once. -/
theorem Stores.nodup (h : Stores set ns) : set.Nodup := by
  rw [h.eq,List.Nodup,List.pairwise_map]
  apply h.sorted.imp_of_mem
  intro x y hx hy hxy heq
  have hclose := h.close y hy x hx
  have hwrap := (low16_eq_iff x y).mp heq
  omega

/-- A part of a set that has all of it. -/
theorem Stores.eq_of_suffix (h : Stores set ns) {left : List (BitVec 16)} (hsuffix : left <:+ set)
    (hall : set ⊆ left) : left = set :=
  hsuffix.eq_of_length_le (h.nodup.subperm hall).length_le

end Circle
end Ylrtc.Nack
