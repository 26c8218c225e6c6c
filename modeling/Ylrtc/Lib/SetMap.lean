import Mathlib.Data.List.Nodup

/-!
# Maps from keys to sets of values

The entries stand in the order in which a loop over the map meets them; neither a key nor a
value of one key stands twice. Every operation is described by the values that stand under
the keys.
-/
namespace Ylrtc

theorem SetMap.keys_nodup_nil (K V : Type) : (([] : List (K × List V)).map Prod.fst).Nodup :=
  List.nodup_nil

theorem SetMap.values_nodup_nil (K V : Type) : ∀ e ∈ ([] : List (K × List V)), e.2.Nodup :=
  List.forall_mem_nil _

structure SetMap (K V : Type) where
  entries : List (K × List V) := []
  keys_nodup : (entries.map Prod.fst).Nodup := by exact SetMap.keys_nodup_nil _ _
  values_nodup : ∀ e ∈ entries, e.2.Nodup := by exact SetMap.values_nodup_nil _ _

namespace SetMap
variable {K V : Type}

/-- A value stands under a key. -/
def Under (m : SetMap K V) (k : K) (v : V) : Prop := ∃ vs, (k,vs) ∈ m.entries ∧ v ∈ vs

def HasKey (m : SetMap K V) (k : K) : Prop := ∃ vs, (k,vs) ∈ m.entries

@[simp] theorem not_under_empty (k : K) (v : V) : ¬ Under ({} : SetMap K V) k v := by
  rintro ⟨vs,h,_⟩
  exact List.not_mem_nil h

@[simp] theorem not_hasKey_empty (k : K) : ¬ HasKey ({} : SetMap K V) k := by
  rintro ⟨vs,h⟩
  exact List.not_mem_nil h

theorem Under.hasKey {m : SetMap K V} {k : K} {v : V} (h : m.Under k v) : m.HasKey k := by
  obtain ⟨vs,hvs,_⟩ := h
  exact ⟨vs,hvs⟩

/-- A key has one entry. -/
theorem entry_unique {m : SetMap K V} {k : K} {vs ws : List V} (hv : (k,vs) ∈ m.entries)
    (hw : (k,ws) ∈ m.entries) : vs = ws := by
  have h := List.inj_on_of_nodup_map m.keys_nodup hv hw rfl
  exact (Prod.mk.inj h).2

/-- A value that stands under one key stands in one entry. -/
theorem entries_split {m : SetMap K V} {k : K} {v : V} (h : m.Under k v)
    (hunique : ∀ j, m.Under j v → j = k) :
    ∃ before vs after, m.entries = before++(k,vs)::after ∧ v ∈ vs ∧
      (∀ e ∈ before, v ∉ e.2) ∧ ∀ e ∈ after, v ∉ e.2 := by
  obtain ⟨vs,hvs,hv⟩ := h
  obtain ⟨before,after,hsplit⟩ := List.append_of_mem hvs
  have hkeys := m.keys_nodup
  rw [hsplit,List.map_append,List.map_cons,List.nodup_middle,List.nodup_cons,
    List.mem_append,not_or] at hkeys
  refine ⟨before,vs,after,hsplit,hv,?_,?_⟩
  · intro e he hve
    have hek := hunique e.1 ⟨e.2,by rw [hsplit]; exact List.mem_append_left _ he,hve⟩
    exact hkeys.1.1 (List.mem_map.mpr ⟨e,he,hek⟩)
  · intro e he hve
    have hek := hunique e.1
      ⟨e.2,by rw [hsplit]; exact List.mem_append_right _ (List.mem_cons_of_mem _ he),hve⟩
    exact hkeys.1.2 (List.mem_map.mpr ⟨e,he,hek⟩)

section Find
variable [DecidableEq K]

/-- The values under a key, `none` where the key is absent. -/
def find? (m : SetMap K V) (k : K) : Option (List V) :=
  (m.entries.find? fun e => e.1 = k).map Prod.snd

theorem find?_eq_some {m : SetMap K V} {k : K} {vs : List V} :
    m.find? k = some vs ↔ (k,vs) ∈ m.entries := by
  constructor
  · intro h
    obtain ⟨⟨j,ws⟩,he,rfl⟩ := Option.map_eq_some_iff.mp h
    have hj : j = k := by simpa using List.find?_some he
    rw [← hj]
    exact List.mem_of_find?_eq_some he
  · intro h
    have hsome : (m.entries.find? fun e => e.1 = k).isSome := by
      rw [List.find?_isSome]
      exact ⟨(k,vs),h,by simp⟩
    obtain ⟨⟨j,ws⟩,he⟩ := Option.isSome_iff_exists.mp hsome
    have hj : j = k := by simpa using List.find?_some he
    subst hj
    rw [find?,he,Option.map_some,entry_unique (List.mem_of_find?_eq_some he) h]

theorem find?_eq_none {m : SetMap K V} {k : K} : m.find? k = none ↔ ¬ m.HasKey k := by
  rw [Option.eq_none_iff_forall_ne_some]
  simp only [HasKey,not_exists,ne_eq,find?_eq_some]

/-- The values a loop over the entry of a key meets, none where the key is absent. -/
def valuesOf (m : SetMap K V) (k : K) : List V := (m.find? k).getD []

theorem mem_valuesOf {m : SetMap K V} {k : K} {v : V} : v ∈ m.valuesOf k ↔ m.Under k v := by
  constructor
  · intro h
    cases hf : m.find? k with
    | none => simp [valuesOf,hf] at h
    | some vs =>
        rw [valuesOf,hf,Option.getD_some] at h
        exact ⟨vs,find?_eq_some.mp hf,h⟩
  · rintro ⟨vs,hvs,hv⟩
    rw [valuesOf,find?_eq_some.mpr hvs,Option.getD_some]
    exact hv

instance (m : SetMap K V) (k : K) (v : V) [DecidableEq V] : Decidable (m.Under k v) :=
  decidable_of_iff _ mem_valuesOf

end Find

/-! ### Operations -/

/-- An operation that keeps some of the values of each entry, or none of the entry. -/
def prune (m : SetMap K V) (f : K → List V → Option (List V))
    (hf : ∀ k vs ws, f k vs = some ws → ws.Sublist vs) : SetMap K V where
  entries := m.entries.filterMap fun e => (f e.1 e.2).map fun ws => (e.1,ws)
  keys_nodup := by
    refine m.keys_nodup.sublist ?_
    induction m.entries with
    | nil => simp
    | cons e es ih =>
        rw [List.filterMap_cons]
        cases f e.1 e.2 with
        | none => exact ih.cons _
        | some ws => exact ih.cons_cons _
  values_nodup := by
    intro e he
    obtain ⟨⟨j,vs⟩,hj,h⟩ := List.mem_filterMap.mp he
    obtain ⟨ws,hws,rfl⟩ := Option.map_eq_some_iff.mp h
    exact (m.values_nodup _ hj).sublist (hf _ _ _ hws)

theorem mem_prune {m : SetMap K V} {f : K → List V → Option (List V)}
    {hf : ∀ k vs ws, f k vs = some ws → ws.Sublist vs} {k : K} {ws : List V} :
    (k,ws) ∈ (m.prune f hf).entries ↔ ∃ vs, (k,vs) ∈ m.entries ∧ f k vs = some ws := by
  simp only [prune,List.mem_filterMap,Option.map_eq_some_iff,Prod.mk.injEq,Prod.exists]
  constructor
  · rintro ⟨j,vs,h,us,hus,rfl,rfl⟩
    exact ⟨vs,h,hus⟩
  · rintro ⟨vs,h,hws⟩
    exact ⟨k,vs,h,ws,hws,rfl,rfl⟩

section Insert
variable [DecidableEq K] [DecidableEq V]

/-- `m[k].insert(v)` on a list of entries. -/
def insertEntry (k : K) (v : V) : List (K × List V) → List (K × List V)
  | [] => [(k,[v])]
  | e::es => if e.1 = k then (e.1,e.2.insert v)::es else e::insertEntry k v es

theorem keys_insertEntry (k : K) (v : V) (es : List (K × List V)) :
    (insertEntry k v es).map Prod.fst =
      if k ∈ es.map Prod.fst then es.map Prod.fst else es.map Prod.fst++[k] := by
  induction es with
  | nil => simp [insertEntry]
  | cons e es ih =>
      by_cases h : e.1 = k
      · simp [insertEntry,h]
      · rw [insertEntry,if_neg h,List.map_cons,ih,List.map_cons]
        by_cases hk : k ∈ es.map Prod.fst
        · rw [if_pos hk,if_pos (List.mem_cons_of_mem _ hk)]
        · rw [if_neg hk,if_neg (by simp only [List.mem_cons,not_or]; exact ⟨Ne.symm h,hk⟩),
            List.cons_append]

theorem mem_insertEntry {k j : K} {v : V} {ws : List V} {es : List (K × List V)}
    (h : (es.map Prod.fst).Nodup) :
    (j,ws) ∈ insertEntry k v es ↔ (j ≠ k ∧ (j,ws) ∈ es) ∨
      j = k ∧ ((∃ vs, (k,vs) ∈ es ∧ ws = vs.insert v) ∨ k ∉ es.map Prod.fst ∧ ws = [v]) := by
  induction es with
  | nil => simp [insertEntry]
  | cons e es ih =>
      obtain ⟨i,us⟩ := e
      rw [List.map_cons,List.nodup_cons] at h
      by_cases hi : i = k
      · subst hi
        have habsent : ∀ ws, (i,ws) ∉ es := by
          intro ws hw
          exact h.1 (List.mem_map.mpr ⟨(i,ws),hw,rfl⟩)
        rw [insertEntry,if_pos rfl]
        simp only [List.mem_cons,Prod.mk.injEq,List.map_cons]
        grind
      · rw [insertEntry,if_neg hi]
        simp only [List.mem_cons,Prod.mk.injEq,List.map_cons,ih h.2]
        grind

def insert (m : SetMap K V) (k : K) (v : V) : SetMap K V where
  entries := insertEntry k v m.entries
  keys_nodup := by
    rw [keys_insertEntry]
    split
    · exact m.keys_nodup
    · rename_i h
      exact List.nodup_append.mpr ⟨m.keys_nodup,by simp,by grind⟩
  values_nodup := by
    rintro ⟨j,ws⟩ he
    rw [mem_insertEntry m.keys_nodup] at he
    rcases he with ⟨_,hm⟩ | ⟨rfl,⟨vs,hm,rfl⟩ | ⟨_,rfl⟩⟩
    · exact m.values_nodup _ hm
    · exact (m.values_nodup _ hm).insert
    · simp

theorem under_insert {m : SetMap K V} {k j : K} {v w : V} :
    (m.insert k v).Under j w ↔ m.Under j w ∨ j = k ∧ w = v := by
  simp only [Under,insert,mem_insertEntry m.keys_nodup]
  constructor
  · rintro ⟨ws,⟨_,hm⟩ | ⟨rfl,⟨vs,hm,rfl⟩ | ⟨_,rfl⟩⟩,hw⟩
    · exact .inl ⟨ws,hm,hw⟩
    · rw [List.mem_insert_iff] at hw
      rcases hw with rfl | hw
      · exact .inr ⟨rfl,rfl⟩
      · exact .inl ⟨vs,hm,hw⟩
    · exact .inr ⟨rfl,List.mem_singleton.mp hw⟩
  · rintro (⟨vs,hm,hw⟩ | ⟨rfl,rfl⟩)
    · by_cases hj : j = k
      · subst hj
        exact ⟨vs.insert v,.inr ⟨rfl,.inl ⟨vs,hm,rfl⟩⟩,List.mem_insert_of_mem hw⟩
      · exact ⟨vs,.inl ⟨hj,hm⟩,hw⟩
    · by_cases hk : j ∈ m.entries.map Prod.fst
      · obtain ⟨⟨i,vs⟩,hm,rfl⟩ := List.mem_map.mp hk
        exact ⟨vs.insert w,.inr ⟨rfl,.inl ⟨vs,hm,rfl⟩⟩,List.mem_insert_self⟩
      · exact ⟨[w],.inr ⟨rfl,.inr ⟨hk,rfl⟩⟩,List.mem_singleton_self w⟩

theorem hasKey_insert {m : SetMap K V} {k j : K} {v : V} :
    (m.insert k v).HasKey j ↔ m.HasKey j ∨ j = k := by
  constructor
  · rintro ⟨ws,hw⟩
    rw [insert,mem_insertEntry m.keys_nodup] at hw
    rcases hw with ⟨_,hm⟩ | ⟨rfl,_⟩
    · exact .inl ⟨ws,hm⟩
    · exact .inr rfl
  · rintro (⟨vs,hm⟩ | rfl)
    · by_cases hj : j = k
      · subst hj
        exact (under_insert.mpr (.inr ⟨rfl,rfl⟩)).hasKey
      · exact ⟨vs,by rw [insert,mem_insertEntry m.keys_nodup]; exact .inl ⟨hj,hm⟩⟩
    · exact (under_insert.mpr (.inr ⟨rfl,rfl⟩)).hasKey

/-- What a key has already is inserted without effect. -/
theorem insertEntry_of_mem {k : K} {v : V} {vs : List V} {es : List (K × List V)}
    (hes : (es.map Prod.fst).Nodup) (h : (k,vs) ∈ es) (hv : v ∈ vs) :
    insertEntry k v es = es := by
  induction es with
  | nil => exact absurd h List.not_mem_nil
  | cons e es ih =>
      rw [List.map_cons,List.nodup_cons] at hes
      rcases List.mem_cons.mp h with rfl | h
      · rw [insertEntry,if_pos rfl,List.insert_of_mem hv]
      · have hne : e.1 ≠ k := by
          rintro rfl
          exact hes.1 (List.mem_map.mpr ⟨_,h,rfl⟩)
        rw [insertEntry,if_neg hne,ih hes.2 h]

theorem insert_eq_self_iff {m : SetMap K V} {k : K} {v : V} :
    m.insert k v = m ↔ m.Under k v := by
  constructor
  · intro h
    rw [← h]
    exact under_insert.mpr (.inr ⟨rfl,rfl⟩)
  · rintro ⟨vs,hvs,hv⟩
    have hentries : (m.insert k v).entries = m.entries :=
      insertEntry_of_mem m.keys_nodup hvs hv
    rcases hm : m.insert k v with ⟨es,_,_⟩
    rw [hm] at hentries
    obtain rfl := hentries
    rfl

end Insert

section EraseKey
variable [DecidableEq K]

/-- `m.erase(k)`. -/
def eraseKey (m : SetMap K V) (k : K) : SetMap K V :=
  m.prune (fun j vs => if j = k then none else some vs) (by
    intro j vs ws h
    split at h
    · exact absurd h (by simp)
    · exact (Option.some.inj h) ▸ List.Sublist.refl vs)

theorem mem_eraseKey {m : SetMap K V} {k j : K} {ws : List V} :
    (j,ws) ∈ (m.eraseKey k).entries ↔ (j,ws) ∈ m.entries ∧ j ≠ k := by
  rw [eraseKey,mem_prune]
  grind

theorem under_eraseKey {m : SetMap K V} {k j : K} {v : V} :
    (m.eraseKey k).Under j v ↔ m.Under j v ∧ j ≠ k := by
  simp only [Under,mem_eraseKey]
  grind

theorem hasKey_eraseKey {m : SetMap K V} {k j : K} :
    (m.eraseKey k).HasKey j ↔ m.HasKey j ∧ j ≠ k := by
  simp only [HasKey,mem_eraseKey]
  grind

@[simp] theorem find?_eraseKey {m : SetMap K V} {k : K} : (m.eraseKey k).find? k = none := by
  rw [find?_eq_none,hasKey_eraseKey]
  exact fun h => h.2 rfl

end EraseKey

section EraseValue
variable [DecidableEq V]

/-- Erases a value from every set, and keeps the keys. -/
def eraseValue (m : SetMap K V) (v : V) : SetMap K V :=
  m.prune (fun _ vs => some (vs.erase v)) (by
    intro j vs ws h
    exact (Option.some.inj h) ▸ List.erase_sublist)

theorem under_eraseValue {m : SetMap K V} {k : K} {v w : V} :
    (m.eraseValue v).Under k w ↔ m.Under k w ∧ w ≠ v := by
  simp only [Under,eraseValue,mem_prune,Option.some.injEq]
  constructor
  · rintro ⟨ws,⟨vs,hm,rfl⟩,hw⟩
    rw [(m.values_nodup _ hm).mem_erase_iff] at hw
    exact ⟨⟨vs,hm,hw.2⟩,hw.1⟩
  · rintro ⟨⟨vs,hm,hw⟩,hne⟩
    exact ⟨vs.erase v,⟨vs,hm,rfl⟩,(m.values_nodup _ hm).mem_erase_iff.mpr ⟨hne,hw⟩⟩

theorem hasKey_eraseValue {m : SetMap K V} {k : K} {v : V} :
    (m.eraseValue v).HasKey k ↔ m.HasKey k := by
  simp only [HasKey,eraseValue,mem_prune,Option.some.injEq]
  grind

/-- Erases a value from every set, and the keys whose set is then empty. -/
def dropValue (m : SetMap K V) (v : V) : SetMap K V :=
  m.prune (fun _ vs => if vs.erase v = [] then none else some (vs.erase v)) (by
    intro j vs ws h
    split at h
    · exact absurd h (by simp)
    · exact (Option.some.inj h) ▸ List.erase_sublist)

theorem under_dropValue {m : SetMap K V} {k : K} {v w : V} :
    (m.dropValue v).Under k w ↔ m.Under k w ∧ w ≠ v := by
  simp only [Under,dropValue,mem_prune]
  constructor
  · rintro ⟨ws,⟨vs,hm,h⟩,hw⟩
    split at h
    · exact absurd h (by simp)
    · rw [← Option.some.inj h,(m.values_nodup _ hm).mem_erase_iff] at hw
      exact ⟨⟨vs,hm,hw.2⟩,hw.1⟩
  · rintro ⟨⟨vs,hm,hw⟩,hne⟩
    have herase := (m.values_nodup _ hm).mem_erase_iff.mpr ⟨hne,hw⟩
    exact ⟨vs.erase v,⟨vs,hm,if_neg (List.ne_nil_of_mem herase)⟩,herase⟩

end EraseValue
end SetMap
end Ylrtc
