import Mathlib

/-!
# Tables

A finite map from keys to values, each key at most once: the part of `std::unordered_map` that does
not depend on the order of the entries. `add` is `insert`, which keeps an entry that is there.
-/

abbrev Table (κ ν : Type*) := AList fun _ : κ => ν

namespace Table

variable {κ ν : Type*} [DecidableEq κ]

def find (t : Table κ ν) (k : κ) : Option ν := AList.lookup k t

/-- Add an entry, unless the key has one. -/
def add (t : Table κ ν) (k : κ) (v : ν) : Table κ ν :=
  if (t.find k).isSome then t else AList.insert k v t

def erase (t : Table κ ν) (k : κ) : Table κ ν := AList.erase k t

/-- The number of entries. -/
def size (t : Table κ ν) : Nat := t.keys.length

/-- The value of every entry. -/
def values (t : Table κ ν) : List ν := t.entries.map fun entry => entry.2

variable {t : Table κ ν} {k k' : κ} {v : ν}

@[simp] theorem find_empty (k : κ) : find (∅ : Table κ ν) k = none := AList.lookup_empty k

omit [DecidableEq κ] in
@[simp] theorem size_empty : size (∅ : Table κ ν) = 0 := rfl

theorem add_of_none (h : t.find k = none) (v : ν) : t.add k v = AList.insert k v t := by
  simp [add, h]

theorem find_add (h : t.find k = none) :
    (t.add k v).find k' = if k' = k then some v else t.find k' := by
  rw [add_of_none h]
  split_ifs with hk
  · rw [hk]
    exact AList.lookup_insert t
  · exact AList.lookup_insert_ne hk

/-- What is found after adding an entry was there, or is the entry. -/
theorem find_of_find_add {x : ν} (h : (t.add k v).find k' = some x) :
    t.find k' = some x ∨ k' = k ∧ x = v := by
  cases hk : t.find k with
  | none =>
      rw [find_add hk] at h
      split_ifs at h with hkk
      · exact .inr ⟨hkk, (Option.some.inj h).symm⟩
      · exact .inl h
  | some y =>
      rw [add, hk] at h
      exact .inl h

theorem find_erase : (t.erase k).find k' = if k' = k then none else t.find k' := by
  split_ifs with hk
  · rw [hk]
    exact AList.lookup_erase k t
  · exact AList.lookup_erase_ne hk

theorem erase_add (h : t.find k = none) (v : ν) : (t.add k v).erase k = t := by
  apply AList.ext
  rw [add_of_none h]
  change List.kerase k (AList.insert k v t).entries = t.entries
  rw [AList.entries_insert_of_notMem (AList.lookup_eq_none.mp h)]
  exact List.kerase_cons_eq rfl

section
variable {ι : Type*} [DecidableEq ι] {q : ι → Table κ ν} {i j : ι}

/-- Adding an entry to one of a family of tables. -/
theorem find_update_add (h : (q i).find k = none) :
    (Function.update q i ((q i).add k v) j).find k' =
      if j = i ∧ k' = k then some v else (q j).find k' := by
  by_cases hj : j = i
  · subst hj
    rw [Function.update_self, find_add h]
    simp
  · rw [Function.update_of_ne hj, if_neg fun hc => hj hc.1]

/-- Removing an entry from one of a family of tables. -/
theorem find_update_erase :
    (Function.update q i ((q i).erase k) j).find k' =
      if j = i ∧ k' = k then none else (q j).find k' := by
  by_cases hj : j = i
  · subst hj
    rw [Function.update_self, find_erase]
    simp
  · rw [Function.update_of_ne hj, if_neg fun hc => hj hc.1]

end

theorem size_add (h : t.find k = none) (v : ν) : (t.add k v).size = t.size + 1 := by
  have hk : k ∉ t.keys := AList.lookup_eq_none.mp h
  rw [add_of_none h, size, AList.keys_insert, List.erase_of_not_mem hk, List.length_cons, size]

theorem size_erase (h : t.find k = some v) : (t.erase k).size + 1 = t.size := by
  have hk : k ∈ t.keys := AList.lookup_isSome.mp (Option.isSome_iff_exists.mpr ⟨v, h⟩)
  have hpos : 0 < t.keys.length := List.length_pos_of_mem hk
  rw [size, size, erase, AList.keys_erase, List.length_erase_of_mem hk]
  exact Nat.sub_add_cancel hpos

/-! ## Values -/

omit [DecidableEq κ] in
@[simp] theorem values_empty : values (∅ : Table κ ν) = [] := rfl

theorem mem_values : v ∈ t.values ↔ ∃ k, t.find k = some v := by
  rw [values, List.mem_map]
  constructor
  · rintro ⟨entry, hentry, rfl⟩
    exact ⟨entry.1, AList.mem_lookup_iff.mpr hentry⟩
  · rintro ⟨k, hk⟩
    exact ⟨⟨k, v⟩, AList.mem_lookup_iff.mp hk, rfl⟩

/-- A table that holds no value under two keys lists each of its values once. -/
theorem nodup_values (h : ∀ k k' v, t.find k = some v → t.find k' = some v → k = k') :
    t.values.Nodup := by
  refine List.Nodup.map_on (fun e he e' he' hv => ?_) t.nodupKeys.nodup
  have hfind : t.find e.1 = some e.2 := AList.mem_lookup_iff.mpr he
  have hfind' : t.find e'.1 = some e.2 := AList.mem_lookup_iff.mpr (hv ▸ he')
  exact Sigma.ext (h _ _ _ hfind hfind') (heq_of_eq hv)

theorem values_add (h : t.find k = none) (v : ν) : (t.add k v).values = v :: t.values := by
  rw [add_of_none h, values, AList.entries_insert_of_notMem (AList.lookup_eq_none.mp h),
    List.map_cons, values]

theorem values_erase (h : t.find k = some v) : t.values.Perm (v :: (t.erase k).values) := by
  have hmem : (⟨k, v⟩ : Sigma fun _ => ν) ∈ t.entries := AList.mem_lookup_iff.mp h
  have hk : k ∈ t.entries.keys := List.mem_keys_of_mem hmem
  obtain ⟨v', before, after, -, hentries, herased⟩ := List.exists_of_kerase hk
  -- the entry of the key is the one that is found
  obtain rfl : v = v' := by
    have hmem' : (⟨k, v'⟩ : Sigma fun _ => ν) ∈ t.entries := by
      rw [hentries]
      exact List.mem_append_right _ List.mem_cons_self
    have hfind : t.find k = some v' := AList.mem_lookup_iff.mpr hmem'
    exact Option.some.inj (h.symm.trans hfind)
  have hleft : (t.erase k).entries = before ++ after := herased
  rw [values, values, hleft, hentries, List.map_append, List.map_cons, List.map_append]
  exact List.perm_middle

end Table
