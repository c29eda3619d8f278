import Mathlib
import EddyServer.Library.Table

/-!
# `IDGenerator`

Ids are drawn in order until the pool of returned ids holds `threshold_` of them; from then on an id
of the pool is drawn, whichever `*pools_.begin()` is. That choice is an argument of `get`.
-/

namespace EddyServer

structure IDGenerator (w : Nat) where
  max : BitVec w
  next : BitVec w
  threshold : Nat
  pools : Finset (BitVec w)

namespace IDGenerator

variable {w : Nat}

/-- `IDGenerator(min_id)`, with the default arguments for the maximum and the threshold. -/
def new (min : BitVec w) : IDGenerator w :=
  { max := BitVec.allOnes w, next := min, threshold := 4096, pools := ∅ }

/-- What `get` gives when `first` is the first id of the pool: an id and the generator it leaves, or
`none` if no id is left. -/
def get (g : IDGenerator w) (first : BitVec w) : Option (BitVec w × IDGenerator w) :=
  if g.pools.card ≥ g.threshold then some (first, { g with pools := g.pools.erase first })
  else if g.next ≤ g.max then some (g.next, { g with next := g.next + 1#w })
  else none

/-- `first` can be the first id of the pool, if the pool is looked at. -/
def Offers (g : IDGenerator w) (first : BitVec w) : Prop :=
  g.pools.card ≥ g.threshold → first ∈ g.pools

instance (g : IDGenerator w) (first : BitVec w) : Decidable (g.Offers first) :=
  inferInstanceAs (Decidable (_ → _))

/-- `put`; an id that is in the pool already is not added again. -/
def put (g : IDGenerator w) (id : BitVec w) : IDGenerator w :=
  { g with pools := insert id g.pools }

theorem get_threshold {g g' : IDGenerator w} {first id : BitVec w}
    (h : g.get first = some (id, g')) : g'.threshold = g.threshold := by
  unfold get at h
  split_ifs at h <;> cases h <;> rfl

/-- The id is taken from the pool, or from the counter if the pool is not full. -/
theorem get_pools {g g' : IDGenerator w} {first id : BitVec w} (h : g.get first = some (id, g')) :
    g'.next = g.next ∨ g'.pools = g.pools ∧ g.pools.card < g.threshold := by
  unfold get at h
  split_ifs at h with hpool hnext <;> cases h
  · exact .inl rfl
  · exact .inr ⟨rfl, Nat.lt_of_not_le hpool⟩

/-- Drawing an id changes the generator. -/
theorem get_ne {g g' : IDGenerator w} {first id : BitVec w} (hw : 0 < w) (hoffers : g.Offers first)
    (h : g.get first = some (id, g')) : g' ≠ g := by
  unfold get at h
  split_ifs at h with hpool hnext <;> cases h
  · intro heq
    have hpools : g.pools.erase first = g.pools := congrArg pools heq
    exact Finset.erase_eq_self.mp hpools (hoffers hpool)
  · intro heq
    have hnext : g.next + 1#w = g.next := congrArg next heq
    simp at hnext
    omega

/-! ## Ids in use -/

/-- The ids that the generator has given out and not got back are the keys of `t`. -/
structure Accounts {ν : Type*} (g : IDGenerator w) (t : Table (BitVec w) ν) : Prop where
  max : g.max = BitVec.allOnes w
  next_eq : g.next.toNat = 1 + t.size + g.pools.card
  used : ∀ k v, t.find k = some v → 0 < k.toNat ∧ k.toNat < g.next.toNat ∧ k ∉ g.pools
  pooled : ∀ k ∈ g.pools, 0 < k.toNat ∧ k.toNat < g.next.toNat

section
variable {ν : Type*} {g g' : IDGenerator w} {t : Table (BitVec w) ν} {first k : BitVec w} {v : ν}

theorem toNat_one (hw : 1 < 2 ^ w) : (1#w).toNat = 1 := by
  rw [BitVec.toNat_ofNat, Nat.mod_eq_of_lt hw]

theorem Accounts.new (hw : 1 < 2 ^ w) :
    Accounts (IDGenerator.new 1#w) (∅ : Table (BitVec w) ν) :=
  ⟨rfl, toNat_one hw, by simp, by simp [IDGenerator.new]⟩

/-- An id that is drawn is not in use, and is in use from then on. The counter does not wrap around
while there is room for the ids in use and a full pool. -/
theorem Accounts.get (h : Accounts g t) (hoffers : g.Offers first)
    (hroom : t.size + g.threshold + 1 < 2 ^ w) (hget : g.get first = some (k, g')) :
    t.find k = none ∧ 0 < k.toNat ∧ ∀ v, Accounts g' (t.add k v) := by
  have heq := h.next_eq
  unfold IDGenerator.get at hget
  split_ifs at hget with hpool hnext <;> cases hget
  · -- The id comes from the pool, where no id in use is.
    have hmem := hoffers hpool
    obtain ⟨hpos, hlt⟩ := h.pooled first hmem
    have hnone : t.find first = none := by
      by_contra hne
      obtain ⟨v, hv⟩ := Option.ne_none_iff_exists'.mp hne
      exact (h.used first v hv).2.2 hmem
    have hcard := Finset.card_erase_add_one hmem
    refine ⟨hnone, hpos, fun v => ⟨h.max, ?_, fun k' v' hk' => ?_, fun k' hk' => ?_⟩⟩
    · rw [Table.size_add hnone]
      dsimp only
      omega
    · rw [Table.find_add hnone] at hk'
      split_ifs at hk' with hkk
      · subst hkk
        exact ⟨hpos, hlt, Finset.notMem_erase _ _⟩
      · obtain ⟨h₁, h₂, h₃⟩ := h.used k' v' hk'
        exact ⟨h₁, h₂, fun hm => h₃ (Finset.mem_of_mem_erase hm)⟩
    · exact h.pooled k' (Finset.mem_of_mem_erase hk')
  · -- The id is the counter, which is above all ids in use and in the pool.
    have hone : (1#w).toNat = 1 := toNat_one (by omega)
    have hsucc : (g.next + 1#w).toNat = g.next.toNat + 1 := by
      rw [BitVec.toNat_add_of_lt] <;> omega
    have hnone : t.find g.next = none := by
      by_contra hne
      obtain ⟨v, hv⟩ := Option.ne_none_iff_exists'.mp hne
      exact Nat.lt_irrefl _ (h.used g.next v hv).2.1
    have hout : g.next ∉ g.pools := fun hmem => Nat.lt_irrefl _ (h.pooled g.next hmem).2
    refine ⟨hnone, by omega, fun v => ⟨h.max, ?_, fun k' v' hk' => ?_, fun k' hk' => ?_⟩⟩
    · rw [Table.size_add hnone]
      dsimp only
      omega
    · rw [Table.find_add hnone] at hk'
      dsimp only
      rw [hsucc]
      split_ifs at hk' with hkk
      · subst hkk
        exact ⟨by omega, Nat.lt_succ_self _, hout⟩
      · obtain ⟨h₁, h₂, h₃⟩ := h.used k' v' hk'
        exact ⟨h₁, by omega, h₃⟩
    · obtain ⟨h₁, h₂⟩ := h.pooled k' hk'
      dsimp only
      exact ⟨h₁, by omega⟩

/-- An id in use that is put back is in the pool. -/
theorem Accounts.put (h : Accounts g t) (hk : t.find k = some v) :
    Accounts (g.put k) (t.erase k) := by
  obtain ⟨hpos, hlt, hout⟩ := h.used k v hk
  have heq := h.next_eq
  have hsize := Table.size_erase hk
  refine ⟨h.max, ?_, fun k' v' hk' => ?_, fun k' hk' => ?_⟩
  · rw [IDGenerator.put, Finset.card_insert_of_notMem hout]
    dsimp only
    omega
  · rw [Table.find_erase] at hk'
    split_ifs at hk' with hkk
    obtain ⟨h₁, h₂, h₃⟩ := h.used k' v' hk'
    exact ⟨h₁, h₂, fun hm => (Finset.mem_insert.mp hm).elim hkk h₃⟩
  · rcases Finset.mem_insert.mp hk' with rfl | hm
    · exact ⟨hpos, hlt⟩
    · exact h.pooled k' hm

/-- The ids in use and the pool are all ids below the counter: there are as many of them. -/
theorem Accounts.covers (h : Accounts g t) :
    k ∈ t.keys ∨ k ∈ g.pools ↔ 1 ≤ k.toNat ∧ k.toNat < g.next.toNat := by
  have hkey : ∀ k ∈ t.keys, 1 ≤ k.toNat ∧ k.toNat < g.next.toNat ∧ k ∉ g.pools := by
    intro k hk
    obtain ⟨v, hv⟩ := Option.isSome_iff_exists.mp (AList.lookup_isSome.mpr hk)
    exact h.used k v hv
  constructor
  · rintro (hk | hk)
    · exact ⟨(hkey k hk).1, (hkey k hk).2.1⟩
    · exact h.pooled k hk
  · rintro ⟨hpos, hlt⟩
    let known := t.keys.toFinset ∪ g.pools
    let below := (Finset.Ico 1 g.next.toNat).image (BitVec.ofNat w)
    have hbelow : ∀ k : BitVec w, 1 ≤ k.toNat → k.toNat < g.next.toNat → k ∈ below := by
      intro k h₁ h₂
      exact Finset.mem_image.mpr ⟨k.toNat, Finset.mem_Ico.mpr ⟨h₁, h₂⟩, by simp⟩
    have hsub : known ⊆ below := by
      intro k hk
      rcases Finset.mem_union.mp hk with hk | hk
      · obtain ⟨h₁, h₂, -⟩ := hkey k (List.mem_toFinset.mp hk)
        exact hbelow k h₁ h₂
      · exact hbelow k (h.pooled k hk).1 (h.pooled k hk).2
    have hdisjoint : Disjoint t.keys.toFinset g.pools := by
      apply Finset.disjoint_left.mpr
      intro k hk
      exact (hkey k (List.mem_toFinset.mp hk)).2.2
    -- They are as many as the numbers below the counter, so there are no others.
    have hknown : known.card = t.size + g.pools.card := by
      rw [Finset.card_union_of_disjoint hdisjoint, List.toFinset_card_of_nodup t.keys_nodup,
        Table.size]
    have hcard : below.card ≤ known.card := by
      apply Finset.card_image_le.trans
      rw [Nat.card_Ico, hknown, h.next_eq]
      omega
    have hmem : k ∈ known := by
      rw [Finset.eq_of_subset_of_card_le hsub hcard]
      exact hbelow k hpos hlt
    exact (Finset.mem_union.mp hmem).imp_left List.mem_toFinset.mp

end
end IDGenerator
end EddyServer
