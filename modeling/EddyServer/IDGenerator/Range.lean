import EddyServer.IDGenerator
import EddyServer.Library.Transition

/-!
# Ids of a range

A generator for the ids from `min_id` to `max_id` of any unsigned type, and whoever draws ids from
it and puts them back. The ids in use and the pool are the ids that the counter has given out, as
long as it does not go past the largest value of the type.
-/

namespace EddyServer

variable {w : Nat}

/-- `IDGenerator(min_id, max_id, threshold)`. -/
def IDGenerator.ofRange (min max : BitVec w) (threshold : Nat) : IDGenerator w :=
  { max := max, next := min, threshold := threshold, pools := ∅ }

/-- The default arguments. -/
theorem IDGenerator.new_eq (min : BitVec w) :
    IDGenerator.new min = .ofRange min (.allOnes w) 4096 := rfl

/-- A generator, the ids that are in use, and how many ids the counter has given out. -/
structure Issuer (w : Nat) where
  generator : IDGenerator w
  outstanding : Finset (BitVec w)
  counted : Nat

namespace Issuer

/-- A call of `get` that would find `first` at the front of the pool, or a call of `put`. -/
inductive Act (w : Nat)
  | get (first : BitVec w)
  | put (id : BitVec w)

def start (min max : BitVec w) (threshold : Nat) : Issuer w :=
  { generator := .ofRange min max threshold, outstanding := ∅, counted := 0 }

/-- Only an id in use is put back. -/
def step (s : Issuer w) : Act w → Option (Issuer w)
  | .get first =>
    if s.generator.Offers first then
      match s.generator.get first with
      | none => some s
      | some (id, g) =>
        some
          { generator := g
            outstanding := insert id s.outstanding
            counted :=
              if s.generator.pools.card ≥ s.generator.threshold then s.counted
              else s.counted + 1 }
    else none
  | .put id =>
    if id ∈ s.outstanding then
      some { s with generator := s.generator.put id, outstanding := s.outstanding.erase id }
    else none

/-- A call of `get` takes an id of the pool, or the counter has not given out the largest value of
the type yet. -/
def Unwrapped (min : BitVec w) (s : Issuer w) : Act w → Prop
  | .get _ =>
    s.generator.pools.card ≥ s.generator.threshold ∨ min.toNat + s.counted < 2 ^ w
  | .put _ => True

instance (min : BitVec w) (s : Issuer w) : (a : Act w) → Decidable (Unwrapped min s a)
  | .get _ => inferInstanceAs (Decidable (_ ∨ _))
  | .put _ => isTrue trivial

/-! ## The ids that have been given out -/

variable {min max : BitVec w} {threshold : Nat} {s s' : Issuer w} {first id : BitVec w}

theorem step_get (h : step s (.get first) = some s') :
    s.generator.Offers first ∧ (s.generator.get first = none ∧ s' = s ∨
      ∃ id g, s.generator.get first = some (id, g) ∧ s' =
        { generator := g
          outstanding := insert id s.outstanding
          counted :=
            if s.generator.pools.card ≥ s.generator.threshold then s.counted
            else s.counted + 1 }) := by
  unfold step at h
  dsimp only at h
  by_cases hoffers : s.generator.Offers first
  · rw [if_pos hoffers] at h
    refine ⟨hoffers, ?_⟩
    cases hget : s.generator.get first with
    | none =>
        rw [hget] at h
        cases h
        exact .inl ⟨rfl, rfl⟩
    | some drawn =>
        rw [hget] at h
        cases h
        exact .inr ⟨drawn.1, drawn.2, rfl, rfl⟩
  · rw [if_neg hoffers] at h
    cases h

theorem step_put (h : step s (.put id) = some s') :
    id ∈ s.outstanding ∧ s' =
      { s with generator := s.generator.put id, outstanding := s.outstanding.erase id } := by
  unfold step at h
  dsimp only at h
  split_ifs at h with hid
  cases h
  exact ⟨hid, rfl⟩

/-- The ids in use and the ids of the pool are different ones, and together those below the
counter. -/
structure Issued (min max : BitVec w) (threshold : Nat) (s : Issuer w) : Prop where
  max_eq : s.generator.max = max
  threshold_eq : s.generator.threshold = threshold
  next_eq : s.generator.next = BitVec.ofNat w (min.toNat + s.counted)
  bound : min.toNat + s.counted ≤ max.toNat + 1
  disjoint : Disjoint s.outstanding s.generator.pools
  issued : ∀ k, k ∈ s.outstanding ∨ k ∈ s.generator.pools ↔
    min.toNat ≤ k.toNat ∧ k.toNat < min.toNat + s.counted

theorem Issued.start (hle : min ≤ max) : Issued min max threshold (start min max threshold) where
  max_eq := rfl
  threshold_eq := rfl
  next_eq := by
    rw [Issuer.start, Nat.add_zero, BitVec.ofNat_toNat, BitVec.setWidth_eq]
    rfl
  bound := Nat.le_succ_of_le (BitVec.le_def.mp hle)
  disjoint := Finset.disjoint_empty_left _
  issued k := by
    simp [Issuer.start, IDGenerator.ofRange]

/-- Before the counter wraps around it shows the id that it gives out next. -/
theorem Issued.toNat_next (h : Issued min max threshold s) (hlt : min.toNat + s.counted < 2 ^ w) :
    s.generator.next.toNat = min.toNat + s.counted := by
  rw [h.next_eq, BitVec.toNat_ofNat, Nat.mod_eq_of_lt hlt]

theorem Issued.next_notMem (h : Issued min max threshold s)
    (hlt : min.toNat + s.counted < 2 ^ w) :
    s.generator.next ∉ s.outstanding ∧ s.generator.next ∉ s.generator.pools := by
  have hnext := h.toNat_next hlt
  refine ⟨fun hmem => ?_, fun hmem => ?_⟩
  · have hbelow := ((h.issued _).mp (.inl hmem)).2
    omega
  · have hbelow := ((h.issued _).mp (.inr hmem)).2
    omega

/-- What `get` yields: an id of the pool, or the counter's. -/
theorem get_cases {g g' : IDGenerator w} (h : g.get first = some (id, g')) :
    (g.pools.card ≥ g.threshold ∧ id = first ∧ g' = { g with pools := g.pools.erase first }) ∨
      (¬ g.pools.card ≥ g.threshold ∧ g.next ≤ g.max ∧ id = g.next ∧
        g' = { g with next := g.next + 1#w }) := by
  unfold IDGenerator.get at h
  split_ifs at h with hpool hnext
  · cases h
    exact .inl ⟨hpool, rfl, rfl⟩
  · cases h
    exact .inr ⟨hpool, hnext, rfl, rfl⟩

/-- **An id that `get` yields** lies in the range and is not in use. -/
theorem Issued.get (h : Issued min max threshold s) (hoffers : s.generator.Offers first)
    (hok : Unwrapped min s (.get first)) {g : IDGenerator w}
    (hget : s.generator.get first = some (id, g)) :
    min ≤ id ∧ id ≤ max ∧ id ∉ s.outstanding := by
  have hbound := h.bound
  rcases get_cases hget with ⟨hpool, rfl, -⟩ | ⟨hpool, hle, rfl, -⟩
  · -- an id of the pool was given out, so it is in the range, and it is not in use
    have hmem := hoffers hpool
    obtain ⟨hge, hlt⟩ := (h.issued id).mp (.inr hmem)
    exact ⟨BitVec.le_def.mpr hge, BitVec.le_def.mpr (by omega),
      Finset.disjoint_right.mp h.disjoint hmem⟩
  · -- the counter shows the first id that has not been given out
    have hlt := hok.resolve_left hpool
    have hnext := h.toNat_next hlt
    exact ⟨BitVec.le_def.mpr (by omega), h.max_eq ▸ hle, (h.next_notMem hlt).1⟩

theorem Issued.drawn (h : Issued min max threshold s) (hoffers : s.generator.Offers first)
    (hok : Unwrapped min s (.get first)) {g : IDGenerator w}
    (hget : s.generator.get first = some (id, g)) :
    Issued min max threshold
      { generator := g
        outstanding := insert id s.outstanding
        counted :=
          if s.generator.pools.card ≥ s.generator.threshold then s.counted
          else s.counted + 1 } := by
  rcases get_cases hget with ⟨hpool, rfl, rfl⟩ | ⟨hpool, hle, rfl, rfl⟩
  · rw [if_pos hpool]
    have hmem := hoffers hpool
    refine ⟨h.max_eq, h.threshold_eq, h.next_eq, h.bound, ?_, fun k => ?_⟩
    · rw [Finset.disjoint_insert_left]
      exact ⟨Finset.notMem_erase _ _, h.disjoint.mono_right (Finset.erase_subset _ _)⟩
    · rw [← h.issued k, Finset.mem_insert, Finset.mem_erase]
      -- only the drawn id moves, from the pool to those in use
      by_cases hk : k = id
      · subst hk
        exact ⟨fun _ => .inr hmem, fun _ => .inl (.inl rfl)⟩
      · simp [hk]
  · rw [if_neg hpool]
    have hlt := hok.resolve_left hpool
    have hnext := h.toNat_next hlt
    obtain ⟨-, hout⟩ := h.next_notMem hlt
    have hle' := BitVec.le_def.mp hle
    rw [h.max_eq] at hle'
    refine ⟨h.max_eq, h.threshold_eq, ?_, ?_, ?_, fun k => ?_⟩
    · dsimp only
      rw [h.next_eq, ← Nat.add_assoc]
      exact (BitVec.ofNat_add _ _).symm
    · dsimp only
      omega
    · rw [Finset.disjoint_insert_left]
      exact ⟨hout, h.disjoint⟩
    · have hissued := h.issued k
      rw [Finset.mem_insert, or_assoc]
      dsimp only
      rw [hissued]
      constructor
      · rintro (rfl | ⟨hge, hbelow⟩)
        · omega
        · omega
      · rintro ⟨hge, hbelow⟩
        by_cases hk : k.toNat = min.toNat + s.counted
        · exact .inl (BitVec.eq_of_toNat_eq (hk.trans hnext.symm))
        · exact .inr (by omega)

theorem Issued.put (h : Issued min max threshold s) (hid : id ∈ s.outstanding) :
    Issued min max threshold
      { s with generator := s.generator.put id, outstanding := s.outstanding.erase id } := by
  refine ⟨h.max_eq, h.threshold_eq, h.next_eq, h.bound, ?_, fun k => ?_⟩
  · rw [IDGenerator.put, Finset.disjoint_insert_right]
    exact ⟨Finset.notMem_erase _ _, h.disjoint.mono_left (Finset.erase_subset _ _)⟩
  · rw [← h.issued k, IDGenerator.put, Finset.mem_erase, Finset.mem_insert]
    by_cases hk : k = id
    · subst hk
      exact ⟨fun _ => .inl hid, fun _ => .inr (.inl rfl)⟩
    · simp [hk]

theorem Issued.step {a : Act w} (h : Issued min max threshold s) (hok : Unwrapped min s a)
    (hstep : step s a = some s') : Issued min max threshold s' := by
  cases a with
  | get first =>
      obtain ⟨hoffers, ⟨-, rfl⟩ | ⟨id, g, hget, rfl⟩⟩ := step_get hstep
      · exact h
      · exact h.drawn hoffers hok hget
  | put id =>
      obtain ⟨hid, rfl⟩ := step_put hstep
      exact h.put hid

/-- Past the largest value of the type the counter starts again at zero. -/
theorem Issued.get_wrapped (h : Issued min max threshold s)
    (hwrapped : ¬ Unwrapped min s (.get first)) :
    max = BitVec.allOnes w ∧ (∃ g, s.generator.get first = some (0, g)) ∧
      (0 < min ∨ 0 ∈ s.outstanding ∨ 0 ∈ s.generator.pools) := by
  obtain ⟨hpool, hge⟩ := not_or.mp hwrapped
  have hbound := h.bound
  have hmax := max.isLt
  -- all values of the type from the first id on have been given out
  have hall : min.toNat + s.counted = 2 ^ w := by omega
  have hnext : s.generator.next = 0 := by
    rw [h.next_eq, hall]
    apply BitVec.eq_of_toNat_eq
    rw [BitVec.toNat_ofNat, Nat.mod_self]
    rfl
  have hle : s.generator.next ≤ s.generator.max := by
    rw [hnext]
    exact BitVec.le_def.mpr (Nat.zero_le _)
  refine ⟨?_, ⟨{ s.generator with next := s.generator.next + 1#w }, ?_⟩, ?_⟩
  · apply BitVec.eq_of_toNat_eq
    rw [BitVec.toNat_allOnes]
    omega
  · rw [IDGenerator.get, if_neg hpool, if_pos hle, hnext]
  · by_cases hmin : min = 0
    · refine .inr ((h.issued 0).mpr ?_)
      subst hmin
      have hpos : 0 < 2 ^ w := Nat.two_pow_pos w
      exact ⟨Nat.le_refl _, by omega⟩
    · have hne : min.toNat ≠ 0 := fun hzero => hmin (BitVec.eq_of_toNat_eq hzero)
      exact .inl (BitVec.lt_def.mpr (Nat.pos_of_ne_zero hne))

/-- **Ids are unique and in range.** In a run whose calls of `get` never draw from a counter that
has given out the largest value of the type, every id that `get` yields lies in the range and is not
in use. The first call that does draw from it is of a generator whose maximum is that value, and
yields zero, which is below the range or has been given out before. -/
theorem ids_unique (hle : min ≤ max)
    (hrun : Transition.Run step (Unwrapped min) (start min max threshold) s)
    (hoffers : s.generator.Offers first) :
    (Unwrapped min s (.get first) → ∀ id g, s.generator.get first = some (id, g) →
      min ≤ id ∧ id ≤ max ∧ id ∉ s.outstanding) ∧
    (¬ Unwrapped min s (.get first) →
      max = BitVec.allOnes w ∧ (∃ g, s.generator.get first = some (0, g)) ∧
        (0 < min ∨ 0 ∈ s.outstanding ∨ 0 ∈ s.generator.pools)) := by
  have h : Issued min max threshold s :=
    hrun.invariant (fun hi hok hstep => hi.step hok hstep) (.start hle)
  exact ⟨fun hok id g hget => h.get hoffers hok hget, fun hwrapped => h.get_wrapped hwrapped⟩

/-- Two ids of a byte, the first one put back. -/
theorem ids_unique_two_ids :
    ∃ s : Issuer 8, Transition.exec step (start 1 255 4096) [.get 0, .get 0, .put 1] = some s ∧
      ∀ id g, s.generator.get 0 = some (id, g) → 1 ≤ id ∧ id ≤ 255 ∧ id ∉ s.outstanding := by
  obtain ⟨s, hs, hfew⟩ := Option.map_eq_some_iff.mp (show
    (Transition.exec step (start (1 : BitVec 8) 255 4096) [.get 0, .get 0, .put 1]).map (fun s =>
      decide (Unwrapped 1 s (.get 0) ∧ s.generator.Offers 0)) = some true by decide +kernel)
  obtain ⟨hok, hoffers⟩ := of_decide_eq_true hfew
  have hrun : Transition.Run step (Unwrapped (1 : BitVec 8)) (start 1 255 4096) s :=
    Transition.run_of_exec hs (by decide +kernel)
  exact ⟨s, hs, (ids_unique (by decide) hrun hoffers).1 hok⟩

/-- All 255 ids of a byte from 1 on are drawn, and the next one is 0; all 256 from 0 on are drawn,
and the next one is the first one again. -/
theorem ids_wrap_around :
    (∃ s : Issuer 8, Transition.exec step (start 1 255 4096) (.replicate 255 (.get 0)) = some s ∧
      ∃ id g, s.generator.get 0 = some (id, g) ∧ ¬ 1 ≤ id) ∧
    ∃ s : Issuer 8, Transition.exec step (start 0 255 4096) (.replicate 256 (.get 0)) = some s ∧
      ∃ id g, s.generator.get 0 = some (id, g) ∧ id ∈ s.outstanding := by
  constructor
  · obtain ⟨s, hs, hzero⟩ := Option.map_eq_some_iff.mp (show
      (Transition.exec step (start (1 : BitVec 8) 255 4096) (.replicate 255 (.get 0))).map (fun s =>
        (s.generator.get 0).map Prod.fst) = some (some 0) by decide +kernel)
    obtain ⟨⟨id, g⟩, hget, rfl⟩ := Option.map_eq_some_iff.mp hzero
    exact ⟨s, hs, 0, g, hget, by decide⟩
  · obtain ⟨s, hs, hzero⟩ := Option.map_eq_some_iff.mp (show
      (Transition.exec step (start (0 : BitVec 8) 255 4096) (.replicate 256 (.get 0))).map (fun s =>
        ((s.generator.get 0).map Prod.fst, decide (0 ∈ s.outstanding))) = some (some 0, true) by
        decide +kernel)
    obtain ⟨hfirst, hmem⟩ := Prod.mk.inj hzero
    obtain ⟨⟨id, g⟩, hget, rfl⟩ := Option.map_eq_some_iff.mp hfirst
    exact ⟨s, hs, 0, g, hget, of_decide_eq_true hmem⟩

/-! ## When no id is left -/

/-- Below the largest value of the type the counter never wraps around. -/
theorem Issued.unwrapped (h : Issued min max threshold s) (hmax : max < BitVec.allOnes w)
    (a : Act w) : Unwrapped min s a := by
  have hbound := h.bound
  have htop := BitVec.lt_def.mp hmax
  rw [BitVec.toNat_allOnes] at htop
  cases a with
  | get first =>
      right
      omega
  | put id => trivial

/-- `get` fails when the range has been given out and the pool is not full. -/
theorem Issued.get_eq_none_iff (h : Issued min max threshold s) (hle : min ≤ max)
    (hmax : max < BitVec.allOnes w) :
    s.generator.get first = none ↔
      (∀ k, min ≤ k → k ≤ max → k ∈ s.outstanding ∨ k ∈ s.generator.pools) ∧
        s.generator.pools.card < threshold := by
  have hbound := h.bound
  have htop := BitVec.lt_def.mp hmax
  rw [BitVec.toNat_allOnes] at htop
  have hnext := h.toNat_next (by omega)
  -- the counter is past the maximum when every id of the range has been given out
  have hused : ¬ s.generator.next ≤ s.generator.max ↔
      ∀ k, min ≤ k → k ≤ max → k ∈ s.outstanding ∨ k ∈ s.generator.pools := by
    rw [h.max_eq, BitVec.le_def, hnext]
    constructor
    · intro hpast k hge hlow
      rw [BitVec.le_def] at hge hlow
      exact (h.issued k).mpr ⟨hge, by omega⟩
    · intro hall
      have hlast := ((h.issued max).mp (hall max hle (BitVec.le_refl _))).2
      omega
  rw [← hused, ← h.threshold_eq, IDGenerator.get]
  split_ifs with hpool hfits
  · simp [hpool]
  · simp [hfits]
  · simp [hfits, Nat.lt_of_not_le hpool]

/-- What waits in the pool, or is put there, stays until it is given out. -/
theorem pooled_step {a : Act w} {k : BitVec w} (hstep : step s a = some s')
    (hk : k ∈ s.generator.pools ∨ a = .put k) :
    k ∈ s'.generator.pools ∨ ∃ first g, a = .get first ∧ s.generator.get first = some (k, g) := by
  cases a with
  | get first =>
      have hmem : k ∈ s.generator.pools := hk.resolve_right fun hput => by cases hput
      obtain ⟨-, ⟨-, rfl⟩ | ⟨id, g, hget, rfl⟩⟩ := step_get hstep
      · exact .inl hmem
      · rcases get_cases hget with ⟨-, rfl, rfl⟩ | ⟨-, -, -, rfl⟩
        · by_cases hkid : k = id
          · subst hkid
            exact .inr ⟨k, _, rfl, hget⟩
          · exact .inl (Finset.mem_erase.mpr ⟨hkid, hmem⟩)
        · exact .inl hmem
  | put id =>
      obtain ⟨-, rfl⟩ := step_put hstep
      left
      rcases hk with hmem | hput
      · exact Finset.mem_insert_of_mem hmem
      · cases hput
        exact Finset.mem_insert_self _ _

/-- **When `get` returns false.** No sooner than the whole range is in use or waits in the pool, and
then exactly while fewer ids wait than the threshold; with a threshold of one, only when all are in
use. An id that waits, or is put back, is still there after any step, unless the step has given it
out. -/
theorem get_fails_iff (hle : min ≤ max) (hmax : max < BitVec.allOnes w)
    (hrun : Transition.Reach step (start min max threshold) s) :
    (∀ first, s.generator.get first = none ↔
      (∀ k, min ≤ k → k ≤ max → k ∈ s.outstanding ∨ k ∈ s.generator.pools) ∧
        s.generator.pools.card < threshold) ∧
    (threshold = 1 → ∀ first, s.generator.get first = none →
      ∀ k, min ≤ k → k ≤ max → k ∈ s.outstanding) ∧
    ∀ a s', step s a = some s' → ∀ k, k ∈ s.generator.pools ∨ a = .put k →
      k ∈ s'.generator.pools ∨ ∃ first g, a = .get first ∧ s.generator.get first = some (k, g) := by
  have h : Issued min max threshold s :=
    hrun.invariant (fun hi _ hstep => hi.step (hi.unwrapped hmax _) hstep) (.start hle)
  refine ⟨fun first => h.get_eq_none_iff hle hmax, fun hone first hnone k hge hlow => ?_,
    fun a s' hstep k hk => ?_⟩
  · obtain ⟨hall, hfew⟩ := (h.get_eq_none_iff hle hmax).mp hnone
    rw [hone, Nat.lt_one_iff, Finset.card_eq_zero] at hfew
    have hmem := hall k hge hlow
    rw [hfew] at hmem
    exact hmem.resolve_right (Finset.notMem_empty k)
  · exact pooled_step hstep hk

/-- A range of two bytes, both in use. -/
theorem get_fails_iff_all_in_use :
    ∃ s : Issuer 8, Transition.exec step (start 1 2 4096) [.get 0, .get 0] = some s ∧
      s.generator.get 0 = none := by
  obtain ⟨s, hs, hall⟩ := Option.map_eq_some_iff.mp (show
    (Transition.exec step (start (1 : BitVec 8) 2 4096) [.get 0, .get 0]).map (fun s =>
      decide ((∀ k : BitVec 8, 1 ≤ k → k ≤ 2 → k ∈ s.outstanding ∨ k ∈ s.generator.pools) ∧
        s.generator.pools.card < 4096)) = some true by decide +kernel)
  exact ⟨s, hs, ((get_fails_iff (by decide) (by decide) (Transition.reach_of_exec hs)).1 0).mpr
    (of_decide_eq_true hall)⟩

/-- The only id of a range is put back, and is never given out again. -/
theorem returned_id_is_lost :
    ∃ s : Issuer 8, Transition.exec step (start 1 1 4096) [.get 0, .put 1] = some s ∧
      ∀ s', Transition.Reach step s s' →
        s'.outstanding = ∅ ∧ ∀ first, s'.generator.get first = none := by
  obtain ⟨s, hs, hview⟩ := Option.map_eq_some_iff.mp (show
    (Transition.exec step (start (1 : BitVec 8) 1 4096) [.get 0, .put 1]).map (fun s =>
      (s.outstanding, s.generator.pools, s.generator.threshold,
        decide (s.generator.next ≤ s.generator.max))) = some (∅, {1}, 4096, false) by
      decide +kernel)
  simp only [Prod.mk.injEq, decide_eq_false_iff_not] at hview
  obtain ⟨hnone, hpools, hthreshold, hpast⟩ := hview
  have hfails : ∀ first, s.generator.get first = none := by
    intro first
    rw [IDGenerator.get, if_neg (by rw [hpools, hthreshold]; decide), if_neg hpast]
  -- nothing can change: no id is in use, and none is given out
  have hstuck : ∀ {t a u}, t = s → True → step t a = some u → u = s := by
    rintro t a u rfl - hstep
    cases a with
    | get first =>
        obtain ⟨-, ⟨-, rfl⟩ | ⟨id, g, hget, -⟩⟩ := step_get hstep
        · rfl
        · rw [hfails first] at hget
          cases hget
    | put id =>
        have hid := (step_put hstep).1
        rw [hnone] at hid
        exact absurd hid (Finset.notMem_empty id)
  refine ⟨s, hs, fun s' hrun => ?_⟩
  obtain rfl : s' = s := hrun.invariant hstuck rfl
  exact ⟨hnone, hfails⟩

end Issuer
end EddyServer
