import EddyServer.ThreadPool.Order
import EddyServer.ThreadPool.Pool

/-!
# Idle means done

`wait_for_idle` of the pool waits for one thread after the other. While it waits for the next one
the list of a thread it has waited for may fill again, but what had been put into it before has
returned.
-/

namespace EddyServer
namespace Thread

/-! ## Steps of a thread -/

/-- The thread has taken a step or none. -/
def Next (θ θ' : Thread) : Prop := θ' = θ ∨ ∃ a, Runs θ a ∧ step θ a = some θ'

theorem Next.ordered {θ θ' : Thread} (h : Ordered θ) (hnext : Next θ θ') : Ordered θ' := by
  rcases hnext with rfl | ⟨a, hok, hstep⟩
  · exact h
  · exact h.step hok hstep

/-- Nothing is taken back. -/
structure Grows (θ θ' : Thread) : Prop where
  queued : θ.queued ⊆ θ'.queued
  done : θ.done ⊆ θ'.done

theorem WorkerMove.grows {θ θ' : Thread} (h : WorkerMove θ θ') : Grows θ θ' := by
  cases h with
  | returns i _ => exact ⟨List.Subset.refl _, List.subset_append_left _ _⟩
  | _ => exact ⟨List.Subset.refl _, List.Subset.refl _⟩

theorem CallMove.grows {θ θ' : Thread} {i : Nat} (h : CallMove θ i θ') : Grows θ θ' := by
  cases h with
  | goes mutex next _ _ => exact ⟨List.Subset.refl _, List.Subset.refl _⟩
  | pushes size _ => exact ⟨List.subset_append_left _ _, List.Subset.refl _⟩
  | wakes size =>
      obtain ⟨pc, heq, -⟩ := notifyOne_eq θ
      rw [heq]
      exact ⟨List.Subset.refl _, List.Subset.refl _⟩

theorem Next.grows {θ θ' : Thread} (h : Ordered θ) (hnext : Next θ θ') : Grows θ θ' := by
  rcases hnext with rfl | ⟨a, hok, hstep⟩
  · exact ⟨List.Subset.refl _, List.Subset.refl _⟩
  · cases a with
    | worker moved => exact (workerMove_of_step hstep).grows
    | spurious =>
        obtain ⟨-, rfl⟩ := step_spurious hstep
        exact ⟨List.Subset.refl _, List.Subset.refl _⟩
    | make i call =>
        obtain ⟨-, rfl⟩ := step_make hstep
        exact ⟨List.Subset.refl _, List.Subset.refl _⟩
    | call i => exact (callMove_of_step h.calling hstep).grows

/-- A call that has been made goes on by its own steps only. -/
theorem Next.call_eq {θ θ' : Thread} {i : Nat} (h : Ordered θ) (hnext : Next θ θ')
    (hmade : θ.calls i ≠ .idle) : θ'.calls i = θ.calls i ∨ θ.callStep i = some θ' := by
  rcases hnext with rfl | ⟨a, hok, hstep⟩
  · exact .inl rfl
  · cases a with
    | worker moved => cases workerMove_of_step hstep <;> exact .inl rfl
    | spurious =>
        obtain ⟨-, rfl⟩ := step_spurious hstep
        exact .inl rfl
    | make j call =>
        obtain ⟨hidle, rfl⟩ := step_make hstep
        have hne : i ≠ j := by
          rintro rfl
          exact hmade hidle
        exact .inl (calls_goto_of_ne _ _ hne)
    | call j =>
        -- a call that is not made again can only take its own step
        by_cases hij : i = j
        · subst hij
          exact .inr hstep
        · left
          cases callMove_of_step h.calling hstep with
          | goes mutex next _ _ => exact calls_goto_of_ne _ _ hij
          | pushes size _ => exact calls_goto_of_ne _ _ hij
          | wakes size =>
              obtain ⟨pc, heq, -⟩ := notifyOne_eq θ
              rw [heq]
              exact calls_goto_of_ne _ _ hij

/-! ## Calls of the pool -/

/-- Call `i` is an `append` that has or will put its callback into the list. -/
def Appending (θ : Thread) (i : Nat) : Prop :=
  match θ.calls i with
  | .appendCheck cb | .appendLock cb | .pushBack cb => cb = some i
  | .appendUnlock _ | .appendNotify _ | .returned _ => i ∈ θ.queued
  | _ => False

theorem Appending.next {θ θ' : Thread} {i : Nat} (h : Appending θ i) (hordered : Ordered θ)
    (hnext : Next θ θ') : Appending θ' i := by
  have hgrows := hnext.grows hordered
  unfold Appending at h
  have hmade : θ.calls i ≠ .idle := by
    intro hidle
    rw [hidle] at h
    exact h
  rcases hnext.call_eq hordered hmade with hsame | hstep
  · unfold Appending
    rw [hsame]
    split at h
    all_goals first
      | exact h
      | exact hgrows.queued h
  · unfold callStep at hstep
    cases hcall : θ.calls i with
    | appendCheck cb =>
        rw [hcall] at h hstep
        cases hstep
        rw [hordered.calling.finished]
        simpa [Appending, goto] using h
    | appendLock cb =>
        rw [hcall] at h hstep
        dsimp only [lockCall] at hstep
        split_ifs at hstep
        cases hstep
        simpa [Appending, goto] using h
    | pushBack cb =>
        rw [hcall] at h hstep
        cases hstep
        simp [Appending, goto, h]
    | appendUnlock size =>
        rw [hcall] at h hstep
        cases hstep
        by_cases hone : size = 1 <;> simpa [Appending, unlockCall, goto, hone] using h
    | appendNotify size =>
        rw [hcall] at h hstep
        cases hstep
        obtain ⟨pc, heq, -⟩ := notifyOne_eq θ
        rw [heq]
        simpa [Appending, goto] using h
    | returned result =>
        rw [hcall] at hstep
        cases hstep
    | _ =>
        rw [hcall] at h
        cases h

theorem Appending.mem_queued {θ : Thread} {i : Nat} (h : Appending θ i)
    (hreturned : (θ.calls i).hasReturned = true) : i ∈ θ.queued := by
  unfold Appending at h
  cases hcall : θ.calls i with
  | returned result =>
      rw [hcall] at h
      exact h
  | _ =>
      rw [hcall] at hreturned
      cases hreturned

/-- Call `i` is a `wait_for_idle` if it waits, and a `load` otherwise. If it is about to return, or
to return 0, the callbacks of a list have returned. -/
def Loading (θ : Thread) (i : Nat) (waits : Bool) (before : List Nat) : Prop :=
  match θ.calls i with
  | .loadLock again | .loadSize again => again = waits
  | .loadUnlock again size => again = waits ∧ (size = 0 → before ⊆ θ.done)
  | .returned result => waits = true ∨ result = 0 → before ⊆ θ.done
  | _ => False

theorem Loading.next {θ θ' : Thread} {i : Nat} {waits : Bool} {before : List Nat}
    (h : Loading θ i waits before) (hbefore : before ⊆ θ.queued) (hordered : Ordered θ)
    (hnext : Next θ θ') : Loading θ' i waits before := by
  have hgrows := hnext.grows hordered
  unfold Loading at h
  have hmade : θ.calls i ≠ .idle := by
    intro hidle
    rw [hidle] at h
    exact h
  rcases hnext.call_eq hordered hmade with hsame | hstep
  · unfold Loading
    rw [hsame]
    split at h
    all_goals first
      | exact h
      | exact fun hresult => List.Subset.trans (h hresult) hgrows.done
      | exact ⟨h.1, fun hsize => List.Subset.trans (h.2 hsize) hgrows.done⟩
  · unfold callStep at hstep
    cases hcall : θ.calls i with
    | loadLock again =>
        rw [hcall] at h hstep
        dsimp only [lockCall] at hstep
        split_ifs at hstep
        cases hstep
        simpa [Loading, goto] using h
    | loadSize again =>
        rw [hcall] at h hstep
        cases hstep
        -- an empty list means that all callbacks have returned, not only that none waits
        have hdone : θ.queueTask = [] → before ⊆ θ.done := by
          intro hempty
          rwa [hordered.done_eq hempty]
        simpa [Loading, goto] using ⟨h, hdone⟩
    | loadUnlock again size =>
        rw [hcall] at h hstep
        cases hstep
        obtain ⟨rfl, hdone⟩ := h
        by_cases hsize : size = 0
        · subst hsize
          simpa [Loading, unlockCall, goto] using hdone rfl
        · cases again <;> simp [Loading, unlockCall, goto, hsize, Nat.pos_of_ne_zero hsize]
    | returned result =>
        rw [hcall] at hstep
        cases hstep
    | _ =>
        rw [hcall] at h
        cases h

/-- A `wait_for_idle` has returned. -/
theorem Loading.of_returned {θ : Thread} {i : Nat} {before : List Nat}
    (h : Loading θ i true before) (hreturned : (θ.calls i).hasReturned = true) :
    before ⊆ θ.done := by
  unfold Loading at h
  cases hcall : θ.calls i with
  | returned result =>
      rw [hcall] at h
      exact h (.inl rfl)
  | _ =>
      rw [hcall] at hreturned
      cases hreturned

/-! ## Runs of a thread -/

/-- Callbacks are called once, in the order in which they were put into the list, and the list is
empty only when all of them have returned. -/
structure InOrder (θ : Thread) : Prop where
  started : θ.started <+: θ.queued
  nodup : θ.started.Nodup
  done : θ.queueTask.length = 0 → θ.done = θ.queued

theorem Ordered.inOrder {θ : Thread} (h : Ordered θ) : InOrder θ :=
  ⟨h.started_prefix, h.started_prefix.sublist.nodup h.calling.nodup,
    fun hlength => h.done_eq (List.length_eq_zero_iff.mp hlength)⟩

theorem Ordered.run {θ θ' : Thread} (h : Ordered θ)
    (hrun : Transition.Run Thread.step Runs θ θ') : Ordered θ' :=
  hrun.invariant (I := Ordered) (fun hI hok hst => hI.step hok hst) h

/-- A `load` that returns 0, or a `wait_for_idle` that returns at all, has seen what was in the list
when it was called done. -/
theorem loading_run {θ θ' : Thread} (hrun : Transition.Run step Runs θ θ') (h : Ordered θ) {i : Nat}
    {waits : Bool} (hcall : θ.calls i = .loadLock waits) :
    Ordered θ' ∧ θ.queued ⊆ θ'.queued ∧ Loading θ' i waits θ.queued := by
  refine hrun.invariant (I := fun ϑ => Ordered ϑ ∧ θ.queued ⊆ ϑ.queued ∧ Loading ϑ i waits θ.queued)
    ?_ ⟨h, List.Subset.refl _, by unfold Loading; rw [hcall]⟩
  rintro ϑ a ϑ' ⟨hordered, hqueued, hloading⟩ hok hst
  have hnext : Next ϑ ϑ' := .inr ⟨a, hok, hst⟩
  exact ⟨hordered.step hok hst, List.Subset.trans hqueued (hnext.grows hordered).queued,
    hloading.next hqueued hordered hnext⟩

end Thread

namespace ThreadPool

/-! ## Steps of the pool -/

/-- No thread is terminated, and no empty callback is appended. -/
def Runs (_ : ThreadPool) : Act → Prop
  | .make _ call => call ≠ .termminiate ∧ call ≠ .join ∧ call ≠ .append true
  | _ => True

instance (π : ThreadPool) : ∀ a, Decidable (Runs π a)
  | .make _ _ => inferInstanceAs (Decidable (_ ∧ _ ∧ _))
  | .worker _ _ | .spurious _ | .call _ _ => isTrue trivial

/-- Only `append` with a callback, `load` and `wait_for_idle` are running, on threads of the
pool. -/
def CallPoint.Runs (count : Nat) : CallPoint → Prop
  | .appendCheck empty => empty = false
  | .appendLock empty => empty = false ∧ 0 < count
  | .compare empty best _ => empty = false ∧ best < count
  | .compareLoad empty best next _ _ => empty = false ∧ best < count ∧ next < count
  | .appendUnlock empty t | .appending empty t => empty = false ∧ t < count
  | .loop call _ => call = .waitForIdle
  | .inside call t => call = .waitForIdle ∧ t < count
  | .idle | .loadCheck _ | .loading _ | .returned _ => True

/-- `append` compares loads at this point. -/
def CallPoint.chooses : CallPoint → Bool
  | .appendCheck _ | .appendLock _ | .compare .. | .compareLoad .. | .appendUnlock .. => true
  | _ => false

/-- Call `k` goes from one point to another in the pool. -/
inductive CallPoint.Goes (π : ThreadPool) (k : Nat) : CallPoint → CallPoint → Prop
  | refused (empty : Bool) : π.count = 0 → Goes π k (.appendCheck empty) (.returned (.append empty))
  | chooses (pc next : CallPoint) : pc.chooses = true → next.chooses = true →
      (pc.Runs π.count → next.Runs π.count) → Goes π k pc next
  | appended (empty : Bool) (t : Nat) : ((π.threads t).calls k).hasReturned = true →
      Goes π k (.appending empty t) (.returned (.append empty))
  | absent (index : Nat) : π.count ≤ index → Goes π k (.loadCheck index) (.returned (.load index))
  | loaded (index : Nat) : ((π.threads index).calls k).hasReturned = true →
      Goes π k (.loading index) (.returned (.load index))
  | passes (call : Call) (t : Nat) : ((π.threads t).calls k).hasReturned = true →
      Goes π k (.inside call t) (.loop call (t + 1))
  | finishes (call : Call) (t : Nat) : π.count ≤ t → Goes π k (.loop call t) (.returned call)

/-- A call enters a member of thread `t`. -/
inductive CallPoint.Enters (count : Nat) : CallPoint → Nat → Thread.Call → CallPoint → Prop
  | appends (empty : Bool) (t : Nat) :
      Enters count (.appendUnlock empty t) t (.append empty) (.appending empty t)
  | loads (index : Nat) : index < count →
      Enters count (.loadCheck index) index .load (.loading index)
  | loops (call : Call) (t : Nat) : t < count →
      Enters count (.loop call t) t call.each (.inside call t)

/-- What a call can do: go on in the pool, enter a member of a thread, or go on there. -/
inductive CallMove (π : ThreadPool) (k : Nat) : ThreadPool → Prop
  | goes (mutex : Option Nat) (pc next : CallPoint) : π.calls k = pc → pc.Goes π k next →
      CallMove π k (({ π with mutex := mutex } : ThreadPool).goto k next)
  | enters (mutex : Option Nat) (pc next : CallPoint) (t : Nat) (call : Thread.Call) (θ : Thread) :
      π.calls k = pc → pc.Enters π.count t call next →
      Thread.step (π.threads t) (.make k call) = some θ →
      CallMove π k (({ π with
        mutex := mutex
        threads := Function.update π.threads t θ } : ThreadPool).goto k next)
  | stays (t : Nat) (θ : Thread) : Thread.step (π.threads t) (.call k) = some θ →
      CallMove π k { π with threads := Function.update π.threads t θ }

theorem callMove_of_step {π π' : ThreadPool} {k : Nat} {first : Bool}
    (h : π.callStep k first = some π') : CallMove π k π' := by
  unfold callStep at h
  cases hcall : π.calls k with
  | idle | returned call =>
      rw [hcall] at h
      cases h
  | appendCheck empty =>
      rw [hcall] at h
      cases h
      -- the vector of threads is not empty: there is a first one to start with
      refine .goes π.mutex _ _ hcall ?_
      by_cases hcount : π.count = 0
      · rw [if_pos hcount]
        exact .refused empty hcount
      · rw [if_neg hcount]
        exact .chooses _ _ rfl rfl fun hempty => ⟨hempty, Nat.pos_of_ne_zero hcount⟩
  | appendLock empty =>
      rw [hcall] at h
      dsimp only at h
      split_ifs at h
      cases h
      exact .goes _ _ _ hcall (.chooses _ _ rfl rfl fun hruns => hruns)
  | compare empty best next =>
      rw [hcall] at h
      dsimp only at h
      by_cases hlt : next < π.count
      · rw [if_pos hlt] at h
        obtain ⟨load, -, rfl⟩ := Option.map_eq_some_iff.mp h
        exact .goes π.mutex _ _ hcall (.chooses _ _ rfl rfl fun hruns => ⟨hruns.1, hruns.2, hlt⟩)
      · rw [if_neg hlt] at h
        cases h
        exact .goes π.mutex _ _ hcall (.chooses _ _ rfl rfl fun hruns => hruns)
  | compareLoad empty best next isNext load =>
      rw [hcall] at h
      obtain ⟨load', -, rfl⟩ := Option.map_eq_some_iff.mp h
      refine .goes π.mutex _ _ hcall (.chooses _ _ rfl rfl ?_)
      rintro ⟨hempty, hbest, hnext⟩
      refine ⟨hempty, ?_⟩
      unfold choose
      split_ifs <;> assumption
  | appendUnlock empty best =>
      rw [hcall] at h
      obtain ⟨θ, hθ, rfl⟩ := Option.map_eq_some_iff.mp h
      exact .enters none _ _ best _ θ hcall (.appends empty best) hθ
  | appending empty t =>
      rw [hcall] at h
      dsimp only at h
      split_ifs at h with hreturned
      · cases h
        exact .goes π.mutex _ _ hcall (.appended empty t hreturned)
      · obtain ⟨θ, hθ, rfl⟩ := Option.map_eq_some_iff.mp h
        exact .stays t θ hθ
  | loadCheck index =>
      rw [hcall] at h
      dsimp only at h
      split_ifs at h with hlt
      · obtain ⟨θ, hθ, rfl⟩ := Option.map_eq_some_iff.mp h
        exact .enters π.mutex _ _ index _ θ hcall (.loads index hlt) hθ
      · cases h
        exact .goes π.mutex _ _ hcall (.absent index (Nat.le_of_not_lt hlt))
  | loading index =>
      rw [hcall] at h
      dsimp only at h
      split_ifs at h with hreturned
      · cases h
        exact .goes π.mutex _ _ hcall (.loaded index hreturned)
      · obtain ⟨θ, hθ, rfl⟩ := Option.map_eq_some_iff.mp h
        exact .stays index θ hθ
  | loop call t =>
      rw [hcall] at h
      dsimp only at h
      split_ifs at h with hlt
      · obtain ⟨θ, hθ, rfl⟩ := Option.map_eq_some_iff.mp h
        exact .enters π.mutex _ _ t _ θ hcall (.loops call t hlt) hθ
      · cases h
        exact .goes π.mutex _ _ hcall (.finishes call t (Nat.le_of_not_lt hlt))
  | inside call t =>
      rw [hcall] at h
      dsimp only at h
      split_ifs at h with hreturned
      · cases h
        exact .goes π.mutex _ _ hcall (.passes call t hreturned)
      · obtain ⟨θ, hθ, rfl⟩ := Option.map_eq_some_iff.mp h
        exact .stays t θ hθ

/-- A call of these enters only members that do not terminate the thread. -/
theorem CallPoint.Enters.runs {count t k : Nat} {pc next : CallPoint} {call : Thread.Call}
    (h : pc.Enters count t call next) (hpc : pc.Runs count) (θ : Thread) :
    Thread.Runs θ (.make k call) ∧ next.Runs count := by
  cases h with
  | appends empty t =>
      obtain ⟨rfl, hlt⟩ := hpc
      exact ⟨⟨by simp, by simp, by simp⟩, rfl, hlt⟩
  | loads index _ => exact ⟨⟨by simp, by simp, by simp⟩, trivial⟩
  | loops call t hlt =>
      obtain rfl : call = .waitForIdle := hpc
      exact ⟨⟨by simp [Call.each], by simp [Call.each], by simp [Call.each]⟩, rfl, hlt⟩

theorem CallPoint.Goes.runs {π : ThreadPool} {k : Nat} {pc next : CallPoint} (h : pc.Goes π k next)
    (hpc : pc.Runs π.count) : next.Runs π.count := by
  cases h with
  | chooses pc next _ _ hruns => exact hruns hpc
  | passes call t _ => exact hpc.1
  | _ => trivial

/-! ## What is in the lists -/

/-- What calls of `append` have reached. -/
def Reached (π : ThreadPool) (k : Nat) : Prop :=
  match π.calls k with
  | .appending _ t => (π.threads t).Appending k
  | .returned (.append _) => 0 < π.count → ∃ t < π.count, k ∈ (π.threads t).queued
  | _ => True

structure Working (π : ThreadPool) : Prop where
  threads : ∀ t, Thread.Ordered (π.threads t)
  point : ∀ k, (π.calls k).Runs π.count
  reached : ∀ k, Reached π k

theorem Working.new (count : Nat) : Working (.new count) :=
  ⟨fun _ => .new, fun _ => trivial, fun _ => trivial⟩

@[simp] theorem calls_goto (π : ThreadPool) (k : Nat) (next : CallPoint) :
    (π.goto k next).calls k = next := Function.update_self ..

theorem calls_goto_of_ne (π : ThreadPool) {k j : Nat} (next : CallPoint) (h : j ≠ k) :
    (π.goto k next).calls j = π.calls j := Function.update_of_ne h _ _

theorem next_update {π : ThreadPool} {t : Nat} {a : Thread.Act} {θ : Thread}
    (hok : Thread.Runs (π.threads t) a) (hθ : Thread.step (π.threads t) a = some θ) (u : Nat) :
    (π.threads u).Next (Function.update π.threads t θ u) := by
  by_cases hu : u = t
  · subst hu
    exact .inr ⟨a, hok, by simpa using hθ⟩
  · exact .inl (Function.update_of_ne hu _ _)

/-- The threads take steps of their own, and the other calls do not. -/
theorem Working.next_call {π π' : ThreadPool} (h : Working π) {k : Nat} (hmove : CallMove π k π') :
    π'.count = π.count ∧ (∀ j, j ≠ k → π'.calls j = π.calls j) ∧
      ∀ u, (π.threads u).Next (π'.threads u) := by
  cases hmove with
  | goes mutex pc next _ _ => exact ⟨rfl, fun j hj => calls_goto_of_ne _ _ hj, fun u => .inl rfl⟩
  | enters mutex pc next t call θ hpc henters hθ =>
      obtain ⟨hok, -⟩ := henters.runs (hpc ▸ h.point k) (π.threads t)
      exact ⟨rfl, fun j hj => calls_goto_of_ne _ _ hj, next_update hok hθ⟩
  | stays t θ hθ =>
      have hok : Thread.Runs (π.threads t) (.call k) := trivial
      exact ⟨rfl, fun j _ => rfl, next_update hok hθ⟩

/-- What a step does: a worker goes on or wakes up, a call is made, or a call goes on. -/
theorem step_cases {π π' : ThreadPool} {a : Act} (h : step π a = some π') :
    (∃ t b θ, Thread.Runs (π.threads t) b ∧ Thread.step (π.threads t) b = some θ ∧
        π' = { π with threads := Function.update π.threads t θ }) ∨
      (∃ k call, a = .make k call ∧ π' = π.goto k (firstPoint call)) ∨
      ∃ k, CallMove π k π' := by
  cases a with
  | worker t moved =>
      rw [step] at h
      split_ifs at h
      obtain ⟨θ, hθ, rfl⟩ := Option.map_eq_some_iff.mp h
      exact .inl ⟨t, .worker moved, θ, trivial, hθ, rfl⟩
  | spurious t =>
      rw [step] at h
      split_ifs at h
      obtain ⟨θ, hθ, rfl⟩ := Option.map_eq_some_iff.mp h
      exact .inl ⟨t, .spurious, θ, trivial, hθ, rfl⟩
  | make k call =>
      rw [step] at h
      split_ifs at h
      cases h
      exact .inr (.inl ⟨k, call, rfl, rfl⟩)
  | call k first => exact .inr (.inr ⟨k, callMove_of_step h⟩)

/-- Threads take steps only by themselves. -/
theorem Working.next_step {π π' : ThreadPool} {a : Act} (h : Working π)
    (hstep : ThreadPool.step π a = some π') :
    π'.count = π.count ∧ ∀ u, (π.threads u).Next (π'.threads u) := by
  rcases step_cases hstep with ⟨t, b, θ, hok, hθ, rfl⟩ | ⟨k, call, rfl, rfl⟩ | ⟨k, hmove⟩
  · exact ⟨rfl, next_update hok hθ⟩
  · exact ⟨rfl, fun _ => .inl rfl⟩
  · obtain ⟨hcount, -, hnext⟩ := h.next_call hmove
    exact ⟨hcount, hnext⟩

/-- Threads have taken steps. -/
theorem Working.next {π π' : ThreadPool} (h : Working π) (hcount : π'.count = π.count)
    (hcalls : π'.calls = π.calls) (hnext : ∀ u, (π.threads u).Next (π'.threads u)) :
    Working π' := by
  refine ⟨fun u => (hnext u).ordered (h.threads u), fun k => ?_, fun k => ?_⟩
  · rw [hcalls, hcount]
    exact h.point k
  · have hreached := h.reached k
    unfold Reached at hreached ⊢
    rw [hcalls, hcount]
    split at hreached
    · rename_i t _
      exact hreached.next (h.threads t) (hnext t)
    · intro hpos
      obtain ⟨t, ht, hmem⟩ := hreached hpos
      exact ⟨t, ht, ((hnext t).grows (h.threads t)).queued hmem⟩
    · trivial

/-- A call goes on in the pool. -/
theorem Working.goto {π : ThreadPool} (h : Working π) {k : Nat} {next : CallPoint}
    (hpoint : next.Runs π.count) (hreached : Reached (π.goto k next) k) :
    Working (π.goto k next) := by
  refine ⟨h.threads, fun j => ?_, fun j => ?_⟩
  · by_cases hj : j = k
    · subst hj
      rw [calls_goto]
      exact hpoint
    · rw [calls_goto_of_ne _ _ hj]
      exact h.point j
  · by_cases hj : j = k
    · subst hj
      exact hreached
    · have hold := h.reached j
      unfold Reached at hold ⊢
      rw [calls_goto_of_ne _ _ hj]
      exact hold

theorem Working.mutex {π : ThreadPool} (h : Working π) (mutex : Option Nat) :
    Working { π with mutex := mutex } := ⟨h.threads, h.point, h.reached⟩

/-- The first point of a call of a member of thread `t`. -/
theorem made {θ θ' : Thread} {k : Nat} {call : Thread.Call}
    (h : Thread.step θ (.make k call) = some θ') : θ'.calls k = Thread.firstPoint k call := by
  obtain ⟨-, rfl⟩ := Thread.step_make h
  exact Thread.calls_goto ..

/-- `append` has put the callback into the list of the thread when its member has returned. -/
theorem Reached.goes {π : ThreadPool} {k : Nat} {pc next : CallPoint} (h : Reached π k)
    (hpoint : pc.Runs π.count) (hpc : π.calls k = pc) (hgoes : pc.Goes π k next)
    (mutex : Option Nat) : Reached (({ π with mutex := mutex } : ThreadPool).goto k next) k := by
  unfold Reached at h ⊢
  rw [hpc] at h
  rw [calls_goto]
  cases hgoes with
  | refused empty hcount =>
      intro hpos
      exact absurd hcount (Nat.ne_of_gt hpos)
  | chooses pc next _ hchooses _ => cases next <;> trivial
  | appended empty t hreturned =>
      intro _
      exact ⟨t, hpoint.2, Thread.Appending.mem_queued h hreturned⟩
  | absent index _ => trivial
  | loaded index _ => trivial
  | passes call t _ => trivial
  | finishes call t _ =>
      obtain rfl : call = .waitForIdle := hpoint
      trivial

theorem Working.call {π π' : ThreadPool} (h : Working π) {k : Nat} (hmove : CallMove π k π') :
    Working π' := by
  have hpoint := h.point k
  obtain ⟨hcount, -, hnext⟩ := h.next_call hmove
  cases hmove with
  | goes mutex pc next hpc hgoes =>
      rw [hpc] at hpoint
      exact (h.mutex mutex).goto (hgoes.runs hpoint) ((h.reached k).goes hpoint hpc hgoes mutex)
  | enters mutex pc next t call θ hpc henters hθ =>
      rw [hpc] at hpoint
      have hthreads : Working { π with
          mutex := mutex
          threads := Function.update π.threads t θ } := (h.mutex mutex).next rfl rfl hnext
      refine hthreads.goto (henters.runs hpoint (k := k) (π.threads t)).2 ?_
      unfold Reached
      rw [calls_goto]
      cases henters with
      | appends empty t =>
          obtain ⟨rfl, -⟩ := hpoint
          unfold Thread.Appending ThreadPool.goto
          simp [made hθ, Thread.firstPoint]
      | loads index _ => trivial
      | loops call t _ => trivial
  | stays t θ hθ => exact h.next rfl rfl hnext

theorem Working.step {π π' : ThreadPool} {a : Act} (h : Working π) (hok : Runs π a)
    (hstep : step π a = some π') : Working π' := by
  rcases step_cases hstep with ⟨t, b, θ, hb, hθ, rfl⟩ | ⟨k, call, rfl, rfl⟩ | ⟨k, hmove⟩
  · exact h.next rfl rfl (next_update hb hθ)
  · obtain ⟨hterminate, hjoin, hempty⟩ := hok
    cases call with
    | append empty =>
        cases empty with
        | false => exact h.goto rfl (by simp [Reached, firstPoint])
        | true => exact absurd rfl hempty
    | termminiate => exact absurd rfl hterminate
    | join => exact absurd rfl hjoin
    | load index => exact h.goto trivial (by simp [Reached, firstPoint])
    | waitForIdle => exact h.goto rfl (by simp [Reached, firstPoint])
  · exact h.call hmove

/-! ## Waiting for all threads -/

/-- The callbacks of the lists `before` have returned, on the threads that `wait_for_idle` number
`m` has waited for. -/
def Passed (before : Nat → List Nat) (π : ThreadPool) (m : Nat) : Prop :=
  match π.calls m with
  | .loop .waitForIdle t => ∀ u < t, before u ⊆ (π.threads u).done
  | .inside .waitForIdle t =>
    (∀ u < t, before u ⊆ (π.threads u).done) ∧ (π.threads t).Loading m true (before t)
  | .returned .waitForIdle => ∀ u < π.count, before u ⊆ (π.threads u).done
  | _ => True

theorem Passed.next {before : Nat → List Nat} {π π' : ThreadPool} {m : Nat}
    (h : Passed before π m) (hworking : Working π)
    (hbefore : ∀ u, before u ⊆ (π.threads u).queued) (hcount : π'.count = π.count)
    (hcalls : π'.calls m = π.calls m) (hnext : ∀ u, (π.threads u).Next (π'.threads u)) :
    Passed before π' m := by
  have hdone : ∀ u, (π.threads u).done ⊆ (π'.threads u).done :=
    fun u => ((hnext u).grows (hworking.threads u)).done
  unfold Passed at h ⊢
  rw [hcalls, hcount]
  split at h
  · exact fun u hu => List.Subset.trans (h u hu) (hdone u)
  · rename_i t _
    exact ⟨fun u hu => List.Subset.trans (h.1 u hu) (hdone u),
      h.2.next (hbefore t) (hworking.threads t) (hnext t)⟩
  · exact fun u hu => List.Subset.trans (h u hu) (hdone u)
  · trivial

/-- `wait_for_idle` goes on to the next thread when the one it waits for is idle. -/
theorem Passed.goes {before : Nat → List Nat} {π : ThreadPool} {m : Nat} {pc next : CallPoint}
    (h : Passed before π m) (hpoint : pc.Runs π.count) (hpc : π.calls m = pc)
    (hgoes : pc.Goes π m next) (mutex : Option Nat) :
    Passed before (({ π with mutex := mutex } : ThreadPool).goto m next) m := by
  unfold Passed at h ⊢
  rw [hpc] at h
  rw [calls_goto]
  cases hgoes with
  | refused empty _ => trivial
  | chooses pc next _ hchooses _ => cases next <;> trivial
  | appended empty t _ => trivial
  | absent index _ => trivial
  | loaded index _ => trivial
  | passes call t hreturned =>
      obtain rfl : call = .waitForIdle := hpoint.1
      obtain ⟨hdone, hloading⟩ := h
      intro u hu
      -- one more thread has been waited for
      rcases Nat.lt_succ_iff_lt_or_eq.mp hu with hlt | rfl
      · exact hdone u hlt
      · exact hloading.of_returned hreturned
  | finishes call t hcount =>
      obtain rfl : call = .waitForIdle := hpoint
      exact fun u hu => h u (Nat.lt_of_lt_of_le hu hcount)

theorem Passed.own {before : Nat → List Nat} {π π' : ThreadPool} {m : Nat}
    (h : Passed before π m) (hworking : Working π)
    (hbefore : ∀ u, before u ⊆ (π.threads u).queued) (hmove : CallMove π m π') :
    Passed before π' m := by
  have hpoint := hworking.point m
  obtain ⟨-, -, hnext⟩ := hworking.next_call hmove
  cases hmove with
  | goes mutex pc next hpc hgoes =>
      rw [hpc] at hpoint
      exact h.goes hpoint hpc hgoes mutex
  | enters mutex pc next t call θ hpc henters hθ =>
      rw [hpc] at hpoint
      unfold Passed at h ⊢
      rw [hpc] at h
      rw [calls_goto]
      cases henters with
      | appends empty t => trivial
      | loads index _ => trivial
      | loops call t _ =>
          obtain rfl : call = .waitForIdle := hpoint
          refine ⟨fun u hu => ?_, ?_⟩
          · exact List.Subset.trans (h u hu) ((hnext u).grows (hworking.threads u)).done
          · unfold Thread.Loading ThreadPool.goto
            simp [made hθ, Call.each, Thread.firstPoint]
  | stays t θ hθ => exact h.next hworking hbefore rfl rfl hnext

/-- A step of anyone. -/
theorem Passed.step {before : Nat → List Nat} {π π' : ThreadPool} {m : Nat} {a : Act}
    (h : Passed before π m) (hworking : Working π)
    (hbefore : ∀ u, before u ⊆ (π.threads u).queued) (hok : Runs π a)
    (hstep : step π a = some π') : Passed before π' m := by
  rcases step_cases hstep with ⟨t, b, θ, hb, hθ, rfl⟩ | ⟨k, call, rfl, rfl⟩ | ⟨k, hmove⟩
  · exact h.next hworking hbefore rfl rfl (next_update hb hθ)
  · by_cases hk : m = k
    · subst hk
      unfold Passed
      rw [calls_goto]
      obtain ⟨hterminate, hjoin, -⟩ := hok
      cases call with
      | append empty => trivial
      | termminiate => exact absurd rfl hterminate
      | join => exact absurd rfl hjoin
      | load index => trivial
      | waitForIdle => exact fun u hu => absurd hu (Nat.not_lt_zero u)
    · exact h.next hworking hbefore rfl (calls_goto_of_ne _ _ hk) fun u => .inl rfl
  · by_cases hk : m = k
    · subst hk
      exact h.own hworking hbefore hmove
    · obtain ⟨hcount, hcalls, hnext⟩ := hworking.next_call hmove
      exact h.next hworking hbefore hcount (hcalls m hk) hnext

/-! ## Runs of the pool -/

theorem Working.run {π π' : ThreadPool} (h : Working π)
    (hrun : Transition.Run ThreadPool.step Runs π π') : Working π' :=
  hrun.invariant (I := Working) (fun hI hok hst => hI.step hok hst) h

/-- What a `wait_for_idle` that has not been called yet will have seen done. -/
theorem passed_run {π π' : ThreadPool} (hrun : Transition.Run step Runs π π') (h : Working π)
    {m : Nat} (hidle : π.calls m = .idle) :
    Working π' ∧ π'.count = π.count ∧ Passed (fun u => (π.threads u).queued) π' m := by
  have hpassed : Passed (fun u => (π.threads u).queued) π m := by
    unfold Passed
    rw [hidle]
    trivial
  -- what was in the lists at the start stays in them, so `before` does not change
  have hall := hrun.invariant (I := fun ϖ => Working ϖ ∧ ϖ.count = π.count ∧
      (∀ u, (π.threads u).queued ⊆ (ϖ.threads u).queued) ∧
      Passed (fun u => (π.threads u).queued) ϖ m) ?_
    ⟨h, rfl, fun u => List.Subset.refl _, hpassed⟩
  · exact ⟨hall.1, hall.2.1, hall.2.2.2⟩
  · rintro ϖ a ϖ' ⟨hworking, hcount, hqueued, hpassed⟩ hok hst
    obtain ⟨hcount', hnext⟩ := hworking.next_step hst
    exact ⟨hworking.step hok hst, hcount'.trans hcount,
      fun u => List.Subset.trans (hqueued u) ((hnext u).grows (hworking.threads u)).queued,
      hpassed.step hworking hqueued hok hst⟩

/-- Callbacks run once and in order, and `load` is 0 only when all have returned. When
`wait_for_idle` returns, every callback of the pool's lists at the time of the call has returned,
and with them those of the calls of `append` that had returned. -/
theorem idle_means_done :
    (∀ θ, Transition.Run Thread.step Thread.Runs .new θ → Thread.InOrder θ) ∧
      (∀ θ θ', Transition.Run Thread.step Thread.Runs .new θ →
        Transition.Run Thread.step Thread.Runs θ θ' →
        ∀ i waits result, θ.calls i = .loadLock waits → θ'.calls i = .returned result →
          waits = true ∨ result = 0 → θ.queued ⊆ θ'.done) ∧
      ∀ count > 0, ∀ π π', Transition.Run step Runs (.new count) π → Transition.Run step Runs π π' →
        (∀ t, Thread.InOrder (π'.threads t)) ∧
          ∀ m, π.calls m = .idle → π'.calls m = .returned .waitForIdle →
            (∀ t < count, (π.threads t).queued ⊆ (π'.threads t).done) ∧
              ∀ k, π.calls k = .returned (.append false) → ∃ t < count, k ∈ (π'.threads t).done := by
  refine ⟨fun θ hrun => (Thread.Ordered.new.run hrun).inOrder, ?_, ?_⟩
  · intro θ θ' hrun hrun' i waits result hcall hreturned hresult
    obtain ⟨-, -, hloading⟩ := Thread.loading_run hrun' (Thread.Ordered.new.run hrun) hcall
    unfold Thread.Loading at hloading
    rw [hreturned] at hloading
    exact hloading hresult
  · intro count hpos π π' hrun hrun'
    have hworking : Working π := (Working.new count).run hrun
    have hcount : π.count = count :=
      hrun.invariant (I := fun ϖ => Working ϖ ∧ ϖ.count = count)
        (fun hI hok hst => ⟨hI.1.step hok hst, (hI.1.next_step hst).1.trans hI.2⟩)
        ⟨.new count, rfl⟩ |>.2
    refine ⟨fun t => ((hworking.run hrun').threads t).inOrder, fun m hidle hreturned => ?_⟩
    obtain ⟨-, hcount', hpassed⟩ := passed_run hrun' hworking hidle
    unfold Passed at hpassed
    rw [hreturned, hcount', hcount] at hpassed
    refine ⟨hpassed, fun k hk => ?_⟩
    have hreached := hworking.reached k
    unfold Reached at hreached
    rw [hk, hcount] at hreached
    obtain ⟨t, ht, hmem⟩ := hreached hpos
    exact ⟨t, ht, hpassed t ht hmem⟩

/-- One callback is appended to a pool of one thread. -/
def appended : List Act := .make 0 (.append false) :: List.replicate 10 (.call 0 true)

/-- The worker runs it, and `wait_for_idle` returns. -/
def waited : List Act :=
  List.replicate 13 (.worker 0 none) ++ .make 1 .waitForIdle :: List.replicate 6 (.call 1 true)

theorem idle_means_done_one :
    ∃ π π', Transition.Run step Runs (.new 1) π ∧ Transition.Run step Runs π π' ∧
      π.calls 0 = .returned (.append false) ∧ π.calls 1 = .idle ∧
      π'.calls 1 = .returned .waitForIdle ∧ 0 ∈ (π'.threads 0).done := by
  obtain ⟨π, hπ, hcalls⟩ := Option.map_eq_some_iff.mp (show
    (Transition.exec step (.new 1) appended).map (fun π => (π.calls 0, π.calls 1)) =
      some (.returned (.append false), .idle) by decide +kernel)
  obtain ⟨hzero, hone⟩ := Prod.ext_iff.mp hcalls
  obtain ⟨π', hπ', hreturned⟩ := Option.map_eq_some_iff.mp (show
    (Transition.exec step (.new 1) (appended ++ waited)).map (fun π => π.calls 1) =
      some (.returned .waitForIdle) by decide +kernel)
  have hallowed : Transition.Allowed step Runs (.new 1) (appended ++ waited) := by decide +kernel
  have hbefore : Transition.Run step Runs (.new 1) π :=
    Transition.run_of_exec hπ (by decide +kernel)
  have hafter : Transition.Run step Runs π π' := by
    rw [Transition.exec_append hπ] at hπ'
    exact Transition.run_of_exec hπ' (Transition.allowed_append hπ hallowed)
  obtain ⟨-, hidle⟩ := idle_means_done.2.2 1 Nat.one_pos π π' hbefore hafter
  obtain ⟨t, ht, hdone⟩ := (hidle 1 hone hreturned).2 0 hzero
  obtain rfl : t = 0 := Nat.lt_one_iff.mp ht
  exact ⟨π, π', hbefore, hafter, hzero, hone, hreturned, hdone⟩

end ThreadPool
end EddyServer
