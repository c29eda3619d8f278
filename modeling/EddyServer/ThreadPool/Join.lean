import EddyServer.ThreadPool.Idle
import EddyServer.ThreadPool.Wakeup

/-!
# The end of a pool

`join` and `termminiate` may come at any time, and calls of `append` that have read the flag before
go on. The worker that sees the flag leaves the loop between two callbacks, so what it has called
has returned; what is put into the list later stays there.
-/

namespace EddyServer
namespace Thread

/-! ## What a call can come to -/

namespace CallPoint

/-- A call of `append` has a callback of its own. -/
def Fills (i : Nat) : CallPoint → Prop
  | .appendCheck cb | .appendLock cb | .pushBack cb => cb = some i
  | _ => True

/-- The call has read the flag as unset, and will put its callback into the list. -/
def adds : CallPoint → Bool
  | .appendLock _ | .pushBack _ => true
  | _ => false

/-- The call is a `join`. -/
def joins : CallPoint → Bool
  | .stopCheck joins | .stopStore joins | .stopNotify joins => joins
  | .joining => true
  | _ => false

theorem fills_of_pushed {pc : CallPoint} (h : pc.pushed = true) (i : Nat) : pc.Fills i := by
  cases pc <;> trivial

theorem adds_of_pushed {pc : CallPoint} (h : pc.pushed = true) : pc.adds = false := by
  cases pc <;> first | rfl | cases h

end CallPoint

/-- Call `i` goes on at `next`. -/
structure Onward (θ : Thread) (i : Nat) (next : CallPoint) : Prop where
  fills : (θ.calls i).Fills i → next.Fills i
  pushed : (θ.calls i).pushed = true → next.pushed = true
  adds : next.adds = true → θ.finished = false ∨ (θ.calls i).adds = true
  joins : (θ.calls i).joins = true → next.joins = true ∨ θ.worker = .exited

/-- A call that is past the list. -/
theorem Onward.of_pushed {θ : Thread} {i : Nat} {next : CallPoint} (hpushed : next.pushed = true)
    (hjoins : (θ.calls i).joins = true → next.joins = true ∨ θ.worker = .exited) :
    Onward θ i next := by
  refine ⟨fun _ => CallPoint.fills_of_pushed hpushed i, fun _ => hpushed, fun hadds => ?_, hjoins⟩
  rw [CallPoint.adds_of_pushed hpushed] at hadds
  cases hadds

theorem onward_of_step {θ θ' : Thread} {i : Nat} (h : θ.callStep i = some θ') :
    Onward θ i (θ'.calls i) := by
  unfold callStep at h
  cases hcall : θ.calls i with
  | idle | returned result =>
      rw [hcall] at h
      cases h
  | appendCheck cb =>
      rw [hcall] at h
      cases h
      rw [calls_goto]
      cases hfinished : θ.finished with
      | false =>
          refine ⟨fun hfills => ?_, by simp [hcall, CallPoint.pushed], fun _ => .inl hfinished,
            by simp [hcall, CallPoint.joins]⟩
          rw [hcall] at hfills
          exact hfills
      | true => exact .of_pushed rfl (by simp [hcall, CallPoint.joins])
  | appendLock cb =>
      rw [hcall] at h
      dsimp only [lockCall] at h
      split_ifs at h
      cases h
      rw [calls_goto]
      refine ⟨fun hfills => ?_, by simp [hcall, CallPoint.pushed], fun _ => .inr (by rw [hcall]; rfl),
        by simp [hcall, CallPoint.joins]⟩
      rw [hcall] at hfills
      exact hfills
  | loadLock waits =>
      rw [hcall] at h
      dsimp only [lockCall] at h
      split_ifs at h
      cases h
      rw [calls_goto]
      exact .of_pushed rfl (by simp [hcall, CallPoint.joins])
  | appendUnlock size | loadUnlock waits size =>
      rw [hcall] at h
      cases h
      rw [unlockCall, calls_goto]
      split_ifs <;> exact .of_pushed rfl (by simp [hcall, CallPoint.joins])
  | stopCheck joins =>
      rw [hcall] at h
      cases h
      rw [calls_goto]
      cases θ.finished <;> cases joins <;>
        exact .of_pushed rfl (by simp [hcall, CallPoint.joins])
  | stopNotify joins =>
      rw [hcall] at h
      cases h
      rw [calls_goto]
      cases joins <;> exact .of_pushed rfl (by simp [hcall, CallPoint.joins])
  | joining =>
      rw [hcall] at h
      dsimp only at h
      split_ifs at h with hexited
      cases h
      rw [calls_goto]
      exact .of_pushed rfl fun _ => .inr hexited
  | stopStore joins =>
      rw [hcall] at h
      cases h
      rw [calls_goto]
      refine .of_pushed rfl fun hjoins => .inl ?_
      rw [hcall] at hjoins
      exact hjoins
  | pushBack _ | appendNotify _ | loadSize _ =>
      rw [hcall] at h
      cases h
      rw [calls_goto]
      exact .of_pushed rfl (by simp [hcall, CallPoint.joins])

/-- What a call changes besides itself: it may put a callback into the list, set the flag, take or
release the mutex and wake the worker. -/
structure Beside (θ : Thread) (i : Nat) (θ' : Thread) : Prop where
  calls : ∀ j, j ≠ i → θ'.calls j = θ.calls j
  finished : θ.finished = true → θ'.finished = true
  worker : θ'.worker = θ.worker ∨ θ.worker = .blocked ∧ θ'.worker = .woken
  started : θ'.started = θ.started
  done : θ'.done = θ.done
  list : θ'.queueTask = θ.queueTask ∧ θ'.queued = θ.queued ∨
    ∃ cb, θ.calls i = .pushBack cb ∧ (θ'.calls i).pushed = true ∧
      θ'.queueTask = θ.queueTask ++ [cb] ∧ θ'.queued = θ.queued ++ cb.toList

theorem beside_of_step {θ θ' : Thread} {i : Nat} (h : θ.callStep i = some θ') : Beside θ i θ' := by
  cases callEffect_of_step h with
  | goes mutex next _ =>
      exact ⟨fun j hj => calls_goto_of_ne _ _ hj, id, .inl rfl, rfl, rfl, .inl ⟨rfl, rfl⟩⟩
  | stores joins _ =>
      exact ⟨fun j hj => calls_goto_of_ne _ _ hj, fun _ => rfl, .inl rfl, rfl, rfl, .inl ⟨rfl, rfl⟩⟩
  | pushes cb queued hcall =>
      refine ⟨fun j hj => calls_goto_of_ne _ _ hj, id, .inl rfl, rfl, rfl,
        .inr ⟨cb, hcall, by rw [calls_goto]; rfl, rfl, ?_⟩⟩
      rw [callStep, hcall] at h
      exact congrArg Thread.queued (Option.some.inj h).symm
  | wakes next _ =>
      by_cases hblocked : θ.worker = .blocked
      · rw [notifyOne, if_pos hblocked]
        exact ⟨fun j hj => calls_goto_of_ne _ _ hj, id, .inr ⟨hblocked, rfl⟩, rfl, rfl,
          .inl ⟨rfl, rfl⟩⟩
      · rw [notifyOne_of_ne hblocked]
        exact ⟨fun j hj => calls_goto_of_ne _ _ hj, id, .inl rfl, rfl, rfl, .inl ⟨rfl, rfl⟩⟩

/-! ## Threads that may be terminated -/

/-- No empty callback is appended. -/
def Fills (_ : Thread) : Act → Prop
  | .make _ call => call ≠ .append true
  | _ => True

/-- The worker leaves the loop when it sees the flag. -/
theorem exited_of_step {θ θ' : Thread} {moved : Callback} (h : θ.workerStep moved = some θ')
    (hexited : θ'.worker = .exited) : θ.finished = true := by
  unfold workerStep at h
  cases hpc : θ.worker with
  | outerCheck | laterCheck =>
      rw [hpc] at h
      cases h
      dsimp only at hexited
      split_ifs at hexited with hfinished
      exact hfinished
  | lockWait | woken | lockFront | lockPop =>
      rw [hpc] at h
      rw [lockWorker_eq h] at hexited
      cases hexited
  | emptyCheck | innerCheck =>
      rw [hpc] at h
      cases h
      dsimp only at hexited
      split_ifs at hexited
  | takeFront =>
      rw [hpc] at h
      dsimp only at h
      split at h <;> cases h <;> cases hexited
  | test cb =>
      rw [hpc] at h
      cases cb <;> cases h <;> cases hexited
  | _ =>
      rw [hpc] at h
      cases h <;> cases hexited

/-- Callbacks are in the list at most once, and the worker that has returned has seen the flag. -/
structure Filling (θ : Thread) : Prop where
  listed : Listed θ
  fills : ∀ i, (θ.calls i).Fills i
  pushed : ∀ i ∈ θ.queued, (θ.calls i).pushed = true
  nodup : θ.queued.Nodup
  exited : θ.worker = .exited → θ.finished = true

theorem Filling.new : Filling .new :=
  ⟨.new, fun _ => trivial, fun _ h => absurd h List.not_mem_nil, List.nodup_nil,
    fun h => by cases h⟩

theorem Filling.worker {θ θ' : Thread} {moved : Callback} (h : Filling θ)
    (hstep : θ.workerStep moved = some θ') : Filling θ' := by
  have hmove := workerMove_of_step hstep
  obtain ⟨hfinished, hcalls⟩ := hmove.same
  have hqueued : θ'.queued = θ.queued := by cases hmove <;> rfl
  refine ⟨h.listed.worker hmove, fun i => ?_, fun i hi => ?_, hqueued ▸ h.nodup, fun hexited => ?_⟩
  · rw [hcalls]
    exact h.fills i
  · rw [hcalls]
    exact h.pushed i (hqueued ▸ hi)
  · rw [hfinished]
    exact exited_of_step hstep hexited

theorem Listed.beside {θ θ' : Thread} {i : Nat} (h : Listed θ) (hbeside : Beside θ i θ')
    (hfills : (θ.calls i).Fills i) : Listed θ' := by
  obtain ⟨junk, waiting, hlist, hjunk, hqueued, hstarted⟩ := h
  have hlike : θ.worker.Like θ'.worker := by
    rcases hbeside.worker with hsame | ⟨hblocked, hwoken⟩
    · rw [hsame]
      exact ⟨rfl, rfl, rfl⟩
    · rw [hblocked, hwoken]
      exact ⟨rfl, rfl, rfl⟩
  obtain ⟨hcurrent, hactive, hmoved⟩ := hlike
  rw [Listed, hbeside.done, hbeside.started, hcurrent, hactive, hmoved]
  rcases hbeside.list with ⟨htask, hsame⟩ | ⟨cb, hcall, -, htask, hmore⟩
  · rw [htask, hsame]
    exact ⟨junk, waiting, hlist, hjunk, hqueued, hstarted⟩
  · -- the list grows at the back, whatever the worker is doing
    rw [hcall] at hfills
    obtain rfl : cb = some i := hfills
    refine ⟨junk, waiting ++ [i], ?_, hjunk, ?_, hstarted⟩
    · simp [htask, hlist]
    · simp [hmore, hqueued]

/-- A call puts its callback into the list once. -/
theorem Filling.not_mem_queued {θ : Thread} (h : Filling θ) {i : Nat}
    (hcall : (θ.calls i).pushed = false) : i ∉ θ.queued := by
  intro hi
  rw [h.pushed i hi] at hcall
  cases hcall

theorem Filling.call {θ θ' : Thread} {i : Nat} (h : Filling θ)
    (hstep : θ.callStep i = some θ') : Filling θ' := by
  have hbeside := beside_of_step hstep
  have honward := onward_of_step hstep
  have hpushed : ∀ j, (θ.calls j).pushed = true → (θ'.calls j).pushed = true := by
    intro j hj
    by_cases hji : j = i
    · subst hji
      exact honward.pushed hj
    · rwa [hbeside.calls j hji]
  have hqueued : (∀ j ∈ θ'.queued, (θ'.calls j).pushed = true) ∧ θ'.queued.Nodup := by
    rcases hbeside.list with ⟨-, hsame⟩ | ⟨cb, hcall, hpast, -, hmore⟩
    · rw [hsame]
      exact ⟨fun j hj => hpushed j (h.pushed j hj), h.nodup⟩
    · have hfills := h.fills i
      rw [hcall] at hfills
      obtain rfl : cb = some i := hfills
      rw [hmore, Option.toList_some]
      refine ⟨fun j hj => ?_, ?_⟩
      · rcases List.mem_append.mp hj with hold | hnew
        · exact hpushed j (h.pushed j hold)
        · rwa [List.mem_singleton.mp hnew]
      · have hfresh : i ∉ θ.queued := h.not_mem_queued (by rw [hcall]; rfl)
        exact List.nodup_append.mpr ⟨h.nodup, List.nodup_singleton i, by
          intro j hj k hk heq
          rw [List.mem_singleton.mp hk] at heq
          exact hfresh (heq ▸ hj)⟩
  refine ⟨h.listed.beside hbeside (h.fills i), fun j => ?_, hqueued.1, hqueued.2, fun hexited => ?_⟩
  · by_cases hji : j = i
    · subst hji
      exact honward.fills (h.fills j)
    · rw [hbeside.calls j hji]
      exact h.fills j
  · refine hbeside.finished (h.exited ?_)
    rcases hbeside.worker with hsame | ⟨-, hwoken⟩
    · exact hsame.symm.trans hexited
    · rw [hwoken] at hexited
      cases hexited

theorem Filling.step {θ θ' : Thread} {a : Act} (h : Filling θ) (hok : Fills θ a)
    (hstep : step θ a = some θ') : Filling θ' := by
  cases a with
  | worker moved => exact h.worker hstep
  | spurious =>
      obtain ⟨hblocked, rfl⟩ := step_spurious hstep
      refine ⟨h.listed.worker (.goes θ.queueTaskMutex .woken ?_), h.fills, h.pushed, h.nodup,
        fun hexited => by cases hexited⟩
      rw [hblocked]
      exact ⟨rfl, rfl, rfl⟩
  | make i call =>
      obtain ⟨hidle, rfl⟩ := step_make hstep
      refine ⟨h.listed, fun j => ?_, fun j hj => ?_, h.nodup, h.exited⟩
      · by_cases hji : j = i
        · subst hji
          rw [calls_goto]
          cases call with
          | append empty =>
              cases empty with
              | false => rfl
              | true => exact absurd rfl hok
          | _ => trivial
        · rw [calls_goto_of_ne _ _ hji]
          exact h.fills j
      · have hji : j ≠ i := by
          rintro rfl
          exact h.not_mem_queued (by rw [hidle]; rfl) hj
        rw [calls_goto_of_ne _ _ hji]
        exact h.pushed j hj
  | call i => exact h.call hstep

/-- Callbacks are called in the order in which they were put into the list, each once and one at a
time, and nothing is popped from an empty list. -/
structure InTurn (θ : Thread) : Prop where
  started : θ.started <+: θ.queued
  nodup : θ.queued.Nodup
  done : θ.done <+: θ.started
  one : θ.started.length ≤ θ.done.length + 1
  pops : θ.worker = .popFront → θ.queueTask ≠ []

theorem Filling.inTurn {θ : Thread} (h : Filling θ) : InTurn θ := by
  obtain ⟨junk, waiting, hlist, hjunk, hqueued, hstarted⟩ := h.listed
  refine ⟨?_, h.nodup, ?_, ?_, fun hpc hempty => ?_⟩
  · rw [hqueued, hstarted, List.append_assoc]
    apply (List.prefix_append_right_inj _).mpr
    exact (RunLoop.active_prefix _).trans (List.prefix_append _ _)
  · rw [hstarted]
    exact List.prefix_append _ _
  · rw [hstarted, List.length_append]
    cases θ.worker <;> simp [RunLoop.active]
  · rw [hempty] at hlist
    rw [(List.append_eq_nil_iff.mp hlist.symm).1, hpc] at hjunk
    cases hjunk

/-- A call goes on only by a step of its own. -/
theorem calls_eq {θ θ' : Thread} {a : Act} {i : Nat} (hmake : ∀ call, a ≠ .make i call)
    (hcall : a ≠ .call i) (h : step θ a = some θ') : θ'.calls i = θ.calls i := by
  cases a with
  | worker moved => rw [(workerMove_of_step h).same.2]
  | spurious =>
      obtain ⟨-, rfl⟩ := step_spurious h
      rfl
  | make j call =>
      obtain ⟨-, rfl⟩ := step_make h
      exact calls_goto_of_ne _ _ fun hij => hmake call (hij ▸ rfl)
  | call j => exact (beside_of_step h).calls i fun hij => hcall (hij ▸ rfl)

/-! ## A thread that has been joined -/

/-- `join` number `i` has returned only if the worker has. -/
def Joins (θ : Thread) (i : Nat) : Prop := (θ.calls i).joins = true ∨ θ.worker = .exited

/-- The worker does not come back. -/
theorem exited_step {θ θ' : Thread} {a : Act} (hexited : θ.worker = .exited)
    (hstep : step θ a = some θ') :
    θ'.worker = .exited ∧ θ'.started = θ.started ∧ θ'.done = θ.done := by
  cases a with
  | worker moved =>
      rw [step, workerStep, hexited] at hstep
      cases hstep
  | spurious =>
      obtain ⟨hblocked, -⟩ := step_spurious hstep
      rw [hexited] at hblocked
      cases hblocked
  | make i call =>
      obtain ⟨-, rfl⟩ := step_make hstep
      exact ⟨hexited, rfl, rfl⟩
  | call i =>
      have hbeside := beside_of_step hstep
      refine ⟨?_, hbeside.started, hbeside.done⟩
      rcases hbeside.worker with hsame | ⟨hblocked, -⟩
      · exact hsame.trans hexited
      · rw [hexited] at hblocked
        cases hblocked

theorem Joins.step {θ θ' : Thread} {a : Act} {i : Nat} (h : Joins θ i)
    (hstep : step θ a = some θ') : Joins θ' i := by
  rcases h with hjoins | hexited
  · cases a with
    | worker moved =>
        rw [Joins, (workerMove_of_step hstep).same.2]
        exact .inl hjoins
    | spurious =>
        obtain ⟨-, rfl⟩ := step_spurious hstep
        exact .inl hjoins
    | make j call =>
        obtain ⟨hidle, rfl⟩ := step_make hstep
        have hij : i ≠ j := by
          rintro rfl
          rw [hidle] at hjoins
          cases hjoins
        rw [Joins, calls_goto_of_ne _ _ hij]
        exact .inl hjoins
    | call j =>
        have hbeside := beside_of_step hstep
        by_cases hij : i = j
        · subst hij
          rcases (onward_of_step hstep).joins hjoins with hnext | hexited
          · exact .inl hnext
          · exact .inr (exited_step hexited hstep).1
        · rw [Joins, hbeside.calls i hij]
          exact .inl hjoins
  · exact .inr (exited_step hexited hstep).1

theorem Joins.exited {θ : Thread} {i : Nat} (h : Joins θ i)
    (hreturned : (θ.calls i).hasReturned = true) : θ.worker = .exited := by
  refine h.resolve_left fun hjoins => ?_
  cases hcall : θ.calls i with
  | returned result =>
      rw [hcall] at hjoins
      cases hjoins
  | _ =>
      rw [hcall] at hreturned
      cases hreturned

/-- Call `k` has not put a callback into the list, and will not. -/
def Refused (k : Nat) (θ : Thread) : Prop := (θ.calls k).adds = false ∧ k ∉ θ.queued

theorem Refused.step {θ θ' : Thread} {a : Act} {k : Nat} (h : Refused k θ) (hfilling : Filling θ)
    (hfinished : θ.finished = true) (hstep : step θ a = some θ') : Refused k θ' := by
  cases a with
  | worker moved =>
      have hmove := workerMove_of_step hstep
      have hqueued : θ'.queued = θ.queued := by cases hmove <;> rfl
      rw [Refused, hmove.same.2, hqueued]
      exact h
  | spurious =>
      obtain ⟨-, rfl⟩ := step_spurious hstep
      exact h
  | make i call =>
      obtain ⟨-, rfl⟩ := step_make hstep
      refine ⟨?_, h.2⟩
      by_cases hki : k = i
      · subst hki
        rw [calls_goto]
        cases call <;> rfl
      · rw [calls_goto_of_ne _ _ hki]
        exact h.1
  | call i =>
      have hbeside := beside_of_step hstep
      refine ⟨?_, ?_⟩
      · by_cases hki : k = i
        · subst hki
          by_contra hadds
          rcases (onward_of_step hstep).adds (by simpa using hadds) with hunset | hadds
          · rw [hfinished] at hunset
            cases hunset
          · rw [h.1] at hadds
            cases hadds
        · rw [hbeside.calls k hki]
          exact h.1
      · rcases hbeside.list with ⟨-, hsame⟩ | ⟨cb, hcall, -, -, hmore⟩
        · rw [hsame]
          exact h.2
        · have hfills := hfilling.fills i
          rw [hcall] at hfills
          obtain rfl : cb = some i := hfills
          have hki : k ≠ i := by
            rintro rfl
            have hadds := h.1
            rw [hcall] at hadds
            cases hadds
          rw [hmore]
          simp [h.2, hki]

end Thread
namespace ThreadPool

/-! ## Steps of the pool, of any calls -/

/-- The call of a member of the pool that is at this point. -/
def CallPoint.call : CallPoint → Option Call
  | .idle => none
  | .appendCheck empty | .appendLock empty | .compare empty .. | .compareLoad empty ..
  | .appendUnlock empty _ | .appending empty _ => some (.append empty)
  | .loadCheck index | .loading index => some (.load index)
  | .loop call _ | .inside call _ | .returned call => some call

theorem CallPoint.idle_of_call {pc : CallPoint} (h : pc.call = none) : pc = .idle := by
  cases pc <;> trivial

/-- What a step of the pool is to thread `t`. -/
inductive Descends (π : ThreadPool) : Act → Thread.Act → Prop
  | worker (t : Nat) (moved : Thread.Callback) : Descends π (.worker t moved) (.worker moved)
  | spurious (t : Nat) : Descends π (.spurious t) .spurious
  | make (k : Nat) (first : Bool) (call : Call) : (π.calls k).call = some call →
      Descends π (.call k first) (.make k call.each)
  | call (k : Nat) (first : Bool) : π.calls k ≠ .idle → Descends π (.call k first) (.call k)

/-- A step of the pool is none of thread `θ`, or one of its own. -/
def Moves (π : ThreadPool) (a : Act) (θ θ' : Thread) : Prop :=
  θ' = θ ∨ ∃ b, Descends π a b ∧ Thread.step θ b = some θ'

theorem moves_update {π : ThreadPool} {a : Act} {t : Nat} {b : Thread.Act} {θ : Thread}
    (hb : Descends π a b) (hθ : Thread.step (π.threads t) b = some θ) (u : Nat) :
    Moves π a (π.threads u) (Function.update π.threads t θ u) := by
  by_cases hu : u = t
  · subst hu
    exact .inr ⟨b, hb, by simpa using hθ⟩
  · exact .inl (Function.update_of_ne hu _ _)

/-- A call stays the call that it is. -/
theorem call_of_step {π π' : ThreadPool} {k : Nat} {first : Bool}
    (h : π.callStep k first = some π') : (π'.calls k).call = (π.calls k).call := by
  unfold callStep at h
  cases hcall : π.calls k with
  | idle | returned call =>
      rw [hcall] at h
      cases h
  | appendCheck empty =>
      rw [hcall] at h
      cases h
      rw [calls_goto]
      split_ifs <;> rfl
  | appendLock empty =>
      rw [hcall] at h
      dsimp only at h
      split_ifs at h
      cases h
      rw [calls_goto]
      rfl
  | compare empty best next =>
      rw [hcall] at h
      dsimp only at h
      by_cases hlt : next < π.count
      · rw [if_pos hlt] at h
        obtain ⟨load, -, rfl⟩ := Option.map_eq_some_iff.mp h
        rw [calls_goto]
        rfl
      · rw [if_neg hlt] at h
        cases h
        rw [calls_goto]
        rfl
  | compareLoad empty best next isNext load =>
      rw [hcall] at h
      obtain ⟨load', -, rfl⟩ := Option.map_eq_some_iff.mp h
      rw [calls_goto]
      rfl
  | appendUnlock empty best =>
      rw [hcall] at h
      obtain ⟨θ, -, rfl⟩ := Option.map_eq_some_iff.mp h
      dsimp only
      rw [calls_goto]
      rfl
  | appending empty t | loading t | inside call t =>
      rw [hcall] at h
      dsimp only at h
      split_ifs at h
      · cases h
        rw [calls_goto]
        rfl
      · obtain ⟨θ, -, rfl⟩ := Option.map_eq_some_iff.mp h
        rw [hcall]
  | loadCheck t | loop call t =>
      rw [hcall] at h
      dsimp only at h
      split_ifs at h
      · obtain ⟨θ, -, rfl⟩ := Option.map_eq_some_iff.mp h
        dsimp only
        rw [calls_goto]
        rfl
      · cases h
        rw [calls_goto]
        rfl

/-- What a step is to every thread and every other call. -/
theorem moves_of_call {π π' : ThreadPool} {k : Nat} {first : Bool}
    (h : π.callStep k first = some π') :
    π'.count = π.count ∧ (∀ j, j ≠ k → π'.calls j = π.calls j) ∧
      ∀ u, Moves π (.call k first) (π.threads u) (π'.threads u) := by
  have hmade : π.calls k ≠ .idle := by
    intro hidle
    rw [callStep, hidle] at h
    cases h
  cases callMove_of_step h with
  | goes mutex pc next _ _ => exact ⟨rfl, fun j hj => calls_goto_of_ne _ _ hj, fun u => .inl rfl⟩
  | enters mutex pc next t call θ hpc henters hθ =>
      refine ⟨rfl, fun j hj => calls_goto_of_ne _ _ hj, ?_⟩
      cases henters with
      | appends empty t => exact moves_update (.make k first (.append empty) (by rw [hpc]; rfl)) hθ
      | loads _ _ => exact moves_update (.make k first (.load t) (by rw [hpc]; rfl)) hθ
      | loops call t _ => exact moves_update (.make k first call (by rw [hpc]; rfl)) hθ
  | stays t θ hθ => exact ⟨rfl, fun j _ => rfl, moves_update (.call k first hmade) hθ⟩

/-- A step of anyone. -/
theorem moves_of_step {π π' : ThreadPool} {a : Act} (h : step π a = some π') :
    π'.count = π.count ∧ ∀ u, Moves π a (π.threads u) (π'.threads u) := by
  cases a with
  | worker t moved =>
      rw [step] at h
      split_ifs at h
      obtain ⟨θ, hθ, rfl⟩ := Option.map_eq_some_iff.mp h
      exact ⟨rfl, moves_update (.worker t moved) hθ⟩
  | spurious t =>
      rw [step] at h
      split_ifs at h
      obtain ⟨θ, hθ, rfl⟩ := Option.map_eq_some_iff.mp h
      exact ⟨rfl, moves_update (.spurious t) hθ⟩
  | make k call =>
      rw [step] at h
      split_ifs at h
      cases h
      exact ⟨rfl, fun u => .inl rfl⟩
  | call k first =>
      obtain ⟨hcount, -, hmoves⟩ := moves_of_call h
      exact ⟨hcount, hmoves⟩

/-- A call stays where it is unless it is made or takes a step of its own. -/
theorem calls_of_step {π π' : ThreadPool} {a : Act} (h : step π a = some π') (k : Nat) :
    π'.calls k = π.calls k ∨
      (∃ call, a = .make k call ∧ π.calls k = .idle ∧ π'.calls k = firstPoint call) ∨
      ∃ first, a = .call k first ∧ π.callStep k first = some π' := by
  cases a with
  | worker t moved | spurious t =>
      rw [step] at h
      split_ifs at h
      obtain ⟨θ, -, rfl⟩ := Option.map_eq_some_iff.mp h
      exact .inl rfl
  | make j call =>
      rw [step] at h
      split_ifs at h with hidle
      cases h
      by_cases hk : k = j
      · subst hk
        exact .inr (.inl ⟨call, rfl, hidle, calls_goto ..⟩)
      · exact .inl (calls_goto_of_ne _ _ hk)
  | call j first =>
      by_cases hk : k = j
      · subst hk
        exact .inr (.inr ⟨first, rfl, h⟩)
      · exact .inl ((moves_of_call h).2.1 k hk)

/-! ## Joining all threads -/

/-- No empty callback is appended. -/
def Fills (_ : ThreadPool) : Act → Prop
  | .make _ call => call ≠ .append true
  | _ => True

instance (π : ThreadPool) : ∀ a, Decidable (Fills π a)
  | .make _ _ => inferInstanceAs (Decidable (_ ≠ _))
  | .worker _ _ | .spurious _ | .call _ _ => isTrue trivial

/-- The workers that `join` number `k` has waited for have returned. -/
def Joined (π : ThreadPool) (k : Nat) : Prop :=
  match π.calls k with
  | .loop .join t => ∀ u < t, (π.threads u).worker = .exited
  | .inside .join t => (∀ u < t, (π.threads u).worker = .exited) ∧ (π.threads t).Joins k
  | .returned .join => ∀ u < π.count, (π.threads u).worker = .exited
  | _ => True

theorem Moves.exited {π : ThreadPool} {a : Act} {θ θ' : Thread} (h : Moves π a θ θ')
    (hexited : θ.worker = .exited) :
    θ'.worker = .exited ∧ θ'.started = θ.started ∧ θ'.done = θ.done := by
  rcases h with rfl | ⟨b, -, hθ⟩
  · exact ⟨hexited, rfl, rfl⟩
  · exact Thread.exited_step hexited hθ

theorem Moves.joins {π : ThreadPool} {a : Act} {θ θ' : Thread} {k : Nat} (h : Moves π a θ θ')
    (hjoins : θ.Joins k) : θ'.Joins k := by
  rcases h with rfl | ⟨b, -, hθ⟩
  · exact hjoins
  · exact hjoins.step hθ

/-- The threads take steps, and the call does not. -/
theorem Joined.moves {π π' : ThreadPool} {a : Act} {k : Nat} (h : Joined π k)
    (hcount : π'.count = π.count) (hcalls : π'.calls k = π.calls k)
    (hmoves : ∀ u, Moves π a (π.threads u) (π'.threads u)) : Joined π' k := by
  unfold Joined at h ⊢
  rw [hcalls, hcount]
  split at h
  · exact fun u hu => ((hmoves u).exited (h u hu)).1
  · rename_i t _
    exact ⟨fun u hu => ((hmoves u).exited (h.1 u hu)).1, (hmoves t).joins h.2⟩
  · exact fun u hu => ((hmoves u).exited (h u hu)).1
  · trivial

/-- The call goes on to the next thread when `join` of this one has returned. -/
theorem Joined.own {π π' : ThreadPool} {k : Nat} {first : Bool} (h : Joined π k)
    (hstep : π.callStep k first = some π') : Joined π' k := by
  obtain ⟨-, -, hmoves⟩ := moves_of_call hstep
  cases callMove_of_step hstep with
  | goes mutex pc next hpc hgoes =>
      unfold Joined at h ⊢
      rw [hpc] at h
      rw [calls_goto]
      cases hgoes with
      | refused empty _ => trivial
      | chooses pc next _ hchooses _ => cases next <;> trivial
      | appended empty t _ => trivial
      | absent index _ => trivial
      | loaded index _ => trivial
      | passes call t hreturned =>
          cases call with
          | join =>
              intro u hu
              -- one more thread has been joined
              rcases Nat.lt_succ_iff_lt_or_eq.mp hu with hlt | rfl
              · exact h.1 u hlt
              · exact h.2.exited hreturned
          | _ => trivial
      | finishes call t hcount =>
          cases call with
          | join => exact fun u hu => h u (Nat.lt_of_lt_of_le hu hcount)
          | _ => trivial
  | enters mutex pc next t call θ hpc henters hθ =>
      unfold Joined at h ⊢
      rw [hpc] at h
      rw [calls_goto]
      cases henters with
      | appends empty t => trivial
      | loads index _ => trivial
      | loops call t _ =>
          cases call with
          | join =>
              refine ⟨fun u hu => ((hmoves u).exited (h u hu)).1, .inl ?_⟩
              have hmade : θ.calls k = .stopCheck true := made hθ
              show ((Function.update π.threads t θ t).calls k).joins = true
              rw [Function.update_self, hmade]
              rfl
          | _ => trivial
  | stays t θ hθ => exact h.moves rfl rfl hmoves

structure Ending (π : ThreadPool) : Prop where
  threads : ∀ t, Thread.Filling (π.threads t)
  call : ∀ k, (π.calls k).call ≠ some (.append true)
  idle : ∀ k, π.calls k = .idle → ∀ t, (π.threads t).calls k = .idle
  joined : ∀ k, Joined π k

theorem Ending.new (count : Nat) : Ending (.new count) :=
  ⟨fun _ => .new, fun _ => nofun, fun _ _ _ => rfl, fun _ => trivial⟩

theorem Descends.fills {π : ThreadPool} {a : Act} {b : Thread.Act} (h : Descends π a b)
    (hcall : ∀ k, (π.calls k).call ≠ some (.append true)) (θ : Thread) : Thread.Fills θ b := by
  cases h with
  | make k first call hk =>
      cases call with
      | append empty =>
          cases empty with
          | false => exact nofun
          | true => exact absurd hk (hcall k)
      | _ => exact nofun
  | _ => trivial

theorem Ending.step {π π' : ThreadPool} {a : Act} (h : Ending π) (hok : Fills π a)
    (hstep : step π a = some π') : Ending π' := by
  obtain ⟨hcount, hmoves⟩ := moves_of_step hstep
  refine ⟨fun t => ?_, fun k => ?_, fun k hidle t => ?_, fun k => ?_⟩
  · rcases hmoves t with hsame | ⟨b, hb, hθ⟩
    · rw [hsame]
      exact h.threads t
    · exact (h.threads t).step (hb.fills h.call _) hθ
  · rcases calls_of_step hstep k with hsame | ⟨call, rfl, -, hmade⟩ | ⟨first, -, hown⟩
    · rw [hsame]
      exact h.call k
    · rw [hmade]
      intro heq
      refine hok ?_
      cases call <;> exact Option.some.inj heq
    · rw [call_of_step hown]
      exact h.call k
  · -- a call that has not been made has not been made anywhere
    have hbefore : π.calls k = .idle ∧ ∀ first, a ≠ .call k first := by
      rcases calls_of_step hstep k with hsame | ⟨call, -, -, hmade⟩ | ⟨first, -, hown⟩
      · refine ⟨hsame.symm.trans hidle, ?_⟩
        rintro first rfl
        rw [ThreadPool.step, callStep, hsame.symm.trans hidle] at hstep
        cases hstep
      · rw [hmade] at hidle
        cases call <;> cases hidle
      · have hcall := call_of_step hown
        rw [hidle] at hcall
        rw [callStep, CallPoint.idle_of_call hcall.symm] at hown
        cases hown
    rcases hmoves t with hsame | ⟨b, hb, hθ⟩
    · rw [hsame]
      exact h.idle k hbefore.1 t
    · refine (Thread.calls_eq ?_ ?_ hθ).trans (h.idle k hbefore.1 t)
      · rintro call rfl
        cases hb
        exact hbefore.2 _ rfl
      · rintro rfl
        cases hb
        exact hbefore.2 _ rfl
  · rcases calls_of_step hstep k with hsame | ⟨call, -, -, hmade⟩ | ⟨first, rfl, hown⟩
    · exact (h.joined k).moves hcount hsame hmoves
    · unfold Joined
      rw [hmade]
      cases call <;> first | trivial | exact fun u hu => absurd hu (Nat.not_lt_zero u)
    · exact (h.joined k).own hown

/-! ## Runs -/

theorem Ending.run {π π' : ThreadPool} (h : Ending π)
    (hrun : Transition.Run ThreadPool.step Fills π π') : Ending π' ∧ π'.count = π.count :=
  hrun.invariant (I := fun ϖ => Ending ϖ ∧ ϖ.count = π.count)
    (fun hI hok hst => ⟨hI.1.step hok hst, (moves_of_step hst).1.trans hI.2⟩) ⟨h, rfl⟩

/-- Nothing runs on a thread whose worker has returned, and nothing more is appended to it. -/
structure Over (π : ThreadPool) (t : Nat) (θ : Thread) : Prop where
  exited : θ.worker = .exited
  started : θ.started = (π.threads t).done
  done : θ.done = (π.threads t).done
  refused : ∀ k, π.calls k = .idle → Thread.Refused k θ

theorem Ending.over {π : ThreadPool} (h : Ending π) {t : Nat}
    (hexited : (π.threads t).worker = .exited) : Over π t (π.threads t) := by
  refine ⟨hexited, ?_, rfl, fun k hidle => ?_⟩
  · obtain ⟨-, -, -, -, -, hstarted⟩ := (h.threads t).listed
    rw [hstarted, hexited]
    simp [Thread.RunLoop.active]
  · have hcall := h.idle k hidle t
    exact ⟨by rw [hcall]; rfl, (h.threads t).not_mem_queued (by rw [hcall]; rfl)⟩

theorem Over.moves {π ϖ : ThreadPool} {a : Act} {t : Nat} {θ θ' : Thread} (h : Over π t θ)
    (hfilling : Thread.Filling θ) (hmoves : Moves ϖ a θ θ') : Over π t θ' := by
  obtain ⟨hexited, hstarted, hdone⟩ := hmoves.exited h.exited
  refine ⟨hexited, hstarted.trans h.started, hdone.trans h.done, fun k hidle => ?_⟩
  rcases hmoves with rfl | ⟨b, -, hθ⟩
  · exact h.refused k hidle
  · exact (h.refused k hidle).step hfilling (hfilling.exited h.exited) hθ

/-- **A pool that has been joined is done**, whatever else is called and in whatever order, as long
as no callback is empty. On every thread callbacks are called in the order of the list, each once
and one at a time; and when any `join` has returned, all workers have returned, what they have
called has returned, and from then on nothing is called and no `append` puts anything into a
list. -/
theorem join_ends {count : Nat} {π π' : ThreadPool}
    (hrun : Transition.Run step Fills (.new count) π) (hrun' : Transition.Run step Fills π π') :
    (∀ t, Thread.InTurn (π.threads t)) ∧
      ∀ m, π.calls m = .returned .join → ∀ t < count,
        (π'.threads t).worker = .exited ∧
          (π'.threads t).started = (π.threads t).done ∧
          (π'.threads t).done = (π.threads t).done ∧
          ∀ k, π.calls k = .idle → k ∉ (π'.threads t).queued := by
  obtain ⟨hending, hcount⟩ := (Ending.new count).run hrun
  refine ⟨fun t => (hending.threads t).inTurn, fun m hreturned t ht => ?_⟩
  have hexited : (π.threads t).worker = .exited := by
    have hjoined := hending.joined m
    unfold Joined at hjoined
    rw [hreturned] at hjoined
    exact hjoined t (hcount ▸ ht)
  have hover : Ending π' ∧ Over π t (π'.threads t) :=
    hrun'.invariant (I := fun ϖ => Ending ϖ ∧ Over π t (ϖ.threads t))
      (fun hI hok hst => ⟨hI.1.step hok hst,
        hI.2.moves (hI.1.threads t) ((moves_of_step hst).2 t)⟩)
      ⟨hending, hending.over hexited⟩
  exact ⟨hover.2.exited, hover.2.started, hover.2.done, fun k hidle => (hover.2.refused k hidle).2⟩

/-- The pool is joined while a callback runs and another one waits. -/
def joinedBetween : List Act :=
  .make 0 (.append false) :: List.replicate 10 (.call 0 true) ++
    List.replicate 9 (.worker 0 none) ++ .make 1 (.append false) ::
    List.replicate 9 (.call 1 true) ++ .make 2 .join :: List.replicate 4 (.call 2 true) ++
    List.replicate 5 (.worker 0 none) ++ List.replicate 3 (.call 2 true)

/-- An `append` comes after that. -/
def appendedLater : List Act := .make 3 (.append false) :: List.replicate 6 (.call 3 true)

/-- The callback that waits stays in the list, and the one that comes later is not put there. -/
theorem join_ends_between : ∃ π π', Transition.exec step (.new 1) joinedBetween = some π ∧
    Transition.exec step π appendedLater = some π' ∧ π'.calls 3 = .returned (.append false) ∧
    (π.threads 0).queued = [0, 1] ∧ (π'.threads 0).done = [0] ∧ 3 ∉ (π'.threads 0).queued := by
  obtain ⟨π, hπ, hview⟩ := Option.map_eq_some_iff.mp (show
    (Transition.exec step (.new 1) joinedBetween).map (fun π =>
      (π.calls 2, π.calls 3, (π.threads 0).queued, (π.threads 0).done)) =
      some (.returned .join, .idle, [0, 1], [0]) by decide +kernel)
  obtain ⟨π', hπ', hreturned⟩ := Option.map_eq_some_iff.mp (show
    (Transition.exec step (.new 1) (joinedBetween ++ appendedLater)).map (fun π => π.calls 3) =
      some (.returned (.append false)) by decide +kernel)
  simp only [Prod.mk.injEq] at hview
  obtain ⟨hjoined, hidle, hqueued, hdone⟩ := hview
  have hallowed : Transition.Allowed step Fills (.new 1) (joinedBetween ++ appendedLater) := by
    decide +kernel
  have hbefore : Transition.Run step Fills (.new 1) π :=
    Transition.run_of_exec hπ (by decide +kernel)
  rw [Transition.exec_append hπ] at hπ'
  have hafter : Transition.Run step Fills π π' :=
    Transition.run_of_exec hπ' (Transition.allowed_append hπ hallowed)
  obtain ⟨-, -, hsame, hrefused⟩ := (join_ends hbefore hafter).2 2 hjoined 0 Nat.one_pos
  exact ⟨π, π', hπ, hπ', hreturned, hqueued, hsame.trans hdone, hrefused 3 hidle⟩

end ThreadPool
end EddyServer
