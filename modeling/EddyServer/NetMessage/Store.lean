import EddyServer.Library.Transition
import EddyServer.NetMessage.Operations

/-!
# Messages as byte queues

A program that works with any number of `NetMessage` objects, next to the same program over plain
byte queues. Every run of the one is a run of the other: an object always holds what its queue
holds, whichever storage mode, stale vector or shifted position it has come to.

A step whose asserted precondition fails, or that throws, has no successor.
-/

namespace EddyServer

/-! ## Operations -/

/-- A member function that changes one message and takes no other one. -/
inductive Method
  | write (data : List UInt8)
  | writePod (value : List UInt8)
  | writeString (value : List UInt8)
  | writeLenghtAndString (value : List UInt8)
  | retrieve (size : Nat)
  | retrieveAll
  | clear
  | reserve (size : Nat)
  | ensureWritableBytes (size : Nat)
  | setDynamic

/-- One operation of the program. The objects have numbers for names; a construction names an object
that does not exist yet. -/
inductive Store.Op
  | new (i : Nat) (junk : NetMessage.Junk)
  | ofSize (i : Nat) (junk : NetMessage.Junk) (size : Nat)
  | ofData (i : Nat) (junk : NetMessage.Junk) (data : List UInt8)
  | copy (i : Nat) (junk : NetMessage.Junk) (other : Nat)
  | move (i : Nat) (junk : NetMessage.Junk) (other : Nat)
  | copyAssign (i rhs : Nat)
  | moveAssign (i rhs : Nat)
  | swap (i other : Nat)
  | call (i : Nat) (method : Method)
  | readPod (i size : Nat)

/-- The size that a member function is called with, where it may need room. -/
def Method.size : Method → Nat
  | .write data => data.length
  | .writePod value => value.length
  | .writeString value => value.length
  | .writeLenghtAndString value => 4 + value.length
  | .reserve size => size
  | .ensureWritableBytes size => size
  | .retrieve _ | .retrieveAll | .clear | .setDynamic => 0

def Store.Op.size : Store.Op → Nat
  | .ofSize _ _ size => size
  | .ofData _ _ data => data.length
  | .call _ method => method.size
  | .new .. | .copy .. | .move .. | .copyAssign .. | .moveAssign .. | .swap .. | .readPod .. => 0

/-! ## The program over messages -/

/-- What the source asserts when the function is called. -/
def Method.Asserted (m : NetMessage) : Method → Prop
  | .retrieve size => size ≤ m.readable
  | .setDynamic => m.isDynmic = false
  | _ => True

instance (m : NetMessage) : (method : Method) → Decidable (method.Asserted m)
  | .retrieve size => inferInstanceAs (Decidable (size ≤ m.readable))
  | .setDynamic => inferInstanceAs (Decidable (m.isDynmic = false))
  | .write _ | .writePod _ | .writeString _ | .writeLenghtAndString _ | .retrieveAll | .clear
  | .reserve _ | .ensureWritableBytes _ => isTrue trivial

def Method.run (host : ByteOrder) (m : NetMessage) : Method → Except NetMessage NetMessage
  | .write data => m.write data
  | .writePod value => m.writePod value
  | .writeString value => m.writeString value
  | .writeLenghtAndString value => NetMessage.writeLenghtAndString host m value
  | .retrieve size => .ok (m.retrieve size)
  | .retrieveAll => .ok m.retrieveAll
  | .clear => .ok m.clear
  | .reserve size => m.reserve size
  | .ensureWritableBytes size => m.ensureWritableBytes size
  | .setDynamic => .ok m.setDynamic

structure Store where
  objects : Nat → Option NetMessage
  /-- What `read_pod` has returned so far. -/
  values : List (List UInt8)

namespace Store

def empty : Store := { objects := fun _ => none, values := [] }

def set (σ : Store) (i : Nat) (m : NetMessage) : Store :=
  { σ with objects := fun j => if j = i then some m else σ.objects j }

/-- The object `i` has become the result of a function, unless the function has thrown. -/
def become (σ : Store) (i : Nat) : Except NetMessage NetMessage → Option Store
  | .ok m => some (σ.set i m)
  | .error _ => none

def step (host : ByteOrder) (σ : Store) : Op → Option Store
  | .new i junk => if (σ.objects i).isSome then none else some (σ.set i (.new junk))
  | .ofSize i junk size => if (σ.objects i).isSome then none else σ.become i (NetMessage.ofSize junk size)
  | .ofData i junk data => if (σ.objects i).isSome then none else σ.become i (NetMessage.ofData junk data)
  | .copy i junk other =>
    if (σ.objects i).isSome then none
    else (σ.objects other).map fun m => σ.set i (.copy junk m)
  | .move i junk other =>
    if (σ.objects i).isSome then none
    else (σ.objects other).map fun m =>
      let r := NetMessage.move junk m
      (σ.set i r.1).set other r.2
  | .copyAssign i rhs =>
    (σ.objects i).bind fun m => (σ.objects rhs).map fun m' =>
      if rhs = i then σ else σ.set i (m.copyAssign m')
  | .moveAssign i rhs =>
    (σ.objects i).bind fun m => (σ.objects rhs).map fun m' =>
      if rhs = i then σ
      else
        let r := m.moveAssign m'
        (σ.set i r.1).set rhs r.2
  | .swap i other =>
    (σ.objects i).bind fun m => (σ.objects other).map fun m' =>
      if other = i then σ
      else
        let r := m.swap m'
        (σ.set i r.1).set other r.2
  | .call i method =>
    (σ.objects i).bind fun m =>
      if method.Asserted m then σ.become i (method.run host m) else none
  | .readPod i size =>
    (σ.objects i).bind fun m =>
      if size ≤ m.readable then
        let r := m.readPod size
        some { σ.set i r.2 with values := σ.values ++ [r.1] }
      else none

end Store

/-! ## The program over byte queues -/

/-- What a member function does to a queue: writing appends, taking out drops from the front, and
making room changes nothing. -/
def Method.apply (host : ByteOrder) (q : List UInt8) : Method → List UInt8
  | .write data | .writePod data | .writeString data => q ++ data
  | .writeLenghtAndString value => q ++ (host.toMemory32 (BitVec.ofNat 32 value.length) ++ value)
  | .retrieve size => q.drop size
  | .retrieveAll | .clear => []
  | .reserve _ | .ensureWritableBytes _ | .setDynamic => q

structure Queues where
  queues : Nat → Option (List UInt8)
  values : List (List UInt8)

namespace Queues

def empty : Queues := { queues := fun _ => none, values := [] }

def set (q : Queues) (i : Nat) (bytes : List UInt8) : Queues :=
  { q with queues := fun j => if j = i then some bytes else q.queues j }

def step (host : ByteOrder) (q : Queues) : Store.Op → Option Queues
  | .new i _ | .ofSize i _ _ => if (q.queues i).isSome then none else some (q.set i [])
  | .ofData i _ data => if (q.queues i).isSome then none else some (q.set i data)
  | .copy i _ other =>
    if (q.queues i).isSome then none else (q.queues other).map fun bytes => q.set i bytes
  | .move i _ other =>
    if (q.queues i).isSome then none
    else (q.queues other).map fun bytes => (q.set i bytes).set other []
  | .copyAssign i rhs =>
    (q.queues i).bind fun _ => (q.queues rhs).map fun bytes => q.set i bytes
  | .moveAssign i rhs =>
    (q.queues i).bind fun _ => (q.queues rhs).map fun bytes =>
      if rhs = i then q else (q.set i bytes).set rhs []
  | .swap i other =>
    (q.queues i).bind fun bytes => (q.queues other).map fun bytes' =>
      (q.set i bytes').set other bytes
  | .call i method => (q.queues i).map fun bytes => q.set i (method.apply host bytes)
  | .readPod i size =>
    (q.queues i).map fun bytes =>
      { q.set i (bytes.drop size) with values := q.values ++ [bytes.take size] }

end Queues

/-! ## One message and one queue -/

namespace NetMessage

/-- The message holds these bytes, when operations have been called with sizes of `total` so far. -/
structure Holds (total : Nat) (m : NetMessage) (bytes : List UInt8) : Prop where
  wf : m.WF
  content : m.content = bytes
  small : bytes.length ≤ total
  room : m.storage.length ≤ kDynamicThreshold + 2 * total

theorem Holds.mono {total total' : Nat} {m : NetMessage} {bytes : List UInt8}
    (h : Holds total m bytes) (hle : total ≤ total') : Holds total' m bytes where
  wf := h.wf
  content := h.content
  small := h.small.trans hle
  room := h.room.trans (by omega)

theorem Holds.readable {total : Nat} {m : NetMessage} {bytes : List UInt8}
    (h : Holds total m bytes) : m.readable = bytes.length := by
  rw [← h.wf.length_content, h.content]

theorem holds_new (junk : Junk) (total : Nat) : Holds total (new junk) [] where
  wf := wf_new junk
  content := content_new junk
  small := Nat.zero_le _
  room := by
    rw [length_storage_new]
    omega

theorem holds_ofSize {junk : Junk} {size : Nat} {m : NetMessage} (total : Nat)
    (hsize : size < 2 ^ 63) (h : ofSize junk size = .ok m) : Holds (total + size) m [] := by
  obtain ⟨hwf, hcontent, -, hlen⟩ := ensureWritableBytes_ok (wf_new junk) hsize h
  rw [length_storage_new] at hlen
  have hzero : (new junk).writerPos = 0 := rfl
  exact ⟨hwf, hcontent.trans (content_new junk), Nat.zero_le _, by omega⟩

theorem holds_ofData {junk : Junk} {data : List UInt8} {m : NetMessage} (total : Nat)
    (hsize : data.length < 2 ^ 63) (h : ofData junk data = .ok m) :
    Holds (total + data.length) m data := by
  obtain ⟨hwf, hcontent, hlen⟩ := write_ok (wf_new junk) hsize h
  rw [length_storage_new] at hlen
  refine ⟨hwf, ?_, by omega, by omega⟩
  rw [hcontent, content_new, List.nil_append]

theorem Holds.copy {total : Nat} {m : NetMessage} {bytes : List UInt8} (h : Holds total m bytes)
    (junk : Junk) : Holds total (copy junk m) bytes := by
  obtain ⟨hwf, hcontent, hst⟩ := copy_spec junk h.wf
  exact ⟨hwf, hcontent.trans h.content, h.small, by rw [hst]; exact h.room⟩

theorem Holds.copyAssign {total : Nat} {m rhs : NetMessage} {bytes bytes' : List UInt8}
    (h : Holds total m bytes) (hrhs : Holds total rhs bytes') :
    Holds total (m.copyAssign rhs) bytes' := by
  obtain ⟨hwf, hcontent, hst⟩ := copyAssign_spec h.wf hrhs.wf
  exact ⟨hwf, hcontent.trans hrhs.content, hrhs.small, by rw [hst]; exact hrhs.room⟩

theorem Holds.movedFrom {total : Nat} {m : NetMessage} {bytes : List UInt8}
    (h : Holds total m bytes) : Holds total m.movedFrom [] := by
  obtain ⟨hwf, hcontent, hlen⟩ := movedFrom_spec h.wf
  exact ⟨hwf, hcontent, Nat.zero_le _, by omega⟩

theorem Holds.retrieve {total size : Nat} {m : NetMessage} {bytes : List UInt8}
    (h : Holds total m bytes) (hsize : size ≤ m.readable) :
    Holds total (m.retrieve size) (bytes.drop size) := by
  obtain ⟨hwf, hcontent⟩ := retrieve_spec h.wf hsize
  have hst : (m.retrieve size).storage = m.storage := by
    unfold NetMessage.retrieve
    split_ifs <;> rfl
  refine ⟨hwf, by rw [hcontent, h.content], ?_, by rw [hst]; exact h.room⟩
  rw [List.length_drop]
  exact (Nat.sub_le _ _).trans h.small

/-- The vector grows by twice the number of the bytes that are appended, at most. -/
theorem Holds.append {total size : Nat} {m m' : NetMessage} {bytes data : List UInt8}
    (h : Holds total m bytes)
    (hm' : m'.WF ∧ m'.content = m.content ++ data ∧
      m'.storage.length ≤ m.storage.length + 2 * size)
    (hsize : data.length = size) : Holds (total + size) m' (bytes ++ data) := by
  obtain ⟨hwf, hcontent, hlen⟩ := hm'
  have hsmall := h.small
  have hroom := h.room
  refine ⟨hwf, by rw [hcontent, h.content], ?_, by omega⟩
  rw [List.length_append]
  omega

end NetMessage

/-- **Every member function does to the message what it does to the queue.** -/
theorem Method.holds {host : ByteOrder} {method : Method} {total : Nat} {m m' : NetMessage}
    {bytes : List UInt8} (h : m.Holds total bytes) (hasserted : method.Asserted m)
    (hsize : method.size < 2 ^ 63) (hrun : method.run host m = .ok m') :
    m'.Holds (total + method.size) (method.apply host bytes) := by
  have hcontent := h.content
  have hsmall := h.small
  have hroom := h.room
  have hreadable := h.readable
  cases method with
  | write data => exact h.append (NetMessage.write_ok h.wf hsize hrun) rfl
  | writePod value => exact h.append (NetMessage.write_ok h.wf hsize hrun) rfl
  | writeString value => exact h.append (NetMessage.writeString_ok h.wf hsize hrun) rfl
  | writeLenghtAndString value =>
      simp only [size] at hsize
      refine h.append (NetMessage.writeLenghtAndString_ok h.wf (by omega) hrun) ?_
      rw [List.length_append, NetMessage.length_toMemory32]
      rfl
  | retrieve size =>
      cases hrun
      exact h.retrieve hasserted
  | retrieveAll =>
      cases hrun
      obtain ⟨hwf, hnil⟩ := NetMessage.retrieveAll_spec h.wf
      exact ⟨hwf, hnil, Nat.zero_le _, hroom⟩
  | clear =>
      cases hrun
      obtain ⟨hwf, hnil, hlen⟩ := NetMessage.clear_spec h.wf
      exact ⟨hwf, hnil, Nat.zero_le _, by omega⟩
  | reserve size =>
      obtain ⟨hwf, hsame, hlen⟩ := NetMessage.reserve_spec h.wf hrun
      refine ⟨hwf, by rw [hsame, hcontent]; rfl, ?_, by omega⟩
      exact hsmall.trans (Nat.le_add_right _ _)
  | ensureWritableBytes size =>
      obtain ⟨hwf, hsame, -, hlen⟩ := NetMessage.ensureWritableBytes_ok h.wf hsize hrun
      have hwriter := h.wf.writer_le
      refine ⟨hwf, by rw [hsame, hcontent]; rfl, hsmall.trans (Nat.le_add_right _ _), ?_⟩
      simp only [Method.size] at hlen ⊢
      omega
  | setDynamic =>
      cases hrun
      have hlen := NetMessage.length_storage_setDynamic_le h.wf
      exact ⟨NetMessage.wf_setDynamic h.wf, (NetMessage.content_setDynamic h.wf).trans hcontent,
        hsmall, by omega⟩

/-! ## The refinement -/

/-- Every object of the one program holds the bytes of its queue in the other. -/
structure Store.Represents (total : Nat) (σ : Store) (q : Queues) : Prop where
  objects : ∀ i, Option.Rel (NetMessage.Holds total) (σ.objects i) (q.queues i)
  values : σ.values = q.values

theorem Queues.set_self {q : Queues} {i : Nat} {bytes : List UInt8} (h : q.queues i = some bytes) :
    q.set i bytes = q := by
  unfold Queues.set
  congr 1
  funext j
  split_ifs with hj
  · rw [hj, h]
  · rfl

namespace Store

variable {host : ByteOrder} {total total' : Nat} {σ : Store} {q : Queues}

theorem Represents.mono (h : Represents total σ q) (hle : total ≤ total') :
    Represents total' σ q where
  objects := by
    intro i
    have hi := h.objects i
    generalize σ.objects i = o at hi ⊢
    generalize q.queues i = o' at hi ⊢
    cases hi with
    | some hm => exact .some (hm.mono hle)
    | none => exact .none
  values := h.values

theorem Represents.set (h : Represents total σ q) {m : NetMessage} {bytes : List UInt8}
    (hm : m.Holds total bytes) (i : Nat) : Represents total (σ.set i m) (q.set i bytes) where
  objects := by
    intro j
    unfold Store.set Queues.set
    dsimp only
    split_ifs
    · exact .some hm
    · exact h.objects j
  values := h.values

/-- The two programs agree on what exists. -/
theorem Represents.isSome_eq (h : Represents total σ q) (i : Nat) :
    (σ.objects i).isSome = (q.queues i).isSome := by
  have hi := h.objects i
  generalize σ.objects i = o at hi ⊢
  generalize q.queues i = o' at hi ⊢
  cases hi <;> rfl

theorem Represents.exists_queue (h : Represents total σ q) {i : Nat} {m : NetMessage}
    (hm : σ.objects i = some m) : ∃ bytes, q.queues i = some bytes ∧ m.Holds total bytes := by
  have hi := h.objects i
  rw [hm] at hi
  generalize q.queues i = o at hi
  cases hi with
  | some hholds => exact ⟨_, rfl, hholds⟩

theorem become_eq_some {r : Except NetMessage NetMessage} {i : Nat} {σ' : Store}
    (h : σ.become i r = some σ') : ∃ m, r = .ok m ∧ σ' = σ.set i m := by
  cases r with
  | error m => cases h
  | ok m => exact ⟨m, rfl, (Option.some.inj h).symm⟩

/-- **One operation.** -/
theorem Represents.step {σ' : Store} {op : Op} (h : Represents total σ q)
    (hsize : op.size < 2 ^ 63) (hstep : step host σ op = some σ') :
    ∃ q', Queues.step host q op = some q' ∧ Represents (total + op.size) σ' q' := by
  have hmono := h.mono (Nat.le_add_right total op.size)
  cases op with
  | new i junk =>
      unfold Store.step at hstep
      dsimp only at hstep
      split_ifs at hstep with hi
      cases hstep
      rw [h.isSome_eq] at hi
      exact ⟨_, if_neg hi, hmono.set (NetMessage.holds_new junk _) i⟩
  | ofSize i junk size =>
      unfold Store.step at hstep
      dsimp only at hstep
      split_ifs at hstep with hi
      obtain ⟨m, hm, rfl⟩ := become_eq_some hstep
      rw [h.isSome_eq] at hi
      exact ⟨_, if_neg hi, hmono.set (NetMessage.holds_ofSize total hsize hm) i⟩
  | ofData i junk data =>
      unfold Store.step at hstep
      dsimp only at hstep
      split_ifs at hstep with hi
      obtain ⟨m, hm, rfl⟩ := become_eq_some hstep
      rw [h.isSome_eq] at hi
      exact ⟨_, if_neg hi, hmono.set (NetMessage.holds_ofData total hsize hm) i⟩
  | copy i junk other =>
      unfold Store.step at hstep
      dsimp only at hstep
      split_ifs at hstep with hi
      obtain ⟨m, hm, rfl⟩ := Option.map_eq_some_iff.mp hstep
      obtain ⟨bytes, hbytes, hholds⟩ := h.exists_queue hm
      rw [h.isSome_eq] at hi
      refine ⟨q.set i bytes, ?_, hmono.set (hholds.copy junk) i⟩
      unfold Queues.step
      dsimp only
      rw [if_neg hi, hbytes]
      rfl
  | move i junk other =>
      unfold Store.step at hstep
      dsimp only at hstep
      split_ifs at hstep with hi
      obtain ⟨m, hm, rfl⟩ := Option.map_eq_some_iff.mp hstep
      obtain ⟨bytes, hbytes, hholds⟩ := h.exists_queue hm
      rw [h.isSome_eq] at hi
      refine ⟨(q.set i bytes).set other [], ?_,
        (hmono.set (hholds.copy junk) i).set hholds.movedFrom other⟩
      unfold Queues.step
      dsimp only
      rw [if_neg hi, hbytes]
      rfl
  | copyAssign i rhs =>
      obtain ⟨m, hm, hmap⟩ := Option.bind_eq_some_iff.mp hstep
      obtain ⟨m', hm', rfl⟩ := Option.map_eq_some_iff.mp hmap
      obtain ⟨bytes, hbytes, hholds⟩ := h.exists_queue hm
      obtain ⟨bytes', hbytes', hholds'⟩ := h.exists_queue hm'
      refine ⟨q.set i bytes', by unfold Queues.step; dsimp only; rw [hbytes, hbytes']; rfl, ?_⟩
      split_ifs with hself
      · rw [hself] at hbytes'
        rw [Queues.set_self hbytes']
        exact hmono
      · exact hmono.set (hholds.copyAssign hholds') i
  | moveAssign i rhs =>
      obtain ⟨m, hm, hmap⟩ := Option.bind_eq_some_iff.mp hstep
      obtain ⟨m', hm', rfl⟩ := Option.map_eq_some_iff.mp hmap
      obtain ⟨bytes, hbytes, hholds⟩ := h.exists_queue hm
      obtain ⟨bytes', hbytes', hholds'⟩ := h.exists_queue hm'
      refine ⟨if rhs = i then q else (q.set i bytes').set rhs [],
        by unfold Queues.step; dsimp only; rw [hbytes, hbytes']; rfl, ?_⟩
      split_ifs with hself
      · exact hmono
      · exact (hmono.set (hholds.copyAssign hholds') i).set hholds'.movedFrom rhs
  | swap i other =>
      obtain ⟨m, hm, hmap⟩ := Option.bind_eq_some_iff.mp hstep
      obtain ⟨m', hm', rfl⟩ := Option.map_eq_some_iff.mp hmap
      obtain ⟨bytes, hbytes, hholds⟩ := h.exists_queue hm
      obtain ⟨bytes', hbytes', hholds'⟩ := h.exists_queue hm'
      refine ⟨(q.set i bytes').set other bytes,
        by unfold Queues.step; dsimp only; rw [hbytes, hbytes']; rfl, ?_⟩
      split_ifs with hself
      · -- exchanged with itself a message stays as it is
        rw [hself] at hbytes' ⊢
        rw [Queues.set_self hbytes', Queues.set_self hbytes]
        exact hmono
      · exact (hmono.set hholds' i).set hholds other
  | call i method =>
      obtain ⟨m, hm, hcall⟩ := Option.bind_eq_some_iff.mp hstep
      obtain ⟨bytes, hbytes, hholds⟩ := h.exists_queue hm
      split_ifs at hcall with hasserted
      obtain ⟨m', hm', rfl⟩ := become_eq_some hcall
      refine ⟨q.set i (method.apply host bytes), by unfold Queues.step; dsimp only; rw [hbytes]; rfl, ?_⟩
      exact hmono.set (Method.holds hholds hasserted hsize hm') i
  | readPod i size =>
      obtain ⟨m, hm, hread⟩ := Option.bind_eq_some_iff.mp hstep
      obtain ⟨bytes, hbytes, hholds⟩ := h.exists_queue hm
      split_ifs at hread with hasserted
      cases hread
      refine ⟨_, by unfold Queues.step; dsimp only; rw [hbytes]; rfl, ?_⟩
      have hset := hmono.set (hholds.retrieve hasserted) i
      refine ⟨hset.objects, ?_⟩
      show σ.values ++ [m.peek size] = q.values ++ [bytes.take size]
      rw [h.values, NetMessage.peek_eq hasserted, hholds.content]

end Store

/-! ## Nothing is thrown -/

/-- What the operation relies on: the object that it constructs does not exist yet, the others that
it names do, and the source's assertion holds. -/
def Store.Op.Asserted (σ : Store) : Store.Op → Prop
  | .new i _ | .ofSize i _ _ | .ofData i _ _ => σ.objects i = none
  | .copy i _ other | .move i _ other => σ.objects i = none ∧ ∃ m, σ.objects other = some m
  | .copyAssign i rhs | .moveAssign i rhs | .swap i rhs =>
    (∃ m, σ.objects i = some m) ∧ ∃ m, σ.objects rhs = some m
  | .call i method => ∃ m, σ.objects i = some m ∧ method.Asserted m
  | .readPod i size => ∃ m, σ.objects i = some m ∧ size ≤ m.readable

/-- As long as the vector stays within its limit, a member function returns. -/
theorem Method.run_ok (host : ByteOrder) (method : Method) {total : Nat} {m : NetMessage}
    {bytes : List UInt8} (h : m.Holds total bytes)
    (hsize : kDynamicThreshold + 2 * (total + method.size) ≤ vectorMaxSize) :
    ∃ m', method.run host m = .ok m' := by
  have hroom := h.room
  have hwriter := h.wf.writer_le
  cases method with
  | write data => exact NetMessage.write_succeeds h.wf (by simp only [size] at hsize; omega)
  | writePod value => exact NetMessage.write_succeeds h.wf (by simp only [size] at hsize; omega)
  | writeString value =>
      simp only [run, NetMessage.writeString]
      split_ifs
      · exact ⟨m, rfl⟩
      · exact NetMessage.write_succeeds h.wf (by simp only [size] at hsize; omega)
  | writeLenghtAndString value =>
      simp only [size] at hsize
      have hfits : m.storage.length + 2 * (host.toMemory32 (BitVec.ofNat 32 value.length)).length ≤
          vectorMaxSize := by
        rw [NetMessage.length_toMemory32]
        omega
      obtain ⟨r, hr⟩ := NetMessage.write_succeeds h.wf hfits
      obtain ⟨hwf, -, hlen⟩ :=
        NetMessage.write_ok h.wf (by rw [NetMessage.length_toMemory32]; decide) hr
      rw [NetMessage.length_toMemory32] at hlen
      simp only [run, NetMessage.writeLenghtAndString, NetMessage.writePod, hr,
        NetMessage.writeString]
      split_ifs
      · exact ⟨r, rfl⟩
      · exact NetMessage.write_succeeds hwf (by omega)
  | reserve size => exact NetMessage.reserve_ok (by simp only [Method.size] at hsize; omega)
  | ensureWritableBytes size =>
      obtain ⟨m', hm', -⟩ := NetMessage.ensureWritableBytes_spec size h.wf
        (by simp only [Method.size] at hsize; omega)
      exact ⟨m', hm'⟩
  | retrieve _ => exact ⟨_, rfl⟩
  | retrieveAll => exact ⟨_, rfl⟩
  | clear => exact ⟨_, rfl⟩
  | setDynamic => exact ⟨_, rfl⟩

theorem Store.Represents.exists_step {host : ByteOrder} {total : Nat} {σ : Store} {q : Queues}
    (h : σ.Represents total q) {op : Store.Op} (hasserted : op.Asserted σ)
    (hsize : kDynamicThreshold + 2 * (total + op.size) ≤ vectorMaxSize) :
    ∃ σ', Store.step host σ op = some σ' := by
  unfold Store.step
  cases op with
  | new i junk =>
      have hi : σ.objects i = none := hasserted
      exact ⟨σ.set i (.new junk), by simp [hi]⟩
  | ofSize i junk size =>
      have hi : σ.objects i = none := hasserted
      obtain ⟨m, hm⟩ := Method.run_ok host (.ensureWritableBytes size)
        (NetMessage.holds_new junk total) hsize
      have hm : NetMessage.ofSize junk size = .ok m := hm
      exact ⟨σ.set i m, by simp [hi, hm, Store.become]⟩
  | ofData i junk data =>
      have hi : σ.objects i = none := hasserted
      obtain ⟨m, hm⟩ := Method.run_ok host (.write data) (NetMessage.holds_new junk total) hsize
      have hm : NetMessage.ofData junk data = .ok m := hm
      exact ⟨σ.set i m, by simp [hi, hm, Store.become]⟩
  | copy i junk other =>
      obtain ⟨hi, m, hm⟩ := hasserted
      exact ⟨σ.set i (.copy junk m), by simp [hi, hm]⟩
  | move i junk other =>
      obtain ⟨hi, m, hm⟩ := hasserted
      exact ⟨(σ.set i (.copy junk m)).set other m.movedFrom, by simp [hi, hm, NetMessage.move]⟩
  | copyAssign i rhs =>
      obtain ⟨⟨m, hm⟩, m', hm'⟩ := hasserted
      exact ⟨_, by simp only [hm, hm', Option.bind_some, Option.map_some]; rfl⟩
  | moveAssign i rhs =>
      obtain ⟨⟨m, hm⟩, m', hm'⟩ := hasserted
      exact ⟨_, by simp only [hm, hm', Option.bind_some, Option.map_some]; rfl⟩
  | swap i other =>
      obtain ⟨⟨m, hm⟩, m', hm'⟩ := hasserted
      exact ⟨_, by simp only [hm, hm', Option.bind_some, Option.map_some]; rfl⟩
  | call i method =>
      obtain ⟨m, hm, hcall⟩ := hasserted
      obtain ⟨bytes, -, hholds⟩ := h.exists_queue hm
      obtain ⟨m', hm'⟩ := Method.run_ok host method hholds hsize
      exact ⟨σ.set i m', by simp [hm, hcall, hm', Store.become]⟩
  | readPod i size =>
      obtain ⟨m, hm, hread⟩ := hasserted
      exact ⟨_, by simp only [hm, Option.bind_some, if_pos hread]; rfl⟩

/-! ## Runs -/

theorem Store.Represents.run {host : ByteOrder} {total : Nat} {σ σ' : Store} {q : Queues}
    {ops : List Store.Op} (h : σ.Represents total q) (hsize : (ops.map Store.Op.size).sum < 2 ^ 63)
    (hrun : Transition.exec (Store.step host) σ ops = some σ') :
    ∃ q', Transition.exec (Queues.step host) q ops = some q' ∧
      σ'.Represents (total + (ops.map Store.Op.size).sum) q' := by
  induction ops generalizing total σ q with
  | nil =>
      cases hrun
      exact ⟨q, rfl, h⟩
  | cons op ops ih =>
      obtain ⟨τ, hstep, hrest⟩ := Option.bind_eq_some_iff.mp hrun
      rw [List.map_cons, List.sum_cons] at hsize
      obtain ⟨r, hr, hrep⟩ := h.step (by omega) hstep
      obtain ⟨q', hq', hrep'⟩ := ih hrep (by omega) hrest
      refine ⟨q', (Transition.exec_cons hr).trans hq', ?_⟩
      rw [List.map_cons, List.sum_cons, ← Nat.add_assoc]
      exact hrep'

/-- **A message is a byte queue.** After any run over any number of messages whose sizes sum up to
less than 2⁶³, every message holds what its queue holds after the same run over byte queues, and
`read_pod` has returned what came out of the queues. The positions lie in order in the storage,
which exists, so that no difference of sizes wraps. While the sizes stay below 2⁶² no operation
throws. -/
theorem store_refines_queues {host : ByteOrder} {ops : List Store.Op} {σ : Store}
    (hrun : Transition.exec (Store.step host) .empty ops = some σ)
    (hsize : (ops.map Store.Op.size).sum < 2 ^ 63) :
    (∃ q, Transition.exec (Queues.step host) .empty ops = some q ∧ σ.values = q.values ∧
      ∀ i, (σ.objects i).map NetMessage.content = q.queues i) ∧
      (∀ i m, σ.objects i = some m →
        (m.readerPos ≤ m.writerPos ∧ m.writerPos ≤ m.storage.length) ∧
        (if m.isDynmic then m.dynamicData = some m.storage
          else m.storage.length = kDynamicThreshold) ∧
        m.readable = m.writerPos - m.readerPos ∧
        m.writeable = m.storage.length - m.writerPos) ∧
      ∀ op : Store.Op, op.Asserted σ → (ops.map Store.Op.size).sum + op.size < 2 ^ 62 - 64 →
        ∃ σ', Store.step host σ op = some σ' := by
  have hempty : Store.empty.Represents 0 Queues.empty := ⟨fun _ => .none, rfl⟩
  obtain ⟨q, hq, hrep⟩ := hempty.run hsize hrun
  rw [Nat.zero_add] at hrep
  refine ⟨⟨q, hq, hrep.values, fun i => ?_⟩, fun i m hm => ?_, fun op hasserted hlimit => ?_⟩
  · have hi := hrep.objects i
    generalize σ.objects i = o at hi ⊢
    generalize q.queues i = o' at hi ⊢
    cases hi with
    | some hholds => exact congrArg some hholds.content
    | none => rfl
  · obtain ⟨bytes, -, hholds⟩ := hrep.exists_queue hm
    have hwf := hholds.wf
    refine ⟨⟨hwf.reader_le, hwf.writer_le⟩, ?_, hwf.readable_eq, hwf.writeable_eq⟩
    split_ifs with hd
    · obtain ⟨v, hv⟩ := hwf.exists_vector hd
      rw [NetMessage.storage_dynamic hd hv, hv]
    · have hstatic : m.isDynmic = false := by simpa using hd
      rw [NetMessage.storage_static hstatic, hwf.static_length]
  · apply hrep.exists_step hasserted
    unfold kDynamicThreshold vectorMaxSize
    omega

/-- Three bytes are written, copied, partly read and moved. -/
theorem store_refines_queues_copy_and_move :
    ∃ σ, Transition.exec (Store.step .little) .empty
        [.ofData 0 .zeros [1, 2, 3], .copy 1 .zeros 0, .readPod 0 1, .move 2 .zeros 0,
          .call 1 (.write [4]), .call 0 (.writeString [5])] = some σ ∧
      σ.values = [[1]] ∧
      [0, 1, 2, 3].map (fun i => (σ.objects i).map NetMessage.content) =
        [some [5], some [1, 2, 3, 4], some [2, 3], none] := by
  obtain ⟨σ, hσ, -⟩ := Option.map_eq_some_iff.mp (show
    (Transition.exec (Store.step .little) .empty
      [.ofData 0 .zeros [1, 2, 3], .copy 1 .zeros 0, .readPod 0 1, .move 2 .zeros 0,
        .call 1 (.write [4]), .call 0 (.writeString [5])]).map (fun _ => ()) = some () by
      decide +kernel)
  obtain ⟨q, hq, hvalues, hqueues⟩ := (store_refines_queues hσ (by decide)).1
  obtain ⟨q', hq', hview⟩ := Option.map_eq_some_iff.mp (show
    (Transition.exec (Queues.step .little) .empty
      [.ofData 0 .zeros [1, 2, 3], .copy 1 .zeros 0, .readPod 0 1, .move 2 .zeros 0,
        .call 1 (.write [4]), .call 0 (.writeString [5])]).map
        (fun q => (q.values, [0, 1, 2, 3].map q.queues)) =
      some ([[1]], [some [5], some [1, 2, 3, 4], some [2, 3], none]) by decide +kernel)
  cases hq.symm.trans hq'
  obtain ⟨hvalues', hqueues'⟩ := Prod.mk.inj hview
  refine ⟨σ, hσ, hvalues.trans hvalues', ?_⟩
  rw [← hqueues']
  exact List.map_congr_left fun i _ => hqueues i

end EddyServer
