import Mathlib

/-!
# Length-prefixed framing

A body is sent as a *frame*: a header of fixed width announcing the body's length, then the body.
A reader alternates between two demands, the next header and the body a header has announced, and
takes exactly as many items from the stream as it demands.

Over any alphabet and any header encoding this file gives the two halves of the correctness of
such a reader, and that decoding is unique:

* `Reader.run_frames`: a reader fed with frames hands out exactly their bodies
  (reading undoes writing);
* `consumed_feed`, `Reader.consumed_run`: what a reader has consumed is always the frames of what it
  has handed out plus the header it still holds (writing undoes reading), whatever the stream;
* `prefix_of_frames`, `eq_of_consumed_frames`: a stream is the frames of one list of bodies only.
-/

namespace Framing

variable {α : Type*}

/-- An encoding of lengths in `width` items. A length from `bound` on is reduced modulo `bound`:
there the header no longer says what follows it. -/
structure Header (α : Type*) where
  width : Nat
  bound : Nat
  encode : Nat → List α
  decode : List α → Nat
  length_encode : ∀ n, (encode n).length = width
  decode_encode : ∀ n, decode (encode n) = n % bound
  encode_decode : ∀ h, h.length = width → encode (decode h) = h

variable (H : Header α)

/-- A header announcing the body, then the body. -/
def frame (b : List α) : List α := H.encode b.length ++ b

/-- The frames of a list of bodies, one after the other. -/
def frames (bs : List (List α)) : List α := bs.flatMap (frame H)

@[simp] theorem frames_nil : frames H [] = [] := rfl

@[simp] theorem frames_cons (b : List α) (bs : List (List α)) :
    frames H (b :: bs) = frame H b ++ frames H bs := rfl

@[simp] theorem frames_append (bs cs : List (List α)) :
    frames H (bs ++ cs) = frames H bs ++ frames H cs := List.flatMap_append

theorem length_frame (b : List α) : (frame H b).length = H.width + b.length := by
  rw [frame, List.length_append, H.length_encode]

/-! ## What a reader holds and demands

A reader's state is the length announced by a header whose body has not been taken yet, if any. -/

/-- How many items the reader demands next. -/
def wanted : Option Nat → Nat
  | none => H.width
  | some n => n

/-- The reader takes the items it demanded: a header is decoded and kept, a body is handed out. -/
def feed : Option Nat → List α → Option Nat × Option (List α)
  | none, buf => (some (H.decode buf), none)
  | some _, buf => (none, some buf)

/-- The items behind a reader that has handed out `out`: the frames of `out` and the header the
reader still holds. -/
def consumed (p : Option Nat) (out : List (List α)) : List α :=
  frames H out ++ match p with
    | none => []
    | some n => H.encode n

@[simp] theorem consumed_none (out : List (List α)) : consumed H none out = frames H out := by
  simp [consumed]

@[simp] theorem consumed_some (n : Nat) (out : List (List α)) :
    consumed H (some n) out = frames H out ++ H.encode n := rfl

/-- **Writing undoes reading**: one step of the reader adds exactly what it took to what the
frames of its output, with the header it holds, spell. -/
theorem consumed_feed {p : Option Nat} {buf : List α} (h : buf.length = wanted H p)
    (out : List (List α)) :
    consumed H (feed H p buf).1 (out ++ (feed H p buf).2.toList) = consumed H p out ++ buf := by
  cases p with
  | none => simp [feed, H.encode_decode buf h]
  | some n =>
      have hn : buf.length = n := h
      simp [feed, frame, hn]

/-! ## Unique decoding -/

/-- A stream that begins with a frame determines it. -/
theorem frame_append_inj {b c tail tail' : List α} (hb : b.length < H.bound)
    (hc : c.length < H.bound) (h : frame H b ++ tail = frame H c ++ tail') :
    b = c ∧ tail = tail' := by
  rw [frame, frame, List.append_assoc, List.append_assoc] at h
  obtain ⟨hheader, hrest⟩ := List.append_inj h (by rw [H.length_encode, H.length_encode])
  have hlen : b.length = c.length := by
    have hdecode := congrArg H.decode hheader
    rwa [H.decode_encode, H.decode_encode, Nat.mod_eq_of_lt hb, Nat.mod_eq_of_lt hc] at hdecode
  exact List.append_inj hrest hlen

/-- **Frames are decoded in one way only**: frames that begin like the frames of `cs` are those of
the first of `cs`. -/
theorem prefix_of_frames (hwidth : 0 < H.width) {bs cs : List (List α)}
    (hbs : ∀ b ∈ bs, b.length < H.bound) (hcs : ∀ c ∈ cs, c.length < H.bound)
    (h : frames H bs <+: frames H cs) : bs <+: cs := by
  induction bs generalizing cs with
  | nil => exact List.nil_prefix
  | cons b bs ih =>
      obtain ⟨tail, htail⟩ := h
      cases cs with
      | nil =>
          have hlen := congrArg List.length htail
          rw [frames_cons, List.length_append, List.length_append, length_frame, frames_nil,
            List.length_nil] at hlen
          omega
      | cons c cs =>
          rw [frames_cons, frames_cons, List.append_assoc] at htail
          obtain ⟨rfl, hrest⟩ := frame_append_inj H (hbs b List.mem_cons_self)
            (hcs c List.mem_cons_self) htail
          exact List.cons_prefix_cons.mpr ⟨rfl, ih (fun d hd => hbs d (List.mem_cons_of_mem _ hd))
            (fun d hd => hcs d (List.mem_cons_of_mem _ hd)) ⟨tail, hrest⟩⟩

theorem frames_front {bs cs : List (List α)} (h : bs <+: cs) : frames H bs <+: frames H cs := by
  obtain ⟨rest, rfl⟩ := h
  exact ⟨frames H rest, (frames_append H bs rest).symm⟩

theorem frames_of_consumed (p : Option Nat) (out : List (List α)) :
    frames H out <+: consumed H p out := List.prefix_append _ _

/-- A reader that has consumed the frames of bodies that are not empty, and nothing else, has handed
out those bodies and holds no header. -/
theorem eq_of_consumed_frames (hwidth : 0 < H.width) {p : Option Nat} {out cs : List (List α)}
    (hout : ∀ b ∈ out, b.length < H.bound) (hcs : ∀ c ∈ cs, c ≠ [] ∧ c.length < H.bound)
    (h : consumed H p out = frames H cs) : p = none ∧ out = cs := by
  obtain ⟨rest, rfl⟩ := prefix_of_frames H hwidth hout (fun c hc => (hcs c hc).2)
    (h ▸ frames_of_consumed H p out)
  unfold consumed at h
  rw [frames_append] at h
  have hheld := List.append_cancel_left h
  cases rest with
  | nil =>
      cases p with
      | none => exact ⟨rfl, (List.append_nil out).symm⟩
      | some n =>
          have hlen := congrArg List.length hheld
          rw [H.length_encode, frames_nil, List.length_nil] at hlen
          omega
  | cons c rest =>
      -- more than a header is missing
      have hbody := List.length_pos_iff.mpr (hcs c (by simp)).1
      have hlen := congrArg List.length hheld
      rw [frames_cons, List.length_append, length_frame] at hlen
      cases p with
      | none =>
          rw [List.length_nil] at hlen
          omega
      | some n =>
          rw [H.length_encode] at hlen
          omega

/-! ## Where a stream ends, and empty frames -/

/-- The rest of a stream in which the next frame is not complete. -/
def Incomplete (tail : List α) : Prop :=
  tail.length < H.width ∨ tail.length < H.width + H.decode (tail.take H.width)

/-- A reader that gets less than it demands has handed out all complete frames. -/
theorem consumed_incomplete {p : Option Nat} (hp : ∀ n, p = some n → n < H.bound)
    (out : List (List α)) {buf : List α} (h : buf.length < wanted H p) :
    ∃ tail, consumed H p out ++ buf = frames H out ++ tail ∧ Incomplete H tail := by
  cases p with
  | none => exact ⟨buf, by rw [consumed_none], .inl h⟩
  | some n =>
      refine ⟨H.encode n ++ buf, by rw [consumed_some, List.append_assoc], .inr ?_⟩
      have hlen := H.length_encode n
      rw [← hlen, List.take_left, H.decode_encode, Nat.mod_eq_of_lt (hp n rfl), List.length_append]
      exact Nat.add_lt_add_left h _

/-- One of the complete frames of the stream has no body. -/
def HasEmptyFrame (stream : List α) : Prop :=
  ∃ bs rest, (∀ b ∈ bs, b.length < H.bound) ∧ stream = frames H (bs ++ [[]]) ++ rest

/-- There is a first one. -/
theorem HasEmptyFrame.first {stream : List α} (h : HasEmptyFrame H stream) :
    ∃ bs rest, (∀ b ∈ bs, b.length < H.bound ∧ b ≠ []) ∧
      stream = frames H (bs ++ [[]]) ++ rest := by
  obtain ⟨bs, rest, hbs, rfl⟩ := h
  induction bs with
  | nil => exact ⟨[], rest, nofun, rfl⟩
  | cons b bs ih =>
      by_cases hb : b = []
      · subst hb
        exact ⟨[], frames H (bs ++ [[]]) ++ rest, nofun, by simp⟩
      · obtain ⟨cs, rest', hcs, hsame⟩ := ih fun c hc => hbs c (List.mem_cons_of_mem _ hc)
        refine ⟨b :: cs, rest', fun c hc => ?_, ?_⟩
        · rcases List.mem_cons.mp hc with rfl | hc
          · exact ⟨hbs c List.mem_cons_self, hb⟩
          · exact hcs c hc
        · rw [List.cons_append, frames_cons, List.append_assoc, hsame, List.cons_append,
            frames_cons, List.append_assoc]

/-! ## Reading a stream -/

/-- A reader, the stream in front of it and what it has handed out. -/
structure Reader (α : Type*) where
  pending : Option Nat
  rest : List α
  out : List (List α)

/-- Take what the reader demands, if the stream still holds that much. -/
def Reader.step (r : Reader α) : Option (Reader α) :=
  if r.rest.length < wanted H r.pending then none
  else
    let fed := feed H r.pending (r.rest.take (wanted H r.pending))
    some ⟨fed.1, r.rest.drop (wanted H r.pending), r.out ++ fed.2.toList⟩

/-- At most `n` steps: fewer when the stream holds less than the reader demands. -/
def Reader.run : Nat → Reader α → Reader α
  | 0, r => r
  | n + 1, r => match r.step H with
    | none => r
    | some r' => r'.run n

variable {H}

theorem Reader.run_succ {r r' : Reader α} (h : r.step H = some r') (n : Nat) :
    r.run H (n + 1) = r'.run H n := by
  rw [Reader.run, h]

/-- A reader at a frame boundary takes one whole frame in two steps. -/
theorem Reader.run_frame {b : List α} (hb : b.length < H.bound) (tail : List α)
    (out : List (List α)) (n : Nat) :
    (Reader.mk none (frame H b ++ tail) out).run H (n + 2) =
      (Reader.mk none tail (out ++ [b])).run H n := by
  have hheader : (Reader.mk none (frame H b ++ tail) out).step H =
      some ⟨some b.length, b ++ tail, out⟩ := by
    have hlen : ¬ (frame H b ++ tail).length < H.width := by
      rw [List.length_append, length_frame]; omega
    have htake : (frame H b ++ tail).take H.width = H.encode b.length := by
      rw [frame, List.append_assoc, List.take_append_of_le_length (by simp [H.length_encode]),
        List.take_of_length_le (by simp [H.length_encode])]
    have hdrop : (frame H b ++ tail).drop H.width = b ++ tail := by
      rw [frame, List.append_assoc, ← H.length_encode b.length, List.drop_left]
    simp only [Reader.step, wanted, if_neg hlen, htake, hdrop, feed, H.decode_encode,
      Nat.mod_eq_of_lt hb, Option.toList_none, List.append_nil]
  have hbody : (Reader.mk (some b.length) (b ++ tail) out).step H =
      some ⟨none, tail, out ++ [b]⟩ := by
    simp [Reader.step, wanted, feed]
  rw [Reader.run_succ hheader, Reader.run_succ hbody]

/-- **Reading undoes writing**: bodies short enough for the header come out of their frames
unchanged and in order, two steps each, and the reader ends at a frame boundary. -/
theorem Reader.run_frames {bs : List (List α)} (hbs : ∀ b ∈ bs, b.length < H.bound)
    (tail : List α) (out : List (List α)) :
    (Reader.mk none (frames H bs ++ tail) out).run H (2 * bs.length) =
      Reader.mk none tail (out ++ bs) := by
  induction bs generalizing out with
  | nil => simp [Reader.run]
  | cons b bs ih =>
      rw [frames_cons, List.append_assoc, List.length_cons, Nat.mul_add, Nat.mul_one,
        Reader.run_frame (hbs b List.mem_cons_self),
        ih (fun c hc => hbs c (List.mem_cons_of_mem _ hc)), List.append_assoc]
      rfl

/-- A step moves what it takes from the stream behind the reader. -/
theorem Reader.consumed_step {r r' : Reader α} (h : r.step H = some r') :
    consumed H r'.pending r'.out ++ r'.rest = consumed H r.pending r.out ++ r.rest := by
  unfold Reader.step at h
  split_ifs at h with hlt
  cases h
  have htake : (r.rest.take (wanted H r.pending)).length = wanted H r.pending := by
    rw [List.length_take, Nat.min_eq_left (Nat.le_of_not_lt hlt)]
  dsimp only
  rw [consumed_feed H htake, List.append_assoc, List.take_append_drop]

theorem Reader.consumed_run (n : Nat) (r : Reader α) :
    consumed H (r.run H n).pending (r.run H n).out ++ (r.run H n).rest =
      consumed H r.pending r.out ++ r.rest := by
  induction n generalizing r with
  | zero => rfl
  | succ n ih =>
      rw [Reader.run]
      cases h : r.step H with
      | none => rfl
      | some r' => exact (ih r').trans (Reader.consumed_step h)

/-- One of two steps in a row takes a header. -/
theorem Reader.length_step_step {r r' r'' : Reader α} (h : r.step H = some r')
    (h' : r'.step H = some r'') : r''.rest.length + H.width ≤ r.rest.length := by
  unfold Reader.step at h h'
  split_ifs at h h' with hlt hlt'
  cases h
  cases h'
  cases hp : r.pending with
  | none =>
      simp only [hp, wanted, feed, List.length_drop] at hlt hlt' ⊢
      omega
  | some n =>
      simp only [hp, wanted, feed, List.length_drop] at hlt hlt' ⊢
      omega

/-- A reader of a finite stream comes to a point where it gets less than it demands. -/
theorem Reader.exists_step_eq_none (hwidth : 0 < H.width) (r : Reader α) :
    ∃ n, (r.run H n).step H = none := by
  -- by induction on the length of the stream, two steps at a time
  induction hlen : r.rest.length using Nat.strong_induction_on generalizing r with
  | _ len ih =>
      cases h : r.step H with
      | none => exact ⟨0, h⟩
      | some r' =>
          cases h' : r'.step H with
          | none => exact ⟨1, by rw [Reader.run_succ h]; exact h'⟩
          | some r'' =>
              have hshorter := Reader.length_step_step h h'
              obtain ⟨n, hn⟩ := ih r''.rest.length (by omega) r'' rfl
              exact ⟨n + 2, by rw [Reader.run_succ h, Reader.run_succ h']; exact hn⟩

end Framing
