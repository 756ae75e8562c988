import NineProject.PBuffer
import NineProject.Base.Runs

/-! # The capacity of a message buffer

`allocate_some` compares with the recorded size and doubles it once; `nsrc`
rewrites the recorded size and allocates nothing. What is recorded stays within
what is allocated as long as each chunk ends within twice the recorded size and
each receive fits the memory there is.
-/

namespace NineProject

open Bytes PBuffer

/-- What the server does to a buffer once it is made. -/
inductive BufferOp where
  | allocateSome (src : List Byte)
  | nsrc (size : Int)
  | initRecord
  | reserveWithTag (size : Int) (tagName : Str)
  deriving DecidableEq, Repr

namespace BufferOp

def apply : BufferOp → PBuffer → Except Fault PBuffer
  | allocateSome src, p => p.allocateSome src
  | nsrc size, p => .ok (p.nsrc size)
  | initRecord, p => .ok p.initRecord
  | reserveWithTag size tagName, p => p.reserveWithTag size tagName

/-- The buffer after an operation, `none` where it does not return. -/
def next (p : PBuffer) (op : BufferOp) : Option PBuffer := (op.apply p).toOption

/-- The operations on a buffer made with size `n`. -/
def Admissible (n : Int) : BufferOp → Prop
  | allocateSome src => src.length < 2 ^ 31
  | nsrc size => 0 ≤ size ∧ size ≤ n
  | initRecord => True
  | reserveWithTag size _ => 0 ≤ size ∧ size ≤ n

/-- Every byte the operation copies goes into the memory it leaves: the old contents
    where it grew, and the chunk. -/
def CopiesInside : BufferOp → PBuffer → PBuffer → Prop
  | allocateSome src, before, after =>
      (before.Overflows src.length → before.size ≤ after.data.length) ∧
        ∀ i < src.length,
          0 ≤ before.nextInputPoint + i ∧ before.nextInputPoint + i < after.data.length
  | _, _, _ => True

end BufferOp

/-- The records of the buffer stay within its memory. -/
structure PBuffer.WithinCapacity (p : PBuffer) : Prop where
  start : 0 ≤ p.nextInputPoint
  written : p.nextInputPoint ≤ p.data.length
  recorded : p.size ≤ p.data.length

/-- An operation that returns leaves the records within the memory and copied inside it. -/
def BufferOp.Sound (p : PBuffer) (op : BufferOp) : Prop :=
  ∀ q, op.next p = some q → q.WithinCapacity ∧ op.CopiesInside p q

/-- The tag has a slot, or takes the next one and that one was set. -/
def PBuffer.HasSlot (p : PBuffer) (tagName : Str) : Prop :=
  ((p.param.setArgs p.reservedIndex tagName).pointer tagName).isOk

/-- There is room for the operation in the buffer as it stands. -/
def BufferOp.Roomy (p : PBuffer) : BufferOp → Prop
  | .allocateSome src =>
      p.nextInputPoint + src.length ≤ 2 * p.size ∧ p.nextInputPoint + src.length < 2 ^ 31
  | .nsrc size => size ≤ p.data.length
  | .initRecord => True
  | .reserveWithTag size tagName =>
      4 < p.reservedIndex ∨ ¬ p.HasSlot tagName ∨ p.nextInputPoint + size ≤ p.data.length

/-- What holds between operations: the capacity, and sizes that fit an `int`. -/
structure PBuffer.Sized (p : PBuffer) : Prop extends p.WithinCapacity where
  size_nonneg : 0 ≤ p.size
  allocated : p.data.length < 2 ^ 31

theorem PBuffer.ofSize_sized {n : Int} (positive : 1 ≤ n) (int : InRange 32 n) {p : PBuffer}
    (made : PBuffer.ofSize n = .ok p) : p.Sized := by
  have low : ¬ n < 0 := by omega
  simp only [PBuffer.ofSize, newChars, low, if_false, Except.map, Except.ok.injEq] at made
  subst made
  have high : n < 2 ^ 31 := int.2
  have same : ((List.replicate n.toNat (0 : Byte)).length : Int) = n := by
    rw [List.length_replicate]
    omega
  refine ⟨⟨by simp, ?_, ?_⟩, ?_, ?_⟩ <;> simp only <;> omega

theorem PBuffer.doubled_cases {p : PBuffer} (low : 0 ≤ p.size) (high : p.size < 2 ^ 31) :
    p.doubled = 2 * p.size ∧ 2 * p.size < 2 ^ 31 ∨ p.doubled < 0 ∧ 2 ^ 31 ≤ 2 * p.size := by
  simp only [doubled, wrap, Int.bmod]
  omega

theorem PBuffer.append_iff {p : PBuffer} {s : List Byte} (start : 0 ≤ p.nextInputPoint)
    (fits : p.nextInputPoint < 2 ^ 31) (recorded : p.size ≤ p.data.length)
    (allocated : p.data.length < 2 ^ 31) :
    ((p.append s).WithinCapacity ∧ ∀ i < s.length,
        0 ≤ p.nextInputPoint + i ∧ p.nextInputPoint + i < (p.append s).data.length) ↔
      p.nextInputPoint + s.length ≤ p.data.length := by
  constructor
  · rintro ⟨within, copied⟩
    by_cases nothing : s.length = 0
    · have kept : wrap 32 (p.nextInputPoint + s.length) = p.nextInputPoint + s.length :=
        wrap_of_inRange (by omega) ⟨by omega, by omega⟩
      have written := within.written
      simp only [append, kept, poke_length] at written
      exact written
    · have last := (copied (s.length - 1) (by omega)).2
      simp only [append, poke_length] at last
      omega
  · intro room
    have kept : wrap 32 (p.nextInputPoint + s.length) = p.nextInputPoint + s.length :=
      wrap_of_inRange (by omega) ⟨by omega, by omega⟩
    refine ⟨⟨?_, ?_, ?_⟩, ?_⟩
    · simp only [append, kept]
      omega
    · simp only [append, kept, poke_length]
      omega
    · simpa only [append, poke_length] using recorded
    · intro i inside
      simp only [append, poke_length]
      omega

/-- In 32 bits a sum too large for an `int` is negative, and overflows nothing. -/
theorem PBuffer.overflows_iff {p : PBuffer} {k : Nat} (start : 0 ≤ p.nextInputPoint)
    (low : 0 ≤ p.size) (fits : p.nextInputPoint < 2 ^ 31) (short : k < 2 ^ 31) :
    p.Overflows k ↔ p.nextInputPoint + k < 2 ^ 31 ∧ p.size < p.nextInputPoint + k := by
  by_cases small : p.nextInputPoint + k < 2 ^ 31
  · have kept : wrap 32 (p.nextInputPoint + k) = p.nextInputPoint + k :=
      wrap_of_inRange (by omega) ⟨by omega, by omega⟩
    rw [Overflows, kept]
    exact ⟨fun h => ⟨small, h⟩, fun h => h.2⟩
  · have wrapped : wrap 32 (p.nextInputPoint + k) = p.nextInputPoint + k - 2 ^ 32 := by
      simp only [wrap, Int.bmod]
      omega
    rw [Overflows, wrapped]
    omega

theorem PBuffer.allocateSome_iff {p : PBuffer} (sized : p.Sized) {src : List Byte}
    (short : src.length < 2 ^ 31) :
    BufferOp.Sound p (.allocateSome src) ↔ BufferOp.Roomy p (.allocateSome src) := by
  obtain ⟨⟨start, written, recorded⟩, low, allocated⟩ := id sized
  have sum := overflows_iff (k := src.length) start low (by omega) short
  have twice := doubled_cases low (by omega)
  cases done : p.allocateSome src with
  | error stop =>
      -- twice the size is no `int`: the call throws, and the chunk ended below it
      have huge : p.Overflows src.length ∧ p.doubled < 0 := by
        by_contra fine
        by_cases overflow : p.Overflows src.length
        · rw [allocateSome_eq_ok.mpr (.inl ⟨overflow, by simp_all, low, rfl⟩)] at done
          cases done
        · rw [allocateSome_eq_ok.mpr (.inr ⟨overflow, rfl⟩)] at done
          cases done
      have fits := (sum.mp huge.1).1
      refine iff_of_true ?_ ⟨by omega, fits⟩
      intro q returned
      simp [BufferOp.next, BufferOp.apply, done, Except.toOption] at returned
  | ok q =>
      have result : BufferOp.next p (.allocateSome src) = some q := by
        simp [BufferOp.next, BufferOp.apply, done, Except.toOption]
      simp only [BufferOp.Sound, result, Option.some.injEq, forall_eq', BufferOp.CopiesInside,
        BufferOp.Roomy]
      rcases allocateSome_eq_ok.mp done with ⟨overflow, positive, -, rfl⟩ | ⟨fits, rfl⟩
      · obtain ⟨short, beyond⟩ := sum.mp overflow
        have copied := append_iff (p := p.grown) (s := src) start (by simp; omega) (by simp)
          (by simp; omega)
        simp only [grown_nextInputPoint, grown_length] at copied
        constructor
        · rintro ⟨within, -, inside⟩
          have room := copied.mp ⟨within, inside⟩
          omega
        · rintro ⟨room, -⟩
          obtain ⟨within, inside⟩ := copied.mpr (by omega)
          refine ⟨within, fun _ => ?_, inside⟩
          simp only [append_length, grown_length]
          omega
      · have copied := append_iff (s := src) start (by omega) recorded (by omega)
        simp only [fits, false_implies, true_and, copied]
        rw [sum] at fits
        omega

theorem PBuffer.reserveWithTag_eq {p q : PBuffer} {size : Int} {tagName : Str}
    (few : ¬ 4 < p.reservedIndex) (done : p.reserveWithTag size tagName = .ok q) :
    q.nextInputPoint = wrap 32 (p.nextInputPoint + size) ∧ q.data = p.data ∧ q.size = p.size := by
  unfold reserveWithTag at done
  rw [if_neg few] at done
  cases written : (p.param.setArgs p.reservedIndex tagName).setValue tagName p.nextInputPoint with
  | error stop =>
      rw [written] at done
      cases done
  | ok param =>
      rw [written] at done
      cases done
      exact ⟨rfl, rfl, rfl⟩

theorem PBuffer.reserveWithTag_isOk {p : PBuffer} {size : Int} {tagName : Str}
    (few : ¬ 4 < p.reservedIndex) :
    (∃ q, p.reserveWithTag size tagName = .ok q) ↔ p.HasSlot tagName := by
  unfold reserveWithTag HasSlot Param.setValue
  rw [if_neg few]
  cases (p.param.setArgs p.reservedIndex tagName).pointer tagName <;>
    simp [Except.map, Except.isOk, Except.toBool]

theorem PBuffer.reserveWithTag_iff {p : PBuffer} (sized : p.Sized) {size : Int} {tagName : Str}
    (positive : 0 ≤ size) (int : size < 2 ^ 31) :
    BufferOp.Sound p (.reserveWithTag size tagName) ↔
      BufferOp.Roomy p (.reserveWithTag size tagName) := by
  obtain ⟨within, low, allocated⟩ := id sized
  obtain ⟨start, written, recorded⟩ := id within
  by_cases few : 4 < p.reservedIndex
  · refine iff_of_true ?_ (.inl few)
    intro q done
    simp only [BufferOp.next, BufferOp.apply, reserveWithTag, few, if_true, Except.toOption,
      Option.some.injEq] at done
    exact ⟨done ▸ within, trivial⟩
  · cases result : p.reserveWithTag size tagName with
    | error stop =>
        have none_ : ¬ p.HasSlot tagName := by
          rw [← (reserveWithTag_isOk few : (∃ q, p.reserveWithTag size tagName = .ok q) ↔ _)]
          simp [result]
        refine iff_of_true ?_ (.inr (.inl none_))
        intro q done
        simp [BufferOp.next, BufferOp.apply, result, Except.toOption] at done
    | ok q =>
        have slot : p.HasSlot tagName := (reserveWithTag_isOk few).mp ⟨q, result⟩
        obtain ⟨point, memory, same⟩ := reserveWithTag_eq few result
        simp only [BufferOp.Sound, BufferOp.next, BufferOp.apply, result, Except.toOption,
          Option.some.injEq, forall_eq', BufferOp.CopiesInside, and_true, BufferOp.Roomy, few, slot,
          not_true_eq_false, false_or]
        have value : wrap 32 (p.nextInputPoint + size) = p.nextInputPoint + size ∨
            wrap 32 (p.nextInputPoint + size) < 0 ∧ 2 ^ 31 ≤ p.nextInputPoint + size := by
          simp only [wrap, Int.bmod]
          omega
        constructor
        · intro kept
          have := kept.start
          have := kept.written
          rw [point, memory] at *
          omega
        · intro room
          exact ⟨by rw [point]; omega, by rw [point, memory]; omega, by rw [same, memory]; omega⟩

theorem BufferOp.sound_iff {n : Int} (int : InRange 32 n) {p : PBuffer} (sized : p.Sized)
    {op : BufferOp} (admissible : op.Admissible n) : op.Sound p ↔ op.Roomy p := by
  have small : n < 2 ^ 31 := int.2
  cases op with
  | allocateSome src => exact PBuffer.allocateSome_iff sized admissible
  | nsrc size =>
      simp only [Sound, BufferOp.next, apply, PBuffer.nsrc, Except.toOption, Option.some.injEq,
        forall_eq', CopiesInside, and_true, Roomy]
      exact ⟨fun kept => kept.recorded, fun room => ⟨admissible.1, room, room⟩⟩
  | initRecord =>
      simp only [Sound, BufferOp.next, apply, PBuffer.initRecord, Except.toOption,
        Option.some.injEq, forall_eq', CopiesInside, and_true, Roomy, iff_true]
      exact ⟨by simp, by simp, sized.recorded⟩
  | reserveWithTag size tagName =>
      exact PBuffer.reserveWithTag_iff sized admissible.1 (by have := admissible.2; omega)

/-- An operation that stays within the capacity leaves sizes that fit an `int`. -/
theorem BufferOp.sized_next {n : Int} (int : InRange 32 n) {p q : PBuffer} (sized : p.Sized)
    {op : BufferOp} (admissible : op.Admissible n) (sound : op.Sound p)
    (step : op.next p = some q) : q.Sized := by
  have within := (sound q step).1
  obtain ⟨⟨start, written, recorded⟩, low, allocated⟩ := id sized
  have small : n < 2 ^ 31 := int.2
  cases op with
  | allocateSome src =>
      cases done : p.allocateSome src with
      | error stop => simp [BufferOp.next, apply, done, Except.toOption] at step
      | ok r =>
          simp only [BufferOp.next, apply, done, Except.toOption, Option.some.injEq] at step
          subst step
          have twice := PBuffer.doubled_cases low (by omega)
          obtain ⟨-, size, memory⟩ := allocateSome_sizes done
          have first := r.data.length
          refine ⟨within, ?_, ?_⟩ <;> split at size <;> simp_all <;> omega
  | nsrc size =>
      cases step
      exact ⟨within, admissible.1, allocated⟩
  | initRecord =>
      cases step
      exact ⟨within, low, allocated⟩
  | reserveWithTag size tagName =>
      by_cases few : 4 < p.reservedIndex
      · simp only [BufferOp.next, apply, PBuffer.reserveWithTag, few, if_true, Except.toOption,
          Option.some.injEq] at step
        exact step ▸ sized
      · cases result : p.reserveWithTag size tagName with
        | error stop => simp [BufferOp.next, apply, result, Except.toOption] at step
        | ok r =>
            obtain ⟨-, memory, same⟩ := PBuffer.reserveWithTag_eq few result
            simp only [BufferOp.next, apply, result, Except.toOption, Option.some.injEq] at step
            subst step
            exact ⟨within, by rw [same]; exact low, by rw [memory]; exact allocated⟩

/-- Over a whole run of operations the records stay within the memory, and every copy
    inside it, exactly when each operation finds the room it takes. -/
theorem capacity_kept_iff {n : Int} (positive : 1 ≤ n) (int : InRange 32 n) {p : PBuffer}
    (made : PBuffer.ofSize n = .ok p) {ops : List BufferOp}
    (admissible : ∀ op ∈ ops, op.Admissible n) :
    Runs.Each BufferOp.next BufferOp.Sound p ops ↔
      Runs.Each BufferOp.next BufferOp.Roomy p ops :=
  Runs.each_congr (A := BufferOp.Admissible n) (I := PBuffer.Sized)
    (fun _ _ sized allowed => BufferOp.sound_iff int sized allowed)
    (fun _ _ _ sized allowed sound step => BufferOp.sized_next int sized allowed sound step)
    (PBuffer.ofSize_sized positive int made) admissible

/-- A header and one small entry in a buffer of 64 bytes. -/
theorem capacity_kept_small :
    Runs.Each BufferOp.next BufferOp.Sound
        ⟨Param.ofTypes [.int, .int, .int, .int], 64, 0, 0, List.replicate 64 0⟩
        [.reserveWithTag 32 (str "Header"), .allocateSome [1, 2, 3]] ↔
      Runs.Each BufferOp.next BufferOp.Roomy
        ⟨Param.ofTypes [.int, .int, .int, .int], 64, 0, 0, List.replicate 64 0⟩
        [.reserveWithTag 32 (str "Header"), .allocateSome [1, 2, 3]] :=
  capacity_kept_iff (n := 64) (by decide) (by decide) rfl
    (List.forall_mem_cons.mpr ⟨⟨by decide, by decide⟩,
      List.forall_mem_cons.mpr ⟨show 3 < 2 ^ 31 by decide, by simp⟩⟩)

/-- One doubling of a buffer of one byte makes no room for three. -/
theorem capacity_outgrown :
    ¬ ∀ (n : Int) (p : PBuffer) (ops : List BufferOp), 1 ≤ n → InRange 32 n →
      PBuffer.ofSize n = .ok p → (∀ op ∈ ops, op.Admissible n) →
      Runs.Each BufferOp.next BufferOp.Sound p ops := by
  intro always
  have kept := always 1 ⟨Param.ofTypes [.int, .int, .int, .int], 1, 0, 0, [0]⟩
    [.allocateSome [1, 2, 3]] (by decide) (by decide) rfl
    (List.forall_mem_cons.mpr ⟨show 3 < 2 ^ 31 by decide, by simp⟩)
  have inside := (kept.1 _ rfl).1.written
  exact absurd inside (by decide)

end NineProject
