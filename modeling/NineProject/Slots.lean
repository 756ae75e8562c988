import NineProject.Base.Places
import NineProject.Param

/-! # Slots of a parameter block

Each call of `set` takes a new block for its types and gives every slot the place behind
the one before it. The place comes from a counter that no call sets back, so only the
slots of an object's first call are in its block.
-/

namespace NineProject
namespace Param

/-- `nof::set_params`, which takes one type to four. -/
def setParams (p : Param) (d : List DefaultType) : Param := p.set d

/-- A new object: a constructor `Param` with types sets them, `Param()` and `nof()` set none. -/
def construct : Option (List DefaultType) → Param
  | some tar => ofTypes tar
  | none => empty

/-- As many types as a constructor or `set_params` can have. -/
def Settable (tar : List DefaultType) : Prop := 1 ≤ tar.length ∧ tar.length ≤ 4

instance (tar : List DefaultType) : Decidable (Settable tar) := inferInstanceAs (Decidable (_ ∧ _))

/-- The pointer of a slot. -/
def slot (p : Param) (i : Nat) : Option Int := (p.pArgs[i]?).join

/-- The slots of these types stand behind each other from the start of the block. -/
structure Laid (p : Param) (tar : List DefaultType) : Prop where
  starts : ∀ i, i < tar.length → p.slot i = some (getAllSize (tar.take i) : Int)
  apart : ∀ (i j : Nat) (t u : DefaultType) (a b : Int), i ≠ j → tar[i]? = some t → tar[j]? = some u →
    p.slot i = some a → p.slot j = some b → a + t.size ≤ b ∨ b + u.size ≤ a
  allocated : p.block.length = p.fAllocated
  inside : ∀ (i : Nat) (t : DefaultType) (a : Int), tar[i]? = some t → p.slot i = some a →
    0 ≤ a ∧ a + t.size ≤ p.fAllocated

/-! ## One call -/

section
variable {p : Param} {tar : List DefaultType}

theorem allocateAll_block (idx : Nat) : (p.allocateAll idx tar).block = p.block ∧
    (p.allocateAll idx tar).fAllocated = p.fAllocated := by
  induction tar generalizing p idx with
  | nil => exact ⟨rfl, rfl⟩
  | cons t rest ih => exact ih (idx + 1)

theorem allocateAll_allocated (idx : Nat) :
    (p.allocateAll idx tar).allocated = p.allocated + getAllSize tar := by
  induction tar generalizing p idx with
  | nil => simp [allocateAll, getAllSize]
  | cons t rest ih =>
      rw [allocateAll, ih]
      simp [allocateAt, getAllSize, Int.add_assoc]

theorem allocateAll_length (idx : Nat) : (p.allocateAll idx tar).pArgs.length = p.pArgs.length := by
  induction tar generalizing p idx with
  | nil => rfl
  | cons t rest ih =>
      rw [allocateAll, ih]
      simp [allocateAt]

/-- A slot in front of those that are set keeps its pointer. -/
theorem allocateAll_before {idx i : Nat} (before : i < idx) : (p.allocateAll idx tar).slot i = p.slot i := by
  induction tar generalizing p idx with
  | nil => rfl
  | cons t rest ih =>
      refine (ih (p := p.allocateAt idx t) (by omega)).trans ?_
      simp [slot, allocateAt, show idx ≠ i by omega]

theorem allocateAll_slot {idx i : Nat} (room : idx + tar.length ≤ p.pArgs.length) (inside : i < tar.length) :
    (p.allocateAll idx tar).slot (idx + i) = some (p.allocated + getAllSize (tar.take i)) := by
  induction tar generalizing p idx i with
  | nil => cases inside
  | cons t rest ih =>
      rw [List.length_cons] at room inside
      cases i with
      | zero =>
          have first : (p.allocateAt idx t).slot idx = some p.allocated := by
            simp [slot, allocateAt, show idx < p.pArgs.length by omega]
          rw [Nat.add_zero, allocateAll, allocateAll_before (by omega), first]
          simp [getAllSize]
      | succ i =>
          have length : (p.allocateAt idx t).pArgs.length = p.pArgs.length := by simp [allocateAt]
          have later : ((p.allocateAt idx t).allocateAll (idx + 1) rest).slot (idx + 1 + i) =
              some ((p.allocateAt idx t).allocated + getAllSize (rest.take i)) := ih (by omega) (by omega)
          rw [show idx + (i + 1) = idx + 1 + i by omega, allocateAll, later]
          simp [allocateAt, getAllSize, Int.add_assoc]

/-- What a call does: the counter goes on from where it was. -/
structure Called (p q : Param) (tar : List DefaultType) : Prop where
  block : q.block.length = getAllSize tar
  fAllocated : q.fAllocated = getAllSize tar
  allocated : q.allocated = p.allocated + getAllSize tar
  length : q.pArgs.length = p.pArgs.length
  slots : ∀ i, i < tar.length → q.slot i = some (p.allocated + getAllSize (tar.take i))

theorem set_called (room : tar.length ≤ p.pArgs.length) : Called p (p.set tar) tar := by
  let q := { p with fAllocated := getAllSize tar, pNum := tar.length }.allocateBloc (getAllSize tar)
  have ran : p.set tar = q.allocateAll 0 tar := rfl
  have length : q.pArgs.length = p.pArgs.length := List.length_set
  obtain ⟨block, fAllocated⟩ : (q.allocateAll 0 tar).block = q.block ∧ _ := allocateAll_block 0
  rw [ran]
  refine ⟨?_, fAllocated, allocateAll_allocated 0, (allocateAll_length 0).trans length, fun i inside => ?_⟩
  · rw [block]
    exact List.length_replicate
  · have at_ : (q.allocateAll 0 tar).slot (0 + i) = _ := allocateAll_slot (by omega) inside
    rwa [Nat.zero_add] at at_

/-- The slots of a call are in its block exactly when the counter was at 0 before. -/
theorem Called.laid_iff {q : Param} (called : Called p q tar) (some_ : 1 ≤ tar.length) :
    q.Laid tar ↔ p.allocated = 0 := by
  have at_ : ∀ {i : Nat} {t : DefaultType}, tar[i]? = some t →
      q.slot i = some (p.allocated + (Places.start DefaultType.size tar i : Nat)) := fun there =>
    called.slots _ (List.getElem?_eq_some_iff.mp there).1
  constructor
  · intro laid
    have first := (called.slots 0 some_).symm.trans (laid.starts 0 some_)
    simpa [getAllSize] using first
  · intro zero
    rw [zero] at at_
    refine ⟨fun i inside => ?_, fun i j t u a b other one two => ?_, called.block.trans called.fAllocated.symm,
      fun i t a one => ?_⟩
    · rw [called.slots i inside, zero, Int.zero_add]
    · rw [at_ one, at_ two]
      rintro ⟨⟩ ⟨⟩
      have apart : Places.start DefaultType.size tar i + t.size ≤ Places.start DefaultType.size tar j ∨
          Places.start DefaultType.size tar j + u.size ≤ Places.start DefaultType.size tar i :=
        Places.start_apart one two other
      omega
    · rw [at_ one, called.fAllocated]
      rintro ⟨⟩
      have inside : Places.start DefaultType.size tar i + t.size ≤ getAllSize tar := Places.start_inside one
      omega

end

/-! ## A run of calls -/

/-- The lists of types an object was given, its constructor's in front. -/
def given (ctor : Option (List DefaultType)) (calls : List (List DefaultType)) : List (List DefaultType) :=
  ctor.toList ++ calls

/-- The object after these calls. -/
def after (ctor : Option (List DefaultType)) (calls : List (List DefaultType)) : Param :=
  calls.foldl setParams (construct ctor)

theorem after_given (ctor : Option (List DefaultType)) (calls : List (List DefaultType)) :
    after ctor calls = (given ctor calls).foldl set empty := by
  cases ctor <;> rfl

/-- The counter of an object is what all its calls have asked for together. -/
theorem foldl_set {p : Param} (ten : p.pArgs.length = 10) {calls : List (List DefaultType)}
    (settable : ∀ tar ∈ calls, Settable tar) : (calls.foldl set p).pArgs.length = 10 ∧
      (calls.foldl set p).allocated = p.allocated + Places.total getAllSize calls := by
  induction calls generalizing p with
  | nil => simp [ten, Places.total]
  | cons tar rest ih =>
      have few := settable tar (List.mem_cons_self ..)
      have called : Called p (p.set tar) tar := set_called (by rw [ten]; exact few.2.trans (by decide))
      obtain ⟨length, allocated⟩ := ih (called.length.trans ten) fun tar member =>
        settable tar (List.mem_cons_of_mem _ member)
      refine ⟨length, allocated.trans ?_⟩
      rw [called.allocated]
      simp [Places.total, Int.add_assoc]

theorem getAllSize_pos {tar : List DefaultType} (settable : Settable tar) : 0 < getAllSize tar := by
  cases tar with
  | nil => cases settable.1
  | cons t rest => cases t <;> simp [getAllSize, DefaultType.size]

/-- After the last of any number of calls its slots are where they should be exactly when
    it is the first. -/
theorem slots_laid_iff {ctor : Option (List DefaultType)} {calls earlier : List (List DefaultType)}
    {tar : List DefaultType} (settable : ∀ d ∈ given ctor calls, Settable d)
    (last : given ctor calls = earlier ++ [tar]) : (after ctor calls).Laid tar ↔ earlier = [] := by
  rw [last] at settable
  have before := fun d member => settable d (List.mem_append_left [tar] member)
  have few := settable tar (by simp)
  obtain ⟨ten, allocated⟩ := foldl_set (p := empty) rfl before
  have called : Called (earlier.foldl set empty) ((earlier.foldl set empty).set tar) tar :=
    set_called (by rw [ten]; exact few.2.trans (by decide))
  rw [after_given, last, List.foldl_append]
  refine (called.laid_iff few.1).trans ?_
  rw [allocated, ← Places.total_eq_zero fun d member => getAllSize_pos (before d member)]
  simp [empty]

/-- The second of the notifications that have parameters. -/
theorem slots_laid_notifier :
    (after none [[.int, .int, .string]]).Laid [.int, .int, .string] ↔ ([] : List (List DefaultType)) = [] :=
  slots_laid_iff (by decide) rfl

/-- The one slot of a second call begins where its block ends. -/
theorem slots_misplaced :
    ¬ ∀ (ctor : Option (List DefaultType)) (calls earlier : List (List DefaultType)) (tar : List DefaultType),
      (∀ d ∈ given ctor calls, Settable d) → given ctor calls = earlier ++ [tar] → (after ctor calls).Laid tar := by
  intro laid
  have outside := (laid none [[.int], [.int]] [[.int]] [.int] (by decide) rfl).starts 0 (by decide)
  revert outside
  decide

end Param
end NineProject
