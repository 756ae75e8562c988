import NineProject.Param

/-! # Message buffers

`pBuffer` records a size and an input point beside the memory it owns; `data` is
that memory, so its length is what is really allocated. All sizes are 32-bit.
-/

namespace NineProject

open Bytes

structure PBuffer where
  param : Param
  size : Int
  nextInputPoint : Int
  reservedIndex : Nat
  data : List Byte
  deriving DecidableEq, Repr

namespace PBuffer

/-- `new char[size]`; the bytes are zero here, the source leaves them open. -/
def newChars (size : Int) : Except Fault (List Byte) :=
  if size < 0 then .error (.thrown .badArrayNewLength) else .ok (List.replicate size.toNat 0)

/-- `pBuffer(int)`. -/
def ofSize (size : Int) : Except Fault PBuffer :=
  (newChars size).map fun data => ⟨Param.ofTypes [.int, .int, .int, .int], size, 0, 0, data⟩

def initRecord (p : PBuffer) : PBuffer := { p with nextInputPoint := 0 }

def init (p : PBuffer) (size : Int) : Except Fault PBuffer :=
  (newChars size).map fun data => { p with data := data, size := size }

/-- `nsrc` gives the memory out to receive `size` bytes. -/
def nsrc (p : PBuffer) (size : Int) : PBuffer := { p with size := size, nextInputPoint := size }

/-- The memory after bytes were received at its start. It takes no more than it holds: a
    blocking read of more ends the run, and the others are made for memory that is there. -/
def receive (p : PBuffer) (bytes : List Byte) : PBuffer := { p with data := poke p.data 0 bytes }

def toString (p : PBuffer) : Except Fault Str :=
  if p.nextInputPoint < 0 then .error (.thrown .lengthError)
  else .ok (p.data.take p.nextInputPoint.toNat)

def reserveWithTag (p : PBuffer) (size : Int) (tagName : Str) : Except Fault PBuffer :=
  if p.reservedIndex > 4 then .ok p
  else
    ((p.param.setArgs p.reservedIndex tagName).setValue tagName p.nextInputPoint).map fun param =>
      { p with param := param,
               nextInputPoint := wrap 32 (p.nextInputPoint + size),
               reservedIndex := p.reservedIndex + 1 }

/-- `_size * 2`. -/
def doubled (p : PBuffer) : Int := wrap 32 (p.size * 2)

/-- The buffer in a new block, with the bytes below its recorded size. -/
def moved (p : PBuffer) (newAddress : List Byte) : PBuffer :=
  { p with size := p.doubled, data := poke newAddress 0 (p.data.take p.size.toNat) }

/-- The move of `allocate_some` to a block of twice the recorded size. -/
def grow (p : PBuffer) : Except Fault PBuffer :=
  (newChars p.doubled).bind fun newAddress =>
    if p.size < 0 then .error .wildPointer else .ok (p.moved newAddress)

/-- The chunk of `allocate_some` does not fit below the recorded size. -/
def Overflows (p : PBuffer) (size : Int) : Prop := p.size < wrap 32 (p.nextInputPoint + size)

instance (p : PBuffer) (size : Int) : Decidable (p.Overflows size) :=
  inferInstanceAs (Decidable (_ < _))

/-- The copy at the end of `allocate_some`. Bytes behind the memory would be lost here; the
    replies of a session go through `allocateInside`, where such a copy ends the run. -/
def append (p : PBuffer) (src : List Byte) : PBuffer :=
  { p with data := poke p.data p.nextInputPoint src,
           nextInputPoint := wrap 32 (p.nextInputPoint + src.length) }

def allocateSome (p : PBuffer) (src : List Byte) : Except Fault PBuffer :=
  if p.Overflows src.length then p.grow.map fun grown => grown.append src
  else .ok (p.append src)

def getSrcReservedWithTag (p : PBuffer) (s : Str) : Except Fault Int := p.param.getValue s

def allocateWithTag (p : PBuffer) (s : Str) (src : List Byte) : Except Fault PBuffer :=
  (p.getSrcReservedWithTag s).map fun at_ => { p with data := poke p.data at_ src }

def srcIncAllocAndTag (p : PBuffer) (size : Int) (s : Str) : Except Fault (PBuffer × Option Int) :=
  if p.reservedIndex > 4 then .ok (p, none)
  else
    (p.reserveWithTag size s).bind fun q =>
      (q.getSrcReservedWithTag s).map fun at_ => (q, some at_)

def writtenSize (p : PBuffer) : Int := p.nextInputPoint

/-- The bytes `buffer(p.src(), p.written_size())` hands to a write. -/
def written (p : PBuffer) : List Byte := p.data.take p.nextInputPoint.toNat

/-! ## What a chunk finds -/

/-- The buffer after a move that succeeds. -/
def grown (p : PBuffer) : PBuffer := p.moved (List.replicate p.doubled.toNat 0)

@[simp] theorem grown_size (p : PBuffer) : p.grown.size = p.doubled := rfl

@[simp] theorem grown_nextInputPoint (p : PBuffer) :
    p.grown.nextInputPoint = p.nextInputPoint := rfl

@[simp] theorem grown_length (p : PBuffer) : p.grown.data.length = p.doubled.toNat := by
  simp [grown, moved]

@[simp] theorem append_length (p : PBuffer) (src : List Byte) :
    (p.append src).data.length = p.data.length := by
  simp [append]

theorem grow_eq_ok {p q : PBuffer} :
    p.grow = .ok q ↔ 0 ≤ p.doubled ∧ 0 ≤ p.size ∧ q = p.grown := by
  unfold grow newChars
  by_cases negative : p.doubled < 0
  · simp only [negative, if_true, Except.bind, reduceCtorEq, false_iff]
    omega
  · by_cases unset : p.size < 0
    · simp only [negative, unset, if_true, if_false, Except.bind, reduceCtorEq, false_iff]
      omega
    · simp only [negative, unset, if_false, Except.bind, Except.ok.injEq, eq_comm (b := q)]
      exact ⟨fun same => ⟨by omega, by omega, same⟩, fun h => h.2.2⟩

/-- A chunk lands in the buffer as it is or in the one it grows to. -/
theorem allocateSome_eq_ok {p q : PBuffer} {src : List Byte} :
    p.allocateSome src = .ok q ↔
      p.Overflows src.length ∧ 0 ≤ p.doubled ∧ 0 ≤ p.size ∧ q = p.grown.append src ∨
        ¬ p.Overflows src.length ∧ q = p.append src := by
  unfold allocateSome
  by_cases overflow : p.Overflows src.length
  · simp only [overflow, if_true, true_and, not_true_eq_false, false_and, or_false]
    cases result : p.grow with
    | error stop =>
        simp only [Except.map, reduceCtorEq, false_iff]
        rintro ⟨positive, low, -⟩
        rw [grow_eq_ok.mpr ⟨positive, low, rfl⟩] at result
        cases result
    | ok g =>
        obtain ⟨positive, low, rfl⟩ := grow_eq_ok.mp result
        simp [Except.map, positive, low, eq_comm (b := q)]
  · simp [overflow, eq_comm (b := q)]

/-- A chunk of `n` bytes is copied within memory: below the recorded size, or into the
    block that the buffer moves to, whose old bytes are read from the block it had. -/
def Room (p : PBuffer) (n : Nat) : Prop :=
  0 ≤ p.nextInputPoint ∧
    if p.Overflows n then
      0 ≤ p.size ∧ p.size ≤ p.data.length ∧ p.nextInputPoint + n ≤ p.doubled
    else p.nextInputPoint + n ≤ p.data.length

instance (p : PBuffer) (n : Nat) : Decidable (p.Room n) := inferInstanceAs (Decidable (_ ∧ _))

/-- `allocate_some` where a copy that leaves its memory ends the run. -/
def allocateInside (p : PBuffer) (src : List Byte) : Except Fault PBuffer :=
  (p.allocateSome src).bind fun q => if p.Room src.length then .ok q else .error .overrun

/-- The records a chunk of `n` bytes leaves. -/
def took (p : PBuffer) (n : Nat) : PBuffer :=
  if p.Overflows n then p.grown.append (List.replicate n 0) else p.append (List.replicate n 0)

/-- Chunks of these lengths are copied into memory, one after the other. -/
def RoomFor : PBuffer → List Nat → Prop
  | _, [] => True
  | p, n :: rest => p.Room n ∧ (p.took n).RoomFor rest

instance decidableRoomFor : ∀ (p : PBuffer) (ns : List Nat), Decidable (p.RoomFor ns)
  | _, [] => .isTrue trivial
  | p, n :: rest =>
      have := decidableRoomFor (p.took n) rest
      inferInstanceAs (Decidable (_ ∧ _))

/-- The sizes a chunk leaves depend on its length only. -/
theorem allocateSome_sizes {p q : PBuffer} {src : List Byte} (h : p.allocateSome src = .ok q) :
    q.nextInputPoint = wrap 32 (p.nextInputPoint + src.length) ∧
      q.size = (if p.Overflows src.length then p.doubled else p.size) ∧
      (q.data.length : Int) = if p.Overflows src.length then p.doubled else p.data.length := by
  rcases allocateSome_eq_ok.mp h with ⟨overflow, positive, -, rfl⟩ | ⟨fits, rfl⟩
  · rw [if_pos overflow, if_pos overflow, append_length, grown_length]
    exact ⟨rfl, rfl, by omega⟩
  · rw [if_neg fits, if_neg fits, append_length]
    exact ⟨rfl, rfl, rfl⟩

theorem took_sizes {p q : PBuffer} {src : List Byte} (h : p.allocateSome src = .ok q) :
    (p.took src.length).nextInputPoint = q.nextInputPoint ∧
      (p.took src.length).size = q.size ∧ (p.took src.length).data.length = q.data.length := by
  rcases allocateSome_eq_ok.mp h with ⟨overflow, -, -, rfl⟩ | ⟨fits, rfl⟩
  · rw [took, if_pos overflow]
    simp [append]
  · rw [took, if_neg fits]
    simp [append]

theorem roomFor_congr {p q : PBuffer} (point : p.nextInputPoint = q.nextInputPoint)
    (size : p.size = q.size) (memory : p.data.length = q.data.length) (ns : List Nat) :
    p.RoomFor ns ↔ q.RoomFor ns := by
  induction ns generalizing p q with
  | nil => exact Iff.rfl
  | cons n rest ih =>
      have same : p.Overflows n ↔ q.Overflows n := by simp only [Overflows, point, size]
      have twice : p.doubled = q.doubled := by simp only [doubled, size]
      simp only [RoomFor, Room, same, twice, point, size, memory]
      refine and_congr_right fun _ => ih ?_ ?_ ?_ <;> by_cases overflow : q.Overflows n <;>
        simp [took, same, overflow, append, twice, point, size, memory]

/-- What comes behind a chunk finds the room that is left. -/
theorem roomFor_took {p q : PBuffer} {src : List Byte} (done : p.allocateSome src = .ok q) {ns : List Nat} :
    (p.took src.length).RoomFor ns ↔ q.RoomFor ns := by
  obtain ⟨point, size, memory⟩ := took_sizes done
  exact roomFor_congr point size memory ns

/-- A chunk has room exactly when it is copied to places that are there, and nothing that
    is not there is read for it. -/
theorem room_iff {p : PBuffer} {src : List Byte} :
    p.Room src.length ↔ ∃ q, p.allocateSome src = .ok q ∧ 0 ≤ p.nextInputPoint ∧
      p.nextInputPoint + src.length ≤ q.data.length ∧
        (p.Overflows src.length → p.size ≤ p.data.length) := by
  constructor
  · rintro ⟨start, room⟩
    by_cases overflow : p.Overflows src.length
    · rw [if_pos overflow] at room
      refine ⟨_, allocateSome_eq_ok.mpr (.inl ⟨overflow, by omega, room.1, rfl⟩), start, ?_,
        fun _ => room.2.1⟩
      simp only [append_length, grown_length]
      omega
    · rw [if_neg overflow] at room
      exact ⟨_, allocateSome_eq_ok.mpr (.inr ⟨overflow, rfl⟩), start, by simpa using room,
        fun more => absurd more overflow⟩
  · rintro ⟨q, done, start, inside, old⟩
    refine ⟨start, ?_⟩
    rcases allocateSome_eq_ok.mp done with ⟨overflow, positive, low, rfl⟩ | ⟨fits, rfl⟩
    · have there := old overflow
      simp only [append_length, grown_length] at inside
      rw [if_pos overflow]
      omega
    · rw [if_neg fits]
      simpa using inside

theorem allocateInside_eq_ok {p q : PBuffer} {src : List Byte} :
    p.allocateInside src = .ok q ↔ p.Room src.length ∧ p.allocateSome src = .ok q := by
  unfold allocateInside
  by_cases room : p.Room src.length
  · simp only [room, if_true, true_and]
    cases p.allocateSome src <;> simp [Except.bind]
  · simp only [room, if_false, false_and, iff_false]
    cases p.allocateSome src <;> simp [Except.bind]

/-- A chunk that is copied into memory stands where the buffer was filled up to. -/
theorem allocateSome_stored {p q : PBuffer} {src : List Byte} (h : p.allocateSome src = .ok q)
    (start : 0 ≤ p.nextInputPoint) (inside : p.nextInputPoint + src.length ≤ q.data.length) :
    (q.data.drop p.nextInputPoint.toNat).take src.length = src := by
  have position : ((p.nextInputPoint.toNat : Nat) : Int) = p.nextInputPoint := by omega
  have copy : ∀ mem : List Byte, p.nextInputPoint + src.length ≤ mem.length →
      ((poke mem p.nextInputPoint src).drop p.nextInputPoint.toNat).take src.length = src := by
    intro mem room
    rw [← position]
    exact poke_inside (by omega)
  rcases allocateSome_eq_ok.mp h with ⟨-, -, -, rfl⟩ | ⟨-, rfl⟩
  · exact copy p.grown.data (by simpa only [append_length] using inside)
  · exact copy p.data (by simpa only [append_length] using inside)

/-- A move keeps the bytes below the recorded size. -/
theorem grown_take {p : PBuffer} {n : Nat} (recorded : n ≤ p.size) (there : n ≤ p.data.length)
    (kept : n ≤ p.doubled.toNat) : p.grown.data.take n = p.data.take n := by
  apply List.ext_getElem?
  intro i
  simp only [List.getElem?_take]
  split
  · next low =>
      have here : i < p.doubled.toNat := by omega
      have was : i < p.data.length := by omega
      have below : i < p.size.toNat := by omega
      simp only [grown, moved]
      rw [poke_getElem?, List.getElem?_replicate, if_pos here]
      simp [below, List.getElem?_eq_getElem was]
  · rfl

/-- A chunk leaves what the buffer was filled with, as far as it is recorded. -/
theorem allocateSome_keeps {p q : PBuffer} {src : List Byte} (h : p.allocateSome src = .ok q)
    {n : Nat} (filled : n ≤ p.nextInputPoint) (recorded : n ≤ p.size) (there : n ≤ p.data.length)
    (kept : n ≤ q.data.length) : q.data.take n = p.data.take n := by
  rcases allocateSome_eq_ok.mp h with ⟨-, -, -, rfl⟩ | ⟨-, rfl⟩
  · rw [append_length, grown_length] at kept
    exact (poke_take filled).trans (grown_take recorded there kept)
  · exact poke_take filled

end PBuffer

theorem ofSize_length {n : Int} {p : PBuffer} (made : PBuffer.ofSize n = .ok p) :
    0 ≤ n ∧ n = p.data.length := by
  unfold PBuffer.ofSize PBuffer.newChars at made
  by_cases negative : n < 0
  · simp [negative, Except.map] at made
  · simp only [negative, if_false, Except.map, Except.ok.injEq] at made
    subst made
    simp only [List.length_replicate]
    omega

end NineProject
