import Mathlib

/-! # Bytes, fixed-width integers and raw memory

What a C++ program on a little-endian machine with signed `char` does to its
objects: an integer is a run of bytes, a string is a run of bytes of any length,
and a copy into a block changes exactly the positions it covers. A copy that
runs past its block loses the bytes outside; whether it stays inside is stated
where it matters.
-/

abbrev Byte := UInt8

/-- A `std::string`: any bytes, of any length. -/
abbrev Str := List Byte

/-- The bytes of an ASCII literal. -/
def str (s : String) : Str := s.toList.map fun c => UInt8.ofNat c.toNat

namespace Bytes

/-- What a `char*` handed over as a C string still shows of a string. -/
def cString (s : Str) : Str := s.takeWhile (· ≠ 0)

theorem cString_fixed {s : Str} (h : 0 ∉ s) : cString s = s := by
  simp only [cString, List.takeWhile_eq_self_iff, decide_eq_true_eq]
  intro b hb same
  exact h (same ▸ hb)

/-- A C string stops at the first zero byte, whatever stands behind it. -/
theorem cString_append {s t : Str} (h : 0 ∉ s) : cString (s ++ t) = s ++ cString t := by
  simp only [cString]
  rw [List.takeWhile_append_of_pos]
  intro b hb
  simpa using fun same : b = 0 => h (same ▸ hb)

theorem cString_subset (s : Str) {b : Byte} (h : b ∈ cString s) : b ∈ s :=
  (List.takeWhile_sublist _).subset h

/-- What stands behind a text with a zero byte is never seen. -/
theorem cString_stop {s : Str} (h : 0 ∈ s) (t : Str) : cString (s ++ t) = cString s := by
  induction s with
  | nil => cases h
  | cons b s ih =>
      simp only [cString, List.cons_append, List.takeWhile_cons] at ih ⊢
      split
      · next other =>
          have zero : 0 ∈ s := by
            rcases List.mem_cons.mp h with same | tail
            · simp [← same] at other
            · exact tail
          rw [ih zero]
      · rfl

/-! ## Integers in memory -/

/-- Conversion to a signed integer of `bits` bits. -/
def wrap (bits : Nat) (x : Int) : Int := x.bmod (2 ^ bits)

def InRange (bits : Nat) (x : Int) : Prop := -2 ^ (bits - 1) ≤ x ∧ x < 2 ^ (bits - 1)

instance (bits : Nat) (x : Int) : Decidable (InRange bits x) :=
  inferInstanceAs (Decidable (_ ∧ _))

theorem wrap_of_inRange {bits : Nat} {x : Int} (positive : 0 < bits) (h : InRange bits x) :
    wrap bits x = x := by
  obtain ⟨k, rfl⟩ : ∃ k, bits = k + 1 := ⟨bits - 1, by omega⟩
  simp only [InRange, Nat.add_sub_cancel] at h
  apply Int.bmod_eq_of_le
  · push_cast [pow_succ]
    omega
  · push_cast [pow_succ]
    omega

theorem wrap32_inRange (x : Int) : InRange 32 (wrap 32 x) :=
  ⟨Int.le_bmod (by decide), Int.bmod_lt (by decide)⟩

theorem wrap32_eq_iff {x : Int} : wrap 32 x = x ↔ InRange 32 x :=
  ⟨fun same => same ▸ wrap32_inRange x, wrap_of_inRange (by decide)⟩

/-- A count below the bound of `int` is kept. -/
theorem wrap32_nat {n : Nat} (h : n < 2 ^ 31) : wrap 32 n = n :=
  wrap_of_inRange (by decide) ⟨by omega, by norm_num; omega⟩

/-- The `k` low bytes of a number, lowest first. -/
def le : Nat → Nat → List Byte
  | 0, _ => []
  | k + 1, n => UInt8.ofNat (n % 256) :: le k (n / 256)

def unLe : List Byte → Nat
  | [] => 0
  | b :: bs => b.toNat + 256 * unLe bs

@[simp] theorem le_length (k n : Nat) : (le k n).length = k := by
  induction k generalizing n with
  | zero => rfl
  | succ k ih => simp only [le, List.length_cons, ih]

theorem unLe_le (k n : Nat) : unLe (le k n) = n % 256 ^ k := by
  induction k generalizing n with
  | zero => simp [le, unLe, Nat.mod_one]
  | succ k ih =>
      have byte : (UInt8.ofNat (n % 256)).toNat = n % 256 := by simp
      simp only [le, unLe, byte, ih, pow_succ']
      exact (Nat.mod_mul).symm

/-- An integer object of `k` bytes. -/
def ofInt (k : Nat) (x : Int) : List Byte := le k (x % 256 ^ k).toNat

def toInt (bs : List Byte) : Int := wrap (8 * bs.length) (unLe bs)

@[simp] theorem ofInt_length (k : Nat) (x : Int) : (ofInt k x).length = k := le_length _ _

theorem toInt_ofInt {k : Nat} {x : Int} (positive : 0 < k) (h : InRange (8 * k) x) :
    toInt (ofInt k x) = x := by
  have pow : (256 : Int) ^ k = 2 ^ (8 * k) := by rw [pow_mul]; norm_num
  have inside : 0 ≤ x % 256 ^ k := Int.emod_nonneg _ (by positivity)
  have below : x % 256 ^ k < 256 ^ k := Int.emod_lt_of_pos _ (by positivity)
  have kept : ((x % 256 ^ k).toNat % 256 ^ k : Nat) = x % 256 ^ k := by
    push_cast
    rw [Int.toNat_of_nonneg inside, Int.emod_eq_of_lt inside below]
  rw [toInt, ofInt_length, ofInt, unLe_le, kept, wrap, pow]
  calc (x % 2 ^ (8 * k)).bmod (2 ^ (8 * k)) = x.bmod (2 ^ (8 * k)) := by
        simpa using Int.emod_bmod x (2 ^ (8 * k))
    _ = x := wrap_of_inRange (by omega) h

/-- The first byte of an integer, as a `char`. -/
theorem toInt_take_one {k : Nat} (positive : 0 < k) (x : Int) : toInt ((ofInt k x).take 1) = wrap 8 x := by
  obtain ⟨k, rfl⟩ : ∃ j, k = j + 1 := ⟨k - 1, by omega⟩
  have low : 0 ≤ x % 256 ^ (k + 1) := Int.emod_nonneg _ (by positivity)
  have byte : (((x % 256 ^ (k + 1)).toNat % 256 : Nat) : Int) = x % 256 := by
    push_cast
    rw [Int.toNat_of_nonneg low]
    exact Int.emod_emod_of_dvd x (dvd_pow_self 256 (by omega))
  have first : (ofInt (k + 1) x).take 1 = [UInt8.ofNat ((x % 256 ^ (k + 1)).toNat % 256)] := by
    simp [ofInt, le]
  have value : (UInt8.ofNat ((x % 256 ^ (k + 1)).toNat % 256)).toNat = (x % 256 ^ (k + 1)).toNat % 256 := by
    simp
  simp only [first, toInt, unLe, value, Nat.mul_zero, Nat.add_zero, byte]
  show (x % 256).bmod 256 = x.bmod 256
  exact Int.emod_bmod x 256

/-- The integer of `k` bytes that a record keeps `off` bytes from its start. -/
def field (record : List Byte) (off k : Nat) : Int := toInt ((record.drop off).take k)

theorem field_append_right (before after : List Byte) (off k : Nat) :
    field (before ++ after) (before.length + off) k = field after off k := by
  simp only [field, List.drop_append, Nat.add_sub_cancel_left]
  rw [List.drop_eq_nil_of_le (by omega), List.nil_append]

theorem field_head {k : Nat} {x : Int} (after : List Byte) (positive : 0 < k)
    (h : InRange (8 * k) x) : field (ofInt k x ++ after) 0 k = x := by
  simp only [field, List.drop_zero]
  rw [List.take_append_of_le_length (by simp), List.take_of_length_le (by simp)]
  exact toInt_ofInt positive h

/-- An integer of at most four bytes is one of 32 bits. -/
theorem field_inRange (record : List Byte) (off : Nat) {k : Nat} (small : k ≤ 4) :
    InRange 32 (field record off k) := by
  unfold field toInt wrap InRange
  have length : ((record.drop off).take k).length ≤ 4 := (List.length_take_le _ _).trans small
  generalize ((record.drop off).take k).length = n at length
  have low := Int.le_bmod (x := unLe ((record.drop off).take k)) (m := 2 ^ (8 * n)) (by positivity)
  have high := Int.bmod_lt (x := unLe ((record.drop off).take k)) (m := 2 ^ (8 * n)) (by positivity)
  interval_cases n <;> norm_num at low high ⊢ <;> omega

/-! ## Copies into a block -/

/-- `memcpy(mem + off, src, n)` seen from the part of the block at position `i`: a byte
    changes when the copy covers it, and what falls outside the block is lost. -/
def pokeFrom (off : Int) (src : List Byte) : Nat → List Byte → List Byte
  | _, [] => []
  | i, b :: rest =>
      (if off ≤ i then (src[(i - off).toNat]?).getD b else b) :: pokeFrom off src (i + 1) rest

def poke (mem : List Byte) (off : Int) (src : List Byte) : List Byte := pokeFrom off src 0 mem

theorem pokeFrom_getElem? (off : Int) (src mem : List Byte) (n i : Nat) :
    (pokeFrom off src n mem)[i]? =
      (mem[i]?).map fun b => if off ≤ (n + i : Nat) then (src[((n + i : Nat) - off).toNat]?).getD b else b := by
  induction mem generalizing n i with
  | nil => rfl
  | cons b rest ih =>
      cases i with
      | zero => rfl
      | succ i =>
          have next : n + 1 + i = n + (i + 1) := by omega
          simp only [pokeFrom, List.getElem?_cons_succ, ih, next]

@[simp] theorem poke_length (mem : List Byte) (off : Int) (src : List Byte) :
    (poke mem off src).length = mem.length := by
  have run : ∀ n, (pokeFrom off src n mem).length = mem.length := by
    induction mem with
    | nil => exact fun _ => rfl
    | cons b rest ih => exact fun n => congrArg (· + 1) (ih (n + 1))
  exact run 0

theorem poke_getElem? (mem : List Byte) (off : Int) (src : List Byte) (i : Nat) :
    (poke mem off src)[i]? =
      (mem[i]?).map fun b => if off ≤ i then (src[(i - off).toNat]?).getD b else b := by
  rw [poke, pokeFrom_getElem?, Nat.zero_add]

/-- A copy leaves what lies before it alone. -/
theorem poke_before {mem : List Byte} {off : Int} {src : List Byte} {i : Nat} (h : i < off) :
    (poke mem off src)[i]? = mem[i]? := by
  rw [poke_getElem?]
  simp [show ¬ off ≤ i by omega]

/-- So does it what lies behind it. -/
theorem poke_after {mem : List Byte} {off : Int} {src : List Byte} {i : Nat} (h : off + src.length ≤ i) :
    (poke mem off src)[i]? = mem[i]? := by
  have past : src[(i - off).toNat]? = none := List.getElem?_eq_none (by omega)
  rw [poke_getElem?, past]
  simp

theorem poke_take {mem : List Byte} {off : Int} {src : List Byte} {n : Nat} (h : n ≤ off) :
    (poke mem off src).take n = mem.take n := by
  apply List.ext_getElem?
  intro i
  simp only [List.getElem?_take]
  split
  · exact poke_before (by omega)
  · rfl

/-- A stretch that a copy does not touch stays as it is. -/
theorem poke_apart {mem : List Byte} {off : Int} {src : List Byte} {o n : Nat}
    (h : (o + n : Int) ≤ off ∨ off + src.length ≤ o) :
    ((poke mem off src).drop o).take n = (mem.drop o).take n := by
  apply List.ext_getElem?
  intro i
  simp only [List.getElem?_take, List.getElem?_drop]
  split
  · rcases h with before | behind
    · exact poke_before (by omega)
    · exact poke_after (by omega)
  · rfl

/-- A copy that stays inside puts exactly the source there. -/
theorem poke_inside {mem : List Byte} {off : Nat} {src : List Byte}
    (room : off + src.length ≤ mem.length) :
    ((poke mem off src).drop off).take src.length = src := by
  apply List.ext_getElem?
  intro i
  simp only [List.getElem?_take, List.getElem?_drop, poke_getElem?]
  split
  · next inside =>
      have there : off + i < mem.length := by omega
      simp [List.getElem?_eq_getElem there, List.getElem?_eq_getElem inside]
  · next outside => rw [List.getElem?_eq_none (by omega)]

end Bytes
