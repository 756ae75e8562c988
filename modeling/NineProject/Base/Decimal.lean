import NineProject.Base.Bytes

/-! # Decimal notation

`std::to_string` writes an integer and `std::stoi` reads one back. Reading stops
at the first byte that is no digit, so only the notation itself, not the text
around it, decides what is read.
-/

namespace Decimal

def isDigit (b : Byte) : Bool := 48 ≤ b && b ≤ 57

/-- `isspace` in the "C" locale. -/
def isSpace (b : Byte) : Bool := b == 32 || (9 ≤ b && b ≤ 13)

def digits (n : Nat) : Str := (Nat.toDigits 10 n).map fun c => UInt8.ofNat c.toNat

def value (ds : Str) : Nat := ds.foldl (fun sofar b => 10 * sofar + (b.toNat - 48)) 0

/-- `std::to_string(int)`. -/
def ofInt (n : Int) : Str := if n < 0 then 45 :: digits n.natAbs else digits n.natAbs

private theorem digit_byte {c : Char} (h : c.isDigit) :
    (UInt8.ofNat c.toNat).toNat = c.toNat ∧ 48 ≤ c.toNat ∧ c.toNat ≤ 57 := by
  have bounds : 48 ≤ c.toNat ∧ c.toNat ≤ 57 := by
    simp only [Char.isDigit, Bool.and_eq_true, decide_eq_true_eq, UInt32.le_iff_toNat_le] at h
    exact h
  refine ⟨?_, bounds⟩
  rw [UInt8.toNat_ofNat']
  omega

theorem digits_isDigit {n : Nat} {b : Byte} (h : b ∈ digits n) : isDigit b := by
  obtain ⟨c, member, rfl⟩ := List.mem_map.mp h
  obtain ⟨same, low, high⟩ := digit_byte (Nat.isDigit_of_mem_toDigits (by decide) (by decide) member)
  simp only [isDigit, Bool.and_eq_true, decide_eq_true_eq, UInt8.le_iff_toNat_le, same]
  exact ⟨low, high⟩

theorem digits_ne_nil (n : Nat) : digits n ≠ [] := by
  simp [digits]

private theorem value_map (cs : List Char) (h : ∀ c ∈ cs, c.isDigit) (init : Nat) :
    (cs.map fun c => UInt8.ofNat c.toNat).foldl (fun sofar b => 10 * sofar + (b.toNat - 48)) init =
      Nat.ofDigitChars 10 cs init := by
  induction cs generalizing init with
  | nil => rfl
  | cons c cs ih =>
      have same := (digit_byte (h c (by simp))).1
      simp only [List.map_cons, List.foldl_cons, same, Nat.ofDigitChars_cons]
      exact ih (fun d hd => h d (by simp [hd])) _

theorem value_digits (n : Nat) : value (digits n) = n := by
  have decimal : ∀ c ∈ Nat.toDigits 10 n, c.isDigit :=
    fun c member => Nat.isDigit_of_mem_toDigits (by decide) (by decide) member
  rw [value, digits, value_map _ decimal, Nat.ofDigitChars_ten_toDigits]

/-- The digits at the front of a text, as `strtol` collects them. -/
def leading (negative : Bool) (s : Str) : Option Int :=
  let run := s.takeWhile isDigit
  if run = [] then none
  else
    let n : Int := if negative then -value run else value run
    if Bytes.InRange 32 n then some n else none

/-- `std::stoi`; `none` where it throws (no digit, or out of the range of `int`). -/
def stoi (s : Str) : Option Int :=
  match s.dropWhile isSpace with
  | [] => none
  | b :: rest =>
      if b = 45 then leading true rest
      else if b = 43 then leading false rest
      else leading false (b :: rest)

/-- A digit stands where `stoi` looks for one. -/
def Numeric (s : Str) : Prop :=
  match s.dropWhile isSpace with
  | [] => False
  | b :: rest => if b = 45 ∨ b = 43 then rest.takeWhile isDigit ≠ [] else isDigit b

instance (s : Str) : Decidable (Numeric s) := by
  unfold Numeric
  split <;> infer_instance

private theorem digit_plain {b : Byte} (h : isDigit b) : isSpace b = false ∧ b ≠ 45 ∧ b ≠ 43 := by
  simp only [isDigit, isSpace, Bool.and_eq_true, decide_eq_true_eq] at *
  grind

theorem leading_digits (negative : Bool) (n : Nat) :
    leading negative (digits n) =
      let v : Int := if negative then -n else n
      if Bytes.InRange 32 v then some v else none := by
  have run : (digits n).takeWhile isDigit = digits n := by
    rw [List.takeWhile_eq_self_iff]
    exact fun b member => digits_isDigit member
  simp only [leading, run, digits_ne_nil, if_false, value_digits]

/-- What `to_string` writes, `stoi` reads where an `int` can hold it. -/
theorem stoi_ofInt_eq (n : Int) : stoi (ofInt n) = if Bytes.InRange 32 n then some n else none := by
  by_cases negative : n < 0
  · have magnitude : -(n.natAbs : Int) = n := by omega
    have blank : isSpace 45 = false := by decide
    simp only [stoi, ofInt, negative, if_true, List.dropWhile_cons, blank, Bool.false_eq_true,
      if_false, leading_digits, magnitude]
  · have magnitude : (n.natAbs : Int) = n := by omega
    simp only [stoi, ofInt, negative, if_false]
    cases decimal : digits n.natAbs with
    | nil => exact absurd decimal (digits_ne_nil _)
    | cons b rest =>
        obtain ⟨blank, minus, plus⟩ := digit_plain (digits_isDigit (decimal ▸ by simp : b ∈ digits n.natAbs))
        simp only [List.dropWhile_cons, blank, Bool.false_eq_true, if_false, minus, plus]
        rw [← decimal, leading_digits]
        simp only [Bool.false_eq_true, if_false, magnitude]

theorem numeric_ofInt (n : Int) : Numeric (ofInt n) := by
  by_cases negative : n < 0
  · have blank : isSpace 45 = false := by decide
    have run : (digits n.natAbs).takeWhile isDigit = digits n.natAbs := by
      rw [List.takeWhile_eq_self_iff]
      exact fun b member => digits_isDigit member
    simp [Numeric, ofInt, negative, blank, run, digits_ne_nil]
  · simp only [Numeric, ofInt, negative, if_false]
    cases decimal : digits n.natAbs with
    | nil => exact absurd decimal (digits_ne_nil _)
    | cons b rest =>
        have digit : isDigit b := digits_isDigit (decimal ▸ by simp : b ∈ digits n.natAbs)
        obtain ⟨blank, minus, plus⟩ := digit_plain digit
        simp [blank, minus, plus, digit]

theorem stoi_ofInt {n : Int} (h : Bytes.InRange 32 n) : stoi (ofInt n) = some n := by
  rw [stoi_ofInt_eq, if_pos h]

theorem leading_inRange {negative : Bool} {s : Str} {n : Int} (read : leading negative s = some n) :
    Bytes.InRange 32 n := by
  unfold leading at read
  dsimp only at read
  generalize (if negative = true then -(value (s.takeWhile isDigit) : Int) else _) = m at read
  by_cases fits : Bytes.InRange 32 m
  · rw [if_pos fits] at read
    split at read
    · cases read
    · cases read
      exact fits
  · rw [if_neg fits] at read
    split at read <;> cases read

/-- What is read is an `int`. -/
theorem stoi_inRange {s : Str} {n : Int} (read : stoi s = some n) : Bytes.InRange 32 n := by
  unfold stoi at read
  split at read
  · cases read
  · split_ifs at read <;> exact leading_inRange read

theorem digits_injective {m n : Nat} (same : digits m = digits n) : m = n := by
  rw [← value_digits m, same, value_digits]

/-- A notation denotes one number. -/
theorem ofInt_injective {m n : Int} (same : ofInt m = ofInt n) : m = n := by
  have signless : ∀ a b : Nat, (45 : Byte) :: digits a ≠ digits b := fun a b is =>
    absurd (digits_isDigit (is ▸ List.mem_cons_self)) (by decide)
  unfold ofInt at same
  split at same <;> split at same
  · next low low' =>
      have magnitude := digits_injective (List.cons.inj same).2
      omega
  · exact absurd same (signless _ _)
  · exact absurd same.symm (signless _ _)
  · next high high' =>
      have magnitude := digits_injective same
      omega

/-- An `int` takes at most ten digits and a sign. -/
theorem ofInt_length {n : Int} (h : Bytes.InRange 32 n) : (ofInt n).length ≤ 11 := by
  have low : -2147483648 ≤ n := h.1
  have high : n < 2147483648 := h.2
  have few : (digits n.natAbs).length ≤ 10 := by
    rw [digits, List.length_map, Nat.length_toDigits_le_iff (by decide) (by decide)]
    omega
  unfold ofInt
  split <;> simp <;> omega

theorem ofInt_nulFree (n : Int) : 0 ∉ ofInt n := by
  have decimal : 0 ∉ digits n.natAbs := fun zero => absurd (digits_isDigit zero) (by decide)
  unfold ofInt
  split <;> simp [decimal]

end Decimal
