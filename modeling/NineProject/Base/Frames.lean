import NineProject.Base.Bytes

/-! # Framed entries

An entry is a record of a fixed size and as many bytes behind it as a field of the
record counts. A reader that knows the layout takes entries off the front of its bytes;
entries that are what they count are read back, whatever stands behind them.
-/

namespace Bytes

/-- The size of the record, and where its four bytes that count the text begin. -/
structure Layout where
  size : Nat
  lengthAt : Nat
  deriving DecidableEq, Repr

namespace Layout

variable (l : Layout)

/-- The entry in front, and what is behind it. -/
def entry (bytes : List Byte) : Option ((List Byte × List Byte) × List Byte) :=
  let record := bytes.take l.size
  let rest := bytes.drop l.size
  let length := field record l.lengthAt 4
  if l.size ≤ bytes.length ∧ 0 ≤ length ∧ length ≤ rest.length then
    some ((record, rest.take length.toNat), rest.drop length.toNat)
  else none

/-- So many entries, and what is behind the last. -/
def entries : Nat → List Byte → Option (List (List Byte × List Byte) × List Byte)
  | 0, bytes => some ([], bytes)
  | n + 1, bytes =>
      (l.entry bytes).bind fun (e, rest) => (entries n rest).map fun (es, left) => (e :: es, left)

/-- The record and the text, one behind the other. -/
def encode (e : List Byte × List Byte) : List Byte := e.1 ++ e.2

/-- The record has its size, and counts the text. -/
def Framed (e : List Byte × List Byte) : Prop :=
  e.1.length = l.size ∧ field e.1 l.lengthAt 4 = e.2.length

variable {l}

theorem entry_encode {e : List Byte × List Byte} (framed : l.Framed e) (rest : List Byte) :
    l.entry (encode e ++ rest) = some (e, rest) := by
  obtain ⟨size, count⟩ := framed
  have record : (encode e ++ rest).take l.size = e.1 := by
    rw [encode, List.append_assoc, ← size, List.take_left]
  have behind : (encode e ++ rest).drop l.size = e.2 ++ rest := by
    rw [encode, List.append_assoc, ← size, List.drop_left]
  have whole : l.size ≤ (encode e ++ rest).length := by
    simp only [encode, List.length_append, size]
    omega
  simp only [entry, record, behind, count, whole, Int.toNat_natCast, List.take_left, List.drop_left]
  simp

/-- Encoded entries are read back, and nothing more. -/
theorem entries_encode {es : List (List Byte × List Byte)} (framed : ∀ e ∈ es, l.Framed e) (rest : List Byte) :
    l.entries es.length (es.flatMap encode ++ rest) = some (es, rest) := by
  induction es with
  | nil => rfl
  | cons e es ih =>
      have others := ih fun e' member => framed e' (List.mem_cons_of_mem _ member)
      rw [List.length_cons, entries, List.flatMap_cons, List.append_assoc,
        entry_encode (framed e List.mem_cons_self)]
      simp [others]

end Layout
end Bytes
