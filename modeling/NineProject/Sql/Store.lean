import NineProject.Sql.Statement

/-! # Tables and what a statement does to them

Rows keep a rowid beside their cells. A literal takes the affinity of the column
it is compared with or stored in. How a column of numeric affinity stores a text
is left open: `numeric` is any such conversion.
-/

namespace Sql

inductive Value where
  | null
  | int (n : Int)
  | text (t : Str)
  deriving DecidableEq, Repr

inductive Affinity where
  | text
  | numeric
  deriving DecidableEq, Repr

structure Column where
  name : Str
  affinity : Affinity
  deriving DecidableEq, Repr

structure Row where
  rowid : Int
  cells : List Value
  deriving DecidableEq, Repr

structure Table where
  columns : List Column
  rows : List Row
  deriving DecidableEq, Repr

/-- The tables by name. -/
abbrev Store := Str → Table

/-- A row as the callback of a query sees it, beside the rowid it came from. -/
structure ResultRow where
  rowid : Int
  argv : List (Option Str)
  deriving DecidableEq, Repr

namespace Value

/-- The text of a cell, `none` for NULL. -/
def render : Value → Option Str
  | .null => none
  | .int n => some (Decimal.ofInt n)
  | .text t => some t

/-- The order of two values; NULL stands in none. Every number is below every text. -/
def order : Value → Value → Option Ordering
  | .null, _ | _, .null => none
  | .int a, .int b => some (compare a b)
  | .int _, .text _ => some .lt
  | .text _, .int _ => some .gt
  | .text a, .text b => some (if a = b then .eq else if a < b then .lt else .gt)

end Value

def Op.holds : Op → Ordering → Bool
  | .lt, o => o = .lt
  | .le, o => o ≠ .gt
  | .eq, o => o = .eq
  | .ge, o => o ≠ .lt
  | .gt, o => o = .gt

/-- Names are compared up to ASCII case. -/
def lower (b : Byte) : Byte := if 65 ≤ b ∧ b ≤ 90 then b + 32 else b

def sameName (a b : Str) : Bool := a.map lower = b.map lower

section
variable (numeric : Str → Value)

/-- A value as a column of this affinity keeps it. -/
def Affinity.apply : Affinity → Value → Value
  | .text, .int n => .text (Decimal.ofInt n)
  | .numeric, .text t => numeric t
  | _, v => v

namespace Table

def index (t : Table) (name : Str) : Option Nat := t.columns.findIdx? fun c => sameName name c.name

def isRowid (name : Str) : Bool :=
  [str "rowid", str "oid", str "_rowid_"].any (sameName name)

/-- The names an expression over the table may use. -/
def knows (t : Table) (name : Str) : Bool := (t.index name).isSome || isRowid name

def value (t : Table) (r : Row) (name : Str) : Option Value :=
  match t.index name with
  | some i => r.cells[i]?
  | none => if isRowid name then some (.int r.rowid) else none

theorem value_unknown {t : Table} {name : Str} (h : ¬ t.knows name) (r : Row) :
    t.value r name = none := by
  simp only [knows, Bool.or_eq_true, not_or, Bool.not_eq_true, Option.isSome_eq_false_iff,
    Option.isNone_iff_eq_none] at h
  simp [value, h]

def affinity (t : Table) (name : Str) : Affinity :=
  match t.index name with
  | some i => ((t.columns[i]?).map (·.affinity)).getD .numeric
  | none => .numeric

/-- A text in double quotes is a column where it names one. -/
def operand (t : Table) (r : Row) (affinity : Affinity) : Operand → Value
  | .number n => affinity.apply numeric (.int n)
  | .quoted v =>
      match t.value r v with
      | some x => if affinity = .numeric ∧ t.affinity v = .text then Affinity.numeric.apply numeric x else x
      | none => affinity.apply numeric (.text v)

/-- A text that is compared with a numeric column takes its affinity. -/
def compared (t : Table) (left : Value) (affinity : Affinity) : Operand → Value
  | .number _ => left
  | .quoted v =>
      if affinity = .text ∧ t.knows v ∧ t.affinity v = .numeric then Affinity.numeric.apply numeric left
      else left

@[simp] theorem compared_number (t : Table) (left : Value) (affinity : Affinity) (n : Int) :
    t.compared numeric left affinity (.number n) = left := rfl

theorem compared_text {t : Table} {v : Str} (h : ¬ t.knows v) (left : Value) (affinity : Affinity) :
    t.compared numeric left affinity (.quoted v) = left := by
  simp [compared, h]

def meets (t : Table) (r : Row) (c : Cond) : Bool :=
  match t.value r c.column with
  | none => false
  | some left =>
      match (t.compared numeric left (t.affinity c.column) c.operand).order
          (t.operand numeric r (t.affinity c.column) c.operand) with
      | none => false
      | some o => c.op.holds o

/-- A text in double quotes that names no column is that text. -/
theorem operand_text {t : Table} {v : Str} (h : ¬ t.knows v) (r : Row) (affinity : Affinity) :
    t.operand numeric r affinity (.quoted v) = affinity.apply numeric (.text v) := by
  simp [operand, value_unknown h]

/-- A cell of a text column meets a text that names no column if it is that text. -/
theorem meets_text {t : Table} {name v : Str} (kind : t.affinity name = .text) (h : ¬ t.knows v) (r : Row) :
    t.meets numeric r ⟨name, .eq, .quoted v⟩ = true ↔ t.value r name = some (.text v) := by
  simp only [meets, kind, operand_text numeric h, Affinity.apply, compared_text numeric h]
  cases t.value r name with
  | none => simp
  | some left =>
      cases left with
      | null => simp [Value.order]
      | int n => simp [Value.order, Op.holds]
      | text u =>
          by_cases same : u = v
          · simp [Value.order, Op.holds, same]
          · have apart : (if u < v then Ordering.lt else .gt) ≠ .eq := by split <;> simp
            simp [Value.order, Op.holds, same, apart]

/-- A cell of a numeric column meets a number if it is that number. -/
theorem meets_number {t : Table} {name : Str} (kind : t.affinity name = .numeric) (r : Row) (k : Int) :
    t.meets numeric r ⟨name, .eq, .number k⟩ = true ↔ t.value r name = some (.int k) := by
  simp only [meets, kind, operand, compared_number, Affinity.apply]
  cases t.value r name with
  | none => simp
  | some left => cases left <;> simp [Value.order, Op.holds]

/-- Where no column is called so, `rowid` is the rowid of the row. -/
theorem meets_rowid {t : Table} (noColumn : t.index (str "rowid") = none) (r : Row) (op : Op) (c : Int) :
    t.meets numeric r ⟨str "rowid", op, .number c⟩ = op.holds (compare r.rowid c) := by
  have cell : t.value r (str "rowid") = some (.int r.rowid) := by
    simp only [value, noColumn]
    rfl
  have kind : t.affinity (str "rowid") = .numeric := by simp [affinity, noColumn]
  simp [meets, cell, kind, operand, Affinity.apply, Value.order]

theorem meets_rowid_ge {t : Table} (noColumn : t.index (str "rowid") = none) (r : Row) (c : Int) :
    t.meets numeric r ⟨str "rowid", .ge, .number c⟩ = decide (c ≤ r.rowid) := by
  rw [meets_rowid numeric noColumn]
  simp [Op.holds, compare_lt_iff_lt]

/-- A condition looks at the columns of a table and not at its other rows. -/
theorem meets_columns {t t' : Table} (same : t.columns = t'.columns) (r : Row) (c : Cond) :
    t.meets numeric r c = t'.meets numeric r c := by
  cases t
  cases t'
  cases same
  rfl

/-- The column a query asks for is one of the table's. -/
def shows (t : Table) : Target → Bool
  | .all => true
  | .column name => t.knows name

theorem shows_columns {t t' : Table} (same : t.columns = t'.columns) (target : Target) :
    t.shows target = t'.shows target := by
  cases t
  cases t'
  cases same
  rfl

def project (t : Table) (r : Row) : Target → List (Option Str)
  | .all => r.cells.map Value.render
  | .column name => [(t.value r name).bind Value.render]

end Table

/-- The rows a query selects, in row order. One that asks for a column the table does not
    have is an error and selects none; a condition on such a column is met by no row. -/
def Select.rows (s : Select) (store : Store) : List ResultRow :=
  if (store s.table).shows s.target then
    ((store s.table).rows.filter fun r => s.conds.all ((store s.table).meets numeric r)).map
      fun r => ⟨r.rowid, (store s.table).project r s.target⟩
  else []

/-- The cells of an inserted row: a named column (every column, in order, where none
    is named) holds the value given for it, any other its default. No column is in
    scope among the values, so a text in double quotes is that text. -/
def Insert.cells (default : Str → Value) (i : Insert) (t : Table) : List Value :=
  let given := (i.columns.getD (t.columns.map (·.name))).zip i.values
  t.columns.map fun c =>
    match given.find? fun p => sameName p.1 c.name with
    | some p => c.affinity.apply numeric (match p.2 with
        | .number n => .int n
        | .quoted v => .text v)
    | none => default c.name

end

/-- The row joins the table as its last, under a rowid above all that are there. -/
def Store.Adds (before after : Store) (table : Str) (r : Row) : Prop :=
  (∀ old ∈ (before table).rows, old.rowid < r.rowid) ∧
    after table = ⟨(before table).columns, (before table).rows ++ [r]⟩ ∧
    ∀ other, other ≠ table → after other = before other

/-- The table has a row like this that it did not have. -/
def Store.Gains (before after : Store) (table : Str) (P : Row → Prop) : Prop :=
  ∃ r ∈ (after table).rows, r ∉ (before table).rows ∧ P r

/-- A row that was added is the only one a table gains. -/
theorem Store.Adds.gains_iff {before after : Store} {table : Str} {r : Row} {P : Row → Prop}
    (adds : before.Adds after table r) : before.Gains after table P ↔ P r := by
  obtain ⟨above, grown, -⟩ := adds
  constructor
  · rintro ⟨r', new, old, h⟩
    rw [grown] at new
    rcases List.mem_append.mp new with there | same
    · exact absurd there old
    · rwa [← List.mem_singleton.mp same]
  · exact fun h => ⟨r, by simp [grown], fun old => lt_irrefl _ (above r old), h⟩

end Sql
