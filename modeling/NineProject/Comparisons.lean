import NineProject.SqlText

/-! # What a comparison code selects

Each code of `Compare` names a relation, and `eqivDscCont` holds the operator it is
written as. The two agree for the first three codes. The operators of the last two are
exchanged, and tell the difference where a column is equal to its operand.
-/

namespace NineProject

open Sql

/-- The relation a code of `Compare` names. -/
def Compare.Named (e x n : Int) : Prop :=
  if e = higher then n < x
  else if e = equalAndHigher then n ≤ x
  else if e = equal then x = n
  else if e = equalAndLower then x ≤ n
  else x < n

instance (e x n : Int) : Decidable (Compare.Named e x n) := by
  unfold Compare.Named
  infer_instance

/-- One condition of a query: the code of a column, a code of `Compare`, and an `int`. -/
structure Comparison where
  column : Int
  compare : Int
  operand : Int
  deriving DecidableEq, Repr

/-- A call of one of the two overloads of `select_query`. -/
inductive Selection where
  | one (qd : QueryDescriptor) (c0 : Comparison) (target : Int)
  | two (qd : QueryDescriptor) (c0 c1 : Comparison) (target : Int)
  deriving DecidableEq, Repr

namespace Selection

def call : Selection → BuilderCall
  | one qd c0 target => .select qd (c0.column, .int c0.operand) c0.compare target
  | two qd c0 c1 target =>
      .select2 qd (c0.column, .int c0.operand) (c1.column, .int c1.operand) c0.compare c1.compare target

def qd : Selection → QueryDescriptor
  | one qd _ _ | two qd _ _ _ => qd

def comparisons : Selection → List Comparison
  | one _ c0 _ => [c0]
  | two _ c0 c1 _ => [c0, c1]

def target : Selection → Int
  | one _ _ target | two _ _ _ target => target

end Selection

/-! ## What is asked for -/

/-- The integer in the column of a condition. -/
def columnValue (r : Row) (first : Int) : Option Int :=
  if first = SelectTarget.rowId then some r.rowid
  else match r.cells[first.toNat]? with
    | some (.int x) => some x
    | _ => none

/-- What a target asks for of a row. -/
def targetValues (r : Row) (target : Int) : List (Option Str) :=
  if target = SelectTarget.all then r.cells.map Value.render
  else if target = SelectTarget.rowId then [some (Decimal.ofInt r.rowid)]
  else [(r.cells[target.toNat]?).bind Value.render]

namespace Comparison

/-- The column stands to the operand in the relation the code names. -/
def Stands (c : Comparison) (r : Row) : Prop :=
  ∃ x ∈ columnValue r c.column, Compare.Named c.compare x c.operand

/-- Where the two exchanged operators differ. -/
def OnEdge (c : Comparison) (r : Row) : Prop :=
  (c.compare = Compare.equalAndLower ∨ c.compare = Compare.lower) ∧
    columnValue r c.column = some c.operand

instance (c : Comparison) (r : Row) : Decidable (c.Stands r) := by
  unfold Stands
  infer_instance

instance (c : Comparison) (r : Row) : Decidable (c.OnEdge r) := inferInstanceAs (Decidable (_ ∧ _))

def cond (d : QueryDsc) (c : Comparison) : Cond :=
  ⟨conditionColumn d c.column, compareOp c.compare, .number c.operand⟩

end Comparison

/-- A table with the columns of a descriptor in front, and an integer in every cell. A
    column that keeps integers has no text affinity. -/
structure IntegerTable (d : QueryDsc) (t : Table) : Prop where
  columns : ∃ more, t.columns = d.columnTagCont.map (fun name => ⟨name, .numeric⟩) ++ more
  rowid : t.index (str "rowid") = none
  cells : ∀ r ∈ t.rows, r.cells.length = t.columns.length ∧ ∀ v ∈ r.cells, ∃ x, v = .int x

/-- The text of a call, read as a statement, selects the rows in which every comparison
    stands and asks of them what the target says. -/
def Selection.Meant (s : Selection) (numeric : Str → Value) (store : Store) : Prop :=
  ∃ said, readStatement s.call.text = some (.select said) ∧ said.table = s.qd.dsc.getTableName ∧
    (store said.table).rows.filter (fun r => said.conds.all ((store said.table).meets numeric r)) =
      (store said.table).rows.filter (fun r => ∀ c ∈ s.comparisons, c.Stands r) ∧
    ∀ r ∈ (store said.table).rows, (store said.table).project r said.target = targetValues r s.target

/-- The exchange of the two operators makes no difference for a row: no comparison is on
    its edge, or one fails that is not, or both operators meet there. -/
def Unaffected (cs : List Comparison) (r : Row) : Prop :=
  (∃ c ∈ cs, c.OnEdge r) → (∃ c ∈ cs, ¬ c.OnEdge r ∧ ¬ c.Stands r) ∨
    ((∃ c ∈ cs, c.OnEdge r ∧ c.compare = Compare.equalAndLower) ∧
      ∃ c ∈ cs, c.OnEdge r ∧ c.compare = Compare.lower)

instance (cs : List Comparison) (r : Row) : Decidable (Unaffected cs r) :=
  inferInstanceAs (Decidable (_ → _))

/-! ## Columns -/

theorem columnNames_apart (qd : QueryDescriptor) :
    qd.dsc.columnTagCont.Pairwise fun a b => sameName b a = false := by
  cases qd <;> decide

section
variable {qd : QueryDescriptor} {t : Table}

theorem index_column (table : IntegerTable qd.dsc t) {i : Int} (h : qd.dsc.HasColumn i) :
    t.index (qd.dsc.getColumnName i) = some i.toNat := by
  obtain ⟨more, columns⟩ := table.columns
  have inside : i.toNat < qd.dsc.columnTagCont.length := by
    obtain ⟨low, high⟩ := h
    omega
  have name : qd.dsc.getColumnName i = qd.dsc.columnTagCont[i.toNat] := by
    simp [QueryDsc.getColumnName, List.getElem?_eq_getElem inside]
  have apart := List.pairwise_iff_getElem.mp (columnNames_apart qd)
  rw [Table.index, columns, name, List.findIdx?_eq_some_iff_getElem]
  refine ⟨by simp; omega, ?_, fun j before => ?_⟩
  · simp [inside, sameName]
  · simp only [List.getElem_append, List.length_map, show j < qd.dsc.columnTagCont.length by omega,
      dite_true, List.getElem_map, apart j i.toNat (by omega) inside before]
    decide

theorem value_condition (table : IntegerTable qd.dsc t) {r : Row} (kept : r ∈ t.rows) {first : Int}
    (h : IsCondition qd first) : ∃ x, t.value r (conditionColumn qd.dsc first) = some (.int x) ∧
      columnValue r first = some x := by
  unfold conditionColumn columnValue
  by_cases named : first = SelectTarget.rowId
  · rw [if_pos named, if_pos named]
    exact ⟨r.rowid, by simp only [Table.value, table.rowid]; rfl, rfl⟩
  · rw [if_neg named, if_neg named]
    have column := h.resolve_left named
    obtain ⟨more, columns⟩ := table.columns
    obtain ⟨full, integers⟩ := table.cells r kept
    have inside : first.toNat < r.cells.length := by
      obtain ⟨low, high⟩ := column
      rw [full, columns, List.length_append, List.length_map]
      omega
    obtain ⟨x, is⟩ := integers _ (List.getElem_mem inside)
    refine ⟨x, ?_, ?_⟩
    · rw [Table.value, index_column table column]
      exact (List.getElem?_eq_getElem inside).trans (congrArg some is)
    · rw [List.getElem?_eq_getElem inside, is]

theorem affinity_condition (table : IntegerTable qd.dsc t) {first : Int} (h : IsCondition qd first) :
    t.affinity (conditionColumn qd.dsc first) = .numeric := by
  unfold conditionColumn
  by_cases named : first = SelectTarget.rowId
  · rw [if_pos named]
    simp only [Table.affinity, table.rowid]
  · rw [if_neg named]
    have column := h.resolve_left named
    obtain ⟨more, columns⟩ := table.columns
    have inside : first.toNat < qd.dsc.columnTagCont.length := by
      obtain ⟨low, high⟩ := column
      omega
    rw [Table.affinity, index_column table column, columns]
    simp [List.getElem?_append_left, inside]

theorem project_target (table : IntegerTable qd.dsc t) (r : Row) {target : Int} (h : IsTarget qd target) :
    t.project r (targetOf qd.dsc target) = targetValues r target := by
  unfold targetOf targetValues
  by_cases all : target = SelectTarget.all
  · rw [if_pos all, if_pos all]
    rfl
  · rw [if_neg all, if_neg all, targetText, if_neg all]
    by_cases named : target = SelectTarget.rowId
    · rw [if_pos named, if_pos named]
      simp only [Table.project, Table.value, table.rowid]
      rfl
    · rw [if_neg named, if_neg named]
      simp only [Table.project, Table.value, index_column table ((h.resolve_left all).resolve_left named)]

end

/-! ## Rows -/

theorem meets_int (numeric : Str → Value) {qd : QueryDescriptor} {t : Table} (table : IntegerTable qd.dsc t)
    {r : Row} (kept : r ∈ t.rows) {c : Comparison} (h : IsCondition qd c.column) :
    ∃ x, columnValue r c.column = some x ∧
      t.meets numeric r (c.cond qd.dsc) = (compareOp c.compare).holds (compare x c.operand) := by
  obtain ⟨x, value, is⟩ := value_condition table kept h
  refine ⟨x, is, ?_⟩
  simp [Table.meets, Comparison.cond, value, affinity_condition table h, Table.operand, Affinity.apply, Value.order]

/-- An operator between two numbers. -/
theorem holds_compare (o : Sql.Op) (x n : Int) : o.holds (compare x n) = true ↔
    match o with
    | .lt => x < n
    | .le => x ≤ n
    | .eq => x = n
    | .ge => n ≤ x
    | .gt => n < x := by
  cases o <;> simp [Sql.Op.holds, compare_lt_iff_lt, compare_gt_iff_gt]

/-- Off its edge a comparison is written as it is named, on it as the other of the two. -/
theorem written_iff {e x n : Int} (code : IsCompare e) :
    (compareOp e).holds (compare x n) = true ↔
      if (e = Compare.equalAndLower ∨ e = Compare.lower) ∧ x = n then ¬ Compare.Named e x n
      else Compare.Named e x n := by
  obtain ⟨low, high⟩ := code
  rw [holds_compare]
  interval_cases e <;>
    simp [compareOp, Compare.Named, Compare.higher, Compare.equalAndHigher, Compare.equal,
      Compare.equalAndLower, Compare.lower]
  · split <;> omega
  · split <;> omega

/-- What is written of a comparison, in terms of what it names. -/
theorem meets_iff {numeric : Str → Value} {qd : QueryDescriptor} {t : Table} (table : IntegerTable qd.dsc t)
    {r : Row} (kept : r ∈ t.rows) {c : Comparison} (column : IsCondition qd c.column)
    (code : IsCompare c.compare) :
    t.meets numeric r (c.cond qd.dsc) = true ↔ if c.OnEdge r then ¬ c.Stands r else c.Stands r := by
  obtain ⟨x, value, meets⟩ := meets_int numeric table kept column
  have stands : c.Stands r ↔ Compare.Named c.compare x c.operand := by simp [Comparison.Stands, value]
  rw [meets, written_iff code]
  simp only [Comparison.OnEdge, value, Option.some.injEq, stands]

theorem edge_stands {c : Comparison} {r : Row} (edge : c.OnEdge r) :
    c.Stands r ↔ c.compare = Compare.equalAndLower := by
  obtain ⟨code, value⟩ := edge
  simp only [Comparison.Stands, value, Option.mem_some_iff, exists_eq_left']
  rcases code with is | is <;> rw [is] <;>
    simp [Compare.Named, Compare.higher, Compare.equalAndHigher, Compare.equal, Compare.equalAndLower,
      Compare.lower]

/-- A row is selected as meant where the exchange of the operators makes no difference. -/
theorem all_meets_iff {numeric : Str → Value} {qd : QueryDescriptor} {t : Table} (table : IntegerTable qd.dsc t)
    {r : Row} (kept : r ∈ t.rows) {cs : List Comparison}
    (inRange : ∀ c ∈ cs, IsCondition qd c.column ∧ IsCompare c.compare) :
    (((cs.map (Comparison.cond qd.dsc)).all (t.meets numeric r) = true ↔ ∀ c ∈ cs, c.Stands r) ↔
      Unaffected cs r) := by
  have written : ∀ c ∈ cs, (t.meets numeric r (c.cond qd.dsc) = true ↔
      if c.OnEdge r then ¬ c.Stands r else c.Stands r) :=
    fun c member => meets_iff table kept (inRange c member).1 (inRange c member).2
  have codes : ∀ c : Comparison, c.OnEdge r → c.compare = Compare.equalAndLower ∨ c.compare = Compare.lower :=
    fun c edge => edge.1
  have apart : ¬ Compare.equalAndLower = Compare.lower := by decide
  rw [List.all_map, List.all_eq_true]
  simp only [Function.comp_apply]
  constructor
  · rintro same ⟨c, member, edge⟩
    by_contra unaffected
    simp only [not_or, not_exists, not_and, not_not] at unaffected
    obtain ⟨off, oneCode⟩ := unaffected
    rcases codes c edge with is | is
    · -- every comparison on its edge names what stands there, and is written as what fails
      have all : ∀ d ∈ cs, d.Stands r := fun d there => by
        by_cases here : d.OnEdge r
        · exact (edge_stands here).mpr ((codes d here).resolve_right
            (oneCode ⟨c, member, edge, is⟩ d there here))
        · exact off d there here
      have fails := same.mpr all c member
      rw [written c member, if_pos edge] at fails
      exact fails (all c member)
    · have other : ∀ d ∈ cs, d.OnEdge r → d.compare ≠ Compare.equalAndLower := fun d there here code =>
        oneCode ⟨d, there, here, code⟩ c member edge is
      have all : ∀ d ∈ cs, t.meets numeric r (d.cond qd.dsc) = true := fun d there => by
        rw [written d there]
        split
        · next here => exact fun stands => other d there here ((edge_stands here).mp stands)
        · next here => exact off d there here
      exact other c member edge ((edge_stands edge).mp (same.mp all c member))
  · intro unaffected
    by_cases edge : ∃ c ∈ cs, c.OnEdge r
    · -- what is written fails somewhere, and so does what is named
      obtain ⟨c, member, here, fails⟩ | ⟨⟨c, member, here, low⟩, d, there, here', strict⟩ := unaffected edge
      · refine iff_of_false (fun all => fails ?_) fun all => fails (all c member)
        simpa only [written c member, if_neg here] using all c member
      · refine iff_of_false (fun all => ?_) fun all => ?_
        · have not := all c member
          rw [written c member, if_pos here] at not
          exact not ((edge_stands here).mpr low)
        · exact apart (((edge_stands here').mp (all d there)).symm.trans strict)
    · simp only [not_exists, not_and] at edge
      exact forall₂_congr fun c member => by rw [written c member, if_neg (edge c member)]

theorem filter_eq_iff {α : Type} {p q : α → Bool} {l : List α} :
    l.filter p = l.filter q ↔ ∀ a ∈ l, p a = q a := by
  constructor
  · intro same a member
    have left : a ∈ l.filter p ↔ a ∈ l.filter q := by rw [same]
    rw [Bool.eq_iff_iff]
    simpa only [List.mem_filter, member, true_and] using left
  · exact List.filter_congr

/-! ## The two overloads -/

namespace Selection

theorem statement_call (s : Selection) : s.call.statement = .select
    ⟨targetOf s.qd.dsc s.target, s.qd.dsc.getTableName, s.comparisons.map (Comparison.cond s.qd.dsc)⟩ := by
  cases s <;> rfl

theorem inRange_call {s : Selection} : s.call.InRange ↔
    (∀ c ∈ s.comparisons, IsCondition s.qd c.column ∧ IsCompare c.compare) ∧ IsTarget s.qd s.target := by
  cases s <;> simp [call, BuilderCall.InRange, comparisons, qd, target, and_assoc, and_left_comm]

/-- A call says what its codes name exactly when the exchange of the last two operators
    makes no difference for any row. -/
theorem meant_iff {s : Selection} {numeric : Str → Value} {store : Store} (inRange : s.call.InRange)
    (table : IntegerTable s.qd.dsc (store s.qd.dsc.getTableName)) :
    s.Meant numeric store ↔ ∀ r ∈ (store s.qd.dsc.getTableName).rows, Unaffected s.comparisons r := by
  have read : readStatement s.call.text = some (.select _) :=
    (BuilderCall.readStatement_text inRange (by cases s <;> simp [call, BuilderCall.args, Arg.NulFree])
      (by cases s <;> simp [call, BuilderCall.args, Arg.Plain])).trans (congrArg some s.statement_call)
  obtain ⟨comparisons, asked⟩ := inRange_call.mp inRange
  have rows : ∀ r ∈ (store s.qd.dsc.getTableName).rows,
      (((s.comparisons.map (Comparison.cond s.qd.dsc)).all
        ((store s.qd.dsc.getTableName).meets numeric r) = decide (∀ c ∈ s.comparisons, c.Stands r)) ↔
      Unaffected s.comparisons r) := fun r kept => by
    rw [Bool.eq_iff_iff, decide_eq_true_iff]
    exact all_meets_iff table kept comparisons
  constructor
  · rintro ⟨said, is, -, selected, -⟩
    obtain rfl : _ = said := by simpa using read.symm.trans is
    exact fun r kept => (rows r kept).mp (filter_eq_iff.mp selected r kept)
  · intro unaffected
    refine ⟨_, read, rfl, filter_eq_iff.mpr fun r kept => (rows r kept).mpr (unaffected r kept), ?_⟩
    exact fun r _ => project_target table r asked

/-- The table of keys and users, both numbers, with this one row. -/
def numbered (key user : Int) : Store := fun name =>
  if name = str "part" then ⟨[⟨str "tableKey", .numeric⟩, ⟨str "user", .numeric⟩], [⟨1, [.int key, .int user]⟩]⟩
  else ⟨[], []⟩

theorem numbered_table (key user : Int) :
    IntegerTable partDsc (numbered key user (str "part")) where
  columns := ⟨[], rfl⟩
  rowid := rfl
  cells r kept := by
    obtain rfl : r = ⟨1, [.int key, .int user]⟩ := by simpa [numbered] using kept
    exact ⟨rfl, by simp⟩

/-- The keys up to a number, of one user. -/
def keysUpTo (key user : Int) : Selection :=
  .two .participate ⟨0, Compare.equalAndLower, key⟩ ⟨1, Compare.equal, user⟩ 0

theorem meant_keysUpTo : (keysUpTo 7 5).Meant .text (numbered 6 5) ↔
    ∀ r ∈ (numbered 6 5 (str "part")).rows, Unaffected (keysUpTo 7 5).comparisons r :=
  meant_iff (inRange_call.mpr (by decide)) (numbered_table 6 5)

/-- The key asked for itself is left out. -/
theorem not_meant : ¬ ∀ (s : Selection) (numeric : Str → Value) (store : Store), s.call.InRange →
    IntegerTable s.qd.dsc (store s.qd.dsc.getTableName) → s.Meant numeric store := by
  intro meant
  obtain ⟨said, read, -, selected, -⟩ := meant (keysUpTo 7 5) .text (numbered 7 5)
    (inRange_call.mpr (by decide)) (numbered_table 7 5)
  have is : readStatement (keysUpTo 7 5).call.text = some (keysUpTo 7 5).call.statement := by
    decide +kernel
  obtain rfl : _ = said := by simpa [statement_call] using is.symm.trans read
  exact absurd selected (by decide +kernel)

end Selection

end NineProject
