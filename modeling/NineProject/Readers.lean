import NineProject.Query
import NineProject.SqlText

/-! # What the queries for lists read

A call whose arguments are plain runs the selection it says, and the callbacks that
append make one element of each row. `part` is read in two ways: its members by key,
and its keys by user.
-/

namespace NineProject

open Bytes Sql

/-- A callback that appends makes an element of every row. -/
theorem eachRow_collect {α : Type} {f : ResultRow → Except Fault α} {init out : List α}
    {rows : List ResultRow} :
    eachRow (fun list row => (f row).map fun a => list ++ [a]) init rows = .ok out ↔
      ∃ made, out = init ++ made ∧ List.Forall₂ (fun row a => f row = .ok a) rows made := by
  induction rows generalizing init with
  | nil =>
      constructor
      · intro ran
        cases ran
        exact ⟨[], by simp, .nil⟩
      · rintro ⟨made, rfl, none_⟩
        cases none_
        simp [eachRow]
  | cons row rest ih =>
      simp only [eachRow]
      cases here : f row with
      | error e =>
          refine iff_of_false (by simp [Except.map, Except.bind]) ?_
          rintro ⟨made, -, all⟩
          cases all with
          | cons first _ => simp [here] at first
      | ok a =>
          show eachRow _ (init ++ [a]) rest = .ok out ↔ _
          rw [ih]
          constructor
          · rintro ⟨made, rfl, all⟩
            exact ⟨a :: made, by simp, .cons here all⟩
          · rintro ⟨made, rfl, all⟩
            cases all with
            | cons first others =>
                cases here.symm.trans first
                exact ⟨_, by simp, others⟩

theorem made_mem {α : Type} {f : ResultRow → Except Fault α} {rows : List ResultRow} {made : List α}
    (all : List.Forall₂ (fun row a => f row = .ok a) rows made) {a : α} :
    a ∈ made ↔ ∃ row ∈ rows, f row = .ok a := by
  induction all with
  | nil => simp
  | cons first _ ih => simp [ih, first, eq_comm]

/-- A row of a selection comes from a row of the table. -/
theorem mem_select {numeric : Str → Value} {s : Select} {store : Store} {row : ResultRow} :
    row ∈ s.rows numeric store ↔
      (store s.table).shows s.target ∧
        ∃ r ∈ (store s.table).rows, s.conds.all ((store s.table).meets numeric r) = true ∧
          row = ⟨r.rowid, (store s.table).project r s.target⟩ := by
  simp only [Select.rows, List.mem_ite_nil_right, List.mem_map, List.mem_filter]
  refine and_congr_right fun _ => ?_
  exact ⟨fun ⟨r, ⟨kept, meets⟩, is⟩ => ⟨r, kept, meets, is.symm⟩,
    fun ⟨r, kept, meets, is⟩ => ⟨r, ⟨kept, meets⟩, is.symm⟩⟩

/-- The rows with a text in a column. -/
def rowsWith (t : Table) (i : Nat) (s : Str) : List Row := t.rows.filter fun r => r.cells[i]? = some (.text s)

theorem mem_rowsWith {t : Table} {i : Nat} {s : Str} {r : Row} :
    r ∈ rowsWith t i s ↔ r ∈ t.rows ∧ r.cells[i]? = some (.text s) := by
  simp [rowsWith]

/-- A text that names no column selects the rows that hold it. -/
theorem select_text_rows (numeric : Str → Value) {target : Target} {table name s : Str} {store : Store} {i : Nat}
    (column : (store table).index name = some i) (kind : (store table).affinity name = .text)
    (noColumn : ¬ (store table).knows s) (shown : (store table).shows target) :
    Select.rows numeric ⟨target, table, [⟨name, .eq, .quoted s⟩]⟩ store =
      (rowsWith (store table) i s).map fun r => ⟨r.rowid, (store table).project r target⟩ := by
  have kept : ∀ r, [Cond.mk name .eq (.quoted s)].all ((store table).meets numeric r) =
      decide (r.cells[i]? = some (.text s)) := fun r => by
    have value : (store table).value r name = r.cells[i]? := by simp [Table.value, column]
    rw [Bool.eq_iff_iff]
    simp [Table.meets_text numeric kind noColumn, value]
  simp only [Select.rows, rowsWith, kept, shown, if_true]

section
variable {σ : Type} {E : Engine σ} {numeric : Str → Value} {view : σ → Store}

/-- A call with plain arguments runs the selection that is meant. -/
theorem exec_select (lawful : E.Lawful numeric view) {call : BuilderCall} {s : Select}
    (inRange : call.InRange) (plain : ∀ a ∈ call.args, a.Plain) (nulFree : ∀ a ∈ call.args, a.NulFree)
    (is : call.statement = .select s) (db : σ) : E.exec db call.text = (db, s.rows numeric (view db)) :=
  lawful.select db _ _ ((BuilderCall.readStatement_text inRange nulFree plain).trans (congrArg some is))

/-- A select up to the text its first condition compares with. -/
def selectOpening (qd : QueryDescriptor) (first e target : Int) : Str :=
  str "SELECT " ++ targetText qd.dsc target ++ str " FROM " ++ qd.dsc.getTableName ++ str " WHERE( " ++
    conditionColumn qd.dsc first ++ eqivDsc e ++ str "\""

/-- A zero byte in a text that stands in quotes cuts a statement off, and nothing is run. -/
private theorem exec_cut (lawful : E.Lawful numeric view) {opening s : Str} {ts : List Token}
    (opens : Lexer.scan .gap opening = some (ts, .string 34 [])) (clear : Lexer.Clear opening) (plain : 34 ∉ s)
    (zero : 0 ∈ s) (rest : Str) (db : σ) : E.exec db (opening ++ (s ++ rest)) = (db, []) :=
  lawful.malformed db _ (Lexer.cut_off opens clear plain zero rest)

/-- A select for a text without double quotes: a zero byte in it cuts the statement off. -/
theorem selectText_exec (lawful : E.Lawful numeric view) {qd : QueryDescriptor} {first target : Int} {s : Str}
    {ts : List Token} (column : IsCondition qd first) (asked : IsTarget qd target)
    (opens : Lexer.scan .gap (selectOpening qd first Compare.equal target) = some (ts, .string 34 []))
    (clear : Lexer.Clear (selectOpening qd first Compare.equal target)) (plain : 34 ∉ s) (db : σ) :
    E.exec db (selectQuery qd (first, .string s) Compare.equal target) =
      (db, if 0 ∈ s then [] else Select.rows numeric
        ⟨targetOf qd.dsc target, qd.dsc.getTableName, [⟨conditionColumn qd.dsc first, .eq, .quoted s⟩]⟩
        (view db)) := by
  by_cases zero : 0 ∈ s
  · have split : selectQuery qd (first, .string s) Compare.equal target =
        selectOpening qd first Compare.equal target ++ (s ++ str "\" ) ;") := by
      simp only [selectQuery, selectOpening, toStringS, List.append_assoc]
      rfl
    rw [split, exec_cut lawful opens clear plain zero, if_pos zero]
  · rw [if_neg zero]
    have inRange : (BuilderCall.select qd (first, .string s) Compare.equal target).InRange :=
      ⟨column, by decide, asked⟩
    exact exec_select lawful inRange (by simpa [BuilderCall.args, Arg.Plain] using plain)
      (by simpa [BuilderCall.args, Arg.NulFree] using zero) rfl db

/-- A select for a text without double quotes and a number. -/
theorem selectText2_exec (lawful : E.Lawful numeric view) {qd : QueryDescriptor} {first second e target c : Int}
    {s : Str} {ts : List Token} (column : IsCondition qd first) (column' : IsCondition qd second)
    (compare : IsCompare e) (asked : IsTarget qd target)
    (opens : Lexer.scan .gap (selectOpening qd first Compare.equal target) = some (ts, .string 34 []))
    (clear : Lexer.Clear (selectOpening qd first Compare.equal target)) (plain : 34 ∉ s) (db : σ) :
    E.exec db (selectQuery2 qd (first, .string s) (second, .int c) Compare.equal e target) =
      (db, if 0 ∈ s then [] else Select.rows numeric
        ⟨targetOf qd.dsc target, qd.dsc.getTableName, [⟨conditionColumn qd.dsc first, .eq, .quoted s⟩,
          ⟨conditionColumn qd.dsc second, compareOp e, .number c⟩]⟩ (view db)) := by
  by_cases zero : 0 ∈ s
  · have split : selectQuery2 qd (first, .string s) (second, .int c) Compare.equal e target =
        selectOpening qd first Compare.equal target ++ (s ++ ((34 :: str " AND ") ++
          conditionColumn qd.dsc second ++ eqivDsc e ++ Decimal.ofInt c ++ str " ) ;")) := by
      simp only [selectQuery2, selectOpening, toStringS, List.append_assoc]
      rfl
    rw [split, exec_cut lawful opens clear plain zero, if_pos zero]
  · rw [if_neg zero]
    have inRange : (BuilderCall.select2 qd (first, .string s) (second, .int c) Compare.equal e target).InRange :=
      ⟨column, column', by decide, compare, asked⟩
    exact exec_select lawful inRange (by simpa [BuilderCall.args, Arg.Plain] using plain)
      (by simpa [BuilderCall.args, Arg.NulFree] using zero) rfl db

/-! ## The rows of `part` -/

/-- The columns of `part`, in the order of `PartDsc`. -/
def partColumns : List Column :=
  [⟨str "tableKey", .numeric⟩, ⟨str "user", .text⟩, ⟨str "idx", .numeric⟩]

/-- The selection of `get_table`. -/
def tablesOf (user : Str) : Select :=
  ⟨.column (str "tableKey"), str "part", [⟨str "user", .eq, .quoted user⟩]⟩

/-- The selection of `get_dining_members`. -/
def membersOf (tableKey : Int) : Select :=
  ⟨.column (str "user"), str "part", [⟨str "tableKey", .eq, .number tableKey⟩]⟩

private def getDiningMembersCall (tableKey : Int) : BuilderCall :=
  .select .participate (0, .int tableKey) Compare.equal 1

/-- The statement of `get_table` for a name without double quotes: a zero byte in it cuts
    the statement off. -/
theorem getTable_exec (lawful : E.Lawful numeric view) {user : Str} (plain : 34 ∉ user) (db : σ) :
    E.exec db (selectQuery .participate (1, .string user) 2 0) =
      (db, if 0 ∈ user then [] else (tablesOf user).rows numeric (view db)) := by
  exact selectText_exec lawful (.inr (show QueryDescriptor.participate.dsc.HasColumn 1 by decide))
    (.inr (.inr (by decide))) rfl (by decide) plain db

theorem getDiningMembers_exec (lawful : E.Lawful numeric view) (tableKey : Int) (db : σ) :
    E.exec db (selectQuery .participate (0, .int tableKey) Compare.equal 1) =
      (db, (membersOf tableKey).rows numeric (view db)) := by
  have inRange : (getDiningMembersCall tableKey).InRange :=
    ⟨.inr (show QueryDescriptor.participate.dsc.HasColumn 0 by decide), by decide, .inr (.inr (by decide))⟩
  exact exec_select lawful inRange (by simp [getDiningMembersCall, BuilderCall.args, Arg.Plain])
    (by simp [getDiningMembersCall, BuilderCall.args, Arg.NulFree]) rfl db

theorem getTable_eq_ok (lawful : E.Lawful numeric view) {user : Str} (plain : 34 ∉ user) {db : σ}
    {keys : List Int} : ((Qr.getTable user).run E db).result = .ok keys ↔
      List.Forall₂ (fun row key => argInt row 0 = .ok key)
        (if 0 ∈ user then [] else (tablesOf user).rows numeric (view db)) keys := by
  simp only [Qr.getTable, query_run, getTable_exec lawful plain]
  rw [eachRow_collect]
  simp

theorem getDiningMembers_eq_ok (lawful : E.Lawful numeric view) {tableKey : Int} {db : σ} {users : List Str} :
    ((Qr.getDiningMembers tableKey).run E db).result = .ok users ↔
      List.Forall₂ (fun row user => argText row 0 = .ok user) ((membersOf tableKey).rows numeric (view db))
        users := by
  simp only [Qr.getDiningMembers, query_run, getDiningMembers_exec lawful]
  show eachRow (fun list row => (argText row 0).map fun s => list ++ [s]) [] _ = _ ↔ _
  rw [eachRow_collect]
  simp

/-- The tables of a user are read from `part` alone. -/
theorem getTable_same (lawful : E.Lawful numeric view) {user : Str} (plain : 34 ∉ user) {db db' : σ}
    (same : view db (str "part") = view db' (str "part")) {keys : List Int} :
    ((Qr.getTable user).run E db).result = .ok keys ↔ ((Qr.getTable user).run E db').result = .ok keys := by
  have rows : (tablesOf user).rows numeric (view db) = (tablesOf user).rows numeric (view db') := by
    simp only [Select.rows, show (tablesOf user).table = str "part" from rfl, same]
  rw [getTable_eq_ok lawful plain, getTable_eq_ok lawful plain, rows]

/-- The row is one that its key is read from as this number. -/
def Keyed (t : Table) (key : Int) (r : Row) : Prop :=
  argInt ⟨r.rowid, t.project r (.column (str "tableKey"))⟩ 0 = .ok key

/-- Keys are read from rows of the table. -/
theorem getTable_keyed (lawful : E.Lawful numeric view) {user : Str} (plain : 34 ∉ user) {db : σ}
    {keys : List Int} (ran : ((Qr.getTable user).run E db).result = .ok keys) {key : Int} (listed : key ∈ keys) :
    ∃ r ∈ (view db (str "part")).rows, Keyed (view db (str "part")) key r := by
  obtain ⟨row, member, read⟩ := (made_mem ((getTable_eq_ok lawful plain).mp ran)).mp listed
  by_cases zero : 0 ∈ user
  · simp [zero] at member
  · rw [if_neg zero] at member
    obtain ⟨-, r, kept, -, rfl⟩ := mem_select.mp member
    exact ⟨r, kept, read⟩

end

end NineProject
