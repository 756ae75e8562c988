import NineProject.Sql.Store

/-! # A connection and the programs that use it

`Engine` is the part of the SQLite interface that is used: one call runs a
statement and hands its rows to a callback, another asks for the rowid of the
latest insertion. `Engine.Lawful` says what the documentation promises of
statements that are understood; a statement may still fail, and then changes
nothing. A `Program` is what a client does between the calls, one call at a time.
-/

namespace Sql

structure Engine (σ : Type) where
  /-- `sqlite3_exec`: the connection afterwards and the rows the callback is called
      with, in order. -/
  exec : σ → Str → σ × List ResultRow
  lastInsertRowid : σ → Int

/-- The engine does what its documentation says, on the tables `view` shows. These have names
    that stand without quotes, so no keyword is one, and their rowids are taken not to run
    out: once a table has used 2^63 - 1, an insertion looks for a free one below it. -/
structure Engine.Lawful {σ : Type} (E : Engine σ) (numeric : Str → Value) (view : σ → Store) :
    Prop where
  select : ∀ db text s, readStatement text = some (.select s) →
    E.exec db text = (db, s.rows numeric (view db))
  /-- A string without an end is an unrecognized token: the statement it is in does not run. -/
  malformed : ∀ db text, Lexer.CutOff (Bytes.cString text) → E.exec db text = (db, [])
  insert : ∀ db text i, readStatement text = some (.insert i) →
    (E.exec db text).2 = [] ∧
      ((view (E.exec db text).1 = view db ∧
          E.lastInsertRowid (E.exec db text).1 = E.lastInsertRowid db) ∨
        ∃ default r, r.cells = i.cells numeric default (view db i.table) ∧
          (view db).Adds (view (E.exec db text).1) i.table r ∧
          E.lastInsertRowid (E.exec db text).1 = r.rowid)

/-- A row that an insertion adds has the cells the statement gives it. -/
theorem Engine.Lawful.adds {σ : Type} {E : Engine σ} {numeric : Str → Value} {view : σ → Store}
    (lawful : E.Lawful numeric view) {db : σ} {text : Str} {i : Insert} {r : Row}
    (read : readStatement text = some (.insert i))
    (adds : (view db).Adds (view (E.exec db text).1) i.table r) :
    (∃ default, r.cells = i.cells numeric default (view db i.table)) ∧
      E.lastInsertRowid (E.exec db text).1 = r.rowid := by
  obtain ⟨-, new, -⟩ := adds
  obtain ⟨-, ⟨same, -⟩ | ⟨default, added, cells, ⟨-, grown, -⟩, last⟩⟩ := lawful.insert db _ _ read
  · rw [same] at new
    have longer := congrArg (fun t => t.rows.length) new
    simp at longer
  · have rows : (view db i.table).rows ++ [r] = (view db i.table).rows ++ [added] :=
      congrArg Table.rows (new.symm.trans grown)
    obtain rfl : r = added := by simpa using rows
    exact ⟨⟨default, cells⟩, last⟩

/-- The text means this insertion, unless it is cut off inside a string. -/
def Means (text : Str) (i : Insert) : Prop :=
  readStatement text = some (.insert i) ∨ Lexer.CutOff (Bytes.cString text)

namespace Means

variable {σ : Type} {E : Engine σ} {numeric : Str → Value} {view : σ → Store} {text : Str} {i : Insert}

/-- It does what it means or nothing. -/
theorem outcome (means : Means text i) (lawful : E.Lawful numeric view) (db : σ) :
    view (E.exec db text).1 = view db ∨ ∃ default r, r.cells = i.cells numeric default (view db i.table) ∧
      (view db).Adds (view (E.exec db text).1) i.table r := by
  rcases means with read | cut
  · obtain ⟨-, ⟨same, -⟩ | ⟨default, r, cells, adds, -⟩⟩ := lawful.insert db _ _ read
    · exact .inl same
    · exact .inr ⟨default, r, cells, adds⟩
  · exact .inl (by rw [lawful.malformed db _ cut])

theorem elsewhere (means : Means text i) (lawful : E.Lawful numeric view) (db : σ) {table : Str}
    (other : table ≠ i.table) : view (E.exec db text).1 table = view db table := by
  rcases means.outcome lawful db with same | ⟨default, r, -, adds⟩
  · rw [same]
  · exact adds.2.2 table other

theorem cells (means : Means text i) (lawful : E.Lawful numeric view) {db : σ} {r : Row}
    (adds : (view db).Adds (view (E.exec db text).1) i.table r) :
    ∃ default, r.cells = i.cells numeric default (view db i.table) := by
  rcases means with read | cut
  · exact (lawful.adds read adds).1
  · rw [lawful.malformed db _ cut] at adds
    have longer := congrArg (fun t => t.rows.length) adds.2.1
    simp at longer

/-- What the table gains is the row that is added. -/
theorem gains_iff (means : Means text i) (lawful : E.Lawful numeric view) {db : σ} {P : Row → Prop} :
    (view db).Gains (view (E.exec db text).1) i.table P ↔
      ∃ r, (view db).Adds (view (E.exec db text).1) i.table r ∧ P r := by
  constructor
  · intro gains
    rcases means.outcome lawful db with same | ⟨default, r, -, adds⟩
    · obtain ⟨r, new, old, -⟩ := gains
      rw [same] at new
      exact absurd new old
    · exact ⟨r, adds, adds.gains_iff.mp gains⟩
  · rintro ⟨r, adds, h⟩
    exact adds.gains_iff.mpr h

end Means

/-! ## Programs -/

/-- A client of a connection: it stops with a value or a failure, or makes a call
    and goes on with the answer. -/
inductive Program (ε α : Type) where
  | done (a : α)
  | fail (e : ε)
  | exec (text : Str) (next : List ResultRow → Program ε α)
  | lastInsertRowid (next : Int → Program ε α)

/-- What a program leaves when it has the connection to itself. -/
structure Ran (σ ε α : Type) where
  result : Except ε α
  db : σ
  /-- The statements it ran, in order. -/
  executed : List Str

namespace Program

variable {σ ε α β : Type}

def bind : Program ε α → (α → Program ε β) → Program ε β
  | .done a, f => f a
  | .fail e, _ => .fail e
  | .exec text next, f => .exec text fun rows => (next rows).bind f
  | .lastInsertRowid next, f => .lastInsertRowid fun n => (next n).bind f

instance : Monad (Program ε) where
  pure := .done
  bind := bind

def run (E : Engine σ) : Program ε α → σ → Ran σ ε α
  | .done a, db => ⟨.ok a, db, []⟩
  | .fail e, db => ⟨.error e, db, []⟩
  | .exec text next, db =>
      let r := run E (next (E.exec db text).2) (E.exec db text).1
      { r with executed := text :: r.executed }
  | .lastInsertRowid next, db => run E (next (E.lastInsertRowid db)) db

/-- One statement and its rows. -/
def statement (text : Str) : Program ε (List ResultRow) := .exec text .done

def rowid : Program ε Int := .lastInsertRowid .done

@[simp] theorem run_pure (E : Engine σ) (a : α) (db : σ) :
    (pure a : Program ε α).run E db = ⟨.ok a, db, []⟩ := rfl

@[simp] theorem run_fail (E : Engine σ) (e : ε) (db : σ) :
    (fail e : Program ε α).run E db = ⟨.error e, db, []⟩ := rfl

@[simp] theorem run_statement (E : Engine σ) (text : Str) (db : σ) :
    (statement text : Program ε _).run E db = ⟨.ok (E.exec db text).2, (E.exec db text).1, [text]⟩ :=
  rfl

@[simp] theorem run_rowid (E : Engine σ) (db : σ) :
    (rowid : Program ε _).run E db = ⟨.ok (E.lastInsertRowid db), db, []⟩ := rfl

theorem run_bind (E : Engine σ) (p : Program ε α) (f : α → Program ε β) (db : σ) :
    (p >>= f).run E db = match p.run E db with
      | ⟨.ok a, db', first⟩ => { (f a).run E db' with executed := first ++ ((f a).run E db').executed }
      | ⟨.error e, db', first⟩ => ⟨.error e, db', first⟩ := by
  show (p.bind f).run E db = _
  induction p generalizing db with
  | done a => rfl
  | fail e => rfl
  | exec text next ih =>
      simp only [bind, run, ih]
      cases h : (next (E.exec db text).2).run E (E.exec db text).1 with
      | mk result db' first => cases result <;> rfl
  | lastInsertRowid next ih => simp only [bind, run, ih]

/-- A program made of two ends when the one behind ends where the first left the database. -/
theorem run_bind_ok {E : Engine σ} {p : Program ε α} {f : α → Program ε β} {db : σ} {b : β} :
    ((p >>= f).run E db).result = .ok b ↔
      ∃ a, (p.run E db).result = .ok a ∧ ((f a).run E (p.run E db).db).result = .ok b := by
  rw [run_bind]
  cases p.run E db with
  | mk result db' executed => cases result <;> simp

/-! ## Programs that only read -/

/-- The program leaves the database as it is, and `Q` holds of what it returns. -/
def Reads (E : Engine σ) (db : σ) (p : Program ε α) (Q : α → Prop) : Prop :=
  (p.run E db).db = db ∧ ∀ a, (p.run E db).result = .ok a → Q a

namespace Reads

variable {E : Engine σ} {db : σ} {Q : α → Prop} {R : β → Prop}

theorem pure {a : α} (h : Q a) : Reads E db (Pure.pure a : Program ε α) Q :=
  ⟨rfl, fun b is => by cases is; exact h⟩

theorem fail {e : ε} : Reads E db (fail e : Program ε α) Q := ⟨rfl, fun b is => by cases is⟩

theorem bind {p : Program ε α} {f : α → Program ε β} (first : Reads E db p Q)
    (rest : ∀ a, Q a → Reads E db (f a) R) : Reads E db (p >>= f) R := by
  obtain ⟨same, returns⟩ := first
  unfold Reads
  rw [run_bind]
  cases ran : p.run E db with
  | mk result db' executed =>
      rw [ran] at same returns
      cases same
      cases result with
      | error e => exact ⟨rfl, fun b is => by cases is⟩
      | ok a => exact rest a (returns a rfl)

/-- Whatever such a program returns is what it returns. -/
theorem result {p : Program ε α} (same : (p.run E db).db = db) :
    Reads E db p fun a => (p.run E db).result = .ok a := ⟨same, fun _ => id⟩

theorem statement {text : Str} (same : (E.exec db text).1 = db) :
    Reads E db (statement text : Program ε _) (· = (E.exec db text).2) :=
  ⟨same, fun rows is => by cases is; rfl⟩

theorem rowid : Reads E db (rowid : Program ε _) (· = E.lastInsertRowid db) :=
  ⟨rfl, fun n is => by cases is; rfl⟩

end Reads

end Program
end Sql
