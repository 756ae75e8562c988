import NineProject.Sql.Connection

/-! # A reference engine

Tables in memory, run by the meaning of the statements that are understood; any
other text does nothing. It satisfies what is assumed of an engine, so the
assumptions can be met.
-/

namespace Sql

structure Memory where
  store : Store
  last : Int

namespace Memory

def nextRowid (t : Table) : Int := (t.rows.map Row.rowid).foldl max 0 + 1

def add (db : Memory) (table : Str) (cells : List Value) : Memory :=
  let r : Row := ⟨nextRowid (db.store table), cells⟩
  ⟨fun name => if name = table then ⟨(db.store table).columns, (db.store table).rows ++ [r]⟩
    else db.store name, r.rowid⟩

/-- Columns that no value is given for hold `default`. -/
def engine (numeric : Str → Value) (default : Str → Value) : Engine Memory where
  exec db text := match readStatement text with
    | some (.select s) => (db, s.rows numeric db.store)
    | some (.insert i) => (db.add i.table (i.cells numeric default (db.store i.table)), [])
    | none => (db, [])
  lastInsertRowid db := db.last

private theorem foldl_max_ge (ns : List Int) (init : Int) :
    init ≤ ns.foldl max init ∧ ∀ n ∈ ns, n ≤ ns.foldl max init := by
  induction ns generalizing init with
  | nil => simp
  | cons n ns ih =>
      obtain ⟨start, all⟩ := ih (max init n)
      simp only [List.foldl_cons, List.mem_cons, forall_eq_or_imp]
      exact ⟨le_trans (le_max_left _ _) start, le_trans (le_max_right _ _) start, all⟩

theorem nextRowid_above {t : Table} {r : Row} (h : r ∈ t.rows) : r.rowid < nextRowid t := by
  have bound := (foldl_max_ge (t.rows.map Row.rowid) 0).2 r.rowid (List.mem_map_of_mem h)
  simp only [nextRowid]
  omega

theorem add_adds (db : Memory) (table : Str) (cells : List Value) :
    db.store.Adds (db.add table cells).store table ⟨nextRowid (db.store table), cells⟩ := by
  refine ⟨fun old member => nextRowid_above member, by simp [add], fun other apart => ?_⟩
  simp [add, apart]

theorem engine_lawful (numeric default : Str → Value) :
    (engine numeric default).Lawful numeric Memory.store where
  select db text s h := by simp [engine, h]
  malformed db text h := by
    have unread : readStatement text = none := by simp [readStatement, h.unread]
    simp [engine, unread]
  insert db text i h := by
    have ran : (engine numeric default).exec db text =
        (db.add i.table (i.cells numeric default (db.store i.table)), []) := by simp [engine, h]
    rw [ran]
    exact ⟨rfl, .inr ⟨default, _, rfl, add_adds db i.table _, rfl⟩⟩

end Memory
end Sql
