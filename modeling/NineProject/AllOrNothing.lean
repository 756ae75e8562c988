import NineProject.Insertions

/-! # What a table is made of when statements fail

`create_table` looks at no outcome: it goes on to the participants after its first
statement failed, with whatever key the connection had before, and past each that
failed. So all its rows are there, or none, only if all its statements fare alike.
-/

namespace Sql

variable {σ : Type}

namespace Engine

/-- The engine with a choice of statements that fail, counted from now on: a statement
    that fails does nothing. -/
def failing (E : Engine σ) (fails : Nat → Bool) : Engine (σ × Nat) where
  exec s text :=
    if fails s.2 then ((s.1, s.2 + 1), [])
    else (((E.exec s.1 text).1, s.2 + 1), (E.exec s.1 text).2)
  lastInsertRowid s := E.lastInsertRowid s.1

/-- Where it does not fail, the statement adds a row to the table. -/
def Takes (E : Engine σ) (view : σ → Store) (text table : Str) : Prop :=
  ∀ db, ∃ r, (view db).Adds (view (E.exec db text).1) table r ∧ E.lastInsertRowid (E.exec db text).1 = r.rowid

/-- The row is one that the statement adds. -/
def Makes (E : Engine σ) (view : σ → Store) (text table : Str) (r : Row) : Prop :=
  ∃ db, (view db).Adds (view (E.exec db text).1) table r

end Engine

/-- The reference engine takes every insertion that it understands. -/
theorem Memory.engine_takes {numeric default : Str → Value} {text : Str} {i : Insert}
    (read : readStatement text = some (.insert i)) :
    (engine numeric default).Takes store text i.table := by
  intro db
  have ran : (engine numeric default).exec db text =
      (db.add i.table (i.cells numeric default (db.store i.table)), []) := by simp [engine, read]
  rw [ran]
  exact ⟨_, add_adds db i.table _, rfl⟩

end Sql

namespace NineProject

open Bytes Sql

variable {σ : Type} {E : Engine σ} {view : σ → Store} {fails : Nat → Bool}

/-! ## The participants -/

/-- What the statements for the participants did: `before` gained rows in `part`, and
    as many as there are participants, or none, as none of them failed, or all. -/
structure Joined (E : Engine σ) (view : σ → Store) (fails : Nat → Bool) (tableKey index : Int) (n : Nat)
    (users : List Str) (before after : Store) (rows : List Row) : Prop where
  others : ∀ table, table ≠ str "part" → after table = before table
  gained : (after (str "part")).rows = (before (str "part")).rows ++ rows
  most : rows.length ≤ users.length
  full : rows.length = users.length ↔ ∀ i < users.length, fails (n + i) = false
  none_ : rows = [] ↔ ∀ i < users.length, fails (n + i) = true
  made : rows.length = users.length → ∀ (i : Nat) user r, users[i]? = some user → rows[i]? = some r →
    E.Makes view (insertText .participate (.string user) (.int tableKey) [.int (index + i)]) (str "part") r

theorem alike_succ (fails : Nat → Bool) (alike : Bool) (n k : Nat) :
    (∀ i < k + 1, fails (n + i) = alike) ↔ fails n = alike ∧ ∀ i < k, fails (n + 1 + i) = alike := by
  constructor
  · intro all
    refine ⟨all 0 (by omega), fun i below => ?_⟩
    have there := all (i + 1) (by omega)
    rwa [Nat.add_assoc, Nat.add_comm 1 i]
  · rintro ⟨first, rest⟩ i below
    cases i with
    | zero => exact first
    | succ i =>
        have there := rest i (by omega)
        rwa [Nat.add_assoc, Nat.add_comm 1 i] at there

theorem execAll_joined (fails : Nat → Bool) (tableKey index : Int) {users : List Str}
    (takes : ∀ user ∈ users, ∀ index : Int, E.Takes view
      (insertText .participate (.string user) (.int tableKey) [.int index]) (str "part"))
    (db : σ) (n : Nat) : ∃ rows, Joined E view fails tableKey index n users (view db)
      (view (execAll (E.failing fails) (db, n) (participateTexts tableKey index users)).1) rows := by
  induction users generalizing index db n with
  | nil => exact ⟨[], fun _ _ => rfl, by simp [participateTexts, execAll], by simp, by simp, by simp, by simp⟩
  | cons user rest ih =>
      have later := fun user member => takes user (List.mem_cons_of_mem _ member)
      let text := insertText .participate (.string user) (.int tableKey) [.int index]
      cases failed : fails n with
      | true =>
          obtain ⟨rows, joined⟩ := ih (index + 1) later db (n + 1)
          have ran : execAll (E.failing fails) (db, n) (participateTexts tableKey index (user :: rest)) =
              execAll (E.failing fails) (db, n + 1) (participateTexts tableKey (index + 1) rest) := by
            simp [execAll, participateTexts, Engine.failing, failed]
          rw [ran]
          have most := joined.most
          refine ⟨rows, joined.others, joined.gained, ?_, ?_, ?_, ?_⟩
          · simp only [List.length_cons]
            omega
          · refine iff_of_false ?_ fun all => ?_
            · simp only [List.length_cons]
              omega
            · have first := all 0 (by simp)
              simp [failed] at first
          · rw [joined.none_, List.length_cons, alike_succ]
            simp [failed]
          · intro full
            simp only [List.length_cons] at full
            omega
      | false =>
          obtain ⟨r, adds, -⟩ := takes user List.mem_cons_self index db
          have grown := adds.2.1
          have apart := adds.2.2
          obtain ⟨rows, joined⟩ := ih (index + 1) later (E.exec db text).1 (n + 1)
          have ran : execAll (E.failing fails) (db, n) (participateTexts tableKey index (user :: rest)) =
              execAll (E.failing fails) ((E.exec db text).1, n + 1) (participateTexts tableKey (index + 1) rest) := by
            simp [execAll, participateTexts, Engine.failing, failed, text]
          rw [ran]
          refine ⟨r :: rows, fun table other => (joined.others table other).trans (apart table other), ?_, ?_, ?_,
            ?_, ?_⟩
          · rw [joined.gained, grown]
            simp
          · simpa using joined.most
          · rw [List.length_cons, List.length_cons, alike_succ, ← joined.full]
            simp [failed]
          · refine iff_of_false (by simp) fun all => ?_
            have first := all 0 (by simp)
            simp [failed] at first
          · intro full i u r' is row
            cases i with
            | zero =>
                cases is
                cases row
                exact ⟨db, by simpa using adds⟩
            | succ i =>
                have made := joined.made (by simpa using full) i u r' (by simpa using is) (by simpa using row)
                have same : index + ((i + 1 : Nat) : Int) = index + 1 + i := by omega
                rw [same]
                exact made

/-! ## The table and its participants -/

/-- The table's row and those of all participants joined under the key. -/
structure Whole (E : Engine σ) (view : σ → Store) (before after : Store) (key : Int) (cont : List Str) : Prop where
  table : ∃ r, (after (str "chatTable")).rows = (before (str "chatTable")).rows ++ [r] ∧ r.rowid = key
  part : ∃ rows, (after (str "part")).rows = (before (str "part")).rows ++ rows ∧ rows.length = cont.length ∧
    ∀ (i : Nat) user r, cont[i]? = some user → rows[i]? = some r →
      E.Makes view (insertText .participate (.string user) (.int key) [.int i]) (str "part") r

/-- Neither table gained a row. -/
structure Untouched (before after : Store) : Prop where
  table : (after (str "chatTable")).rows = (before (str "chatTable")).rows
  part : (after (str "part")).rows = (before (str "part")).rows

/-- The call returns a key, with all its rows there or none of them. -/
def AllOrNothing (E : Engine σ) (view : σ → Store) (before : Store) (cont : List Str)
    (ran : Ran (σ × Nat) Fault Int) : Prop :=
  ∃ key, ran.result = .ok key ∧
    (Whole E view before (view ran.db.1) key cont ∨ Untouched before (view ran.db.1))

/-- Whichever statements fail, all the rows of a new table are there or none exactly when
    all the statements fail, or none does and the rowid of the table fits its key. -/
theorem createTable_allOrNothing_iff {host : Str} {cont : List Str}
    (table : E.Takes view (tableText host cont) (str "chatTable"))
    (part : ∀ user ∈ cont, ∀ key index : Int,
      E.Takes view (insertText .participate (.string user) (.int key) [.int index]) (str "part"))
    (db : σ) (fails : Nat → Bool) :
    AllOrNothing E view (view db) cont ((Qr.createTable host cont).run (E.failing fails) (db, 0)) ↔
      (∀ n ≤ cont.length, fails n = true) ∨ (∀ n ≤ cont.length, fails n = false) ∧
        InRange 32 (E.lastInsertRowid (E.exec db (tableText host cont)).1) := by
  have other : str "chatTable" ≠ str "part" := by decide
  have counted : ∀ alike, (∀ n ≤ cont.length, fails n = alike) ↔
      fails 0 = alike ∧ ∀ i < cont.length, fails (1 + i) = alike := fun alike => by
    have shifted := alike_succ fails alike 0 cont.length
    simpa [Nat.lt_succ_iff] using shifted
  rw [createTable_run, counted, counted]
  cases failed : fails 0 with
  | true =>
      have first : (E.failing fails).exec (db, 0) (tableText host cont) = ((db, 1), []) := by
        simp [Engine.failing, failed]
      rw [first]
      obtain ⟨rows, joined⟩ := execAll_joined fails (newKey (E.failing fails) host cont (db, 0)) 0
        (fun user member => part user member _) db 1
      have same := joined.others _ other
      simp only [Bool.true_eq_false, false_and, or_false, true_and]
      rw [← joined.none_]
      constructor
      · rintro ⟨key, -, ⟨⟨r, grown, -⟩, -⟩ | ⟨-, kept⟩⟩
        · rw [same] at grown
          exact absurd (congrArg List.length grown) (by simp)
        · rw [joined.gained] at kept
          simpa using kept
      · intro nothing
        exact ⟨_, rfl, .inr ⟨congrArg Table.rows same, by rw [joined.gained, nothing, List.append_nil]⟩⟩
  | false =>
      obtain ⟨r, adds, last⟩ := table db
      have first : (E.failing fails).exec (db, 0) (tableText host cont) =
          (((E.exec db (tableText host cont)).1, 1), (E.exec db (tableText host cont)).2) := by
        simp [Engine.failing, failed]
      have key : newKey (E.failing fails) host cont (db, 0) = wrap 32 r.rowid := by
        rw [newKey, first, ← last]
        rfl
      rw [first, key]
      obtain ⟨rows, joined⟩ := execAll_joined fails (wrap 32 r.rowid) 0
        (fun user member => part user member _) (E.exec db (tableText host cont)).1 1
      have grown := (congrArg Table.rows (joined.others _ other)).trans (congrArg Table.rows adds.2.1)
      have gained := joined.gained
      rw [adds.2.2 _ other.symm] at gained
      simp only [Bool.false_eq_true, false_and, false_or, true_and]
      rw [last, ← joined.full, ← wrap32_eq_iff]
      constructor
      · rintro ⟨key, is, ⟨⟨r', new, rowid⟩, rows', more, full, -⟩ | ⟨kept, -⟩⟩
        · cases is
          have same := List.append_cancel_left (new.symm.trans grown)
          have all := List.append_cancel_left (more.symm.trans gained)
          cases same
          cases all
          exact ⟨full, rowid.symm⟩
        · have longer := congrArg List.length (kept.symm.trans grown)
          simp at longer
      · rintro ⟨full, fits⟩
        refine ⟨_, rfl, .inl ⟨⟨r, grown, fits.symm⟩, rows, gained, full, fun i user r' is row => ?_⟩⟩
        simpa using joined.made full i user r' is row

/-- Ann's table with herself and Bob. -/
def annTable : List Str := [str "ann", str "bob"]

theorem annTable_plain : ∀ user ∈ annTable, 34 ∉ user ∧ 0 ∉ user := by decide

theorem tableText_takes {numeric default : Str → Value} {host : Str} (cont : List Str) (plain : 34 ∉ host)
    (nulFree : 0 ∉ host) : (Memory.engine numeric default).Takes Memory.store (tableText host cont) (str "chatTable") := by
  have read : readStatement (insertText .table (.string host) (.int (wrap 32 cont.length)) []) = _ :=
    readStatement_insertText (by simpa [Arg.Plain] using plain) (by simpa [Arg.NulFree] using nulFree)
  rw [insertText_nil] at read
  exact Memory.engine_takes read

theorem participateText_takes {numeric default : Str → Value} {user : Str} (key index : Int)
    (plain : 34 ∉ user) (nulFree : 0 ∉ user) : (Memory.engine numeric default).Takes Memory.store
      (insertText .participate (.string user) (.int key) [.int index]) (str "part") :=
  Memory.engine_takes (readStatement_insertText (by simpa [Arg.Plain] using plain)
    (by simpa [Arg.NulFree] using nulFree))

/-- A server without a row. -/
def noRows : Memory := ⟨tables [], 0⟩

theorem createTable_allOrNothing_ann :
    AllOrNothing memoryServer.engine Memory.store noRows.store annTable
        ((Qr.createTable (str "ann") annTable).run (memoryServer.engine.failing fun _ => false) (noRows, 0)) ↔
      (∀ n ≤ annTable.length, false = true) ∨ (∀ n ≤ annTable.length, false = false) ∧
        InRange 32 (memoryServer.engine.lastInsertRowid
          (memoryServer.engine.exec noRows (tableText (str "ann") annTable)).1) :=
  createTable_allOrNothing_iff (tableText_takes annTable (by decide) (by decide))
    (fun user member key index => participateText_takes key index (annTable_plain user member).1
      (annTable_plain user member).2) noRows fun _ => false

/-- The first statement fails, and the participants join the table of the key 0. -/
theorem participants_without_table :
    ¬ ∀ (host : Str) (cont : List Str) (db : Memory) (fails : Nat → Bool),
      AllOrNothing memoryServer.engine Memory.store db.store cont
        ((Qr.createTable host cont).run (memoryServer.engine.failing fails) (db, 0)) := by
  intro either
  have joined : let after := ((Qr.createTable (str "ann") annTable).run
      (memoryServer.engine.failing fun n => n = 0) (noRows, 0)).db.1.store
      (after (str "chatTable")).rows = [] ∧ (after (str "part")).rows.length = 2 := by
    decide +kernel
  obtain ⟨key, -, ⟨⟨r, new, -⟩, -⟩ | ⟨-, kept⟩⟩ := either (str "ann") annTable noRows fun n => n = 0
  · rw [joined.1] at new
    simp at new
  · have none_ := congrArg List.length kept
    rw [joined.2] at none_
    cases none_

end NineProject
