import NineProject.Readers
import NineProject.Fidelity
import NineProject.Session.Returns

/-! # Where the stored cursors land

`get_check_list` puts each column behind the first to its own position, so the three
cursors stand at 1, 2 and 3. The handlers look for them at 0, 1 and 2.
-/

namespace NineProject

open Bytes Sql M Effect

/-- The cells of a row of `checkList`. -/
def checkCells (user : Str) (m t r : Int) : List Value := [.text user, .int m, .int t, .int r]

/-- `SELECT *` for a user returns the rows of `checkList` that hold the name, each with its
    columns in the order of `CheckListDsc`. -/
def FindsCursors {σ : Type} (E : Engine σ) (db : σ) (checkList : Table) (user : Str) : Prop :=
  E.exec db (selectQuery .checkList (0, .string user) Compare.equal SelectTarget.all) =
      (db, (rowsWith checkList 0 user).map resultOf) ∧
    ∀ row ∈ rowsWith checkList 0 user, ∃ m t r, row.cells = checkCells user m t r

/-- The columns of `checkList` in `dbt.db`. -/
def checkListColumns : List Column :=
  [⟨str "user", .text⟩, ⟨str "messageArr", .numeric⟩, ⟨str "tableIvt", .numeric⟩,
    ⟨str "connectionReq", .numeric⟩]

/-- An engine does so for every name that is neither SQL nor a column. -/
theorem findsCursors {σ : Type} {E : Engine σ} {numeric : Str → Value} {view : σ → Store}
    (lawful : E.Lawful numeric view) {db : σ} {user : Str} (plain : 34 ∉ user) (nulFree : 0 ∉ user)
    (noColumn : ¬ (view db (str "checkList")).knows user)
    (columns : (view db (str "checkList")).columns = checkListColumns)
    (shaped : ∀ row ∈ rowsWith (view db (str "checkList")) 0 user, ∃ m t r, row.cells = checkCells user m t r) :
    FindsCursors E db (view db (str "checkList")) user := by
  have place : (view db (str "checkList")).index (str "user") = some 0 := by
    rw [Table.index, columns]
    rfl
  have kind : (view db (str "checkList")).affinity (str "user") = .text := by
    rw [Table.affinity, place, columns]
    rfl
  refine ⟨?_, shaped⟩
  rw [selectText_exec lawful (.inr (show QueryDescriptor.checkList.dsc.HasColumn 0 by decide)) (.inl rfl) rfl
    (by decide) plain, if_neg nulFree]
  exact congrArg (Prod.mk db) (select_text_rows numeric place kind noColumn rfl)

/-- A handler that reads the cursor at this index of the check list gets this number. -/
def World.Cursor {σ : Type} (w : World σ) (i n : Int) : Prop :=
  Returns (checkManagerAt i) w fun got _ => got = n

/-! ## The loader -/

/-- A row whose cursors an `int` can hold, in its three positions. -/
theorem setCheckList_eq_ok {list list' : Vector Int 10} {row : Row} {user : Str} {m t r : Int}
    (cells : row.cells = checkCells user m t r) :
    Qr.setCheckList list (resultOf row) = .ok list' ↔ (InRange 32 m ∧ InRange 32 t ∧ InRange 32 r) ∧
      list' = ((list.setIfInBounds 1 m).setIfInBounds 2 t).setIfInBounds 3 r := by
  have number : ∀ (i : Nat) (n : Int), (checkCells user m t r)[i]? = some (.int n) →
      argInt (resultOf row) i = if InRange 32 n then .ok n else .error (.thrown .outOfRange) := by
    intro i n cell
    have shown : (resultOf row).argv[i]? = some (some (Decimal.ofInt n)) := by
      simp [resultOf, cells, cell, Value.render]
    rw [argInt, argText_eq shown, cString_fixed (Decimal.ofInt_nulFree n)]
    by_cases fits : InRange 32 n <;> simp [Except.bind, Decimal.stoi_ofInt_eq, Decimal.numeric_ofInt, fits]
  have columns : (List.range (resultOf row).argv.length).drop 1 = [1, 2, 3] := by
    rw [resultOf, cells]
    rfl
  simp only [Qr.setCheckList, columns, List.foldlM_cons, List.foldlM_nil, bind_eq_ok, number 1 m rfl,
    number 2 t rfl, number 3 r rfl]
  by_cases one : InRange 32 m <;> by_cases two : InRange 32 t <;> by_cases three : InRange 32 r <;>
    simp [one, two, three, Except.bind, pure, Except.pure, eq_comm]

/-- What the loader leaves: nothing at 0, and the cursors of the last row behind it. -/
def Loaded (rows : List Row) (list : Vector Int 10) : Prop :=
  list[0] = 0 ∧ (rows = [] ∨ ∃ row ∈ rows, ∃ user, row.cells = checkCells user list[1] list[2] list[3])

theorem eachRow_loaded {user : Str} {rows : List Row}
    (shaped : ∀ row ∈ rows, ∃ m t r, row.cells = checkCells user m t r) {init list : Vector Int 10}
    (start : init[0] = 0) (ran : eachRow Qr.setCheckList init (rows.map resultOf) = .ok list) :
    Loaded rows list := by
  induction rows generalizing init with
  | nil =>
      cases ran
      exact ⟨start, .inl rfl⟩
  | cons row rest ih =>
      obtain ⟨m, t, r, cells⟩ := shaped row (by simp)
      obtain ⟨next, first, others⟩ := bind_eq_ok.mp ran
      obtain ⟨-, rfl⟩ := (setCheckList_eq_ok cells).mp first
      obtain ⟨front, from_⟩ := ih (fun row member => shaped row (List.mem_cons_of_mem _ member))
        (by simpa using start) others
      refine ⟨front, .inr ?_⟩
      rcases from_ with rfl | ⟨row', member, is⟩
      · cases others
        exact ⟨row, by simp, user, by simpa using cells⟩
      · exact ⟨row', List.mem_cons_of_mem _ member, is⟩

/-- Rows of zeros leave zeros. -/
theorem eachRow_zeros {user : Str} {rows : List Row} (zeros : ∀ row ∈ rows, row.cells = checkCells user 0 0 0) :
    eachRow Qr.setCheckList (Vector.replicate 10 0) (rows.map resultOf) = .ok (Vector.replicate 10 0) := by
  induction rows with
  | nil => rfl
  | cons row rest ih =>
      have first : Qr.setCheckList (Vector.replicate 10 0) (resultOf row) = .ok (Vector.replicate 10 0) :=
        (setCheckList_eq_ok (zeros row (by simp))).mpr ⟨by decide, by decide⟩
      rw [List.map_cons, eachRow, first]
      exact ih fun row member => zeros row (List.mem_cons_of_mem _ member)

section
variable {σ : Type} {lib : External σ} {w : World σ} {user : Str} {checkList : Table}

theorem getCheckList_result (finds : FindsCursors lib.engine w.db checkList user) :
    ((Qr.getCheckList user).run lib.engine w.db).result =
      eachRow Qr.setCheckList (Vector.replicate 10 0) ((rowsWith checkList 0 user).map resultOf) := by
  rw [Qr.getCheckList, query_run, finds.1]

theorem cursor_iff {list : Vector Int 10} (manager : w.self.checkManager = some list) {i : Nat} (inside : i < 10)
    {n : Int} : w.Cursor i n ↔ list[i] = n := by
  have there : (0 : Int) ≤ i ∧ (i : Int) < 10 := by omega
  rw [World.Cursor, returns_checkManagerAt manager]
  simp [there, inside]

/-- After `session_init` the handlers find this cursor for each kind. -/
def CursorsLand (lib : External σ) (w : World σ) (err : ErrorCode) (user : Str) (m t r : Int) : Prop :=
  Returns (sessionInit lib err user) w fun _ v => v.Cursor CheckListIndex.messageArr m ∧
    v.Cursor CheckListIndex.tableIvt t ∧ v.Cursor CheckListIndex.connectionReq r

theorem cursorsLand_iff {err : ErrorCode} {m t r : Int} : CursorsLand lib w err user m t r ↔
    ∃ list, ((Qr.getCheckList user).run lib.engine w.db).result = .ok list ∧
      list[0] = m ∧ list[1] = t ∧ list[2] = r := by
  have left : ∀ v : World σ, v.db = w.db →
      ((Returns (do
          let list ← runQuery lib .getCheckList (Qr.getCheckList user)
          setSelf fun s => { s with checkManager := some list, userName := user }
          modify fun w => w.login user) v fun _ v =>
        v.Cursor CheckListIndex.messageArr m ∧ v.Cursor CheckListIndex.tableIvt t ∧
          v.Cursor CheckListIndex.connectionReq r) ↔
        ∃ list, ((Qr.getCheckList user).run lib.engine w.db).result = .ok list ∧
          list[0] = m ∧ list[1] = t ∧ list[2] = r) := fun v same => by
    simp only [returns_bind, returns_runQuery, returns_setSelf, returns_modify, same]
    refine exists_congr fun list => and_congr_right fun _ => ?_
    exact and_congr (cursor_iff rfl (by decide))
      (and_congr (cursor_iff rfl (by decide)) (cursor_iff rfl (by decide)))
  rw [CursorsLand, sessionInit, returns_bind, returns_when]
  split
  · rw [errorHandle, returns_ite, returns_setSelf, returns_pure]
    split <;> exact left _ rfl
  · exact left w rfl

/-- The cursors stored for a user land where they are used exactly when all of them are 0. -/
theorem cursors_land_iff (finds : FindsCursors lib.engine w.db checkList user) (err : ErrorCode) :
    (∀ row ∈ rowsWith checkList 0 user, ∀ m t r, row.cells = checkCells user m t r →
      CursorsLand lib w err user m t r) ↔
    ∀ row ∈ rowsWith checkList 0 user, row.cells = checkCells user 0 0 0 := by
  have same : ∀ {m t r m' t' r' : Int} {u : Str}, checkCells user m t r = checkCells u m' t' r' →
      m = m' ∧ t = t' ∧ r = r' := fun is => by simp_all [checkCells]
  simp only [cursorsLand_iff, getCheckList_result finds]
  constructor
  · intro land row member
    obtain ⟨m, t, r, cells⟩ := finds.2 row member
    obtain ⟨list, ran, rfl, rfl, rfl⟩ := land row member m t r cells
    obtain ⟨front, others⟩ := eachRow_loaded finds.2 (by rfl) ran
    -- the row whose cursors the loader kept finds them one place too far
    obtain ⟨kept, member', u, cells'⟩ := others.resolve_left fun none_ => by simp [none_] at member
    obtain ⟨m', t', r', shape⟩ := finds.2 kept member'
    obtain ⟨rfl, rfl, rfl⟩ := same (shape.symm.trans cells')
    obtain ⟨list', ran', first, second, -⟩ := land kept member' _ _ _ shape
    obtain rfl : list' = list := Except.ok.inj (ran'.symm.trans ran)
    rw [cells, ← second, ← first, front]
  · intro zeros row member m t r cells
    obtain ⟨rfl, rfl, rfl⟩ := same (cells.symm.trans (zeros row member))
    exact ⟨_, eachRow_zeros zeros, rfl, rfl, rfl⟩

end

/-- Ann's session while she logs in, with these cursors stored for her. -/
def annReturns (m t r : Int) : World Memory :=
  ⟨client [], ⟨tables [(str "checkList", [⟨1, checkCells (str "ann") m t r⟩])], 0⟩, .empty, [], 0, 0, 0, [], none⟩

theorem annReturns_finds (m t r : Int) : FindsCursors memoryServer.engine (annReturns m t r).db
    ((annReturns m t r).db.store (str "checkList")) (str "ann") :=
  findsCursors (Memory.engine_lawful .text _) (by decide) (by decide)
    (show ¬ (Table.mk checkListColumns []).knows (str "ann") by decide) rfl fun row member => by
      obtain ⟨there, -⟩ := mem_rowsWith.mp member
      obtain rfl : row = ⟨1, checkCells (str "ann") m t r⟩ := List.mem_singleton.mp there
      exact ⟨m, t, r, rfl⟩

theorem cursors_land_ann :
    (∀ row ∈ rowsWith ((annReturns 0 0 0).db.store (str "checkList")) 0 (str "ann"), ∀ m t r,
      row.cells = checkCells (str "ann") m t r →
        CursorsLand memoryServer (annReturns 0 0 0) none (str "ann") m t r) ↔
      ∀ row ∈ rowsWith ((annReturns 0 0 0).db.store (str "checkList")) 0 (str "ann"),
        row.cells = checkCells (str "ann") 0 0 0 :=
  cursors_land_iff (annReturns_finds 0 0 0) none

/-- The handlers find 0, 5 and 6 where 5, 6 and 7 are stored. -/
theorem cursors_astray :
    ¬ ∀ (lib : External Memory) (w : World Memory) (checkList : Table) (user : Str) (err : ErrorCode),
      FindsCursors lib.engine w.db checkList user → ∀ row ∈ rowsWith checkList 0 user, ∀ m t r,
        row.cells = checkCells user m t r → CursorsLand lib w err user m t r := by
  intro land
  have landed := land memoryServer (annReturns 5 6 7) _ (str "ann") none (annReturns_finds 5 6 7)
    ⟨1, checkCells (str "ann") 5 6 7⟩ (by decide) 5 6 7 rfl
  obtain ⟨list, ran, first, -⟩ := cursorsLand_iff.mp landed
  have loaded : ((Qr.getCheckList (str "ann")).run memoryServer.engine (annReturns 5 6 7).db).result =
      .ok #v[0, 5, 6, 7, 0, 0, 0, 0, 0, 0] := by rfl
  obtain rfl : _ = list := Except.ok.inj (loaded.symm.trans ran)
  exact absurd first (by decide)

end NineProject
