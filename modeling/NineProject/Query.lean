import NineProject.Hqery
import NineProject.PBuffer
import NineProject.Packets
import NineProject.Sql.Memory

/-! # Queries

The functions of `Qr`, each a program over the connection. A callback is a fold
over the rows of its statement; what it throws ends the program. Results come as
C strings: a NULL is a null pointer, and a text ends at its first zero byte.
-/

namespace NineProject

open Bytes Sql

/-- What the queries use of other libraries. -/
structure External (σ : Type) where
  engine : Engine σ
  /-- `ptime(time_from_string(s))`, the eight bytes of the result; `none` where it throws. -/
  timeFromString : Str → Option (List Byte)
  /-- The bytes in memory behind the terminating zero of a result text. -/
  behind : Str → List Byte

/-- A `std::string` made of `argv[i]`. -/
def argText (row : ResultRow) (i : Nat) : Except Fault Str :=
  match (row.argv[i]?).join with
  | some t => .ok (cString t)
  | none => .error .wildPointer

theorem argText_eq {row : ResultRow} {i : Nat} {t : Str} (h : row.argv[i]? = some (some t)) :
    argText row i = .ok (cString t) := by
  simp [argText, h]

/-- `argv[i]` is there and no null pointer. -/
def Shows (row : ResultRow) (i : Nat) : Prop := (row.argv[i]?).join.isSome

instance (row : ResultRow) (i : Nat) : Decidable (Shows row i) := inferInstanceAs (Decidable (_ = true))

/-- The C string at `argv[i]`. -/
def shown (row : ResultRow) (i : Nat) : Str := cString ((row.argv[i]?).join.getD [])

theorem argText_ok {row : ResultRow} {i : Nat} {t : Str} :
    argText row i = .ok t ↔ Shows row i ∧ t = shown row i := by
  unfold argText Shows shown
  cases (row.argv[i]?).join <;> simp [eq_comm]

theorem argText_of_shows {row : ResultRow} {i : Nat} (shows_ : Shows row i) : argText row i = .ok (shown row i) :=
  argText_ok.mpr ⟨shows_, rfl⟩

/-- `stoi(argv[i])`: what it throws tells a number no `int` holds from no number. -/
def argInt (row : ResultRow) (i : Nat) : Except Fault Int :=
  (argText row i).bind fun t =>
    match Decimal.stoi t with
    | some n => .ok n
    | none => .error (.thrown (if Decimal.Numeric t then .outOfRange else .invalidArgument))

/-- `argv[i]` is the notation of an `int`, whatever stands behind its digits. -/
def ShowsInt (row : ResultRow) (i : Nat) : Prop := Shows row i ∧ (Decimal.stoi (shown row i)).isSome

instance (row : ResultRow) (i : Nat) : Decidable (ShowsInt row i) := inferInstanceAs (Decidable (_ ∧ _))

theorem argInt_ok {row : ResultRow} {i : Nat} {n : Int} :
    argInt row i = .ok n ↔ Shows row i ∧ Decimal.stoi (shown row i) = some n := by
  unfold argInt
  by_cases shows_ : Shows row i
  · rw [argText_of_shows shows_]
    cases number : Decimal.stoi (shown row i) <;> simp [Except.bind, number, shows_]
  · simp only [shows_, false_and, iff_false]
    intro read
    obtain ⟨t, text, -⟩ := bind_eq_ok.mp read
    exact shows_ (argText_ok.mp text).1

theorem argInt_ends {row : ResultRow} {i : Nat} : (∃ n, argInt row i = .ok n) ↔ ShowsInt row i := by
  simp only [argInt_ok, exists_and_left, ShowsInt, Option.isSome_iff_exists]

/-- The bytes at `argv[i]`, whatever stands behind a text that is shorter. -/
def argBytes (behind : Str → List Byte) (row : ResultRow) (i n : Nat) : Except Fault (List Byte) :=
  (argText row i).map fun t => (t ++ 0 :: behind t).take n

theorem argBytes_ok {behind : Str → List Byte} {row : ResultRow} {i n : Nat} {b : List Byte} :
    argBytes behind row i n = .ok b ↔ Shows row i ∧ b = (shown row i ++ 0 :: behind (shown row i)).take n := by
  unfold argBytes
  by_cases shows_ : Shows row i
  · simp [argText_of_shows shows_, Except.map, shows_, eq_comm]
  · simp only [shows_, false_and, iff_false]
    cases text : argText row i with
    | error e => simp [Except.map]
    | ok t => exact absurd (argText_ok.mp text).1 shows_

/-- A callback run over all rows. -/
def eachRow {α : Type} (callback : α → ResultRow → Except Fault α) (init : α) :
    List ResultRow → Except Fault α
  | [] => .ok init
  | row :: rest => (callback init row).bind fun a => eachRow callback a rest

/-- A callback that needs nothing but a row comes to the end of the rows when it can take each. -/
theorem eachRow_ends_iff {α : Type} {callback : α → ResultRow → Except Fault α} {Takes : ResultRow → Prop}
    (takes : ∀ a row, (∃ b, callback a row = .ok b) ↔ Takes row) {init : α} {rows : List ResultRow} :
    (∃ b, eachRow callback init rows = .ok b) ↔ ∀ row ∈ rows, Takes row := by
  induction rows generalizing init with
  | nil => simp [eachRow]
  | cons row rest ih =>
      rw [List.forall_mem_cons, ← takes init row]
      constructor
      · rintro ⟨b, ran⟩
        obtain ⟨mid, here, others⟩ := bind_eq_ok.mp ran
        exact ⟨⟨mid, here⟩, ih.mp ⟨b, others⟩⟩
      · rintro ⟨⟨mid, here⟩, others⟩
        obtain ⟨b, ran⟩ := ih.mpr others
        exact ⟨b, bind_eq_ok.mpr ⟨mid, here, ran⟩⟩

/-- A query is a program that may be stopped. -/
abbrev Query (α : Type) := Program Fault α

def Query.lift {α : Type} : Except Fault α → Query α
  | .ok a => .done a
  | .error e => .fail e

/-- The query ends with a value on this database. -/
def Query.Ends {σ α : Type} (E : Engine σ) (q : Query α) (db : σ) : Prop :=
  ∃ a, (q.run E db).result = .ok a

instance {σ α : Type} (E : Engine σ) (q : Query α) (db : σ) : Decidable (q.Ends E db) :=
  match ends : (q.run E db).result with
  | .ok a => .isTrue ⟨a, ends⟩
  | .error _ => .isFalse fun ⟨a, is⟩ => by rw [ends] at is; cases is

/-- One statement whose rows a callback folds up. -/
def query {α : Type} (text : Str) (callback : α → ResultRow → Except Fault α) (init : α) : Query α := do
  let rows ← Program.statement text
  Query.lift (eachRow callback init rows)

section
variable {σ α β : Type} (E : Engine σ)

@[simp] theorem lift_run (r : Except Fault α) (db : σ) :
    (Query.lift r).run E db = ⟨r, db, []⟩ := by
  cases r <;> rfl

theorem lift_reads {r : Except Fault α} {db : σ} :
    Program.Reads E db (Query.lift r) fun a => r = .ok a := by
  cases r with
  | ok a => exact .pure rfl
  | error e => exact .fail

theorem query_run (text : Str) (callback : α → ResultRow → Except Fault α) (init : α) (db : σ) :
    (query text callback init).run E db =
      ⟨eachRow callback init (E.exec db text).2, (E.exec db text).1, [text]⟩ := by
  simp [query, Program.run_bind]

end

/-- What a fetch leaves in the buffer it was given, and the cursor it hands back. -/
structure Fetched where
  buf : PBuffer
  count : Int
  lastCheck : Int
  /-- The rows behind the entries, which the source does not keep. -/
  rows : List ResultRow
  deriving DecidableEq, Repr

namespace Qr

/-! ## Passwords and cursors -/

def checkUserPassword (id pw : Str) : Query Bool := do
  let wpw ← query (selectQuery .user (0, .string id) 2 1) (fun _ row => argText row 0) []
  pure (pw == wpw)

/-- One row of the check list: each column behind the first goes to its own position. -/
def setCheckList (list : Vector Int 10) (row : ResultRow) : Except Fault (Vector Int 10) :=
  ((List.range row.argv.length).drop 1).foldlM (fun list i =>
    (argInt row i).bind fun n =>
      if i < 10 then .ok (list.setIfInBounds i n) else .error (.thrown .outOfRange)) list

def getCheckList (user : Str) : Query (Vector Int 10) :=
  query (selectQuery .checkList (0, .string user) Compare.equal SelectTarget.all) setCheckList
    (Vector.replicate 10 0)

/-! ## Insertions -/

def insertInvite (target sender : Str) (tableKey : Int) : Query Unit := do
  let _ ← Program.statement
    (insertQueryWithPair3 .invite (0, .string target) (1, .int tableKey) (2, .string sender))

def insertConnection (sender target : Str) : Query Int := do
  let _ ← Program.statement (insertQueryWithPairStr .connectionRequest (0, sender) (1, target))
  pure 0

def insertMessage (rq : MsReq) (text : Str) : Query Int := do
  let _ ← Program.statement
    (insertQueryWithPair4 .message (0, .int rq.tableKey) (1, .int rq.sender) (2, .string text)
      (4, .int rq.uncheck))
  let rowId ← Program.rowid
  pure (wrap 32 rowId)

/-- The statement for one participant; `insert` throws where there is no parenthesis. -/
def participateText (user : Str) (tableKey index : Int) : Except Fault Str :=
  match addConditionToInsertQuery (insertQuery .participate (.string user) (.int tableKey))
      (.int index) with
  | some text => .ok text
  | none => .error (.thrown .outOfRange)

def addParticipants (rowId : Int) : Int → List Str → Query Unit
  | _, [] => pure ()
  | index, user :: rest => do
      let text ← Query.lift (participateText user rowId index)
      let _ ← Program.statement text
      addParticipants rowId (index + 1) rest

def createTable (host : Str) (cont : List Str) : Query Int := do
  let _ ← Program.statement (insertQuery .table (.string host) (.int (wrap 32 cont.length)))
  let rowId ← Program.rowid
  let rowId := wrap 32 rowId
  addParticipants rowId 0 cont
  pure rowId

def insertParticipation (uid : Str) (tableKey index : Int) : Query Int := do
  let text ← Query.lift
    (match addConditionToInsertQuery (insertQuery .participate (.int tableKey) (.string uid))
        (.int index) with
      | some text => .ok text
      | none => .error (.thrown .outOfRange))
  let _ ← Program.statement text
  let rowId ← Program.rowid
  pure (wrap 32 rowId)

/-! ## Fetches -/

/-- The two copies every callback of a fetch ends with. -/
def appendEntry (got : PBuffer × Int) (record text : List Byte) : Except Fault (PBuffer × Int) := do
  let b ← got.1.allocateInside record
  let b ← b.allocateInside text
  pure (b, got.2 + 1)

section
variable {σ : Type} (lib : External σ)

/-- The record and the text of a message; both the key and the text come from the
    first column. -/
def messageParts (row : ResultRow) : Except Fault (MsOut × Str) := do
  let text ← argText row 0
  let _sender ← argText row 1
  let tableKey ← argInt row 0
  let textLenth := wrap 16 text.length
  let stamp ← argBytes lib.behind row 3 20
  match lib.timeFromString stamp with
  | none => .error (.thrown .timeNotParsed)
  | some time => .ok (⟨tableKey, 0, textLenth, 0, 0, textLenth, time⟩, text)

def messageEntry (got : PBuffer × Int) (row : ResultRow) : Except Fault (PBuffer × Int) := do
  let (r, text) ← messageParts lib row
  appendEntry got r.toBytes text

def getNewMessageInTable (p : PBuffer) (tableKey lastCheck : Int) : Query Fetched := do
  let rows ← Program.statement
    (selectQuery2 .message (0, .int tableKey) (-2, .int lastCheck) 2 0 (-1))
  let (buf, count) ← Query.lift
    (eachRow (messageEntry lib) (p, 0) rows)
  let rowId ← Program.rowid
  pure ⟨buf, count, wrap 32 rowId, rows⟩

/-- The cursor is handed from one table to the next. -/
def getNewMessageInTables (p : PBuffer) (lastCheck : Int) : List Int → Query Fetched
  | [] => pure ⟨p, 0, lastCheck, []⟩
  | tableKey :: rest => do
      let here ← getNewMessageInTable lib p tableKey lastCheck
      let more ← getNewMessageInTables here.buf here.lastCheck rest
      pure ⟨more.buf, here.count + more.count, more.lastCheck, here.rows ++ more.rows⟩

def getTable (user : Str) : Query (List Int) :=
  query (selectQuery .participate (1, .string user) 2 0)
    (fun keyList row => (argInt row 0).map fun n => keyList ++ [n]) []

def getNewMessage (p : PBuffer) (user : Str) (lastCheck : Int) : Query Fetched := do
  let list ← getTable user
  getNewMessageInTables lib p lastCheck list

def inviteEntry (got : PBuffer × Int) (row : ResultRow) : Except Fault (PBuffer × Int) := do
  let sender ← argText row 2
  let tableKey ← argInt row 1
  let time ← argBytes lib.behind row 3 20
  let r : StrtIvtResponse := ⟨tableKey, wrap 32 sender.length, time⟩
  appendEntry got r.toBytes sender

def getNewIvtReq (user : Str) (pbuf : PBuffer) : Query Fetched := do
  let rows ← Program.statement
    (selectQuery .invite (0, .string user) Compare.equal SelectTarget.all)
  let (buf, count) ← Query.lift (eachRow (inviteEntry lib) (pbuf, 0) rows)
  let rowId ← Program.rowid
  pure ⟨buf, count, wrap 32 rowId, rows⟩

/-- The twenty bytes of the time go to the last eight of the sixteen of the record, which
    is on the stack: the copy leaves it in every call. -/
def connectionEntry (got : PBuffer × Int) (row : ResultRow) : Except Fault (PBuffer × Int) := do
  let sender ← argText row 0
  let time ← argBytes lib.behind row 2 20
  if ConcResponse.timeAt + 20 ≤ ConcResponse.size then
    let r : ConcResponse := ⟨wrap 32 sender.length, 0, time⟩
    appendEntry got r.toBytes sender
  else .error .overrun

def getNewConnectionReq (user : Str) (pbuf : PBuffer) (lastCheck : Int) : Query Fetched := do
  let rows ← Program.statement
    (selectQuery2 .connectionRequest (1, .string user) (-2, .int lastCheck) Compare.equal
      Compare.equalAndHigher SelectTarget.all)
  let (buf, count) ← Query.lift (eachRow (connectionEntry lib) (pbuf, 0) rows)
  let rowId ← Program.rowid
  pure ⟨buf, count, wrap 32 rowId, rows⟩

end

/-! ## Lists of users -/

def pushText (list : List Str) (row : ResultRow) : Except Fault (List Str) :=
  (argText row 0).map fun s => list ++ [s]

def getDiningMembers (tableKey : Int) : Query (List Str) :=
  query (selectQuery .participate (0, .int tableKey) Compare.equal 1) pushText []

/-- The friends, and the rows of both statements. -/
def getFriendList (user : Str) : Query (List Str × List ResultRow) := do
  let rows ← Program.statement (selectQuery .userPair (0, .string user) Compare.equal 1)
  let friends ← Query.lift (eachRow pushText [] rows)
  let rows1 ← Program.statement (selectQuery .userPair (1, .string user) Compare.equal 0)
  let friends ← Query.lift (eachRow pushText friends rows1)
  pure (friends, rows ++ rows1)

/-! ## What a fetch comes to -/

/-- One statement whose rows become entries of a buffer. -/
def fetch (text : Str) (entry : PBuffer × Int → ResultRow → Except Fault (PBuffer × Int))
    (p : PBuffer) : Query Fetched := do
  let rows ← Program.statement text
  let (buf, count) ← Query.lift (eachRow entry (p, 0) rows)
  let rowId ← Program.rowid
  pure ⟨buf, count, wrap 32 rowId, rows⟩

section
variable {σ : Type} {lib : External σ} {E : Engine σ} {db : σ} {p : PBuffer}

theorem getNewMessageInTable_fetch (tableKey lastCheck : Int) :
    getNewMessageInTable lib p tableKey lastCheck =
      fetch (selectQuery2 .message (0, .int tableKey) (-2, .int lastCheck) 2 0 (-1))
        (messageEntry lib) p := rfl

theorem getNewIvtReq_fetch (user : Str) : getNewIvtReq lib user p =
    fetch (selectQuery .invite (0, .string user) Compare.equal SelectTarget.all)
      (inviteEntry lib) p := rfl

theorem getNewConnectionReq_fetch (user : Str) (lastCheck : Int) :
    getNewConnectionReq lib user p lastCheck =
      fetch (selectQuery2 .connectionRequest (1, .string user) (-2, .int lastCheck) Compare.equal
        Compare.equalAndHigher SelectTarget.all) (connectionEntry lib) p := rfl

/-- No request gets as far as the buffer. -/
theorem connectionEntry_ne_ok {got got' : PBuffer × Int} {row : ResultRow} :
    connectionEntry lib got row ≠ .ok got' := by
  intro made
  obtain ⟨sender, -, rest⟩ := bind_eq_ok.mp made
  obtain ⟨time, -, rest⟩ := bind_eq_ok.mp rest
  rw [if_neg (by decide)] at rest
  cases rest

variable {text : Str} {entry : PBuffer × Int → ResultRow → Except Fault (PBuffer × Int)}

theorem fetch_run : (fetch text entry p).run E db =
    ⟨(eachRow entry (p, 0) (E.exec db text).2).map fun got =>
        ⟨got.1, got.2, wrap 32 (E.lastInsertRowid (E.exec db text).1), (E.exec db text).2⟩,
      (E.exec db text).1, [text]⟩ := by
  simp only [fetch, Program.run_bind, Program.run_statement, lift_run]
  cases eachRow entry (p, 0) (E.exec db text).2 <;> rfl

@[simp] theorem fetch_db : ((fetch text entry p).run E db).db = (E.exec db text).1 := by rw [fetch_run]

theorem fetch_eq_ok {f : Fetched} : ((fetch text entry p).run E db).result = .ok f ↔
    eachRow entry (p, 0) (E.exec db text).2 = .ok (f.buf, f.count) ∧
      f.lastCheck = wrap 32 (E.lastInsertRowid (E.exec db text).1) ∧ f.rows = (E.exec db text).2 := by
  rw [fetch_run]
  cases f with
  | mk buf count lastCheck rows =>
      cases eachRow entry (p, 0) (E.exec db text).2 with
      | error e => simp [Except.map]
      | ok got => simp [Except.map, Prod.ext_iff, eq_comm, and_assoc]

end

end Qr

/-- What every call of a callback keeps is kept over all rows. -/
theorem eachRow_kept {α : Type} {P : α → Prop} {callback : α → ResultRow → Except Fault α}
    (kept : ∀ a row b, P a → callback a row = .ok b → P b) {a b : α} {rows : List ResultRow}
    (start : P a) (ran : eachRow callback a rows = .ok b) : P b := by
  induction rows generalizing a with
  | nil =>
      cases ran
      exact start
  | cons row rest ih =>
      simp only [eachRow] at ran
      cases here : callback a row with
      | error e =>
          rw [here] at ran
          cases ran
      | ok mid =>
          rw [here] at ran
          exact ih (kept a row mid start here) ran

/-! ## A server with its tables in memory -/

/-- The columns of `ms`, in the order of `MsDsc`. -/
def msColumns : List Column :=
  [⟨str "tableKey", .numeric⟩, ⟨str "sender", .text⟩, ⟨str "message", .text⟩,
    ⟨str "time", .numeric⟩, ⟨str "chk", .numeric⟩]

/-- The tables of `dbt.db` with these rows, where they have any. -/
def tables (rows : List (Str × List Row)) : Store := fun name =>
  let columns := [
    (str "user", [⟨str "id", .text⟩, ⟨str "pw", .text⟩]),
    (str "checkList", [⟨str "user", .text⟩, ⟨str "messageArr", .numeric⟩,
      ⟨str "tableIvt", .numeric⟩, ⟨str "connectionReq", .numeric⟩]),
    (str "part", [⟨str "tableKey", .numeric⟩, ⟨str "user", .text⟩, ⟨str "idx", .numeric⟩]),
    (str "ms", msColumns),
    (str "invite", [⟨str "target", .text⟩, ⟨str "tableKey", .numeric⟩, ⟨str "sender", .text⟩,
      ⟨str "time", .numeric⟩]),
    (str "connectionRequest", [⟨str "sender", .text⟩, ⟨str "receiver", .text⟩,
      ⟨str "time", .numeric⟩]),
    (str "chatTable", [⟨str "host", .text⟩, ⟨str "participations", .numeric⟩]),
    (str "userPair", [⟨str "user0", .text⟩, ⟨str "user1", .text⟩])]
  ⟨(columns.lookup name).getD [], (rows.lookup name).getD []⟩

/-- A time as the database may hold it. -/
def someTime : Str := str "2016-01-01 00:00:00.0"

/-- Rows get `someTime` for their time, which is read as its microseconds. -/
def memoryServer : External Memory :=
  ⟨Memory.engine .text fun _ => .text someTime,
    fun s => if s = someTime.take 20 then some (ofInt 8 (2457389 * 86400000000)) else none,
    fun _ => []⟩

end NineProject
