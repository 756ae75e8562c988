import NineProject.Disclosure

/-! # Where the rows come from

The tables only grow, and every row they gain was inserted by a statement in the record
of a session, for the user whom that session spoke for. So a request to connect was made
by the user it names, and an invitation that was made over the server is for nobody.
-/

namespace NineProject

open Bytes Sql Relation

section
variable {σ : Type} {lib : External σ} {numeric : Str → Value} {view : σ → Store}

/-! ## Rows of one session -/

/-- The insertion gives the row its cells, in a table with these columns. -/
def Fills (numeric : Str → Value) (columns : List Column) (i : Insert) (r : Row) : Prop :=
  ∃ default, ∃ t : Table, t.columns = columns ∧ r.cells = i.cells numeric default t

/-- A row that appears with a statement is the one that it inserts. -/
theorem exec_row (lawful : lib.engine.Lawful numeric view) {text : Str} {s : Statement} (faithful : Faithful text s)
    {table : Str} {r : Row} {db : σ} (there : r ∈ (view (lib.engine.exec db text).1 table).rows) :
    r ∈ (view db table).rows ∨ ∃ i, s = .insert i ∧ i.table = table ∧ Fills numeric (view db table).columns i r := by
  cases s with
  | select s =>
      rw [faithful.shows lawful] at there
      exact .inl there
  | insert i =>
      rcases Means.outcome (i := i) faithful lawful db with same | ⟨default, added, cells, -, grown, others⟩
      · exact .inl (same ▸ there)
      · by_cases here : table = i.table
        · subst here
          rw [grown] at there
          refine (List.mem_append.mp there).imp id fun new => ?_
          obtain rfl := List.mem_singleton.mp new
          exact ⟨i, rfl, rfl, default, view db i.table, rfl, cells⟩
        · exact .inl (others table here ▸ there)

/-- A row that appears while statements run is inserted by one of them. -/
theorem execAll_row (lawful : lib.engine.Lawful numeric view) {T : Str → Statement → Prop} {table : Str} {r : Row}
    {list : List Str} {db : σ} (means : ∀ text ∈ list, ∃ s, T text s ∧ Faithful text s)
    (there : r ∈ (view (execAll lib.engine db list) table).rows) :
    r ∈ (view db table).rows ∨ ∃ text ∈ list, ∃ i, T text (.insert i) ∧ i.table = table ∧
      Fills numeric (view db table).columns i r := by
  induction list generalizing db with
  | nil => exact .inl there
  | cons text rest ih =>
      obtain ⟨s, meets, faithful⟩ := means text (by simp)
      have grows : Store.Grows (fun _ => True) (view db) (view (lib.engine.exec db text).1) :=
        faithful.grows lawful (by cases s <;> trivial) db
      rcases ih (fun text member => means text (by simp [member])) there with before | ⟨text', member, i, told, at_, fills⟩
      · refine (exec_row lawful faithful before).imp id ?_
        rintro ⟨i, rfl, at_, fills⟩
        exact ⟨text, by simp, i, meets, at_, fills⟩
      · refine .inr ⟨text', by simp [member], i, told, at_, ?_⟩
        rwa [(grows table).1.columns] at fills

/-- The record shows a statement that inserted the row, for the user whom the session
    spoke for. -/
def InsertedBy (numeric : Str → Value) (columns : List Column) (table : Str) (r : Row) (log : List Event) : Prop :=
  ∃ before call text after user i, log = before ++ .exec call text :: after ∧ Account before user ∧
    Says Unquoted user call text (.insert i) ∧ i.table = table ∧ Fills numeric columns i r

theorem InsertedBy.append {columns : List Column} {table : Str} {r : Row} {log : List Event}
    (inserted : InsertedBy numeric columns table r log) (es : List Event) :
    InsertedBy numeric columns table r (log ++ es) := by
  obtain ⟨before, call, text, after, user, i, rfl, shown⟩ := inserted
  exact ⟨before, call, text, after ++ es, user, i, by simp, shown⟩

/-- What a move adds to a table its session has on record. -/
theorem Move.inserted (lawful : lib.engine.Lawful numeric view) {w t : World σ} (move : Move lib Unquoted w t)
    (attributed : Attributed lib Unquoted (fun _ => True) w) {table : Str} {r : Row} (there : r ∈ (view t.db table).rows) :
    r ∈ (view w.db table).rows ∨ InsertedBy numeric (view w.db table).columns table r t.log := by
  obtain ⟨es, made⟩ := move.performs
  have recorded := (attributed.move trivial move).each
  rw [made.db] at there
  let T : Str → Statement → Prop := fun text s => ∃ before call after user,
    t.log = before ++ .exec call text :: after ∧ Account before user ∧ Says Unquoted user call text s
  have means : ∀ text ∈ texts es, ∃ s, T text s ∧ Faithful text s := fun text member => by
    obtain ⟨call, new⟩ := mem_texts.mp member
    obtain ⟨before, after, rfl⟩ := List.append_of_mem new
    have is : t.log = (w.log ++ before) ++ .exec call text :: after := by rw [made.log, List.append_assoc]
    obtain ⟨user, account, sent, s, told⟩ := recorded _ _ _ is
    exact ⟨s, ⟨_, call, after, user, is, account, told⟩, told_faithful told sent.plain⟩
  refine (execAll_row lawful means there).imp id ?_
  rintro ⟨text, -, i, ⟨before, call, after, user, is, account, told⟩, at_, fills⟩
  exact ⟨before, call, text, after, user, i, is, account, told, at_, fills⟩

/-! ## Rows of a server -/

theorem inserting_knows {C : Unset → Prop} (lawful : lib.engine.Lawful numeric view) (table : Str)
    (columns : List Column) : Knows lib Unquoted C (fun s t => Store.Grows InsertedInto (view s.1) (view t.1))
      (fun s => (view s.1 table).columns = columns) (Attributed lib Unquoted fun _ => True) where
  own := fun _ attributed move => attributed.move trivial move
  guarantee := fun _ attributed move => move.grows lawful attributed.sent.plain
  shared := fun known grows => (grows table).1.columns.trans known
  others := fun _ attributed _ => attributed.seeing _
  joins := fun _ _ => .fresh _ _

theorem Pool.Reaches.inserted {C : Unset → Prop} (lawful : lib.engine.Lawful numeric view) {s : σ × NMap}
    {p : Pool σ} (reaches : p.Reaches lib Unquoted C s) {table : Str} {r : Row}
    (there : r ∈ (view p.db table).rows) : r ∈ (view s.1 table).rows ∨
      ∃ w ∈ p.sessions, InsertedBy numeric (view s.1 table).columns table r w.log := by
  have knows := inserting_knows (C := C) lawful table (view s.1 table).columns
  refine knows.rely.evidence (F := fun s => r ∈ (view s.1 table).rows)
    (E := fun w => InsertedBy numeric (view s.1 table).columns table r w.log) ?_ ?_ (.start rfl) reaches there
  · intro u l t m columns attributed move there
    have made := Move.inserted lawful (w := l.seeing u) (t := m.seeing t) move attributed there
    exact columns ▸ made
  · intro u l t m _ _ move inserted
    obtain ⟨es, made⟩ := Move.performs (w := l.seeing u) (t := m.seeing t) move
    have log : m.log = l.log ++ es := made.log
    rw [log]
    exact inserted.append es

variable {db : σ} {memory : Unset} {acts : List (PoolAct σ)} {p : Pool σ}

/-- Every row that a table has gained in a run was inserted by a statement that a session
    ran for the user it spoke for. -/
theorem rows_inserted (lawful : lib.engine.Lawful numeric view)
    (allows : Runs.Each (Pool.next lib) (Pool.Allows Unquoted (fun _ => True)) (Pool.start db memory) acts)
    (ran : Runs.after (Pool.next lib) (Pool.start db memory) acts = some p) :
    ∀ table, ∀ r ∈ (view p.db table).rows, r ∉ (view db table).rows →
      ∃ w ∈ p.sessions, InsertedBy numeric (view db table).columns table r w.log := fun _ _ there new =>
  ((Pool.reaches (C := fun _ => True) trivial allows ran).inserted lawful there).resolve_left new

/-! ### Requests and invitations -/

/-- The record shows that the session asked for a connection of the user it spoke for with
    a receiver, and the row names these two. -/
def RequestedBy (r : Row) (log : List Event) : Prop :=
  ∃ before receiver after sender,
    log = before ++ .exec .insertConnection
      (insertQueryWithPairStr .connectionRequest (0, sender) (1, receiver)) :: after ∧
    Account before sender ∧ r.cells[0]? = some (.text sender) ∧ r.cells[1]? = some (.text receiver)

theorem InsertedBy.requested {r : Row} {log : List Event}
    (inserted : InsertedBy numeric requestColumns (str "connectionRequest") r log) : RequestedBy r log := by
  obtain ⟨before, call, text, after, user, i, is, account, told, at_, default, t, columns, cells⟩ := inserted
  cases told with
  | insertConnection sent =>
      refine ⟨before, _, after, user, is, account, ?_⟩
      rw [cells, Insert.cells, columns]
      exact ⟨rfl, rfl⟩
  | insertMessage _ => exact absurd at_ (show str "ms" ≠ _ by decide)
  | insertInvite => exact absurd at_ (show str "invite" ≠ _ by decide)
  | createTable => exact absurd at_ (show str "chatTable" ≠ _ by decide)
  | participate _ => exact absurd at_ (show str "part" ≠ _ by decide)

/-- An invitation that a session makes is for the empty name. -/
theorem InsertedBy.invited {r : Row} {log : List Event}
    (inserted : InsertedBy numeric inviteColumns (str "invite") r log) : r.cells[0]? = some (.text []) := by
  obtain ⟨before, call, text, after, user, i, is, account, told, at_, default, t, columns, cells⟩ := inserted
  cases told with
  | insertInvite =>
      rw [cells, Insert.cells, columns]
      rfl
  | insertMessage _ => exact absurd at_ (show str "ms" ≠ _ by decide)
  | insertConnection _ => exact absurd at_ (show str "connectionRequest" ≠ _ by decide)
  | createTable => exact absurd at_ (show str "chatTable" ≠ _ by decide)
  | participate _ => exact absurd at_ (show str "part" ≠ _ by decide)

/-- Every request to connect was there from the start or was made by a session that spoke
    for the sender it names. -/
theorem requests_authentic (lawful : lib.engine.Lawful numeric view) (schema : Columns (view db))
    (allows : Runs.Each (Pool.next lib) (Pool.Allows Unquoted (fun _ => True)) (Pool.start db memory) acts)
    (ran : Runs.after (Pool.next lib) (Pool.start db memory) acts = some p) :
    ∀ r ∈ (view p.db (str "connectionRequest")).rows,
      r ∈ (view db (str "connectionRequest")).rows ∨ ∃ w ∈ p.sessions, RequestedBy r w.log := by
  intro r there
  have reaches := Pool.reaches (C := fun _ => True) trivial allows ran
  refine (reaches.inserted lawful there).imp id ?_
  rintro ⟨w, member, inserted⟩
  have columns : (view db (str "connectionRequest")).columns = requestColumns := schema.requests
  exact ⟨w, member, (columns ▸ inserted).requested⟩

/-- Every invitation that a user with a name is shown was there from the start: none that
    is made over the server arrives. -/
theorem invitations_never_arrive (lawful : lib.engine.Lawful numeric view) (schema : Columns (view db))
    (allows : Runs.Each (Pool.next lib) (Pool.Allows Unquoted (fun _ => True)) (Pool.start db memory) acts)
    (ran : Runs.after (Pool.next lib) (Pool.start db memory) acts = some p) :
    ∀ w ∈ p.sessions, ∀ before rows after, w.log = before ++ .reply .getIvt rows :: after →
      ∀ user, Account before user → Unnamed user → user ≠ [] → ∀ row ∈ rows,
        ∃ r ∈ (view db (str "invite")).rows, row = resultOf r ∧ r.cells[0]? = some (.text user) := by
  intro w member before rows after is user account unnamed named row there
  have reaches := Pool.reaches (C := fun _ => True) trivial allows ran
  obtain ⟨user', account', meant⟩ := reaches.meantFor lawful schema member _ _ _ is
  obtain rfl := account.unique account'
  obtain ⟨r, kept, rfl, addressed⟩ := meant unnamed row there
  refine ⟨r, (reaches.inserted lawful kept).resolve_right ?_, rfl, addressed⟩
  rintro ⟨w', -, inserted⟩
  have columns : (view db (str "invite")).columns = inviteColumns := schema.invites
  have nobody := (columns ▸ inserted).invited
  exact named (by simpa [addressed] using nobody)

/-! ### What no session changes -/

theorem getFriendList_run {E : Engine σ} {user : Str} {rows rows1 : List ResultRow} {db : σ}
    (behind : E.exec db (selectQuery .userPair (0, .string user) Compare.equal 1) = (db, rows))
    (before : E.exec db (selectQuery .userPair (1, .string user) Compare.equal 0) = (db, rows1)) :
    ((Qr.getFriendList user).run E db).result = (eachRow Qr.pushText [] rows).bind fun friends =>
      (eachRow Qr.pushText friends rows1).map fun friends => (friends, rows ++ rows1) := by
  simp only [Qr.getFriendList, Program.run_bind, Program.run_statement, lift_run, behind]
  cases eachRow Qr.pushText [] rows with
  | error e => rfl
  | ok friends =>
      simp only [before, Except.bind]
      cases eachRow Qr.pushText friends rows1 <;> rfl

/-- Who can log in, with which cursors, and who is whose friend stay as they are. -/
theorem accounts_fixed (lawful : lib.engine.Lawful numeric view)
    (allows : Runs.Each (Pool.next lib) (Pool.Allows Unquoted (fun _ => True)) (Pool.start db memory) acts)
    (ran : Runs.after (Pool.next lib) (Pool.start db memory) acts = some p) {user : Str} (plain : 34 ∉ user) :
    (∀ pw, ((Qr.checkUserPassword user pw).run lib.engine p.db).result =
        ((Qr.checkUserPassword user pw).run lib.engine db).result) ∧
      ((Qr.getCheckList user).run lib.engine p.db).result = ((Qr.getCheckList user).run lib.engine db).result ∧
      ((Qr.getFriendList user).run lib.engine p.db).result = ((Qr.getFriendList user).run lib.engine db).result := by
  have grows := (Pool.reaches (C := fun _ => True) trivial allows ran).grows lawful
  have same : ∀ {text : Str} {s : Select}, Faithful text (.select s) → ¬ InsertedInto s.table →
      ∃ rows, lib.engine.exec p.db text = (p.db, rows) ∧ lib.engine.exec db text = (db, rows) :=
    fun {text s} faithful fixed => by
      have table := (grows s.table).2 fixed
      refine ⟨_, faithful.shows lawful p.db, ?_⟩
      rw [faithful.shows lawful, Select.shown, Select.shown, Select.rows, Select.rows, table]
  refine ⟨fun pw => ?_, ?_, ?_⟩
  · obtain ⟨rows, now, first⟩ :=
      same (told_faithful (.checkUserPassword plain) plain) (show ¬ InsertedInto (str "user") by decide)
    simp only [Qr.checkUserPassword, Program.run_bind, query_run, now, first]
    cases eachRow (fun _ row => argText row 0) [] rows <;> rfl
  · obtain ⟨rows, now, first⟩ :=
      same (told_faithful (.getCheckList plain) plain) (show ¬ InsertedInto (str "checkList") by decide)
    simp only [Qr.getCheckList, query_run, now, first]
  · obtain ⟨rows, now, first⟩ :=
      same (told_faithful .friendsBehind plain) (show ¬ InsertedInto (str "userPair") by decide)
    obtain ⟨rows1, now1, first1⟩ :=
      same (told_faithful .friendsBefore plain) (show ¬ InsertedInto (str "userPair") by decide)
    rw [getFriendList_run now now1, getFriendList_run first first1]

end

theorem rows_inserted_annAsksBob :
    ∃ p, Runs.after (Pool.next memoryServer) (Pool.start twoUsers zeros) annAsksBob = some p ∧
      ∀ table, ∀ r ∈ (p.db.store table).rows, r ∉ (twoUsers.store table).rows →
        ∃ w ∈ p.sessions, InsertedBy .text (twoUsers.store table).columns table r w.log := by
  obtain ⟨p, ran⟩ := annAsksBob_runs
  exact ⟨p, ran, rows_inserted (Memory.engine_lawful .text _) annAsksBob_allows ran⟩

/-- Ann's request is in the table at the end. -/
theorem requests_authentic_annAsksBob :
    ∃ p, Runs.after (Pool.next memoryServer) (Pool.start twoUsers zeros) annAsksBob = some p ∧
      (p.db.store (str "connectionRequest")).rows ≠ [] ∧
      ∀ r ∈ (p.db.store (str "connectionRequest")).rows,
        r ∈ (twoUsers.store (str "connectionRequest")).rows ∨ ∃ w ∈ p.sessions, RequestedBy r w.log := by
  obtain ⟨p, ran⟩ := Option.isSome_iff_exists.mp (show ((Runs.after (Pool.next memoryServer) (Pool.start twoUsers zeros)
    annAsksBob).filter fun p => !(p.db.store (str "connectionRequest")).rows.isEmpty).isSome by decide +kernel)
  obtain ⟨ran, there⟩ := Option.filter_eq_some_iff.mp ran
  exact ⟨p, ran, by simpa using there, requests_authentic (Memory.engine_lawful .text _) twoUsers_columns annAsksBob_allows ran⟩

theorem accounts_fixed_annAsksBob :
    ∃ p, Runs.after (Pool.next memoryServer) (Pool.start twoUsers zeros) annAsksBob = some p ∧
      (∀ pw, ((Qr.checkUserPassword (str "ann") pw).run memoryServer.engine p.db).result =
          ((Qr.checkUserPassword (str "ann") pw).run memoryServer.engine twoUsers).result) ∧
        ((Qr.getCheckList (str "ann")).run memoryServer.engine p.db).result =
          ((Qr.getCheckList (str "ann")).run memoryServer.engine twoUsers).result ∧
        ((Qr.getFriendList (str "ann")).run memoryServer.engine p.db).result =
          ((Qr.getFriendList (str "ann")).run memoryServer.engine twoUsers).result := by
  obtain ⟨p, ran⟩ := annAsksBob_runs
  exact ⟨p, ran, accounts_fixed (Memory.engine_lawful .text _) annAsksBob_allows ran (by decide)⟩

/-! ## An invitation -/

/-- Ann invites Bob to table 7. -/
def invite (tableKey : Int) (user : Str) : List Byte :=
  request 0 EAction.requestInvite.code ++ ofInt 4 tableKey ++ ofInt 4 user.length ++ user

/-- She does, and Bob, who had an invitation before, looks for invitations. -/
def annCallsBob : List (PoolAct Memory) :=
  let ann := loginOf (str "ann") (str "kiwi") ++ invite 7 (str "bob")
  let bob := loginOf (str "bob") (str "plum") ++ request 1 ECommand.getIvt.code
  [.handleAccept 0 (.ok ⟨true, ann, none, []⟩) zeros, .run 0, .handleAccept 1 (.ok ⟨true, bob, none, []⟩) zeros, .run 0] ++
    List.replicate 6 (.session 0 .first) ++ List.replicate 6 (.session 1 .first)

def bobInvitedBefore : Memory :=
  ⟨tables [(str "user", [⟨1, [.text (str "ann"), .text (str "kiwi")]⟩, ⟨2, [.text (str "bob"), .text (str "plum")]⟩]),
    (str "checkList", [⟨1, [.text (str "ann"), .int 0, .int 0, .int 0]⟩,
      ⟨2, [.text (str "bob"), .int 0, .int 0, .int 0]⟩]),
    (str "invite", [⟨1, [.text (str "bob"), .int 3, .text (str "carl"), .text someTime]⟩])], 2⟩

theorem invitations_never_arrive_bob :
    ∃ p, Runs.after (Pool.next memoryServer) (Pool.start bobInvitedBefore zeros) annCallsBob = some p ∧
      ∀ w ∈ p.sessions, ∀ before rows after, w.log = before ++ .reply .getIvt rows :: after →
        ∀ user, Account before user → Unnamed user → user ≠ [] → ∀ row ∈ rows,
          ∃ r ∈ (bobInvitedBefore.store (str "invite")).rows, row = resultOf r ∧ r.cells[0]? = some (.text user) := by
  obtain ⟨p, ran⟩ := Option.isSome_iff_exists.mp (show (Runs.after (Pool.next memoryServer)
    (Pool.start bobInvitedBefore zeros) annCallsBob).isSome by decide +kernel)
  have schema : Columns bobInvitedBefore.store := ⟨rfl, rfl, rfl, rfl, rfl⟩
  exact ⟨p, ran, invitations_never_arrive (Memory.engine_lawful .text _) schema (by decide +kernel) ran⟩

end NineProject
