import NineProject.Accounts
import NineProject.Handoff
import NineProject.FriendList
import NineProject.Membership

/-! # What the sessions are shown

A reply holds rows of a selection for the user of its session, and as the tables only
grow those rows stay what they were. So nothing in a reply was meant for anybody else,
a later reply repeats an earlier one, and a request in a reply was made by the user it
names.
-/

namespace NineProject

open Bytes Sql Relation

/-! ## The selections behind a reply -/

section
variable (numeric : Str → Value)

/-- The selections whose rows answer a command of a user. -/
inductive Selects (store : Store) (user : Str) : ECommand → Select → Prop
  | getMsg {tableKey c : Int} {seat : ResultRow} (seated : seat ∈ (tablesOf user).rows numeric store)
      (read : argInt seat 0 = .ok tableKey) : Selects store user .getMsg (messagesAfter tableKey c)
  | getIvt : Selects store user .getIvt (invitationsOf user)
  | getConnection {c : Int} : Selects store user .getConnection (requestsOf user c)
  | friendsBehind : Selects store user .getFriendList (friendsBehind user)
  | friendsBefore : Selects store user .getFriendList (friendsBefore user)

/-- The row answers the command of the user. -/
def ShownTo (store : Store) (user : Str) (c : ECommand) (row : ResultRow) : Prop :=
  ∃ s, Selects numeric store user c s ∧ row ∈ s.rows numeric store

variable {numeric}

theorem ShownTo.grows {K : Str → Prop} {a b : Store} {user : Str} {c : ECommand} {row : ResultRow}
    (shown : ShownTo numeric a user c row) (grows : Store.Grows K a b) : ShownTo numeric b user c row := by
  obtain ⟨s, selects, member⟩ := shown
  refine ⟨s, ?_, (grows.select numeric s).subset member⟩
  cases selects with
  | getMsg seated read => exact .getMsg ((grows.select numeric (tablesOf user)).subset seated) read
  | getIvt => exact .getIvt
  | getConnection => exact .getConnection
  | friendsBehind => exact .friendsBehind
  | friendsBefore => exact .friendsBefore

end

/-! ## What the queries return -/

section
variable {σ : Type} {lib : External σ} {numeric : Str → Value} {view : σ → Store} {user : Str} {db : σ}

/-- The statements of a session whose names hold no double quote. -/
theorem told_faithful {call : QrCall} {text : Str} {s : Statement} (told : Says Unquoted user call text s)
    (plain : 34 ∉ user) : Faithful text s := told.faithful (by simp) plain

open Program

theorem statement_reads {E : Engine σ} {text : Str} {rows : List ResultRow} (shows : E.exec db text = (db, rows)) :
    Reads E db (statement text : Query _) (· = rows) := by
  have reads : Reads E db (statement text : Query _) (· = (E.exec db text).2) := .statement (by rw [shows])
  rwa [shows] at reads

theorem fetch_reads {E : Engine σ} {text : Str} {rows : List ResultRow} (shows : E.exec db text = (db, rows))
    (entry : PBuffer × Int → ResultRow → Except Fault (PBuffer × Int)) (p : PBuffer) :
    Reads E db (Qr.fetch text entry p) fun f => f.rows = rows :=
  ⟨by rw [Qr.fetch_db, shows], fun f is => (Qr.fetch_eq_ok.mp is).2.2.trans (by rw [shows])⟩

section
variable (lawful : lib.engine.Lawful numeric view) (plain : 34 ∉ user)
include lawful plain

theorem getNewIvtReq_reads (p : PBuffer) : Reads lib.engine db (Qr.getNewIvtReq lib user p) fun f =>
    f.rows = (invitationsOf user).shown numeric
      (selectQuery .invite (0, .string user) Compare.equal SelectTarget.all) (view db) :=
  fetch_reads ((told_faithful .getNewIvtReq plain).shows lawful db) (Qr.inviteEntry lib) p

theorem getNewConnectionReq_reads (p : PBuffer) (c : Int) :
    Reads lib.engine db (Qr.getNewConnectionReq lib user p c) fun f =>
      f.rows = (requestsOf user c).shown numeric (selectQuery2 .connectionRequest (1, .string user) (-2, .int c)
        Compare.equal Compare.equalAndHigher SelectTarget.all) (view db) :=
  fetch_reads ((told_faithful (.getNewConnectionReq (c := c)) plain).shows lawful db) (Qr.connectionEntry lib) p

theorem getFriendList_reads : Reads lib.engine db (Qr.getFriendList user) fun got =>
    got.2 = (friendsBehind user).shown numeric (selectQuery .userPair (0, .string user) Compare.equal 1) (view db) ++
      (friendsBefore user).shown numeric (selectQuery .userPair (1, .string user) Compare.equal 0) (view db) := by
  have behind := (told_faithful .friendsBehind plain).shows lawful db
  have before := (told_faithful .friendsBefore plain).shows lawful db
  refine .bind (statement_reads behind) fun rows is => .bind (lift_reads _) fun friends _ => ?_
  refine .bind (statement_reads before) fun rows1 is1 => .bind (lift_reads _) fun friends _ => ?_
  exact .pure (by rw [is, is1])

theorem getTable_reads : Reads lib.engine db (Qr.getTable user) fun keys =>
    ∀ key ∈ keys, ∃ seat ∈ (tablesOf user).rows numeric (view db), argInt seat 0 = .ok key := by
  have shows := (told_faithful .getTable plain).shows lawful db
  refine .bind (statement_reads shows) fun rows is => ?_
  refine ⟨by rw [lift_run], fun keys made key listed => ?_⟩
  rw [lift_run] at made
  obtain ⟨list, rfl, all⟩ := eachRow_collect.mp made
  obtain ⟨seat, member, read⟩ := (made_mem all).mp listed
  rw [is] at member
  exact ⟨seat, (tablesOf user).shown_subset _ _ _ member, read⟩

theorem getNewMessage_reads (p : PBuffer) (lastCheck : Int) :
    Reads lib.engine db (Qr.getNewMessage lib p user lastCheck) fun f =>
      ∀ row ∈ f.rows, ShownTo numeric (view db) user .getMsg row := by
  have tables : ∀ keys (p : PBuffer) (c : Int), Reads lib.engine db (Qr.getNewMessageInTables lib p c keys) fun f =>
      ∀ row ∈ f.rows, ∃ key ∈ keys, ∃ c, row ∈ (messagesAfter key c).rows numeric (view db) := by
    intro keys
    induction keys with
    | nil => exact fun p c => .pure (by simp)
    | cons key rest ih =>
        intro p c
        have told : Says Unquoted user .getNewMessage (fetchText key c) (.select (messagesAfter key c)) := .getNewMessage
        refine .bind (fetch_reads ((told_faithful told plain).shows lawful db) _ p) fun f is => ?_
        refine .bind (ih f.buf f.lastCheck) fun more others => .pure fun row member => ?_
        rcases List.mem_append.mp member with first | later
        · rw [is] at first
          exact ⟨key, by simp, c, (messagesAfter key c).shown_subset _ _ _ first⟩
        · obtain ⟨key', there, c', found⟩ := others row later
          exact ⟨key', by simp [there], c', found⟩
  refine .bind (getTable_reads lawful plain) fun keys seats => ?_
  obtain ⟨same, rows⟩ := tables keys p lastCheck
  refine ⟨same, fun f is row member => ?_⟩
  obtain ⟨key, listed, c, found⟩ := rows f is row member
  obtain ⟨seat, seated, read⟩ := seats key listed
  exact ⟨_, .getMsg seated read, found⟩

end

/-- What a program that only reads returns, on the database that it left. -/
theorem reads_left {α : Type} {E : Engine σ} {p : Query α} {Q : σ → α → Prop} (reads : ∀ db, Reads E db p (Q db))
    {before : σ} {a : α} (result : (p.run E before).result = .ok a) (left : (p.run E before).db = db) : Q db a := by
  obtain ⟨same, returns⟩ := reads before
  rw [← left, same]
  exact returns a result

/-- A reply is made of rows that answer its command. -/
theorem FetchedFor.shown (lawful : lib.engine.Lawful numeric view) {self : Session} {c : ECommand}
    {rows : List ResultRow} (fetched : FetchedFor lib self db c rows) (plain : 34 ∉ self.userName) :
    ∀ row ∈ rows, ShownTo numeric (view db) self.userName c row := by
  intro row member
  cases fetched with
  | getMsg _ result left => exact reads_left (fun _ => getNewMessage_reads lawful plain _ _) result left row member
  | getIvt result left =>
      rw [reads_left (fun _ => getNewIvtReq_reads lawful plain _) result left] at member
      exact ⟨_, .getIvt, Select.shown_subset _ _ _ _ member⟩
  | getConnection _ result left =>
      rw [reads_left (fun _ => getNewConnectionReq_reads lawful plain _ _) result left] at member
      exact ⟨_, .getConnection, Select.shown_subset _ _ _ _ member⟩
  | getFriendList result left =>
      rw [reads_left (fun _ => getFriendList_reads lawful plain) result left] at member
      rcases List.mem_append.mp member with behind | before
      · exact ⟨_, .friendsBehind, Select.shown_subset _ _ _ _ behind⟩
      · exact ⟨_, .friendsBefore, Select.shown_subset _ _ _ _ before⟩

/-- The same command of the same user, with the same cursors, on tables that have grown. -/
theorem FetchedFor.again (lawful : lib.engine.Lawful numeric view) {self self' : Session} {db' : σ} {c : ECommand}
    {rows rows' : List ResultRow} (fetched : FetchedFor lib self db c rows) (later : FetchedFor lib self' db' c rows')
    (user : self'.userName = self.userName) (manager : self'.checkManager = self.checkManager)
    (plain : 34 ∉ self.userName) (grows : Store.Grows InsertedInto (view db) (view db')) (other : c ≠ .getMsg) :
    rows <+: rows' := by
  have plain' : 34 ∉ self'.userName := user ▸ plain
  cases later with
  | getMsg _ _ _ => exact absurd rfl other
  | getIvt result' left' =>
      cases fetched with
      | getIvt result left =>
          rw [reads_left (fun _ => getNewIvtReq_reads lawful plain _) result left,
            reads_left (fun _ => getNewIvtReq_reads lawful plain' _) result' left', user]
          exact grows.shown numeric _ _
  | getConnection cursor' result' left' =>
      cases fetched with
      | getConnection cursor result left =>
          rw [reads_left (fun _ => getNewConnectionReq_reads lawful plain _ _) result left,
            reads_left (fun _ => getNewConnectionReq_reads lawful plain' _ _) result' left', user]
          obtain ⟨list, at_, rfl⟩ := cursor
          obtain ⟨list', at_', rfl⟩ := cursor'
          obtain rfl : list = list' := by simpa [manager, at_] using at_'
          exact grows.shown numeric _ _
  | getFriendList result' left' =>
      cases fetched with
      | getFriendList result left =>
          -- no session inserts pairs
          have pairs := (grows (str "userPair")).2 (by decide)
          have kept : ∀ (s : Select) (text : Str), s.table = str "userPair" →
              s.shown numeric text (view db') = s.shown numeric text (view db) := fun s text table => by
            simp only [Select.shown, Select.rows, table, pairs]
          rw [reads_left (fun _ => getFriendList_reads lawful plain) result left,
            reads_left (fun _ => getFriendList_reads lawful plain') result' left', user, kept _ _ rfl, kept _ _ rfl]

end

/-! ## Replies in a record -/

/-- A claim about the replies among the events. -/
def OfReply (Q : List Event → ECommand → List ResultRow → Prop) (before : List Event) : Event → Prop
  | .reply c rows => Q before c rows
  | _ => True

section
variable {σ : Type} {lib : External σ} {N : Str → Prop} {w t : World σ}
  {Q : List Event → ECommand → List ResultRow → Prop}

/-- A move makes one reply or none. -/
theorem Move.replies (move : Move lib N w t) :
    (∃ c rows, t = w.logged (.reply c rows) ∧ w.stopped = none ∧ FetchedFor lib w.self w.db c rows) ∨
      ∃ es, t.log = w.log ++ es ∧ ∀ c rows, .reply c rows ∉ es := by
  cases move with
  | answers running answers => exact .inl ⟨_, _, rfl, running, answers⟩
  | internal internal =>
      obtain ⟨es, log, own⟩ := internal.log
      exact .inr ⟨es, log, fun c rows member => own _ member⟩
  | asks _ _ => exact .inr ⟨_, rfl, by simp⟩
  | notify _ user task =>
      unfold World.notify
      split
      · exact .inr ⟨_, rfl, by simp⟩
      · exact .inr ⟨[], by simp, by simp⟩
  | refused _ _ _ => exact .inr ⟨_, (checkedPassword_log w _ _ _).trans (List.append_assoc _ _ _), by simp⟩
  | admitted _ _ _ _ => exact .inr ⟨_, loggedIn_log w _ _, by simp⟩
  | unlisted _ _ _ _ => exact .inr ⟨_, loggedIn_log w _ _, by simp⟩
  | _ => exact .inr ⟨[], (List.append_nil _).symm, by simp⟩

/-- Between two logins a session keeps its user and its cursors. -/
theorem Move.session (move : Move lib N w t) (runs : t.stopped = none) : w.stopped = none ∧
    ((∃ es, t.log = w.log ++ es ∧ .login true ∈ es) ∨
      (t.self.userName = w.self.userName ∧ t.self.checkManager = w.self.checkManager)) := by
  cases move with
  | internal internal =>
      exact ⟨internal.stopped.symm.trans runs, .inr ⟨internal.userName, internal.checkManager⟩⟩
  | halted _ => cases runs
  | connected _ => exact ⟨runs, .inr ⟨rfl, rfl⟩⟩
  | notify running user task =>
      refine ⟨running, .inr ?_⟩
      unfold World.notify
      split <;> exact ⟨rfl, rfl⟩
  | admitted running _ _ _ => exact ⟨running, .inl ⟨_, loggedIn_log w _ _, by simp⟩⟩
  | unlisted _ _ _ _ => cases runs
  | asks running _ | refused running _ _ | answers running _ | noticed running _ _ _ _ =>
      exact ⟨running, .inr ⟨rfl, rfl⟩⟩

theorem OfReply.append {log es : List Event} (inOrder : Runs.InOrder (OfReply Q) log) (none_ : ∀ c rows, .reply c rows ∉ es) :
    Runs.InOrder (OfReply Q) (log ++ es) := by
  refine inOrder.append fun before e after is => ?_
  cases e with
  | reply c rows => exact absurd (by simp [is]) (none_ c rows)
  | _ => trivial

theorem OfReply.reply {log : List Event} {c : ECommand} {rows : List ResultRow} (inOrder : Runs.InOrder (OfReply Q) log)
    (new : Q log c rows) : Runs.InOrder (OfReply Q) (log ++ [.reply c rows]) := by
  refine inOrder.append fun before e after is => ?_
  cases before with
  | nil =>
      cases is
      simpa [OfReply] using new
  | cons _ before => simp at is

theorem OfReply.mono {R : List Event → ECommand → List ResultRow → Prop} {log : List Event}
    (inOrder : Runs.InOrder (OfReply Q) log) (weaker : ∀ before c rows, Q before c rows → R before c rows) :
    Runs.InOrder (OfReply R) log := by
  refine inOrder.mono fun before e known => ?_
  cases e with
  | reply c rows => exact weaker before c rows known
  | _ => trivial

end

/-! ## What a session knows of its replies -/

section
variable {σ : Type} {lib : External σ} {numeric : Str → Value} {view : σ → Store} {w t : World σ}

/-- The rows were fetched as the session of a user with these cursors fetches them, and
    since then the tables have only grown. -/
def FetchedBefore (lib : External σ) (view : σ → Store) (store : Store) (self : Session) (c : ECommand)
    (rows : List ResultRow) : Prop :=
  ∃ db, FetchedFor lib self db c rows ∧ Store.Grows InsertedInto (view db) store

theorem FetchedBefore.grows {a b : Store} {self : Session} {c : ECommand} {rows : List ResultRow}
    (fetched : FetchedBefore lib view a self c rows) (grows : Store.Grows InsertedInto a b) :
    FetchedBefore lib view b self c rows := by
  obtain ⟨db, made, grown⟩ := fetched
  exact ⟨db, made, grown.trans grows⟩

structure RepliesKept (lib : External σ) (view : σ → Store) (w : World σ) : Prop where
  fetched : Runs.InOrder (OfReply fun before c rows => ∃ self, Account before self.userName ∧ 34 ∉ self.userName ∧
    FetchedBefore lib view (view w.db) self c rows) w.log
  /-- Since the last login. -/
  current : w.stopped = none → ∀ before c rows after, w.log = before ++ .reply c rows :: after →
    .login true ∉ after → ∃ self, self.userName = w.self.userName ∧ self.checkManager = w.self.checkManager ∧
      FetchedBefore lib view (view w.db) self c rows
  repeats : Runs.InOrder (OfReply fun before c rows' => c ≠ .getMsg → ∀ first rows between,
    before = first ++ .reply c rows :: between → .login true ∉ between → rows <+: rows') w.log

namespace RepliesKept

theorem grows {v : World σ} (kept : RepliesKept lib view w) (self : v.self = w.self) (log : v.log = w.log)
    (stopped : v.stopped = w.stopped) (grows : Store.Grows InsertedInto (view w.db) (view v.db)) :
    RepliesKept lib view v where
  fetched := by
    rw [log]
    exact OfReply.mono kept.fetched fun _ _ _ ⟨self, account, plain, made⟩ => ⟨self, account, plain, made.grows grows⟩
  current := by
    rw [log, stopped, self]
    intro running before c rows after is clean
    obtain ⟨self, user, manager, made⟩ := kept.current running before c rows after is clean
    exact ⟨self, user, manager, made.grows grows⟩
  repeats := log ▸ kept.repeats

/-- A reply is added. -/
theorem reply (lawful : lib.engine.Lawful numeric view) (attributed : Attributed lib Unquoted (fun _ => True) w)
    (kept : RepliesKept lib view w) {c : ECommand} {rows : List ResultRow} (running : w.stopped = none)
    (fetched : FetchedFor lib w.self w.db c rows) : RepliesKept lib view (w.logged (.reply c rows)) := by
  have plain : 34 ∉ w.self.userName := attributed.sent.plain
  have now : FetchedBefore lib view (view w.db) w.self c rows := ⟨w.db, fetched, .refl _⟩
  refine ⟨OfReply.reply kept.fetched ⟨w.self, attributed.account running, plain, now⟩, ?_,
    OfReply.reply kept.repeats ?_⟩
  · intro _ before c' rows' after is clean
    rcases split_record is with ⟨later, rfl, split⟩ | ⟨more, split, rfl⟩
    · cases later with
      | nil =>
          cases split
          exact ⟨w.self, rfl, rfl, now⟩
      | cons _ later => simp at split
    · exact kept.current running before c' rows' more split (by simp_all)
  · intro other first rows' between is clean
    obtain ⟨self, user, manager, db, made, grown⟩ := kept.current running first c rows' between is clean
    exact made.again lawful fetched user.symm manager.symm (user ▸ plain) grown other

theorem move (lawful : lib.engine.Lawful numeric view) (attributed : Attributed lib Unquoted (fun _ => True) w)
    (kept : RepliesKept lib view w) (move : Move lib Unquoted w t) : RepliesKept lib view t := by
  have plain : 34 ∉ w.self.userName := attributed.sent.plain
  have grows := move.grows lawful plain
  rcases move.replies with ⟨c, rows, rfl, running, fetched⟩ | ⟨es, log, silent⟩
  · exact reply lawful attributed kept running fetched
  refine ⟨?_, fun runs => ?_, ?_⟩
  · rw [log]
    refine OfReply.append (OfReply.mono kept.fetched ?_) silent
    exact fun _ _ _ ⟨self, account, plain, made⟩ => ⟨self, account, plain, made.grows grows⟩
  · obtain ⟨running, same⟩ := move.session runs
    rw [log]
    intro before c rows after is clean
    rcases split_record is with ⟨later, -, split⟩ | ⟨more, split, rfl⟩
    · exact absurd (by simp [split]) (silent c rows)
    · rcases same with ⟨fs, log', login⟩ | ⟨user, manager⟩
      · obtain rfl : es = fs := List.append_cancel_left (log.symm.trans log')
        exact absurd (List.mem_append_right _ login) clean
      · obtain ⟨self, user', manager', made⟩ := kept.current running before c rows more split
          fun member => clean (List.mem_append_left _ member)
        exact ⟨self, user'.trans user.symm, manager'.trans manager.symm, made.grows grows⟩
  · rw [log]
    exact OfReply.append kept.repeats silent

end RepliesKept

theorem kept_knows {C : Unset → Prop} (lawful : lib.engine.Lawful numeric view) :
    Knows lib Unquoted C (fun s t => Store.Grows InsertedInto (view s.1) (view t.1)) (fun _ => True)
      fun w => Attributed lib Unquoted (fun _ => True) w ∧ RepliesKept lib view w where
  own := fun _ ⟨attributed, kept⟩ move => ⟨attributed.move trivial move, kept.move lawful attributed move⟩
  guarantee := fun _ ⟨attributed, _⟩ move => move.grows lawful attributed.sent.plain
  shared := fun _ _ => trivial
  others := fun _ ⟨attributed, kept⟩ grows =>
    ⟨attributed.seeing _, kept.grows rfl rfl rfl grows⟩
  joins := fun _ meets =>
    ⟨.fresh _ _,
      .nil, fun _ before c rows after is => by simp [Unset.world] at is, .nil⟩

end

/-! ## Whom a row is for -/

/-- The tables that replies are made of have the columns they have in the database of the
    server. -/
structure Columns (store : Store) : Prop where
  messages : (store (str "ms")).columns = msColumns
  invites : (store (str "invite")).columns = inviteColumns
  requests : (store (str "connectionRequest")).columns = requestColumns
  pairs : (store (str "userPair")).columns = pairColumns
  seats : (store (str "part")).columns = partColumns

theorem Columns.grows {K : Str → Prop} {a b : Store} (schema : Columns a) (grows : Store.Grows K a b) : Columns b where
  messages := (grows _).1.columns.trans schema.messages
  invites := (grows _).1.columns.trans schema.invites
  requests := (grows _).1.columns.trans schema.requests
  pairs := (grows _).1.columns.trans schema.pairs
  seats := (grows _).1.columns.trans schema.seats

/-- The name is that of no column it is compared with. -/
def Unnamed (user : Str) : Prop :=
  ∀ columns ∈ [inviteColumns, requestColumns, pairColumns, partColumns], ¬ Table.knows ⟨columns, []⟩ user

instance (user : Str) : Decidable (Unnamed user) := inferInstanceAs (Decidable (∀ _ ∈ _, _))

/-- The row of a reply comes from one that is for the user: a message in a table at which
    the user has a seat, an invitation for the user, a request to the user, or a pair the
    user is in, of which it shows the other one. -/
def MeantFor (store : Store) (user : Str) (row : ResultRow) : ECommand → Prop
  | .getMsg => ∃ r ∈ (store (str "ms")).rows, row = resultOf r ∧ ∃ key, r.cells[0]? = some (.int key) ∧
      ∃ seat ∈ (store (str "part")).rows, seat.cells[1]? = some (.text user) ∧ Keyed (store (str "part")) key seat
  | .getIvt => ∃ r ∈ (store (str "invite")).rows, row = resultOf r ∧ r.cells[0]? = some (.text user)
  | .getConnection =>
      ∃ r ∈ (store (str "connectionRequest")).rows, row = resultOf r ∧ r.cells[1]? = some (.text user)
  | .getFriendList => ∃ r ∈ (store (str "userPair")).rows,
      (r.cells[0]? = some (.text user) ∧ row = ⟨r.rowid, [(r.cells[1]?).bind Value.render]⟩) ∨
        (r.cells[1]? = some (.text user) ∧ row = ⟨r.rowid, [(r.cells[0]?).bind Value.render]⟩)

section
variable {numeric : Str → Value} {t : Table} {columns : List Column}

/-- A text column that is compared with a user. -/
theorem text_cell (is : t.columns = columns) {name user : Str} {i : Nat}
    (column : Table.index ⟨columns, []⟩ name = some i) (kind : Table.affinity ⟨columns, []⟩ name = .text)
    (unnamed : ¬ Table.knows ⟨columns, []⟩ user) (r : Row) :
    t.meets numeric r ⟨name, .eq, .quoted user⟩ = true ↔ r.cells[i]? = some (.text user) := by
  have same : t.meets numeric r ⟨name, .eq, .quoted user⟩ =
      Table.meets numeric ⟨columns, []⟩ r ⟨name, .eq, .quoted user⟩ := Table.meets_columns numeric is r _
  rw [same, Table.meets_text numeric kind unnamed]
  simp [Table.value, column]

theorem named_cell (is : t.columns = columns) {name : Str} {i : Nat}
    (column : Table.index ⟨columns, []⟩ name = some i) (r : Row) : t.project r (.column name) =
      [(r.cells[i]?).bind Value.render] := by
  have here : t.index name = some i := by rw [← column, Table.index, Table.index, is]
  simp [Table.project, Table.value, here]

/-- What is shown to a user is addressed to the user. -/
theorem ShownTo.meantFor {store : Store} {user : Str} {c : ECommand} {row : ResultRow}
    (shown : ShownTo numeric store user c row) (schema : Columns store) (unnamed : Unnamed user) :
    MeantFor store user row c := by
  obtain ⟨s, selects, member⟩ := shown
  obtain ⟨-, r, there, meets, rfl⟩ := mem_select.mp member
  have first : ∀ {cond : Cond} {rest : List Cond}, s.conds = cond :: rest →
      (store s.table).meets numeric r cond = true := fun conds => List.all_eq_true.mp meets _ (by simp [conds])
  cases selects with
  | getMsg seated read =>
      obtain ⟨-, seat, kept, sits, rfl⟩ := mem_select.mp seated
      have sat : (store (str "part")).meets numeric seat ⟨str "user", .eq, .quoted user⟩ = true :=
        List.all_eq_true.mp sits _ (by simp [tablesOf])
      refine ⟨r, there, rfl, _, (meets_key schema.messages r _).mp (first rfl), seat, kept, ?_, read⟩
      exact (text_cell schema.seats rfl rfl (unnamed _ (by simp)) seat).mp sat
  | getIvt => exact ⟨r, there, rfl, (text_cell schema.invites rfl rfl (unnamed _ (by simp)) r).mp (first rfl)⟩
  | getConnection =>
      exact ⟨r, there, rfl, (text_cell schema.requests rfl rfl (unnamed _ (by simp)) r).mp (first rfl)⟩
  | friendsBehind =>
      refine ⟨r, there, .inl ⟨(text_cell schema.pairs rfl rfl (unnamed _ (by simp)) r).mp (first rfl), ?_⟩⟩
      exact congrArg (ResultRow.mk r.rowid) (named_cell schema.pairs rfl r)
  | friendsBefore =>
      refine ⟨r, there, .inr ⟨(text_cell schema.pairs rfl rfl (unnamed _ (by simp)) r).mp (first rfl), ?_⟩⟩
      exact congrArg (ResultRow.mk r.rowid) (named_cell schema.pairs rfl r)

end

/-! ## Every run -/

section
variable {σ : Type} {lib : External σ} {numeric : Str → Value} {view : σ → Store} {db : σ} {memory : Unset}
  {acts : List (PoolAct σ)} {p : Pool σ}

theorem Pool.Reaches.meantFor {C : Unset → Prop} (lawful : lib.engine.Lawful numeric view) {s : σ × NMap}
    (schema : Columns (view s.1)) (reaches : p.Reaches lib Unquoted C s) {w : World σ} (member : w ∈ p.sessions) :
    Runs.InOrder (OfReply fun before c rows => ∃ user, Account before user ∧
      (Unnamed user → ∀ row ∈ rows, MeantFor (view p.db) user row c)) w.log := by
  obtain ⟨-, kept⟩ := (reaches.known (kept_knows lawful) trivial).2 w member
  refine OfReply.mono kept.fetched fun before c rows ⟨self, account, plain, before', fetched, grown⟩ =>
    ⟨self.userName, account, fun unnamed row there => ?_⟩
  exact ((fetched.shown lawful plain row there).grows grown).meantFor (schema.grows (reaches.grows lawful)) unnamed

/-- In every run every row of a reply is for the user whom the session speaks for, and is
    still there in the end. -/
theorem replies_addressed (lawful : lib.engine.Lawful numeric view) (schema : Columns (view db))
    (allows : Runs.Each (Pool.next lib) (Pool.Allows Unquoted (fun _ => True)) (Pool.start db memory) acts)
    (ran : Runs.after (Pool.next lib) (Pool.start db memory) acts = some p) :
    ∀ w ∈ p.sessions, Runs.InOrder (OfReply fun before c rows => ∃ user, Account before user ∧
      (Unnamed user → ∀ row ∈ rows, MeantFor (view p.db) user row c)) w.log := fun _ member =>
  (Pool.reaches (C := fun _ => True) trivial allows ran).meantFor lawful schema member

end

theorem twoUsers_columns : Columns twoUsers.store := ⟨rfl, rfl, rfl, rfl, rfl⟩

theorem replies_addressed_annAsksBob :
    ∃ p, Runs.after (Pool.next memoryServer) (Pool.start twoUsers zeros) annAsksBob = some p ∧
      ∀ w ∈ p.sessions, Runs.InOrder (OfReply fun before c rows => ∃ user, Account before user ∧
        (Unnamed user → ∀ row ∈ rows, MeantFor p.db.store user row c)) w.log := by
  obtain ⟨p, ran⟩ := annAsksBob_runs
  exact ⟨p, ran, replies_addressed (Memory.engine_lawful .text _) twoUsers_columns annAsksBob_allows ran⟩

end NineProject
