import NineProject.Disclosure

/-! # Replies are up to date

Other sessions go on while a session answers, so what a reply has to show is known only
up to the time at which it was made. A reply that was made between two points of a run
shows, in order, all that was due to its user at the first of them, and nothing that was
not due at the second.
-/

namespace NineProject

open Bytes Sql Relation

/-! ## What is due -/

/-- The rows that answer a command of a user, other than for messages: the invitations for
    the user, the requests to the user from a rowid on, and the other users of the user's
    pairs. -/
def due (store : Store) (user : Str) (cursor : Int) : ECommand → List ResultRow
  | .getMsg => []
  | .getIvt => (rowsWith (store (str "invite")) 0 user).map resultOf
  | .getConnection =>
      ((rowsWith (store (str "connectionRequest")) 1 user).filter fun r => cursor ≤ r.rowid).map resultOf
  | .getFriendList =>
      (rowsWith (store (str "userPair")) 0 user).map (fun r => ⟨r.rowid, [(r.cells[1]?).bind Value.render]⟩) ++
        (rowsWith (store (str "userPair")) 1 user).map fun r => ⟨r.rowid, [(r.cells[0]?).bind Value.render]⟩

section
variable {σ : Type} {lib : External σ} {numeric : Str → Value} {view : σ → Store} {db : σ} {user : Str}

/-- A selection shows what its text returns. -/
theorem shown_of_exec {E : Engine σ} {text : Str} {s : Select} {rows : List ResultRow} (lawful : E.Lawful numeric view)
    (faithful : Faithful text (.select s)) (exec : E.exec db text = (db, rows)) :
    s.shown numeric text (view db) = rows := by
  rw [faithful.shows lawful] at exec
  exact (Prod.mk.inj exec).2

section
variable {E : Engine σ} (lawful : E.Lawful numeric view) (schema : Columns (view db)) (plain : 34 ∉ user)
  (nulFree : 0 ∉ user) (unnamed : Unnamed user)
include lawful schema plain nulFree unnamed

theorem invites_due (cursor : Int) : E.exec db (selectQuery .invite (0, .string user) Compare.equal SelectTarget.all) =
    (db, due (view db) user cursor .getIvt) := by
  refine (CursorFetch.exec_text lawful (f := .invites user) plain schema.invites cursor).trans ?_
  have kept : ∀ r, CursorFetch.Reads numeric (.invites user) r ↔ r.cells[0]? = some (.text user) := fun r => by
    have cell : Table.meets numeric ⟨inviteColumns, []⟩ r ⟨str "target", .eq, .quoted user⟩ = true ↔
        r.cells[0]? = some (.text user) := text_cell rfl rfl rfl (unnamed inviteColumns (by simp)) r
    exact ⟨fun reads => cell.mp reads.2, fun is => ⟨nulFree, cell.mpr is⟩⟩
  have same : CursorFetch.found numeric (.invites user) (view db (str "invite")) cursor =
      rowsWith (view db (str "invite")) 0 user :=
    List.filter_congr fun r _ => by simp [kept, CursorFetch.Above]
  exact congrArg (fun rows => (db, rows.map resultOf)) same

theorem requests_due (cursor : Int) : E.exec db (selectQuery2 .connectionRequest (1, .string user) (-2, .int cursor)
    Compare.equal Compare.equalAndHigher SelectTarget.all) = (db, due (view db) user cursor .getConnection) := by
  refine (CursorFetch.exec_text lawful (f := .requests user) plain schema.requests cursor).trans ?_
  have kept : ∀ r, CursorFetch.Reads numeric (.requests user) r ↔ r.cells[1]? = some (.text user) := fun r => by
    have cell : Table.meets numeric ⟨requestColumns, []⟩ r ⟨str "receiver", .eq, .quoted user⟩ = true ↔
        r.cells[1]? = some (.text user) := text_cell rfl rfl rfl (unnamed requestColumns (by simp)) r
    exact ⟨fun reads => cell.mp reads.2, fun is => ⟨nulFree, cell.mpr is⟩⟩
  have same : CursorFetch.found numeric (.requests user) (view db (str "connectionRequest")) cursor =
      (rowsWith (view db (str "connectionRequest")) 1 user).filter fun r => cursor ≤ r.rowid := by
    rw [rowsWith, List.filter_filter]
    exact List.filter_congr fun r _ => by simp [kept, CursorFetch.Above, Bool.and_comm]
  exact congrArg (fun rows => (db, rows.map resultOf)) same

theorem friends_due (cursor : Int) : ∃ behind before,
    E.exec db (selectQuery .userPair (0, .string user) Compare.equal 1) = (db, behind) ∧
      E.exec db (selectQuery .userPair (1, .string user) Compare.equal 0) = (db, before) ∧
      due (view db) user cursor .getFriendList = behind ++ before := by
  have noColumn : ¬ (view db (str "userPair")).knows user := by
    have same : (view db (str "userPair")).knows user = Table.knows ⟨pairColumns, []⟩ user := by
      rw [Table.knows, Table.knows, Table.index, Table.index, schema.pairs]
    rw [same]
    exact unnamed pairColumns (by simp)
  have place : ∀ {name : Str} {i : Nat}, Table.index ⟨pairColumns, []⟩ name = some i →
      (view db (str "userPair")).index name = some i := fun is => by rw [← is, Table.index, Table.index, schema.pairs]
  have kind : ∀ {name : Str}, Table.affinity ⟨pairColumns, []⟩ name = .text →
      (view db (str "userPair")).affinity name = .text := fun is => by
    rw [← is, Table.affinity, Table.affinity, Table.index, Table.index, schema.pairs]
  have shown : ∀ {target : Target}, Table.shows ⟨pairColumns, []⟩ target →
      (view db (str "userPair")).shows target := fun is => (Table.shows_columns schema.pairs _).trans is
  refine ⟨_, _, ?_, ?_, rfl⟩
  · rw [selectText_exec lawful (.inr (show QueryDescriptor.userPair.dsc.HasColumn 0 by decide))
      (.inr (.inr (show QueryDescriptor.userPair.dsc.HasColumn 1 by decide))) rfl (by decide) plain, if_neg nulFree]
    refine congrArg (Prod.mk db) ((select_text_rows numeric (place rfl) (kind rfl) noColumn (shown rfl)).trans ?_)
    exact List.map_congr_left fun r _ => congrArg (ResultRow.mk r.rowid) (named_cell schema.pairs rfl r)
  · rw [selectText_exec lawful (.inr (show QueryDescriptor.userPair.dsc.HasColumn 1 by decide))
      (.inr (.inr (show QueryDescriptor.userPair.dsc.HasColumn 0 by decide))) rfl (by decide) plain, if_neg nulFree]
    refine congrArg (Prod.mk db) ((select_text_rows numeric (place rfl) (kind rfl) noColumn (shown rfl)).trans ?_)
    exact List.map_congr_left fun r _ => congrArg (ResultRow.mk r.rowid) (named_cell schema.pairs rfl r)

end

/-- A reply shows what was due when its rows were fetched. -/
theorem FetchedFor.due {self : Session} {c : ECommand} {rows : List ResultRow} {cursor : Int}
    (lawful : lib.engine.Lawful numeric view) (schema : Columns (view db)) (fetched : FetchedFor lib self db c rows)
    (plain : 34 ∉ self.userName) (nulFree : 0 ∉ self.userName) (unnamed : Unnamed self.userName) (other : c ≠ .getMsg)
    (from_ : ∀ n, self.CursorAt CheckListIndex.connectionReq n → n = cursor) :
    rows = NineProject.due (view db) self.userName cursor c := by
  cases fetched with
  | getMsg _ _ _ => exact absurd rfl other
  | getIvt result left =>
      rw [reads_left (fun _ => getNewIvtReq_reads lawful plain _) result left]
      exact shown_of_exec lawful (told_faithful .getNewIvtReq plain) (invites_due lawful schema plain nulFree unnamed cursor)
  | getConnection at_ result left =>
      rw [reads_left (fun _ => getNewConnectionReq_reads lawful plain _ _) result left, from_ _ at_]
      exact shown_of_exec lawful (told_faithful .getNewConnectionReq plain)
        (requests_due lawful schema plain nulFree unnamed cursor)
  | getFriendList result left =>
      obtain ⟨behind, before, first, second, all⟩ := friends_due lawful schema plain nulFree unnamed cursor
      rw [reads_left (fun _ => getFriendList_reads lawful plain) result left, all,
        shown_of_exec lawful (told_faithful .friendsBehind plain) first,
        shown_of_exec lawful (told_faithful .friendsBefore plain) second]

end

/-! ## The cursors of a session -/

section
variable {σ : Type} {lib : External σ} {numeric : Str → Value} {view : σ → Store} {db db' : σ} {user : Str}
  {w t : World σ}

/-- The check list of a user is the same in tables that have grown. -/
theorem getCheckList_fixed (lawful : lib.engine.Lawful numeric view) (plain : 34 ∉ user)
    (grows : Store.Grows InsertedInto (view db) (view db')) : ((Qr.getCheckList user).run lib.engine db').result =
      ((Qr.getCheckList user).run lib.engine db).result := by
  have faithful := told_faithful (.getCheckList plain) plain
  have table : view db' (cursorsOf user).table = view db (cursorsOf user).table :=
    (grows (str "checkList")).2 (by decide)
  simp only [Qr.getCheckList, query_run, faithful.shows lawful]
  simp only [Select.shown, Select.rows, table]

/-- The cursors of the session are those that the check list of its user holds. -/
def Listed (lib : External σ) (db : σ) (self : Session) : Prop :=
  ∀ list, self.checkManager = some list → ((Qr.getCheckList self.userName).run lib.engine db).result = .ok list

theorem Listed.same {self self' : Session} (listed : Listed lib db self) (user : self'.userName = self.userName)
    (manager : self'.checkManager = self.checkManager) : Listed lib db self' := by
  intro list is
  rw [user]
  exact listed list (manager.symm.trans is)

theorem Listed.cursor {self : Session} {list : Vector Int 10} {n : Int} (listed : Listed lib db self)
    (result : ((Qr.getCheckList self.userName).run lib.engine db).result = .ok list)
    (at_ : self.CursorAt CheckListIndex.connectionReq n) : n = list.toArray.getD CheckListIndex.connectionReq 0 := by
  obtain ⟨list', is, rfl⟩ := at_
  obtain rfl : list' = list := Except.ok.inj ((listed list' is).symm.trans result)
  rfl

theorem Move.listed (lawful : lib.engine.Lawful numeric view) (move : Move lib Unquoted w t)
    (fixed : Store.Grows InsertedInto (view db) (view w.db)) (listed : w.stopped = none → Listed lib db w.self)
    (runs : t.stopped = none) : Listed lib db t.self := by
  cases move with
  | internal internal =>
      exact (listed (internal.stopped.symm.trans runs)).same internal.userName internal.checkManager
  | halted _ => cases runs
  | connected _ => exact (listed runs).same rfl rfl
  | notify running user task =>
      apply (listed running).same
      all_goals
        unfold World.notify
        split <;> rfl
  | @admitted id pw list running sent _ fetched =>
      have plain : 34 ∉ id := sent
      have asked : (w.checkedPassword lib id pw true).db = w.db := by
        have shows := (told_faithful (.checkUserPassword sent) plain).shows lawful w.db
        show ((Qr.checkUserPassword id pw).run lib.engine w.db).db = w.db
        simp only [Qr.checkUserPassword, Program.run_bind, query_run, shows]
        cases eachRow (fun _ row => argText row 0) [] _ <;> rfl
      intro list' is
      obtain rfl : list = list' := Option.some.inj is
      rw [asked, getCheckList_fixed lawful plain fixed] at fetched
      exact fetched
  | unlisted _ _ _ _ => cases runs
  | asks running _ | refused running _ _ | answers running _ | noticed running _ _ _ _ =>
      exact (listed running).same rfl rfl

/-- The database has grown from this one, and from these tables. -/
def Since (view : σ → Store) (db : σ) (first : Store) (s : σ × NMap) : Prop :=
  Store.Grows InsertedInto (view db) (view s.1) ∧ Store.Grows InsertedInto first (view s.1)

/-- A reply behind the first `n` events was fetched when the tables were between `first`
    and `store`. -/
def Between (lib : External σ) (view : σ → Store) (db : σ) (first : Store) (n : Nat) (store : Store)
    (before : List Event) (c : ECommand) (rows : List ResultRow) : Prop :=
  n ≤ before.length → ∃ self then_, Account before self.userName ∧ 34 ∉ self.userName ∧ Listed lib db self ∧
    FetchedFor lib self then_ c rows ∧ Since view db first (then_, NMap.empty) ∧
      Store.Grows InsertedInto (view then_) store

variable {first a b : Store} {n : Nat}

theorem Between.grows {before : List Event} {c : ECommand} {rows : List ResultRow}
    (between : Between lib view db first n a before c rows) (grows : Store.Grows InsertedInto a b) :
    Between lib view db first n b before c rows := by
  intro behind
  obtain ⟨self, then_, account, plain, listed, fetched, since, grown⟩ := between behind
  exact ⟨self, then_, account, plain, listed, fetched, since, grown.trans grows⟩

theorem Between.move (lawful : lib.engine.Lawful numeric view) (move : Move lib Unquoted w t)
    (attributed : Attributed lib Unquoted (fun _ => True) w) (listed : w.stopped = none → Listed lib db w.self)
    (since : Since view db first (w.db, w.nmap))
    (all : Runs.InOrder (OfReply (Between lib view db first n (view w.db))) w.log) :
    Runs.InOrder (OfReply (Between lib view db first n (view t.db))) t.log := by
  have plain : 34 ∉ w.self.userName := attributed.sent.plain
  rcases move.replies with ⟨c, rows, rfl, running, fetched⟩ | ⟨es, log, silent⟩
  · apply OfReply.reply all
    intro _
    exact ⟨w.self, w.db, attributed.account running, plain, listed running, fetched, since, .refl _⟩
  · rw [log]
    apply OfReply.append _ silent
    exact OfReply.mono all fun _ _ _ between => between.grows (move.grows lawful plain)

/-! ## Every run -/

variable {memory : Unset} {acts acts' : List (PoolAct σ)} {p q : Pool σ}

end

end NineProject
