import NineProject.Fidelity
import NineProject.Insertions
import NineProject.Readers
import NineProject.Session.System
import NineProject.Sql.Growth

/-! # The statements of a server

Every statement of a session is built from what its client sent and from its user name,
which a client sent too: nothing that a statement returned is ever put into another one,
but for numbers. So where no name or text of a client has a double quote, every
statement is the one that is meant, in whatever order the sessions run, and the tables
only grow.
-/

namespace NineProject

open Bytes Sql Relation

/-! ## The selections meant -/

/-- The selection of `check_user_password`. -/
def passwordOf (id : Str) : Select := ⟨.column (str "pw"), str "user", [⟨str "id", .eq, .quoted id⟩]⟩

/-- The selection of `get_checkList`. -/
def cursorsOf (user : Str) : Select := ⟨.all, str "checkList", [⟨str "user", .eq, .quoted user⟩]⟩

/-- The selection of `get_new_message_in_table`. -/
def messagesAfter (tableKey c : Int) : Select :=
  ⟨.all, str "ms", [⟨str "tableKey", .eq, .number tableKey⟩, ⟨str "rowid", .gt, .number c⟩]⟩

/-- The selection of `get_new_ivt_req`. -/
def invitationsOf (user : Str) : Select := ⟨.all, str "invite", [⟨str "target", .eq, .quoted user⟩]⟩

/-- The selection of `get_new_connection_req`. -/
def requestsOf (user : Str) (c : Int) : Select :=
  ⟨.all, str "connectionRequest", [⟨str "receiver", .eq, .quoted user⟩, ⟨str "rowid", .ge, .number c⟩]⟩

/-- The selections of `get_friend_list`: the second users of the pairs with this first one. -/
def friendsBehind (user : Str) : Select :=
  ⟨.column (str "user1"), str "userPair", [⟨str "user0", .eq, .quoted user⟩]⟩

/-- And the first users of the pairs with this second one. -/
def friendsBefore (user : Str) : Select :=
  ⟨.column (str "user0"), str "userPair", [⟨str "user1", .eq, .quoted user⟩]⟩

/-- The text means this selection, unless it is cut off inside a string. -/
theorem selectText_faithful {qd : QueryDescriptor} {first target : Int} {s : Str} {ts : List Token}
    (column : IsCondition qd first) (asked : IsTarget qd target)
    (opens : Lexer.scan .gap (selectOpening qd first Compare.equal target) = some (ts, .string 34 []))
    (clear : Lexer.Clear (selectOpening qd first Compare.equal target)) (plain : 34 ∉ s) :
    Faithful (selectQuery qd (first, .string s) Compare.equal target)
      (.select ⟨targetOf qd.dsc target, qd.dsc.getTableName, [⟨conditionColumn qd.dsc first, .eq, .quoted s⟩]⟩) := by
  by_cases zero : 0 ∈ s
  · have split : selectQuery qd (first, .string s) Compare.equal target =
        selectOpening qd first Compare.equal target ++ (s ++ str "\" ) ;") := by
      simp only [selectQuery, selectOpening, toStringS, List.append_assoc]
      rfl
    rw [split]
    exact .inr (Lexer.cut_off opens clear plain zero _)
  · have inRange : (BuilderCall.select qd (first, .string s) Compare.equal target).InRange :=
      ⟨column, by decide, asked⟩
    exact .inl (BuilderCall.readStatement_text inRange (by simpa [BuilderCall.args, Arg.NulFree] using zero)
      (by simpa [BuilderCall.args, Arg.Plain] using plain))

theorem selectText2_faithful {qd : QueryDescriptor} {first second e target c : Int} {s : Str} {ts : List Token}
    (column : IsCondition qd first) (column' : IsCondition qd second) (compare : IsCompare e)
    (asked : IsTarget qd target)
    (opens : Lexer.scan .gap (selectOpening qd first Compare.equal target) = some (ts, .string 34 []))
    (clear : Lexer.Clear (selectOpening qd first Compare.equal target)) (plain : 34 ∉ s) :
    Faithful (selectQuery2 qd (first, .string s) (second, .int c) Compare.equal e target)
      (.select ⟨targetOf qd.dsc target, qd.dsc.getTableName, [⟨conditionColumn qd.dsc first, .eq, .quoted s⟩,
        ⟨conditionColumn qd.dsc second, compareOp e, .number c⟩]⟩) := by
  by_cases zero : 0 ∈ s
  · have split : selectQuery2 qd (first, .string s) (second, .int c) Compare.equal e target =
        selectOpening qd first Compare.equal target ++ (s ++ ((34 :: str " AND ") ++
          conditionColumn qd.dsc second ++ eqivDsc e ++ Decimal.ofInt c ++ str " ) ;")) := by
      simp only [selectQuery2, selectOpening, toStringS, List.append_assoc]
      rfl
    rw [split]
    exact .inr (Lexer.cut_off opens clear plain zero _)
  · have inRange : (BuilderCall.select2 qd (first, .string s) (second, .int c) Compare.equal e target).InRange :=
      ⟨column, column', by decide, compare, asked⟩
    exact .inl (BuilderCall.readStatement_text inRange (by simpa [BuilderCall.args, Arg.NulFree] using zero)
      (by simpa [BuilderCall.args, Arg.Plain] using plain))

/-! ## What a session says -/

section
variable (N : Str → Prop)

/-- The texts a session of a user runs for its calls, each with the statement it is meant
    to be. -/
inductive Says (user : Str) : QrCall → Str → Statement → Prop
  | checkUserPassword {id : Str} (sent : N id) :
      Says user .checkUserPassword (selectQuery .user (0, .string id) 2 1) (.select (passwordOf id))
  | getCheckList {id : Str} (sent : N id) :
      Says user .getCheckList (selectQuery .checkList (0, .string id) Compare.equal SelectTarget.all)
        (.select (cursorsOf id))
  | insertMessage {rq : MsReq} {text : Str} (sent : N text) :
      Says user .insertMessage (insertQueryWithPair4 .message (0, .int rq.tableKey) (1, .int rq.sender)
        (2, .string text) (4, .int rq.uncheck)) (.insert (messageInsert rq text))
  | getDiningMembers {tableKey : Int} :
      Says user .getDiningMembers (selectQuery .participate (0, .int tableKey) Compare.equal 1)
        (.select (membersOf tableKey))
  | insertConnection {receiver : Str} (sent : N receiver) :
      Says user .insertConnection (insertQueryWithPairStr .connectionRequest (0, user) (1, receiver))
        (.insert (connectionInsert user receiver))
  | insertInvite {tableKey : Int} :
      Says user .insertInvite (insertQueryWithPair3 .invite (0, .string []) (1, .int tableKey) (2, .string user))
        (.insert (inviteInsert [] user tableKey))
  | createTable {cont : List Str} : Says user .createTable (tableText user cont)
      (.insert (insertion .table (.string user) (.int (wrap 32 cont.length)) []))
  | participate {name : Str} {tableKey index : Int} (sent : N name) :
      Says user .createTable (insertText .participate (.string name) (.int tableKey) [.int index])
        (.insert (insertion .participate (.string name) (.int tableKey) [.int index]))
  | getTable : Says user .getNewMessage (selectQuery .participate (1, .string user) 2 0) (.select (tablesOf user))
  | getNewMessage {tableKey c : Int} :
      Says user .getNewMessage (fetchText tableKey c) (.select (messagesAfter tableKey c))
  | getNewIvtReq : Says user .getNewIvtReq
      (selectQuery .invite (0, .string user) Compare.equal SelectTarget.all) (.select (invitationsOf user))
  | getNewConnectionReq {c : Int} : Says user .getNewConnectionReq
      (selectQuery2 .connectionRequest (1, .string user) (-2, .int c) Compare.equal Compare.equalAndHigher
        SelectTarget.all) (.select (requestsOf user c))
  | friendsBehind : Says user .getFriendList (selectQuery .userPair (0, .string user) Compare.equal 1)
      (.select (friendsBehind user))
  | friendsBefore : Says user .getFriendList (selectQuery .userPair (1, .string user) Compare.equal 0)
      (.select (friendsBefore user))

end

/-- The tables that sessions insert into. -/
def InsertedInto (table : Str) : Prop :=
  table ∈ [str "ms", str "connectionRequest", str "invite", str "chatTable", str "part"]

instance (table : Str) : Decidable (InsertedInto table) := inferInstanceAs (Decidable (_ ∈ _))

section
variable {N : Str → Prop} {user text : Str} {call : QrCall} {s : Statement}

theorem Says.addsTo (said : Says N user call text s) : s.AddsTo InsertedInto := by
  cases said with
  | insertMessage _ => exact (by decide : InsertedInto (str "ms"))
  | insertConnection _ => exact (by decide : InsertedInto (str "connectionRequest"))
  | insertInvite => exact (by decide : InsertedInto (str "invite"))
  | createTable => exact (by decide : InsertedInto (str "chatTable"))
  | participate _ => exact (by decide : InsertedInto (str "part"))
  | _ => trivial

/-- Without double quotes every text means what it is meant to, or is cut off. -/
theorem Says.faithful (said : Says N user call text s) (clean : ∀ {t : Str}, N t → 34 ∉ t) (plain : 34 ∉ user) : Faithful text s := by
  cases said with
  | checkUserPassword sent =>
      exact selectText_faithful (.inr (show QueryDescriptor.user.dsc.HasColumn 0 by decide))
        (.inr (.inr (by decide))) rfl (by decide) (clean sent)
  | getCheckList sent =>
      exact selectText_faithful (.inr (show QueryDescriptor.checkList.dsc.HasColumn 0 by decide)) (.inl rfl) rfl
        (by decide) (clean sent)
  | insertMessage sent => exact (message_means _ (clean sent)).faithful
  | getDiningMembers =>
      rename_i tableKey
      have inRange : (BuilderCall.select .participate (0, .int tableKey) Compare.equal 1).InRange :=
        ⟨.inr (show QueryDescriptor.participate.dsc.HasColumn 0 by decide), by decide, .inr (.inr (by decide))⟩
      exact .inl (BuilderCall.readStatement_text inRange (by simp [BuilderCall.args, Arg.NulFree])
        (by simp [BuilderCall.args, Arg.Plain]))
  | insertConnection sent => exact (connection_means plain (clean sent)).faithful
  | insertInvite => exact (invite_means _ (by simp) plain).faithful
  | createTable => exact (table_means _ plain).faithful
  | participate sent => exact (participate_means _ _ (clean sent)).faithful
  | getTable =>
      exact selectText_faithful (.inr (show QueryDescriptor.participate.dsc.HasColumn 1 by decide))
        (.inr (.inr (by decide))) rfl (by decide) plain
  | getNewMessage =>
      rename_i tableKey c
      have inRange : (BuilderCall.select2 .message (0, .int tableKey) (-2, .int c) 2 0 (-1)).InRange :=
        ⟨.inr (show QueryDescriptor.message.dsc.HasColumn 0 by decide), .inl rfl,
          show IsCompare 2 by decide, show IsCompare 0 by decide, .inl rfl⟩
      exact .inl (BuilderCall.readStatement_text inRange (by simp [BuilderCall.args, Arg.NulFree])
        (by simp [BuilderCall.args, Arg.Plain]))
  | getNewIvtReq =>
      exact selectText_faithful (.inr (show QueryDescriptor.invite.dsc.HasColumn 0 by decide)) (.inl rfl) rfl
        (by decide) plain
  | getNewConnectionReq =>
      exact selectText2_faithful (.inr (show QueryDescriptor.connectionRequest.dsc.HasColumn 1 by decide)) (.inl rfl)
        (by decide) (.inl rfl) rfl (by decide) plain
  | friendsBehind =>
      exact selectText_faithful (.inr (show QueryDescriptor.userPair.dsc.HasColumn 0 by decide))
        (.inr (.inr (by decide))) rfl (by decide) plain
  | friendsBefore =>
      exact selectText_faithful (.inr (show QueryDescriptor.userPair.dsc.HasColumn 1 by decide))
        (.inr (.inr (by decide))) rfl (by decide) plain

end

/-! ## What a session runs -/

section
variable {σ : Type} {E : Engine σ} {T : QrCall → Str → Prop}

/-- The text of a statement that was run. -/
def Event.text : Event → Option Str
  | .exec _ text => some text
  | _ => none

/-- The statements among these events. -/
def texts (es : List Event) : List Str := es.filterMap Event.text

@[simp] theorem texts_append (es fs : List Event) : texts (es ++ fs) = texts es ++ texts fs := List.filterMap_append

@[simp] theorem texts_exec (call : QrCall) (list : List Str) : texts (list.map (.exec call)) = list := by
  simp only [texts, List.filterMap_map]
  exact List.filterMap_some

theorem texts_none {es : List Event} (other : ∀ call text, .exec call text ∉ es) : texts es = [] := by
  refine List.filterMap_eq_nil_iff.mpr fun e member => ?_
  cases e with
  | exec call text => exact absurd member (other call text)
  | _ => rfl

theorem mem_texts {es : List Event} {text : Str} : text ∈ texts es ↔ ∃ call, .exec call text ∈ es := by
  simp only [texts, List.mem_filterMap]
  constructor
  · rintro ⟨e, member, is⟩
    cases e with
    | exec call text' =>
        cases is
        exact ⟨call, member⟩
    | _ => cases is
  · exact fun ⟨call, member⟩ => ⟨_, member, rfl⟩

/-- A program leaves the connection as the statements it ran do. -/
theorem run_execAll {ε α : Type} (p : Program ε α) (db : σ) :
    (p.run E db).db = execAll E db (p.run E db).executed := by
  induction p generalizing db with
  | done a => rfl
  | fail e => rfl
  | exec text next ih => exact ih _ _
  | lastInsertRowid next ih => exact ih _ _

/-- From `w` to `t` a session records these events and runs just the statements among
    them, which meet `T`. -/
structure Performs (E : Engine σ) (T : QrCall → Str → Prop) (es : List Event) (w t : World σ) : Prop where
  log : t.log = w.log ++ es
  db : t.db = execAll E w.db (texts es)
  meets : ∀ call text, .exec call text ∈ es → T call text

namespace Performs

variable {w t u : World σ} {es fs : List Event}

theorem trans (first : Performs E T es w t) (second : Performs E T fs t u) : Performs E T (es ++ fs) w u where
  log := by rw [second.log, first.log, List.append_assoc]
  db := by rw [second.db, first.db, texts_append, execAll, execAll, execAll, List.foldl_append]
  meets := fun call text member => (List.mem_append.mp member).elim (first.meets call text) (second.meets call text)

/-- Nothing is run where the database stays and the events are of other kinds. -/
theorem of_same (db : t.db = w.db) (log : t.log = w.log ++ es) (other : ∀ call text, .exec call text ∉ es) :
    Performs E T es w t where
  log := log
  db := by
    rw [texts_none other]
    exact db
  meets := fun call text member => absurd member (other call text)

theorem ran {α : Type} {call : QrCall} {p : Query α} (only : p.Only (T call)) :
    Performs E T ((p.run E w.db).executed.map (.exec call)) w (w.ran call (p.run E w.db)) where
  log := rfl
  db := by
    rw [texts_exec]
    exact run_execAll p w.db
  meets := by
    intro call' text member
    obtain ⟨text', executed, is⟩ := List.mem_map.mp member
    cases is
    exact only.executed E w.db text executed

end Performs

theorem lift_only {α : Type} {T : Str → Prop} (r : Except Fault α) : (Query.lift r).Only T := by
  cases r <;> trivial

theorem query_only {α : Type} {T : Str → Prop} {text : Str} {callback : α → ResultRow → Except Fault α} {init : α}
    (meets : T text) : (query text callback init).Only T :=
  .bind (.statement meets) fun _ => lift_only _

theorem fetch_only {T : Str → Prop} {text : Str} {p : PBuffer}
    {entry : PBuffer × Int → ResultRow → Except Fault (PBuffer × Int)} (meets : T text) :
    (Qr.fetch text entry p).Only T :=
  .bind (.statement meets) fun _ => .bind (lift_only _) fun _ => .bind .rowid fun _ => .pure _

variable {lib : External σ} {N : Str → Prop} {user : Str}

/-- The texts that a session of a user runs for a call. -/
def Said (N : Str → Prop) (user : Str) (call : QrCall) (text : Str) : Prop := ∃ s, Says N user call text s

theorem checkUserPassword_only {id : Str} (pw : Str) (sent : N id) :
    (Qr.checkUserPassword id pw).Only (Said N user .checkUserPassword) :=
  .bind (query_only ⟨_, .checkUserPassword sent⟩) fun _ => .pure _

theorem getCheckList_only {id : Str} (sent : N id) : (Qr.getCheckList id).Only (Said N user .getCheckList) :=
  query_only ⟨_, .getCheckList sent⟩

theorem addParticipants_only {cont : List Str} (sent : ∀ name ∈ cont, N name) (tableKey index : Int) :
    (Qr.addParticipants tableKey index cont).Only (Said N user .createTable) := by
  induction cont generalizing index with
  | nil => exact .pure _
  | cons name rest ih =>
      simp only [Qr.addParticipants, participateText_eq]
      exact ⟨⟨_, .participate (sent name (by simp))⟩, fun _ => ih (fun name member => sent name (by simp [member])) _⟩

theorem getNewMessageInTables_only (keys : List Int) (p : PBuffer) (lastCheck : Int) :
    (Qr.getNewMessageInTables lib p lastCheck keys).Only (Said N user .getNewMessage) := by
  induction keys generalizing p lastCheck with
  | nil => exact .pure _
  | cons key rest ih =>
      exact .bind (Qr.getNewMessageInTable_fetch key lastCheck ▸ fetch_only ⟨_, .getNewMessage⟩) fun here =>
        .bind (ih _ _) fun _ => .pure _

/-- A session runs for each call what it says for it. -/
theorem Asks.only {α : Type} {self : Session} {call : QrCall} {p : Query α} (asks : Asks lib N self call p) :
    p.Only (Said N self.userName call) := by
  cases asks with
  | checkUserPassword sent => exact checkUserPassword_only _ sent
  | insertMessage sent => exact .bind (.statement ⟨_, .insertMessage sent⟩) fun _ => .bind .rowid fun _ => .pure _
  | getDiningMembers => exact query_only ⟨_, .getDiningMembers⟩
  | insertConnection sent => exact .bind (.statement ⟨_, .insertConnection sent⟩) fun _ => .pure _
  | insertInvite => exact .bind (.statement ⟨_, .insertInvite⟩) fun _ => .pure _
  | createTable sent =>
      exact .bind (.statement ⟨_, .createTable⟩) fun _ => .bind .rowid fun rowId =>
        .bind (addParticipants_only sent (wrap 32 rowId) 0) fun _ => .pure _
  | getNewMessage => exact .bind (query_only ⟨_, .getTable⟩) fun keys => getNewMessageInTables_only keys _ _
  | getNewIvtReq =>
      rw [Qr.getNewIvtReq_fetch]
      exact fetch_only ⟨_, .getNewIvtReq⟩
  | getNewConnectionReq =>
      rw [Qr.getNewConnectionReq_fetch]
      exact fetch_only ⟨_, .getNewConnectionReq⟩
  | getFriendList =>
      exact .bind (.statement ⟨_, .friendsBehind⟩) fun _ => .bind (lift_only _) fun _ =>
        .bind (.statement ⟨_, .friendsBefore⟩) fun _ => .bind (lift_only _) fun _ => .pure _

/-- A move runs what its session says. -/
theorem Move.performs {w t : World σ} (move : Move lib N w t) :
    ∃ es, Performs lib.engine (Said N w.self.userName) es w t := by
  have silent : ∀ {v : World σ}, v.db = w.db → v.log = w.log →
      ∃ es, Performs lib.engine (Said N w.self.userName) es w v := fun db log =>
    ⟨[], .of_same db (by rw [log, List.append_nil]) (by simp)⟩
  have checked : ∀ {id pw : Str} (result : Bool), N id →
      ∃ es, Performs lib.engine (Said N w.self.userName) es w (w.checkedPassword lib id pw result) := fun result sent =>
    have other : ∀ call text, Event.exec call text ∉ [.login result] := by simp
    ⟨_, (Performs.ran (checkUserPassword_only _ sent)).trans (.of_same rfl rfl other)⟩
  have listed : ∀ {id pw : Str}, N id →
      ∃ es, Performs lib.engine (Said N w.self.userName) es w ((w.checkedPassword lib id pw true).listed lib id) :=
    fun sent => (checked true sent).imp' _ fun _ first => first.trans (Performs.ran (getCheckList_only sent))
  cases move with
  | internal internal =>
      obtain ⟨es, log, own⟩ := internal.log
      exact ⟨es, .of_same internal.db log fun call text member => own _ member⟩
  | halted _ => exact silent rfl rfl
  | connected _ => exact silent rfl rfl
  | asks _ asks => exact ⟨_, .ran asks.only⟩
  | notify _ user task =>
      unfold World.notify
      split
      · exact ⟨[.renew user task], .of_same rfl rfl (by simp)⟩
      · exact silent rfl rfl
  | refused _ sent _ => exact checked false sent
  | admitted _ sent _ _ =>
      obtain ⟨es, made⟩ := listed sent
      exact ⟨es, made.log, made.db, made.meets⟩
  | unlisted _ sent _ _ =>
      obtain ⟨es, made⟩ := listed sent
      exact ⟨es, made.log, made.db, made.meets⟩
  | answers _ _ => exact ⟨[_], .of_same rfl rfl (by simp)⟩
  | noticed _ _ _ _ _ => exact silent rfl rfl

/-- Whom a session speaks for was sent to it. -/
theorem Move.userName {w t : World σ} (move : Move lib N w t) :
    t.self.userName = w.self.userName ∨ N t.self.userName := by
  cases move with
  | internal internal => exact .inl internal.userName
  | notify _ user task =>
      unfold World.notify
      split <;> exact .inl rfl
  | admitted _ sent _ _ => exact .inr sent
  | _ => exact .inl rfl

end

/-! ## Runs of a server -/

section
variable {σ : Type} {lib : External σ} {numeric : Str → Value} {view : σ → Store} {C : Unset → Prop}

/-- A text without double quotes. -/
abbrev Unquoted (s : Str) : Prop := 34 ∉ s

theorem Move.plain {w t : World σ} (move : Move lib Unquoted w t) (plain : 34 ∉ w.self.userName) :
    34 ∉ t.self.userName := by
  rcases move.userName with same | sent
  · rwa [same]
  · exact sent

theorem execAll_grows (lawful : lib.engine.Lawful numeric view) {K : Str → Prop} {list : List Str} (db : σ)
    (means : ∀ text ∈ list, ∃ s, Faithful text s ∧ s.AddsTo K) :
    Store.Grows K (view db) (view (execAll lib.engine db list)) := by
  induction list generalizing db with
  | nil => exact .refl _
  | cons text rest ih =>
      obtain ⟨s, faithful, addsTo⟩ := means text (by simp)
      exact (faithful.grows lawful addsTo db).trans (ih _ fun text member => means text (by simp [member]))

theorem Move.grows (lawful : lib.engine.Lawful numeric view) {w t : World σ} (move : Move lib Unquoted w t)
    (plain : 34 ∉ w.self.userName) : Store.Grows InsertedInto (view w.db) (view t.db) := by
  obtain ⟨es, made⟩ := move.performs
  rw [made.db]
  refine execAll_grows lawful w.db fun text member => ?_
  obtain ⟨call, there⟩ := mem_texts.mp member
  obtain ⟨s, told⟩ := made.meets call text there
  exact ⟨s, told.faithful id plain, told.addsTo⟩

theorem growing_knows (lawful : lib.engine.Lawful numeric view) :
    Knows lib Unquoted C (fun s t => Store.Grows InsertedInto (view s.1) (view t.1)) (fun _ => True)
      fun w => 34 ∉ w.self.userName where
  own := fun _ plain move => move.plain plain
  guarantee := fun _ plain move => move.grows lawful plain
  shared := fun _ _ => trivial
  others := fun _ plain _ => plain
  joins := fun _ _ => by simp [Unset.world, Unset.session, Session.accepted]

theorem Pool.Reaches.grows (lawful : lib.engine.Lawful numeric view) {s : σ × NMap} {p : Pool σ}
    (reaches : p.Reaches lib Unquoted C s) : Store.Grows InsertedInto (view s.1) (view p.db) :=
  .chain ((reaches.changed (growing_knows lawful) trivial).lift (fun s : σ × NMap => view s.1) fun _ _ => id)

variable {db : σ} {memory : Unset} {acts : List (PoolAct σ)} {p : Pool σ}

/-- Where no name or text of a client has a double quote, the tables only grow: five of
    them by rows at their ends, the others not at all. -/
theorem tables_grow (lawful : lib.engine.Lawful numeric view)
    (allows : Runs.Each (Pool.next lib) (Pool.Allows Unquoted (fun _ => True)) (Pool.start db memory) acts)
    (ran : Runs.after (Pool.next lib) (Pool.start db memory) acts = some p) :
    Store.Grows InsertedInto (view db) (view p.db) :=
  (Pool.reaches trivial allows ran).grows lawful

end

/-! ## Ann and Bob on a server -/

/-- The login of a user. -/
def loginOf (id pw : Str) : List Byte :=
  request 0 EAction.reqLog.code ++ ofInt 4 id.length ++ ofInt 4 pw.length ++ id ++ pw

/-- A request to connect with a user. -/
def connectWith (user : Str) : List Byte :=
  request 0 EAction.requestConnection.code ++ ofInt 4 0 ++ ofInt 4 user.length ++ ofInt 8 0 ++ user

/-- Two users, who are friends. -/
def twoUsers : Memory :=
  ⟨tables [(str "user", [⟨1, [.text (str "ann"), .text (str "kiwi")]⟩, ⟨2, [.text (str "bob"), .text (str "plum")]⟩]),
    (str "checkList", [⟨1, [.text (str "ann"), .int 0, .int 0, .int 0]⟩,
      ⟨2, [.text (str "bob"), .int 0, .int 0, .int 0]⟩]),
    (str "userPair", [⟨1, [.text (str "ann"), .text (str "bob")]⟩])], 2⟩

/-- Bob looks for his friends, Ann asks him to connect, and he looks again. -/
def annAsksBob : List (PoolAct Memory) :=
  let ann := loginOf (str "ann") (str "kiwi") ++ connectWith (str "bob")
  let look := request 1 ECommand.getFriendList.code
  let bob := loginOf (str "bob") (str "plum") ++ look ++ look
  [.handleAccept 0 (.ok ⟨true, ann, none, []⟩) zeros, .run 0, .handleAccept 1 (.ok ⟨true, bob, none, []⟩) zeros, .run 0] ++
    List.replicate 4 (.session 0 .first) ++ List.replicate 5 (.session 1 .first) ++
    [.session 0 .first, .session 0 .first, .session 1 .first]

theorem annAsksBob_allows : Runs.Each (Pool.next memoryServer) (Pool.Allows Unquoted (fun _ => True))
    (Pool.start twoUsers zeros) annAsksBob := by decide +kernel

theorem annAsksBob_runs : ∃ p, Runs.after (Pool.next memoryServer) (Pool.start twoUsers zeros) annAsksBob = some p :=
  Option.isSome_iff_exists.mp (by decide +kernel)

theorem tables_grow_annAsksBob :
    ∃ p, Runs.after (Pool.next memoryServer) (Pool.start twoUsers zeros) annAsksBob = some p ∧
      Store.Grows InsertedInto twoUsers.store p.db.store := by
  obtain ⟨p, ran⟩ := annAsksBob_runs
  exact ⟨p, ran, tables_grow (Memory.engine_lawful .text _) annAsksBob_allows ran⟩

end NineProject
