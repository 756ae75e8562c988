import NineProject.Insertions
import NineProject.Readers
import NineProject.Session.Returns

/-! # Notices and the rows behind them

Every handler that notifies has stored something first, but it notifies whatever became
of that: a statement that fails is only logged, a new table leaves no invitation at all,
and the recipients of a message are found without asking whether it is in their tables.
-/

namespace NineProject

open Bytes M Effect Sql

variable {σ : Type}

/-! ## Raised flags -/

/-- Any event but a raised flag. -/
def Event.Flagless : Event → Prop
  | .renew _ _ => False
  | _ => True

/-- The events recorded since. -/
def World.since (w t : World σ) : List Event := t.log.drop w.log.length

/-- A step that raises no flag. -/
def Flagless (w t : World σ) : Prop := ∃ es, t.log = w.log ++ es ∧ ∀ e ∈ es, e.Flagless

theorem Flagless.trans {w t u : World σ} (first : Flagless w t) (second : Flagless t u) : Flagless w u := by
  obtain ⟨es, log, none_⟩ := first
  obtain ⟨fs, log', none'⟩ := second
  refine ⟨es ++ fs, by rw [log', log, List.append_assoc], fun e member => ?_⟩
  rcases List.mem_append.mp member with here | there
  · exact none_ e here
  · exact none' e there

/-- The user has flags in the map. -/
def World.Registered (w : World σ) (user : Str) : Prop := (w.nmap.getNotifier user).isSome

instance (w : World σ) (user : Str) : Decidable (w.Registered user) := inferInstanceAs (Decidable (_ = true))

theorem notify_registered (w : World σ) (user other : Str) (task : Nat) :
    (w.notify user task).Registered other ↔ w.Registered other := by
  unfold World.notify
  split
  · unfold World.Registered NMap.notify
    cases w.nmap.getNotifier user <;> rfl
  · rfl

theorem notify_db (w : World σ) (user : Str) (task : Nat) : (w.notify user task).db = w.db := by
  unfold World.notify
  split <;> rfl

theorem notify_self (w : World σ) (user : Str) (task : Nat) : (w.notify user task).self = w.self := by
  unfold World.notify
  split <;> rfl

/-- A list of users is notified, those who have flags. -/
theorem notifyAll (users : List Str) (task : Nat) (w : World σ) :
    let t := users.foldl (fun w user => w.notify user task) w
    t.db = w.db ∧ t.self = w.self ∧
      t.log = w.log ++ (users.filter fun user => w.Registered user).map fun user => .renew user task := by
  induction users generalizing w with
  | nil => simp
  | cons user rest ih =>
      obtain ⟨db, self, log⟩ := ih (w.notify user task)
      simp only [List.foldl_cons]
      refine ⟨db.trans (notify_db w user task), self.trans (notify_self w user task), log.trans ?_⟩
      simp only [notify_registered]
      by_cases known : w.Registered user
      · have logged : (w.notify user task).log = w.log ++ [.renew user task] := by
          rw [World.notify, if_pos (show (w.nmap.getNotifier user).isSome = true from known)]
        rw [logged, List.filter_cons_of_pos (by simpa using known)]
        simp
      · have logged : (w.notify user task).log = w.log := by
          rw [World.notify, if_neg (show ¬ (w.nmap.getNotifier user).isSome = true from known)]
        rw [logged, List.filter_cons_of_neg (by simpa using known)]

/-- What a handler does that notifies: it finds the users, raises their flags and ends
    its task. -/
def announce (recipients : M σ (List Str)) (task : Nat) (finish : M σ Unit) : M σ Unit := do
  let users ← recipients
  nmapNotifyWithList users task
  finish

/-- Of the flags raised by such a handler something holds if it holds of every recipient
    who has flags. -/
theorem announce_iff {recipients : M σ (List Str)} {task : Nat} {finish : M σ Unit} {w : World σ}
    (quiet : Works (fun _ e => e.Flagless) recipients)
    (ends : IfReturns recipients w fun users v =>
      let u := users.foldl (fun w user => w.notify user task) v
      Flagless u (u.exec finish) ∧ (u.exec finish).db = u.db)
    (P : Str → Nat → σ → Prop) :
    (∀ user task', .renew user task' ∈ w.since (w.exec (announce recipients task finish)) →
        P user task' (w.exec (announce recipients task finish)).db) ↔
      IfReturns recipients w fun users v => ∀ user ∈ users, v.Registered user → P user task v.db := by
  have step := quiet w
  cases ran : recipients w with
  | error e v =>
      rw [ran] at step
      have stopped : w.exec (announce recipients task finish) = { v with stopped := some e } := by
        simp [World.exec, announce, bind_apply, ran]
      obtain ⟨es, log, none_⟩ := step.1.log
      rw [stopped]
      refine iff_of_true (fun user task' raised => ?_) fun users v done => by simp [ran] at done
      simp only [World.since, log, List.drop_left] at raised
      exact (none_ _ raised).elim
  | ok users v =>
      rw [ran] at step
      obtain ⟨es, log, none_⟩ := step.log
      obtain ⟨db, -, notified⟩ := notifyAll users task v
      have listed : (nmapNotifyWithList users task : M σ Unit) v =
          .ok () (users.foldl (fun w user => w.notify user task) v) := by
        have ends : Returns (nmapNotifyWithList users task) v fun _ t =>
            t = users.foldl (fun w user => w.notify user task) v := returns_nmapNotifyWithList.mpr rfl
        obtain ⟨a, t, done, rfl⟩ := ends
        exact done
      have finished : w.exec (announce recipients task finish) =
          (users.foldl (fun w user => w.notify user task) v).exec finish := by
        simp [World.exec, announce, bind_apply, ran, listed]
      obtain ⟨⟨fs, last, none'⟩, same⟩ := ends users v ran
      rw [finished, same.trans db]
      have raised : ∀ user task', .renew user task' ∈ w.since
          ((users.foldl (fun w user => w.notify user task) v).exec finish) ↔
            (user ∈ users ∧ v.Registered user) ∧ task' = task := by
        intro user task'
        have calm : .renew user task' ∉ es := fun member => none_ _ member
        have calm' : .renew user task' ∉ fs := fun member => none' _ member
        rw [World.since, last, notified, log, List.append_assoc, List.append_assoc, List.drop_left]
        simp only [List.mem_append, calm, calm', List.mem_map, List.mem_filter, decide_eq_true_eq, false_or,
          or_false, Event.renew.injEq]
        constructor
        · rintro ⟨user', there, rfl, rfl⟩
          exact ⟨there, rfl⟩
        · rintro ⟨there, rfl⟩
          exact ⟨user, there, rfl, rfl⟩
      simp only [raised]
      constructor
      · intro all users' v' done user member known
        cases ran.symm.trans done
        exact all user task ⟨⟨member, known⟩, rfl⟩
      · rintro all user task' ⟨⟨member, known⟩, rfl⟩
        exact all users v ran user member known

/-! ## The four handlers -/

section
variable (lib : External σ)

def messageMembers : M σ (List Str) := do
  let req := MsReq.ofBytes (← get).self.hBuf.data
  let text ← readSource req.sz
  let _ ← runQuery lib .insertMessage (Qr.insertMessage req text)
  runQuery lib .getDiningMembers (Qr.getDiningMembers req.tableKey)

def connectionReceiver : M σ (List Str) := do
  let w ← get
  let receiver ← readSource (ConcRequest.ofBytes w.self.hBuf.data).receiverIdSize
  let _ ← runQuery lib .insertConnection (Qr.insertConnection w.self.userName receiver)
  pure [receiver]

/-- The name that an invitation is for, as it is read. -/
def readTarget (size : Int) : M σ Str := do
  let targetGetter ← lift (PBuffer.ofSize size)
  let bytes ← read .targetGetter size targetGetter.data.length
  lift (targetGetter.receive bytes).toString

def inviteTarget (err : ErrorCode) : M σ (List Str) := do
  when err.isSome (errorHandle err)
  let w ← get
  let req := IvtReq.ofBytes w.self.hBuf.data
  let target ← readTarget req.targetIdSize
  runQuery lib .insertInvite (Qr.insertInvite target w.self.userName req.tableKey)
  pure [target]

def tableParticipants : M σ (List Str) := do
  let w ← get
  let cont ← readInvited (List.replicate 256 0) (CreateTableReq.ofBytes w.self.hBuf.data).participations.toNat
  let key ← runQuery lib .createTable (Qr.createTable w.self.userName cont)
  writeOrThrow (createTableResponse key)
  pure cont

/-- The users that a request notifies. -/
def recipients (err : ErrorCode) : EAction → M σ (List Str)
  | .reqLog => pure []
  | .sendMsg => messageMembers lib
  | .requestConnection => connectionReceiver lib
  | .requestInvite => inviteTarget lib err
  | .requestCreateTable => tableParticipants lib

/-- The flag that it raises. -/
def EAction.flag : EAction → Nat
  | .reqLog | .sendMsg => CheckListIndex.messageArr
  | .requestConnection => CheckListIndex.connectionReq
  | .requestInvite | .requestCreateTable => CheckListIndex.tableIvt

theorem actionHandler_announces {a : EAction} (request : a ≠ .reqLog) (err : ErrorCode) :
    actionHandler lib a err = announce (recipients lib err a) a.flag (taskEnd lib err) := by
  cases a with
  | reqLog => exact absurd rfl request
  | sendMsg =>
      simp [actionHandler, responseActSendMsg, announce, recipients, messageMembers, EAction.flag]
  | requestConnection =>
      simp [actionHandler, responseActConnect, announce, recipients, connectionReceiver, EAction.flag,
        nmapNotifyWithList]
  | requestInvite =>
      simp [actionHandler, responseActInvite, announce, recipients, inviteTarget, readTarget, EAction.flag,
        nmapNotifyWithList]
  | requestCreateTable =>
      simp only [actionHandler, responseActCreateChatTable, announce, recipients, tableParticipants, EAction.flag,
        bind_assoc, pure_bind]

theorem recipients_quiet (err : ErrorCode) (a : EAction) :
    Works (fun _ e => e.Flagless) (recipients lib err a) := by
  have source : ∀ size, Works (fun _ e => e.Flagless) (readSource size : M σ Str) :=
    fun size => readSource_works (fun _ _ _ => trivial) (fun _ => trivial) size
  cases a with
  | reqLog => exact Within.pure _
  | sendMsg =>
      refine .bind .get fun w => .bind (source _) fun text => ?_
      exact .bind (runQuery_works lib (fun _ _ => trivial) _) fun _ => runQuery_works lib (fun _ _ => trivial) _
  | requestConnection =>
      refine .bind .get fun w => .bind (source _) fun receiver => ?_
      exact .bind (runQuery_works lib (fun _ _ => trivial) _) fun _ => .pure _
  | requestInvite =>
      refine .bind (when_works (errorHandle_works err)) fun _ => .bind .get fun w => ?_
      refine .bind (.bind (lift_works _) fun getter => .bind (read_works fun _ => trivial) fun bytes =>
        lift_works _) fun target => ?_
      exact .bind (runQuery_works lib (fun _ _ => trivial) _) fun _ => .pure _
  | requestCreateTable =>
      refine .bind .get fun w => .bind (readInvited_works (fun _ _ _ _ => trivial) _ _) fun cont => ?_
      refine .bind (runQuery_works lib (fun _ _ => trivial) _) fun key => ?_
      exact .bind (writeOrThrow_works (fun _ _ => trivial) _) fun _ => .pure _

/-- The end of a task raises no flag and leaves the database alone. -/
theorem taskEnd_quiet {w : World σ} {h : Pchd} (queue : w.self.pc.hQue = [h]) (err : ErrorCode) :
    Flagless w (w.exec (taskEnd lib err)) ∧ (w.exec (taskEnd lib err)).db = w.db := by
  have one : w.ended.self.pc.hQue = [] := by simp [World.ended, World.pop, World.touchSource, queue]
  have ended : Flagless w w.ended :=
    ⟨[.pop w.popped w.ticket, .source w.pop.sourceBusy], by simp [World.ended, World.pop, World.touchSource],
      by simp [Event.Flagless]⟩
  have same : w.exec (taskEnd lib err) = w.ended.exec (sessionTask lib (taskEndWithin lib 0) err) :=
    exec_congr (taskEnd_eq lib queue err)
  rw [same]
  cases err with
  | none =>
      have waits : w.ended.exec (sessionTask lib (taskEndWithin lib 0) none) = w.ended.waits := by
        rw [World.exec, sessionTask_waits lib one]
      rw [waits]
      exact ⟨ended.trans ⟨[.read .header Pchd.size w.ended.self.pc.iData.length], rfl, by simp [Event.Flagless]⟩, rfl⟩
  | some f =>
      have closed : w.ended.exec (sessionTask lib (taskEndWithin lib 0) (some f)) =
          w.ended.exec (errorHandle (some f)) := exec_congr (by simp [sessionTask])
      rw [closed]
      unfold errorHandle
      split
      · exact ⟨ended.trans ⟨[], (List.append_nil _).symm, by simp⟩, rfl⟩
      · exact ⟨ended.trans ⟨[], (List.append_nil _).symm, by simp⟩, rfl⟩

/-- Of the flags that a request raises something holds if it holds of every recipient. -/
theorem action_raises_iff {w : World σ} {h : Pchd} (queue : w.self.pc.hQue = [h]) {a : EAction}
    (request : a ≠ .reqLog) (err : ErrorCode) (P : Str → Nat → σ → Prop) :
    (∀ user task, .renew user task ∈ w.since (w.exec (actionHandler lib a err)) →
        P user task (w.exec (actionHandler lib a err)).db) ↔
      IfReturns (recipients lib err a) w fun users v =>
        ∀ user ∈ users, v.Registered user → P user a.flag v.db := by
  rw [actionHandler_announces lib request]
  refine announce_iff (recipients_quiet lib err a) (fun users v ran => ?_) P
  have step := recipients_quiet lib err a w
  rw [ran] at step
  obtain ⟨-, self, -⟩ := notifyAll users a.flag v
  exact taskEnd_quiet lib (by rw [self, step.pc, queue]) err

end

/-! ## Reading the request -/

/-- Work that concerns neither the database nor who is known. -/
structure Aside (w t : World σ) : Prop where
  db : t.db = w.db
  nmap : t.nmap = w.nmap
  userName : t.self.userName = w.self.userName

namespace Aside

instance : Std.Refl (Aside (σ := σ)) := ⟨fun _ => ⟨rfl, rfl, rfl⟩⟩

instance : IsTrans (World σ) Aside :=
  ⟨fun _ _ _ first second => ⟨second.db.trans first.db, second.nmap.trans first.nmap,
    second.userName.trans first.userName⟩⟩

theorem registered {w t : World σ} (aside : Aside w t) (user : Str) : t.Registered user ↔ w.Registered user := by
  unfold World.Registered
  rw [aside.nmap]

theorem lift {α : Type} (r : Except Fault α) : Within Aside (fun _ => True) (M.lift r : M σ α) := by
  cases r with
  | ok a => exact Within.pure a
  | error e => exact Within.throw trivial

theorem read (dest : Dest) (asked : Int) (allocated : Nat) :
    Within Aside (fun _ => True) (M.read dest asked allocated : M σ (List Byte)) := by
  refine Within.bind (Within.modify fun w => ⟨rfl, rfl, rfl⟩) fun _ => Within.bind Within.get fun w => ?_
  refine Within.ite (Within.pure _) (Within.ite (Within.throw trivial)
    (Within.ite (Within.throw trivial) (Within.ite ?_ ?_)))
  · exact Within.bind (Within.modify fun w => ⟨rfl, rfl, rfl⟩) fun _ => Within.pure _
  · cases w.self.socket.fault with
    | some f => exact Within.throw trivial
    | none => exact Within.throw trivial

theorem readSource (size : Int) : Within Aside (fun _ => True) (readSource size : M σ Str) := by
  have touched : ∀ f, Within Aside (fun _ => True) (touchSource f : M σ Unit) :=
    fun f => Within.modify fun w => ⟨rfl, rfl, rfl⟩
  refine Within.bind (touched _) fun _ => Within.bind Within.get fun _ => Within.bind (read _ _ _) fun bytes => ?_
  exact Within.bind (touched _) fun _ => Within.bind Within.get fun _ => lift _

theorem readTarget (size : Int) : Within Aside (fun _ => True) (readTarget size : M σ Str) :=
  Within.bind (lift _) fun _ => Within.bind (read _ _ _) fun _ => lift _

theorem readInvited (data : List Byte) (n : Nat) :
    Within Aside (fun _ => True) (readInvited data n : M σ (List Str)) := by
  induction n generalizing data with
  | zero => exact Within.pure _
  | succ n ih =>
      refine Within.bind (read _ _ _) fun us => Within.bind (read _ _ _) fun bytes => ?_
      exact Within.bind (Within.ite (Within.throw trivial) (Within.pure _)) fun _ =>
        Within.bind (Within.ite (Within.throw trivial) (Within.pure _)) fun _ =>
          Within.bind (ih _) fun rest => Within.pure _

theorem writing (w : World σ) (bytes : List Byte) : Aside w (w.writing bytes).2 := by
  simp only [World.writing]
  split_ifs
  · exact ⟨rfl, rfl, rfl⟩
  · exact ⟨rfl, rfl, rfl⟩
  · cases w.self.socket.writes.head?.join <;> exact ⟨rfl, rfl, rfl⟩

end Aside

/-- How a write turns out depends on the socket alone. -/
theorem writing_same {u v : World σ} (same : u.self.socket = v.self.socket) (bytes : List Byte) :
    (u.writing bytes).1 = (v.writing bytes).1 := by
  unfold World.writing
  simp only [same]
  split_ifs
  · rfl
  · rfl
  · cases v.self.socket.writes.head?.join <;> rfl

@[simp] theorem ifReturns_lift {α : Type} {r : Except Fault α} {w : World σ} {Q : α → World σ → Prop} :
    IfReturns (lift r) w Q ↔ ∀ a, r = .ok a → Q a w := by
  cases r with
  | ok a => simp [M.lift]
  | error e => simp [M.lift]

@[simp] theorem ifReturns_runQuery {α : Type} {lib : External σ} {call : QrCall} {p : Query α} {w : World σ}
    {Q : α → World σ → Prop} : IfReturns (runQuery lib call p) w Q ↔
      ∀ a, (p.run lib.engine w.db).result = .ok a → Q a (w.ran call (p.run lib.engine w.db)) := by
  simp [M.runQuery]

@[simp] theorem ifReturns_write {bytes : List Byte} {w : World σ} {Q : ErrorCode → World σ → Prop} :
    IfReturns (write bytes) w Q ↔ Q (w.writing bytes).1 (w.writing bytes).2 := by
  simp [IfReturns, write_eq]

theorem ifReturns_writeOrThrow {bytes : List Byte} {w : World σ} {Q : Unit → World σ → Prop} :
    IfReturns (writeOrThrow bytes) w Q ↔ ((w.writing bytes).1 = none → Q () (w.writing bytes).2) := by
  simp only [M.writeOrThrow, ifReturns_bind, ifReturns_write]
  cases (w.writing bytes).1 <;> simp

/-! ## Backed flags -/

/-- The tables that notices are about have the columns of the descriptors. -/
structure Schema (s : Store) : Prop where
  invite : (s (str "invite")).columns =
    [⟨str "target", .text⟩, ⟨str "tableKey", .numeric⟩, ⟨str "sender", .text⟩, ⟨str "time", .numeric⟩]
  connectionRequest : (s (str "connectionRequest")).columns =
    [⟨str "sender", .text⟩, ⟨str "receiver", .text⟩, ⟨str "time", .numeric⟩]
  ms : (s (str "ms")).columns = msColumns

/-- The key is one of the tables that `get_table` lists. -/
def Lists (E : Engine σ) (db : σ) (user : Str) (key : Int) : Prop :=
  ∃ keys, ((Qr.getTable user).run E db).result = .ok keys ∧ key ∈ keys

/-- Between the two states a row was added that the fetch behind the flag selects for the
    user. -/
def Backs (E : Engine σ) (view : σ → Store) (before after : σ) (user : Str) (task : Nat) : Prop :=
  if task = CheckListIndex.messageArr then
    ∃ key, Lists E after user key ∧
      (view before).Gains (view after) (str "ms") fun r => r.cells[0]? = some (.int key)
  else if task = CheckListIndex.tableIvt then
    (view before).Gains (view after) (str "invite") fun r => r.cells[0]? = some (.text user)
  else
    (view before).Gains (view after) (str "connectionRequest") fun r => r.cells[1]? = some (.text user)

/-- Every flag raised between the two worlds is backed. -/
def Backed (E : Engine σ) (view : σ → Store) (w t : World σ) : Prop :=
  ∀ user task, .renew user task ∈ w.since t → Backs E view w.db t.db user task

/-- The statement adds a row to the table. -/
def Inserts (E : Engine σ) (view : σ → Store) (db : σ) (text table : Str) : Prop :=
  ∃ r, (view db).Adds (view (E.exec db text).1) table r

section
variable {lib : External σ} {numeric : Str → Value} {view : σ → Store}

theorem insertConnection_run (sender target : Str) (db : σ) (E : Engine σ) :
    (Qr.insertConnection sender target).run E db =
      ⟨.ok 0, (E.exec db (insertQueryWithPairStr .connectionRequest (0, sender) (1, target))).1,
        [insertQueryWithPairStr .connectionRequest (0, sender) (1, target)]⟩ := by
  simp [Qr.insertConnection, Program.run_bind]

/-- A connection request is backed when the insertion succeeds. -/
theorem connection_backs_iff (lawful : lib.engine.Lawful numeric view) {db : σ} (schema : Schema (view db))
    {sender target : Str} (plain : 34 ∉ sender) (plain' : 34 ∉ target) :
    Backs lib.engine view db ((Qr.insertConnection sender target).run lib.engine db).db target
        CheckListIndex.connectionReq ↔
      Inserts lib.engine view db (insertQueryWithPairStr .connectionRequest (0, sender) (1, target))
        (str "connectionRequest") := by
  rw [insertConnection_run]
  have means := connection_means plain plain'
  refine (means.gains_iff lawful).trans (exists_congr fun r => and_iff_left_of_imp fun adds => ?_)
  obtain ⟨default, cells⟩ := means.cells lawful adds
  rw [cells, Insert.cells, show (view db (connectionInsert sender target).table).columns = _ from
    schema.connectionRequest]
  rfl

theorem insertInvite_run (target sender : Str) (tableKey : Int) (db : σ) (E : Engine σ) :
    (Qr.insertInvite target sender tableKey).run E db =
      ⟨.ok (), (E.exec db (insertQueryWithPair3 .invite (0, .string target) (1, .int tableKey)
        (2, .string sender))).1, [insertQueryWithPair3 .invite (0, .string target) (1, .int tableKey)
        (2, .string sender)]⟩ := by
  simp [Qr.insertInvite, Program.run_bind]

theorem invite_backs_iff (lawful : lib.engine.Lawful numeric view) {db : σ} (schema : Schema (view db))
    {target sender : Str} (tableKey : Int) (plain : 34 ∉ target) (plain' : 34 ∉ sender) :
    Backs lib.engine view db ((Qr.insertInvite target sender tableKey).run lib.engine db).db target
        CheckListIndex.tableIvt ↔
      Inserts lib.engine view db (insertQueryWithPair3 .invite (0, .string target) (1, .int tableKey)
        (2, .string sender)) (str "invite") := by
  rw [insertInvite_run]
  have means := invite_means tableKey plain plain'
  refine (means.gains_iff lawful).trans (exists_congr fun r => and_iff_left_of_imp fun adds => ?_)
  obtain ⟨default, cells⟩ := means.cells lawful adds
  rw [cells, Insert.cells, show (view db (inviteInsert target sender tableKey).table).columns = _ from
    schema.invite]
  rfl

theorem getDiningMembers_db (lawful : lib.engine.Lawful numeric view) (tableKey : Int) (db : σ) :
    ((Qr.getDiningMembers tableKey).run lib.engine db).db = db := by
  simp only [Qr.getDiningMembers, query_run, getDiningMembers_exec lawful]

theorem insertMessage_run (rq : MsReq) (text : Str) (db : σ) (E : Engine σ) :
    let insert := insertQueryWithPair4 .message (0, .int rq.tableKey) (1, .int rq.sender) (2, .string text)
      (4, .int rq.uncheck)
    (Qr.insertMessage rq text).run E db =
      ⟨.ok (wrap 32 (E.lastInsertRowid (E.exec db insert).1)), (E.exec db insert).1, [insert]⟩ := by
  simp [Qr.insertMessage, Program.run_bind]

/-- The insertion leaves a message in a table of the user: with a plain text, it succeeds
    and the table is one of theirs. -/
def LeavesMessage (E : Engine σ) (view : σ → Store) (db : σ) (rq : MsReq) (text user : Str) : Prop :=
  let insert := insertQueryWithPair4 .message (0, .int rq.tableKey) (1, .int rq.sender) (2, .string text)
    (4, .int rq.uncheck)
  if 34 ∈ text then
    ∃ key, Lists E (E.exec db insert).1 user key ∧
      (view db).Gains (view (E.exec db insert).1) (str "ms") fun r => r.cells[0]? = some (.int key)
  else Lists E (E.exec db insert).1 user rq.tableKey ∧ Inserts E view db insert (str "ms")

theorem message_backs_iff (lawful : lib.engine.Lawful numeric view) {db : σ} (schema : Schema (view db))
    (rq : MsReq) (text user : Str) :
    Backs lib.engine view db ((Qr.insertMessage rq text).run lib.engine db).db user CheckListIndex.messageArr ↔
      LeavesMessage lib.engine view db rq text user := by
  rw [insertMessage_run, Backs, if_pos rfl, LeavesMessage]
  split
  · rfl
  · next plain =>
      have means := message_means rq plain
      have key : ∀ r, (view db).Adds (view (lib.engine.exec db (insertQueryWithPair4 .message
          (0, .int rq.tableKey) (1, .int rq.sender) (2, .string text) (4, .int rq.uncheck))).1) (str "ms") r →
          r.cells[0]? = some (.int rq.tableKey) := fun r adds => by
        obtain ⟨default, cells⟩ := means.cells lawful adds
        rw [cells, Insert.cells, show (view db (messageInsert rq text).table).columns = _ from schema.ms]
        rfl
      constructor
      · rintro ⟨k, lists, gains⟩
        obtain ⟨r, adds, same⟩ := (means.gains_iff lawful).mp gains
        cases (key r adds).symm.trans same
        exact ⟨lists, r, adds⟩
      · rintro ⟨lists, r, adds⟩
        exact ⟨rq.tableKey, lists, (means.gains_iff lawful).mpr ⟨r, adds, key r adds⟩⟩

theorem execAll_elsewhere (lawful : lib.engine.Lawful numeric view) {tableKey index : Int} {users : List Str}
    (plain : ∀ user ∈ users, 34 ∉ user) {table : Str} (other : table ≠ str "part") (db : σ) :
    view (execAll lib.engine db (participateTexts tableKey index users)) table = view db table := by
  induction users generalizing index db with
  | nil => rfl
  | cons user rest ih =>
      refine (ih (fun user member => plain user (List.mem_cons_of_mem _ member)) _).trans ?_
      exact (participate_means tableKey index (plain user List.mem_cons_self)).elsewhere lawful db other

/-- A new table leaves no invitation. -/
theorem createTable_unbacked (lawful : lib.engine.Lawful numeric view) {host : Str} {cont : List Str}
    (plain : 34 ∉ host) (plain' : ∀ user ∈ cont, 34 ∉ user) (db : σ) (user : Str) :
    ¬ Backs lib.engine view db ((Qr.createTable host cont).run lib.engine db).db user CheckListIndex.tableIvt := by
  rintro ⟨r, new, old, -⟩
  have apart : str "invite" ≠ str "chatTable" := by decide
  simp only [createTable_run] at new
  rw [execAll_elsewhere lawful plain' (by decide), (table_means cont plain).elsewhere lawful db apart] at new
  exact old new

end

/-! ## Requests -/

/-- The names that come with the request hold no double quote. -/
def PlainNames (w : World σ) : EAction → Prop
  | .reqLog | .sendMsg => True
  | .requestConnection => IfReturns (readSource (ConcRequest.ofBytes w.self.hBuf.data).receiverIdSize) w
      fun receiver _ => 34 ∉ receiver
  | .requestInvite => IfReturns (readTarget (IvtReq.ofBytes w.self.hBuf.data).targetIdSize) w
      fun target _ => 34 ∉ target
  | .requestCreateTable => IfReturns (readInvited (List.replicate 256 0)
      (CreateTableReq.ofBytes w.self.hBuf.data).participations.toNat) w fun cont _ => ∀ user ∈ cont, 34 ∉ user

/-- What it takes for the request: a registered recipient's insertion succeeds, and no one
    is registered who is invited to a new table. -/
def Recorded (lib : External σ) (view : σ → Store) (w : World σ) : EAction → Prop
  | .reqLog => True
  | .sendMsg =>
      let rq := MsReq.ofBytes w.self.hBuf.data
      IfReturns (readSource rq.sz) w fun text _ => ∀ members,
        ((Qr.getDiningMembers rq.tableKey).run lib.engine
          ((Qr.insertMessage rq text).run lib.engine w.db).db).result = .ok members →
        ∀ user ∈ members, w.Registered user → LeavesMessage lib.engine view w.db rq text user
  | .requestConnection =>
      IfReturns (readSource (ConcRequest.ofBytes w.self.hBuf.data).receiverIdSize) w fun receiver _ =>
        w.Registered receiver → Inserts lib.engine view w.db
          (insertQueryWithPairStr .connectionRequest (0, w.self.userName) (1, receiver)) (str "connectionRequest")
  | .requestInvite =>
      let rq := IvtReq.ofBytes w.self.hBuf.data
      IfReturns (readTarget rq.targetIdSize) w fun target _ =>
        w.Registered target → Inserts lib.engine view w.db (insertQueryWithPair3 .invite (0, .string target)
          (1, .int rq.tableKey) (2, .string w.self.userName)) (str "invite")
  | .requestCreateTable =>
      IfReturns (readInvited (List.replicate 256 0)
          (CreateTableReq.ofBytes w.self.hBuf.data).participations.toNat) w fun cont v =>
        (v.writing (createTableResponse (newKey lib.engine w.self.userName cont w.db))).1 = none →
          ∀ user ∈ cont, ¬ w.Registered user

section
variable {lib : External σ} {numeric : Str → Value} {view : σ → Store}

theorem login_unflagged (w : World σ) : Backed lib.engine view w (w.exec (readIdAndPassword none)) := by
  intro user task raised
  let size := wrap 32 (field w.self.hBuf.data 0 1 + field w.self.hBuf.data 4 1)
  have ran : readIdAndPassword none w = (lift (PBuffer.ofSize size) >>= fun idpw =>
      asyncRead (.login idpw (field w.self.hBuf.data 0 1) (field w.self.hBuf.data 4 1)) .idpw
        fun _ => idpw.data.length : M σ Unit) w := rfl
  rw [World.since, exec_congr ran] at raised
  cases made : PBuffer.ofSize size with
  | error e => simp [World.exec, bind_apply, made, M.lift] at raised
  | ok idpw => simp [World.exec, bind_apply, made, M.lift, M.asyncRead, World.started, World.logged] at raised

theorem connection_recorded_iff (lawful : lib.engine.Lawful numeric view) {w : World σ}
    (schema : Schema (view w.db)) (plain : 34 ∉ w.self.userName) (names : PlainNames w .requestConnection) :
    (IfReturns (connectionReceiver lib) w fun users v => ∀ user ∈ users, v.Registered user →
        Backs lib.engine view w.db v.db user CheckListIndex.connectionReq) ↔
      Recorded lib view w .requestConnection := by
  simp only [connectionReceiver, ifReturns_bind, ifReturns_get, ifReturns_runQuery, ifReturns_pure,
    List.mem_singleton, forall_eq]
  refine ifReturns_congr fun receiver v ran => ?_
  have aside := (Aside.readSource _).returned ran
  have stored := connection_backs_iff lawful schema plain (names receiver v ran)
  rw [insertConnection_run] at stored
  simp only [aside.db, insertConnection_run, Except.ok.injEq, forall_eq']
  exact imp_congr (aside.registered receiver) stored

theorem invite_recorded_iff (lawful : lib.engine.Lawful numeric view) {w : World σ}
    (schema : Schema (view w.db)) (plain : 34 ∉ w.self.userName) (names : PlainNames w .requestInvite) :
    (IfReturns (inviteTarget lib none) w fun users v => ∀ user ∈ users, v.Registered user →
        Backs lib.engine view w.db v.db user CheckListIndex.tableIvt) ↔ Recorded lib view w .requestInvite := by
  simp only [inviteTarget, M.when, Option.isSome_none, Bool.false_eq_true, if_false, ifReturns_bind, ifReturns_get,
    ifReturns_runQuery, ifReturns_pure, List.mem_singleton, forall_eq]
  refine ifReturns_congr fun target v ran => ?_
  have aside := (Aside.readTarget _).returned ran
  have stored := invite_backs_iff lawful schema (IvtReq.ofBytes w.self.hBuf.data).tableKey (names target v ran) plain
  rw [insertInvite_run] at stored
  simp only [aside.db, insertInvite_run, forall_const]
  exact imp_congr (aside.registered target) stored

theorem table_recorded_iff (lawful : lib.engine.Lawful numeric view) {w : World σ}
    (plain : 34 ∉ w.self.userName) (names : PlainNames w .requestCreateTable) :
    (IfReturns (tableParticipants lib) w fun users v => ∀ user ∈ users, v.Registered user →
        Backs lib.engine view w.db v.db user CheckListIndex.tableIvt) ↔
      Recorded lib view w .requestCreateTable := by
  simp only [tableParticipants, ifReturns_bind, ifReturns_get, ifReturns_runQuery, ifReturns_writeOrThrow,
    ifReturns_pure]
  refine ifReturns_congr fun cont v ran => ?_
  have aside := (Aside.readInvited _ _).returned ran
  have unbacked := createTable_unbacked lawful plain (names cont v ran) w.db
  simp only [aside.db, createTable_run, Except.ok.injEq, forall_eq'] at unbacked ⊢
  refine imp_congr (by rw [writing_same]; rfl) (forall_congr' fun user => imp_congr_right fun _ => ?_)
  rw [(Aside.writing _ _).registered, (Aside.writing _ _).db]
  exact ⟨fun backs known => unbacked user (backs ((aside.registered user).mpr known)),
    fun unknown known => absurd ((aside.registered user).mp known) unknown⟩

theorem message_recorded_iff (lawful : lib.engine.Lawful numeric view) {w : World σ}
    (schema : Schema (view w.db)) :
    (IfReturns (messageMembers lib) w fun users v => ∀ user ∈ users, v.Registered user →
        Backs lib.engine view w.db v.db user CheckListIndex.messageArr) ↔ Recorded lib view w .sendMsg := by
  simp only [messageMembers, ifReturns_bind, ifReturns_get, ifReturns_runQuery]
  refine ifReturns_congr fun text v ran => ?_
  have aside := (Aside.readSource _).returned ran
  have stored := message_backs_iff lawful schema (MsReq.ofBytes w.self.hBuf.data) text
  rw [insertMessage_run] at stored
  simp only [aside.db, insertMessage_run, Except.ok.injEq, forall_eq']
  refine forall_congr' fun members => imp_congr_right fun _ => forall_congr' fun user => imp_congr_right fun _ =>
    imp_congr (aside.registered user) ?_
  show Backs _ _ _ ((Qr.getDiningMembers _).run lib.engine _).db _ _ ↔ _
  rw [getDiningMembers_db lawful]
  exact stored user

/-- The flags that a request raises are backed exactly when what it stores for each
    registered recipient was stored. -/
theorem action_backed_iff (lawful : lib.engine.Lawful numeric view) {w : World σ} {h : Pchd} {a : EAction}
    (queue : w.self.pc.hQue = [h]) (schema : Schema (view w.db)) (plain : 34 ∉ w.self.userName)
    (names : PlainNames w a) :
    Backed lib.engine view w (w.exec (actionHandler lib a none)) ↔ Recorded lib view w a := by
  have raises : ∀ {a : EAction}, a ≠ .reqLog →
      (Backed lib.engine view w (w.exec (actionHandler lib a none)) ↔
        IfReturns (recipients lib none a) w fun users v =>
          ∀ user ∈ users, v.Registered user → Backs lib.engine view w.db v.db user a.flag) :=
    fun request => action_raises_iff lib queue request none fun user task db =>
      Backs lib.engine view w.db db user task
  cases a with
  | reqLog => exact iff_of_true (login_unflagged w) trivial
  | sendMsg => exact (raises (by decide)).trans (message_recorded_iff lawful schema)
  | requestConnection => exact (raises (by decide)).trans (connection_recorded_iff lawful schema plain names)
  | requestInvite => exact (raises (by decide)).trans (invite_recorded_iff lawful schema plain names)
  | requestCreateTable => exact (raises (by decide)).trans (table_recorded_iff lawful plain names)

end

/-! ## Bob, whom Ann invites and asks to connect -/

/-- The header of a request for a new table is in front. -/
def createHeader : Pchd := { Pchd.empty with comd := EAction.requestCreateTable.code }

/-- Ann's session has read a request for a table with one participant, who is to be read. -/
def annInvites (users : List (Str × Nat)) : World Memory :=
  { annWaits (UserDescriptor.toBytes ⟨3, 0⟩ ++ str "bob") [] with
    self := { annSession (UserDescriptor.toBytes ⟨3, 0⟩ ++ str "bob") with
      pc := ⟨(client []).pc.iData, [createHeader]⟩
      hBuf := { (client []).hBuf with data := poke (List.replicate 32 0) 0 (ofInt 4 3 ++ ofInt 4 1) } }
    nmap := ⟨users, [NotificationArr.fresh, NotificationArr.fresh]⟩
    pending := [] }

/-- It has read one to connect with Bob, who has flags. -/
def annConnects : World Memory :=
  { annInvites [(str "bob", 1)] with
    self := { (annInvites []).self with
      socket := { (annInvites []).self.socket with input := str "bob" }
      hBuf := { (client []).hBuf with data := poke (List.replicate 32 0) 0 (ofInt 4 0 ++ ofInt 4 3 ++ ofInt 8 0) } } }

theorem annConnects_recorded : Recorded memoryServer Memory.store annConnects .requestConnection := by
  have bob : IfReturns (readSource (ConcRequest.ofBytes annConnects.self.hBuf.data).receiverIdSize) annConnects
      fun receiver _ => receiver = str "bob" := by decide +kernel
  intro receiver v ran _
  obtain rfl := bob receiver v ran
  have means : Means (insertQueryWithPairStr .connectionRequest (0, str "ann") (1, str "bob"))
      (connectionInsert (str "ann") (str "bob")) := connection_means (by decide) (by decide)
  rcases means.outcome (Memory.engine_lawful .text _) annConnects.db with same | ⟨default, r, -, adds⟩
  · have stored : (((memoryServer.engine).exec annConnects.db (insertQueryWithPairStr .connectionRequest (0, str "ann")
        (1, str "bob"))).1.store (str "connectionRequest")).rows ≠ [] := by decide +kernel
    exact absurd (congrArg (fun db => (db (str "connectionRequest")).rows) same) stored
  · exact ⟨r, adds⟩

/-- A flag of Bob's is raised, and the request is there. -/
theorem action_backed_bob :
    .renew (str "bob") CheckListIndex.connectionReq ∈
        annConnects.since (annConnects.exec (actionHandler memoryServer .requestConnection none)) ∧
      Backed memoryServer.engine Memory.store annConnects
        (annConnects.exec (actionHandler memoryServer .requestConnection none)) := by
  have names : PlainNames annConnects .requestConnection := show IfReturns _ _ _ by decide +kernel
  exact ⟨by decide +kernel, (action_backed_iff (Memory.engine_lawful .text _) rfl ⟨rfl, rfl, rfl⟩ (by decide) names).mpr
    annConnects_recorded⟩

/-- Bob is told of an invitation, and there is none. -/
theorem invitation_unbacked :
    ¬ ∀ (w : World Memory) (h : Pchd) (a : EAction), w.self.pc.hQue = [h] → Schema w.db.store →
      34 ∉ w.self.userName → PlainNames w a →
      Backed memoryServer.engine Memory.store w (w.exec (actionHandler memoryServer a none)) := by
  intro backed
  let w := annInvites [(str "bob", 1)]
  have told : .renew (str "bob") 1 ∈ w.since (w.exec (actionHandler memoryServer .requestCreateTable none)) := by
    decide +kernel
  have uninvited : ((w.exec (actionHandler memoryServer .requestCreateTable none)).db.store
      (str "invite")).rows = [] := by decide +kernel
  have names : PlainNames w .requestCreateTable := show IfReturns _ _ _ by decide +kernel
  obtain ⟨r, new, -⟩ := backed w createHeader .requestCreateTable rfl ⟨rfl, rfl, rfl⟩ (by decide) names
    (str "bob") 1 told
  rw [uninvited] at new
  cases new

end NineProject
