import NineProject.Session.Internal

/-! # What a session can do

Whatever a handler does comes down to a few moves: work on what is the session's own, a
statement for a query that the session may make, a flag raised, the answer to a login, a
reply made of rows, a flag turned into a notice. A move says where its data come from:
names and texts were taken off the connection, and the session speaks for the user who
is logged in. Every step of a session is a sequence of moves, so what holds of runs is
shown by looking at each kind of move once.
-/

namespace NineProject

open Bytes M Effect Sql Relation

variable {σ α : Type}

/-! ## Names and texts of a client -/

/-- What a program returns, if it does. -/
def M.value (m : M σ α) (w : World σ) : Option α :=
  match m w with
  | .ok a _ => some a
  | .error _ _ => none

theorem M.value_eq {m : M σ α} {w t : World σ} {a : α} (ran : m w = .ok a t) : m.value w = some a := by
  simp [M.value, ran]

/-- The names and texts that the handler of an action takes off the connection for its
    statements. The name read for an invitation goes into none. -/
def EAction.texts (a : EAction) (w : World σ) : List Str :=
  let h := w.self.hBuf.data
  match a with
  | .sendMsg => (M.value (readSource (MsReq.ofBytes h).sz) w).toList
  | .requestConnection => (M.value (readSource (ConcRequest.ofBytes h).receiverIdSize) w).toList
  | .requestCreateTable =>
      (M.value (readInvited (List.replicate 256 0) (CreateTableReq.ofBytes h).participations.toNat) w).getD []
  | .reqLog | .requestInvite => []

/-- Those that a completed operation brings. The password is compared and goes into no
    statement. -/
def World.texts (w : World σ) (handler : Handler) (err : ErrorCode) (got : List Byte) : List Str :=
  match handler with
  | .action a => a.texts { w with self := w.self.receivePayload got }
  | .login idpw idSize _ => if err.isSome then [] else [(idpw.receive got).data.take idSize.toNat]
  | .readHeader | .taskEnd _ => []

/-- Those that a session takes up in a step. -/
def World.taken (w : World σ) : Act σ → List Str
  | .complete c => ((w.pending[c.index]?).bind fun op =>
      (transfer op c w.self.socket).map fun t =>
        (w.completing c.index op t.2).texts op.handler c.err t.1).getD []
  | .checkMailBox | .others _ _ => []

/-! ## Moves -/

section
variable (lib : External σ) (N : Str → Prop)

/-- The queries of a session that takes up names and texts in `N`. An invitation is for the
    empty name, whatever was sent. -/
inductive Asks (self : Session) : {α : Type} → QrCall → Query α → Prop
  | checkUserPassword {id pw : Str} (sent : N id) :
      Asks self .checkUserPassword (Qr.checkUserPassword id pw)
  | insertMessage {rq : MsReq} {text : Str} (sent : N text) :
      Asks self .insertMessage (Qr.insertMessage rq text)
  | getDiningMembers {tableKey : Int} : Asks self .getDiningMembers (Qr.getDiningMembers tableKey)
  | insertConnection {receiver : Str} (sent : N receiver) :
      Asks self .insertConnection (Qr.insertConnection self.userName receiver)
  | insertInvite {tableKey : Int} : Asks self .insertInvite (Qr.insertInvite [] self.userName tableKey)
  | createTable {cont : List Str} (sent : ∀ name ∈ cont, N name) :
      Asks self .createTable (Qr.createTable self.userName cont)
  | getNewMessage {p : PBuffer} {lastCheck : Int} :
      Asks self .getNewMessage (Qr.getNewMessage lib p self.userName lastCheck)
  | getNewIvtReq {p : PBuffer} : Asks self .getNewIvtReq (Qr.getNewIvtReq lib self.userName p)
  | getNewConnectionReq {p : PBuffer} {lastCheck : Int} :
      Asks self .getNewConnectionReq (Qr.getNewConnectionReq lib self.userName p lastCheck)
  | getFriendList : Asks self .getFriendList (Qr.getFriendList self.userName)

/-- The cursor that a session has for a kind. -/
def Session.CursorAt (self : Session) (i : Nat) (lastCheck : Int) : Prop :=
  ∃ list, self.checkManager = some list ∧ lastCheck = list.toArray.getD i 0

/-- The rows that answer a command: a fetch for the user of the session returned them,
    and left this database. -/
inductive FetchedFor (self : Session) (db : σ) : ECommand → List ResultRow → Prop
  | getMsg {p : PBuffer} {lastCheck : Int} {before : σ} {f : Fetched}
      (cursor : self.CursorAt CheckListIndex.messageArr lastCheck)
      (result : ((Qr.getNewMessage lib p self.userName lastCheck).run lib.engine before).result = .ok f)
      (left : ((Qr.getNewMessage lib p self.userName lastCheck).run lib.engine before).db = db) :
      FetchedFor self db .getMsg f.rows
  | getIvt {p : PBuffer} {before : σ} {f : Fetched}
      (result : ((Qr.getNewIvtReq lib self.userName p).run lib.engine before).result = .ok f)
      (left : ((Qr.getNewIvtReq lib self.userName p).run lib.engine before).db = db) :
      FetchedFor self db .getIvt f.rows
  | getConnection {p : PBuffer} {lastCheck : Int} {before : σ} {f : Fetched}
      (cursor : self.CursorAt CheckListIndex.connectionReq lastCheck)
      (result : ((Qr.getNewConnectionReq lib self.userName p lastCheck).run lib.engine before).result = .ok f)
      (left : ((Qr.getNewConnectionReq lib self.userName p lastCheck).run lib.engine before).db = db) :
      FetchedFor self db .getConnection f.rows
  | getFriendList {before : σ} {got : List Str × List ResultRow}
      (result : ((Qr.getFriendList self.userName).run lib.engine before).result = .ok got)
      (left : ((Qr.getFriendList self.userName).run lib.engine before).db = db) :
      FetchedFor self db .getFriendList got.2

/-- The session after a password check, with its answer. -/
def World.checkedPassword (w : World σ) (id pw : Str) (result : Bool) : World σ :=
  (w.ran .checkUserPassword ((Qr.checkUserPassword id pw).run lib.engine w.db)).logged (.login result)

/-- And after the check list of the user was asked for. -/
def World.listed (w : World σ) (id : Str) : World σ :=
  w.ran .getCheckList ((Qr.getCheckList id).run lib.engine w.db)

/-- The session of a user. -/
def World.admitted (w : World σ) (id : Str) (list : Vector Int 10) : World σ :=
  World.login { w with self := { w.self with checkManager := some list, userName := id } } id

/-- One move. Only what is on a session's own account, or done to it from outside, is
    still possible for one that stopped. -/
inductive Move (w : World σ) : World σ → Prop
  | internal {t : World σ} (internal : Internal w t) : Move w t
  | halted (stop : Stop) : Move w { w with stopped := some stop }
  /-- The session is put on a connection. -/
  | connected (socket : Socket) : Move w { w with self := { w.self with socket := socket } }
  | asks {call : QrCall} {α : Type} {p : Query α} (running : w.stopped = none) (asks : Asks lib N w.self call p) :
      Move w (w.ran call (p.run lib.engine w.db))
  | notify (running : w.stopped = none) (user : Str) (task : Nat) : Move w (w.notify user task)
  | refused {id pw : Str} (running : w.stopped = none) (sent : N id)
      (result : ((Qr.checkUserPassword id pw).run lib.engine w.db).result = .ok false) :
      Move w (w.checkedPassword lib id pw false)
  | admitted {id pw : Str} {list : Vector Int 10} (running : w.stopped = none) (sent : N id)
      (result : ((Qr.checkUserPassword id pw).run lib.engine w.db).result = .ok true)
      (fetched : ((Qr.getCheckList id).run lib.engine (w.checkedPassword lib id pw true).db).result = .ok list) :
      Move w (((w.checkedPassword lib id pw true).listed lib id).admitted id list)
  /-- The check list of the user cannot be read, which ends the session. -/
  | unlisted {id pw : Str} {e : Fault} (running : w.stopped = none) (sent : N id)
      (result : ((Qr.checkUserPassword id pw).run lib.engine w.db).result = .ok true)
      (failed : ((Qr.getCheckList id).run lib.engine (w.checkedPassword lib id pw true).db).result = .error e) :
      Move w { (w.checkedPassword lib id pw true).listed lib id with stopped := some (.fault e) }
  | answers {c : ECommand} {rows : List ResultRow} (running : w.stopped = none)
      (answers : FetchedFor lib w.self w.db c rows) : Move w (w.logged (.reply c rows))
  | noticed {pointer : Nat} {flags : NotificationArr} {kind : Nat × Nat × ECommand} (running : w.stopped = none)
      (nf : w.self.nf = some pointer) (at_ : w.nmap.at_ pointer = some flags)
      (raised : flags.getNew kind.1 = true) (known : kind ∈ mailKinds) : Move w (w.noticed pointer kind)

abbrev Moves : World σ → World σ → Prop := ReflTransGen (Move lib N)

end

section
variable {lib : External σ} {N : Str → Prop} {w t : World σ}

theorem Internal.moves (internal : Internal w t) : Moves lib N w t := .single (.internal internal)

theorem Moves.marked (moves : Moves lib N w t) (stop : Stop) : Moves lib N w { t with stopped := some stop } :=
  moves.tail (.halted stop)

/-! ## Programs made of moves -/

variable (lib N)

/-- From `w`, if the session runs, the program makes moves, and ends in `Q` where it ends
    normally. -/
def Does (m : M σ α) (w : World σ) (Q : α → World σ → Prop) : Prop :=
  w.stopped = none → match m w with
    | .ok a t => Moves lib N w t ∧ t.stopped = none ∧ Q a t
    | .error e t => Moves lib N w { t with stopped := some e }

/-- From any world it makes moves. -/
abbrev Makes (m : M σ α) : Prop := ∀ w, Does lib N m w fun _ _ => True

variable {lib N}

namespace Does

variable {β : Type} {m : M σ α} {Q : α → World σ → Prop}

theorem bind {f : α → M σ β} {R : β → World σ → Prop} (first : Does lib N m w Q)
    (rest : ∀ a t, Q a t → Does lib N (f a) t R) : Does lib N (m >>= f) w R := by
  intro running
  have made := first running
  rw [bind_apply]
  cases ran : m w with
  | error e t =>
      rw [ran] at made
      exact made
  | ok a t =>
      rw [ran] at made
      obtain ⟨moves, running, known⟩ := made
      have more := rest a t known running
      cases after : f a t with
      | error e u =>
          rw [after] at more
          simpa only [after] using moves.trans more
      | ok b u =>
          rw [after] at more
          simpa only [after] using ⟨moves.trans more.1, more.2⟩

theorem mono {R : α → World σ → Prop} (does : Does lib N m w Q) (post : ∀ a t, Q a t → R a t) :
    Does lib N m w R := by
  intro running
  have made := does running
  cases ran : m w with
  | error e t =>
      rw [ran] at made
      exact made
  | ok a t =>
      rw [ran] at made
      exact ⟨made.1, made.2.1, post a t made.2.2⟩

/-- Internal work, with what is known of its result. -/
theorem internal (work : Internal.Work m) (known : ∀ a t, m w = .ok a t → Internal w t → Q a t) :
    Does lib N m w Q := by
  intro running
  have step := work w
  cases ran : m w with
  | error e t =>
      rw [ran] at step
      exact step.1.moves.marked e
  | ok a t =>
      rw [ran] at step
      exact ⟨step.moves, step.stopped.trans running, known a t ran step⟩

theorem work (work : Internal.Work m) : Does lib N m w fun _ t => Internal w t := internal work fun _ _ _ => id

theorem pure {a : α} (known : Q a w) : Does lib N (Pure.pure a) w Q := fun running => ⟨.refl, running, known⟩

theorem throw {e : Stop} : Does lib N (MonadExcept.throw e : M σ α) w Q := fun _ => .single (.halted e)

theorem get {R : World σ → World σ → Prop} (known : R w w) : Does lib N (MonadState.get : M σ (World σ)) w R :=
  fun running => ⟨.refl, running, known⟩

theorem ite {c : Prop} [Decidable c] {n : M σ α} (yes : c → Does lib N m w Q) (no : ¬ c → Does lib N n w Q) :
    Does lib N (if c then m else n) w Q := by
  split
  · exact yes ‹_›
  · exact no ‹_›

/-- One move that always succeeds. -/
theorem modify {f : World σ → World σ} {R : PUnit → World σ → Prop}
    (move : w.stopped = none → Move lib N w (f w)) (goes : (f w).stopped = w.stopped) (known : R ⟨⟩ (f w)) :
    Does lib N (modify f : M σ PUnit) w R := fun running =>
  ⟨.single (move running), goes.trans running, known⟩

theorem lift {r : Except Fault α} (known : ∀ a, r = .ok a → Q a w) : Does lib N (M.lift r) w Q := by
  cases r with
  | ok a => exact pure (known a rfl)
  | error e => exact throw

theorem query {call : QrCall} {p : Query α} (asks : Asks lib N w.self call p)
    (known : ∀ a, (p.run lib.engine w.db).result = .ok a → Q a (w.ran call (p.run lib.engine w.db))) :
    Does lib N (runQuery lib call p) w Q := by
  refine bind (get (R := fun v t => v = w ∧ t = w) ⟨rfl, rfl⟩) ?_
  rintro _ _ ⟨rfl, rfl⟩
  exact bind (modify (R := fun _ t => t = _) (fun running => .asks running asks) rfl rfl)
    fun _ _ same => lift fun a is => same ▸ known a is

end Does

end

end NineProject
