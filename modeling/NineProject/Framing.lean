import NineProject.Dispatch
import NineProject.InviteTarget
import NineProject.LoginPackets

/-! # Requests on a stream

Nothing on the stream marks where a request ends. A header says which handler comes next,
this one asks for a record of its own, and the record for whatever follows it, so a session
stays in step with its client only as long as every handler takes what belongs to it.
-/

namespace NineProject

open Bytes M Effect Sql

/-! ## Requests -/

/-- What follows the header of a request: a record, and what its sizes announce. -/
inductive Payload where
  | login (id pw : Str)
  | message (record : List Byte) (text : Str)
  | connection (record : List Byte) (receiver : Str)
  | invite (record : List Byte) (target : Str)
  | table (record : List Byte) (invited : List (List Byte × Str))
  | command (c : ECommand)
  deriving DecidableEq, Repr

namespace Payload

def action : Payload → Option EAction
  | login _ _ => some .reqLog
  | message _ _ => some .sendMsg
  | connection _ _ => some .requestConnection
  | invite _ _ => some .requestInvite
  | table _ _ => some .requestCreateTable
  | command _ => none

def commanded : Payload → Option ECommand
  | command c => some c
  | _ => none

def record : Payload → List Byte
  | login id pw => RqLog.toBytes ⟨id.length, pw.length⟩
  | message record _ | connection record _ | invite record _ | table record _ => record
  | command _ => []

/-- What follows the record. -/
def announced : Payload → List Byte
  | login id pw => id ++ pw
  | message _ text => text
  | connection _ receiver => receiver
  | invite _ target => target
  | table _ invited => invited.flatMap fun p => p.1 ++ p.2
  | command _ => []

/-- The sizes in the record are those of what follows, within the bounds of the server's
    memory. -/
def WellFormed : Payload → Prop
  | login id pw => id.length ≤ 127 ∧ pw.length ≤ 127
  | message record text => record.length = MsReq.size ∧ (MsReq.ofBytes record).sz = text.length ∧
      text.length ≤ 1024
  | connection record receiver => record.length = ConcRequest.size ∧
      (ConcRequest.ofBytes record).receiverIdSize = receiver.length ∧ receiver.length ≤ 1024
  | invite record target => record.length = IvtReq.size ∧
      (IvtReq.ofBytes record).targetIdSize = target.length ∧ target.length ≤ 1024
  | table record invited => record.length = CreateTableReq.size ∧
      (CreateTableReq.ofBytes record).participations = invited.length ∧
      ∀ p ∈ invited, p.1.length = UserDescriptor.size ∧ (UserDescriptor.ofBytes p.1).idSize = p.2.length ∧
        p.2.length ≤ 256
  | command c => c ≠ .getMsg

instance (p : Payload) : Decidable p.WellFormed := by
  cases p <;> unfold WellFormed <;> infer_instance

end Payload

/-- The action a header asks for. -/
def Pchd.acted (h : Pchd) : Option EAction := if isCommand h then none else EAction.ofCode h.comd

/-- A request as it is sent. -/
structure Sent where
  header : List Byte
  payload : Payload
  deriving DecidableEq, Repr

namespace Sent

def pchd (r : Sent) : Pchd := Pchd.ofBytes r.header

def bytes (r : Sent) : List Byte := r.header ++ (r.payload.record ++ r.payload.announced)

structure WellFormed (r : Sent) : Prop where
  size : r.header.length = Pchd.size
  accepted : r.pchd.Accepted
  action : r.pchd.acted = r.payload.action
  command : r.pchd.commanded = r.payload.commanded
  payload : r.payload.WellFormed

instance (r : Sent) : Decidable r.WellFormed :=
  decidable_of_iff (_ ∧ _ ∧ _ ∧ _ ∧ _) ⟨fun ⟨a, b, c, d, e⟩ => ⟨a, b, c, d, e⟩, fun ⟨a, b, c, d, e⟩ => ⟨a, b, c, d, e⟩⟩

end Sent

/-- Requests sent back to back. -/
def stream (rs : List Sent) : List Byte := rs.flatMap Sent.bytes

/-! ## Records behind a read -/

/-- A record that has been read over older bytes is read as it was sent. -/
theorem received_record {α : Type} {ofBytes : List Byte → α} {size : Nat}
    (near : ∀ b, ofBytes (b.take size) = ofBytes b) {mem record : List Byte} (length : record.length = size)
    (room : size ≤ mem.length) : ofBytes (poke mem 0 record) = ofBytes record := by
  have front : (poke mem (0 : Nat) record).take (0 + record.length) = record := by
    rw [poke_take_end (by omega), List.take_zero, List.nil_append]
  rw [Nat.zero_add, length] at front
  rw [← near, ← near record, List.take_of_length_le length.le]
  exact congrArg ofBytes front

theorem MsReq.ofBytes_take (b : List Byte) : ofBytes (b.take size) = ofBytes b := by
  simp only [ofBytes, size]
  rw [field_take (by decide), field_take (by decide), field_take (by decide), field_take (by decide)]

theorem ConcRequest.ofBytes_take (b : List Byte) : ofBytes (b.take size) = ofBytes b := by
  simp only [ofBytes, size]
  rw [field_take (by decide), field_take (by decide)]

theorem IvtReq.ofBytes_take (b : List Byte) : ofBytes (b.take size) = ofBytes b := by
  simp only [ofBytes, size]
  rw [field_take (by decide), field_take (by decide)]

theorem CreateTableReq.ofBytes_take (b : List Byte) : ofBytes (b.take size) = ofBytes b := by
  simp only [ofBytes, size]
  rw [field_take (by decide), field_take (by decide)]

theorem Pchd.ofBytes_take (b : List Byte) : ofBytes (b.take size) = ofBytes b := by
  simp only [ofBytes, size]
  rw [field_take (by decide), field_take (by decide), field_take (by decide), field_take (by decide),
    field_take (by decide), field_take (by decide), field_take (by decide)]

/-! ## What the handlers take -/

/-- The memory that payloads are read into has its size, and nothing has gone wrong. -/
structure Wire.Fits (u : Wire) : Prop where
  hBuf : u.hBuf.length = Pchd.size
  iData : u.iData = 1024
  source : u.source = 1024
  opened : u.opened = true
  smooth : u.smooth = true
  running : u.running = true

section
variable {σ : Type} {lib : External σ} {w : World σ} {rest : List Byte}

theorem message_takes {text : Str} (fits : w.wire.Fits) (sz : (MsReq.ofBytes w.self.hBuf.data).sz = text.length)
    (short : text.length ≤ 1024) (input : w.wire.input = text ++ rest)
    (members : (Qr.getDiningMembers (MsReq.ofBytes w.self.hBuf.data).tableKey).Ends lib.engine
      ((Qr.insertMessage (MsReq.ofBytes w.self.hBuf.data) text).run lib.engine w.db).db) :
    Returns (messageMembers lib) w fun _ t => t.wire = { w.wire with input := rest } := by
  have reads := readSource_there fits.opened input (by rw [fits.source]; exact short)
    (short.trans_lt (by decide))
  obtain ⟨users, found⟩ := members
  simp only [messageMembers, returns_bind, returns_get, sz]
  refine reads.mono fun got t left => ?_
  obtain ⟨rfl, db, -, wire⟩ := left
  simp only [returns_runQuery, db, insertMessage_run, Except.ok.injEq, exists_eq_left']
  rw [insertMessage_run] at found
  exact ⟨users, found, by simpa using wire⟩

theorem connection_takes {receiver : Str} (fits : w.wire.Fits)
    (sz : (ConcRequest.ofBytes w.self.hBuf.data).receiverIdSize = receiver.length) (short : receiver.length ≤ 1024)
    (input : w.wire.input = receiver ++ rest) :
    Returns (connectionReceiver lib) w fun _ t => t.wire = { w.wire with input := rest } := by
  have reads := readSource_there fits.opened input (by rw [fits.source]; exact short)
    (short.trans_lt (by decide))
  simp only [connectionReceiver, returns_bind, returns_get, sz]
  refine reads.mono fun got t left => ?_
  simpa [insertConnection_run] using left.2.2.2

theorem invite_takes {target : Str} (fits : w.wire.Fits)
    (sz : (IvtReq.ofBytes w.self.hBuf.data).targetIdSize = target.length) (short : target.length ≤ 1024)
    (input : w.wire.input = target ++ rest) :
    Returns (inviteTarget lib none) w fun _ t => t.wire = { w.wire with input := rest } := by
  obtain ⟨p, made⟩ : ∃ p, PBuffer.ofSize target.length = .ok p := by
    simp [PBuffer.ofSize, PBuffer.newChars, show ¬ (target.length : Int) < 0 by omega, Except.map]
  have room : target.length ≤ p.data.length := by exact_mod_cast (ofSize_length made).2.le
  have read : M.read .targetGetter target.length p.data.length w = _ :=
    read_there (short.trans_lt (by decide)) room fits.opened input
  simp only [inviteTarget, readTarget, returns_bind, returns_when, Option.isSome_none, Bool.false_eq_true, if_false,
    returns_get, returns_lift, sz, made, Except.ok.injEq, exists_eq_left']
  rw [returns_of_eq read, getter_empty made]
  simp [insertInvite_run, input, Event.dispatched]

theorem readInvited_takes {invited : List (List Byte × Str)}
    (sizes : ∀ p ∈ invited, p.1.length = UserDescriptor.size ∧ (UserDescriptor.ofBytes p.1).idSize = p.2.length ∧
      p.2.length ≤ 256) (data : List Byte) (array : data.length = 256) (opened : w.wire.opened = true)
    (input : w.wire.input = (invited.flatMap fun p => p.1 ++ p.2) ++ rest) :
    Returns (readInvited data invited.length) w fun _ t => t.wire = { w.wire with input := rest } := by
  induction invited generalizing w data with
  | nil =>
      refine returns_pure.mpr ?_
      rw [← show w.wire.input = rest from input]
  | cons p others ih =>
      obtain ⟨size, idSize, short⟩ := sizes p (List.mem_cons_self ..)
      have front : w.self.socket.input = p.1 ++ (p.2 ++ ((others.flatMap fun p => p.1 ++ p.2) ++ rest)) := by
        refine input.trans ?_
        simp only [List.flatMap_cons, List.append_assoc]
      let u := (w.logged (.read .descriptor p.1.length p.1.length)).consume p.1.length
      have next : u.self.socket.input = p.2 ++ ((others.flatMap fun p => p.1 ++ p.2) ++ rest) := by
        show w.self.socket.input.drop p.1.length = _
        rw [front, List.drop_left]
      let v := (u.logged (.read .data p.2.length data.length)).consume p.2.length
      have descriptor : M.read .descriptor p.1.length p.1.length w = .ok p.1 u :=
        read_there (by rw [size]; decide) le_rfl opened front
      have asked : min data.length (sizeT p.2.length) = p.2.length := by
        rw [sizeT_length (short.trans_lt (by decide)), array, min_eq_right short]
      have name : M.read .data p.2.length data.length u = .ok p.2 v :=
        read_there (short.trans_lt (by decide)) (array ▸ short) opened next
      have left : v.wire = { w.wire with input := (others.flatMap fun p => p.1 ++ p.2) ++ rest } := by
        have input : u.wire.input = _ := next
        simp only [v, World.wire_consume, World.wire_logged, input, List.drop_left]
        simp [u, Event.dispatched]
      have later := ih (w := v) (fun q member => sizes q (List.mem_cons_of_mem p member)) (poke data 0 p.2)
        (by rw [poke_length, array]) (by rw [left]; exact opened) (by rw [left])
      simp only [List.length_cons, readInvited, returns_bind, ← size]
      rw [returns_of_eq descriptor]
      simp only [idSize, asked]
      rw [returns_of_eq name]
      rw [returns_when, if_neg (by omega), returns_when, if_neg (by rw [poke_length, array]; omega)]
      refine later.mono fun names t wire => returns_pure.mpr ?_
      rw [wire, left]

theorem table_takes {invited : List (List Byte × Str)} (fits : w.wire.Fits)
    (participations : (CreateTableReq.ofBytes w.self.hBuf.data).participations = invited.length)
    (sizes : ∀ p ∈ invited, p.1.length = UserDescriptor.size ∧ (UserDescriptor.ofBytes p.1).idSize = p.2.length ∧
      p.2.length ≤ 256) (input : w.wire.input = (invited.flatMap fun p => p.1 ++ p.2) ++ rest) :
    Returns (tableParticipants lib) w fun _ t => t.wire = { w.wire with input := rest } := by
  simp only [tableParticipants, returns_bind, returns_get, participations, Int.toNat_natCast]
  refine (readInvited_takes sizes _ List.length_replicate fits.opened input).mono fun cont t wire => ?_
  simp only [returns_runQuery, createTable_run, Except.ok.injEq, exists_eq_left', returns_writeOrThrow, returns_pure]
  generalize hr : World.ran t _ _ = v
  have same : v.wire = { w.wire with input := rest } := by
    rw [← hr, World.wire_ran, wire]
  obtain ⟨wrote, kept⟩ := World.wire_writing (w := v) (by rw [same]; exact fits.opened)
    (by rw [same]; exact fits.smooth) (createTableResponse (newKey lib.engine w.self.userName cont t.db))
  exact ⟨wrote, kept.trans same⟩

/-- Of a task that ends, only the next header read is left. -/
theorem announce_waits {recipients : M σ (List Str)} {task : Nat} {u : Wire} {h : Pchd} (queue : u.queue = [h])
    (takes : Returns recipients w fun _ t => t.wire = u) :
    Returns (announce recipients task (taskEnd lib none)) w fun _ t =>
      t.wire = { u with queue := [], waiting := u.waiting ++ [.readHeader] } := by
  simp only [announce, returns_bind, returns_nmapNotifyWithList]
  refine takes.mono fun users t is => ?_
  subst is
  have told := World.wire_notifyAll t users task
  have front : (users.foldl (fun w user => w.notify user task) t).self.pc.hQue = [h] :=
    (congrArg Wire.queue told).trans queue
  refine (returns_taskEnd lib front).mpr ?_
  rw [World.wire_waits, World.wire_ended, told, queue]
  rfl

theorem sendFriends_smooth (opened : w.wire.opened = true) (smooth : w.wire.smooth = true) (users : List Str) :
    Returns (sendFriends none users) w fun ell t => ell = none ∧ t.wire = w.wire := by
  induction users generalizing w with
  | nil => exact returns_pure.mpr ⟨rfl, rfl⟩
  | cons user others ih =>
      let record := UserDescriptor.toBytes ⟨wrap 32 user.length, 0⟩
      obtain ⟨-, kept⟩ := World.wire_writing opened smooth record
      obtain ⟨sent, kept'⟩ := World.wire_writing (w := (w.writing record).2) (by rw [kept]; exact opened)
        (by rw [kept]; exact smooth) user
      simp only [sendFriends, sendIdWithDesc, returns_bind, returns_write, returns_when]
      rw [sent, if_neg (by simp)]
      rw [← kept, ← kept']
      exact ih (by rw [kept', kept]; exact opened) (by rw [kept', kept]; exact smooth)

/-- A command is answered by an operation of its own, or at once. -/
def commandReplied (u : Wire) : ECommand → Wire
  | .getFriendList => { u with queue := [], waiting := u.waiting ++ [.readHeader] }
  | _ => { u with waiting := u.waiting ++ [.taskEnd false] }

theorem command_takes {list : Vector Int 10} {h : Pchd} {c : ECommand} (other : c ≠ .getMsg)
    (opened : w.wire.opened = true) (smooth : w.wire.smooth = true) (queue : w.self.pc.hQue = [h])
    (manager : w.self.checkManager = some list) (answers : Answers lib w list c) :
    Returns (commandHandler lib (taskEnd lib) none c) w fun _ t => t.wire = commandReplied w.wire c := by
  cases c with
  | getMsg => exact absurd rfl other
  | getIvt =>
      have entries : ∀ got row got', HeaderKept got.1 → Qr.inviteEntry lib got row = .ok got' →
          HeaderKept got'.1 := fun _ _ _ => inviteEntry_kept
      obtain ⟨p, made, readable⟩ := answers
      refine (returns_getNewIvt lib queue manager).mpr ((fetched_replied entries fun p f q => ?_).mpr
        ⟨p, made, getNewIvtReq_ends.mpr readable⟩)
      simp [World.replied, commandReplied, Event.dispatched]
  | getConnection =>
      have entries : ∀ got row got', HeaderKept got.1 → Qr.connectionEntry lib got row = .ok got' →
          HeaderKept got'.1 := fun _ _ _ _ => connectionEntry_kept
      obtain ⟨p, made⟩ := replyBuffer_ends
      refine (returns_getNewConc lib manager).mpr ((fetched_replied entries fun p f q => ?_).mpr
        ⟨p, made, getNewConnectionReq_ends.mpr answers⟩)
      simp [World.replied, commandReplied, Event.dispatched]
  | getFriendList =>
      obtain ⟨got, fetched⟩ := getFriendList_ends.mpr answers.1
      let u := w.ran .getFriendList ((Qr.getFriendList w.self.userName).run lib.engine w.db)
      have same : u.wire = w.wire := w.wire_ran ..
      obtain ⟨wrote, kept⟩ := World.wire_writing (w := u) (by rw [same]; exact opened) (by rw [same]; exact smooth)
        (friendsHeader got.1).toBytes
      have before : ((u.writing (friendsHeader got.1).toBytes).2.logged (.reply .getFriendList got.2)).wire = w.wire := by
        rw [World.wire_logged, kept, same]
        simp [Event.dispatched]
      refine (returns_getFriendList lib).mpr ⟨got, fetched, wrote, ?_⟩
      refine (sendFriends_smooth (by rw [before]; exact opened) (by rw [before]; exact smooth) got.1).mono
        fun ell t sent => ?_
      obtain ⟨rfl, wire⟩ := sent
      rw [before] at wire
      have front : t.self.pc.hQue = [h] := (congrArg Wire.queue wire).trans queue
      refine (returns_taskEnd lib front).mpr ?_
      rw [World.wire_waits, World.wire_ended, wire, show w.wire.queue = [h] from queue]
      rfl

/-! ## Logins -/

/-- The sizes of a login are read as they are, and as many bytes are asked for. -/
theorem sizes_take {id pw : Str} {mem : List Byte} (shortId : id.length ≤ 127) (shortPw : pw.length ≤ 127)
    (hBuf : w.self.hBuf.data = poke mem 0 (RqLog.toBytes ⟨id.length, pw.length⟩)) (room : rqlogSize ≤ mem.length) :
    ∃ idpw, PBuffer.ofSize ((id.length : Int) + pw.length) = .ok idpw ∧
      Returns (readIdAndPassword none) w fun _ t =>
        t.wire = { w.wire with waiting := w.wire.waiting ++ [.login idpw id.length pw.length] } := by
  obtain ⟨idpw, made⟩ : ∃ idpw, PBuffer.ofSize ((id.length : Int) + pw.length) = .ok idpw := by
    simp [PBuffer.ofSize, PBuffer.newChars, show ¬ (id.length : Int) + pw.length < 0 by omega, Except.map]
  obtain ⟨first, second⟩ := sizes_read room ⟨id.length, pw.length⟩
  have whole : wrap 32 ((id.length : Int) + pw.length) = id.length + pw.length :=
    wrap_of_inRange (by decide) ⟨by omega, by norm_num; omega⟩
  refine ⟨idpw, made, ?_⟩
  simp only [readIdAndPassword, returns_bind, returns_get, hBuf, first, second, char_offset.mpr shortId,
    char_offset.mpr shortPw, whole, made, Option.isNone_none, if_true, returns_lift, Except.ok.injEq,
    exists_eq_left', returns_asyncRead]
  simp [Event.dispatched]

theorem login_takes {id pw : Str} {h : Pchd} {accepted : Bool} (queue : w.self.pc.hQue = [h])
    (checked : ((Qr.checkUserPassword id pw).run lib.engine w.db).result = .ok accepted)
    (listed : accepted = true →
      (Qr.getCheckList id).Ends lib.engine ((Qr.checkUserPassword id pw).run lib.engine w.db).db)
    (admitted : w.self.checkManager = none → accepted = true) :
    Returns (loginWith lib id pw) w fun _ t =>
      t.wire = { w.wire with waiting := w.wire.waiting ++ [.taskEnd false], user := true } := by
  simp only [loginWith, returns_bind, returns_runQuery, checked, Except.ok.injEq, exists_eq_left', returns_emit,
    returns_when]
  let r := (Qr.checkUserPassword id pw).run lib.engine w.db
  let u := (w.ran .checkUserPassword r).logged (.login accepted)
  have wire : u.wire = w.wire := by simp [u, Event.dispatched]
  cases accepted with
  | true =>
      obtain ⟨list, found⟩ := listed rfl
      let v := u.ran .getCheckList ((Qr.getCheckList id).run lib.engine u.db)
      have wire' : v.wire = w.wire := (World.wire_ran ..).trans wire
      rw [if_pos rfl]
      simp only [sessionInit, returns_bind, returns_when, Option.isSome_none, Bool.false_eq_true, if_false,
        returns_runQuery, returns_setSelf, returns_modify]
      refine ⟨list, found, ?_⟩
      let x := World.login { v with self := { v.self with checkManager := some list, userName := id } } id
      have front : x.self.pc.hQue = [h] := queue
      have in_ : x.wire = { w.wire with user := true } := wire' ▸ World.wire_login v list id
      refine (returns_front front).mpr (returns_asyncWrite.mpr ?_)
      rw [World.wire_started, World.wire_logged, in_]
      simp [Event.dispatched]
  | false =>
      have known : w.wire.user = true := by
        cases manager : w.self.checkManager with
        | none => cases admitted manager
        | some list => simp [World.wire, manager]
      rw [if_neg (by simp), returns_front (w := u) queue, returns_asyncWrite, World.wire_started, World.wire_logged, wire]
      simp [Event.dispatched, known]

/-! ## Where a session stands -/

variable (lib)

/-- The rows that the handler of a completed operation asks for can be read: those of a
    command, the members a message is for, the password of a login, and where it is the
    one that was sent, the check list. -/
def Answered (w : World σ) : Handler → Prop
  | .readHeader =>
      match (Pchd.ofBytes (w.self.socket.input.take Pchd.size)).commanded, w.self.checkManager with
      | some c, some list => Answers lib w list c
      | _, _ => True
  | .action .sendMsg =>
      let rq := MsReq.ofBytes (w.self.socket.input.take MsReq.size)
      let text := (w.self.socket.input.drop MsReq.size).take rq.sz.toNat
      let left := (lib.engine.exec w.db (messageText rq text)).1
      ∀ row ∈ (lib.engine.exec left (membersText rq.tableKey)).2, Shows row 0
  | .action _ => True
  | .login _ idSize pwSize =>
      let id := w.self.socket.input.take idSize.toNat
      let found := lib.engine.exec w.db (passwordText id)
      (∀ row ∈ found.2, Shows row 0) ∧
        ((w.self.socket.input.drop idSize.toNat).take pwSize.toNat = lastShown found.2 →
          ∀ row ∈ (lib.engine.exec found.1 (checkListText id)).2, CheckReadable row)
  | .taskEnd _ => True

/-- On a session that nobody has logged in on, the password sent is the last one found. -/
def FirstAccepted (w : World σ) : Handler → Prop
  | .login _ idSize pwSize => w.self.checkManager = none →
      (w.self.socket.input.drop idSize.toNat).take pwSize.toNat =
        lastShown (lib.engine.exec w.db (passwordText (w.self.socket.input.take idSize.toNat))).2
  | _ => True

instance decidableAnswers (w : World σ) (list : Vector Int 10) (c : ECommand) : Decidable (Answers lib w list c) := by
  have (Q : PBuffer → Prop) [DecidablePred Q] : Decidable (∃ p, replyBuffer = .ok p ∧ Q p) :=
    match made : replyBuffer with
    | .ok p => decidable_of_iff (Q p) ⟨fun q => ⟨p, rfl, q⟩, fun ⟨_, is, q⟩ => Except.ok.inj is ▸ q⟩
    | .error _ => .isFalse fun ⟨_, is, _⟩ => nomatch is
  unfold Answers World.CanWrite
  cases c <;> infer_instance

instance (w : World σ) (handler : Handler) : Decidable (Answered lib w handler) := by
  cases handler with
  | readHeader =>
      unfold Answered
      exact match (Pchd.ofBytes (w.self.socket.input.take Pchd.size)).commanded, w.self.checkManager with
        | some c, some list => decidableAnswers lib w list c
        | none, _ | some _, none => .isTrue trivial
  | action a => cases a <;> unfold Answered <;> infer_instance
  | login | taskEnd =>
      unfold Answered
      infer_instance

instance (w : World σ) (handler : Handler) : Decidable (FirstAccepted lib w handler) := by
  cases handler <;> unfold FirstAccepted <;> infer_instance

variable {lib}

/-- The members of a message that is next on the stream can be read. -/
theorem Answered.message {record text : List Byte} (input : w.self.socket.input = record ++ (text ++ rest))
    (size : record.length = MsReq.size) (sz : (MsReq.ofBytes record).sz = text.length)
    (answered : Answered lib w (.action .sendMsg)) : (Qr.getDiningMembers (MsReq.ofBytes record).tableKey).Ends
      lib.engine ((Qr.insertMessage (MsReq.ofBytes record) text).run lib.engine w.db).db := by
  have head : w.self.socket.input.take MsReq.size = record := by rw [input, ← size, List.take_left]
  have tail : w.self.socket.input.drop MsReq.size = text ++ rest := by rw [input, ← size, List.drop_left]
  simp only [Answered, head, tail, sz, Int.toNat_natCast, List.take_left] at answered
  rw [getDiningMembers_ends, insertMessage_run]
  exact answered

/-- So can the password and the check list for a login that is next. -/
theorem Answered.login {idpw : PBuffer} {id pw : Str} (input : w.self.socket.input = id ++ pw ++ rest)
    (answered : Answered lib w (.login idpw id.length pw.length)) :
    let check := (Qr.checkUserPassword id pw).run lib.engine w.db
    ∃ accepted, check.result = .ok accepted ∧
      (accepted = true → (Qr.getCheckList id).Ends lib.engine check.db) ∧
      (FirstAccepted lib w (.login idpw id.length pw.length) → w.self.checkManager = none → accepted = true) := by
  have theId : w.self.socket.input.take id.length = id := by rw [input, List.append_assoc, List.take_left]
  have thePw : (w.self.socket.input.drop id.length).take pw.length = pw := by
    rw [input, List.append_assoc, List.drop_left, List.take_left]
  simp only [Answered, FirstAccepted, Int.toNat_natCast, theId, thePw] at answered ⊢
  obtain ⟨texts, listed⟩ := answered
  refine ⟨_, checkUserPassword_ok.mpr ⟨texts, rfl⟩, fun same => ?_, fun first none_ => beq_iff_eq.mpr (first none_)⟩
  rw [getCheckList_ends, checkUserPassword_db]
  exact listed (beq_iff_eq.mp same)

variable (lib)

/-- Operations complete without an error, and the first login is accepted. -/
def Unbroken (w : World σ) : Act σ → Prop
  | .complete c => c.err = none ∧ ∀ op ∈ w.pending[c.index]?, FirstAccepted lib w op.handler
  | .checkMailBox | .others _ _ => True

/-- What was asked of the database can be read, and a check of the mail box finds its flags. -/
def Readable (w : World σ) : Act σ → Prop
  | .complete c => ∀ op ∈ w.pending[c.index]?, Answered lib w op.handler
  | .checkMailBox => w.self.initialized = true → (w.self.nf.bind w.nmap.at_).isSome
  | .others _ _ => True

instance (w : World σ) (act : Act σ) : Decidable (Unbroken lib w act) :=
  match act with
  | .complete c =>
      inferInstanceAs (Decidable (c.err = none ∧ ∀ op ∈ w.pending[c.index]?, FirstAccepted lib w op.handler))
  | .checkMailBox | .others _ _ => .isTrue trivial

instance (w : World σ) (act : Act σ) : Decidable (Readable lib w act) :=
  match act with
  | .complete c => inferInstanceAs (Decidable (∀ op ∈ w.pending[c.index]?, Answered lib w op.handler))
  | .checkMailBox => inferInstanceAs (Decidable (w.self.initialized = true → (w.self.nf.bind w.nmap.at_).isSome))
  | .others _ _ => .isTrue trivial

variable {lib}

/-- A session that has served some requests and has the others before it: it waits for the
    header of the next one, or has dispatched it and waits for its record, for what the
    record of a login announces, or for the reply to go out. -/
inductive Reading (u : Wire) : List Sent → List Sent → Prop
  | header {served todo : List Sent} (queue : u.queue = []) (waiting : u.waiting = [.readHeader])
      (input : u.input = stream todo) (dispatched : u.dispatched = served.map Sent.pchd)
      (user : served ≠ [] → u.user = true) : Reading u served todo
  | record {served rest : List Sent} {r : Sent} {a : EAction} (action : r.payload.action = some a)
      (queue : u.queue = [r.pchd]) (waiting : u.waiting = [.action a])
      (input : u.input = r.payload.record ++ (r.payload.announced ++ stream rest))
      (dispatched : u.dispatched = (served ++ [r]).map Sent.pchd) (user : served ≠ [] → u.user = true) :
      Reading u served (r :: rest)
  | login {served rest : List Sent} {r : Sent} {id pw : Str} {idpw : PBuffer} (payload : r.payload = .login id pw)
      (made : PBuffer.ofSize ((id.length : Int) + pw.length) = .ok idpw) (queue : u.queue = [r.pchd])
      (waiting : u.waiting = [.login idpw id.length pw.length]) (input : u.input = (id ++ pw) ++ stream rest)
      (dispatched : u.dispatched = (served ++ [r]).map Sent.pchd) (user : served ≠ [] → u.user = true) :
      Reading u served (r :: rest)
  | reply {served rest : List Sent} {r : Sent} (queue : u.queue = [r.pchd]) (waiting : u.waiting = [.taskEnd false])
      (input : u.input = stream rest) (dispatched : u.dispatched = (served ++ [r]).map Sent.pchd)
      (user : u.user = true) : Reading u served (r :: rest)

/-- The operations that are left of these requests, at most. -/
def Wire.toGo (u : Wire) (todo : List Sent) : Nat :=
  4 * todo.length - (u.waiting.map fun handler => match handler with
    | .readHeader => 0
    | .action _ => 1
    | .login _ _ _ => 2
    | .taskEnd _ => 3).sum

/-- The session is in step with a client that sends these requests. -/
structure InStep (rs : List Sent) (left : Nat) (w : World σ) : Prop where
  fits : w.wire.Fits
  reading : ∃ served todo, rs = served ++ todo ∧ Reading w.wire served todo ∧ w.wire.toGo todo ≤ left

/-- All requests were served, and the session waits at the end of the stream. -/
structure Ended (rs : List Sent) (w : World σ) : Prop where
  dispatched : w.wire.dispatched = rs.map Sent.pchd
  queue : w.self.pc.hQue = []
  waiting : w.pending.map Op.handler = [.readHeader]
  input : w.self.socket.input = []
  running : w.stopped = none

/-! ## Steps -/

theorem exec_returns {m : M σ Unit} {Q : World σ → Prop} (returns : Returns m w fun _ => Q) : Q (w.exec m) := by
  obtain ⟨_, t, ran, q⟩ := returns
  rw [World.exec, ran]
  exact q

/-- The one operation of a session completes with the bytes it asked for. -/
theorem next_reads {op : Op} {bytes : List Byte} {n : Nat} {ret : Bool} (running : w.stopped = none)
    (alone : w.pending = [op]) (reads : ∀ b, op.handler ≠ .taskEnd b) (asked : op.handler.asked = bytes.length)
    (int : bytes.length < 2 ^ 31) (input : w.self.socket.input = bytes ++ rest) :
    next lib w (.complete ⟨0, none, n, ret⟩) = some
      ((w.completing 0 op { w.self.socket with input := rest }).exec (complete lib op none bytes ret)) := by
  have size : sizeT op.handler.asked = bytes.length := by
    rw [asked, sizeT]
    omega
  have there : bytes.length ≤ (bytes ++ rest).length := by
    rw [List.length_append]
    omega
  have moved : transfer op ⟨0, none, n, ret⟩ w.self.socket =
      some (bytes, { w.self.socket with input := rest }) := by
    cases handler : op.handler with
    | taskEnd b => exact absurd handler (reads b)
    | readHeader | action a | login idpw idSize pwSize =>
        rw [handler] at size
        simp only [transfer, handler, size, input, List.take_left, List.drop_left]
        exact if_pos there
  simp [next, running, alone, moved]

/-- The world in which the handler of the one operation starts. -/
theorem wire_completing {op : Op} (alone : w.pending = [op]) (rest : List Byte) :
    (w.completing 0 op { w.self.socket with input := rest }).wire = { w.wire with waiting := [], input := rest } := by
  simp [World.wire, World.completing, alone]

/-- A header with an action is dispatched to the read of its record. -/
theorem action_dispatched {te : ErrorCode → M σ Unit} {h : Pchd} {a : EAction} (queue : w.self.pc.hQue = [h])
    (acted : h.acted = some a) :
    Returns (readHandle lib te none) w fun _ t =>
      t.wire = { w.wire with dispatched := w.wire.dispatched ++ [h],
                             waiting := w.wire.waiting ++ [.action a] } := by
  unfold Pchd.acted at acted
  split at acted
  · cases acted
  · next plain =>
      have front : (w.dispatched h).self.pc.hQue = [h] := queue
      simp only [readHandle, returns_bind, returns_front queue, returns_dispatch, if_neg plain, action,
        returns_front front, acted, returns_asyncRead]
      simp [Event.dispatched]

/-- A header with a command is dispatched to the reply. -/
theorem command_dispatched {list : Vector Int 10} {h : Pchd} {c : ECommand} (other : c ≠ .getMsg)
    (opened : w.wire.opened = true) (smooth : w.wire.smooth = true) (queue : w.self.pc.hQue = [h])
    (commanded : h.commanded = some c) (manager : w.self.checkManager = some list) (answers : Answers lib w list c) :
    Returns (readHandle lib (taskEnd lib) none) w fun _ t =>
      t.wire = commandReplied { w.wire with dispatched := w.wire.dispatched ++ [h] } c := by
  unfold Pchd.commanded at commanded
  split at commanded
  · next told =>
      have front : (w.dispatched h).self.pc.hQue = [h] := queue
      have same : Answers lib (w.dispatched h) list c := by
        cases c <;> exact answers
      have inside := (checkListIndex_inside_iff h.comd).mpr (by rw [commanded]; rfl)
      simp only [readHandle, returns_bind, returns_front queue, returns_dispatch, if_pos told, command,
        returns_front front, returns_checkManagerAt (w := w.dispatched h) manager, commanded]
      refine ⟨inside, ?_⟩
      rw [← World.wire_dispatched]
      exact command_takes other opened smooth front manager same
  · cases commanded

/-! ## The phases of a request -/

theorem Payload.record_length {p : Payload} {a : EAction} (action : p.action = some a) (wellFormed : p.WellFormed) :
    p.record.length = a.payload := by
  cases p with
  | login id pw =>
      cases action
      exact RqLog.toBytes_length _
  | message record text | connection record receiver | invite record target | table record invited =>
      cases action
      exact wellFormed.1
  | command c => cases action

theorem Payload.command_of_no_action {p : Payload} (none_ : p.action = none) : ∃ c, p = .command c := by
  cases p with
  | command c => exact ⟨c, rfl⟩
  | login | message | connection | invite | table => cases none_

theorem Payload.login_of_action {p : Payload} (login : p.action = some .reqLog) : ∃ id pw, p = .login id pw := by
  cases p with
  | login id pw => exact ⟨id, pw, rfl⟩
  | message | connection | invite | table | command => cases login

/-- The one operation of a session, from what its wire shows. -/
theorem pending_one {handler : Handler} (waiting : w.wire.waiting = [handler]) :
    ∃ ticket, w.pending = [⟨handler, ticket⟩] := by
  have one : w.pending.map Op.handler = [handler] := waiting
  obtain ⟨op, alone, is⟩ := List.map_eq_singleton_iff.mp one
  exact ⟨op.ticket, by rw [alone, ← is]⟩

theorem Wire.Fits.stopped (fits : w.wire.Fits) : w.stopped = none := by
  simpa [World.wire] using fits.running

/-- After the step the session is still in step, with less to do. -/
def Advances (lib : External σ) (w : World σ) (served todo : List Sent) : Prop :=
  ∀ n ret, ∃ t, next lib w (.complete ⟨0, none, n, ret⟩) = some t ∧ t.wire.Fits ∧
    ∃ served' todo', served' ++ todo' = served ++ todo ∧ Reading t.wire served' todo' ∧
      t.wire.toGo todo' < w.wire.toGo todo

theorem header_advances {served rest : List Sent} {r : Sent} (fits : w.wire.Fits) (wellFormed : r.WellFormed)
    (opens : served = [] → r.payload.action = some .reqLog) (queue : w.wire.queue = [])
    (waiting : w.wire.waiting = [.readHeader]) (input : w.wire.input = stream (r :: rest))
    (dispatched : w.wire.dispatched = served.map Sent.pchd) (user : served ≠ [] → w.wire.user = true)
    (answered : Answered lib w .readHeader) : Advances lib w served (r :: rest) := by
  intro n ret
  obtain ⟨ticket, alone⟩ := pending_one waiting
  have front : w.self.socket.input = r.header ++ (r.payload.record ++ (r.payload.announced ++ stream rest)) := by
    refine input.trans ?_
    simp only [stream, List.flatMap_cons, Sent.bytes, List.append_assoc]
  let u := w.completing 0 ⟨.readHeader, ticket⟩
    { w.self.socket with input := r.payload.record ++ (r.payload.announced ++ stream rest) }
  let v : World σ := { u with self := u.self.receiveHeader r.header }
  let x := v.push r.pchd
  have step : next lib w (.complete ⟨0, none, n, ret⟩) =
      some (u.exec (complete lib ⟨.readHeader, ticket⟩ none r.header ret)) :=
    next_reads fits.stopped alone (by simp) (by rw [wellFormed.size]; rfl) (by rw [wellFormed.size]; decide) front
  have room : Pchd.size ≤ w.self.pc.iData.length := by
    rw [show w.self.pc.iData.length = 1024 from fits.iData]
    decide
  have arrived : Pchd.ofBytes v.self.pc.iData = r.pchd := received_record Pchd.ofBytes_take wellFormed.size room
  have taken : u.exec (complete lib ⟨.readHeader, ticket⟩ none r.header ret) =
      x.exec (readHandle lib (taskEnd lib) none) :=
    exec_congr (readHeaderHandle_takes lib (w := v) queue arrived wellFormed.accepted ret)
  have wire : x.wire = { w.wire with queue := [r.pchd], waiting := [],
                                     input := r.payload.record ++ (r.payload.announced ++ stream rest) } := by
    have received : v.wire = u.wire := by simp [v, World.wire, Session.receiveHeader]
    rw [World.wire_push, received, wire_completing alone, queue]
    rfl
  have one : x.self.pc.hQue = [r.pchd] := congrArg Wire.queue wire
  rw [taken] at step
  refine ⟨_, step, ?_⟩
  cases action : r.payload.action with
  | some a =>
      have acted : r.pchd.acted = some a := wellFormed.action.trans action
      have reads : Returns (readHandle lib (taskEnd lib) none) x _ := action_dispatched one acted
      have after := exec_returns reads
      generalize x.exec (readHandle lib (taskEnd lib) none) = t at after ⊢
      rw [wire] at after
      rw [after]
      refine ⟨⟨fits.hBuf, fits.iData, fits.source, fits.opened, fits.smooth, fits.running⟩, served, r :: rest, rfl,
        .record action rfl rfl rfl (by simp [dispatched]) user, ?_⟩
      simp [Wire.toGo, waiting]
  | none =>
      obtain ⟨c, payload⟩ := Payload.command_of_no_action action
      have later : served ≠ [] := fun none_ => by simp [opens none_] at action
      obtain ⟨list, manager⟩ := Option.isSome_iff_exists.mp (show w.self.checkManager.isSome = true from user later)
      have asked : r.pchd.commanded = some c := wellFormed.command.trans (congrArg Payload.commanded payload)
      have other : c ≠ .getMsg := by
        have inside := wellFormed.payload
        rwa [payload] at inside
      have answers : Answers lib w list c := by
        have bytes : w.self.socket.input.take Pchd.size = r.header := by
          rw [front, ← wellFormed.size, List.take_left]
        have known : Pchd.commanded (Pchd.ofBytes r.header) = some c := asked
        simpa only [Answered, bytes, known, manager] using answered
      have same : Answers lib x list c := by cases c <;> exact answers
      have after := exec_returns (command_dispatched (w := x) other (by rw [wire]; exact fits.opened)
        (by rw [wire]; exact fits.smooth) one asked manager same)
      generalize x.exec (readHandle lib (taskEnd lib) none) = t at after ⊢
      rw [wire] at after
      have input' : r.payload.record ++ (r.payload.announced ++ stream rest) = stream rest := by
        rw [payload]
        rfl
      rw [after]
      cases c with
      | getMsg => exact absurd rfl other
      | getIvt | getConnection =>
          refine ⟨⟨fits.hBuf, fits.iData, fits.source, fits.opened, fits.smooth, fits.running⟩, served, r :: rest, rfl,
            .reply rfl rfl input' (by simp [commandReplied, dispatched]) (user later), ?_⟩
          simp [Wire.toGo, waiting, commandReplied]
      | getFriendList =>
          refine ⟨⟨fits.hBuf, fits.iData, fits.source, fits.opened, fits.smooth, fits.running⟩, served ++ [r], rest,
            by simp, .header rfl rfl input' (by simp [commandReplied, dispatched]) fun _ => user later, ?_⟩
          simp [Wire.toGo, waiting, commandReplied]

/-- The four requests whose handlers tell others read what their record announces. -/
theorem payload_takes {p : Payload} {a : EAction} {mem : List Byte} (action : p.action = some a)
    (request : a ≠ .reqLog) (wellFormed : p.WellFormed) (fits : w.wire.Fits) (room : mem.length = Pchd.size)
    (hBuf : w.self.hBuf.data = poke mem 0 p.record) (input : w.wire.input = p.announced ++ rest)
    (members : ∀ record text, p = .message record text → (Qr.getDiningMembers (MsReq.ofBytes record).tableKey).Ends
      lib.engine ((Qr.insertMessage (MsReq.ofBytes record) text).run lib.engine w.db).db) :
    Returns (recipients lib none a) w fun _ t => t.wire = { w.wire with input := rest } := by
  cases p with
  | command c => cases action
  | login id pw => cases action; exact absurd rfl request
  | message record text =>
      cases action
      obtain ⟨size, sz, short⟩ := wellFormed
      have read : MsReq.ofBytes w.self.hBuf.data = MsReq.ofBytes record := by
        rw [hBuf]
        exact received_record MsReq.ofBytes_take size (by rw [room]; decide)
      exact message_takes fits (by rw [read, sz]) short input (by rw [read]; exact members record text rfl)
  | connection record receiver =>
      cases action
      obtain ⟨size, sz, short⟩ := wellFormed
      have read : ConcRequest.ofBytes w.self.hBuf.data = ConcRequest.ofBytes record := by
        rw [hBuf]
        exact received_record ConcRequest.ofBytes_take size (by rw [room]; decide)
      exact connection_takes fits (by rw [read, sz]) short input
  | invite record target =>
      cases action
      obtain ⟨size, sz, short⟩ := wellFormed
      have read : IvtReq.ofBytes w.self.hBuf.data = IvtReq.ofBytes record := by
        rw [hBuf]
        exact received_record IvtReq.ofBytes_take size (by rw [room]; decide)
      exact invite_takes fits (by rw [read, sz]) short input
  | table record invited =>
      cases action
      obtain ⟨size, participations, sizes⟩ := wellFormed
      have read : CreateTableReq.ofBytes w.self.hBuf.data = CreateTableReq.ofBytes record := by
        rw [hBuf]
        exact received_record CreateTableReq.ofBytes_take size (by rw [room]; decide)
      exact table_takes fits (by rw [read, participations]) sizes input

theorem record_advances {served rest : List Sent} {r : Sent} {a : EAction} (fits : w.wire.Fits)
    (wellFormed : r.payload.WellFormed) (opens : served = [] → r.payload.action = some .reqLog)
    (action : r.payload.action = some a) (queue : w.wire.queue = [r.pchd]) (waiting : w.wire.waiting = [.action a])
    (input : w.wire.input = r.payload.record ++ (r.payload.announced ++ stream rest))
    (dispatched : w.wire.dispatched = (served ++ [r]).map Sent.pchd) (user : served ≠ [] → w.wire.user = true)
    (answered : Answered lib w (.action a)) : Advances lib w served (r :: rest) := by
  intro n ret
  obtain ⟨ticket, alone⟩ := pending_one waiting
  let u := w.completing 0 ⟨.action a, ticket⟩ { w.self.socket with input := r.payload.announced ++ stream rest }
  let v : World σ := { u with self := u.self.receivePayload r.payload.record }
  have size := Payload.record_length action wellFormed
  have step : next lib w (.complete ⟨0, none, n, ret⟩) =
      some (u.exec (complete lib ⟨.action a, ticket⟩ none r.payload.record ret)) :=
    next_reads fits.stopped alone (by simp) (by rw [size]; rfl) (by rw [size]; cases a <;> decide) input
  have wire : v.wire = { w.wire with waiting := [], input := r.payload.announced ++ stream rest,
                                     hBuf := poke w.self.hBuf.data 0 r.payload.record } := by
    have received : v.wire = { u.wire with hBuf := poke w.self.hBuf.data 0 r.payload.record } := rfl
    rw [received, wire_completing alone]
  have room : w.self.hBuf.data.length = Pchd.size := fits.hBuf
  have fits' : v.wire.Fits := by
    rw [wire]
    exact ⟨by simpa using room, fits.iData, fits.source, fits.opened, fits.smooth, fits.running⟩
  have taken : u.exec (complete lib ⟨.action a, ticket⟩ none r.payload.record ret) =
      v.exec (actionHandler lib a none) := exec_congr rfl
  rw [taken] at step
  refine ⟨_, step, ?_⟩
  by_cases request : a = .reqLog
  · subst request
    obtain ⟨id, pw, payload⟩ := Payload.login_of_action action
    obtain ⟨shortId, shortPw⟩ : id.length ≤ 127 ∧ pw.length ≤ 127 := by rwa [payload] at wellFormed
    have sizes : v.self.hBuf.data = poke w.self.hBuf.data 0 (Payload.login id pw).record := by
      rw [← payload]
      rfl
    obtain ⟨idpw, made, asks⟩ := sizes_take shortId shortPw sizes (by rw [room]; decide)
    have after := exec_returns asks
    rw [show actionHandler lib .reqLog none = readIdAndPassword none from rfl]
    generalize v.exec (readIdAndPassword none) = t at after ⊢
    rw [after, wire]
    refine ⟨⟨by simpa using room, fits.iData, fits.source, fits.opened, fits.smooth, fits.running⟩, served, r :: rest,
      rfl, .login payload made queue rfl (by rw [payload]; rfl) dispatched user, ?_⟩
    simp [Wire.toGo, waiting]
    omega
  · have served_ : served ≠ [] := fun none_ => request (Option.some.inj (action.symm.trans (opens none_)))
    have front : v.wire.queue = [r.pchd] := by
      rw [wire]
      exact queue
    have takes : Returns (recipients lib none a) v fun _ t => t.wire = { v.wire with input := stream rest } :=
      payload_takes action request wellFormed fits' room rfl (by rw [wire]) fun record text payload => by
        rw [payload] at action wellFormed input
        cases action
        obtain ⟨size, sz, -⟩ := wellFormed
        exact Answered.message (w := w) input size sz answered
    have waits : Returns (announce (recipients lib none a) a.flag (taskEnd lib none)) v fun _ t =>
        t.wire = { v.wire with queue := [], waiting := v.wire.waiting ++ [.readHeader], input := stream rest } :=
      announce_waits (u := { v.wire with input := stream rest }) front takes
    have after := exec_returns waits
    rw [actionHandler_announces lib request none]
    generalize v.exec (announce (recipients lib none a) a.flag (taskEnd lib none)) = t at after ⊢
    rw [after, wire]
    refine ⟨⟨by simpa using room, fits.iData, fits.source, fits.opened, fits.smooth, fits.running⟩, served ++ [r],
      rest, by simp, .header rfl rfl rfl dispatched fun _ => user served_, ?_⟩
    simp [Wire.toGo, waiting]
    omega

theorem login_advances {served rest : List Sent} {r : Sent} {id pw : Str} {idpw : PBuffer} (fits : w.wire.Fits)
    (short : id.length ≤ 127 ∧ pw.length ≤ 127)
    (made : PBuffer.ofSize ((id.length : Int) + pw.length) = .ok idpw) (queue : w.wire.queue = [r.pchd])
    (waiting : w.wire.waiting = [.login idpw id.length pw.length]) (input : w.wire.input = (id ++ pw) ++ stream rest)
    (dispatched : w.wire.dispatched = (served ++ [r]).map Sent.pchd)
    (answered : Answered lib w (.login idpw id.length pw.length))
    (admitted : FirstAccepted lib w (.login idpw id.length pw.length)) : Advances lib w served (r :: rest) := by
  intro n ret
  obtain ⟨ticket, alone⟩ := pending_one waiting
  let u := w.completing 0 ⟨.login idpw id.length pw.length, ticket⟩ { w.self.socket with input := stream rest }
  have total : (id ++ pw).length = id.length + pw.length := List.length_append
  have asked : (Handler.login idpw id.length pw.length).asked = (id ++ pw).length := by
    rw [total, Handler.asked]
    push_cast
    exact wrap_of_inRange (by decide) ⟨by omega, by norm_num; omega⟩
  have step : next lib w (.complete ⟨0, none, n, ret⟩) = some (u.exec
      (complete lib ⟨.login idpw id.length pw.length, ticket⟩ none (id ++ pw) ret)) :=
    next_reads fits.stopped alone (by simp) asked (by rw [total]; omega) input
  have decoded : loginArguments (idpw.receive (id ++ pw)) id.length pw.length = .ok (id, pw) := by
    have sum : ((id.length : Int) + pw.length).toNat = (id ++ pw).length := by rw [total]; omega
    have received : loginArguments (idpw.receive ((id ++ pw).take ((id.length : Int) + pw.length).toNat))
        id.length pw.length = .ok (id, pw) :=
      (loginArguments_received made (by rw [sum])).mpr ⟨by omega, by omega, by simp, by simp⟩
    rwa [sum, List.take_length] at received
  have wire : u.wire = { w.wire with waiting := [], input := stream rest } := wire_completing alone _
  obtain ⟨accepted, checked, listed, first⟩ := Answered.login (w := w) input answered
  have logs : Returns (complete lib ⟨.login idpw id.length pw.length, ticket⟩ none (id ++ pw) ret) u fun _ t =>
      t.wire = { u.wire with waiting := u.wire.waiting ++ [.taskEnd false], user := true } := by
    show Returns (responseReqLogin lib none (idpw.receive (id ++ pw)) id.length pw.length) u _
    rw [responseReqLogin_eq, returns_bind, returns_lift]
    exact ⟨_, decoded, login_takes queue checked listed (first admitted)⟩
  have after := exec_returns logs
  refine ⟨_, step, ?_⟩
  generalize u.exec (complete lib ⟨.login idpw id.length pw.length, ticket⟩ none (id ++ pw) ret) = t at after ⊢
  rw [after, wire]
  refine ⟨⟨fits.hBuf, fits.iData, fits.source, fits.opened, fits.smooth, fits.running⟩, served, r :: rest, rfl,
    .reply queue rfl rfl dispatched rfl, ?_⟩
  simp [Wire.toGo, waiting]
  omega

theorem reply_advances {served rest : List Sent} {r : Sent} (fits : w.wire.Fits) (queue : w.wire.queue = [r.pchd])
    (waiting : w.wire.waiting = [.taskEnd false]) (input : w.wire.input = stream rest)
    (dispatched : w.wire.dispatched = (served ++ [r]).map Sent.pchd) (user : w.wire.user = true) :
    Advances lib w served (r :: rest) := by
  intro n ret
  obtain ⟨ticket, alone⟩ := pending_one waiting
  let u := w.completing 0 ⟨.taskEnd false, ticket⟩ w.self.socket
  have step : next lib w (.complete ⟨0, none, n, ret⟩) = some (u.exec (taskEnd lib none)) := by
    simp [next, fits.stopped, alone, transfer, complete, u]
  have wire : u.wire = { w.wire with waiting := [] } := wire_completing alone w.self.socket.input
  have ends : Returns (taskEnd lib none) u fun _ t => t.wire = { w.wire with queue := [], waiting := [.readHeader] } := by
    refine (returns_taskEnd lib (w := u) queue).mpr ?_
    rw [World.wire_waits, World.wire_ended, wire, queue]
    rfl
  have after := exec_returns ends
  refine ⟨_, step, ?_⟩
  generalize u.exec (taskEnd lib none) = t at after ⊢
  rw [after]
  refine ⟨⟨fits.hBuf, fits.iData, fits.source, fits.opened, fits.smooth, fits.running⟩, served ++ [r], rest, by simp,
    .header rfl rfl input dispatched fun _ => user, ?_⟩
  simp [Wire.toGo, waiting]
  omega

/-! ## Runs -/

theorem Reading.advances {served todo : List Sent} (reading : Reading w.wire served todo) (more : todo ≠ [])
    (fits : w.wire.Fits) (wellFormed : ∀ r ∈ todo, r.WellFormed)
    (opens : served = [] → ∀ r ∈ todo.head?, r.payload.action = some .reqLog)
    (answered : ∀ handler ∈ w.wire.waiting, Answered lib w handler)
    (accepted : ∀ handler ∈ w.wire.waiting, FirstAccepted lib w handler) : Advances lib w served todo := by
  cases reading with
  | header queue waiting input dispatched user =>
      obtain ⟨r, rest, rfl⟩ := List.exists_cons_of_ne_nil more
      exact header_advances fits (wellFormed r (by simp)) (fun none_ => opens none_ r (by simp)) queue waiting input
        dispatched user (answered _ (by simp [waiting]))
  | record action queue waiting input dispatched user =>
      exact record_advances fits (wellFormed _ (by simp)).payload (fun none_ => opens none_ _ (by simp)) action queue
        waiting input dispatched user (answered _ (by simp [waiting]))
  | login payload made queue waiting input dispatched user =>
      have short := (wellFormed _ (List.mem_cons_self ..)).payload
      rw [payload] at short
      exact login_advances fits short made queue waiting input dispatched (answered _ (by simp [waiting]))
        (accepted _ (by simp [waiting]))
  | reply queue waiting input dispatched user => exact reply_advances fits queue waiting input dispatched user

theorem Reading.waits_once {u : Wire} {served todo : List Sent} (reading : Reading u served todo) :
    ∃ handler, u.waiting = [handler] := by
  cases reading with
  | header queue waiting => exact ⟨_, waiting⟩
  | record action queue waiting => exact ⟨_, waiting⟩
  | login payload made queue waiting => exact ⟨_, waiting⟩
  | reply queue waiting => exact ⟨_, waiting⟩

/-- Behind the last request there is no header to read. -/
theorem Reading.rests {served : List Sent} (reading : Reading w.wire served []) (n : Nat) (ret : Bool) :
    next lib w (.complete ⟨0, none, n, ret⟩) = none := by
  cases reading with
  | header queue waiting input dispatched user =>
      obtain ⟨ticket, alone⟩ := pending_one waiting
      have nothing : w.self.socket.input = [] := input
      have moved : transfer ⟨.readHeader, ticket⟩ ⟨0, none, n, ret⟩ w.self.socket = none := by
        simp [transfer, nothing, Handler.asked, Pchd.size, sizeT]
      simp [next, alone, moved]

theorem InStep.completed {rs : List Sent} {left : Nat} {t : World σ} {c : Completion}
    (wellFormed : ∀ r ∈ rs, r.WellFormed) (login : ∀ r ∈ rs.head?, r.payload.action = some .reqLog)
    (inStep : InStep rs left w) (unbroken : Unbroken lib w (.complete c)) (readable : Readable lib w (.complete c))
    (step : next lib w (.complete c) = some t) : ∃ fewer < left, InStep rs fewer t := by
  obtain ⟨fits, served, todo, rfl, reading, bound⟩ := inStep
  obtain ⟨index, err, n, ret⟩ := c
  obtain ⟨smooth, accepted⟩ := unbroken
  cases smooth
  obtain ⟨handler, waiting⟩ := reading.waits_once
  obtain ⟨ticket, alone⟩ := pending_one waiting
  cases index with
  | succ i => simp [next, alone] at step
  | zero =>
      by_cases more : todo = []
      · subst more
        cases (reading.rests n ret).symm.trans step
      · have one : ⟨handler, ticket⟩ ∈ w.pending[0]? := by simp [alone]
        obtain ⟨t', step', fits', served', todo', same, reading', fewer⟩ :=
          reading.advances more fits (fun r member => wellFormed r (List.mem_append_right served member))
            (fun none_ r member => login r (by rw [none_, List.nil_append]; exact member))
            (by simpa [waiting] using readable _ one) (by simpa [waiting] using accepted _ one) n ret
        cases step.symm.trans step'
        exact ⟨_, fewer.trans_le bound, fits', served', todo', same.symm, reading', le_refl _⟩

/-- What takes nothing from the stream leaves the session in step. -/
theorem InStep.same {rs : List Sent} {left : Nat} {t : World σ} (inStep : InStep rs left w) (same : t.wire = w.wire) :
    InStep rs left t := by
  obtain ⟨fits, served, todo, whole, reading, bound⟩ := inStep
  exact ⟨same ▸ fits, served, todo, whole, same ▸ reading, same ▸ bound⟩

theorem wire_checkMailBox {t : World σ} (readable : Readable lib w .checkMailBox)
    (step : next lib w .checkMailBox = some t) (running : w.stopped = none) : t.wire = w.wire := by
  have ran : w.exec checkMailBox = t := by simpa [next, running] using step
  cases on : w.self.initialized with
  | true =>
      obtain ⟨flags, found⟩ := Option.isSome_iff_exists.mp (readable on)
      obtain ⟨pointer, nf, at_⟩ := Option.bind_eq_some_iff.mp found
      obtain ⟨renewed, checked⟩ := checkMailBox_eq on nf at_
      rw [← ran, World.exec, checked]
      exact w.wire_checked pointer flags renewed mailKinds
  | false =>
      have idle : checkMailBox w = .ok () w := by simp [checkMailBox, bind_apply, on]
      rw [← ran, World.exec, idle]

/-- A completion, as opposed to what goes on between two of them. -/
def Act.completes : Act σ → Bool
  | .complete _ => true
  | _ => false

/-- A step keeps the session in step, and a completion leaves less to do. -/
theorem InStep.stepped {rs : List Sent} {left : Nat} {t : World σ} {act : Act σ}
    (wellFormed : ∀ r ∈ rs, r.WellFormed) (login : ∀ r ∈ rs.head?, r.payload.action = some .reqLog)
    (inStep : InStep rs left w) (unbroken : Unbroken lib w act) (readable : Readable lib w act)
    (step : next lib w act = some t) :
    ∃ fewer, InStep rs fewer t ∧ fewer + (if act.completes then 1 else 0) ≤ left := by
  cases act with
  | complete c =>
      obtain ⟨fewer, lt, still⟩ := inStep.completed wellFormed login unbroken readable step
      exact ⟨fewer, still, lt⟩
  | checkMailBox =>
      exact ⟨left, inStep.same (wire_checkMailBox readable step inStep.fits.stopped), le_refl left⟩
  | others db nmap =>
      have is : { w with db := db, nmap := nmap } = t := by
        simpa [next, inStep.fits.stopped] using step
      exact ⟨left, inStep.same (by rw [← is]; rfl), le_refl left⟩

/-! ## A new session and its client -/

/-- A client has connected, and these requests are all it sends. -/
structure Client (rs : List Sent) (s : Session) : Prop where
  new : s.New
  opened : s.socket.opened = true
  input : s.socket.input = stream rs
  smooth : s.socket.writes.all Option.isNone = true

theorem Client.inStep {rs : List Sent} {s : Session} (client : Client rs s) (db : σ) (nmap : NMap) :
    InStep rs (4 * rs.length) (World.accepted lib s db nmap) := by
  obtain ⟨new, opened, input, smooth⟩ := client
  obtain ⟨socket, initialized, renewed, iData, hBuf, source, rfl⟩ := new
  have waits : World.accepted lib (Session.accepted socket initialized renewed iData hBuf source) db nmap =
      World.waits ⟨Session.accepted socket initialized renewed iData hBuf source, db, nmap, [], 0, 0, 0, [], none⟩ :=
    rfl
  rw [waits]
  refine ⟨⟨hBuf.length_toList, iData.length_toList, source.length_toList, opened, smooth, rfl⟩, [], rs, rfl,
    .header rfl rfl input rfl (by simp), ?_⟩
  simp [Wire.toGo, World.wire]

/-- A read completes when the bytes it asks for are there. -/
theorem next_there {op : Op} (running : w.stopped = none) (alone : w.pending = [op])
    (there : sizeT op.handler.asked ≤ w.self.socket.input.length) (n : Nat) (ret : Bool) :
    (next lib w (.complete ⟨0, none, n, ret⟩)).isSome = true := by
  cases handler : op.handler with
  | taskEnd b => simp [next, running, alone, transfer, handler]
  | readHeader | action | login =>
      rw [handler] at there
      simp [next, running, alone, transfer, handler, there]

/-- A session in step goes on until it waits at the end of the stream. -/
theorem InStep.goes_on {rs : List Sent} {left : Nat} (wellFormed : ∀ r ∈ rs, r.WellFormed)
    (inStep : InStep rs left w) :
    Ended rs w ∨ ∀ n ret, (next lib w (.complete ⟨0, none, n, ret⟩)).isSome = true := by
  obtain ⟨fits, served, todo, rfl, reading, -⟩ := inStep
  have inside : ∀ r ∈ todo, r.WellFormed := fun r member => wellFormed r (List.mem_append_right served member)
  cases reading with
  | header queue waiting input dispatched user =>
      cases todo with
      | nil => exact .inl ⟨by simpa using dispatched, queue, waiting, input, fits.stopped⟩
      | cons r rest =>
          obtain ⟨ticket, alone⟩ := pending_one waiting
          have size : r.header.length = Pchd.size := (inside r (by simp)).size
          refine .inr (next_there fits.stopped alone ?_)
          rw [show w.self.socket.input = _ from input]
          simp [stream, Sent.bytes, size, Handler.asked, Pchd.size, sizeT]
  | @record rest r a action queue waiting input dispatched user =>
      obtain ⟨ticket, alone⟩ := pending_one waiting
      have size := Payload.record_length action (inside r (by simp)).payload
      have asked : sizeT (Handler.action a).asked = a.payload := by cases a <;> decide
      refine .inr (next_there fits.stopped alone ?_)
      rw [show w.self.socket.input = _ from input, List.length_append, size, asked]
      omega
  | @login rest r id pw idpw payload made queue waiting input dispatched user =>
      obtain ⟨ticket, alone⟩ := pending_one waiting
      refine .inr (next_there fits.stopped alone ?_)
      have short := (inside r (by simp)).payload
      rw [payload] at short
      obtain ⟨shortId, shortPw⟩ := short
      have asked : wrap 32 ((id.length : Int) + pw.length) = id.length + pw.length :=
        wrap_of_inRange (by decide) ⟨by omega, by norm_num; omega⟩
      rw [show w.self.socket.input = _ from input, Handler.asked, asked]
      simp [sizeT]
      omega
  | reply queue waiting =>
      obtain ⟨ticket, alone⟩ := pending_one waiting
      exact .inr (next_there fits.stopped alone (by simp [Handler.asked, sizeT]))

/-- Where no operation is left, all requests were served. -/
theorem InStep.spent {rs : List Sent} (inStep : InStep rs 0 w) : Ended rs w := by
  obtain ⟨fits, served, todo, rfl, reading, nothing⟩ := inStep
  cases reading with
  | header queue waiting input dispatched user =>
      obtain rfl : todo = [] := by simpa [Wire.toGo, waiting] using nothing
      exact ⟨by simpa using dispatched, queue, waiting, input, fits.stopped⟩
  | record _ _ waiting | login _ _ _ waiting | reply _ waiting =>
      simp only [Wire.toGo, waiting, List.length_cons, List.map_cons, List.map_nil, List.sum_cons, List.sum_nil] at nothing
      omega

/-- A session that `completed` operations have brought here goes on serving these requests. -/
structure Framed (lib : External σ) (rs : List Sent) (completed : Nat) (t : World σ) : Prop where
  inStep : ∃ left, InStep rs left t ∧ left + completed ≤ 4 * rs.length
  goesOn : Ended rs t ∨ ∀ n ret, (next lib t (.complete ⟨0, none, n, ret⟩)).isSome = true

/-- Of well-formed requests that begin with a login, a session dispatches each in its turn
    and takes from the stream what belongs to it and no more, until it waits at the end. -/
theorem requests_framed {rs : List Sent} {s : Session} {db : σ} {nmap : NMap} {acts : List (Act σ)} {t : World σ}
    (wellFormed : ∀ r ∈ rs, r.WellFormed) (login : ∀ r ∈ rs.head?, r.payload.action = some .reqLog)
    (client : Client rs s) (unbroken : Runs.Each (next lib) (Unbroken lib) (World.accepted lib s db nmap) acts)
    (readable : Runs.Each (next lib) (Readable lib) (World.accepted lib s db nmap) acts)
    (run : Runs.after (next lib) (World.accepted lib s db nmap) acts = some t) :
    Framed lib rs (acts.countP Act.completes) t := by
  obtain ⟨left, inStep, bound⟩ := Runs.counted (fun _ _ _ _ inStep meets step =>
    InStep.stepped wellFormed login inStep meets.1 meets.2 step) (client.inStep db nmap) (unbroken.and readable) run
  exact ⟨⟨left, inStep, bound⟩, inStep.goes_on wellFormed⟩

end

/-! ## One run that is read to the end, and one that is not -/

/-- Ann logs in, greets table 7, sits down with Bob and asks for her invites and friends. -/
def evening : List Sent :=
  [⟨request 0 EAction.reqLog.code, .login (str "ann") (str "kiwi")⟩,
    ⟨request 0 EAction.sendMsg.code,
      .message (ofInt 4 7 ++ ofInt 4 3 ++ ofInt 2 2 ++ [0, 0] ++ ofInt 4 0 ++ List.replicate 8 0) (str "hi")⟩,
    ⟨request 0 EAction.requestCreateTable.code,
      .table (ofInt 4 3 ++ ofInt 4 1) [((UserDescriptor.mk 3 0).toBytes, str "bob")]⟩,
    ⟨request 1 ECommand.getIvt.code, .command .getIvt⟩,
    ⟨request 1 ECommand.getFriendList.code, .command .getFriendList⟩]

def eveningBegins (db : Memory) : World Memory := World.accepted memoryServer (client (stream evening)) db .empty

theorem requests_framed_evening :
    ∃ t, Runs.after (next memoryServer) (eveningBegins (annDb [])) (List.replicate 11 .first) = some t ∧
      Framed memoryServer evening 11 t := by
  obtain ⟨t, run⟩ := Option.isSome_iff_exists.mp
    (show (Runs.after (next memoryServer) (eveningBegins (annDb [])) (List.replicate 11 .first)).isSome by
      decide +kernel)
  exact ⟨t, run, requests_framed (by decide) (by decide) ⟨client_new _, rfl, rfl, rfl⟩ (by decide +kernel)
    (by decide +kernel) run⟩

/-- Ann has a check list whose cursors were never set. -/
def unsetDb : Memory :=
  ⟨tables [(str "user", [⟨1, [.text (str "ann"), .text (str "kiwi")]⟩]),
    (str "checkList", [⟨1, [.text (str "ann"), .null, .null, .null]⟩])], 0⟩

/-- The login is accepted, and nothing behind it is read. -/
theorem requests_cut_off :
    ¬ ∀ (rs : List Sent) (s : Session) (db : Memory) (nmap : NMap) (acts : List (Act Memory)) (t : World Memory),
      (∀ r ∈ rs, r.WellFormed) → (∀ r ∈ rs.head?, r.payload.action = some .reqLog) → Client rs s →
      Runs.Each (next memoryServer) (Unbroken memoryServer) (World.accepted memoryServer s db nmap) acts →
      Runs.after (next memoryServer) (World.accepted memoryServer s db nmap) acts = some t →
      Framed memoryServer rs (acts.countP Act.completes) t := by
  intro framed
  obtain ⟨t, run⟩ := Option.isSome_iff_exists.mp
    (show (Runs.after (next memoryServer) (eveningBegins unsetDb) (List.replicate 3 .first)).isSome by
      decide +kernel)
  have stops : (Runs.after (next memoryServer) (eveningBegins unsetDb) (List.replicate 3 .first)).all
      fun t => t.stopped.isSome := by decide +kernel
  obtain ⟨left, inStep, -⟩ := (framed evening (client (stream evening)) unsetDb .empty (List.replicate 3 .first) t
    (by decide) (by decide) ⟨client_new _, rfl, rfl, rfl⟩ (by decide +kernel) run).inStep
  rw [run, Option.all_some, inStep.fits.stopped] at stops
  cases stops

end NineProject
