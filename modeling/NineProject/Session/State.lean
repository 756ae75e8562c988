import NineProject.Base.Effect
import NineProject.Nof
import NineProject.Query

/-! # The state of a session

One session object, the connection and the notifier map it shares with the other
sessions, the asynchronous operations it has outstanding, and a record of what it
did. The record and the header tickets are not in the source: headers are counted
as they are pushed, and the queue being first in first out, the header in front is
the one whose number is the count of those popped.
-/

namespace NineProject

open Bytes

/-- `Packer`: the 1024 bytes it reads headers into, and the header queue. -/
structure Packer where
  iData : List Byte
  hQue : List Pchd
  deriving DecidableEq, Repr

/-- `input` is what the client still sends, `fault` what a read finds behind it (an
    error, or nothing ever), `writes` how blocking writes turn out, one after the
    other, and well after these. -/
structure Socket where
  opened : Bool
  input : List Byte
  fault : Option Failure
  writes : List ErrorCode
  deriving DecidableEq, Repr

/-- `session_no_ssl`. A pointer that no one has set is `none`. -/
structure Session where
  socket : Socket
  initialized : Bool
  renewed : Bool
  userName : Str
  checkManager : Option (Vector Int 10)
  nf : Option Nat
  pc : Packer
  notice : List Pchd
  hBuf : PBuffer
  source : PBuffer
  deriving DecidableEq, Repr

/-- The handler bound to an asynchronous operation. -/
inductive Handler where
  | readHeader
  | action (a : EAction)
  | login (idpw : PBuffer) (idSize pwSize : Int)
  /-- A write, which may send from `source_`. -/
  | taskEnd (fromSource : Bool)
  deriving DecidableEq, Repr

/-- The bytes `Action` reads for each of its handlers. -/
def EAction.payload : EAction → Nat
  | .reqLog => rqlogSize
  | .sendMsg => MsReq.size
  | .requestConnection => ConcRequest.size
  | .requestInvite => IvtReq.size
  | .requestCreateTable => CreateTableReq.size

/-- The bytes a read asks for. -/
def Handler.asked : Handler → Int
  | readHeader => Pchd.size
  | action a => a.payload
  | login _ idSize pwSize => wrap 32 (idSize + pwSize)
  | taskEnd _ => 0

/-- An outstanding operation and the header it was started for. -/
structure Op where
  handler : Handler
  ticket : Nat
  deriving DecidableEq, Repr

/-- Where a read puts its bytes. -/
inductive Dest where
  | header
  | hBuf
  | idpw
  | source
  | targetGetter
  | descriptor
  | data
  deriving DecidableEq, Repr

/-- The function a statement is run for. -/
inductive QrCall where
  | checkUserPassword
  | getCheckList
  | insertMessage
  | getDiningMembers
  | insertConnection
  | insertInvite
  | createTable
  | getNewMessage
  | getNewIvtReq
  | getNewConnectionReq
  | getFriendList
  deriving DecidableEq, Repr

inductive Event where
  | push (ticket : Nat) (h : Pchd)
  | dispatch (ticket : Nat) (h : Pchd)
  /-- A header leaves the queue at the end of the work for header `owner`. -/
  | pop (ticket owner : Nat)
  /-- A read asks for bytes into memory of a size. -/
  | read (dest : Dest) (asked : Int) (allocated : Nat)
  /-- `source_` is rewritten or its written length reset; busy while a write from it
      is outstanding. -/
  | source (busy : Bool)
  | exec (query : QrCall) (text : Str)
  | login (accepted : Bool)
  | renew (user : Str) (task : Nat)
  /-- A reply made of rows. -/
  | reply (command : ECommand) (rows : List Sql.ResultRow)
  | wrote (bytes : List Byte)
  deriving DecidableEq, Repr

structure World (σ : Type) where
  self : Session
  db : σ
  nmap : NMap
  pending : List Op
  pushed : Nat
  popped : Nat
  /-- The header the running handler works for. -/
  ticket : Nat
  log : List Event
  stopped : Option Stop

namespace World

variable {σ α : Type}

def logged (w : World σ) (e : Event) : World σ := { w with log := w.log ++ [e] }

def started (w : World σ) (handler : Handler) : World σ :=
  { w with pending := w.pending ++ [⟨handler, w.ticket⟩] }

def dispatched (w : World σ) (h : Pchd) : World σ :=
  { w with ticket := w.popped, log := w.log ++ [.dispatch w.popped h] }

def push (w : World σ) (h : Pchd) : World σ :=
  { w with self := { w.self with pc := { w.self.pc with hQue := w.self.pc.hQue ++ [h] } },
           pushed := w.pushed + 1,
           log := w.log ++ [.push w.pushed h] }

def pop (w : World σ) : World σ :=
  { w with self := { w.self with pc := { w.self.pc with hQue := w.self.pc.hQue.tail } },
           popped := w.popped + 1,
           log := w.log ++ [.pop w.popped w.ticket] }

def consume (w : World σ) (n : Nat) : World σ :=
  { w with self := { w.self with socket := { w.self.socket with input := w.self.socket.input.drop n } } }

/-- A write from `source_` is outstanding. -/
def sourceBusy (w : World σ) : Bool := w.pending.any fun op => op.handler = .taskEnd true

def touchSource (w : World σ) (f : PBuffer → PBuffer) : World σ :=
  { w with self := { w.self with source := f w.self.source },
           log := w.log ++ [.source (w.sourceBusy)] }

def ran (w : World σ) (call : QrCall) (r : Sql.Ran σ Fault α) : World σ :=
  { w with db := r.db, log := w.log ++ r.executed.map (.exec call) }

def notify (w : World σ) (userId : Str) (taskNumber : Nat) : World σ :=
  if (w.nmap.getNotifier userId).isSome then
    { w with nmap := w.nmap.notify userId taskNumber, log := w.log ++ [.renew userId taskNumber] }
  else w

end World

/-- What a handler does. -/
abbrev M (σ α : Type) := EStateM Stop (World σ) α

namespace M

variable {σ α : Type}

def emit (e : Event) : M σ Unit := modify fun w => w.logged e

def setSelf (f : Session → Session) : M σ Unit := modify fun w => { w with self := f w.self }

/-- An `if` without an `else`. -/
def when (c : Prop) [Decidable c] (m : M σ Unit) : M σ Unit := if c then m else pure ()

def lift (r : Except Fault α) : M σ α :=
  match r with
  | .ok a => pure a
  | .error e => throw (.fault e)

/-! ## The header queue -/

/-- `Packer::front`. -/
def front : M σ Pchd := do
  match (← get).self.pc.hQue with
  | [] => throw .emptyQueue
  | h :: _ => pure h

/-- `hQue.push_back`. -/
def push (h : Pchd) : M σ Unit := modify fun w => w.push h

/-- `Packer::pop`. -/
def pop : M σ Unit := do
  match (← get).self.pc.hQue with
  | [] => throw .emptyQueue
  | _ :: _ => modify World.pop

/-- The header in front is handed to its handler. -/
def dispatch (h : Pchd) : M σ Unit := modify fun w => w.dispatched h

/-! ## Operations on the socket -/

/-- A length as the `size_t` a buffer takes. -/
def sizeT (n : Int) : Nat := (n % 2 ^ 64).toNat

/-- `async_read` into memory whose size is that in the present state. -/
def asyncRead (handler : Handler) (dest : Dest) (allocated : World σ → Nat) : M σ Unit :=
  modify fun w => (w.logged (.read dest handler.asked (allocated w))).started handler

/-- `async_write` with `task_end` as its handler. -/
def asyncWrite (bytes : List Byte) (fromSource : Bool) : M σ Unit :=
  modify fun w => (w.logged (.wrote bytes)).started (.taskEnd fromSource)

/-- The blocking `read`, which throws; it returns at once where it asks for nothing. Of what
    it asks for it takes what is there, and ends where that is more than its memory holds. -/
def read (dest : Dest) (asked : Int) (allocated : Nat) : M σ (List Byte) := do
  emit (.read dest asked allocated)
  let n := sizeT asked
  let s := (← get).self.socket
  if n = 0 then pure []
  else if s.opened = false then throw (.fault (.thrown (.systemError .other)))
  else if allocated < min n s.input.length then throw (.fault .overrun)
  else if n ≤ s.input.length then do
    modify fun w => w.consume n
    pure (s.input.take n)
  else match s.fault with
    | some f => throw (.fault (.thrown (.systemError f)))
    | none => throw .blocked

/-- The blocking `write` with an error code. -/
def write (bytes : List Byte) : M σ ErrorCode := do
  let s := (← get).self.socket
  if bytes = [] then pure none
  else if s.opened = false then pure (some .other)
  else do
    setSelf fun self => { self with socket := { self.socket with writes := self.socket.writes.tail } }
    match s.writes.head?.join with
    | some f => pure (some f)
    | none => do
        emit (.wrote bytes)
        pure none

/-- The blocking `write` that throws. -/
def writeOrThrow (bytes : List Byte) : M σ Unit := do
  match ← write bytes with
  | some f => throw (.fault (.thrown (.systemError f)))
  | none => pure ()

/-! ## Shared state -/

def touchSource (f : PBuffer → PBuffer) : M σ Unit := modify fun w => w.touchSource f

def runQuery (lib : External σ) (call : QrCall) (p : Query α) : M σ α := do
  let r := p.run lib.engine (← get).db
  modify fun w => w.ran call r
  lift r.result

/-- `nmap_notify`. -/
def nmapNotify (userId : Str) (taskNumber : Nat) : M σ Unit :=
  modify fun w => w.notify userId taskNumber

/-- `nmap_notify_with_list`. -/
def nmapNotifyWithList : List Str → Nat → M σ Unit
  | [], _ => pure ()
  | user :: rest, taskNumber => do
      nmapNotify user taskNumber
      nmapNotifyWithList rest taskNumber

/-- `(*checkManager)[i]`. -/
def checkManagerAt (i : Int) : M σ Int := do
  match (← get).self.checkManager with
  | none => throw (.fault .wildPointer)
  | some a => if 0 ≤ i ∧ i < 10 then pure (a.toArray.getD i.toNat 0) else throw .badIndex

end M
end NineProject
