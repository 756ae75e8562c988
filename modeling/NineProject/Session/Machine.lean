import NineProject.Base.Runs
import NineProject.Session.Handlers

/-! # Runs of a session

An operation completes with an error code, and a read with the bytes it took from
the stream: all it asked for on success. Behind a failed read there is nothing
more to read. Between completions the mail box may be checked, and other sessions
may change the database and the notifier map.
-/

namespace NineProject

open Bytes M

/-- Which operation completes and how. `ret` is what `decode_hader` gives back where it
    reaches no return statement. -/
structure Completion where
  index : Nat
  err : ErrorCode
  got : Nat
  ret : Bool
  deriving DecidableEq, Repr

inductive Act (σ : Type) where
  | complete (c : Completion)
  | checkMailBox
  | others (db : σ) (nmap : NMap)

/-- The socket behind a completed operation and the bytes that were read; `none` where
    the completion cannot happen. -/
def transfer (op : Op) (c : Completion) (s : Socket) : Option (List Byte × Socket) :=
  match op.handler with
  | .taskEnd _ => some ([], s)
  | handler =>
      let n := sizeT handler.asked
      match c.err with
      | none =>
          if n ≤ s.input.length then some (s.input.take n, { s with input := s.input.drop n })
          else none
      | some f =>
          if c.got ≤ n ∧ c.got ≤ s.input.length then
            some (s.input.take c.got, { s with input := [], fault := some f })
          else none

section
variable {σ : Type} (lib : External σ)

/-- The handler of a payload read. -/
def actionHandler (a : EAction) (err : ErrorCode) : M σ Unit :=
  match a with
  | .reqLog => readIdAndPassword err
  | .sendMsg => responseActSendMsg lib (taskEnd lib) err
  | .requestConnection => responseActConnect lib (taskEnd lib) err
  | .requestInvite => responseActInvite lib (taskEnd lib) err
  | .requestCreateTable => responseActCreateChatTable lib (taskEnd lib) err

def Session.receiveHeader (s : Session) (got : List Byte) : Session :=
  { s with pc := { s.pc with iData := poke s.pc.iData 0 got } }

def Session.receivePayload (s : Session) (got : List Byte) : Session :=
  { s with hBuf := s.hBuf.receive got }

/-- A completed operation runs its handler, with the bytes read in their place. -/
def complete (op : Op) (err : ErrorCode) (got : List Byte) (ret : Bool) : M σ Unit :=
  match op.handler with
  | .readHeader => do
      setSelf fun s => s.receiveHeader got
      readHeaderHandle lib err ret
  | .action a => do
      setSelf fun s => s.receivePayload got
      actionHandler lib a err
  | .login idpw idSize pwSize => responseReqLogin lib err (idpw.receive got) idSize pwSize
  | .taskEnd _ => taskEnd lib err

/-- The world a program leaves, marked where it stopped. -/
def World.exec {α : Type} (w : World σ) (m : M σ α) : World σ :=
  match m w with
  | .ok _ t => t
  | .error stop t => { t with stopped := some stop }

/-- An operation leaves the list, with the socket as the transfer left it, and its
    handler works for its header. -/
def World.completing (w : World σ) (index : Nat) (op : Op) (socket : Socket) : World σ :=
  { w with self := { w.self with socket := socket },
           pending := w.pending.eraseIdx index,
           ticket := op.ticket }

/-- One step of a session; a session that stopped makes none. -/
def next (w : World σ) : Act σ → Option (World σ)
  | .complete c =>
      if w.stopped.isSome then none
      else (w.pending[c.index]?).bind fun op =>
        (transfer op c w.self.socket).map fun t =>
          (w.completing c.index op t.2).exec (complete lib op c.err t.1 c.ret)
  | .checkMailBox => if w.stopped.isSome then none else some (w.exec checkMailBox)
  | .others db nmap =>
      if w.stopped.isSome then none else some { w with db := db, nmap := nmap }

/-- The header that a step brings, where it is a header read that succeeds. -/
def World.arriving (w : World σ) : Act σ → Option Pchd
  | .complete ⟨index, none, _, _⟩ =>
      if (w.pending[index]?).any (·.handler = .readHeader) then
        some (Pchd.ofBytes (w.self.receiveHeader (w.self.socket.input.take Pchd.size)).pc.iData)
      else none
  | _ => none

/-- A new session on an accepted connection, with whatever its constructor leaves unset. -/
def Session.accepted (socket : Socket) (initialized renewed : Bool) (iData : Vector Byte 1024)
    (hBuf : Vector Byte 32) (source : Vector Byte 1024) : Session :=
  { socket := socket,
    initialized := initialized,
    renewed := renewed,
    userName := [],
    checkManager := none,
    nf := none,
    pc := ⟨iData.toList, []⟩,
    notice := [],
    hBuf := ⟨Param.ofTypes [.int, .int, .int, .int], Pchd.size, 0, 0, hBuf.toList⟩,
    source := ⟨Param.ofTypes [.int, .int, .int, .int], 1024, 0, 0, source.toList⟩ }

/-- A session on a connection that was just accepted. -/
def Session.New (s : Session) : Prop :=
  ∃ socket initialized renewed iData hBuf source,
    s = accepted socket initialized renewed iData hBuf source

/-- The world in which a new session has started its first header read. -/
def World.accepted (s : Session) (db : σ) (nmap : NMap) : World σ :=
  World.exec ⟨s, db, nmap, [], 0, 0, 0, [], none⟩ (sessionTask lib (taskEnd lib) none)

/-! ## A client and its server -/

/-- A new session with a client that sends `input`. -/
def client (input : List Byte) : Session :=
  Session.accepted ⟨true, input, none, []⟩ false false (Vector.replicate 1024 0)
    (Vector.replicate 32 0) (Vector.replicate 1024 0)

theorem client_new (input : List Byte) : (client input).New :=
  ⟨_, _, _, _, _, _, rfl⟩

/-- A header with nothing but its code. -/
def request (actionOrCommand comd : Int) : List Byte :=
  Pchd.toBytes { Pchd.empty with actionOrCommand := actionOrCommand, comd := comd }

/-- Ann's login, with a password of four letters. -/
def annLogin : List Byte :=
  request 0 EAction.reqLog.code ++ ofInt 4 3 ++ ofInt 4 4 ++ str "annkiwi"

/-- Ann's session, logged in. -/
def annSession (input : List Byte) : Session :=
  { client input with
    userName := str "ann",
    initialized := true,
    checkManager := some (Vector.replicate 10 0),
    nf := some 0 }

/-- Ann is a user and sits at table 7. -/
def annDb (rows : List (Str × List Sql.Row)) : Sql.Memory :=
  ⟨tables (rows ++ [(str "user", [⟨1, [.text (str "ann"), .text (str "kiwi")]⟩]),
    (str "checkList", [⟨1, [.text (str "ann"), .int 0, .int 0, .int 0]⟩]),
    (str "part", [⟨1, [.int 7, .text (str "ann"), .int 0]⟩])]), 0⟩

/-- Ann's session waits for a header. -/
def annWaits (input : List Byte) (rows : List (Str × List Sql.Row)) : World Sql.Memory :=
  ⟨annSession input, annDb rows, ⟨[(str "ann", 0)], [NotificationArr.fresh]⟩, [⟨.readHeader, 0⟩],
    0, 0, 0, [], none⟩

/-- The operation that was started first completes without error. -/
def Act.first {σ : Type} : Act σ := .complete ⟨0, none, 0, false⟩

end
end NineProject
