import NineProject.Base.Simulation
import NineProject.ConcReply
import NineProject.Framing
import NineProject.FriendList
import NineProject.InviteReply

/-! # The service behind the sessions

What the server does for its clients, with everything left out that it only needs to do it
in pieces: no header queue, no buffers, no operations under way. A client has its requests
in hand and is served one at a time, whole: the database is asked, those concerned are
told, and the answer is written as the bytes it is.
-/

namespace NineProject

open Bytes Sql

/-- What is kept for one client. -/
structure Desk where
  userName : Str
  checkManager : Option (Vector Int 10)
  nf : Option Nat
  initialized : Bool
  notice : List Pchd
  /-- All that was written to the client. -/
  sent : List Byte
  /-- The requests that were not served yet. -/
  todo : List Sent
  deriving DecidableEq, Repr

/-- A desk with what all desks share. -/
structure Service (σ : Type) extends Desk where
  db : σ
  nmap : NMap

abbrev Serve (σ α : Type) := StateT (Service σ) Option α

/-! ## Serving a request -/

section
variable {σ α : Type} (lib : External σ)

/-- There is no service where the query stops. -/
def ask (q : Query α) : Serve σ α := fun s =>
  let r := q.run lib.engine s.db
  r.result.toOption.map fun a => (a, { s with db := r.db })

variable {lib} in
theorem ask_run {q : Query α} {s : Service σ} {a : α} (ends : (q.run lib.engine s.db).result = .ok a) :
    (ask lib q).run s = some (a, { s with db := (q.run lib.engine s.db).db }) := by
  simp [ask, StateT.run, ends, Except.toOption]

def send (bytes : List Byte) : Serve σ Unit := modify fun s => { s with sent := s.sent ++ bytes }

def tell (users : List Str) (task : Nat) : Serve σ Unit :=
  modify fun s => { s with nmap := s.nmap.notifyWithList users task }

def Service.login (s : Service σ) (id : Str) (list : Vector Int 10) : Service σ :=
  { s with userName := id, checkManager := some list, nf := some s.nmap.alloc.2, initialized := true,
           nmap := s.nmap.alloc.1.insert id s.nmap.alloc.2 }

/-- Who is accepted gets a check list and flags. -/
def letIn (id : Str) (accepted : Bool) : Serve σ Unit :=
  if accepted then do
    let list ← ask lib (Qr.getCheckList id)
    modify fun s => s.login id list
  else pure ()

def serveLogin (id pw : Str) : Serve σ Unit := do
  let accepted ← ask lib (Qr.checkUserPassword id pw)
  letIn lib id accepted
  send (strtLogResp accepted)

/-- The entries made of the rows of a statement. -/
def entriesOf (parts : ResultRow → Except Fault (List Byte × List Byte)) (text : Str) :
    Query (List (List Byte × List Byte)) :=
  query text (fun es row => (parts row).map fun e => es ++ [e]) []

/-- A header that counts the entries, and the entries. -/
def sendEntries (h : Int → Pchd) (q : Query (List (List Byte × List Byte))) : Serve σ Unit := do
  let es ← ask lib q
  send ((h es.length).toBytes ++ es.flatMap Layout.encode)

/-- The header of a reply with so many invites, which is made of the one that asks. -/
def ivtHeader (h : Pchd) (n : Int) : Pchd := { h with ack := 1, actionOrCommand := 1, count := wrap 32 n }

def concHeader (n : Int) : Pchd := ⟨0, 1, ECommand.code .getConnection, 0, 0, wrap 32 n, 0⟩

/-- The messages are not served: that reply ends its task twice. -/
def serveCommand (h : Pchd) : ECommand → Serve σ Unit
  | .getMsg => failure
  | .getIvt => do
      let s ← get
      sendEntries lib (ivtHeader h)
        (entriesOf (ivtParts lib) (selectQuery .invite (0, .string s.userName) Compare.equal SelectTarget.all))
  | .getConnection => do
      let s ← get
      let list ← s.checkManager
      sendEntries lib concHeader (entriesOf (concParts lib)
        (selectQuery2 .connectionRequest (1, .string s.userName) (-2, .int (list.toArray.getD 2 0)) Compare.equal
          Compare.equalAndHigher SelectTarget.all))
  | .getFriendList => do
      let s ← get
      let got ← ask lib (Qr.getFriendList s.userName)
      send (friendsReply got.1)

/-- The users that an action concerns, once it is stored. An invitation concerns nobody. -/
def concerned : Payload → Serve σ (List Str)
  | .message record text => do
      let _ ← ask lib (Qr.insertMessage (MsReq.ofBytes record) text)
      ask lib (Qr.getDiningMembers (MsReq.ofBytes record).tableKey)
  | .connection _ receiver => do
      let s ← get
      let _ ← ask lib (Qr.insertConnection s.userName receiver)
      pure [receiver]
  | .invite record _ => do
      let s ← get
      ask lib (Qr.insertInvite [] s.userName (IvtReq.ofBytes record).tableKey)
      pure [[]]
  | .table _ invited => do
      let s ← get
      let key ← ask lib (Qr.createTable s.userName (invited.map Prod.snd))
      send (createTableResponse key)
      pure (invited.map Prod.snd)
  | .login _ _ | .command _ => pure []

def serve (r : Sent) : Serve σ Unit :=
  match r.payload with
  | .login id pw => serveLogin lib id pw
  | .command c => serveCommand lib r.pchd c
  | .message record text => do tell (← concerned lib (.message record text)) CheckListIndex.messageArr
  | .connection record receiver => do tell (← concerned lib (.connection record receiver)) CheckListIndex.connectionReq
  | .invite record target => do tell (← concerned lib (.invite record target)) CheckListIndex.tableIvt
  | .table record invited => do tell (← concerned lib (.table record invited)) CheckListIndex.tableIvt

/-- Raised flags become notices and are lowered. -/
def collect : Serve σ Unit := fun s =>
  if s.initialized then do
    let pointer ← s.nf
    let flags ← s.nmap.at_ pointer
    pure ((), { s with notice := s.notice ++ noticesOf flags mailKinds,
                       nmap := s.nmap.modify pointer fun a => lowered a mailKinds })
  else pure ((), s)

/-- The next request of the client is served. -/
def Service.next (s : Service σ) : Option (Service σ) :=
  match s.todo with
  | [] => none
  | r :: rest => ((serve lib r).run { s with todo := rest }).map Prod.snd

/-! ## The office -/

variable (σ) in
structure Office where
  db : σ
  nmap : NMap
  desks : List Desk

/-- What happens in an office: one thing at a time. -/
inductive OfficeAct (σ : Type) where
  /-- Another desk, for a client with these requests. -/
  | join (initialized : Bool) (todo : List Sent)
  | serve (i : Nat)
  | collect (i : Nat)
  | others (db : σ) (nmap : NMap)

namespace Office

def at_ (o : Office σ) (i : Nat) : Option (Service σ) := (o.desks[i]?).map fun d => ⟨d, o.db, o.nmap⟩

def leave (o : Office σ) (i : Nat) (s : Service σ) : Office σ := ⟨s.db, s.nmap, o.desks.set i s.toDesk⟩

def turn (o : Office σ) : OfficeAct σ → Option (Office σ)
  | .join initialized todo =>
      some { o with desks := o.desks ++ [⟨[], none, none, initialized, [], [], todo⟩] }
  | .serve i => (o.at_ i).bind fun s => (s.next lib).map (o.leave i)
  | .collect i => (o.at_ i).bind fun s => (collect.run s).map fun r => o.leave i r.2
  | .others db nmap => some { o with db := db, nmap := nmap }

end Office
end

end NineProject
