import NineProject.Session.State

/-! # The handlers of a session

`session.cpp`, function by function. `task_end` goes back to the dispatcher that
called the handler that calls it; the handlers take it as an argument, and it is
tied to them at the end, where the header queue is what gets shorter. What an
`error_code` clause would catch is never thrown, so those clauses are left out.
-/

namespace NineProject

open Bytes M

/-- The name under which a reply reserves its header. -/
def headerTag : Str := str "Header"

section
variable {σ : Type} (lib : External σ)

def errorHandle (err : ErrorCode) : M σ Unit :=
  if err = some .eof ∨ err = some .connectionReset then
    setSelf fun s =>
      { s with socket := { s.socket with opened := false }, initialized := false }
  else pure ()

/-! ## Login -/

/-- The array of flags is a new one; the map keeps the one it has. -/
def World.login (w : World σ) (username : Str) : World σ :=
  { w with self := { w.self with nf := some w.nmap.alloc.2, initialized := true },
           nmap := w.nmap.alloc.1.insert username w.nmap.alloc.2 }

def sessionInit (err : ErrorCode) (username : Str) : M σ Unit := do
  when err.isSome (errorHandle err)
  let list ← runQuery lib .getCheckList (Qr.getCheckList username)
  setSelf fun s => { s with checkManager := some list, userName := username }
  modify fun w => w.login username

/-- The two sizes are one `char` each. -/
def readIdAndPassword (err : ErrorCode) : M σ Unit := do
  let h := (← get).self.hBuf.data
  let idSize := field h 0 1
  let pwSize := field h 4 1
  if err.isNone then do
    let idpw ← lift (PBuffer.ofSize (wrap 32 (idSize + pwSize)))
    asyncRead (.login idpw idSize pwSize) .idpw fun _ => idpw.data.length
  else errorHandle err

def responseReqLogin (err : ErrorCode) (h : PBuffer) (idSize pwSize : Int) : M σ Unit := do
  if err.isSome then errorHandle err
  else if idSize < 0 ∨ pwSize < 0 then throw (.fault (.thrown .lengthError))
  else do
    let reqId := h.data.take idSize.toNat
    let reqPw := (h.data.drop idSize.toNat).take pwSize.toNat
    let result ← runQuery lib .checkUserPassword (Qr.checkUserPassword reqId reqPw)
    emit (.login result)
    when result (sessionInit lib err reqId)
    let _hd ← front
    asyncWrite (strtLogResp result) false

/-! ## Commands -/

/-- Both writes are made, and the error is that of the second. -/
def sendIdWithDesc (s : Str) : M σ ErrorCode := do
  let _ ← write (UserDescriptor.toBytes ⟨wrap 32 s.length, 0⟩)
  write s

def sendFriends (ell : ErrorCode) : List Str → M σ ErrorCode
  | [] => pure ell
  | s :: rest => do
      let ell ← sendIdWithDesc s
      when ell.isSome (errorHandle ell)
      sendFriends ell rest

def rgetFriendList (taskEnd : ErrorCode → M σ Unit) : M σ Unit := do
  let (fList, rows) ← runQuery lib .getFriendList (Qr.getFriendList (← get).self.userName)
  writeOrThrow (Pchd.toBytes { Pchd.empty with ack := 1, count := wrap 32 fList.length })
  emit (.reply .getFriendList rows)
  let ell ← sendFriends none fList
  taskEnd ell

/-- The header goes out at once, the entries with an operation of their own, and the
    task ends here as well as there. -/
def rgetNewMessage (taskEnd : ErrorCode → M σ Unit) (err : ErrorCode) : M σ Unit := do
  let lastCheck ← checkManagerAt CheckListIndex.messageArr
  let self := (← get).self
  let f ← runQuery lib .getNewMessage (Qr.getNewMessage lib self.source self.userName lastCheck)
  when (f.rows ≠ []) (touchSource fun _ => f.buf)
  let h : Pchd :=
    ⟨0, 1, ECommand.code .getMsg, 0, 1, wrap 32 f.count, 0⟩
  writeOrThrow h.toBytes
  emit (.reply .getMsg f.rows)
  asyncWrite (← get).self.source.written true
  setSelf fun s => { s with checkManager := s.checkManager.map (·.setIfInBounds 0 lastCheck) }
  taskEnd err

def responseReqGetNewIvt (err : ErrorCode) : M σ Unit := do
  let h ← front
  when err.isSome (errorHandle err)
  let pb ← lift (PBuffer.ofSize 256)
  let pb ← lift (pb.reserveWithTag Pchd.size headerTag)
  let _lastCheck ← checkManagerAt CheckListIndex.tableIvt
  let f ← runQuery lib .getNewIvtReq (Qr.getNewIvtReq lib (← get).self.userName pb)
  let h := { h with ack := 1, actionOrCommand := 1, count := wrap 32 f.count }
  let pb ← lift (f.buf.allocateWithTag headerTag h.toBytes)
  emit (.reply .getIvt f.rows)
  asyncWrite pb.written false

def responseReqGetNewConc (err : ErrorCode) : M σ Unit := do
  when err.isSome (errorHandle err)
  let p ← lift (PBuffer.ofSize 256)
  let p ← lift (p.reserveWithTag Pchd.size headerTag)
  let lastCheck ← checkManagerAt CheckListIndex.connectionReq
  let f ← runQuery lib .getNewConnectionReq
    (Qr.getNewConnectionReq lib (← get).self.userName p lastCheck)
  let h : Pchd := ⟨0, 1, ECommand.code .getConnection, 0, 0, wrap 32 f.count, 0⟩
  let p ← lift (f.buf.allocateWithTag headerTag h.toBytes)
  emit (.reply .getConnection f.rows)
  asyncWrite p.written false

def commandHandler (taskEnd : ErrorCode → M σ Unit) (err : ErrorCode) : ECommand → M σ Unit
  | .getConnection => responseReqGetNewConc lib err
  | .getIvt => responseReqGetNewIvt lib err
  | .getMsg => rgetNewMessage lib taskEnd err
  | .getFriendList => rgetFriendList lib taskEnd

/-- Any code without a handler is passed over, once its index has been used. -/
def command (taskEnd : ErrorCode → M σ Unit) (err : ErrorCode) : M σ Unit := do
  let h ← front
  let _lastCheck ← checkManagerAt (commandNumberToCheckListIndex h.comd)
  match ECommand.ofCode h.comd with
  | some c => commandHandler lib taskEnd err c
  | none => pure ()

/-! ## Actions -/

/-- The participants of a new table; `data` is the array their names pass through. A buffer
    made of an array is never longer than the array, but the name is made of `idSize` bytes. -/
def readInvited (data : List Byte) : Nat → M σ (List Str)
  | 0 => pure []
  | n + 1 => do
      let us ← read .descriptor UserDescriptor.size UserDescriptor.size
      let idSize := (UserDescriptor.ofBytes us).idSize
      let bytes ← read .data (min data.length (sizeT idSize) : Nat) data.length
      let data := poke data 0 bytes
      when (idSize < 0) (throw (.fault (.thrown .lengthError)))
      when (data.length < idSize) (throw (.fault .overrun))
      let rest ← readInvited data n
      pure (data.take idSize.toNat :: rest)

def responseActCreateChatTable (taskEnd : ErrorCode → M σ Unit) (err : ErrorCode) : M σ Unit := do
  let w ← get
  let req := CreateTableReq.ofBytes w.self.hBuf.data
  let cont ← readInvited (List.replicate 256 0) req.participations.toNat
  let key ← runQuery lib .createTable (Qr.createTable w.self.userName cont)
  writeOrThrow (createTableResponse key)
  nmapNotifyWithList cont CheckListIndex.tableIvt
  taskEnd err

/-- The payload of a request into `source_`. -/
def readSource (size : Int) : M σ Str := do
  touchSource fun source => source.nsrc size
  let bytes ← read .source size (← get).self.source.data.length
  touchSource fun source => source.receive bytes
  lift (← get).self.source.toString

def responseActConnect (taskEnd : ErrorCode → M σ Unit) (err : ErrorCode) : M σ Unit := do
  let w ← get
  let rq := ConcRequest.ofBytes w.self.hBuf.data
  let receiver ← readSource rq.receiverIdSize
  let _ ← runQuery lib .insertConnection (Qr.insertConnection w.self.userName receiver)
  nmapNotify receiver CheckListIndex.connectionReq
  taskEnd err

def responseActSendMsg (taskEnd : ErrorCode → M σ Unit) (err : ErrorCode) : M σ Unit := do
  let req := MsReq.ofBytes (← get).self.hBuf.data
  let text ← readSource req.sz
  let _ ← runQuery lib .insertMessage (Qr.insertMessage req text)
  let mList ← runQuery lib .getDiningMembers (Qr.getDiningMembers req.tableKey)
  nmapNotifyWithList mList CheckListIndex.messageArr
  taskEnd err

/-- The name read is not what `to_string` gives: nothing counts as written. -/
def responseActInvite (taskEnd : ErrorCode → M σ Unit) (err : ErrorCode) : M σ Unit := do
  when err.isSome (errorHandle err)
  let w ← get
  let req := IvtReq.ofBytes w.self.hBuf.data
  let targetGetter ← lift (PBuffer.ofSize req.targetIdSize)
  let bytes ← read .targetGetter req.targetIdSize targetGetter.data.length
  let target ← lift (targetGetter.receive bytes).toString
  runQuery lib .insertInvite (Qr.insertInvite target w.self.userName req.tableKey)
  nmapNotify target CheckListIndex.tableIvt
  taskEnd err

/-- Reads the payload; any code without a handler is passed over. -/
def action : M σ Unit := do
  let h ← front
  match EAction.ofCode h.comd with
  | some a => asyncRead (.action a) .hBuf fun w => w.self.hBuf.data.length
  | none => pure ()

/-! ## Dispatch -/

def readHandle (taskEnd : ErrorCode → M σ Unit) (err : ErrorCode) : M σ Unit := do
  let h ← front
  dispatch h
  if isCommand h then command lib taskEnd err else action

def sessionTask (taskEnd : ErrorCode → M σ Unit) (err : ErrorCode) : M σ Unit := do
  if err.isSome then errorHandle err
  else do
    if (← get).self.pc.hQue = [] then asyncRead .readHeader .header fun w => w.self.pc.iData.length
    else readHandle lib taskEnd err

/-- `task_end` with at most so many headers behind it; with none, `pop` fails. -/
def taskEndWithin : Nat → ErrorCode → M σ Unit
  | 0, _ => throw .emptyQueue
  | n + 1, err => do
      pop
      touchSource PBuffer.initRecord
      sessionTask lib (taskEndWithin n) err

/-- Every call takes a header off the queue, and no handler puts one on it. -/
def taskEnd (err : ErrorCode) : M σ Unit := do
  taskEndWithin lib (← get).self.pc.hQue.length err

/-- `decode_hader`; `ret` is what it returns where it reaches no return statement. -/
def decodeHader (err : ErrorCode) (ret : Bool) : M σ Bool := do
  if err.isSome then pure ret
  else do
    let pc := (← get).self.pc
    let hh := Pchd.ofBytes pc.iData
    if hh.sz < 0 then pure false
    else match pc.hQue with
      | pp :: _ => if pp.comd = hh.comd then pure true else pure ret
      | [] =>
          if 1024 < hh.sz then pure false
          else do
            push hh
            pure true

def readHeaderHandle (err : ErrorCode) (ret : Bool) : M σ Unit := do
  when err.isSome (errorHandle err)
  if ← decodeHader err ret then readHandle lib (taskEnd lib) err
  else sessionTask lib (taskEnd lib) err

/-! ## The mail box -/

/-- The kinds a check looks at, with the sizes their notices name. -/
def mailKinds : List (Nat × Nat × ECommand) :=
  [(CheckListIndex.messageArr, MsReq.size, .getMsg), (CheckListIndex.tableIvt, MsReq.size, .getIvt),
    (CheckListIndex.connectionReq, 4, .getConnection)]

/-- A raised flag becomes a notice and is lowered. -/
def checkMail (kind : Nat × Nat × ECommand) : M σ Unit := do
  let w ← get
  match w.self.nf.bind w.nmap.at_ with
  | none => throw (.fault .wildPointer)
  | some flags =>
      if flags.toArray.getD kind.1 false then do
        let notice : Pchd := ⟨kind.2.1, 1, kind.2.2.code, 0, 0, 1, 0⟩
        setSelf fun s => { s with notice := s.notice ++ [notice], renewed := true }
        modify fun w => { w with nmap := w.nmap.modify (w.self.nf.getD 0) (·.taskEnd kind.1) }

def checkMailBox : M σ Unit := do
  if (← get).self.initialized then mailKinds.forM checkMail

end
end NineProject
