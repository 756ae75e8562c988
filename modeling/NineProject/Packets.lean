import NineProject.Base.Bytes

/-! # Records on the wire

The fixed-size records that a session sends or receives as they stand in memory,
with the offsets a 64-bit compiler gives their members. Reading takes the members
from a block; bytes between members are not read, and are zero when written.
-/

namespace NineProject

open Bytes

/-- `pchd`, 32 bytes. -/
structure Pchd where
  sz : Int
  actionOrCommand : Int
  comd : Int
  suk : Int
  ack : Int
  count : Int
  pbuf : Int
  deriving DecidableEq, Repr

namespace Pchd

def size : Nat := 32

/-- `pchd h = {}`. -/
def empty : Pchd := ⟨0, 0, 0, 0, 0, 0, 0⟩

def ofBytes (b : List Byte) : Pchd :=
  ⟨field b 0 2, field b 2 2, field b 4 2, field b 8 4, field b 12 4, field b 16 4, field b 24 8⟩

def toBytes (h : Pchd) : List Byte :=
  ofInt 2 h.sz ++ ofInt 2 h.actionOrCommand ++ ofInt 2 h.comd ++ [0, 0] ++ ofInt 4 h.suk ++
    ofInt 4 h.ack ++ ofInt 4 h.count ++ [0, 0, 0, 0] ++ ofInt 8 h.pbuf

@[simp] theorem toBytes_length (h : Pchd) : h.toBytes.length = size := by
  simp [toBytes, size]

end Pchd

/-- `msReq`, 24 bytes. -/
structure MsReq where
  tableKey : Int
  sender : Int
  sz : Int
  uncheck : Int
  deriving DecidableEq, Repr

namespace MsReq

def size : Nat := 24

def ofBytes (b : List Byte) : MsReq := ⟨field b 0 4, field b 4 4, field b 8 2, field b 12 4⟩

end MsReq

/-- `msOut`, 32 bytes; `time` is the eight bytes of a `ptime`. -/
structure MsOut where
  tableKey : Int
  userIndex : Int
  textLenth : Int
  arrived : Int
  check : Int
  sz : Int
  time : List Byte
  deriving DecidableEq, Repr

namespace MsOut

def size : Nat := 32

def ofBytes (b : List Byte) : MsOut :=
  ⟨field b 0 4, field b 4 2, field b 6 2, field b 8 4, field b 12 2, field b 16 4, (b.drop 24).take 8⟩

def toBytes (r : MsOut) : List Byte :=
  ofInt 4 r.tableKey ++ ofInt 2 r.userIndex ++ ofInt 2 r.textLenth ++ ofInt 4 r.arrived ++
    ofInt 2 r.check ++ [0, 0] ++ ofInt 4 r.sz ++ [0, 0, 0, 0] ++ poke (List.replicate 8 0) 0 r.time

@[simp] theorem toBytes_length (r : MsOut) : r.toBytes.length = size := by
  simp [toBytes, size]

end MsOut

/-- `strtIvtResponse`, 28 bytes. -/
structure StrtIvtResponse where
  tableKey : Int
  senderIdSize : Int
  /-- `char time[20]`. -/
  time : List Byte
  deriving DecidableEq, Repr

namespace StrtIvtResponse

def size : Nat := 28

def toBytes (r : StrtIvtResponse) : List Byte :=
  ofInt 4 r.tableKey ++ ofInt 4 r.senderIdSize ++ poke (List.replicate 20 0) 0 r.time

@[simp] theorem toBytes_length (r : StrtIvtResponse) : r.toBytes.length = size := by
  simp [toBytes, size]

end StrtIvtResponse

/-- `concResponse`, 16 bytes. -/
structure ConcResponse where
  senderIdSize : Int
  receiverIdSize : Int
  time : List Byte
  deriving DecidableEq, Repr

namespace ConcResponse

def size : Nat := 16

/-- Where the time begins in the record. -/
def timeAt : Nat := 8

def toBytes (r : ConcResponse) : List Byte :=
  ofInt 4 r.senderIdSize ++ ofInt 4 r.receiverIdSize ++ poke (List.replicate 8 0) 0 r.time

@[simp] theorem toBytes_length (r : ConcResponse) : r.toBytes.length = size := by
  simp [toBytes, size]

end ConcResponse

/-- `concRequest`, 16 bytes. -/
structure ConcRequest where
  senderIdSize : Int
  receiverIdSize : Int
  deriving DecidableEq, Repr

namespace ConcRequest

def size : Nat := 16

def ofBytes (b : List Byte) : ConcRequest := ⟨field b 0 4, field b 4 4⟩

end ConcRequest

/-- `ivtReq`, 8 bytes. -/
structure IvtReq where
  tableKey : Int
  targetIdSize : Int
  deriving DecidableEq, Repr

namespace IvtReq

def size : Nat := 8

def ofBytes (b : List Byte) : IvtReq := ⟨field b 0 4, field b 4 4⟩

end IvtReq

/-- `createTableReq`, 8 bytes. -/
structure CreateTableReq where
  hostIdSize : Int
  participations : Int
  deriving DecidableEq, Repr

namespace CreateTableReq

def size : Nat := 8

def ofBytes (b : List Byte) : CreateTableReq := ⟨field b 0 4, field b 4 4⟩

end CreateTableReq

/-- `UserDescriptor`, 8 bytes. -/
structure UserDescriptor where
  idSize : Int
  idKey : Int
  deriving DecidableEq, Repr

namespace UserDescriptor

def size : Nat := 8

def ofBytes (b : List Byte) : UserDescriptor := ⟨field b 0 4, field b 4 4⟩

def toBytes (u : UserDescriptor) : List Byte := ofInt 4 u.idSize ++ ofInt 4 u.idKey

end UserDescriptor

/-- The size of `rqlog`, the two sizes of a login. -/
def rqlogSize : Nat := 8

/-- `createTableResponse`, the key allocated. -/
def createTableResponse (keyAllocated : Int) : List Byte := ofInt 4 keyAllocated

/-- `strtLogResp`, one `bool`. -/
def strtLogResp (result : Bool) : List Byte := [if result then 1 else 0]

/-! ## Codes -/

/-- The actions that `Action` has a handler for. -/
inductive EAction where
  | reqLog
  | sendMsg
  | requestConnection
  | requestInvite
  | requestCreateTable
  deriving DecidableEq, Repr

def EAction.code : EAction → Int
  | .reqLog => 20
  | .sendMsg => 80
  | .requestConnection => 81
  | .requestInvite => 82
  | .requestCreateTable => 83

inductive ECommand where
  | getMsg
  | getIvt
  | getConnection
  | getFriendList
  deriving DecidableEq, Repr

def ECommand.code : ECommand → Int
  | .getMsg => 70
  | .getIvt => 71
  | .getConnection => 72
  | .getFriendList => 73

/-- The action of a code, as the chain of comparisons in `Action` finds it. -/
def EAction.ofCode (comd : Int) : Option EAction :=
  if comd = code .reqLog then some .reqLog
  else if comd = code .sendMsg then some .sendMsg
  else if comd = code .requestConnection then some .requestConnection
  else if comd = code .requestInvite then some .requestInvite
  else if comd = code .requestCreateTable then some .requestCreateTable
  else none

def ECommand.ofCode (comd : Int) : Option ECommand :=
  if comd = code .getConnection then some .getConnection
  else if comd = code .getIvt then some .getIvt
  else if comd = code .getMsg then some .getMsg
  else if comd = code .getFriendList then some .getFriendList
  else none

theorem EAction.ofCode_code (a : EAction) : ofCode a.code = some a := by
  cases a <;> rfl

theorem ECommand.ofCode_code (c : ECommand) : ofCode c.code = some c := by
  cases c <;> rfl

theorem EAction.ofCode_eq_some {comd : Int} {a : EAction} (h : ofCode comd = some a) :
    comd = a.code := by
  unfold ofCode at h
  grind

theorem ECommand.ofCode_eq_some {comd : Int} {c : ECommand} (h : ofCode comd = some c) :
    comd = c.code := by
  unfold ofCode at h
  grind

/-- `AC::Command`; any other value is served as an action. -/
def isCommand (h : Pchd) : Prop := h.actionOrCommand = 1

instance (h : Pchd) : Decidable (isCommand h) := inferInstanceAs (Decidable (_ = _))

/-- `decode_hader` takes the header up, where no other is in the queue. -/
def Pchd.Accepted (h : Pchd) : Prop := 0 ≤ h.sz ∧ h.sz ≤ 1024

instance (h : Pchd) : Decidable h.Accepted := inferInstanceAs (Decidable (_ ∧ _))

/-- The command a header asks for. -/
def Pchd.commanded (h : Pchd) : Option ECommand :=
  if isCommand h then ECommand.ofCode h.comd else none

/-- `checkListIndex`. -/
def CheckListIndex.messageArr : Nat := 0
def CheckListIndex.tableIvt : Nat := 1
def CheckListIndex.connectionReq : Nat := 2

def commandNumberToCheckListIndex (command : Int) : Int :=
  if command = ECommand.code .getConnection then 2
  else if command = ECommand.code .getIvt then 1
  else if command = ECommand.code .getMsg then 0
  else if command = ECommand.code .getFriendList then 9
  else -1

end NineProject
