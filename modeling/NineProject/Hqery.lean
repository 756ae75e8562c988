import NineProject.Sql.Connection

/-! # Statement builders

The descriptors of the eight tables and the functions that put a statement
together from a descriptor, column indices and values. A column index is not
checked by the source; outside the descriptor it names nothing here.
-/

namespace NineProject

structure QueryDsc where
  tableName : Str
  columnTagCont : List Str
  deriving DecidableEq, Repr

namespace QueryDsc

def getColumnName (d : QueryDsc) (indx : Int) : Str := (d.columnTagCont[indx.toNat]?).getD []

def getTableName (d : QueryDsc) : Str := d.tableName

/-- An index of one of the descriptor's columns. -/
def HasColumn (d : QueryDsc) (indx : Int) : Prop := 0 ≤ indx ∧ indx < d.columnTagCont.length

instance (d : QueryDsc) (indx : Int) : Decidable (d.HasColumn indx) :=
  inferInstanceAs (Decidable (_ ∧ _))

end QueryDsc

inductive QueryDescriptor where
  | user
  | table
  | message
  | participate
  | userPair
  | checkList
  | invite
  | connectionRequest
  deriving DecidableEq, Repr

def QueryDescriptor.value : QueryDescriptor → Nat
  | .user => 0
  | .table => 1
  | .message => 2
  | .participate => 3
  | .userPair => 4
  | .checkList => 5
  | .invite => 6
  | .connectionRequest => 7

def userDsc : QueryDsc := ⟨str "user", [str "id", str "pw"]⟩
def msDsc : QueryDsc :=
  ⟨str "ms", [str "tableKey", str "sender", str "message", str "time", str "chk"]⟩
def tableDsc : QueryDsc := ⟨str "chatTable", [str "host", str "participations"]⟩
def partDsc : QueryDsc := ⟨str "part", [str "tableKey", str "user"]⟩
def pairDsc : QueryDsc := ⟨str "userPair", [str "user0", str "user1"]⟩
def checkListDsc : QueryDsc :=
  ⟨str "checkList", [str "user", str "messageArr", str "tableIvt", str "connctionReq"]⟩
def inviteDsc : QueryDsc := ⟨str "invite", [str "target", str "tableKey", str "sender"]⟩
def connectionRequestDsc : QueryDsc :=
  ⟨str "connectionRequest", [str "sender", str "receiver", str "time"]⟩

def descriptorCont : List QueryDsc :=
  [userDsc, tableDsc, msDsc, partDsc, pairDsc, checkListDsc, inviteDsc, connectionRequestDsc]

def QueryDescriptor.dsc (qd : QueryDescriptor) : QueryDsc :=
  (descriptorCont[qd.value]?).getD userDsc

def eqivDscCont : List Str := [str ">", str ">=", str "==", str "<", str "<="]

/-- The text of a comparison code, by its position in `eqivDscCont`. -/
def eqivDsc (e : Int) : Str := (eqivDscCont[e.toNat]?).getD []

/-- The enumerators of `Compare`. -/
def Compare.higher : Int := 0
def Compare.equalAndHigher : Int := 1
def Compare.equal : Int := 2
def Compare.equalAndLower : Int := 3
def Compare.lower : Int := 4

/-- The enumerators of `SelectTarget`; `rowId` is also the code of a condition column. -/
def SelectTarget.rowId : Int := -2
def SelectTarget.all : Int := -1

/-- A value a builder template is instantiated at: `std::string` or `int`. -/
inductive Arg where
  | string (s : Str)
  | int (n : Int)
  deriving DecidableEq, Repr

def toStringS : Arg → Str
  | .string s => str "\"" ++ s ++ str "\""
  | .int n => Decimal.ofInt n

/-! ## Insertions -/

def insertQueryWithPair2 (qd : QueryDescriptor) (a0 a1 : Int × Arg) : Str :=
  str "INSERT INTO " ++ qd.dsc.getTableName ++ str " (" ++ qd.dsc.getColumnName a0.1 ++
    str " , " ++ qd.dsc.getColumnName a1.1 ++ str ") VALUES (" ++ toStringS a0.2 ++ str " , " ++
    toStringS a1.2 ++ str ");"

/-- The specialization for two strings, which the source writes out again. -/
def insertQueryWithPairStr (qd : QueryDescriptor) (a0 a1 : Int × Str) : Str :=
  str "INSERT INTO " ++ qd.dsc.getTableName ++ str " (" ++ qd.dsc.getColumnName a0.1 ++
    str " , " ++ qd.dsc.getColumnName a1.1 ++ str ") VALUES (" ++ toStringS (.string a0.2) ++
    str " , " ++ toStringS (.string a1.2) ++ str ");"

def insertQueryWithPair3 (qd : QueryDescriptor) (a0 a1 a2 : Int × Arg) : Str :=
  str "INSERT INTO " ++ qd.dsc.getTableName ++ str " (" ++ qd.dsc.getColumnName a0.1 ++
    str " , " ++ qd.dsc.getColumnName a1.1 ++ str "," ++ qd.dsc.getColumnName a2.1 ++
    str ") VALUES (" ++ toStringS a0.2 ++ str " , " ++ toStringS a1.2 ++ str "," ++
    toStringS a2.2 ++ str ");"

def insertQueryWithPair4 (qd : QueryDescriptor) (a0 a1 a2 a3 : Int × Arg) : Str :=
  str "INSERT INTO " ++ qd.dsc.getTableName ++ str " (" ++ qd.dsc.getColumnName a0.1 ++
    str " , " ++ qd.dsc.getColumnName a1.1 ++ str "," ++ qd.dsc.getColumnName a2.1 ++ str "," ++
    qd.dsc.getColumnName a3.1 ++ str ") VALUES (" ++ toStringS a0.2 ++ str " , " ++
    toStringS a1.2 ++ str "," ++ toStringS a2.2 ++ str "," ++ toStringS a3.2 ++ str ");"

def insertQuery (qd : QueryDescriptor) (a0 a1 : Arg) : Str :=
  str "INSERT INTO " ++ qd.dsc.getTableName ++ str " " ++ str "VALUES" ++ str "( " ++
    toStringS a0 ++ str "," ++ toStringS a1 ++ str ");"

/-- The position `find_last_of` gives for a byte. -/
def findLastOf (c : Byte) (s : Str) : Option Nat :=
  let behind := (s.reverse.takeWhile (· ≠ c)).length
  if behind < s.length then some (s.length - 1 - behind) else none

/-- `none` where the text has no closing parenthesis and `insert` throws. The place is the
    one in the text, which the source's `int` holds up to 2 GiB. -/
def addConditionToInsertQuery (query : Str) (a0 : Arg) : Option Str :=
  (findLastOf 41 query).map fun pos =>
    query.take pos ++ (str " , " ++ toStringS a0) ++ query.drop pos

/-! ## Queries -/

/-- The text of the columns a query asks for. -/
def targetText (d : QueryDsc) (target : Int) : Str :=
  if target = SelectTarget.all then str "*"
  else if target = SelectTarget.rowId then str "rowid"
  else d.getColumnName target

/-- The text of the column a condition is about. -/
def conditionColumn (d : QueryDsc) (first : Int) : Str :=
  if first = SelectTarget.rowId then str "rowid" else d.getColumnName first

def selectQuery (qd : QueryDescriptor) (a0 : Int × Arg) (e0 target : Int) : Str :=
  let cond := conditionColumn qd.dsc a0.1 ++ eqivDsc e0 ++ toStringS a0.2
  str "SELECT " ++ targetText qd.dsc target ++ str " FROM " ++ qd.dsc.getTableName ++
    str " WHERE( " ++ cond ++ str " ) ;"

def selectQuery2 (qd : QueryDescriptor) (a0 a1 : Int × Arg) (e0 e1 target : Int) : Str :=
  let cond := conditionColumn qd.dsc a0.1 ++ eqivDsc e0 ++ toStringS a0.2 ++ str " AND " ++
    conditionColumn qd.dsc a1.1 ++ eqivDsc e1 ++ toStringS a1.2
  str "SELECT " ++ targetText qd.dsc target ++ str " FROM " ++ qd.dsc.getTableName ++
    str " WHERE( " ++ cond ++ str " ) ;"

end NineProject
