import NineProject.Fault

/-! # Notifier arrays

The server keeps one map from user names to arrays of ten flags. The arrays live
on the heap and are never freed; a pointer to one is its position in `arrays`.
-/

namespace NineProject

/-- The flags `_new` of a `boost::array<nof, 10>`. -/
abbrev NotificationArr := Vector Bool 10

namespace NotificationArr

def fresh : NotificationArr := Vector.replicate 10 false

def renew (a : NotificationArr) (i : Nat) : NotificationArr := a.setIfInBounds i true

def taskEnd (a : NotificationArr) (i : Nat) : NotificationArr := a.setIfInBounds i false

end NotificationArr

structure NMap where
  /-- `Map`, user to pointer. -/
  map : List (Str × Nat)
  arrays : List NotificationArr
  deriving DecidableEq, Repr

namespace NMap

def empty : NMap := ⟨[], []⟩

/-- `new boost::array<nof, 10>()`. -/
def alloc (m : NMap) : NMap × Nat :=
  ({ m with arrays := m.arrays ++ [NotificationArr.fresh] }, m.arrays.length)

/-- `map::insert`: a user who is there keeps the pointer they have. -/
def insert (m : NMap) (id : Str) (notification : Nat) : NMap :=
  if (m.map.lookup id).isSome then m else { m with map := (id, notification) :: m.map }

def getNotifier (m : NMap) (id : Str) : Option Nat := m.map.lookup id

def at_ (m : NMap) (pointer : Nat) : Option NotificationArr := m.arrays[pointer]?

def modify (m : NMap) (pointer : Nat) (f : NotificationArr → NotificationArr) : NMap :=
  { m with arrays := m.arrays.modify pointer f }

/-- `nmap_notify`. -/
def notify (m : NMap) (userId : Str) (taskNumber : Nat) : NMap :=
  match m.getNotifier userId with
  | some pointer => m.modify pointer fun a => a.renew taskNumber
  | none => m

/-- `nmap_notify_with_list`. -/
def notifyWithList (m : NMap) (a : List Str) (taskNumber : Nat) : NMap :=
  a.foldl (fun m user => m.notify user taskNumber) m

end NMap
end NineProject
