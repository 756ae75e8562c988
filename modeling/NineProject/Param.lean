import NineProject.Fault

/-! # Parameter blocks

`Param` carves slots out of one block and finds them again by name. Pointers into
the block are offsets from its start; a slot that no call has set is `none`. The
numbers of a new object are taken to be 0, which the source leaves open.
-/

namespace NineProject

open Bytes

inductive DefaultType where
  | char
  | string
  | int
  | double
  | charPointer
  deriving DecidableEq, Repr

/-- `A::sizeMap`. -/
def DefaultType.size : DefaultType → Nat
  | .char => 1
  | .string => 100
  | .int => 4
  | .double => 8
  | .charPointer => 8

structure Param where
  /-- The bytes behind `P`. -/
  block : List Byte
  fAllocated : Nat
  allocated : Int
  /-- `allocMap`, five sizes. -/
  allocMap : List (Option Nat)
  pNum : Nat
  /-- `p_args`, ten pointers. -/
  pArgs : List (Option Int)
  /-- `aMap`; a name keeps the pointer it was first given. -/
  aMap : List (Str × Option Int)
  deriving DecidableEq, Repr

namespace Param

/-- An object none of whose slots is set. That `allocated` is 0 is assumed: nothing in the
    source sets it before it is added to. -/
def empty : Param := ⟨[], 0, 0, List.replicate 5 none, 0, List.replicate 10 none, []⟩

def getAllSize (arr : List DefaultType) : Nat := (arr.map DefaultType.size).sum

def allocateBloc (p : Param) (a : Nat) : Param :=
  { p with fAllocated := a, block := List.replicate a 0, pArgs := p.pArgs.set 0 (some 0) }

def allocateAt (p : Param) (idx : Nat) (t : DefaultType) : Param :=
  { p with allocMap := p.allocMap.set idx (some t.size),
           pArgs := p.pArgs.set idx (some p.allocated),
           allocated := p.allocated + t.size }

def allocateAll (p : Param) (idx : Nat) : List DefaultType → Param
  | [] => p
  | t :: rest => (p.allocateAt idx t).allocateAll (idx + 1) rest

def set (p : Param) (tar : List DefaultType) : Param :=
  ({ p with fAllocated := getAllSize tar, pNum := tar.length }.allocateBloc (getAllSize tar)).allocateAll 0 tar

/-- The constructor from a list of types. -/
def ofTypes (tar : List DefaultType) : Param := empty.set tar

/-- `set_args`: `map::insert` changes nothing where the name is there. -/
def setArgs (p : Param) (idx : Nat) (s : Str) : Param :=
  if (p.aMap.lookup s).isSome then p
  else { p with aMap := (s, (p.pArgs[idx]?).join) :: p.aMap }

/-- The pointer kept under a name. -/
def pointer (p : Param) (s : Str) : Except Fault Int :=
  match (p.aMap.lookup s).join with
  | some at_ => .ok at_
  | none => .error .wildPointer

/-- `set_value<int>`: four bytes at the pointer. -/
def setValue (p : Param) (name : Str) (v : Int) : Except Fault Param :=
  (p.pointer name).map fun at_ => { p with block := poke p.block at_ (ofInt 4 v) }

/-- `get_value<int>`: the one `char` at the pointer, widened. -/
def getValue (p : Param) (s : Str) : Except Fault Int :=
  (p.pointer s).map fun at_ => field (p.block.drop at_.toNat) 0 1

end Param
end NineProject
