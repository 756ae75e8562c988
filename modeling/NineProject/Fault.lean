import NineProject.Base.Bytes

/-! # What can go wrong

Errors of the network come as error codes or, from the calls that take none, as
exceptions. No handler of the source catches what is thrown: its `catch` clauses
name `error_code`, and what is thrown is a `system_error` or a standard
exception, so an exception leaves the handler and its thread. Undefined behaviour
is a stop of its own, named after what was done.
-/

namespace NineProject

/-- The error codes `error_handle` tells apart. -/
inductive Failure where
  | eof
  | connectionReset
  | other
  deriving DecidableEq, Repr

/-- A `boost::system::error_code`: `none` is success. -/
abbrev ErrorCode := Option Failure

inductive Exn where
  | systemError (f : Failure)
  | badArrayNewLength
  | outOfRange
  | lengthError
  | invalidArgument
  | timeNotParsed
  deriving DecidableEq, Repr

/-- What ends a computation on memory: a pointer that was never set, a null pointer, a
    copy of a negative length, a copy past the end of its memory, or an exception. -/
inductive Fault where
  | wildPointer
  | overrun
  | thrown (e : Exn)
  deriving DecidableEq, Repr

theorem bind_eq_ok {α β : Type} {r : Except Fault α} {f : α → Except Fault β} {b : β} :
    (r >>= f) = .ok b ↔ ∃ a, r = .ok a ∧ f a = .ok b := by
  cases r with
  | ok a => simp [bind, Except.bind]
  | error e => simp [bind, Except.bind]

/-- Why a thread goes no further. -/
inductive Stop where
  /-- `front` or `pop` on an empty header queue. -/
  | emptyQueue
  /-- An index outside a fixed array. -/
  | badIndex
  /-- A blocking read that nothing will ever answer. -/
  | blocked
  | fault (f : Fault)
  deriving DecidableEq, Repr

end NineProject
