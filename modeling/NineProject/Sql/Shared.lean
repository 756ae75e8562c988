import NineProject.Sql.Connection

/-! # Programs that share a connection

One program is followed, among any others on the same connection. Each call is one
step, and any program may make the next one.
-/

namespace Sql

variable {σ ε α : Type}

namespace Program

/-- The next call of a program, if it has not ended. -/
def step (E : Engine σ) : Program ε α → σ → Option (Program ε α × σ)
  | .exec text next, db => some (next (E.exec db text).2, (E.exec db text).1)
  | .lastInsertRowid next, db => some (next (E.lastInsertRowid db), db)
  | .done _, _ | .fail _, _ => none

/-- The statement that is its next call. -/
def nextStatement : Program ε α → Option Str
  | .exec text _ => some text
  | _ => none

/-- The next call asks for the latest insertion. -/
def asksRowid : Program ε α → Bool
  | .lastInsertRowid _ => true
  | _ => false

end Program

structure Shared (σ ε α : Type) where
  db : σ
  mine : Program ε α
  others : List (Program ε Unit)
  /-- The statements `mine` ran, each with the connection it found. -/
  ran : List (σ × Str)

/-- Whose call is next. -/
inductive Turn where
  | mine
  | other (i : Nat)
  deriving DecidableEq, Repr

def Shared.next (E : Engine σ) (s : Shared σ ε α) : Turn → Option (Shared σ ε α)
  | .mine => (s.mine.step E s.db).map fun p =>
      { s with db := p.2,
               mine := p.1,
               ran := s.ran ++ s.mine.nextStatement.toList.map fun text => (s.db, text) }
  | .other i => (s.others[i]?).bind fun q => (q.step E s.db).map fun p =>
      { s with db := p.2, others := s.others.set i p.1 }

end Sql
