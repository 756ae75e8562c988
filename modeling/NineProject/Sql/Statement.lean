import NineProject.Sql.Lexer

/-! # The statements understood

One `SELECT` over one table with a conjunction of comparisons in parentheses, and
one `INSERT` of one row with or without a column list. A text that is more than
one statement, or any other statement, is not given a meaning here.
-/

namespace Sql

inductive Op where
  | lt
  | le
  | eq
  | ge
  | gt
  deriving DecidableEq, Repr

/-- An argument in the statement: what it denotes is settled where it stands. -/
inductive Operand where
  | quoted (v : Str)
  | number (n : Int)
  deriving DecidableEq, Repr

structure Cond where
  column : Str
  op : Op
  operand : Operand
  deriving DecidableEq, Repr

inductive Target where
  | all
  | column (name : Str)
  deriving DecidableEq, Repr

structure Select where
  target : Target
  table : Str
  conds : List Cond
  deriving DecidableEq, Repr

structure Insert where
  table : Str
  columns : Option (List Str)
  values : List Operand
  deriving DecidableEq, Repr

inductive Statement where
  | select (s : Select)
  | insert (i : Insert)
  deriving DecidableEq, Repr

namespace Parser

def opOf (p : Str) : Option Op :=
  if p = str "<" then some .lt
  else if p = str "<=" then some .le
  else if p = str "==" ∨ p = str "=" then some .eq
  else if p = str ">=" then some .ge
  else if p = str ">" then some .gt
  else none

def operandOf : Token → Option Operand
  | .quoted v => some (.quoted v)
  | .number n => some (.number n)
  | _ => none

def condOf (column op : Str) (value : Token) : Option Cond := do
  pure ⟨column, ← opOf op, ← operandOf value⟩

/-- The conjunction behind `WHERE (`, up to the end of the statement. -/
def conds : List Token → Option (List Cond)
  | [.word c, .punct o, v, .punct close, .punct semi] => do
      guard (close = str ")" ∧ semi = str ";")
      pure [← condOf c o v]
  | .word c :: .punct o :: v :: .word a :: rest => do
      guard (a = str "AND")
      pure ((← condOf c o v) :: (← conds rest))
  | _ => none

def targetOf : Token → Option Target
  | .word c => some (.column c)
  | .punct p => if p = str "*" then some .all else none
  | _ => none

def select : List Token → Option Select
  | .word s :: t :: .word f :: .word table :: .word w :: .punct opening :: rest => do
      guard (s = str "SELECT" ∧ f = str "FROM" ∧ w = str "WHERE" ∧ opening = str "(")
      pure ⟨← targetOf t, table, ← conds rest⟩
  | _ => none

/-- The values behind `VALUES (`, up to the end of the statement. -/
def values : List Token → Option (List Operand)
  | [v, .punct close, .punct semi] => do
      guard (close = str ")" ∧ semi = str ";")
      pure [← operandOf v]
  | v :: .punct comma :: rest => do
      guard (comma = str ",")
      pure ((← operandOf v) :: (← values rest))
  | _ => none

/-- The names behind an opening parenthesis, and what follows the closing one. -/
def names : List Token → Option (List Str × List Token)
  | .word c :: .punct p :: rest =>
      if p = str ")" then some ([c], rest)
      else if p = str "," then (names rest).map fun r => (c :: r.1, r.2)
      else none
  | _ => none

def valuesClause : List Token → Option (List Operand)
  | .word v :: .punct opening :: rest => do
      guard (v = str "VALUES" ∧ opening = str "(")
      values rest
  | _ => none

def insert : List Token → Option Insert
  | .word i :: .word into :: .word table :: .punct opening :: rest => do
      guard (i = str "INSERT" ∧ into = str "INTO" ∧ opening = str "(")
      let (columns, rest) ← names rest
      pure ⟨table, some columns, ← valuesClause rest⟩
  | .word i :: .word into :: .word table :: rest => do
      guard (i = str "INSERT" ∧ into = str "INTO")
      pure ⟨table, none, ← valuesClause rest⟩
  | _ => none

end Parser

def parse (tokens : List Token) : Option Statement :=
  (Parser.select tokens).map .select <|> (Parser.insert tokens).map .insert

/-- What a C string says as a statement. -/
def readStatement (text : Str) : Option Statement := (lex (Bytes.cString text)).bind parse

/-! ## Writing a statement as tokens -/

def Op.token : Op → Token
  | .lt => .punct (str "<")
  | .le => .punct (str "<=")
  | .eq => .punct (str "==")
  | .ge => .punct (str ">=")
  | .gt => .punct (str ">")

def Operand.token : Operand → Token
  | .quoted v => .quoted v
  | .number n => .number n

def Target.token : Target → Token
  | .all => .punct (str "*")
  | .column name => .word name

def Cond.tokens (c : Cond) : List Token := [.word c.column, c.op.token, c.operand.token]

def condsTokens : List Cond → List Token
  | [] => []
  | [c] => c.tokens
  | c :: rest => c.tokens ++ .word (str "AND") :: condsTokens rest

def commaTokens : List Token → List Token
  | [] => []
  | [t] => [t]
  | t :: rest => t :: .punct (str ",") :: commaTokens rest

/-- The end of every statement: its parenthesis and the semicolon. -/
def closing : List Token := [.punct (str ")"), .punct (str ";")]

def Select.tokens (s : Select) : List Token :=
  [.word (str "SELECT"), s.target.token, .word (str "FROM"), .word s.table, .word (str "WHERE"),
    .punct (str "(")] ++ condsTokens s.conds ++ closing

def Insert.tokens (i : Insert) : List Token :=
  [.word (str "INSERT"), .word (str "INTO"), .word i.table] ++
    (match i.columns with
      | none => []
      | some names => .punct (str "(") :: commaTokens (names.map .word) ++ [.punct (str ")")]) ++
    [.word (str "VALUES"), .punct (str "(")] ++ commaTokens (i.values.map Operand.token) ++ closing

def Statement.tokens : Statement → List Token
  | .select s => s.tokens
  | .insert i => i.tokens

/-- The statement says something in every place where the grammar wants it. -/
def Statement.Complete : Statement → Prop
  | .select s => s.conds ≠ []
  | .insert i => i.values ≠ [] ∧ i.columns ≠ some []

namespace Parser

theorem opOf_token (o : Op) : ∃ p, o.token = .punct p ∧ opOf p = some o := by
  cases o <;> exact ⟨_, rfl, by decide⟩

theorem operandOf_token (v : Operand) : operandOf v.token = some v := by
  cases v <;> rfl

theorem targetOf_token (t : Target) : targetOf t.token = some t := by
  cases t with
  | all => rfl
  | column name => rfl

theorem conds_tokens {cs : List Cond} (some_cond : cs ≠ []) :
    conds (condsTokens cs ++ closing) = some cs := by
  induction cs with
  | nil => exact absurd rfl some_cond
  | cons c rest ih =>
      obtain ⟨p, written, read⟩ := opOf_token c.op
      have parsed : condOf c.column p c.operand.token = some c := by
        simp only [condOf, read, operandOf_token]
        rfl
      cases rest with
      | nil =>
          simp only [condsTokens, Cond.tokens, written, closing, List.cons_append, List.nil_append,
            conds, parsed]
          rfl
      | cons d rest =>
          have tail := ih (by simp)
          simp only [condsTokens, Cond.tokens, written, List.cons_append, List.nil_append, conds,
            parsed, tail]
          rfl

theorem select_other {w : Str} (h : w ≠ str "SELECT") (rest : List Token) :
    select (.word w :: rest) = none := by
  unfold select
  split
  · next given =>
      cases given
      simp [h, guard]
  · rfl

theorem values_tokens {vs : List Operand} (some_value : vs ≠ []) :
    values (commaTokens (vs.map Operand.token) ++ closing) = some vs := by
  induction vs with
  | nil => exact absurd rfl some_value
  | cons v rest ih =>
      cases rest with
      | nil =>
          simp only [List.map_cons, List.map_nil, commaTokens, closing, List.cons_append,
            List.nil_append, values, operandOf_token]
          rfl
      | cons w rest =>
          have tail := ih (by simp)
          simp only [List.map_cons, commaTokens, List.cons_append] at tail ⊢
          rw [values]
          · simp only [tail, operandOf_token]
            rfl
          · intro close h
            cases rest <;> simp [commaTokens, closing] at h

theorem names_tokens {ns : List Str} (some_name : ns ≠ []) (rest : List Token) :
    names (commaTokens (ns.map .word) ++ .punct (str ")") :: rest) = some (ns, rest) := by
  induction ns with
  | nil => exact absurd rfl some_name
  | cons n tail ih =>
      cases tail with
      | nil => simp [commaTokens, names]
      | cons m tail =>
          have apart : str "," ≠ str ")" := by decide
          have read := ih (by simp)
          simp only [List.map_cons, commaTokens, List.cons_append] at read ⊢
          simp [names, apart, read]

end Parser

/-- Reading undoes writing. -/
theorem parse_tokens {s : Statement} (complete : s.Complete) : parse s.tokens = some s := by
  cases s with
  | select s =>
      have read : Parser.select s.tokens = some s := by
        simp only [Select.tokens, List.cons_append, List.nil_append,
          Parser.select, Parser.targetOf_token, Parser.conds_tokens complete]
        rfl
      simp [parse, Statement.tokens, read]
  | insert i =>
      have other : Parser.select i.tokens = none := by
        simp only [Insert.tokens, List.cons_append, List.nil_append, List.append_assoc]
        exact Parser.select_other (by decide) _
      have clause : Parser.valuesClause (.word (str "VALUES") :: .punct (str "(") ::
          (commaTokens (i.values.map Operand.token) ++ closing)) = some i.values := by
        simp only [Parser.valuesClause, Parser.values_tokens complete.1]
        rfl
      have read : Parser.insert i.tokens = some i := by
        cases i with
        | mk table columns vals =>
            cases columns with
            | none =>
                simp only [Insert.tokens, List.cons_append, List.nil_append,
                  List.append_nil, Parser.insert, clause]
                rfl
            | some ns =>
                have given : ns ≠ [] := fun h => complete.2 (by rw [h])
                simp only [Insert.tokens, List.cons_append, List.nil_append, List.append_assoc,
                  Parser.insert, Parser.names_tokens given]
                simp [clause, guard]
      simp [parse, Statement.tokens, other, read]

end Sql
