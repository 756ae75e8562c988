import NineProject.Hqery

/-! # What the builders say

Every builder only concatenates: fixed text, names of the descriptor, and its
arguments in their places. Reading the text back therefore gives the intended
tokens as long as each argument reads back as itself, and a string does so
exactly when it holds no double quote, since `to_string_s` doubles none.
-/

namespace NineProject

open Sql Sql.Lexer

namespace Arg

/-- The one token an argument should be, a number with its sign. -/
def token : Arg → Token
  | .string s => .quoted s
  | .int n => .number n

/-- The argument holds no double quote. -/
def Plain : Arg → Prop
  | .string s => 34 ∉ s
  | .int _ => True

instance (a : Arg) : Decidable a.Plain := by
  cases a <;> unfold Plain <;> infer_instance

/-- The argument holds no zero byte, which would end the text for the engine. -/
def NulFree : Arg → Prop
  | .string s => 0 ∉ s
  | .int _ => True

instance (a : Arg) : Decidable a.NulFree := by
  cases a <;> unfold NulFree <;> infer_instance

end Arg

/-! ## Parts of a statement -/

section Parts
variable (rest : Str)

private theorem read_insertInto : lexFrom .gap (str "INSERT INTO " ++ rest) =
    emit [.word (str "INSERT"), .word (str "INTO")] (lexFrom .gap rest) := lexFrom_append rfl rest

private theorem read_open : lexFrom .gap (str " (" ++ rest) =
    emit [.punct (str "(")] (lexFrom .gap rest) := lexFrom_append rfl rest

theorem read_spacedComma : lexFrom .gap (str " , " ++ rest) =
    emit [.punct (str ",")] (lexFrom .gap rest) := lexFrom_append rfl rest

theorem read_comma : lexFrom .gap (str "," ++ rest) =
    emit [.punct (str ",")] (lexFrom .gap rest) := lexFrom_append rfl rest

private theorem read_closeValues : lexFrom .gap (str ") VALUES (" ++ rest) =
    emit [.punct (str ")"), .word (str "VALUES"), .punct (str "(")] (lexFrom .gap rest) :=
  lexFrom_append rfl rest

theorem read_values : lexFrom .gap (str " " ++ (str "VALUES" ++ (str "( " ++ rest))) =
    emit [.word (str "VALUES"), .punct (str "(")] (lexFrom .gap rest) :=
  lexFrom_append (p := str " VALUES( ") rfl rest

private theorem read_select : lexFrom .gap (str "SELECT " ++ rest) =
    emit [.word (str "SELECT")] (lexFrom .gap rest) := lexFrom_append rfl rest

private theorem read_from : lexFrom .gap (str " FROM " ++ rest) =
    emit [.word (str "FROM")] (lexFrom .gap rest) := lexFrom_append rfl rest

private theorem read_where : lexFrom .gap (str " WHERE( " ++ rest) =
    emit [.word (str "WHERE"), .punct (str "(")] (lexFrom .gap rest) := lexFrom_append rfl rest

private theorem read_and : lexFrom .gap (str " AND " ++ rest) =
    emit [.word (str "AND")] (lexFrom .gap rest) := lexFrom_append rfl rest

end Parts

theorem tableName_word (qd : QueryDescriptor) : isWord qd.dsc.getTableName := by
  cases qd <;> decide

theorem columnName_word {qd : QueryDescriptor} {indx : Int} (h : qd.dsc.HasColumn indx) :
    isWord (qd.dsc.getColumnName indx) := by
  have words : ∀ w ∈ qd.dsc.columnTagCont, isWord w := by cases qd <;> decide
  have inside : indx.toNat < qd.dsc.columnTagCont.length := by
    have := h.1
    have := h.2
    omega
  apply words
  simp only [QueryDsc.getColumnName, List.getElem?_eq_getElem inside, Option.getD_some]
  exact List.getElem_mem inside

/-- An argument in its place is read as its one token exactly when it is plain. -/
theorem read_arg_iff {a : Arg} {rest : Str} {ts : List Token} (next : fresh rest) :
    lexFrom .gap (toStringS a ++ rest) = some (a.token :: ts) ↔
      a.Plain ∧ lexFrom .gap rest = some ts := by
  cases a with
  | int n =>
      simp only [toStringS, Arg.token, Arg.Plain, true_and, lexFrom_int n next, emit_cons_eq,
        emit_nil]
  | string s =>
      have quote : toStringS (.string s) ++ rest = str "\"" ++ (s ++ 34 :: rest) := by
        simp only [toStringS, List.append_assoc]
        rfl
      rw [quote, lexFrom_append (t := []) (n := .string 34 []) rfl, emit_nil]
      exact lexFrom_raw_iff (closed_of_fresh next)

/-- An argument starts with a byte that continues no comparison operator. -/
private theorem arg_head (a : Arg) :
    ∃ b rest, toStringS a = b :: rest ∧ (b = 34 ∨ b = 45 ∨ Decimal.isDigit b) := by
  cases a with
  | string s => exact ⟨34, s ++ str "\"", rfl, .inl rfl⟩
  | int n =>
      by_cases negative : n < 0
      · exact ⟨45, Decimal.digits n.natAbs, by simp [toStringS, Decimal.ofInt, negative],
          .inr (.inl rfl)⟩
      · cases run : Decimal.digits n.natAbs with
        | nil => exact absurd run (Decimal.digits_ne_nil _)
        | cons b rest =>
            exact ⟨b, rest, by simp [toStringS, Decimal.ofInt, negative, run],
              .inr (.inr (Decimal.digits_isDigit (run ▸ by simp : b ∈ Decimal.digits n.natAbs)))⟩

/-- A comparison code of `Compare`. -/
def IsCompare (e : Int) : Prop := 0 ≤ e ∧ e ≤ 4

instance (e : Int) : Decidable (IsCompare e) := inferInstanceAs (Decidable (_ ∧ _))

theorem eqivDsc_fresh {e : Int} (h : IsCompare e) (rest : Str) : fresh (eqivDsc e ++ rest) := by
  obtain ⟨low, high⟩ := h
  interval_cases e <;> rfl

theorem read_compare {e : Int} (h : IsCompare e) (a : Arg) (rest : Str) :
    lexFrom .gap (eqivDsc e ++ (toStringS a ++ rest)) =
      emit [.punct (eqivDsc e)] (lexFrom .gap (toStringS a ++ rest)) := by
  obtain ⟨b, tail, head, kind⟩ := arg_head a
  -- an operator of one byte waits for the next byte, which does not make it longer
  have single : ∀ o : Byte, o = 62 ∨ o = 60 →
      lexFrom (.operator o) (toStringS a ++ rest) =
        emit [.punct [o]] (lexFrom .gap (toStringS a ++ rest)) := by
    intro o which
    rw [head, List.cons_append]
    apply lexFrom_before
    have apart : isPair o b = false := by
      simp only [Decimal.isDigit, Bool.and_eq_true, decide_eq_true_eq] at kind
      rcases which with rfl | rfl <;>
        simp [isPair, str] <;> grind
    rcases which with rfl | rfl <;> simp [advance, apart]
  obtain ⟨low, high⟩ := h
  interval_cases e
  · exact (lexFrom_append (p := str ">") (t := []) rfl _).trans
      ((emit_nil _).trans (single 62 (.inl rfl)))
  · exact lexFrom_append (p := str ">=") rfl _
  · exact lexFrom_append (p := str "==") rfl _
  · exact (lexFrom_append (p := str "<") (t := []) rfl _).trans
      ((emit_nil _).trans (single 60 (.inr rfl)))
  · exact lexFrom_append (p := str "<=") rfl _

/-! ## The calls of the builders -/

/-- A call of one of the builders, with its arguments. -/
inductive BuilderCall where
  | insertPair2 (qd : QueryDescriptor) (a0 a1 : Int × Arg)
  | insertPairStr (qd : QueryDescriptor) (a0 a1 : Int × Str)
  | insertPair3 (qd : QueryDescriptor) (a0 a1 a2 : Int × Arg)
  | insertPair4 (qd : QueryDescriptor) (a0 a1 a2 a3 : Int × Arg)
  | insert (qd : QueryDescriptor) (a0 a1 : Arg)
  | select (qd : QueryDescriptor) (a0 : Int × Arg) (e0 target : Int)
  | select2 (qd : QueryDescriptor) (a0 a1 : Int × Arg) (e0 e1 target : Int)
  deriving DecidableEq, Repr

/-- A column of the descriptor or the rowid. -/
def IsCondition (qd : QueryDescriptor) (first : Int) : Prop :=
  first = SelectTarget.rowId ∨ qd.dsc.HasColumn first

def IsTarget (qd : QueryDescriptor) (target : Int) : Prop :=
  target = SelectTarget.all ∨ target = SelectTarget.rowId ∨ qd.dsc.HasColumn target

instance (qd : QueryDescriptor) (first : Int) : Decidable (IsCondition qd first) :=
  inferInstanceAs (Decidable (_ ∨ _))

instance (qd : QueryDescriptor) (target : Int) : Decidable (IsTarget qd target) :=
  inferInstanceAs (Decidable (_ ∨ _ ∨ _))

/-- The comparison a code stands for. -/
def compareOp (e : Int) : Sql.Op :=
  if e = Compare.higher then .gt
  else if e = Compare.equalAndHigher then .ge
  else if e = Compare.equal then .eq
  else if e = Compare.equalAndLower then .lt
  else .le

def Arg.operand : Arg → Operand
  | .string s => .quoted s
  | .int n => .number n

def targetOf (d : QueryDsc) (target : Int) : Target :=
  if target = SelectTarget.all then .all else .column (targetText d target)

namespace BuilderCall

def text : BuilderCall → Str
  | insertPair2 qd a0 a1 => insertQueryWithPair2 qd a0 a1
  | insertPairStr qd a0 a1 => insertQueryWithPairStr qd a0 a1
  | insertPair3 qd a0 a1 a2 => insertQueryWithPair3 qd a0 a1 a2
  | insertPair4 qd a0 a1 a2 a3 => insertQueryWithPair4 qd a0 a1 a2 a3
  | insert qd a0 a1 => insertQuery qd a0 a1
  | select qd a0 e0 target => selectQuery qd a0 e0 target
  | select2 qd a0 a1 e0 e1 target => selectQuery2 qd a0 a1 e0 e1 target

def args : BuilderCall → List Arg
  | insertPair2 _ a0 a1 => [a0.2, a1.2]
  | insertPairStr _ a0 a1 => [.string a0.2, .string a1.2]
  | insertPair3 _ a0 a1 a2 => [a0.2, a1.2, a2.2]
  | insertPair4 _ a0 a1 a2 a3 => [a0.2, a1.2, a2.2, a3.2]
  | insert _ a0 a1 => [a0, a1]
  | select _ a0 _ _ => [a0.2]
  | select2 _ a0 a1 _ _ _ => [a0.2, a1.2]

/-- Every column, comparison and target is one that exists. -/
def InRange : BuilderCall → Prop
  | insertPair2 qd a0 a1 => qd.dsc.HasColumn a0.1 ∧ qd.dsc.HasColumn a1.1
  | insertPairStr qd a0 a1 => qd.dsc.HasColumn a0.1 ∧ qd.dsc.HasColumn a1.1
  | insertPair3 qd a0 a1 a2 =>
      qd.dsc.HasColumn a0.1 ∧ qd.dsc.HasColumn a1.1 ∧ qd.dsc.HasColumn a2.1
  | insertPair4 qd a0 a1 a2 a3 =>
      qd.dsc.HasColumn a0.1 ∧ qd.dsc.HasColumn a1.1 ∧ qd.dsc.HasColumn a2.1 ∧
        qd.dsc.HasColumn a3.1
  | insert _ _ _ => True
  | select qd a0 e0 target => IsCondition qd a0.1 ∧ IsCompare e0 ∧ IsTarget qd target
  | select2 qd a0 a1 e0 e1 target =>
      IsCondition qd a0.1 ∧ IsCondition qd a1.1 ∧ IsCompare e0 ∧ IsCompare e1 ∧ IsTarget qd target

/-- The statement a call is meant to build. -/
def statement : BuilderCall → Statement
  | insertPair2 qd a0 a1 => .insert ⟨qd.dsc.getTableName,
      some [qd.dsc.getColumnName a0.1, qd.dsc.getColumnName a1.1], [a0.2.operand, a1.2.operand]⟩
  | insertPairStr qd a0 a1 => .insert ⟨qd.dsc.getTableName,
      some [qd.dsc.getColumnName a0.1, qd.dsc.getColumnName a1.1],
      [Arg.operand (.string a0.2), Arg.operand (.string a1.2)]⟩
  | insertPair3 qd a0 a1 a2 => .insert ⟨qd.dsc.getTableName,
      some [qd.dsc.getColumnName a0.1, qd.dsc.getColumnName a1.1, qd.dsc.getColumnName a2.1],
      [a0.2.operand, a1.2.operand, a2.2.operand]⟩
  | insertPair4 qd a0 a1 a2 a3 => .insert ⟨qd.dsc.getTableName,
      some [qd.dsc.getColumnName a0.1, qd.dsc.getColumnName a1.1, qd.dsc.getColumnName a2.1,
        qd.dsc.getColumnName a3.1],
      [a0.2.operand, a1.2.operand, a2.2.operand, a3.2.operand]⟩
  | insert qd a0 a1 => .insert ⟨qd.dsc.getTableName, none, [a0.operand, a1.operand]⟩
  | select qd a0 e0 target => .select ⟨targetOf qd.dsc target, qd.dsc.getTableName,
      [⟨conditionColumn qd.dsc a0.1, compareOp e0, a0.2.operand⟩]⟩
  | select2 qd a0 a1 e0 e1 target => .select ⟨targetOf qd.dsc target, qd.dsc.getTableName,
      [⟨conditionColumn qd.dsc a0.1, compareOp e0, a0.2.operand⟩,
        ⟨conditionColumn qd.dsc a1.1, compareOp e1, a1.2.operand⟩]⟩

theorem statement_complete (call : BuilderCall) : call.statement.Complete := by
  cases call <;> simp [statement, Statement.Complete]

end BuilderCall

theorem operand_token (a : Arg) : a.operand.token = a.token := by
  cases a <;> rfl

theorem compareOp_token {e : Int} (h : IsCompare e) : (compareOp e).token = .punct (eqivDsc e) := by
  obtain ⟨low, high⟩ := h
  interval_cases e <;> rfl

theorem conditionColumn_word {qd : QueryDescriptor} {first : Int} (h : IsCondition qd first) :
    isWord (conditionColumn qd.dsc first) := by
  unfold conditionColumn
  split
  · decide
  · next other => exact columnName_word (h.resolve_left other)

theorem read_target {qd : QueryDescriptor} {target : Int} (h : IsTarget qd target) {rest : Str}
    (next : fresh rest) : lexFrom .gap (targetText qd.dsc target ++ rest) =
      emit [(targetOf qd.dsc target).token] (lexFrom .gap rest) := by
  unfold targetOf
  split
  · next all =>
      rw [targetText, if_pos all]
      exact lexFrom_append (p := str "*") rfl rest
  · next named =>
      refine lexFrom_word ?_ next
      unfold targetText
      rw [if_neg named]
      split
      · decide
      · next other => exact columnName_word ((h.resolve_left named).resolve_left other)

/-! ## Texts in pieces -/

/-- A stretch of a statement: fixed text with the tokens it should be, or an argument. -/
inductive Piece where
  | fixed (text : Str) (tokens : List Token)
  | arg (a : Arg)

namespace Piece

def text : Piece → Str
  | fixed text _ => text
  | arg a => toStringS a

def tokens : Piece → List Token
  | fixed _ tokens => tokens
  | arg a => [a.token]

/-- The piece can stand before `rest`: it neither swallows it nor is continued by it. -/
def Before : Piece → Str → Prop
  | fixed text tokens, rest => lexFrom .gap (text ++ rest) = emit tokens (lexFrom .gap rest)
  | arg _, rest => fresh rest

def texts (ps : List Piece) : Str := ps.flatMap text

def Spelled : List Piece → Prop
  | [] => True
  | p :: rest => p.Before (texts rest) ∧ Spelled rest

theorem emit_append_eq {ts us : List Token} {rest : Option (List Token)} :
    emit ts rest = some (ts ++ us) ↔ rest = some us := by
  cases rest <;> simp [emit]

/-- The pieces read back as themselves exactly when every argument is plain. -/
theorem lex_texts_iff {ps : List Piece} (spelled : Spelled ps) :
    lex (texts ps) = some (ps.flatMap tokens) ↔ ∀ a, arg a ∈ ps → a.Plain := by
  induction ps with
  | nil => simp [texts, lex, lexFrom, finish]
  | cons p rest ih =>
      have tail := ih spelled.2
      cases p with
      | fixed s ts =>
          have here : lexFrom .gap (s ++ texts rest) = emit ts (lexFrom .gap (texts rest)) :=
            spelled.1
          show lexFrom .gap (s ++ texts rest) = some (ts ++ rest.flatMap tokens) ↔ _
          rw [here, emit_append_eq]
          simpa [lex] using tail
      | arg a =>
          show lexFrom .gap (toStringS a ++ texts rest) = some (a.token :: rest.flatMap tokens) ↔ _
          rw [read_arg_iff spelled.1]
          simp only [lex] at tail
          rw [tail]
          simp only [List.mem_cons]
          constructor
          · rintro ⟨plain, others⟩ b (same | member)
            · cases same
              exact plain
            · exact others b member
          · exact fun all => ⟨all a (.inl rfl), fun b member => all b (.inr member)⟩

end Piece

namespace BuilderCall

open Piece

def word (w : Str) : Piece := .fixed w [.word w]
def spacedComma : Piece := .fixed (str " , ") [.punct (str ",")]
def comma : Piece := .fixed (str ",") [.punct (str ",")]

def insertHead (qd : QueryDescriptor) : List Piece :=
  [.fixed (str "INSERT INTO ") [.word (str "INSERT"), .word (str "INTO")], word qd.dsc.getTableName]

private def columnsOpen : Piece := .fixed (str " (") [.punct (str "(")]

private def columnsClose : Piece :=
  .fixed (str ") VALUES (") [.punct (str ")"), .word (str "VALUES"), .punct (str "(")]

def valuesClose : Piece := .fixed (str ");") closing

private def selectHead (qd : QueryDescriptor) (target : Int) : List Piece :=
  [.fixed (str "SELECT ") [.word (str "SELECT")],
    .fixed (targetText qd.dsc target) [(targetOf qd.dsc target).token],
    .fixed (str " FROM ") [.word (str "FROM")], word qd.dsc.getTableName,
    .fixed (str " WHERE( ") [.word (str "WHERE"), .punct (str "(")]]

private def condition (qd : QueryDescriptor) (a : Int × Arg) (e : Int) : List Piece :=
  [word (conditionColumn qd.dsc a.1), .fixed (eqivDsc e) [.punct (eqivDsc e)], .arg a.2]

private def conditionsClose : Piece := .fixed (str " ) ;") closing

def pieces : BuilderCall → List Piece
  | insertPair2 qd a0 a1 => insertHead qd ++
      [columnsOpen, word (qd.dsc.getColumnName a0.1), spacedComma,
        word (qd.dsc.getColumnName a1.1), columnsClose,
        .arg a0.2, spacedComma, .arg a1.2, valuesClose]
  | insertPairStr qd a0 a1 => insertHead qd ++
      [columnsOpen, word (qd.dsc.getColumnName a0.1), spacedComma,
        word (qd.dsc.getColumnName a1.1), columnsClose,
        .arg (.string a0.2), spacedComma, .arg (.string a1.2), valuesClose]
  | insertPair3 qd a0 a1 a2 => insertHead qd ++
      [columnsOpen, word (qd.dsc.getColumnName a0.1), spacedComma,
        word (qd.dsc.getColumnName a1.1), comma, word (qd.dsc.getColumnName a2.1), columnsClose,
        .arg a0.2, spacedComma, .arg a1.2, comma, .arg a2.2, valuesClose]
  | insertPair4 qd a0 a1 a2 a3 => insertHead qd ++
      [columnsOpen, word (qd.dsc.getColumnName a0.1), spacedComma,
        word (qd.dsc.getColumnName a1.1), comma, word (qd.dsc.getColumnName a2.1), comma,
        word (qd.dsc.getColumnName a3.1), columnsClose,
        .arg a0.2, spacedComma, .arg a1.2, comma, .arg a2.2, comma, .arg a3.2, valuesClose]
  | insert qd a0 a1 => insertHead qd ++
      [.fixed (str " VALUES( ") [.word (str "VALUES"), .punct (str "(")],
        .arg a0, comma, .arg a1, valuesClose]
  | select qd a0 e0 target => selectHead qd target ++ condition qd a0 e0 ++ [conditionsClose]
  | select2 qd a0 a1 e0 e1 target => selectHead qd target ++ condition qd a0 e0 ++
      [.fixed (str " AND ") [.word (str "AND")]] ++ condition qd a1 e1 ++ [conditionsClose]

theorem text_pieces (call : BuilderCall) : call.text = texts call.pieces := by
  cases call with
  | insert qd a0 a1 =>
      simp [text, insertQuery, pieces, texts, insertHead, word, comma, valuesClose, Piece.text]
      rfl
  | insertPair2 qd a0 a1 | insertPairStr qd a0 a1 =>
      simp [text, insertQueryWithPair2, insertQueryWithPairStr, pieces, texts, insertHead, word,
        spacedComma, columnsOpen, columnsClose, valuesClose, Piece.text]
  | insertPair3 qd a0 a1 a2 =>
      unfold text insertQueryWithPair3
      simp [pieces, texts, insertHead, word, spacedComma, comma, columnsOpen, columnsClose,
        valuesClose, Piece.text]
  | insertPair4 qd a0 a1 a2 a3 =>
      unfold text insertQueryWithPair4
      simp [pieces, texts, insertHead, word, spacedComma, comma, columnsOpen, columnsClose,
        valuesClose, Piece.text]
  | select qd a0 e0 target | select2 qd a0 a1 e0 e1 target =>
      simp [text, selectQuery, selectQuery2, pieces, texts, selectHead, condition, word,
        conditionsClose, Piece.text]

theorem tokens_pieces {call : BuilderCall} (inRange : call.InRange) :
    call.statement.tokens = call.pieces.flatMap Piece.tokens := by
  cases call with
  | select qd a0 e0 target =>
      simp [statement, Statement.tokens, Select.tokens, condsTokens, Cond.tokens, pieces,
        selectHead, condition, word, conditionsClose, Piece.tokens, operand_token,
        compareOp_token inRange.2.1]
  | select2 qd a0 a1 e0 e1 target =>
      simp [statement, Statement.tokens, Select.tokens, condsTokens, Cond.tokens, pieces,
        selectHead, condition, word, conditionsClose, Piece.tokens, operand_token,
        compareOp_token inRange.2.2.1, compareOp_token inRange.2.2.2.1]
  | insert qd a0 a1 | insertPair2 qd a0 a1 | insertPairStr qd a0 a1 | insertPair3 qd a0 a1 a2
  | insertPair4 qd a0 a1 a2 a3 =>
      simp [statement, Statement.tokens, Insert.tokens, commaTokens, pieces, insertHead, word,
        spacedComma, comma, columnsOpen, columnsClose, valuesClose, Piece.tokens, operand_token]

private theorem word_before {w : Str} (h : isWord w) {rest : Str} (next : fresh rest) :
    (word w).Before rest := lexFrom_word h next

theorem insertHead_spelled (qd : QueryDescriptor) {rest : List Piece}
    (next : fresh (texts rest)) (spelled : Spelled rest) : Spelled (insertHead qd ++ rest) :=
  ⟨read_insertInto _, word_before (tableName_word qd) next, spelled⟩

private theorem selectHead_spelled {qd : QueryDescriptor} {target : Int} (h : IsTarget qd target)
    {rest : List Piece} (spelled : Spelled rest) : Spelled (selectHead qd target ++ rest) :=
  ⟨read_select _, read_target h rfl, read_from _, word_before (tableName_word qd) rfl,
    read_where _, spelled⟩

private theorem condition_spelled {qd : QueryDescriptor} {a : Int × Arg} {e : Int}
    (column : IsCondition qd a.1) (compare : IsCompare e) {rest : List Piece}
    (next : fresh (texts rest)) (spelled : Spelled rest) :
    Spelled (condition qd a e ++ rest) :=
  ⟨word_before (conditionColumn_word column) (eqivDsc_fresh compare _),
    read_compare compare a.2 _, next, spelled⟩

theorem pieces_spelled {call : BuilderCall} (inRange : call.InRange) : Spelled call.pieces := by
  cases call with
  | insertPair2 qd a0 a1 | insertPairStr qd a0 a1 =>
      obtain ⟨h0, h1⟩ := inRange
      exact insertHead_spelled qd rfl ⟨read_open _, word_before (columnName_word h0) rfl,
        read_spacedComma _, word_before (columnName_word h1) rfl, read_closeValues _,
        rfl, read_spacedComma _, rfl, rfl, trivial⟩
  | insertPair3 qd a0 a1 a2 =>
      obtain ⟨h0, h1, h2⟩ := inRange
      exact insertHead_spelled qd rfl ⟨read_open _, word_before (columnName_word h0) rfl,
        read_spacedComma _, word_before (columnName_word h1) rfl, read_comma _,
        word_before (columnName_word h2) rfl, read_closeValues _,
        rfl, read_spacedComma _, rfl, read_comma _, rfl, rfl, trivial⟩
  | insertPair4 qd a0 a1 a2 a3 =>
      obtain ⟨h0, h1, h2, h3⟩ := inRange
      exact insertHead_spelled qd rfl ⟨read_open _, word_before (columnName_word h0) rfl,
        read_spacedComma _, word_before (columnName_word h1) rfl, read_comma _,
        word_before (columnName_word h2) rfl, read_comma _, word_before (columnName_word h3) rfl,
        read_closeValues _, rfl, read_spacedComma _, rfl, read_comma _, rfl, read_comma _, rfl,
        rfl, trivial⟩
  | insert qd a0 a1 =>
      exact insertHead_spelled qd rfl ⟨read_values _, rfl, read_comma _, rfl, rfl, trivial⟩
  | select qd a0 e0 target =>
      obtain ⟨column, compare, asked⟩ := inRange
      have spelled : Spelled (condition qd a0 e0 ++ [conditionsClose]) :=
        condition_spelled column compare rfl ⟨rfl, trivial⟩
      simpa [pieces] using selectHead_spelled asked spelled
  | select2 qd a0 a1 e0 e1 target =>
      obtain ⟨column0, column1, compare0, compare1, asked⟩ := inRange
      have second : Spelled (condition qd a1 e1 ++ [conditionsClose]) :=
        condition_spelled column1 compare1 rfl ⟨rfl, trivial⟩
      have spelled : Spelled (condition qd a0 e0 ++ (.fixed (str " AND ") [.word (str "AND")] ::
          (condition qd a1 e1 ++ [conditionsClose]))) :=
        condition_spelled column0 compare0 rfl ⟨read_and _, second⟩
      simpa [pieces] using selectHead_spelled asked spelled

theorem args_pieces (call : BuilderCall) (a : Arg) : .arg a ∈ call.pieces ↔ a ∈ call.args := by
  cases call <;>
    simp [pieces, args, insertHead, selectHead, condition, word, spacedComma, comma, columnsOpen,
      columnsClose, valuesClose, conditionsClose]

theorem word_nulFree {w : Str} (h : isWord w) : 0 ∉ w := by
  cases w with
  | nil => simp
  | cons b rest =>
      simp only [isWord, Bool.and_eq_true, List.all_eq_true] at h
      simp only [List.mem_cons, not_or]
      refine ⟨fun zero => ?_, fun zero => ?_⟩
      · rw [← zero] at h
        exact absurd h.1 (by decide)
      · exact absurd (h.2 0 zero) (by decide)

theorem toStringS_nulFree {a : Arg} (h : a.NulFree) : 0 ∉ toStringS a := by
  cases a with
  | string s =>
      simp only [Arg.NulFree] at h
      simp [toStringS, h, str]
  | int n => exact Decimal.ofInt_nulFree n

private theorem target_nulFree {qd : QueryDescriptor} {target : Int} (h : IsTarget qd target) :
    0 ∉ targetText qd.dsc target := by
  unfold targetText
  split
  · decide
  · next named =>
      split
      · decide
      · next other =>
          exact word_nulFree (columnName_word ((h.resolve_left named).resolve_left other))

private theorem eqivDsc_nulFree {e : Int} (h : IsCompare e) : 0 ∉ eqivDsc e := by
  obtain ⟨low, high⟩ := h
  interval_cases e <;> decide

/-- Nothing but an argument can put a zero byte into the text. -/
theorem text_nulFree {call : BuilderCall} (inRange : call.InRange)
    (nulFree : ∀ a ∈ call.args, a.NulFree) : 0 ∉ call.text := by
  have table : ∀ qd, 0 ∉ QueryDsc.getTableName (QueryDescriptor.dsc qd) :=
    fun qd => word_nulFree (tableName_word qd)
  cases call with
  | insert qd a0 a1 =>
      simp only [args, List.forall_mem_cons] at nulFree
      obtain ⟨n0, n1, -⟩ := nulFree
      simp [text, insertQuery, table, toStringS_nulFree n0, toStringS_nulFree n1, str]
  | insertPair2 qd a0 a1 | insertPairStr qd a0 a1 =>
      simp only [args, List.forall_mem_cons] at nulFree
      obtain ⟨n0, n1, -⟩ := nulFree
      simp [text, insertQueryWithPair2, insertQueryWithPairStr, table, toStringS_nulFree n0,
        toStringS_nulFree n1, word_nulFree (columnName_word inRange.1),
        word_nulFree (columnName_word inRange.2), str]
  | insertPair3 qd a0 a1 a2 =>
      simp only [args, List.forall_mem_cons] at nulFree
      obtain ⟨n0, n1, n2, -⟩ := nulFree
      obtain ⟨h0, h1, h2⟩ := inRange
      unfold text insertQueryWithPair3
      simp [table, toStringS_nulFree n0, toStringS_nulFree n1, toStringS_nulFree n2,
        word_nulFree (columnName_word h0), word_nulFree (columnName_word h1),
        word_nulFree (columnName_word h2), str]
  | insertPair4 qd a0 a1 a2 a3 =>
      simp only [args, List.forall_mem_cons] at nulFree
      obtain ⟨n0, n1, n2, n3, -⟩ := nulFree
      obtain ⟨h0, h1, h2, h3⟩ := inRange
      unfold text insertQueryWithPair4
      simp [table, toStringS_nulFree n0, toStringS_nulFree n1, toStringS_nulFree n2,
        toStringS_nulFree n3, word_nulFree (columnName_word h0), word_nulFree (columnName_word h1), word_nulFree (columnName_word h2),
        word_nulFree (columnName_word h3), str]
  | select qd a0 e0 target =>
      simp only [args, List.forall_mem_cons] at nulFree
      obtain ⟨column, compare, asked⟩ := inRange
      simp [text, selectQuery, table, toStringS_nulFree nulFree.1, target_nulFree asked,
        word_nulFree (conditionColumn_word column), eqivDsc_nulFree compare, str]
  | select2 qd a0 a1 e0 e1 target =>
      simp only [args, List.forall_mem_cons] at nulFree
      obtain ⟨n0, n1, -⟩ := nulFree
      obtain ⟨column0, column1, compare0, compare1, asked⟩ := inRange
      simp [text, selectQuery2, table, toStringS_nulFree n0, toStringS_nulFree n1,
        target_nulFree asked, word_nulFree (conditionColumn_word column0),
        word_nulFree (conditionColumn_word column1), eqivDsc_nulFree compare0,
        eqivDsc_nulFree compare1, str]

/-- The text of a call has the tokens of the statement meant exactly when no string
    argument holds a double quote. -/
theorem lex_text_iff {call : BuilderCall} (inRange : call.InRange) :
    lex call.text = some call.statement.tokens ↔ ∀ a ∈ call.args, a.Plain := by
  rw [text_pieces, tokens_pieces inRange, lex_texts_iff (pieces_spelled inRange)]
  simp only [args_pieces]

/-- A call with plain arguments says the statement meant. -/
theorem readStatement_text {call : BuilderCall} (inRange : call.InRange)
    (nulFree : ∀ a ∈ call.args, a.NulFree) (plain : ∀ a ∈ call.args, a.Plain) :
    readStatement call.text = some call.statement := by
  rw [readStatement, Bytes.cString_fixed (text_nulFree inRange nulFree),
    (lex_text_iff inRange).mpr plain]
  exact parse_tokens (statement_complete call)

/-- What the engine reads in the text of a call is the statement meant, each argument
    one token in its place (a number with its sign), exactly when no string argument holds a double quote. -/
theorem arguments_faithful_iff {call : BuilderCall} (inRange : call.InRange)
    (nulFree : ∀ a ∈ call.args, a.NulFree) :
    lex (Bytes.cString call.text) = some call.statement.tokens ↔ ∀ a ∈ call.args, a.Plain := by
  rw [Bytes.cString_fixed (text_nulFree inRange nulFree)]
  exact lex_text_iff inRange

/-- A message of one text. -/
def messageCall (message : Str) : BuilderCall :=
  .insertPair4 .message (0, .int 3) (1, .int 7) (2, .string message) (4, .int 0)

theorem arguments_faithful_greeting :
    lex (Bytes.cString (messageCall (str "hi")).text) =
        some (messageCall (str "hi")).statement.tokens ↔
      ∀ a ∈ (messageCall (str "hi")).args, a.Plain :=
  arguments_faithful_iff ⟨by decide, by decide, by decide, by decide⟩ (by decide)

/-- A message with a double quote closes its own string and goes on as a second row. -/
theorem argument_read_as_syntax :
    ¬ ∀ call : BuilderCall, call.InRange → (∀ a ∈ call.args, a.NulFree) →
      lex (Bytes.cString call.text) = some call.statement.tokens := by
  intro faithful
  have said := faithful (messageCall (str "x\",0),(4,7,\"y"))
    ⟨by decide, by decide, by decide, by decide⟩ (by decide)
  exact absurd said (by decide +kernel)

end BuilderCall

end NineProject
