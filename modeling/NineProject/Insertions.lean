import NineProject.Query
import NineProject.SqlText

/-! # Insertions without a column list

`create_table` and `insert_participation` extend the text of an insertion by one
value behind the last. The text of any number of values reads back as those values,
as long as each is plain.
-/

namespace NineProject

open Bytes Sql Sql.Lexer BuilderCall

/-! ## Extended texts -/

theorem findLastOf_append {c : Byte} {s rest : Str} (last : c ∉ rest) :
    findLastOf c (s ++ c :: rest) = some s.length := by
  have behind : (s ++ c :: rest).reverse.takeWhile (· ≠ c) = rest.reverse := by
    have others : ∀ b ∈ rest.reverse, decide (b ≠ c) = true := fun b member =>
      decide_eq_true fun same => last (same ▸ List.mem_reverse.mp member)
    rw [List.reverse_append, List.reverse_cons, List.append_assoc, List.singleton_append,
      List.takeWhile_append_of_pos others]
    simp
  simp only [findLastOf, behind, List.length_append, List.length_cons, List.length_reverse]
  rw [if_pos (by omega)]
  congr 1
  omega

def insertPieces (qd : QueryDescriptor) (a0 a1 : Arg) (more : List Arg) : List Piece :=
  insertHead qd ++ [.fixed (str " VALUES( ") [.word (str "VALUES"), .punct (str "(")],
    .arg a0, comma, .arg a1] ++ more.flatMap fun a => [spacedComma, .arg a]

/-- The insertion of two values and more, each behind the one before. -/
def insertText (qd : QueryDescriptor) (a0 a1 : Arg) (more : List Arg) : Str :=
  Piece.texts (insertPieces qd a0 a1 more ++ [valuesClose])

theorem insertText_nil (qd : QueryDescriptor) (a0 a1 : Arg) : insertText qd a0 a1 [] = insertQuery qd a0 a1 := by
  have pieces : insertPieces qd a0 a1 [] ++ [valuesClose] = (BuilderCall.insert qd a0 a1).pieces := by
    simp [insertPieces, BuilderCall.pieces]
  rw [insertText, pieces, ← text_pieces]
  rfl

theorem addCondition_insertText (qd : QueryDescriptor) (a0 a1 a : Arg) (more : List Arg) :
    addConditionToInsertQuery (insertText qd a0 a1 more) a = some (insertText qd a0 a1 (more ++ [a])) := by
  have split : insertText qd a0 a1 more = Piece.texts (insertPieces qd a0 a1 more) ++ 41 :: str ";" := by
    simp only [insertText, Piece.texts, List.flatMap_append]
    rfl
  have close : findLastOf 41 (insertText qd a0 a1 more) =
      some (Piece.texts (insertPieces qd a0 a1 more)).length := by
    rw [split]
    exact findLastOf_append (by decide)
  have longer : insertPieces qd a0 a1 (more ++ [a]) = insertPieces qd a0 a1 more ++ [spacedComma, .arg a] := by
    simp [insertPieces]
  rw [addConditionToInsertQuery, close, Option.map_some, split, List.take_left, List.drop_left]
  congr 1
  simp only [insertText, longer, Piece.texts, List.flatMap_append]
  simp [spacedComma, valuesClose, Piece.text, str]

/-! ## Reading them back -/

/-- The statement that inserts these values. -/
def insertion (qd : QueryDescriptor) (a0 a1 : Arg) (more : List Arg) : Insert :=
  ⟨qd.dsc.getTableName, none, (a0 :: a1 :: more).map Arg.operand⟩

theorem commaTokens_cons (t : Token) (ts : List Token) :
    commaTokens (t :: ts) = t :: ts.flatMap fun u => [.punct (str ","), u] := by
  induction ts generalizing t with
  | nil => rfl
  | cons u rest ih => simp [commaTokens, ih]

theorem insertion_tokens (qd : QueryDescriptor) (a0 a1 : Arg) (more : List Arg) :
    (Statement.insert (insertion qd a0 a1 more)).tokens =
      (insertPieces qd a0 a1 more ++ [valuesClose]).flatMap Piece.tokens := by
  simp only [Statement.tokens, Insert.tokens, insertion, List.map_cons, commaTokens_cons]
  simp [insertPieces, insertHead, word, comma, spacedComma, valuesClose, Piece.tokens, operand_token,
    List.flatMap_assoc, List.flatMap_map]

theorem more_spelled (more : List Arg) :
    Piece.Spelled ((more.flatMap fun a => [spacedComma, .arg a]) ++ [valuesClose]) ∧
      Lexer.fresh (Piece.texts ((more.flatMap fun a => [spacedComma, .arg a]) ++ [valuesClose])) := by
  induction more with
  | nil => exact ⟨⟨rfl, trivial⟩, rfl⟩
  | cons a rest ih => exact ⟨⟨read_spacedComma _, ih.2, ih.1⟩, rfl⟩

theorem insertPieces_spelled (qd : QueryDescriptor) (a0 a1 : Arg) (more : List Arg) :
    Piece.Spelled (insertPieces qd a0 a1 more ++ [valuesClose]) := by
  obtain ⟨spelled, next⟩ := more_spelled more
  rw [insertPieces, List.append_assoc, List.append_assoc]
  exact insertHead_spelled qd rfl ⟨read_values _, rfl, read_comma _, next, spelled⟩

theorem insertText_nulFree {qd : QueryDescriptor} {a0 a1 : Arg} {more : List Arg}
    (nulFree : ∀ a ∈ a0 :: a1 :: more, a.NulFree) : 0 ∉ insertText qd a0 a1 more := by
  have table : 0 ∉ qd.dsc.getTableName := word_nulFree (tableName_word qd)
  have args : ∀ a ∈ a0 :: a1 :: more, 0 ∉ toStringS a := fun a member => toStringS_nulFree (nulFree a member)
  simp only [List.forall_mem_cons] at args
  obtain ⟨first, second, others⟩ := args
  have rest : 0 ∉ Piece.texts (more.flatMap fun a => [spacedComma, .arg a]) := by
    intro zero
    obtain ⟨piece, member, zero⟩ := List.mem_flatMap.mp zero
    obtain ⟨a, there, is⟩ := List.mem_flatMap.mp member
    rcases List.mem_pair.mp is with rfl | rfl
    · exact absurd zero (by decide)
    · exact others a there zero
  simp only [insertText, insertPieces, Piece.texts, List.flatMap_append, List.mem_append, not_or] at rest ⊢
  simp [rest, insertHead, word, comma, valuesClose, Piece.text, table, first, second, str]

theorem readStatement_insertText {qd : QueryDescriptor} {a0 a1 : Arg} {more : List Arg}
    (plain : ∀ a ∈ a0 :: a1 :: more, a.Plain) (nulFree : ∀ a ∈ a0 :: a1 :: more, a.NulFree) :
    readStatement (insertText qd a0 a1 more) = some (.insert (insertion qd a0 a1 more)) := by
  have args : ∀ a, .arg a ∈ insertPieces qd a0 a1 more ++ [valuesClose] → a ∈ a0 :: a1 :: more := by
    simp [insertPieces, insertHead, word, comma, spacedComma, valuesClose]
  have read : lex (insertText qd a0 a1 more) = some (Statement.insert (insertion qd a0 a1 more)).tokens := by
    rw [insertion_tokens, insertText, Piece.lex_texts_iff (insertPieces_spelled qd a0 a1 more)]
    exact fun a member => plain a (args a member)
  rw [readStatement, cString_fixed (insertText_nulFree nulFree), read]
  exact parse_tokens ⟨by simp [insertion], by simp [insertion]⟩

/-! ## The statements of `create_table` -/

theorem participateText_eq (user : Str) (tableKey index : Int) : Qr.participateText user tableKey index =
    .ok (insertText .participate (.string user) (.int tableKey) [.int index]) := by
  have extended := addCondition_insertText .participate (.string user) (.int tableKey) (.int index) []
  rw [insertText_nil] at extended
  simp [Qr.participateText, extended]

/-- The statements for these participants, counted from an index. -/
def participateTexts (tableKey : Int) : Int → List Str → List Str
  | _, [] => []
  | index, user :: rest =>
      insertText .participate (.string user) (.int tableKey) [.int index] ::
        participateTexts tableKey (index + 1) rest

/-- The statement for the table itself. -/
def tableText (host : Str) (cont : List Str) : Str :=
  insertQuery .table (.string host) (.int (wrap 32 cont.length))

section
variable {σ : Type} (E : Engine σ)

/-- The connection after these statements. -/
def execAll (db : σ) (texts : List Str) : σ := texts.foldl (fun db text => (E.exec db text).1) db

theorem addParticipants_run (tableKey index : Int) (users : List Str) (db : σ) :
    (Qr.addParticipants tableKey index users).run E db =
      ⟨.ok (), execAll E db (participateTexts tableKey index users),
        participateTexts tableKey index users⟩ := by
  induction users generalizing index db with
  | nil => rfl
  | cons user rest ih =>
      simp only [Qr.addParticipants, Program.run_bind, participateText_eq, lift_run, Program.run_statement, ih]
      rfl

/-- The key is what the connection calls its latest insertion after the first statement. -/
def newKey (host : Str) (cont : List Str) (db : σ) : Int :=
  wrap 32 (E.lastInsertRowid (E.exec db (tableText host cont)).1)

theorem createTable_run (host : Str) (cont : List Str) (db : σ) :
    (Qr.createTable host cont).run E db =
      ⟨.ok (newKey E host cont db),
        execAll E (E.exec db (tableText host cont)).1 (participateTexts (newKey E host cont db) 0 cont),
        tableText host cont :: participateTexts (newKey E host cont db) 0 cont⟩ := by
  simp only [Qr.createTable, Program.run_bind, Program.run_statement, Program.run_rowid, addParticipants_run]
  simp [newKey, tableText]

end

/-! ## What the insertions of the queries mean

A zero byte in an argument ends the text inside a string, so it is no statement at all.
-/

theorem hostInsert_means {host : Str} (n : Int) (plain : 34 ∉ host) :
    Means (insertQuery .table (.string host) (.int n)) (insertion .table (.string host) (.int n) []) := by
  by_cases zero : 0 ∈ host
  · have split : insertQuery .table (.string host) (.int n) = str "INSERT INTO chatTable VALUES( \"" ++ (host ++
        (str "\"," ++ toStringS (.int n) ++ str ");")) := by
      simp [insertQuery, toStringS, str]
      rfl
    rw [split]
    exact .inr (cut_off rfl (by decide) plain zero _)
  · rw [← insertText_nil]
    exact .inl (readStatement_insertText (by simpa [Arg.Plain] using plain) (by simpa [Arg.NulFree] using zero))

theorem table_means {host : Str} (cont : List Str) (plain : 34 ∉ host) :
    Means (tableText host cont) (insertion .table (.string host) (.int (wrap 32 cont.length)) []) :=
  hostInsert_means _ plain

theorem participate_means {user : Str} (tableKey index : Int) (plain : 34 ∉ user) :
    Means (insertText .participate (.string user) (.int tableKey) [.int index])
      (insertion .participate (.string user) (.int tableKey) [.int index]) := by
  by_cases zero : 0 ∈ user
  · have split : insertText .participate (.string user) (.int tableKey) [.int index] =
        str "INSERT INTO part VALUES( \"" ++ (user ++ (str "\"," ++ toStringS (.int tableKey) ++ str " , " ++
          toStringS (.int index) ++ str ");")) := by
      simp [insertText, insertPieces, insertHead, Piece.texts, Piece.text, word, comma, spacedComma, valuesClose,
        toStringS, str]
      rfl
    rw [split]
    exact .inr (cut_off rfl (by decide) plain zero _)
  · exact .inl (readStatement_insertText (by simpa [Arg.Plain] using plain) (by simpa [Arg.NulFree] using zero))

/-- The insertion of `insert_connection`. -/
def connectionInsert (sender target : Str) : Insert :=
  ⟨str "connectionRequest", some [str "sender", str "receiver"], [.quoted sender, .quoted target]⟩

theorem connection_means {sender target : Str} (plain : 34 ∉ sender) (plain' : 34 ∉ target) :
    Means (insertQueryWithPairStr .connectionRequest (0, sender) (1, target)) (connectionInsert sender target) := by
  have split : insertQueryWithPairStr .connectionRequest (0, sender) (1, target) =
      str "INSERT INTO connectionRequest (sender , receiver) VALUES (\"" ++
        (sender ++ ((34 :: str " , \"") ++ (target ++ str "\");"))) := by
    simp [insertQueryWithPairStr, toStringS, str]
    rfl
  have opens : Leads (str "INSERT INTO connectionRequest (sender , receiver) VALUES (\"") _ (.string 34 []) :=
    .of_scan rfl (by decide)
  by_cases zero : 0 ∈ sender
  · rw [split]
    exact .inr (opens.cut (by decide) plain zero _)
  by_cases zero' : 0 ∈ target
  · rw [split, ← List.append_assoc sender, ← List.append_assoc]
    have again := opens.string (g := str " , \"") plain rfl (by decide) fun q => by simp [Closed, str]
    exact .inr (again.cut (by simp [zero, str]) plain' zero' _)
  · have known : ∀ i ∈ [(0 : Int), 1], QueryDescriptor.connectionRequest.dsc.HasColumn i := by decide
    have read : readStatement (BuilderCall.insertPairStr .connectionRequest (0, sender) (1, target)).text = _ :=
      BuilderCall.readStatement_text ⟨known 0 (by simp), known 1 (by simp)⟩
        (by simp [BuilderCall.args, Arg.NulFree, zero, zero']) (by simp [BuilderCall.args, Arg.Plain, plain, plain'])
    exact .inl read

/-- The insertion of `insert_invite`. -/
def inviteInsert (target sender : Str) (tableKey : Int) : Insert :=
  ⟨str "invite", some [str "target", str "tableKey", str "sender"], [.quoted target, .number tableKey, .quoted sender]⟩

theorem invite_means {target sender : Str} (tableKey : Int) (plain : 34 ∉ target) (plain' : 34 ∉ sender) :
    Means (insertQueryWithPair3 .invite (0, .string target) (1, .int tableKey) (2, .string sender))
      (inviteInsert target sender tableKey) := by
  have split : insertQueryWithPair3 .invite (0, .string target) (1, .int tableKey) (2, .string sender) =
      str "INSERT INTO invite (target , tableKey,sender) VALUES (\"" ++ (target ++ ((34 :: str " , ") ++
        (Decimal.ofInt tableKey ++ (str ",\"" ++ (sender ++ str "\");"))))) := by
    unfold insertQueryWithPair3
    simp [toStringS, str]
    rfl
  have opens : Leads (str "INSERT INTO invite (target , tableKey,sender) VALUES (\"") _ (.string 34 []) :=
    .of_scan rfl (by decide)
  by_cases zero : 0 ∈ target
  · rw [split]
    exact .inr (opens.cut (by decide) plain zero _)
  by_cases zero' : 0 ∈ sender
  · have again := (opens.string (g := str " , ") plain rfl (by decide) fun q => by simp [Closed, str]).number
      (n := tableKey) (g := str ",\"") rfl (by decide) fun _ => rfl
    rw [split, ← List.append_assoc (Decimal.ofInt tableKey), ← List.append_assoc target, ← List.append_assoc (str _),
      ← List.append_assoc]
    exact .inr (again.cut (by simp [zero, str, Decimal.ofInt_nulFree]) plain' zero' _)
  · have known : ∀ i ∈ [(0 : Int), 1, 2], QueryDescriptor.invite.dsc.HasColumn i := by decide
    have read : readStatement (BuilderCall.insertPair3 .invite (0, .string target) (1, .int tableKey)
        (2, .string sender)).text = _ :=
      BuilderCall.readStatement_text ⟨known 0 (by simp), known 1 (by simp), known 2 (by simp)⟩
        (by simp [BuilderCall.args, Arg.NulFree, zero, zero']) (by simp [BuilderCall.args, Arg.Plain, plain, plain'])
    exact .inl read

/-- The insertion of `insert_message`. -/
def messageInsert (rq : MsReq) (text : Str) : Insert :=
  ⟨str "ms", some [str "tableKey", str "sender", str "message", str "chk"],
    [.number rq.tableKey, .number rq.sender, .quoted text, .number rq.uncheck]⟩

theorem message_means (rq : MsReq) {text : Str} (plain : 34 ∉ text) :
    Means (insertQueryWithPair4 .message (0, .int rq.tableKey) (1, .int rq.sender) (2, .string text)
      (4, .int rq.uncheck)) (messageInsert rq text) := by
  by_cases zero : 0 ∈ text
  · have split : insertQueryWithPair4 .message (0, .int rq.tableKey) (1, .int rq.sender) (2, .string text)
        (4, .int rq.uncheck) = str "INSERT INTO ms (tableKey , sender,message,chk) VALUES (" ++
          (Decimal.ofInt rq.tableKey ++ (str " , " ++ (Decimal.ofInt rq.sender ++ (str ",\"" ++ (text ++
            (str "\"," ++ (Decimal.ofInt rq.uncheck ++ str ");"))))))) := by
      unfold insertQueryWithPair4
      simp [toStringS, str]
      rfl
    have opens : Leads (str "INSERT INTO ms (tableKey , sender,message,chk) VALUES (") _ .gap :=
      .of_scan rfl (by decide)
    have again := (opens.number (n := rq.tableKey) (g := str " , ") rfl (by decide) fun _ => rfl).number
      (n := rq.sender) (g := str ",\"") rfl (by decide) fun _ => rfl
    rw [split, ← List.append_assoc (Decimal.ofInt rq.tableKey), ← List.append_assoc (str _),
      ← List.append_assoc (Decimal.ofInt rq.sender), ← List.append_assoc (str _ ++ _)]
    exact .inr (again.cut (by simp [str, Decimal.ofInt_nulFree]) plain zero _)
  · have known : ∀ i ∈ [(0 : Int), 1, 2, 4], QueryDescriptor.message.dsc.HasColumn i := by decide
    have read : readStatement (BuilderCall.insertPair4 .message (0, .int rq.tableKey) (1, .int rq.sender)
        (2, .string text) (4, .int rq.uncheck)).text = _ :=
      BuilderCall.readStatement_text ⟨known 0 (by simp), known 1 (by simp), known 2 (by simp), known 4 (by simp)⟩
        (by simp [BuilderCall.args, Arg.NulFree, zero]) (by simp [BuilderCall.args, Arg.Plain, plain])
    exact .inl read

end NineProject
