import NineProject.Entries
import NineProject.SqlText

/-! # What a stored message comes back as

A message goes through an `INSERT` that names its columns and comes back through
a `SELECT *` whose callback counts them. The store side puts the text into the
third column; the callback takes the first.
-/

namespace NineProject

open Bytes Sql

/-! ## Reading an entry -/

/-- A `msOut` and as many bytes as its `sz` says. -/
def MsOut.layout : Layout := ⟨MsOut.size, 16⟩

/-- What a client makes of an entry: the key of a table, and a text. -/
def messageOf (e : List Byte × List Byte) : Int × Str := ((MsOut.ofBytes e.1).tableKey, e.2)

namespace MsOut

theorem ofBytes_tableKey {r : MsOut} (key : InRange 32 r.tableKey) : (ofBytes r.toBytes).tableKey = r.tableKey := by
  simp only [ofBytes, toBytes, List.append_assoc]
  exact field_head _ (by decide) key

theorem framed {r : MsOut} {text : Str} (count : r.sz = text.length) (int : text.length < 2 ^ 31) :
    layout.Framed (r.toBytes, text) := by
  have inRange : InRange 32 r.sz := by
    rw [count]
    exact ⟨by omega, by norm_num; omega⟩
  have front : (ofInt 4 r.tableKey ++ ofInt 2 r.userIndex ++ ofInt 2 r.textLenth ++ ofInt 4 r.arrived ++
      ofInt 2 r.check ++ [0, 0] : List Byte).length = 16 := by simp
  have at16 := field_append_right (ofInt 4 r.tableKey ++ ofInt 2 r.userIndex ++ ofInt 2 r.textLenth ++
    ofInt 4 r.arrived ++ ofInt 2 r.check ++ [0, 0])
    (ofInt 4 r.sz ++ ([0, 0, 0, 0] ++ poke (List.replicate 8 0) 0 r.time)) 0 4
  rw [front, field_head _ (by decide) inRange, Nat.add_zero] at at16
  refine ⟨r.toBytes_length, ?_⟩
  show field r.toBytes 16 4 = _
  rw [← count]
  simpa only [toBytes, List.append_assoc] using at16

theorem ofBytes_time (r : MsOut) : (ofBytes r.toBytes).time = poke (List.replicate 8 0) 0 r.time := by
  have front : (ofInt 4 r.tableKey ++ ofInt 2 r.userIndex ++ ofInt 2 r.textLenth ++ ofInt 4 r.arrived ++
      ofInt 2 r.check ++ [0, 0] ++ ofInt 4 r.sz ++ [0, 0, 0, 0] : List Byte).length = 24 := by simp
  show (r.toBytes.drop 24).take 8 = _
  rw [toBytes, ← front, List.drop_left, List.take_of_length_le (by simp)]

end MsOut

/-- Behind what the buffer held stand these entries, and nothing else. -/
def Appended (p b : PBuffer) (es : List (List Byte × List Byte)) : Prop :=
  MsOut.layout.entries es.length (b.written.drop p.nextInputPoint.toNat) = some (es, [])

/-! ## The table of messages -/

/-- A row of a table as `SELECT *` returns it. -/
def resultOf (r : Row) : ResultRow := ⟨r.rowid, r.cells.map Value.render⟩

private def storeCall (rq : MsReq) (text : Str) : BuilderCall :=
  .insertPair4 .message (0, .int rq.tableKey) (1, .int rq.sender) (2, .string text)
    (4, .int rq.uncheck)

private def fetchCall (tableKey lastCheck : Int) : BuilderCall :=
  .select2 .message (0, .int tableKey) (-2, .int lastCheck) 2 0 (-1)

section
variable {σ : Type} {numeric : Str → Value} {view : σ → Store}

/-- What a row holds that `insert_message` stored. -/
theorem insertMessage_cells {E : Engine σ} (lawful : E.Lawful numeric view) {db : σ} {rq : MsReq}
    {text : Str} {r : Row} (plain : 34 ∉ text) (nulFree : 0 ∉ text)
    (columns : (view db (str "ms")).columns = msColumns)
    (stored : (view db).Adds (view ((Qr.insertMessage rq text).run E db).db) (str "ms") r) :
    ∃ time, r.cells = [.int rq.tableKey, .text (Decimal.ofInt rq.sender), .text text, time,
      .int rq.uncheck] := by
  have text_eq : insertQueryWithPair4 .message (0, .int rq.tableKey) (1, .int rq.sender)
    (2, .string text) (4, .int rq.uncheck) = (storeCall rq text).text := rfl
  have known : ∀ i ∈ [(0 : Int), 1, 2, 4], QueryDescriptor.message.dsc.HasColumn i := by decide
  have read : readStatement (storeCall rq text).text = some (storeCall rq text).statement :=
    BuilderCall.readStatement_text
      ⟨known 0 (by simp), known 1 (by simp), known 2 (by simp), known 4 (by simp)⟩
      (by simpa [storeCall, BuilderCall.args, Arg.NulFree] using nulFree)
      (by simpa [storeCall, BuilderCall.args, Arg.Plain] using plain)
  have after : ((Qr.insertMessage rq text).run E db).db =
      (E.exec db (storeCall rq text).text).1 := by
    simp [Qr.insertMessage, Program.run_bind, text_eq]
  rw [after] at stored
  obtain ⟨⟨default, cells⟩, -⟩ := lawful.adds read stored
  refine ⟨default (str "time"), ?_⟩
  rw [cells]
  simp only [Insert.cells]
  show (view db (str "ms")).columns.map _ = _
  rw [columns]
  rfl

/-- The rows of a key. -/
theorem meets_key {t : Table} (columns : t.columns = msColumns) (r : Row) (k : Int) :
    t.meets numeric r ⟨str "tableKey", .eq, .number k⟩ = true ↔ r.cells[0]? = some (.int k) := by
  have cell : t.value r (str "tableKey") = r.cells[0]? := by
    simp only [Table.value, Table.index, columns]
    rfl
  have kind : t.affinity (str "tableKey") = .numeric := by
    simp only [Table.affinity, Table.index, columns]
    rfl
  rw [Table.meets_number numeric kind, cell]

/-- The rows above a cursor. -/
theorem meets_above {t : Table} (columns : t.columns = msColumns) (r : Row) (c : Int) :
    t.meets numeric r ⟨str "rowid", .gt, .number c⟩ = true ↔ c < r.rowid := by
  have noColumn : t.index (str "rowid") = none := by
    simp only [Table.index, columns]
    rfl
  rw [Table.meets_rowid numeric noColumn]
  simp [Sql.Op.holds, compare_gt_iff_gt]

/-- The messages of a key above a cursor. -/
def messagesAbove (ms : Table) (k c : Int) : List Row :=
  ms.rows.filter fun r => r.cells[0]? = some (.int k) ∧ c < r.rowid

theorem mem_messagesAbove {ms : Table} {k c : Int} {r : Row} :
    r ∈ messagesAbove ms k c ↔ r ∈ ms.rows ∧ r.cells[0]? = some (.int k) ∧ c < r.rowid := by
  simp [messagesAbove]

/-- A fetch leaves the database alone and hands its callback the messages of the key
    above the cursor. -/
theorem fetch_exec {E : Engine σ} (lawful : E.Lawful numeric view) {db : σ} (k c : Int)
    (columns : (view db (str "ms")).columns = msColumns) :
    E.exec db (fetchText k c) = (db, (messagesAbove (view db (str "ms")) k c).map resultOf) := by
  have text_eq : fetchText k c = (fetchCall k c).text := rfl
  have known : QueryDescriptor.message.dsc.HasColumn 0 := by decide
  have read : readStatement (fetchCall k c).text = some (fetchCall k c).statement :=
    BuilderCall.readStatement_text
      ⟨.inr known, .inl rfl, show IsCompare 2 by decide, show IsCompare 0 by decide, .inl rfl⟩
      (by simp [fetchCall, BuilderCall.args, Arg.NulFree])
      (by simp [fetchCall, BuilderCall.args, Arg.Plain])
  have selected : (fetchCall k c).statement = .select ⟨.all, str "ms",
      [⟨str "tableKey", .eq, .number k⟩, ⟨str "rowid", .gt, .number c⟩]⟩ := rfl
  have kept : ∀ r, [⟨str "tableKey", .eq, .number k⟩, ⟨str "rowid", .gt, .number c⟩].all
      ((view db (str "ms")).meets numeric r) = decide (r.cells[0]? = some (.int k) ∧ c < r.rowid) := fun r => by
    rw [Bool.eq_iff_iff]
    simp [meets_key columns, meets_above columns]
  rw [text_eq, lawful.select db _ _ (read.trans (congrArg some selected))]
  simp only [Select.rows, Table.shows, if_true, messagesAbove, kept]
  rfl

theorem fetch_spec {E : Engine σ} (lawful : E.Lawful numeric view) {db : σ} (k c : Int)
    (columns : (view db (str "ms")).columns = msColumns) :
    (E.exec db (fetchText k c)).1 = db ∧ ∀ row, row ∈ (E.exec db (fetchText k c)).2 ↔
      ∃ r ∈ (view db (str "ms")).rows, r.cells[0]? = some (.int k) ∧ c < r.rowid ∧ row = resultOf r := by
  rw [fetch_exec lawful k c columns]
  simp only [List.mem_map, mem_messagesAbove]
  exact ⟨trivial, fun row => ⟨fun ⟨r, ⟨kept, key, above⟩, shown⟩ => ⟨r, kept, key, above, shown.symm⟩,
    fun ⟨r, kept, key, above, shown⟩ => ⟨r, ⟨kept, key, above⟩, shown.symm⟩⟩⟩

/-! ## The entries of the messages that are found -/

/-- The chunks of an entry for each message of the key above a cursor. -/
def messageSizes (ms : Table) (k c : Int) : List Nat :=
  (messagesAbove ms k c).flatMap fun _ => [MsOut.size, (Decimal.ofInt k).length]

section
variable {lib : External σ} {k c : Int} {r : Row}

theorem shown_key (first : r.cells[0]? = some (.int k)) :
    Shows (resultOf r) 0 ∧ shown (resultOf r) 0 = Decimal.ofInt k := by
  have digits : (resultOf r).argv[0]? = some (some (Decimal.ofInt k)) := by
    simp [resultOf, first, Value.render]
  simp [Shows, shown, digits, cString_fixed (Decimal.ofInt_nulFree k)]

theorem messageLengths_found {ms : Table} :
    ((messagesAbove ms k c).map resultOf).flatMap messageLengths = messageSizes ms k c := by
  rw [messageSizes, List.flatMap_map]
  refine List.flatMap_congr fun r member => ?_
  rw [messageLengths, (shown_key (mem_messagesAbove.mp member).2.1).2]

/-- The bytes a client finds for the time of a row. -/
def TimeOf (lib : External σ) (r : Row) (bytes : List Byte) : Prop :=
  ∃ time, lib.timeFromString (stampAt lib (resultOf r) 3) = some time ∧ bytes = poke (List.replicate 8 0) 0 time

/-- Whatever its text was, the entry of a row has the digits of its key. -/
theorem msParts_found (key : InRange 32 k) (first : r.cells[0]? = some (.int k)) {e : List Byte × List Byte}
    (made : msParts lib (resultOf r) = .ok e) :
    MsOut.layout.Framed e ∧ messageOf e = (k, Decimal.ofInt k) ∧ TimeOf lib r (MsOut.ofBytes e.1).time := by
  have few := Decimal.ofInt_length key
  obtain ⟨there, digits⟩ := shown_key first
  unfold msParts at made
  cases parts : Qr.messageParts lib (resultOf r) with
  | error f => simp [parts, Except.map] at made
  | ok m =>
      obtain ⟨key', time, -, value, -, -, parsed, rfl⟩ := (messageParts_ok lib).mp parts
      rw [digits, Decimal.stoi_ofInt key] at value
      cases value
      rw [parts, digits] at made
      cases made
      have short : wrap 16 (Decimal.ofInt k).length = (Decimal.ofInt k).length :=
        wrap_of_inRange (by decide) ⟨by omega, by norm_num; omega⟩
      let m : MsOut := ⟨k, 0, (Decimal.ofInt k).length, 0, 0, (Decimal.ofInt k).length, time⟩
      have framed : MsOut.layout.Framed (m.toBytes, Decimal.ofInt k) := MsOut.framed rfl (few.trans_lt (by decide))
      have read : (MsOut.ofBytes m.toBytes).tableKey = k := MsOut.ofBytes_tableKey key
      simp only [short]
      exact ⟨framed, Prod.ext read rfl, time, parsed, m.ofBytes_time⟩

theorem forall₂_mem {α β : Type} {R : α → β → Prop} {xs : List α} {ys : List β} (all : List.Forall₂ R xs ys) {y : β}
    (member : y ∈ ys) : ∃ x ∈ xs, R x y := by
  induction all with
  | nil => cases member
  | cons first _ ih =>
      rcases List.mem_cons.mp member with rfl | later
      · exact ⟨_, List.mem_cons_self, first⟩
      · obtain ⟨x, inside, related⟩ := ih later
        exact ⟨x, List.mem_cons_of_mem _ inside, related⟩

/-- Entries that are appended for messages of known keys are decoded one by one. -/
theorem entries_appended {p b : PBuffer} {n : Int} {rows : List Row} (int : p.data.length < 2 ^ 31)
    (keyed : ∀ r ∈ rows, ∃ k, InRange 32 k ∧ r.cells[0]? = some (.int k))
    (ran : eachRow (Qr.messageEntry lib) (p, 0) (rows.map resultOf) = .ok (b, n)) :
    ∃ es, Appended p b es ∧ List.Forall₂ (fun r e => msParts lib (resultOf r) = .ok e) rows es ∧
      n = rows.length := by
  obtain ⟨es, all, put, count⟩ := (messageEntry_enters lib).appends.eachRow.mp ran
  rw [List.forall₂_map_left_iff] at all
  have framed : ∀ e ∈ es, MsOut.layout.Framed e := by
    intro e member
    obtain ⟨r, inside, made⟩ := forall₂_mem all member
    obtain ⟨k, key, first⟩ := keyed r inside
    exact (msParts_found key first made).1
  refine ⟨es, ?_, all, by simpa using count⟩
  have read := Layout.entries_encode framed []
  rwa [List.append_nil, ← chunksOf_flatten, ← PBuffer.appendAll_appended int put] at read

/-- What a fetch of one table comes to. -/
theorem newMessageInTable_ok (lawful : lib.engine.Lawful numeric view) {db : σ}
    (columns : (view db (str "ms")).columns = msColumns) {p : PBuffer} {f : Fetched} :
    ((Qr.getNewMessageInTable lib p k c).run lib.engine db).result = .ok f ↔
      eachRow (Qr.messageEntry lib) (p, 0) ((messagesAbove (view db (str "ms")) k c).map resultOf) =
          .ok (f.buf, f.count) ∧
        f.lastCheck = wrap 32 (lib.engine.lastInsertRowid db) ∧
          f.rows = (messagesAbove (view db (str "ms")) k c).map resultOf := by
  have fetched : Qr.getNewMessageInTable lib p k c = Qr.fetch (fetchText k c) (Qr.messageEntry lib) p :=
    Qr.getNewMessageInTable_fetch k c
  rw [fetched, Qr.fetch_eq_ok, fetch_exec lawful k c columns]

/-- The fetch ends, and where the row stands among those that are found, the entry that is
    appended for it decodes to this key and this text. -/
def Delivers (p : PBuffer) (found : List Row) (r : Row) (k : Int) (t : Str) (ran : Ran σ Fault Fetched) : Prop :=
  ∃ f es, ran.result = .ok f ∧ Appended p f.buf es ∧
    List.Forall₂ (fun r' e => r' = r → messageOf e = (k, t)) found es

/-- A row that is found is delivered as its key and the digits of its key. -/
theorem delivers_iff (lawful : lib.engine.Lawful numeric view) {db : σ}
    (columns : (view db (str "ms")).columns = msColumns) (key : InRange 32 k)
    (found : r ∈ messagesAbove (view db (str "ms")) k c) {p : PBuffer} (int : p.data.length < 2 ^ 31) {t : Str} :
    Delivers p (messagesAbove (view db (str "ms")) k c) r k t
        ((Qr.getNewMessageInTable lib p k c).run lib.engine db) ↔
      (∀ r' ∈ messagesAbove (view db (str "ms")) k c, MessageReadable lib (resultOf r')) ∧
        p.RoomFor (messageSizes (view db (str "ms")) k c) ∧ t = Decimal.ofInt k := by
  have ends : (∃ got, eachRow (Qr.messageEntry lib) (p, 0) ((messagesAbove (view db (str "ms")) k c).map resultOf) =
      .ok got) ↔ _ := (messageEntry_enters lib).ends_iff
  rw [List.forall_mem_map, messageLengths_found] at ends
  unfold Delivers
  simp only [newMessageInTable_ok lawful columns]
  have first : ∀ r' ∈ messagesAbove (view db (str "ms")) k c, r'.cells[0]? = some (.int k) :=
    fun r' member => (mem_messagesAbove.mp member).2.1
  generalize messagesAbove (view db (str "ms")) k c = rows at ends found first ⊢
  have keyed : ∀ r' ∈ rows, ∃ k, InRange 32 k ∧ r'.cells[0]? = some (.int k) :=
    fun r' member => ⟨k, key, first r' member⟩
  constructor
  · rintro ⟨f, es, ⟨made, -⟩, appended, decoded⟩
    obtain ⟨readable, room⟩ := ends.mp ⟨_, made⟩
    refine ⟨readable, room, ?_⟩
    obtain ⟨es', appended', all, -⟩ := entries_appended int keyed made
    have same : es' = es := by
      have long : es.length = es'.length := decoded.length_eq.symm.trans all.length_eq
      rw [Appended, long, appended'] at appended
      exact congrArg Prod.fst (Option.some.inj appended)
    subst same
    obtain ⟨i, bound, here⟩ := List.mem_iff_getElem.mp found
    have inside : i < es'.length := all.length_eq ▸ bound
    have part := (List.forall₂_iff_get.mp all).2 i bound inside
    have is := (List.forall₂_iff_get.mp decoded).2 i bound inside here
    have second := congrArg Prod.snd ((msParts_found key (first _ (List.get_mem ..)) part).2.1.symm.trans is)
    exact second.symm
  · rintro ⟨readable, room, rfl⟩
    obtain ⟨⟨b, n⟩, made⟩ := ends.mpr ⟨readable, room⟩
    obtain ⟨es, appended, all, -⟩ := entries_appended int keyed made
    refine ⟨⟨b, n, wrap 32 (lib.engine.lastInsertRowid db), rows.map resultOf⟩, es, ⟨made, rfl, rfl⟩, appended, ?_⟩
    refine all.imp fun r' e part same => ?_
    subst same
    exact (msParts_found key (first _ found) part).2.1

end

/-- A stored message is among those that a later fetch of its table above an older cursor
    finds, and the fetch delivers it exactly when each of them can be read, the buffer has
    room for their entries, and its text is the table key in decimal. -/
theorem message_fidelity_iff {lib : External σ} (lawful : lib.engine.Lawful numeric view)
    {db later : σ} {q : MsReq} {t : Str} {r : Row} {c : Int} {p : PBuffer}
    (key : InRange 32 q.tableKey) (plain : 34 ∉ t) (nulFree : 0 ∉ t)
    (columns : (view db (str "ms")).columns = msColumns)
    (stored : (view db).Adds (view ((Qr.insertMessage q t).run lib.engine db).db) (str "ms") r)
    (laterColumns : (view later (str "ms")).columns = msColumns)
    (kept : r ∈ (view later (str "ms")).rows) (below : c < r.rowid) (int : p.data.length < 2 ^ 31) :
    r ∈ messagesAbove (view later (str "ms")) q.tableKey c ∧
      (Delivers p (messagesAbove (view later (str "ms")) q.tableKey c) r q.tableKey t
          ((Qr.getNewMessageInTable lib p q.tableKey c).run lib.engine later) ↔
        (∀ r' ∈ messagesAbove (view later (str "ms")) q.tableKey c, MessageReadable lib (resultOf r')) ∧
          p.RoomFor (messageSizes (view later (str "ms")) q.tableKey c) ∧ t = Decimal.ofInt q.tableKey) := by
  obtain ⟨cell, cells⟩ := insertMessage_cells lawful plain nulFree columns stored
  have found : r ∈ messagesAbove (view later (str "ms")) q.tableKey c :=
    mem_messagesAbove.mpr ⟨kept, by rw [cells]; rfl, below⟩
  exact ⟨found, delivers_iff lawful laterColumns key found int⟩

end

/-! ## One message -/

def noMessages : Memory := ⟨fun _ => ⟨msColumns, []⟩, 0⟩

/-- A greeting in table 7. -/
def greeting : MsReq := ⟨7, 3, 5, 0⟩

def greetingRow : Row :=
  ⟨1, [.int 7, .text (str "3"), .text (str "hello"), .text someTime, .int 0]⟩

def greeted : Memory := noMessages.add (str "ms") greetingRow.cells

def emptyBuffer : PBuffer :=
  ⟨Param.ofTypes [.int, .int, .int, .int], 1024, 0, 0, List.replicate 1024 0⟩

theorem emptyBuffer_int : emptyBuffer.data.length < 2 ^ 31 := by
  have length : emptyBuffer.data.length = 1024 := List.length_replicate
  rw [length]
  decide

private theorem greeting_ran :
    ((Qr.insertMessage greeting (str "hello")).run memoryServer.engine noMessages).db = greeted := by
  rfl

theorem message_fidelity_greeting :
    greetingRow ∈ messagesAbove (greeted.store (str "ms")) 7 0 ∧
      (Delivers emptyBuffer (messagesAbove (greeted.store (str "ms")) 7 0) greetingRow 7 (str "hello")
          ((Qr.getNewMessageInTable memoryServer emptyBuffer 7 0).run memoryServer.engine greeted) ↔
        (∀ r' ∈ messagesAbove (greeted.store (str "ms")) 7 0, MessageReadable memoryServer (resultOf r')) ∧
          emptyBuffer.RoomFor (messageSizes (greeted.store (str "ms")) 7 0) ∧ str "hello" = Decimal.ofInt 7) :=
  message_fidelity_iff (Memory.engine_lawful .text _) (q := greeting) (by decide) (by decide)
    (by decide) rfl (by rw [greeting_ran]; exact Memory.add_adds noMessages (str "ms") _) rfl
    (by decide) (by decide) emptyBuffer_int

/-- The greeting comes back as its table key. -/
theorem message_altered :
    ¬ ∀ (lib : External Memory) (db later : Memory) (rq : MsReq) (t : Str) (r : Row) (c : Int)
        (p : PBuffer), lib.engine.Lawful .text Memory.store → InRange 32 rq.tableKey → 34 ∉ t →
      0 ∉ t → t.length ≤ 1024 → (db.store (str "ms")).columns = msColumns →
      db.store.Adds ((Qr.insertMessage rq t).run lib.engine db).db.store (str "ms") r →
      (later.store (str "ms")).columns = msColumns → r ∈ (later.store (str "ms")).rows →
      (∀ r' ∈ (later.store (str "ms")).rows, MessageReadable lib (resultOf r')) → c < r.rowid →
      p.data.length < 2 ^ 31 → p.RoomFor (messageSizes (later.store (str "ms")) rq.tableKey c) →
      Delivers p (messagesAbove (later.store (str "ms")) rq.tableKey c) r rq.tableKey t
        ((Qr.getNewMessageInTable lib p rq.tableKey c).run lib.engine later) := by
  intro faithful
  have delivered := faithful memoryServer noMessages greeted greeting (str "hello") greetingRow 0
    emptyBuffer (Memory.engine_lawful .text _) (by decide) (by decide) (by decide) (by decide) rfl
    (by rw [greeting_ran]; exact Memory.add_adds noMessages (str "ms") _) rfl (by decide)
    (by decide) (by decide) emptyBuffer_int (by decide +kernel)
  have found : greetingRow ∈ messagesAbove (greeted.store (str "ms")) 7 0 := by decide
  have text := ((delivers_iff (Memory.engine_lawful .text _) rfl (by decide) found emptyBuffer_int).mp delivered).2.2
  exact absurd text (by decide)

end NineProject
