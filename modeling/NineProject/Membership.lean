import NineProject.Insertions
import NineProject.Readers
import NineProject.AllOrNothing

/-! # How a table stores its participants, and how they are read

`create_table` writes the name of a participant before the key of the table,
`insert_participation` the key before the name. `part` has the key first, and the
readers look for the names behind it: a table finds none of the participants it
was created with.
-/

namespace NineProject

open Bytes Sql

variable {σ : Type}

/-! ## Statements that succeed -/

/-- Each of the statements adds its row to the table. -/
def AddsEach (E : Engine σ) (view : σ → Store) (table : Str) : σ → List Str → List Row → Prop
  | _, [], [] => True
  | db, text :: texts, r :: rows =>
      (view db).Adds (view (E.exec db text).1) table r ∧ AddsEach E view table (E.exec db text).1 texts rows
  | _, _, _ => False

section
variable {E : Engine σ} {numeric : Str → Value} {view : σ → Store}

theorem AddsEach.grown {table : Str} {db : σ} {texts : List Str} {rows : List Row}
    (added : AddsEach E view table db texts rows) :
    view (execAll E db texts) table = ⟨(view db table).columns, (view db table).rows ++ rows⟩ ∧
      rows.length = texts.length := by
  induction texts generalizing db rows with
  | nil =>
      cases rows with
      | nil => simp [execAll]
      | cons r rows => exact added.elim
  | cons text texts ih =>
      cases rows with
      | nil => exact added.elim
      | cons r rows =>
          obtain ⟨⟨-, grown, -⟩, later⟩ := added
          obtain ⟨all, length⟩ := ih later
          refine ⟨?_, by simp [length]⟩
          show view (execAll E (E.exec db text).1 texts) table = _
          rw [all, grown]
          simp

/-- Statements that are always taken are taken one behind the other. -/
theorem AddsEach.of_takes {table : Str} {texts : List Str} (takes : ∀ text ∈ texts, E.Takes view text table)
    (db : σ) : ∃ rows, AddsEach E view table db texts rows := by
  induction texts generalizing db with
  | nil => exact ⟨[], trivial⟩
  | cons text rest ih =>
      obtain ⟨r, adds, -⟩ := takes text List.mem_cons_self db
      obtain ⟨rows, added⟩ := ih (fun text member => takes text (List.mem_cons_of_mem _ member)) (E.exec db text).1
      exact ⟨r :: rows, adds, added⟩

/-- A statement of `create_table` that adds a row puts the name where the key belongs. -/
theorem participateText_cells (lawful : E.Lawful numeric view) {user : Str} (plain : 34 ∉ user)
    {tableKey index : Int} {db : σ} {r : Row} (columns : (view db (str "part")).columns = partColumns)
    (adds : (view db).Adds
      (view (E.exec db (insertText .participate (.string user) (.int tableKey) [.int index])).1) (str "part") r) :
    r.cells = [numeric user, .text (Decimal.ofInt tableKey), .int index] := by
  obtain ⟨default, cells⟩ := (participate_means tableKey index plain).cells lawful adds
  have same : (view db (insertion .participate (.string user) (.int tableKey) [.int index]).table).columns =
      partColumns := columns
  rw [cells, Insert.cells, same]
  rfl

theorem participants_cells (lawful : E.Lawful numeric view) {tableKey index : Int} {users : List Str}
    (plain : ∀ user ∈ users, 34 ∉ user) {db : σ} {rows : List Row}
    (columns : (view db (str "part")).columns = partColumns)
    (added : AddsEach E view (str "part") db (participateTexts tableKey index users) rows) :
    ∀ r ∈ rows, ∃ user ∈ users, ∃ i : Int, r.cells = [numeric user, .text (Decimal.ofInt tableKey), .int i] := by
  induction users generalizing index db rows with
  | nil =>
      cases rows with
      | nil => simp
      | cons r rows => exact added.elim
  | cons user rest ih =>
      cases rows with
      | nil => exact added.elim
      | cons r rows =>
          obtain ⟨adds, later⟩ := added
          have kept := (congrArg Table.columns adds.2.1).trans columns
          intro r' member
          rcases List.mem_cons.mp member with rfl | member
          · exact ⟨user, List.mem_cons_self, index,
              participateText_cells lawful (plain user List.mem_cons_self) columns adds⟩
          · obtain ⟨user', there, i, cells⟩ :=
              ih (fun user member => plain user (List.mem_cons_of_mem _ member)) kept later r' member
            exact ⟨user', List.mem_cons_of_mem _ there, i, cells⟩

/-! ## What the readers find -/

section
variable {t : Table} (columns : t.columns = partColumns) (r : Row)
include columns

theorem part_key : t.value r (str "tableKey") = r.cells[0]? := by
  simp only [Table.value, Table.index, columns]
  rfl

theorem part_user : t.value r (str "user") = r.cells[1]? := by
  simp only [Table.value, Table.index, columns]
  rfl

/-- A member is read from a row with the key of the table. -/
theorem part_meets_key (k : Int) :
    t.meets numeric r ⟨str "tableKey", .eq, .number k⟩ = true ↔ r.cells[0]? = some (.int k) := by
  have kind : t.affinity (str "tableKey") = .numeric := by
    simp only [Table.affinity, Table.index, columns]
    rfl
  rw [Table.meets_number numeric kind, part_key columns]

/-- Every row that has a user belongs to the user whose name is that of the column. -/
theorem part_meets_user {v : Str} (named : r.cells[1]? = some (.text v)) :
    t.meets numeric r ⟨str "user", .eq, .quoted (str "user")⟩ = true := by
  have kind : t.affinity (str "user") = .text := by
    simp only [Table.affinity, Table.index, columns]
    rfl
  simp [Table.meets, Table.operand, Table.compared, kind, part_user columns, named, Value.order, Sql.Op.holds]

theorem part_keyed {k : Int} (fits : InRange 32 k) (key : r.cells[0]? = some (.int k)) : Keyed t k r := by
  have text : argText ⟨r.rowid, t.project r (.column (str "tableKey"))⟩ 0 = .ok (Decimal.ofInt k) := by
    simp [Table.project, part_key columns, key, Value.render, argText, cString_fixed (Decimal.ofInt_nulFree k)]
  rw [Keyed, argInt, text]
  simp [Except.bind, Decimal.stoi_ofInt fits]

end

/-- The table of the key is stored the way it is read: its members are the
    participants, a user finds the table exactly once who is one of them and no other
    does, and each row is the one `insert_participation` adds. -/
structure StoredAsRead (E : Engine σ) (view : σ → Store) (before after : σ) (key : Int) (cont : List Str) :
    Prop where
  members : ((Qr.getDiningMembers key).run E after).result = .ok cont
  tables : ∀ user, 34 ∉ user → ∃ keys, ((Qr.getTable user).run E after).result = .ok keys ∧
    keys.count key = if user ∈ cont then 1 else 0
  same : ∃ rows, (view after (str "part")).rows = (view before (str "part")).rows ++ rows ∧
    rows.length = cont.length ∧ ∀ (i : Nat) user r, cont[i]? = some user → rows[i]? = some r →
      ∀ db new, (view db (str "part")).columns = (view before (str "part")).columns →
        (view db).Adds (view ((Qr.insertParticipation user key i).run E db).db) (str "part") new →
          new.cells = r.cells

/-- Where every new row has the key for its user, a table with participants is not
    stored the way it is read: they would all have to be the key, and then a user named
    as the column of the users would find the table. -/
theorem swapped_unread (lawful : E.Lawful numeric view) {before after : σ} {key : Int} {cont : List Str}
    {rows : List Row} (columns : (view before (str "part")).columns = partColumns) (fits : InRange 32 key)
    (unused : ∀ r ∈ (view before (str "part")).rows, ¬ Keyed (view before (str "part")) key r)
    (grown : view after (str "part") =
      ⟨(view before (str "part")).columns, (view before (str "part")).rows ++ rows⟩)
    (swapped : ∀ r ∈ rows, r.cells[1]? = some (.text (Decimal.ofInt key)))
    (stored : StoredAsRead E view before after key cont) : cont = [] := by
  have columns' : (view after (str "part")).columns = partColumns := by rw [grown, columns]
  have read := (getDiningMembers_eq_ok lawful).mp stored.members
  -- a row that a participant is read from is a new one
  have new : ∀ user ∈ cont, user = Decimal.ofInt key ∧
      ∃ r ∈ rows, r.cells[0]? = some (.int key) := by
    intro user member
    obtain ⟨row, selected, text⟩ := (made_mem read).mp member
    obtain ⟨-, r, kept, meets, rfl⟩ := mem_select.mp selected
    have meets : (view after (str "part")).meets numeric r ⟨str "tableKey", .eq, .number key⟩ = true := by
      simpa [membersOf] using meets
    have keyed := (part_meets_key columns' r key).mp meets
    have kept : r ∈ (view before (str "part")).rows ++ rows := by simpa [membersOf, grown] using kept
    rcases List.mem_append.mp kept with old | there
    · exact absurd (part_keyed columns r fits keyed) (unused r old)
    · refine ⟨?_, r, there, keyed⟩
      have shown : (view after (str "part")).project r (.column (str "user")) =
          [some (Decimal.ofInt key)] := by
        simp [Table.project, part_user columns', swapped r there, Value.render]
      simpa [argText, membersOf, shown, cString_fixed (Decimal.ofInt_nulFree key)] using text.symm
  by_contra participants
  obtain ⟨user, member⟩ := List.exists_mem_of_ne_nil cont participants
  obtain ⟨-, r, there, keyed⟩ := new user member
  obtain ⟨keys, ran, count⟩ := stored.tables (str "user") (by decide)
  have outside : str "user" ∉ cont := fun inside => by
    have number := Decimal.stoi_ofInt fits
    rw [← (new _ inside).1, show Decimal.stoi (str "user") = none from rfl] at number
    cases number
  rw [if_neg outside, List.count_eq_zero] at count
  refine count ((made_mem ((getTable_eq_ok lawful (by decide)).mp ran)).mpr
    ⟨_, ?_, part_keyed columns' r fits keyed⟩)
  rw [if_neg (by decide)]
  have asked : (view after (str "part")).shows (.column (str "tableKey")) =
      Table.shows ⟨partColumns, []⟩ (.column (str "tableKey")) := Table.shows_columns columns' _
  refine mem_select.mpr ⟨asked, r, by simp [tablesOf, grown, there], ?_, rfl⟩
  simpa [tablesOf] using part_meets_user columns' r (swapped r there)

/-- If all statements succeed, a new table is stored the way it is read exactly when it
    has no participants and every user's tables could be read before. -/
theorem createTable_storedAsRead_iff (lawful : E.Lawful numeric view) {host : Str} {cont : List Str} {db : σ}
    {key : Int} (plain : ∀ user ∈ cont, 34 ∉ user)
    (columns : (view db (str "part")).columns = partColumns)
    (unused : ∀ r ∈ (view db (str "part")).rows, ¬ Keyed (view db (str "part")) key r)
    (table : ∃ r, (view db).Adds (view (E.exec db (tableText host cont)).1) (str "chatTable") r)
    (part : ∃ rows, AddsEach E view (str "part") (E.exec db (tableText host cont)).1
      (participateTexts key 0 cont) rows)
    (returned : ((Qr.createTable host cont).run E db).result = .ok key) :
    StoredAsRead E view db ((Qr.createTable host cont).run E db).db key cont ↔
      cont = [] ∧ ∀ user, 34 ∉ user → (Qr.getTable user).Ends E db := by
  obtain ⟨made, adds⟩ := table
  obtain ⟨rows, added⟩ := part
  have fits : InRange 32 key := by
    simp only [createTable_run, Except.ok.injEq] at returned
    exact returned ▸ wrap32_inRange _
  have after : ((Qr.createTable host cont).run E db).db =
      execAll E (E.exec db (tableText host cont)).1 (participateTexts key 0 cont) := by
    simp only [createTable_run, Except.ok.injEq] at returned ⊢
    rw [returned]
  have apart : view (E.exec db (tableText host cont)).1 (str "part") = view db (str "part") :=
    adds.2.2 _ (by decide)
  obtain ⟨grown, length⟩ := added.grown
  rw [apart, ← after] at grown
  have unchanged : cont = [] → view ((Qr.createTable host cont).run E db).db (str "part") =
      view db (str "part") := by
    rintro rfl
    obtain rfl : rows = [] := by simpa [participateTexts] using length
    rw [grown, List.append_nil]
  constructor
  · intro stored
    have swapped : ∀ r ∈ rows, r.cells[1]? = some (.text (Decimal.ofInt key)) := fun r member => by
      obtain ⟨user, -, i, cells⟩ := participants_cells lawful plain (apart ▸ columns) added r member
      rw [cells]
      rfl
    have nobody := swapped_unread lawful columns fits unused grown swapped stored
    refine ⟨nobody, fun user plain => ?_⟩
    obtain ⟨keys, ran, -⟩ := stored.tables user plain
    exact ⟨keys, (getTable_same lawful plain (unchanged nobody)).mp ran⟩
  · rintro ⟨nobody, ends⟩
    have same := unchanged nobody
    subst nobody
    refine ⟨?_, fun user plain => ?_, [], by rw [same, List.append_nil], rfl, by simp⟩
    · refine (getDiningMembers_eq_ok lawful).mpr ?_
      have none_ : (membersOf key).rows numeric (view ((Qr.createTable host []).run E db).db) = [] := by
        refine List.eq_nil_iff_forall_not_mem.mpr fun row selected => ?_
        obtain ⟨-, r, kept, meets, -⟩ := mem_select.mp selected
        rw [show (membersOf key).table = str "part" from rfl, same] at kept meets
        have meets : (view db (str "part")).meets numeric r ⟨str "tableKey", .eq, .number key⟩ = true := by
          simpa [membersOf] using meets
        exact unused r kept (part_keyed columns r fits ((part_meets_key columns r key).mp meets))
      rw [none_]
      exact .nil
    · obtain ⟨keys, ran⟩ := ends user plain
      refine ⟨keys, (getTable_same lawful plain same).mpr ran, ?_⟩
      have unlisted : key ∉ keys := fun listed => by
        obtain ⟨r, kept, keyed⟩ := getTable_keyed lawful plain ran listed
        exact unused r kept keyed
      simp [List.count_eq_zero.mpr unlisted]

end

theorem participateTexts_takes {numeric default : Str → Value} (key index : Int) {users : List Str}
    (plain : ∀ user ∈ users, 34 ∉ user ∧ 0 ∉ user) : ∀ text ∈ participateTexts key index users,
      (Memory.engine numeric default).Takes Memory.store text (str "part") := by
  induction users generalizing index with
  | nil => simp [participateTexts]
  | cons user rest ih =>
      intro text member
      rcases List.mem_cons.mp member with rfl | member
      · exact participateText_takes key index (plain user List.mem_cons_self).1 (plain user List.mem_cons_self).2
      · exact ih (index + 1) (fun user member => plain user (List.mem_cons_of_mem _ member)) text member

theorem noRows_unused (key : Int) : ∀ r ∈ (noRows.store (str "part")).rows,
    ¬ Keyed (noRows.store (str "part")) key r := by
  rw [show (noRows.store (str "part")).rows = [] from rfl]
  simp

theorem annTable_adds : ∃ r, noRows.store.Adds
    (memoryServer.engine.exec noRows (tableText (str "ann") annTable)).1.store (str "chatTable") r := by
  have plain : 34 ∉ str "ann" ∧ 0 ∉ str "ann" := by decide
  obtain ⟨r, adds, -⟩ := tableText_takes annTable plain.1 plain.2 noRows
  exact ⟨r, adds⟩

theorem createTable_storedAsRead_ann :
    StoredAsRead memoryServer.engine Memory.store noRows
        ((Qr.createTable (str "ann") annTable).run memoryServer.engine noRows).db 1 annTable ↔
      annTable = [] ∧ ∀ user, 34 ∉ user → (Qr.getTable user).Ends memoryServer.engine noRows :=
  createTable_storedAsRead_iff (Memory.engine_lawful .text _) (by decide) (by decide) (noRows_unused 1)
    annTable_adds (AddsEach.of_takes (participateTexts_takes 1 0 annTable_plain) _) (by decide +kernel)

/-- Ann's table with herself and Bob has no members. -/
theorem members_not_found :
    ¬ ∀ (host : Str) (cont : List Str) (db : Memory) (key : Int), cont.Nodup → (∀ user ∈ cont, 34 ∉ user) →
      (db.store (str "part")).columns = partColumns →
      (∀ r ∈ (db.store (str "part")).rows, ¬ Keyed (db.store (str "part")) key r) →
      (∃ r, db.store.Adds (memoryServer.engine.exec db (tableText host cont)).1.store (str "chatTable") r) →
      (∃ rows, AddsEach memoryServer.engine Memory.store (str "part")
        (memoryServer.engine.exec db (tableText host cont)).1 (participateTexts key 0 cont) rows) →
      ((Qr.createTable host cont).run memoryServer.engine db).result = .ok key →
      StoredAsRead memoryServer.engine Memory.store db
        ((Qr.createTable host cont).run memoryServer.engine db).db key cont := by
  intro stored
  have found := (stored (str "ann") annTable noRows 1 (by decide) (by decide) (by decide) (noRows_unused 1)
    annTable_adds (AddsEach.of_takes (participateTexts_takes 1 0 annTable_plain) _) (by decide +kernel)).members
  have nobody : ((Qr.getDiningMembers 1).run memoryServer.engine
      ((Qr.createTable (str "ann") annTable).run memoryServer.engine noRows).db).result = .ok [] := by
    decide +kernel
  cases found.symm.trans nobody

end NineProject
