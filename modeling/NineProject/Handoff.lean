import NineProject.Base.Runs
import NineProject.ConcReply
import NineProject.Readable

/-! # Which rows the fetches of a session hand out

A fetch with a cursor is asked for the rows above it and leaves the rowid of the
connection's latest insertion in it, whatever table that went to. Messages are asked for
above the cursor, connection requests from it on, and invites without one.
-/

namespace NineProject

open Bytes Sql

/-! ## The fetches -/

/-- A fetch of the messages of one table, or of the requests or the invites of one user. -/
inductive CursorFetch where
  | messages (tableKey : Int)
  | requests (user : Str)
  | invites (user : Str)
  deriving DecidableEq, Repr

namespace CursorFetch

def table : CursorFetch → Str
  | messages _ => str "ms"
  | requests _ => str "connectionRequest"
  | invites _ => str "invite"

def columns : CursorFetch → List Column
  | messages _ => msColumns
  | requests _ => requestColumns
  | invites _ => inviteColumns

/-- The rows the fetch is for. -/
def Matches : CursorFetch → Row → Prop
  | messages tableKey, r => r.cells[0]? = some (.int tableKey)
  | requests user, r => r.cells[1]? = some (.text user)
  | invites user, r => r.cells[0]? = some (.text user)

/-- How the statement compares a rowid with the cursor. -/
def Above : CursorFetch → Int → Int → Prop
  | messages _, lastCheck, rowid => lastCheck < rowid
  | requests _, lastCheck, rowid => lastCheck ≤ rowid
  | invites _, _, _ => True

/-- The name ends with the double quote that the statement puts behind it. -/
def Plain : CursorFetch → Prop
  | messages _ => True
  | requests user => 34 ∉ user
  | invites user => 34 ∉ user

/-- The rows for which SQLite takes the condition on the key or the name to be met: the
    name is read as a column where it is one's, and with a zero byte nothing runs. -/
def Reads (numeric : Str → Value) : CursorFetch → Row → Prop
  | messages tableKey, r => r.cells[0]? = some (.int tableKey)
  | requests user, r => 0 ∉ user ∧ Table.meets numeric ⟨requestColumns, []⟩ r ⟨str "receiver", .eq, .quoted user⟩
  | invites user, r => 0 ∉ user ∧ Table.meets numeric ⟨inviteColumns, []⟩ r ⟨str "target", .eq, .quoted user⟩

instance (f : CursorFetch) (r : Row) : Decidable (f.Matches r) := by cases f <;> exact inferInstanceAs (Decidable (_ = _))

instance (f : CursorFetch) (lastCheck rowid : Int) : Decidable (f.Above lastCheck rowid) :=
  match f with
  | messages _ => inferInstanceAs (Decidable (lastCheck < rowid))
  | requests _ => inferInstanceAs (Decidable (lastCheck ≤ rowid))
  | invites _ => .isTrue trivial

instance (f : CursorFetch) : Decidable f.Plain :=
  match f with
  | messages _ => .isTrue trivial
  | requests user | invites user => inferInstanceAs (Decidable (34 ∉ user))

instance (numeric : Str → Value) (f : CursorFetch) (r : Row) : Decidable (f.Reads numeric r) := by
  cases f <;> unfold Reads <;> infer_instance

/-- The rows of a table the statement finds with a cursor. -/
def found (numeric : Str → Value) (f : CursorFetch) (t : Table) (lastCheck : Int) : List Row :=
  t.rows.filter fun r => f.Reads numeric r ∧ f.Above lastCheck r.rowid

section
variable {σ : Type} (lib : External σ)

def call (p : PBuffer) (lastCheck : Int) : CursorFetch → Query Fetched
  | messages tableKey => Qr.getNewMessageInTable lib p tableKey lastCheck
  | requests user => Qr.getNewConnectionReq lib user p lastCheck
  | invites user => Qr.getNewIvtReq lib user p

/-- The callback that makes an entry of a row. -/
def entry : CursorFetch → PBuffer × Int → ResultRow → Except Fault (PBuffer × Int)
  | messages _ => Qr.messageEntry lib
  | requests _ => Qr.connectionEntry lib
  | invites _ => Qr.inviteEntry lib

/-- The rows can be read, and the buffer has room for what is made of them; of a request
    nothing can be made. -/
def Takes (p : PBuffer) (rows : List ResultRow) : CursorFetch → Prop
  | messages _ => (∀ row ∈ rows, MessageReadable lib row) ∧ p.RoomFor (rows.flatMap messageLengths)
  | requests _ => rows = []
  | invites _ => (∀ row ∈ rows, InviteReadable row) ∧ p.RoomFor (rows.flatMap inviteLengths)

instance (f : CursorFetch) (p : PBuffer) (rows : List ResultRow) : Decidable (f.Takes lib p rows) := by
  cases f <;> unfold Takes <;> infer_instance

/-- Then the callback comes to the end of the rows. -/
theorem takes_iff {f : CursorFetch} {p : PBuffer} {rows : List ResultRow} :
    (∃ got, eachRow (f.entry lib) (p, 0) rows = .ok got) ↔ f.Takes lib p rows := by
  cases f with
  | messages tableKey => exact (messageEntry_enters lib).ends_iff
  | requests user => exact connectionEntries_iff lib
  | invites user => exact (inviteEntry_enters lib).ends_iff

def text (lastCheck : Int) : CursorFetch → Str
  | messages tableKey => fetchText tableKey lastCheck
  | requests user => requestsText user lastCheck
  | invites user => invitesText user

theorem call_fetch (f : CursorFetch) (p : PBuffer) (lastCheck : Int) :
    f.call lib p lastCheck = Qr.fetch (f.text lastCheck) (f.entry lib) p := by
  cases f with
  | messages tableKey => exact Qr.getNewMessageInTable_fetch tableKey lastCheck
  | requests user => exact Qr.getNewConnectionReq_fetch user lastCheck
  | invites user => exact Qr.getNewIvtReq_fetch user

end

variable {σ : Type} {numeric : Str → Value} {view : σ → Store}

theorem mem_found {f : CursorFetch} {t : Table} {lastCheck : Int} {r : Row} :
    r ∈ f.found numeric t lastCheck ↔ r ∈ t.rows ∧ f.Reads numeric r ∧ f.Above lastCheck r.rowid := by
  simp [found]

/-- The statement leaves the database alone and hands the callback what it finds. -/
theorem exec_text {E : Engine σ} (lawful : E.Lawful numeric view) {f : CursorFetch} (plain : f.Plain) {db : σ}
    (columns : (view db f.table).columns = f.columns) (lastCheck : Int) :
    E.exec db (f.text lastCheck) = (db, (f.found numeric (view db f.table) lastCheck).map resultOf) := by
  cases f with
  | messages tableKey => exact fetch_exec lawful tableKey lastCheck columns
  | requests user =>
      have schema : (view db (str "connectionRequest")).columns = requestColumns := columns
      have noColumn : (view db (str "connectionRequest")).index (str "rowid") = none := by
        rw [Table.index, schema]
        rfl
      have column : IsCondition .connectionRequest 1 :=
        .inr (show QueryDescriptor.connectionRequest.dsc.HasColumn 1 by decide)
      have exec := selectText2_exec lawful column (.inl rfl) (e := Compare.equalAndHigher) (c := lastCheck)
        (by decide) (.inl rfl) rfl (by decide) plain db
      refine exec.trans (congrArg (Prod.mk db) ?_)
      by_cases zero : 0 ∈ user
      · simp [zero, found, Reads]
      · rw [if_neg zero]
        refine congrArg (List.map resultOf) (List.filter_congr fun r _ => ?_)
        have named : (view db (str "connectionRequest")).meets numeric r ⟨str "receiver", .eq, .quoted user⟩ =
            Table.meets numeric ⟨requestColumns, []⟩ r ⟨str "receiver", .eq, .quoted user⟩ :=
          Table.meets_columns numeric schema r _
        have above : (view db (str "connectionRequest")).meets numeric r ⟨str "rowid", .ge, .number lastCheck⟩ =
            decide (lastCheck ≤ r.rowid) := Table.meets_rowid_ge numeric noColumn r lastCheck
        show ((view db (str "connectionRequest")).meets numeric r ⟨str "receiver", .eq, .quoted user⟩ &&
          ((view db (str "connectionRequest")).meets numeric r ⟨str "rowid", .ge, .number lastCheck⟩ && true)) = _
        rw [named, above, Bool.and_true, Bool.eq_iff_iff]
        simp [Reads, Above, zero]
  | invites user =>
      have column : IsCondition .invite 0 := .inr (show QueryDescriptor.invite.dsc.HasColumn 0 by decide)
      have exec := selectText_exec lawful column (.inl rfl) rfl (by decide) plain db
      refine exec.trans (congrArg (Prod.mk db) ?_)
      by_cases zero : 0 ∈ user
      · simp [zero, found, Reads]
      · rw [if_neg zero]
        refine congrArg (List.map resultOf) (List.filter_congr fun r _ => ?_)
        have named : (view db (str "invite")).meets numeric r ⟨str "target", .eq, .quoted user⟩ =
            Table.meets numeric ⟨inviteColumns, []⟩ r ⟨str "target", .eq, .quoted user⟩ :=
          Table.meets_columns numeric columns r _
        show ((view db (str "invite")).meets numeric r ⟨str "target", .eq, .quoted user⟩ && true) = _
        rw [named, Bool.and_true, Bool.eq_iff_iff]
        simp [Reads, Above, zero]

end CursorFetch

/-! ## Hand-offs -/

/-- A call that was made: the cursor it was given, the table as it found it, and the rows
    that it returned. -/
structure Made where
  lastCheck : Int
  table : Table
  rows : List ResultRow
  deriving Repr

/-- The variable that is passed to every call, and the calls so far. -/
structure Handoff (σ : Type) where
  db : σ
  lastCheck : Int
  made : List Made

/-- Somebody inserts through the same connection, or the next call is made with a buffer. -/
inductive HandoffStep where
  | insert (text : Str)
  | call (p : PBuffer)

namespace Handoff

section
variable {σ : Type} (lib : External σ) (view : σ → Store) (f : CursorFetch)

/-- A call that throws has returned nothing and has not written the cursor. -/
def next (s : Handoff σ) : HandoffStep → Option (Handoff σ)
  | .insert text =>
      match readStatement text with
      | some (.insert _) => some { s with db := (lib.engine.exec s.db text).1 }
      | _ => none
  | .call p =>
      let ran := (f.call lib p s.lastCheck).run lib.engine s.db
      match ran.result with
      | .ok got => some ⟨ran.db, got.lastCheck, s.made ++ [⟨s.lastCheck, view s.db f.table, got.rows⟩]⟩
      | .error _ => some ⟨ran.db, s.lastCheck, s.made ++ [⟨s.lastCheck, view s.db f.table, []⟩]⟩

variable (numeric : Str → Value)

/-- The row was there at the latest call. -/
def Seen (s : Handoff σ) (r : Row) : Prop := ∃ call ∈ s.made.getLast?, r ∈ call.table.rows

/-- Before a call: what is found can be taken, and the cursor stands between the rows that
    were there at the latest call and those above `c` that were inserted since. -/
def Ready (c : Int) (s : Handoff σ) : HandoffStep → Prop
  | .insert _ => True
  | .call p => f.Plain ∧ f.Takes lib p ((f.found numeric (view s.db f.table) s.lastCheck).map resultOf) ∧
      (∀ r ∈ (view s.db f.table).rows, f.Reads numeric r → s.Seen r → ¬ f.Above s.lastCheck r.rowid) ∧
      ∀ r ∈ (view s.db f.table).rows, f.Matches r → c < r.rowid → ¬ s.Seen r →
        f.Reads numeric r ∧ f.Above s.lastCheck r.rowid

instance (s : Handoff σ) (r : Row) : Decidable (s.Seen r) :=
  inferInstanceAs (Decidable (∃ call ∈ s.made.getLast?, r ∈ call.table.rows))

instance (c : Int) (s : Handoff σ) (step : HandoffStep) : Decidable (s.Ready lib view f numeric c step) :=
  match step with
  | .insert _ => .isTrue trivial
  | .call p => by unfold Ready; infer_instance

/-- Of the rows above `c` that were there at the latest call, each was returned by exactly
    one of the calls, and no row was returned twice. -/
def Exact (c : Int) (s : Handoff σ) : Prop :=
  (∀ r, s.Seen r → f.Matches r → c < r.rowid →
    s.made.countP (fun call => resultOf r ∈ call.rows) = 1) ∧
    ((s.made.flatMap Made.rows).map ResultRow.rowid).Nodup

end

/-! ## Rows in order -/

/-- Rowids increase within a table. -/
def Increasing (rows : List Row) : Prop := rows.Pairwise fun a b => a.rowid < b.rowid

theorem Increasing.nodup {rows : List Row} (increasing : Increasing rows) : (rows.map Row.rowid).Nodup :=
  (List.pairwise_map.mpr increasing).imp ne_of_lt

theorem Increasing.unique {rows : List Row} (increasing : Increasing rows) {a b : Row} (first : a ∈ rows)
    (second : b ∈ rows) (same : a.rowid = b.rowid) : a = b :=
  List.inj_on_of_nodup_map increasing.nodup first second same

/-- What is in no two of the lists and in one of them is in exactly one. -/
theorem countP_one {α β : Type} [DecidableEq β] {g : α → List β} {l : List α} {a : α} {b : β}
    (nodup : (l.flatMap g).Nodup) (member : a ∈ l) (here : b ∈ g a) : l.countP (fun a => b ∈ g a) = 1 := by
  induction l with
  | nil => cases member
  | cons first rest ih =>
      rw [List.flatMap_cons, List.nodup_append] at nodup
      obtain ⟨-, others, apart⟩ := nodup
      rw [List.countP_cons]
      rcases List.mem_cons.mp member with rfl | later
      · have none_ : rest.countP (fun a => b ∈ g a) = 0 := List.countP_eq_zero.mpr fun a' there again =>
          apart b here b (List.mem_flatMap.mpr ⟨a', there, of_decide_eq_true again⟩) rfl
        simp [none_, here]
      · have elsewhere : b ∉ g first := fun again =>
          apart b again b (List.mem_flatMap.mpr ⟨a, later, here⟩) rfl
        simp [ih others later, elsewhere]

section
variable {σ : Type} {lib : External σ} {numeric : Str → Value} {view : σ → Store} {f : CursorFetch} {c : Int}

/-- An insertion leaves the rows of every table, in order and with the same columns. -/
theorem insert_grows {E : Engine σ} (lawful : E.Lawful numeric view) {db : σ} {text : Str} {i : Insert}
    (read : readStatement text = some (.insert i)) (table : Str) :
    (view (E.exec db text).1 table).columns = (view db table).columns ∧
      (∀ r ∈ (view db table).rows, r ∈ (view (E.exec db text).1 table).rows) ∧
      (Increasing (view db table).rows → Increasing (view (E.exec db text).1 table).rows) := by
  obtain ⟨-, ⟨same, -⟩ | ⟨default, r, -, ⟨above, grown, others⟩, -⟩⟩ := lawful.insert db _ _ read
  · rw [same]
    exact ⟨rfl, fun r => id, id⟩
  · by_cases into : table = i.table
    · subst into
      rw [grown]
      refine ⟨rfl, fun r => List.mem_append_left _, fun increasing => ?_⟩
      exact List.pairwise_append.mpr ⟨increasing, by simp, fun old member new is => by
        rw [List.mem_singleton.mp is]
        exact above old member⟩
    · rw [others table into]
      exact ⟨rfl, fun r => id, id⟩

/-! ## What every step keeps -/

variable (numeric f) in
/-- A call has found the row. -/
def Handed (s : Handoff σ) (r : Row) : Prop :=
  ∃ call ∈ s.made, r ∈ f.found numeric call.table call.lastCheck

/-- The calls returned what they found in the table, which has only grown since; what is
    to be returned was found, and nothing twice. -/
structure Sound (lib : External σ) (view : σ → Store) (f : CursorFetch) (numeric : Str → Value) (c : Int)
    (s : Handoff σ) : Prop where
  columns : (view s.db f.table).columns = f.columns
  increasing : Increasing (view s.db f.table).rows
  kept : ∀ call ∈ s.made, ∀ r ∈ call.table.rows, r ∈ (view s.db f.table).rows
  seen : ∀ call ∈ s.made, ∀ r ∈ call.table.rows, s.Seen r
  returned : ∀ call ∈ s.made, call.rows = (f.found numeric call.table call.lastCheck).map resultOf
  covered : ∀ r, s.Seen r → f.Matches r → c < r.rowid → s.Handed numeric f r
  nodup : ((s.made.flatMap Made.rows).map ResultRow.rowid).Nodup

theorem Sound.exact {s : Handoff σ} (sound : Sound lib view f numeric c s) : s.Exact f c := by
  refine ⟨fun r seen wanted above => ?_, sound.nodup⟩
  obtain ⟨call, member, found⟩ := sound.covered r seen wanted above
  refine countP_one (List.Nodup.of_map _ sound.nodup) member ?_
  rw [sound.returned call member]
  exact List.mem_map_of_mem found

/-- A returned row is one of the table that an earlier call has found. -/
theorem Sound.source {s : Handoff σ} (sound : Sound lib view f numeric c s) {row : ResultRow}
    (returned : row ∈ s.made.flatMap Made.rows) :
    ∃ r ∈ (view s.db f.table).rows, s.Handed numeric f r ∧ resultOf r = row := by
  obtain ⟨call, member, there⟩ := List.mem_flatMap.mp returned
  rw [sound.returned call member] at there
  obtain ⟨r, found, is⟩ := List.mem_map.mp there
  exact ⟨r, sound.kept call member r (CursorFetch.mem_found.mp found).1, ⟨call, member, found⟩, is⟩

theorem Sound.insert {s : Handoff σ} (sound : Sound lib view f numeric c s)
    (lawful : lib.engine.Lawful numeric view) {text : Str} {i : Insert} (read : readStatement text = some (.insert i)) :
    Sound lib view f numeric c { s with db := (lib.engine.exec s.db text).1 } := by
  obtain ⟨columns, kept, increasing⟩ := insert_grows lawful read f.table
  exact {
    columns := columns.trans sound.columns
    increasing := increasing sound.increasing
    kept := fun call member r there => kept r (sound.kept call member r there)
    seen := sound.seen
    returned := sound.returned
    covered := sound.covered
    nodup := sound.nodup }

/-- A call that is ready returns what it finds. -/
theorem next_call (lawful : lib.engine.Lawful numeric view) {s : Handoff σ}
    (columns : (view s.db f.table).columns = f.columns) {p : PBuffer} (ready : s.Ready lib view f numeric c (.call p)) :
    s.next lib view f (.call p) = some ⟨s.db, wrap 32 (lib.engine.lastInsertRowid s.db), s.made ++
      [⟨s.lastCheck, view s.db f.table, (f.found numeric (view s.db f.table) s.lastCheck).map resultOf⟩]⟩ := by
  obtain ⟨plain, takes, -, -⟩ := ready
  have exec := CursorFetch.exec_text lawful plain columns s.lastCheck
  obtain ⟨got, entries⟩ := (CursorFetch.takes_iff lib).mpr takes
  simp only [next, CursorFetch.call_fetch, Qr.fetch_run, exec, entries]
  rfl

theorem Sound.call {s : Handoff σ} (sound : Sound lib view f numeric c s) {p : PBuffer}
    (ready : s.Ready lib view f numeric c (.call p)) (lastCheck : Int) :
    Sound lib view f numeric c ⟨s.db, lastCheck, s.made ++
      [⟨s.lastCheck, view s.db f.table, (f.found numeric (view s.db f.table) s.lastCheck).map resultOf⟩]⟩ := by
  obtain ⟨-, -, settled, fresh⟩ := ready
  have kept : ∀ call ∈ s.made ++ [⟨s.lastCheck, view s.db f.table,
      (f.found numeric (view s.db f.table) s.lastCheck).map resultOf⟩],
      ∀ r ∈ call.table.rows, r ∈ (view s.db f.table).rows := by
    intro call member r there
    rcases List.mem_append.mp member with earlier | now
    · exact sound.kept call earlier r there
    · cases List.mem_singleton.mp now
      exact there
  refine ⟨sound.columns, sound.increasing, kept, ?_, ?_, ?_, ?_⟩
  · intro call member r there
    exact ⟨_, List.getLast?_concat, kept call member r there⟩
  · intro call member
    rcases List.mem_append.mp member with earlier | now
    · exact sound.returned call earlier
    · cases List.mem_singleton.mp now
      rfl
  · rintro r ⟨call, latest, there⟩ wanted above
    rw [List.getLast?_concat, Option.mem_some_iff] at latest
    subst latest
    by_cases seen : s.Seen r
    · obtain ⟨call, member, found⟩ := sound.covered r seen wanted above
      exact ⟨call, List.mem_append_left _ member, found⟩
    · exact ⟨_, List.mem_append_right _ (List.mem_singleton_self _),
        CursorFetch.mem_found.mpr ⟨there, fresh r there wanted above seen⟩⟩
  · rw [List.flatMap_append, List.map_append, List.nodup_append]
    refine ⟨sound.nodup, ?_, ?_⟩
    · have sub : Increasing (f.found numeric (view s.db f.table) s.lastCheck) := sound.increasing.filter _
      simpa [List.map_map, Function.comp_def, resultOf] using sub.nodup
    · rintro n earlier m now rfl
      obtain ⟨row, returned, is⟩ := List.mem_map.mp earlier
      obtain ⟨r, kept, handed, rfl⟩ := sound.source returned
      obtain ⟨row', again, is'⟩ := List.mem_map.mp now
      simp only [List.flatMap_cons, List.flatMap_nil, List.append_nil, List.mem_map] at again
      obtain ⟨r', found, rfl⟩ := again
      obtain ⟨there, reads, above⟩ := CursorFetch.mem_found.mp found
      -- both are rows of the table with this rowid
      cases sound.increasing.unique kept there (is.trans is'.symm)
      obtain ⟨call, member, before⟩ := handed
      exact settled r kept reads (sound.seen call member r (CursorFetch.mem_found.mp before).1) above

theorem Sound.next {s t : Handoff σ} (lawful : lib.engine.Lawful numeric view) (sound : Sound lib view f numeric c s)
    {step : HandoffStep} (ready : s.Ready lib view f numeric c step) (ran : s.next lib view f step = some t) :
    Sound lib view f numeric c t := by
  cases step with
  | insert text =>
      simp only [Handoff.next] at ran
      split at ran
      · next i read =>
          cases ran
          exact sound.insert lawful read
      · cases ran
  | call p =>
      rw [next_call lawful sound.columns ready] at ran
      cases ran
      exact sound.call ready _

end

/-! ## Runs that lose or repeat a row -/

/-- Nobody has inserted anything. -/
def noRows : Memory := ⟨tables [], 0⟩

end Handoff
end NineProject
