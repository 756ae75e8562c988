import NineProject.InviteReply

/-! # The reply with a user's connection requests

The callback copies the twenty bytes of a time to the member of eight bytes that ends its
record of sixteen. No entry is made without leaving the record, so the reply is what it
should be only where there is none to make.
-/

namespace NineProject

open Bytes Sql Effect

/-! ## Rows of `connectionRequest` -/

structure Request where
  rowid : Int
  sender : Str
  receiver : Str
  time : Str
  deriving DecidableEq, Repr

/-- The columns of `connectionRequest`, in the order of `ConcDsc`. -/
def requestColumns : List Column :=
  [⟨str "sender", .text⟩, ⟨str "receiver", .text⟩, ⟨str "time", .numeric⟩]

def Request.row (r : Request) : Row := ⟨r.rowid, [.text r.sender, .text r.receiver, .text r.time]⟩

/-- The table with these rows. -/
def requestTable (content : List Request) : Table := ⟨requestColumns, content.map Request.row⟩

/-- The requests to a user from a cursor on, in row order. -/
def requestsTo (content : List Request) (user : Str) (c : Int) : List Request :=
  content.filter fun r => r.receiver = user ∧ c ≤ r.rowid

/-- The rows that are read as such. -/
def requestsFound (numeric : Str → Value) (content : List Request) (user : Str) (c : Int) : List Request :=
  if 0 ∈ user then []
  else content.filter fun r =>
    (requestTable content).meets numeric r.row ⟨str "receiver", .eq, .quoted user⟩ ∧ c ≤ r.rowid

/-! ## Entries -/

def ConcResponse.layout : Layout := ⟨ConcResponse.size, 0⟩

section
variable {σ : Type} (lib : External σ)

/-- Neither a record nor a text comes of a row: its time does not fit. -/
def concParts (row : ResultRow) : Except Fault (List Byte × List Byte) := do
  let _sender ← argText row 0
  let _time ← argBytes lib.behind row 2 20
  .error .overrun

theorem connectionEntry_appends : Appends (Qr.connectionEntry lib) (concParts lib) := by
  intro got row
  have outside : ¬ ConcResponse.timeAt + 20 ≤ ConcResponse.size := by decide
  simp only [Qr.connectionEntry, concParts, bind, Except.bind, if_neg outside]
  cases argText row 0 with
  | error e => rfl
  | ok sender => cases argBytes lib.behind row 2 20 <;> rfl

/-- What is copied into the record of each row ends inside the record. -/
def TimesInside (rows : List ResultRow) : Prop :=
  ∀ row ∈ rows, ∀ time, argBytes lib.behind row 2 20 = .ok time →
    ConcResponse.timeAt + time.length ≤ ConcResponse.size

variable {lib}

/-! ## What the client decodes -/

variable {numeric : Str → Value} {view : σ → Store}

/-- The statement of `get_new_connection_req` hands the callback what is found. -/
theorem requests_exec {E : Engine σ} (lawful : E.Lawful numeric view) {user : Str} {c : Int} {db : σ}
    {content : List Request} (plain : 34 ∉ user) (holds : view db (str "connectionRequest") = requestTable content) :
    E.exec db (selectQuery2 .connectionRequest (1, .string user) (-2, .int c) Compare.equal Compare.equalAndHigher
      SelectTarget.all) = (db, (requestsFound numeric content user c).map fun r => resultOf r.row) := by
  have column : IsCondition .connectionRequest 1 :=
    .inr (show QueryDescriptor.connectionRequest.dsc.HasColumn 1 by decide)
  have asked : IsTarget .connectionRequest SelectTarget.all := .inl rfl
  have exec := selectText2_exec lawful column (.inl rfl) (e := Compare.equalAndHigher) (c := c) (by decide) asked rfl
    (by decide) plain db
  refine exec.trans ?_
  by_cases zero : 0 ∈ user
  · simp only [if_pos zero, requestsFound, List.map_nil]
  · have table : view db QueryDescriptor.connectionRequest.dsc.getTableName = requestTable content := holds
    have rows : (requestTable content).rows = content.map Request.row := rfl
    have above : ∀ r : Request, (requestTable content).meets numeric r.row ⟨str "rowid", .ge, .number c⟩ =
        decide (c ≤ r.rowid) := fun r => Table.meets_rowid_ge numeric rfl r.row c
    simp only [if_neg zero, requestsFound, Select.rows, Table.shows, table, rows, List.filter_map, List.map_map]
    have kept : ∀ r : Request, ([⟨str "receiver", .eq, .quoted user⟩, ⟨str "rowid", .ge, .number c⟩] : List Cond).all
        ((requestTable content).meets numeric r.row) =
          decide ((requestTable content).meets numeric r.row ⟨str "receiver", .eq, .quoted user⟩ ∧ c ≤ r.rowid) :=
      fun r => by simp [above]
    exact congrArg (fun l => (db, l.map fun r : Request => resultOf r.row)) (List.filter_congr fun r _ => kept r)

/-- The bytes decode to entries with these senders, and what was copied into the record of
    each row stayed inside. -/
def ConcDecodes (lib : External σ) (senders : List Str) (rows : List ResultRow) (bytes : List Byte) : Prop :=
  (readReply ConcResponse.layout bytes).map (fun es => es.map Prod.snd) = some senders ∧ TimesInside lib rows

/-- The handler ends by sending a reply that a client decodes to these senders. -/
def ConcReplied (lib : External σ) (w : World σ) (senders : List Str) : Prop :=
  Returns (responseReqGetNewConc lib none) w fun _ v => Replied .getConnection (ConcDecodes lib senders) v

/-- The reply decodes to these senders, built by copies that stay in their records, exactly
    when the query finds nothing and there are none. -/
theorem concReplied_iff (lawful : lib.engine.Lawful numeric view) {w : World σ} {list : Vector Int 10}
    {content : List Request} (manager : w.self.checkManager = some list)
    (holds : view w.db (str "connectionRequest") = requestTable content)
    (plain : 34 ∉ w.self.userName) {wanted : List Str} :
    ConcReplied lib w wanted ↔
      requestsFound numeric content w.self.userName (list.toArray.getD 2 0) = [] ∧ wanted = [] := by
  have exec := requests_exec (c := list.toArray.getD 2 0) lawful plain holds
  unfold ConcReplied
  generalize requestsFound numeric content w.self.userName (list.toArray.getD 2 0) = found at exec ⊢
  rw [returns_getNewConc lib manager]
  simp only [replied_iff, Qr.getNewConnectionReq_fetch]
  cases found with
  | cons r rest =>
      -- the fetch ends in the copy of the first time
      simp only [reduceCtorEq, false_and, iff_false]
      rintro ⟨p, -, f, fetched, -⟩
      obtain ⟨ran, -⟩ := Qr.fetch_eq_ok.mp fetched
      rw [exec] at ran
      cases (connectionEntries_iff lib).mp ⟨_, ran⟩
  | nil =>
      have framed : ∀ r ∈ ([] : List Request), ConcResponse.layout.Framed (([] : List Byte), ([] : List Byte)) := by simp
      obtain ⟨bytes, replies, reads⟩ := rows_reply (connectionEntry_appends lib) exec (by simp) framed (by decide) (by simp)
        (h := fun n => ⟨0, 1, ECommand.code .getConnection, 0, 0, wrap 32 n, 0⟩) (fun _ => rfl)
      have room : Pchd.size + (([] : List Request).map fun _ => ConcResponse.layout.size + 0).sum ≤ 2 ^ 30 :=
        show Pchd.size + 0 ≤ 2 ^ 30 by decide
      obtain ⟨read, -⟩ := reads room
      have inside : TimesInside lib [] := fun row member => nomatch member
      rw [replies, ConcDecodes]
      simp only [List.map_nil, read, Option.map_some, Option.some.injEq, true_and, eq_comm (a := wanted), inside, and_true]
      exact and_iff_right room

/-- The reply decodes to the senders of the user's requests, built by copies that stay in
    their records, exactly when the query finds nothing and there is nothing to find. -/
theorem concReply_decodes_iff (lawful : lib.engine.Lawful numeric view) {w : World σ} {list : Vector Int 10}
    {content : List Request} (manager : w.self.checkManager = some list)
    (holds : view w.db (str "connectionRequest") = requestTable content) (plain : 34 ∉ w.self.userName) :
    ConcReplied lib w ((requestsTo content w.self.userName (list.toArray.getD 2 0)).map Request.sender) ↔
      requestsFound numeric content w.self.userName (list.toArray.getD 2 0) = [] ∧
        requestsTo content w.self.userName (list.toArray.getD 2 0) = [] := by
  rw [concReplied_iff lawful manager holds plain, List.map_eq_nil_iff]

end

/-! ## Bob's requests -/

/-- Carl asks Bob for a connection, and Dora asks Carl. -/
def someRequests : List Request :=
  [⟨1, str "carl", str "bob", someTime⟩, ⟨2, str "dora", str "carl", someTime⟩]

/-- A user asks for requests. -/
def asksConc (user : Str) : World Memory :=
  askingFor user .getConnection [(str "connectionRequest", someRequests.map Request.row)]

/-- Dora finds none. -/
theorem concReply_decodes_dora :
    ConcReplied memoryServer (asksConc (str "dora")) ((requestsTo someRequests (str "dora") 0).map Request.sender) ↔
      requestsFound .text someRequests (str "dora") 0 = [] ∧ requestsTo someRequests (str "dora") 0 = [] :=
  concReply_decodes_iff (show memoryServer.engine.Lawful .text Memory.store from Memory.engine_lawful .text _)
    (show (asksConc (str "dora")).self.checkManager = some (Vector.replicate 10 0) from rfl) rfl (by decide)

/-- The time of a request is copied over the end of its record. -/
theorem concReply_overrun :
    ¬ ∀ (lib : External Memory) (w : World Memory) (list : Vector Int 10) (content : List Request),
      lib.engine.Lawful .text Memory.store → w.self.checkManager = some list →
      w.db.store (str "connectionRequest") = requestTable content →
      (∀ r ∈ content, 20 ≤ (cString r.time).length ∧ 34 ∉ r.sender ∧ r.sender.length ≤ 256 ∧
        34 ∉ r.receiver ∧ r.receiver.length ≤ 256) → 34 ∉ w.self.userName →
      ConcReplied lib w ((requestsTo content w.self.userName (list.toArray.getD 2 0)).map Request.sender) := by
  intro replies
  have lawful : memoryServer.engine.Lawful .text Memory.store := Memory.engine_lawful .text _
  have replied := replies memoryServer (asksConc (str "bob")) (Vector.replicate 10 0) someRequests lawful rfl rfl
    (by decide) (by decide)
  obtain ⟨-, nothing⟩ := (concReplied_iff lawful rfl rfl (by decide)).mp replied
  exact absurd nothing (by decide)

end NineProject
