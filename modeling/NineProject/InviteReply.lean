import NineProject.Fidelity
import NineProject.Replies

/-! # The reply with a user's invites

What a client decodes from the reply to GetIvt is what the query finds, each row as the
C strings of its columns show it. The query asks for the target in double quotes: a user
who is called like a column gets the rows in which the two columns agree.
-/

namespace NineProject

open Bytes Sql Effect

/-! ## Rows of `invite` -/

structure Invite where
  rowid : Int
  target : Str
  tableKey : Int
  sender : Str
  time : Str
  deriving DecidableEq, Repr

/-- The columns of `invite`, in the order of `IvtDsc`. -/
def inviteColumns : List Column :=
  [⟨str "target", .text⟩, ⟨str "tableKey", .numeric⟩, ⟨str "sender", .text⟩, ⟨str "time", .numeric⟩]

namespace Invite

def row (i : Invite) : Row := ⟨i.rowid, [.text i.target, .int i.tableKey, .text i.sender, .text i.time]⟩

/-- What its target is to learn of it. -/
def shown (i : Invite) : Int × Str × List Byte := (i.tableKey, i.sender, i.time.take 20)

end Invite

/-- The table with these rows. -/
def inviteTable (content : List Invite) : Table := ⟨inviteColumns, content.map Invite.row⟩

/-- The invites of a user, in row order. -/
def invitesOf (content : List Invite) (user : Str) : List Invite := content.filter fun i => i.target = user

/-- The rows that are read as having the user for their target. -/
def invitesFound (numeric : Str → Value) (content : List Invite) (user : Str) : List Invite :=
  if 0 ∈ user then []
  else content.filter fun i => (inviteTable content).meets numeric i.row ⟨str "target", .eq, .quoted user⟩

/-! ## Entries -/

def StrtIvtResponse.layout : Layout := ⟨StrtIvtResponse.size, 4⟩

/-- What a client makes of an entry. -/
def ivtOf (e : List Byte × List Byte) : Int × Str × List Byte := (field e.1 0 4, e.2, (e.1.drop 8).take 20)

theorem StrtIvtResponse.framed {r : StrtIvtResponse} {text : Str} (count : r.senderIdSize = text.length)
    (int : text.length < 2 ^ 31) : layout.Framed (r.toBytes, text) := by
  have inRange : InRange 32 r.senderIdSize := by
    rw [count]
    exact ⟨by omega, by norm_num; omega⟩
  refine ⟨r.toBytes_length, ?_⟩
  have second := field_append_right (ofInt 4 r.tableKey)
    (ofInt 4 r.senderIdSize ++ poke (List.replicate 20 0) 0 r.time) 0 4
  rw [ofInt_length, field_head _ (by decide) inRange] at second
  show field r.toBytes 4 4 = _
  rw [← count, toBytes, List.append_assoc]
  exact second

theorem ivtOf_toBytes {r : StrtIvtResponse} (key : InRange 32 r.tableKey) (text : Str) :
    ivtOf (r.toBytes, text) = (r.tableKey, text, poke (List.replicate 20 0) 0 r.time) := by
  have first : field r.toBytes 0 4 = r.tableKey := by
    rw [StrtIvtResponse.toBytes, List.append_assoc]
    exact field_head _ (by decide) key
  have last : (r.toBytes.drop 8).take 20 = poke (List.replicate 20 0) 0 r.time := by
    have front : (ofInt 4 r.tableKey ++ ofInt 4 r.senderIdSize).length = 8 := by simp
    rw [StrtIvtResponse.toBytes, ← front, List.drop_left, List.take_of_length_le (by simp)]
  simp only [ivtOf, first, last]

section
variable {σ : Type} (lib : External σ)

/-- The twenty bytes at the time of an invite. -/
def Invite.stamp (i : Invite) : List Byte :=
  poke (List.replicate 20 0) 0 ((cString i.time ++ 0 :: lib.behind (cString i.time)).take 20)

/-- What the C strings of its columns show of an invite. -/
def Invite.copied (i : Invite) : Int × Str × List Byte := (i.tableKey, cString i.sender, i.stamp lib)

/-- The entry of an invite. -/
def Invite.entry (i : Invite) : List Byte × List Byte :=
  (StrtIvtResponse.toBytes ⟨i.tableKey, (cString i.sender).length,
    (cString i.time ++ 0 :: lib.behind (cString i.time)).take 20⟩, cString i.sender)

/-- A time that is long enough is copied as it is. -/
theorem Invite.stamp_eq {i : Invite} (long : 20 ≤ (cString i.time).length) : i.stamp lib = i.time.take 20 := by
  obtain ⟨rest, split⟩ : cString i.time <+: i.time := List.takeWhile_prefix _
  have front : (cString i.time ++ 0 :: lib.behind (cString i.time)).take 20 = i.time.take 20 := by
    rw [List.take_append_of_le_length long]
    conv_rhs => rw [← split, List.take_append_of_le_length long]
  have length : (i.time.take 20).length = 20 := by
    have whole := congrArg List.length split
    simp only [List.length_append] at whole
    simp only [List.length_take]
    omega
  have copy : ((poke (List.replicate 20 0) (0 : Nat) (i.time.take 20)).drop 0).take (i.time.take 20).length =
      i.time.take 20 := poke_inside (by rw [length, List.length_replicate])
  rw [stamp, front]
  rw [length, List.drop_zero, List.take_of_length_le (by simp)] at copy
  exact copy

variable {lib}

theorem cString_length_le (s : Str) : (cString s).length ≤ s.length := (List.takeWhile_sublist _).length_le

theorem ivtParts_row {i : Invite} (key : InRange 32 i.tableKey) (short : i.sender.length ≤ 256) :
    ivtParts lib (resultOf i.row) = .ok (i.entry lib) := by
  have sender : argText (resultOf i.row) 2 = .ok (cString i.sender) := argText_eq rfl
  have digits : argText (resultOf i.row) 1 = .ok (Decimal.ofInt i.tableKey) := by
    rw [argText_eq (t := Decimal.ofInt i.tableKey) rfl, cString_fixed (Decimal.ofInt_nulFree _)]
  have number : argInt (resultOf i.row) 1 = .ok i.tableKey := by
    simp [argInt, digits, Except.bind, Decimal.stoi_ofInt key]
  have time : argBytes lib.behind (resultOf i.row) 3 20 =
      .ok ((cString i.time ++ 0 :: lib.behind (cString i.time)).take 20) := by
    rw [argBytes, argText_eq (t := i.time) rfl]
    rfl
  have length := cString_length_le i.sender
  have size : wrap 32 (cString i.sender).length = (cString i.sender).length :=
    wrap_of_inRange (by decide) ⟨by omega, by norm_num; omega⟩
  simp only [ivtParts, sender, number, time, bind, Except.bind, pure, Except.pure, size, Invite.entry]

theorem Invite.ivtOf_entry {i : Invite} (key : InRange 32 i.tableKey) : ivtOf (i.entry lib) = i.copied lib :=
  ivtOf_toBytes key _

theorem Invite.entry_framed {i : Invite} (short : i.sender.length ≤ 256) :
    StrtIvtResponse.layout.Framed (i.entry lib) :=
  StrtIvtResponse.framed rfl (by have length := cString_length_le i.sender; omega)

/-! ## What the client decodes -/

variable {numeric : Str → Value} {view : σ → Store}

/-- The statement of `get_new_ivt_req` hands the callback what is found. -/
theorem invites_exec {E : Engine σ} (lawful : E.Lawful numeric view) {user : Str} {db : σ} {content : List Invite}
    (plain : 34 ∉ user) (holds : view db (str "invite") = inviteTable content) :
    E.exec db (selectQuery .invite (0, .string user) Compare.equal SelectTarget.all) =
      (db, (invitesFound numeric content user).map fun i => resultOf i.row) := by
  have column : IsCondition .invite 0 := .inr (show QueryDescriptor.invite.dsc.HasColumn 0 by decide)
  have asked : IsTarget .invite SelectTarget.all := .inl rfl
  rw [selectText_exec lawful column asked rfl (by decide) plain db]
  by_cases zero : 0 ∈ user
  · simp only [if_pos zero, invitesFound, List.map_nil]
  · have table : view db QueryDescriptor.invite.dsc.getTableName = inviteTable content := holds
    have rows : (inviteTable content).rows = content.map Invite.row := rfl
    simp only [if_neg zero, invitesFound, Select.rows, Table.shows, table, rows, List.filter_map, List.map_map, List.all_cons,
      List.all_nil, Bool.and_true]
    rfl

/-- The bytes decode to these invites, and every copy that made them of the rows stayed
    inside the allocation. -/
def IvtDecodes (lib : External σ) (ivts : List (Int × Str × List Byte)) (rows : List ResultRow)
    (bytes : List Byte) : Prop :=
  (readReply StrtIvtResponse.layout bytes).map (fun es => es.map ivtOf) = some ivts ∧
    CopiesInside (ivtParts lib) rows

/-- The handler ends by sending a reply that a client decodes to these invites. -/
def IvtReplied (lib : External σ) (w : World σ) (ivts : List (Int × Str × List Byte)) : Prop :=
  Returns (responseReqGetNewIvt lib none) w fun _ v => Replied .getIvt (IvtDecodes lib ivts) v

/-- What is found shows what the user's invites hold, and the reply to it ends within the
    last block. -/
def IvtReadable (lib : External σ) (numeric : Str → Value) (content : List Invite) (user : Str) : Prop :=
  (invitesFound numeric content user).map (Invite.copied lib) = (invitesOf content user).map Invite.shown ∧
    Pchd.size + ((invitesFound numeric content user).map fun i =>
      StrtIvtResponse.size + (cString i.sender).length).sum ≤ 2 ^ 30

theorem invitesFound_subset {content : List Invite} {user : Str} {i : Invite}
    (found : i ∈ invitesFound numeric content user) : i ∈ content := by
  unfold invitesFound at found
  split at found
  · cases found
  · exact (List.mem_filter.mp found).1

/-- The reply decodes to these invites exactly when they are what is copied of those found,
    and it ends within the last block. -/
theorem ivtReplied_iff (lawful : lib.engine.Lawful numeric view) {w : World σ} {h : Pchd} {rest : List Pchd}
    {list : Vector Int 10} {content : List Invite} (queue : w.self.pc.hQue = h :: rest)
    (manager : w.self.checkManager = some list) (holds : view w.db (str "invite") = inviteTable content)
    (keys : ∀ i ∈ content, InRange 32 i.tableKey) (senders : ∀ i ∈ content, i.sender.length ≤ 256)
    (plain : 34 ∉ w.self.userName) {ivts : List (Int × Str × List Byte)} :
    IvtReplied lib w ivts ↔ (invitesFound numeric content w.self.userName).map (Invite.copied lib) = ivts ∧
      Pchd.size + ((invitesFound numeric content w.self.userName).map fun i =>
        StrtIvtResponse.size + (cString i.sender).length).sum ≤ 2 ^ 30 := by
  have exec := invites_exec lawful plain holds
  have inside : ∀ i ∈ invitesFound numeric content w.self.userName, i ∈ content := fun i => invitesFound_subset
  unfold IvtReplied
  generalize invitesFound numeric content w.self.userName = found at exec inside ⊢
  have key : ∀ i ∈ found, InRange 32 i.tableKey := fun i member => keys i (inside i member)
  have short : ∀ i ∈ found, i.sender.length ≤ 256 := fun i member => senders i (inside i member)
  obtain ⟨bytes, replies, reads⟩ := rows_reply (inviteEntry_appends lib) exec
    (fun i member => ivtParts_row (key i member) (short i member)) (l := StrtIvtResponse.layout)
    (fun i member => Invite.entry_framed (short i member)) (by decide)
    (fun i member => (cString_length_le i.sender).trans (short i member))
    (h := fun n => { h with ack := 1, actionOrCommand := 1, count := wrap 32 n }) (fun _ => rfl)
  have shown : (found.map (Invite.entry lib)).map ivtOf = found.map (Invite.copied lib) := by
    rw [List.map_map]
    exact List.map_congr_left fun i member => Invite.ivtOf_entry (key i member)
  rw [returns_getNewIvt lib queue manager]
  simp only [replied_iff, Qr.getNewIvtReq_fetch]
  rw [replies, and_comm]
  refine and_congr_left fun room => ?_
  obtain ⟨read, copies⟩ := reads room
  simp only [IvtDecodes, read, Option.map_some, shown, copies, and_true, Option.some.injEq]

/-- The reply decodes to the invites of the user exactly when what is found shows them
    and ends within the last block. -/
theorem ivtReply_decodes_iff (lawful : lib.engine.Lawful numeric view) {w : World σ} {h : Pchd} {rest : List Pchd}
    {list : Vector Int 10} {content : List Invite} (queue : w.self.pc.hQue = h :: rest)
    (manager : w.self.checkManager = some list) (holds : view w.db (str "invite") = inviteTable content)
    (keys : ∀ i ∈ content, InRange 32 i.tableKey) (senders : ∀ i ∈ content, i.sender.length ≤ 256)
    (plain : 34 ∉ w.self.userName) :
    IvtReplied lib w ((invitesOf content w.self.userName).map Invite.shown) ↔
      IvtReadable lib numeric content w.self.userName :=
  ivtReplied_iff lawful queue manager holds keys senders plain

/-- For a name without zero bytes that is no column's, all of the user's invites are found,
    and they show what they hold if their senders have no zero bytes and their times are long enough. -/
theorem ivtReadable_plain {content : List Invite} {user : Str} (nulFree : 0 ∉ user)
    (noColumn : ¬ (inviteTable content).knows user) (senders : ∀ i ∈ content, 0 ∉ i.sender)
    (times : ∀ i ∈ content, 20 ≤ (cString i.time).length) :
    IvtReadable lib numeric content user ↔ Pchd.size + ((invitesOf content user).map fun i =>
      StrtIvtResponse.size + i.sender.length).sum ≤ 2 ^ 30 := by
  have found : invitesFound numeric content user = invitesOf content user := by
    rw [invitesFound, if_neg nulFree, invitesOf]
    refine List.filter_congr fun i _ => ?_
    have cell : (inviteTable content).value i.row (str "target") = some (.text i.target) := rfl
    rw [Bool.eq_iff_iff, Table.meets_text numeric rfl noColumn, cell]
    simp
  have inside : ∀ i ∈ invitesOf content user, i ∈ content := fun i member => (List.mem_filter.mp member).1
  have same : (invitesOf content user).map (Invite.copied lib) = (invitesOf content user).map Invite.shown :=
    List.map_congr_left fun i member => by
      rw [Invite.copied, Invite.stamp_eq lib (times i (inside i member)), cString_fixed (senders i (inside i member)),
        Invite.shown]
  have sizes : ((invitesOf content user).map fun i => StrtIvtResponse.size + (cString i.sender).length) =
      (invitesOf content user).map fun i => StrtIvtResponse.size + i.sender.length :=
    List.map_congr_left fun i member => by rw [cString_fixed (senders i (inside i member))]
  rw [IvtReadable, found, sizes]
  exact and_iff_right same

end

/-! ## Bob's invites -/

/-- Carl invites Bob to table 7 and Dora to table 8. -/
def someInvites : List Invite :=
  [⟨1, str "bob", 7, str "carl", someTime⟩, ⟨2, str "dora", 8, str "carl", someTime⟩]

/-- A user asks for invites. -/
def asksIvt (user : Str) : World Memory := askingFor user .getIvt [(str "invite", someInvites.map Invite.row)]

theorem ivtReply_decodes_bob :
    IvtReplied memoryServer (asksIvt (str "bob")) ((invitesOf someInvites (str "bob")).map Invite.shown) ↔
      IvtReadable memoryServer .text someInvites (str "bob") :=
  ivtReply_decodes_iff (show memoryServer.engine.Lawful .text Memory.store from Memory.engine_lawful .text _) rfl rfl
    rfl (by decide) (by decide) (by decide)

/-- A user who is called like the column is told of everybody's invites. -/
theorem ivtReply_others :
    ¬ ∀ (lib : External Memory) (w : World Memory) (content : List Invite), lib.engine.Lawful .text Memory.store →
      w.self.pc.hQue ≠ [] → w.self.checkManager.isSome → w.db.store (str "invite") = inviteTable content →
      (∀ i ∈ content, InRange 32 i.tableKey ∧ 20 ≤ i.time.length ∧ 34 ∉ i.target ∧ 34 ∉ i.sender ∧
        i.sender.length ≤ 256) → 34 ∉ w.self.userName →
      IvtReplied lib w ((invitesOf content w.self.userName).map Invite.shown) := by
  intro replies
  have lawful : memoryServer.engine.Lawful .text Memory.store := Memory.engine_lawful .text _
  have replied := replies memoryServer (asksIvt (str "target")) someInvites lawful (by decide) (by decide) rfl
    (by decide) (by decide)
  obtain ⟨shown, -⟩ := (ivtReplied_iff lawful rfl rfl rfl (by decide) (by decide) (by decide)).mp replied
  exact absurd shown (by decide)

end NineProject
