import NineProject.Fidelity
import NineProject.Readable

/-! # Which messages one fetch returns

`get_new_message` hands its cursor to the fetch of the first table, which leaves the
rowid of the latest insertion in it, whatever table that went to. Every other table
is fetched from there, so rows between the two cursors are skipped or returned
against the cursor that was asked for.
-/

namespace NineProject

open Bytes Sql

/-! ## Messages by key -/

/-- What the tables of these keys are asked for: the first from the cursor, every other
    from the latest insertion. -/
def askedFor (ms : Table) (last : Int) : Int → List Int → List Row
  | _, [] => []
  | c, k :: rest => messagesAbove ms k c ++ askedFor ms last last rest

/-- The messages of these tables above the cursor. -/
def messagesOf (ms : Table) (keys : List Int) (c : Int) : List Row :=
  ms.rows.filter fun r => (∃ k ∈ keys, r.cells[0]? = some (.int k)) ∧ c < r.rowid

theorem mem_messagesOf {ms : Table} {keys : List Int} {c : Int} {r : Row} :
    r ∈ messagesOf ms keys c ↔ r ∈ ms.rows ∧ (∃ k ∈ keys, r.cells[0]? = some (.int k)) ∧ c < r.rowid := by
  simp [messagesOf]

/-- Tables of different keys share no message. -/
theorem messagesOf_perm {ms : Table} {keys : List Int} (distinct : keys.Nodup) (c : Int) :
    (keys.flatMap fun k => messagesAbove ms k c).Perm (messagesOf ms keys c) := by
  induction keys with
  | nil => simp [messagesOf]
  | cons k rest ih =>
      obtain ⟨fresh, distinct⟩ := List.nodup_cons.mp distinct
      let first : Row → Bool := fun r => r.cells[0]? = some (.int k)
      have here : (messagesOf ms (k :: rest) c).filter first = messagesAbove ms k c := by
        rw [messagesOf, messagesAbove, List.filter_filter]
        refine List.filter_congr fun r _ => Bool.eq_iff_iff.mpr ?_
        simp only [first, Bool.and_eq_true, decide_eq_true_eq, List.mem_cons]
        constructor
        · rintro ⟨key, -, above⟩
          exact ⟨key, above⟩
        · rintro ⟨key, above⟩
          exact ⟨key, ⟨k, .inl rfl, key⟩, above⟩
      have others : (messagesOf ms (k :: rest) c).filter (fun r => !first r) = messagesOf ms rest c := by
        rw [messagesOf, messagesOf, List.filter_filter]
        refine List.filter_congr fun r _ => Bool.eq_iff_iff.mpr ?_
        simp only [first, Bool.and_eq_true, Bool.not_eq_true', decide_eq_true_eq, decide_eq_false_iff_not,
          List.mem_cons]
        constructor
        · rintro ⟨other, ⟨k', rfl | there, key⟩, above⟩
          · exact absurd key other
          · exact ⟨⟨k', there, key⟩, above⟩
        · rintro ⟨⟨k', there, key⟩, above⟩
          refine ⟨fun same => fresh ?_, ⟨k', .inr there, key⟩, above⟩
          rw [key] at same
          cases same
          exact there
      rw [List.flatMap_cons]
      refine ((ih distinct).append_left _).trans ?_
      rw [← here, ← others]
      exact List.filter_append_perm first _

theorem askedFor_last (ms : Table) (last : Int) (keys : List Int) :
    askedFor ms last last keys = keys.flatMap fun k => messagesAbove ms k last := by
  induction keys with
  | nil => rfl
  | cons k rest ih => rw [askedFor, ih, List.flatMap_cons]

/-- The messages of every table but the first are above both cursors or neither. -/
def CursorsAgree (ms : Table) (last c : Int) (keys : List Int) : Prop :=
  ∀ k ∈ keys.tail, ∀ r ∈ ms.rows, r.cells[0]? = some (.int k) → (c < r.rowid ↔ last < r.rowid)

theorem askedFor_agree {ms : Table} {last c : Int} {keys : List Int} (agree : CursorsAgree ms last c keys) :
    askedFor ms last c keys = keys.flatMap fun k => messagesAbove ms k c := by
  cases keys with
  | nil => rfl
  | cons k rest =>
      rw [askedFor, askedFor_last, List.flatMap_cons]
      congr 1
      refine List.flatMap_congr fun k' member => List.filter_congr fun r kept => Bool.eq_iff_iff.mpr ?_
      simp only [decide_eq_true_eq]
      exact and_congr_right fun key => (agree k' member r kept key).symm

theorem resultOf_same {r r' : Row} {k k' : Int} (key : r.cells[0]? = some (.int k))
    (key' : r'.cells[0]? = some (.int k')) (same : resultOf r = resultOf r') : r.rowid = r'.rowid ∧ k = k' := by
  refine ⟨congrArg ResultRow.rowid same, ?_⟩
  have shown := congrArg (fun row => row.argv[0]?) same
  simp only [resultOf, List.getElem?_map, key, key', Option.map_some, Value.render, Option.some.injEq] at shown
  exact Decimal.ofInt_injective shown

/-- The messages above the cursor are those that are asked for exactly when the two
    cursors agree on every table but the first. -/
theorem askedFor_perm_iff {ms : Table} {last c : Int} {keys : List Int} (distinct : keys.Nodup) :
    ((askedFor ms last c keys).map resultOf).Perm ((messagesOf ms keys c).map resultOf) ↔
      CursorsAgree ms last c keys := by
  constructor
  · intro same k later r kept key
    have member : k ∈ keys := List.mem_of_mem_tail later
    cases keys with
    | nil => cases member
    | cons first rest =>
        have fresh := (List.nodup_cons.mp distinct).1
        rw [askedFor, askedFor_last] at same
        constructor
        · intro above
          have wanted : resultOf r ∈ (messagesOf ms (first :: rest) c).map resultOf :=
            List.mem_map_of_mem (mem_messagesOf.mpr ⟨kept, ⟨k, member, key⟩, above⟩)
          obtain ⟨r', got, shown⟩ := List.mem_map.mp (same.mem_iff.mpr wanted)
          rcases List.mem_append.mp got with now | then_
          · obtain ⟨-, key', -⟩ := mem_messagesAbove.mp now
            cases (resultOf_same key' key shown).2
            exact absurd later fresh
          · obtain ⟨k', -, there⟩ := List.mem_flatMap.mp then_
            obtain ⟨-, key', beyond⟩ := mem_messagesAbove.mp there
            rwa [(resultOf_same key' key shown).1] at beyond
        · intro beyond
          have got : resultOf r ∈ (messagesAbove ms first c ++
              rest.flatMap fun k => messagesAbove ms k last).map resultOf := by
            refine List.mem_map_of_mem (List.mem_append_right _ (List.mem_flatMap.mpr ⟨k, later, ?_⟩))
            exact mem_messagesAbove.mpr ⟨kept, key, beyond⟩
          obtain ⟨r', wanted, shown⟩ := List.mem_map.mp (same.mem_iff.mp got)
          obtain ⟨-, -, above⟩ := mem_messagesOf.mp wanted
          have rowid : r'.rowid = r.rowid := congrArg ResultRow.rowid shown
          rwa [rowid] at above
  · intro agree
    rw [askedFor_agree agree]
    exact (messagesOf_perm distinct c).map resultOf

/-- As many messages are asked for as there are only where the cursors agree: the later of
    the two leaves out what the other finds. -/
theorem askedFor_length_iff {ms : Table} {last c : Int} {keys : List Int} (distinct : keys.Nodup) :
    (askedFor ms last c keys).length = (messagesOf ms keys c).length ↔ CursorsAgree ms last c keys := by
  have fewer : ∀ {low high : Int}, low ≤ high → ∀ keys : List Int,
      (keys.flatMap fun k => messagesAbove ms k high).Sublist (keys.flatMap fun k => messagesAbove ms k low) := by
    intro low high le keys
    refine List.Sublist.flatMap_right keys fun k _ => List.monotone_filter_right _ fun r above => ?_
    simp only [decide_eq_true_eq] at above ⊢
    exact ⟨above.1, by omega⟩
  constructor
  · intro same
    rw [← askedFor_perm_iff distinct]
    refine List.Perm.map resultOf (List.Perm.trans ?_ (messagesOf_perm distinct c))
    rw [← (messagesOf_perm distinct c).length_eq] at same
    cases keys with
    | nil => exact List.Perm.refl _
    | cons k rest =>
        rw [askedFor, askedFor_last, List.flatMap_cons] at same ⊢
        rw [List.length_append, List.length_append, Nat.add_left_cancel_iff] at same
        rcases le_total c last with le | le
        · rw [(fewer le rest).eq_of_length same]
        · rw [(fewer le rest).eq_of_length same.symm]
  · intro agree
    rw [askedFor_agree agree]
    exact (messagesOf_perm distinct c).length_eq

/-! ## One fetch -/

section
variable {σ : Type} {lib : External σ} {numeric : Str → Value} {view : σ → Store}

/-- Where the statements are read as they are meant, these are the messages asked for. -/
theorem messagesAsked_eq (lawful : lib.engine.Lawful numeric view) {db : σ}
    (columns : (view db (str "ms")).columns = msColumns) (c : Int) (keys : List Int) :
    messagesAsked lib.engine db c keys =
      (askedFor (view db (str "ms")) (wrap 32 (lib.engine.lastInsertRowid db)) c keys).map resultOf := by
  induction keys generalizing c with
  | nil => rfl
  | cons k rest ih =>
      rw [messagesAsked, fetch_exec lawful k c columns, askedFor, List.map_append]
      exact congrArg _ (ih _)

theorem askedFor_keyed {ms : Table} {last c : Int} {keys : List Int} {r : Row} (asked : r ∈ askedFor ms last c keys) :
    ∃ k ∈ keys, r.cells[0]? = some (.int k) := by
  induction keys generalizing c with
  | nil => cases asked
  | cons k rest ih =>
      rcases List.mem_append.mp asked with here | later
      · exact ⟨k, List.mem_cons_self, (mem_messagesAbove.mp here).2.1⟩
      · obtain ⟨k', member, key⟩ := ih later
        exact ⟨k', List.mem_cons_of_mem _ member, key⟩

/-- The entry is one of this message: it has the key of its table, and its time. -/
def EntryOf (lib : External σ) (r : Row) (e : List Byte × List Byte) : Prop :=
  r.cells[0]? = some (.int (messageOf e).1) ∧ TimeOf lib r (MsOut.ofBytes e.1).time

/-- What the fetch appends decodes to one entry for each message of these tables above the
    cursor, and for no other, and the entries are counted. -/
def Complete (lib : External σ) (ms : Table) (p : PBuffer) (keys : List Int) (c : Int)
    (ran : Ran σ Fault Fetched) : Prop :=
  ∃ f es rows, ran.result = .ok f ∧ Appended p f.buf es ∧ rows.Perm (messagesOf ms keys c) ∧
    List.Forall₂ (EntryOf lib) rows es ∧ f.count = es.length

/-- A fetch is complete exactly when on every table but the first the cursor that is left
    agrees with the one that was asked for, each message can be read, and the buffer has
    room for their entries. -/
theorem getNewMessage_complete_iff (lawful : lib.engine.Lawful numeric view) {db db' : σ} {user : Str}
    {keys : List Int} {texts : List Str} (listed : (Qr.getTable user).run lib.engine db = ⟨.ok keys, db', texts⟩)
    (distinct : keys.Nodup) (columns : (view db' (str "ms")).columns = msColumns) {p : PBuffer}
    (int : p.data.length < 2 ^ 31) (c : Int) :
    Complete lib (view db' (str "ms")) p keys c ((Qr.getNewMessage lib p user c).run lib.engine db) ↔
      CursorsAgree (view db' (str "ms")) (wrap 32 (lib.engine.lastInsertRowid db')) c keys ∧
        (∀ r ∈ messagesOf (view db' (str "ms")) keys c, MessageReadable lib (resultOf r)) ∧
          p.RoomFor (keys.flatMap fun k => messageSizes (view db' (str "ms")) k c) := by
  have result : ((Qr.getNewMessage lib p user c).run lib.engine db).result =
      ((Qr.getNewMessageInTables lib p c keys).run lib.engine db').result := by
    rw [Qr.getNewMessage, Program.run_bind, listed]
  have inRange : ∀ k ∈ keys, InRange 32 k := fun k member => by
    have read : ((Qr.getTable user).run lib.engine db).result = .ok keys := congrArg Ran.result listed
    rw [(getTable_ok.mp read).2] at member
    exact keysOf_inRange member
  let last := wrap 32 (lib.engine.lastInsertRowid db')
  have asked := messagesAsked_eq lawful columns c keys
  have keyed : ∀ r ∈ askedFor (view db' (str "ms")) last c keys, ∃ k, InRange 32 k ∧ r.cells[0]? = some (.int k) :=
    fun r member => by
      obtain ⟨k, known, key⟩ := askedFor_keyed member
      exact ⟨k, inRange k known, key⟩
  have entered : ∀ r e, r ∈ askedFor (view db' (str "ms")) last c keys → msParts lib (resultOf r) = .ok e →
      EntryOf lib r e := fun r e member made => by
    obtain ⟨k, int, key⟩ := keyed r member
    obtain ⟨-, decoded, time⟩ := msParts_found int key made
    exact ⟨by rw [key, decoded], time⟩
  have ends : (∃ got, eachRow (Qr.messageEntry lib) (p, 0) ((askedFor (view db' (str "ms")) last c keys).map resultOf) =
      .ok got) ↔ _ := (messageEntry_enters lib).ends_iff
  rw [List.forall_mem_map] at ends
  have wanted : (keys.flatMap fun k => messagesAbove (view db' (str "ms")) k c).Perm _ := messagesOf_perm distinct c
  have sizes : ((keys.flatMap fun k => messagesAbove (view db' (str "ms")) k c).map resultOf).flatMap messageLengths =
      keys.flatMap fun k => messageSizes (view db' (str "ms")) k c := by
    rw [List.map_flatMap, List.flatMap_assoc]
    exact List.flatMap_congr fun k _ => messageLengths_found
  constructor
  · rintro ⟨f, es, rows, ran, appended, perm, entries, count⟩
    rw [result] at ran
    obtain ⟨made, -⟩ := newMessages_ok.mp ⟨f.lastCheck, ran⟩
    rw [asked] at made
    obtain ⟨es', -, all, number⟩ := entries_appended int keyed made
    -- as many entries as messages: then no cursor has left one out or let one in
    have length : (askedFor (view db' (str "ms")) last c keys).length = (messagesOf (view db' (str "ms")) keys c).length := by
      have total := perm.length_eq.symm.trans entries.length_eq
      omega
    have agree := (askedFor_length_iff distinct).mp length
    obtain ⟨readable, room⟩ := ends.mp ⟨_, made⟩
    rw [askedFor_agree agree] at readable room
    rw [sizes] at room
    exact ⟨agree, fun r member => readable r (wanted.mem_iff.mpr member), room⟩
  · rintro ⟨agree, readable, room⟩
    have same := askedFor_agree agree
    obtain ⟨⟨b, n⟩, made⟩ := ends.mpr (by
      rw [same, sizes]
      exact ⟨fun r member => readable r (wanted.mem_iff.mp member), room⟩)
    obtain ⟨es, appended, all, number⟩ := entries_appended int keyed made
    obtain ⟨left, ran⟩ := newMessages_ok.mpr ⟨asked ▸ made, rfl⟩
    refine ⟨_, es, askedFor (view db' (str "ms")) last c keys, result.trans ran, appended, same ▸ wanted, ?_, ?_⟩
    · have both := List.forall₂_and_left _ _ |>.mpr ⟨fun r member => member, all⟩
      exact both.imp fun r e h => entered r e h.1 h.2
    · show n = _
      rw [number, all.length_eq]

end

/-! ## Two tables -/

/-- Ann is in tables 1 and 2, with one message in each. -/
def annTwoTables (last : Int) : Memory :=
  ⟨tables [
    (str "part", [⟨1, [.int 1, .text (str "ann"), .int 0]⟩, ⟨2, [.int 2, .text (str "ann"), .int 0]⟩]),
    (str "ms", [⟨1, [.int 1, .text (str "7"), .text (str "hi"), .text someTime, .int 0]⟩,
      ⟨2, [.int 2, .text (str "7"), .text (str "you"), .text someTime, .int 0]⟩])], last⟩

theorem getNewMessage_complete_two :
    Complete memoryServer ((annTwoTables 0).store (str "ms")) emptyBuffer [1, 2] 0
        ((Qr.getNewMessage memoryServer emptyBuffer (str "ann") 0).run memoryServer.engine (annTwoTables 0)) ↔
      CursorsAgree ((annTwoTables 0).store (str "ms")) (wrap 32 0) 0 [1, 2] ∧
        (∀ r ∈ messagesOf ((annTwoTables 0).store (str "ms")) [1, 2] 0, MessageReadable memoryServer (resultOf r)) ∧
          emptyBuffer.RoomFor ([1, 2].flatMap fun k => messageSizes ((annTwoTables 0).store (str "ms")) k 0) :=
  getNewMessage_complete_iff (Memory.engine_lawful .text _) (by rfl) (by decide) rfl emptyBuffer_int 0

/-- The latest insertion is the tenth, and the fetch skips Ann's message in table 2. -/
theorem message_skipped :
    ¬ ∀ (db db' : Memory) (user : Str) (keys : List Int) (texts : List Str) (p : PBuffer) (c : Int),
      (Qr.getTable user).run memoryServer.engine db = ⟨.ok keys, db', texts⟩ → keys.Nodup →
      (db'.store (str "ms")).columns = msColumns →
      (∀ r ∈ (db'.store (str "ms")).rows, MessageReadable memoryServer (resultOf r)) → p.data.length < 2 ^ 31 →
      p.RoomFor (keys.flatMap fun k => messageSizes (db'.store (str "ms")) k c) →
      Complete memoryServer (db'.store (str "ms")) p keys c
        ((Qr.getNewMessage memoryServer p user c).run memoryServer.engine db) := by
  intro complete
  obtain ⟨f, es, rows, ran, -, perm, entries, count⟩ := complete (annTwoTables 10) (annTwoTables 10) (str "ann") [1, 2] _
    emptyBuffer 0 rfl (by decide) rfl (by decide +kernel) emptyBuffer_int (by decide +kernel)
  have counted : ((Qr.getNewMessage memoryServer emptyBuffer (str "ann") 0).run memoryServer.engine
      (annTwoTables 10)).result.toOption.map Fetched.count = some 1 := by decide +kernel
  have wanted : (messagesOf ((annTwoTables 10).store (str "ms")) [1, 2] 0).length = 2 := by decide +kernel
  rw [ran] at counted
  simp only [Except.toOption, Option.map_some, Option.some.injEq] at counted
  have length := perm.length_eq.symm.trans entries.length_eq
  omega

end NineProject
