import NineProject.Base.Frames
import NineProject.Query

/-! # Entries made of rows

The callback of a fetch makes a record and a text of its row, and copies one behind the
other into the buffer it was given. So over all rows it fails only where a row cannot be
read, or where a copy would leave the memory of the buffer.
-/

namespace NineProject

open Bytes Sql

/-! ## Chunks behind each other -/

namespace PBuffer

variable {p q : PBuffer} {src : List Byte} {chunks : List (List Byte)}

/-- Chunks that are copied one behind the other. -/
def appendAll (p : PBuffer) (chunks : List (List Byte)) : Except Fault PBuffer := chunks.foldlM allocateInside p

theorem appendAll_cons {c : List Byte} :
    p.appendAll (c :: chunks) = .ok q ↔ ∃ mid, p.allocateInside c = .ok mid ∧ mid.appendAll chunks = .ok q :=
  bind_eq_ok

/-- They are copied exactly when there is room for them. -/
theorem appendAll_ends_iff : (∃ q, p.appendAll chunks = .ok q) ↔ p.RoomFor (chunks.map List.length) := by
  induction chunks generalizing p with
  | nil => exact ⟨fun _ => trivial, fun _ => ⟨p, rfl⟩⟩
  | cons c rest ih =>
      constructor
      · rintro ⟨q, ran⟩
        obtain ⟨mid, first, later⟩ := appendAll_cons.mp ran
        obtain ⟨room, one⟩ := allocateInside_eq_ok.mp first
        exact ⟨room, (roomFor_took one).mpr (ih.mp ⟨q, later⟩)⟩
      · rintro ⟨room, more⟩
        obtain ⟨mid, one, -⟩ := room_iff.mp room
        obtain ⟨q, later⟩ := ih.mpr ((roomFor_took one).mp more)
        exact ⟨q, appendAll_cons.mpr ⟨mid, allocateInside_eq_ok.mpr ⟨room, one⟩, later⟩⟩

/-- What was put into the buffer is recorded, and is in its memory. -/
structure Filled (p : PBuffer) : Prop where
  low : 0 ≤ p.nextInputPoint
  recorded : p.nextInputPoint ≤ p.size
  there : p.nextInputPoint ≤ p.data.length
  int : p.data.length < 2 ^ 31

/-- A chunk leaves a filled buffer, and itself at the end of it. -/
theorem allocateInside_filled (int : p.data.length < 2 ^ 31) (copied : p.allocateInside src = .ok q) :
    q.Filled ∧ q.nextInputPoint = p.nextInputPoint + src.length ∧
      (q.data.drop p.nextInputPoint.toNat).take src.length = src := by
  obtain ⟨room, done⟩ := allocateInside_eq_ok.mp copied
  obtain ⟨q', done', low, inside, old⟩ := room_iff.mp room
  obtain rfl : q = q' := Except.ok.inj (done.symm.trans done')
  obtain ⟨point, size, memory⟩ := allocateSome_sizes done
  have block : q.data.length < 2 ^ 31 := by
    split at memory
    · have high := (wrap32_inRange (p.size * 2)).2
      rw [← doubled, ← memory] at high
      exact_mod_cast high
    · omega
  -- a block is no longer than an `int` counts, so the position does not wrap
  have straight : q.nextInputPoint = p.nextInputPoint + src.length := by
    rw [point]
    exact wrap_of_inRange (by decide) ⟨by omega, by norm_num; omega⟩
  refine ⟨⟨by omega, ?_, by omega, block⟩, straight, allocateSome_stored done low inside⟩
  rw [size]
  split
  · next overflow =>
      rw [if_pos overflow] at memory
      omega
  · next fits =>
      rw [Overflows, ← point] at fits
      omega

theorem Filled.written_length (filled : p.Filled) : p.written.length = p.nextInputPoint.toNat := by
  have there := filled.there
  simp only [written, List.length_take]
  omega

/-- What a chunk finds in a filled buffer it leaves there. -/
theorem Filled.written_append (filled : p.Filled) (copied : p.allocateInside src = .ok q) :
    q.written = p.written ++ src := by
  obtain ⟨after, point, last⟩ := allocateInside_filled filled.int copied
  obtain ⟨low, recorded, there, int⟩ := filled
  have done := (allocateInside_eq_ok.mp copied).2
  have kept : q.data.take p.nextInputPoint.toNat = p.data.take p.nextInputPoint.toNat :=
    allocateSome_keeps done (by omega) (by omega) (by omega) (by have := after.there; omega)
  have position : q.nextInputPoint.toNat = p.nextInputPoint.toNat + src.length := by omega
  rw [written, position, List.take_add, kept, last, written]

theorem Filled.written_appendAll (filled : p.Filled) (copied : p.appendAll chunks = .ok q) :
    q.written = p.written ++ chunks.flatten := by
  induction chunks generalizing p with
  | nil =>
      cases copied
      simp
  | cons c rest ih =>
      obtain ⟨mid, first, later⟩ := appendAll_cons.mp copied
      have next := (allocateInside_filled filled.int first).1
      rw [ih next later, filled.written_append first, List.flatten_cons, List.append_assoc]

/-- Behind what the buffer held stand the chunks. -/
theorem appendAll_appended (int : p.data.length < 2 ^ 31) (copied : p.appendAll chunks = .ok q) :
    q.written.drop p.nextInputPoint.toNat = chunks.flatten := by
  cases chunks with
  | nil =>
      cases copied
      simp [written]
  | cons c rest =>
      obtain ⟨mid, first, later⟩ := appendAll_cons.mp copied
      obtain ⟨filled, point, last⟩ := allocateInside_filled int first
      have low := (allocateInside_eq_ok.mp first).1.1
      have position : mid.nextInputPoint.toNat = p.nextInputPoint.toNat + c.length := by omega
      have here : mid.written.drop p.nextInputPoint.toNat = c := by
        rw [written, position, List.drop_take, Nat.add_sub_cancel_left, last]
      have inside : p.nextInputPoint.toNat ≤ mid.written.length := by
        rw [filled.written_length]
        omega
      rw [filled.written_appendAll later, List.drop_append_of_le_length inside, here, List.flatten_cons]

end PBuffer

/-! ## A record and a text for every row -/

/-- The chunks of the entries, in order. -/
def chunksOf (es : List (List Byte × List Byte)) : List (List Byte) := es.flatMap fun e => [e.1, e.2]

theorem chunksOf_flatten (es : List (List Byte × List Byte)) : (chunksOf es).flatten = es.flatMap Layout.encode := by
  induction es with
  | nil => rfl
  | cons e rest ih =>
      rw [chunksOf, List.flatMap_cons, List.flatten_append, List.flatMap_cons, ← ih]
      simp [Layout.encode, chunksOf]

/-- The callback appends the record and the text it makes of a row. -/
def Appends (entry : PBuffer × Int → ResultRow → Except Fault (PBuffer × Int))
    (parts : ResultRow → Except Fault (List Byte × List Byte)) : Prop :=
  ∀ got row, entry got row = (parts row).bind fun e => Qr.appendEntry got e.1 e.2

section
variable {entry : PBuffer × Int → ResultRow → Except Fault (PBuffer × Int)}
  {parts : ResultRow → Except Fault (List Byte × List Byte)} {p q : PBuffer} {n m : Int} {rows : List ResultRow}

/-- Over all rows it makes an entry of each and appends them in order. -/
theorem Appends.eachRow (appends : Appends entry parts) : eachRow entry (p, n) rows = .ok (q, m) ↔
    ∃ es, List.Forall₂ (fun row e => parts row = .ok e) rows es ∧
      p.appendAll (chunksOf es) = .ok q ∧ m = n + rows.length := by
  induction rows generalizing p n with
  | nil =>
      constructor
      · intro ran
        cases ran
        exact ⟨[], .nil, rfl, by simp⟩
      · rintro ⟨es, none_, put, rfl⟩
        cases none_
        cases put
        simp [NineProject.eachRow]
  | cons row rest ih =>
      simp only [NineProject.eachRow, appends (p, n) row]
      constructor
      · intro ran
        obtain ⟨⟨mid, k⟩, took, others⟩ := bind_eq_ok.mp ran
        obtain ⟨e, made, added⟩ := bind_eq_ok.mp took
        obtain ⟨first, one, added⟩ := bind_eq_ok.mp added
        obtain ⟨second, two, same⟩ := bind_eq_ok.mp added
        cases same
        obtain ⟨es, all, put, rfl⟩ := ih.mp others
        refine ⟨e :: es, .cons made all, bind_eq_ok.mpr ⟨first, one, bind_eq_ok.mpr ⟨_, two, put⟩⟩, ?_⟩
        simp only [List.length_cons]
        push_cast
        ring
      · rintro ⟨es, all, put, rfl⟩
        cases all with
        | cons made all =>
            obtain ⟨first, one, put⟩ := bind_eq_ok.mp put
            obtain ⟨second, two, put⟩ := bind_eq_ok.mp put
            refine bind_eq_ok.mpr ⟨(second, n + 1), ?_, ih.mpr ⟨_, all, put, ?_⟩⟩
            · exact bind_eq_ok.mpr ⟨_, made, bind_eq_ok.mpr ⟨first, one, bind_eq_ok.mpr ⟨second, two, rfl⟩⟩⟩
            · simp only [List.length_cons]
              push_cast
              ring

theorem made_unique {es es' : List (List Byte × List Byte)}
    (one : List.Forall₂ (fun row e => parts row = .ok e) rows es)
    (two : List.Forall₂ (fun row e => parts row = .ok e) rows es') : es' = es := by
  induction one generalizing es' with
  | nil =>
      cases two
      rfl
  | cons made _ ih =>
      cases two with
      | cons made' all => rw [Except.ok.inj (made.symm.trans made'), ih all]

end

/-- A callback that appends an entry of every row it can read, of chunks of these lengths. -/
structure Enters (entry : PBuffer × Int → ResultRow → Except Fault (PBuffer × Int))
    (parts : ResultRow → Except Fault (List Byte × List Byte)) (Readable : ResultRow → Prop)
    (lengths : ResultRow → List Nat) : Prop where
  appends : Appends entry parts
  reads : ∀ row, (∃ e, parts row = .ok e) ↔ Readable row
  lengths : ∀ row e, parts row = .ok e → [e.1.length, e.2.length] = lengths row

section
variable {entry : PBuffer × Int → ResultRow → Except Fault (PBuffer × Int)}
  {parts : ResultRow → Except Fault (List Byte × List Byte)} {Readable : ResultRow → Prop}
  {lengths : ResultRow → List Nat} {p : PBuffer} {rows : List ResultRow}

/-- Rows that can be read have their entries. -/
theorem Enters.parts_iff (enters : Enters entry parts Readable lengths) :
    (∃ es, List.Forall₂ (fun row e => parts row = .ok e) rows es) ↔ ∀ row ∈ rows, Readable row := by
  induction rows with
  | nil => simp
  | cons row rest ih =>
      rw [List.forall_mem_cons, ← enters.reads row, ← ih]
      constructor
      · rintro ⟨es, all⟩
        cases all with
        | cons made others => exact ⟨⟨_, made⟩, ⟨_, others⟩⟩
      · rintro ⟨⟨e, made⟩, ⟨es, others⟩⟩
        exact ⟨e :: es, .cons made others⟩

theorem Enters.chunks (enters : Enters entry parts Readable lengths) {es : List (List Byte × List Byte)}
    (all : List.Forall₂ (fun row e => parts row = .ok e) rows es) :
    (chunksOf es).map List.length = rows.flatMap lengths := by
  induction all with
  | nil => rfl
  | cons made _ ih =>
      rw [List.flatMap_cons, ← enters.lengths _ _ made, ← ih]
      simp [chunksOf]

/-- The entries of the rows are appended exactly when each row can be read and the buffer
    has room for all of them. -/
theorem Enters.ends_iff (enters : Enters entry parts Readable lengths) {n : Int} :
    (∃ got, eachRow entry (p, n) rows = .ok got) ↔
      (∀ row ∈ rows, Readable row) ∧ p.RoomFor (rows.flatMap lengths) := by
  rw [← enters.parts_iff]
  constructor
  · rintro ⟨⟨q, m⟩, ran⟩
    obtain ⟨es, all, put, -⟩ := enters.appends.eachRow.mp ran
    exact ⟨⟨es, all⟩, enters.chunks all ▸ PBuffer.appendAll_ends_iff.mp ⟨q, put⟩⟩
  · rintro ⟨⟨es, all⟩, room⟩
    obtain ⟨q, put⟩ := PBuffer.appendAll_ends_iff.mpr ((enters.chunks all).symm ▸ room)
    exact ⟨(q, n + rows.length), enters.appends.eachRow.mpr ⟨es, all, put, rfl⟩⟩

end

/-! ## The rows of the three fetches -/

/-- The statement of `get_new_message_in_table`. -/
def fetchText (tableKey lastCheck : Int) : Str :=
  selectQuery2 .message (0, .int tableKey) (-2, .int lastCheck) 2 0 (-1)

section
variable {σ : Type} (lib : External σ)

/-- The bytes at the time of a row. -/
def stampAt (row : ResultRow) (i : Nat) : List Byte := (shown row i ++ 0 :: lib.behind (shown row i)).take 20

/-- The callback for messages can take the row. -/
def MessageReadable (row : ResultRow) : Prop :=
  ShowsInt row 0 ∧ Shows row 1 ∧ Shows row 3 ∧ (lib.timeFromString (stampAt lib row 3)).isSome

instance (row : ResultRow) : Decidable (MessageReadable lib row) := inferInstanceAs (Decidable (_ ∧ _))

def messageLengths (row : ResultRow) : List Nat := [MsOut.size, (shown row 0).length]

/-- The record and the text that the callback makes of a message. -/
def msParts (row : ResultRow) : Except Fault (List Byte × List Byte) :=
  (Qr.messageParts lib row).map fun made => (made.1.toBytes, made.2)

theorem messageParts_ok {row : ResultRow} {made : MsOut × Str} : Qr.messageParts lib row = .ok made ↔
    ∃ key time, Shows row 0 ∧ Decimal.stoi (shown row 0) = some key ∧ Shows row 1 ∧ Shows row 3 ∧
      lib.timeFromString (stampAt lib row 3) = some time ∧
      made = (⟨key, 0, wrap 16 (shown row 0).length, 0, 0, wrap 16 (shown row 0).length, time⟩, shown row 0) := by
  constructor
  · intro ran
    obtain ⟨text, first, ran⟩ := bind_eq_ok.mp ran
    obtain ⟨sender, second, ran⟩ := bind_eq_ok.mp ran
    obtain ⟨key, number, ran⟩ := bind_eq_ok.mp ran
    obtain ⟨stamp, bytes, ran⟩ := bind_eq_ok.mp ran
    obtain ⟨there, rfl⟩ := argText_ok.mp first
    obtain ⟨-, value⟩ := argInt_ok.mp number
    obtain ⟨shows_, rfl⟩ := argBytes_ok.mp bytes
    cases parsed : lib.timeFromString (stampAt lib row 3) with
    | none =>
        rw [stampAt] at parsed
        simp [parsed] at ran
    | some time =>
        rw [stampAt] at parsed
        simp only [parsed, Except.ok.injEq] at ran
        exact ⟨key, time, there, value, (argText_ok.mp second).1, shows_, rfl, ran.symm⟩
  · rintro ⟨key, time, there, value, second, shows_, parsed, rfl⟩
    refine bind_eq_ok.mpr ⟨_, argText_of_shows there, bind_eq_ok.mpr ⟨_, argText_of_shows second,
      bind_eq_ok.mpr ⟨key, argInt_ok.mpr ⟨there, value⟩, bind_eq_ok.mpr ⟨_, argBytes_ok.mpr ⟨shows_, rfl⟩, ?_⟩⟩⟩⟩
    rw [stampAt] at parsed
    simp only [parsed]

theorem messageEntry_enters :
    Enters (Qr.messageEntry lib) (msParts lib) (MessageReadable lib) messageLengths where
  appends := fun got row => by
    show (Qr.messageParts lib row).bind _ = ((Qr.messageParts lib row).map _).bind _
    cases Qr.messageParts lib row <;> rfl
  reads := fun row => by
    constructor
    · rintro ⟨e, ran⟩
      unfold msParts at ran
      cases made : Qr.messageParts lib row with
      | error f => simp [made, Except.map] at ran
      | ok parts =>
          obtain ⟨key, time, first, value, second, shows_, parsed, -⟩ := (messageParts_ok lib).mp made
          exact ⟨⟨first, by simp [value]⟩, second, shows_, by simp [parsed]⟩
    · rintro ⟨⟨first, value⟩, second, shows_, parsed⟩
      obtain ⟨key, value⟩ := Option.isSome_iff_exists.mp value
      obtain ⟨time, parsed⟩ := Option.isSome_iff_exists.mp parsed
      have made := (messageParts_ok lib).mpr ⟨key, time, first, value, second, shows_, parsed, rfl⟩
      exact ⟨_, by rw [msParts, made]; rfl⟩
  lengths := fun row e ran => by
    unfold msParts at ran
    cases made : Qr.messageParts lib row with
    | error f => simp [made, Except.map] at ran
    | ok parts =>
        obtain ⟨key, time, -, -, -, -, -, rfl⟩ := (messageParts_ok lib).mp made
        rw [made] at ran
        cases ran
        simp [messageLengths]

/-- The callback for invites can take the row. -/
def InviteReadable (row : ResultRow) : Prop := Shows row 2 ∧ ShowsInt row 1 ∧ Shows row 3

instance (row : ResultRow) : Decidable (InviteReadable row) := inferInstanceAs (Decidable (_ ∧ _))

def inviteLengths (row : ResultRow) : List Nat := [StrtIvtResponse.size, (shown row 2).length]

/-- The record and the text that the callback makes of an invite. -/
def ivtParts (row : ResultRow) : Except Fault (List Byte × List Byte) := do
  let sender ← argText row 2
  let tableKey ← argInt row 1
  let time ← argBytes lib.behind row 3 20
  pure (StrtIvtResponse.toBytes ⟨tableKey, wrap 32 sender.length, time⟩, sender)

theorem ivtParts_ok {row : ResultRow} {made : List Byte × List Byte} : ivtParts lib row = .ok made ↔
    ∃ key, Shows row 2 ∧ Shows row 1 ∧ Decimal.stoi (shown row 1) = some key ∧ Shows row 3 ∧
      made = (StrtIvtResponse.toBytes ⟨key, wrap 32 (shown row 2).length, stampAt lib row 3⟩, shown row 2) := by
  constructor
  · intro ran
    obtain ⟨text, first, ran⟩ := bind_eq_ok.mp ran
    obtain ⟨key, number, ran⟩ := bind_eq_ok.mp ran
    obtain ⟨stamp, bytes, ran⟩ := bind_eq_ok.mp ran
    obtain ⟨sender, rfl⟩ := argText_ok.mp first
    obtain ⟨digits, value⟩ := argInt_ok.mp number
    obtain ⟨shows_, rfl⟩ := argBytes_ok.mp bytes
    exact ⟨key, sender, digits, value, shows_, (Except.ok.inj ran).symm⟩
  · rintro ⟨key, sender, digits, value, shows_, rfl⟩
    exact bind_eq_ok.mpr ⟨_, argText_of_shows sender, bind_eq_ok.mpr ⟨key, argInt_ok.mpr ⟨digits, value⟩,
      bind_eq_ok.mpr ⟨_, argBytes_ok.mpr ⟨shows_, rfl⟩, rfl⟩⟩⟩

theorem inviteEntry_appends : Appends (Qr.inviteEntry lib) (ivtParts lib) := by
  intro got row
  simp only [Qr.inviteEntry, ivtParts, bind, Except.bind, pure, Except.pure]
  cases argText row 2 with
  | error e => rfl
  | ok sender =>
      cases argInt row 1 with
      | error e => rfl
      | ok tableKey => cases argBytes lib.behind row 3 20 <;> rfl

theorem inviteEntry_enters : Enters (Qr.inviteEntry lib) (ivtParts lib) InviteReadable inviteLengths where
  appends := inviteEntry_appends lib
  reads := fun row => by
    simp only [ivtParts_ok, InviteReadable, ShowsInt, Option.isSome_iff_exists]
    constructor
    · rintro ⟨e, key, sender, digits, value, shows_, -⟩
      exact ⟨sender, ⟨digits, key, value⟩, shows_⟩
    · rintro ⟨sender, ⟨digits, key, value⟩, shows_⟩
      exact ⟨_, key, sender, digits, value, shows_, rfl⟩
  lengths := fun row e ran => by
    obtain ⟨key, -, -, -, -, rfl⟩ := (ivtParts_ok lib).mp ran
    simp [inviteLengths]

/-- The callback for connection requests gets to the end of no rows but none. -/
theorem connectionEntries_iff {got : PBuffer × Int} {rows : List ResultRow} :
    (∃ got', eachRow (Qr.connectionEntry lib) got rows = .ok got') ↔ rows = [] := by
  cases rows with
  | nil => simp [eachRow]
  | cons row rest =>
      simp only [reduceCtorEq, iff_false]
      rintro ⟨got', ran⟩
      obtain ⟨mid, here, -⟩ := bind_eq_ok.mp ran
      exact Qr.connectionEntry_ne_ok here

end

end NineProject
