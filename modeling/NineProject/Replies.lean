import NineProject.Entries
import NineProject.Readers
import NineProject.Reservations
import NineProject.Session.Returns

/-! # Replies made of rows

A reply is a header, whose place is reserved first and filled in last, and an entry for
every row: a record and a text, appended to a buffer that starts with 256 bytes. With
chunks of at most 256 bytes one doubling is always enough, up to the block of 2^30 bytes,
the last one there is.
-/

namespace NineProject

open Bytes Sql

/-! ## Reading a reply -/

/-- As many entries as the header counts, and nothing behind them. -/
def readReply (l : Layout) (bytes : List Byte) : Option (List (List Byte × List Byte)) :=
  let count := (Pchd.ofBytes (bytes.take Pchd.size)).count
  if Pchd.size ≤ bytes.length ∧ 0 ≤ count then
    match l.entries count.toNat (bytes.drop Pchd.size) with
    | some (es, []) => some es
    | _ => none
  else none

theorem Pchd.count_toBytes {h : Pchd} (int : InRange 32 h.count) : (Pchd.ofBytes h.toBytes).count = h.count := by
  have split : h.toBytes = (ofInt 2 h.sz ++ ofInt 2 h.actionOrCommand ++ ofInt 2 h.comd ++ [0, 0] ++
      ofInt 4 h.suk ++ ofInt 4 h.ack) ++ (ofInt 4 h.count ++ ([0, 0, 0, 0] ++ ofInt 8 h.pbuf)) := by
    simp only [toBytes, List.append_assoc]
  have front : (ofInt 2 h.sz ++ ofInt 2 h.actionOrCommand ++ ofInt 2 h.comd ++ [0, 0] ++
      ofInt 4 h.suk ++ ofInt 4 h.ack).length + 0 = 16 := by simp
  show field h.toBytes 16 4 = h.count
  rw [split, ← front, field_append_right]
  exact field_head _ (by decide) int

theorem readReply_toBytes {l : Layout} {h : Pchd} (int : InRange 32 h.count) (bytes : List Byte) :
    readReply l (h.toBytes ++ bytes) = if 0 ≤ h.count then
      match l.entries h.count.toNat bytes with
      | some (es, []) => some es
      | _ => none
    else none := by
  have front : (h.toBytes ++ bytes).take Pchd.size = h.toBytes := by rw [← h.toBytes_length, List.take_left]
  have behind : (h.toBytes ++ bytes).drop Pchd.size = bytes := by rw [← h.toBytes_length, List.drop_left]
  have whole : Pchd.size ≤ (h.toBytes ++ bytes).length := by simp
  simp only [readReply, front, behind, whole, Pchd.count_toBytes int, true_and]

theorem readReply_encode {l : Layout} {h : Pchd} {es : List (List Byte × List Byte)}
    (framed : ∀ e ∈ es, l.Framed e) (count : h.count = es.length) (int : es.length < 2 ^ 31) :
    readReply l (h.toBytes ++ es.flatMap Layout.encode) = some es := by
  have inRange : InRange 32 h.count := by
    rw [count]
    exact ⟨by omega, by norm_num; omega⟩
  have read := Layout.entries_encode framed []
  rw [List.append_nil] at read
  rw [readReply_toBytes inRange, if_pos (by omega), count, Int.toNat_natCast, read]

/-! ## Growth -/

/-- What a buffer of 256 bytes has after some doublings. -/
def Doubling (size : Nat) : Prop := ∃ k, 8 ≤ k ∧ k ≤ 30 ∧ size = 2 ^ k

theorem Doubling.least {size : Nat} (doubling : Doubling size) : 256 ≤ size ∧ size ≤ 2 ^ 30 := by
  obtain ⟨k, low, high, rfl⟩ := doubling
  exact ⟨Nat.pow_le_pow_right two_pos low, Nat.pow_le_pow_right two_pos high⟩

/-- Below the last block there is one of twice the size. -/
theorem Doubling.next {size : Nat} (doubling : Doubling size) (more : size < 2 ^ 30) : Doubling (2 * size) := by
  obtain ⟨k, low, high, rfl⟩ := doubling
  have below := (Nat.pow_lt_pow_iff_right (by decide)).mp more
  exact ⟨k + 1, by omega, by omega, (pow_succ' 2 k).symm⟩

theorem Doubling.half {size : Nat} (doubling : Doubling size) (more : size < 2 ^ 30) : size ≤ 2 ^ 29 := by
  have next := (doubling.next more).least
  omega

section
variable {point size : Nat} {bytes : List Byte}

theorem memoryFor_small (doubling : Doubling size) (filled : point ≤ size) (small : bytes.length ≤ 256)
    (room : point + bytes.length ≤ 2 ^ 30) :
    point + bytes.length ≤ memoryFor point size bytes.length ∧ Doubling (memoryFor point size bytes.length) := by
  have least := doubling.least
  unfold memoryFor
  split
  · exact ⟨by omega, doubling.next (by omega)⟩
  · exact ⟨by omega, doubling⟩

/-- Small chunks find their memory as long as they end within the last block. -/
theorem capacious_small {chunks : List (List Byte)} (small : ∀ c ∈ chunks, c.length ≤ 256)
    (doubling : Doubling size) (filled : point ≤ size) (room : point + (chunks.map List.length).sum ≤ 2 ^ 30) :
    Capacious point size (chunks.map .chunk) := by
  induction chunks generalizing point size with
  | nil => exact filled
  | cons c rest ih =>
      simp only [List.map_cons, List.sum_cons] at room
      obtain ⟨inside, next⟩ := memoryFor_small doubling filled (small c List.mem_cons_self) (by omega)
      have least := next.least
      exact ⟨inside, by omega, ih (fun c' member => small c' (List.mem_cons_of_mem _ member)) next inside (by omega)⟩

variable {es : List Entry} {p q : PBuffer}

/-- No chunk is taken that ends behind the last block. -/
theorem Built.chunk_within (built : Built es p) (doubling : Doubling p.data.length) (filled : sizes es ≤ p.data.length)
    (small : bytes.length ≤ 256) (put : p.allocateSome bytes = .ok q) : sizes es + bytes.length ≤ 2 ^ 30 := by
  have least := doubling.least
  have point : wrap 32 (p.nextInputPoint + bytes.length) = sizes es + bytes.length := by
    rw [built.point]
    exact wrap_of_inRange (by decide) ⟨by omega, by norm_num; omega⟩
  rcases PBuffer.allocateSome_eq_ok.mp put with ⟨-, grown, -, -⟩ | ⟨fits, -⟩
  · by_contra past
    rcases lt_or_eq_of_le least.2 with below | last
    · have half := doubling.half below
      omega
    · have twice : p.doubled = -2 ^ 31 := by
        rw [PBuffer.doubled, built.size, last]
        decide
      omega
  · rw [PBuffer.Overflows, point, built.size] at fits
    omega

/-- Small chunks are taken exactly when they end within the last block. -/
theorem Built.chunks_end_iff {chunks : List (List Byte)} (small : ∀ c ∈ chunks, c.length ≤ 256)
    (built : Built es p) (doubling : Doubling p.data.length) (filled : sizes es ≤ p.data.length) :
    (∃ q, p.putAll (chunks.map .chunk) = .ok q) ↔ sizes es + (chunks.map List.length).sum ≤ 2 ^ 30 := by
  induction chunks generalizing es p with
  | nil =>
      have least := doubling.least
      exact ⟨fun _ => by simpa using filled.trans least.2, fun _ => ⟨p, rfl⟩⟩
  | cons c rest ih =>
      have smaller := fun c' member => small c' (List.mem_cons_of_mem _ member)
      have next : sizes es + c.length ≤ 2 ^ 30 → ∃ mid, p.allocateSome c = .ok mid ∧
          ((∃ q, mid.putAll (rest.map .chunk) = .ok q) ↔
            sizes es + c.length + (rest.map List.length).sum ≤ 2 ^ 30) := by
        intro room
        obtain ⟨inside, more⟩ := memoryFor_small doubling filled (small c List.mem_cons_self) room
        have high := more.least.2
        obtain ⟨mid, put, builds, memory⟩ := built.chunk inside (by omega)
        have grown : sizes (es ++ [Entry.chunk c]) = sizes es + c.length := sizes_concat
        refine ⟨mid, put, ?_⟩
        rw [← grown]
        exact ih smaller builds (memory ▸ more) (by omega)
      simp only [List.map_cons, List.sum_cons]
      constructor
      · rintro ⟨q, ran⟩
        obtain ⟨mid, put, others⟩ := bind_eq_ok.mp ran
        have room := built.chunk_within doubling filled (small c List.mem_cons_self) put
        obtain ⟨mid', put', later⟩ := next room
        obtain rfl : mid = mid' := Except.ok.inj (put.symm.trans put')
        have total := later.mp ⟨q, others⟩
        omega
      · intro total
        obtain ⟨mid, put, later⟩ := next (by omega)
        obtain ⟨q, others⟩ := later.mpr (by omega)
        exact ⟨q, bind_eq_ok.mpr ⟨mid, put, others⟩⟩

/-- In a buffer with the capacity every chunk is copied into memory. -/
theorem Built.roomFor {chunks : List (List Byte)} (built : Built es p)
    (capacious : Capacious (sizes es) p.data.length (chunks.map .chunk)) : p.RoomFor (chunks.map List.length) := by
  induction chunks generalizing es p with
  | nil => trivial
  | cons c rest ih =>
      obtain ⟨inside, int, later⟩ := capacious
      obtain ⟨mid, put, builds, memory⟩ := built.chunk inside int
      have low : 0 ≤ p.nextInputPoint := by
        rw [built.point]
        omega
      have room : p.Room c.length :=
        PBuffer.room_iff.mpr ⟨mid, put, low, by rw [built.point]; omega, fun _ => built.size.le⟩
      have grown : sizes (es ++ [Entry.chunk c]) = sizes es + c.length := sizes_concat
      have others := ih builds (by rw [grown, memory]; exact later)
      exact ⟨room, (PBuffer.roomFor_took put).mpr others⟩

end

/-! ## Building a reply -/

/-- Chunks that have room are put into the buffer as any are. -/
theorem appendAll_eq_ok {p q : PBuffer} {chunks : List (List Byte)} : p.appendAll chunks = .ok q ↔
    p.RoomFor (chunks.map List.length) ∧ p.putAll (chunks.map .chunk) = .ok q := by
  induction chunks generalizing p with
  | nil => exact ⟨fun same => ⟨trivial, same⟩, And.right⟩
  | cons c rest ih =>
      rw [PBuffer.appendAll_cons]
      constructor
      · rintro ⟨mid, first, later⟩
        obtain ⟨room, one⟩ := PBuffer.allocateInside_eq_ok.mp first
        obtain ⟨more, put⟩ := ih.mp later
        exact ⟨⟨room, (PBuffer.roomFor_took one).mpr more⟩, bind_eq_ok.mpr ⟨mid, one, put⟩⟩
      · rintro ⟨⟨room, more⟩, put⟩
        obtain ⟨mid, one, later⟩ := bind_eq_ok.mp put
        exact ⟨mid, PBuffer.allocateInside_eq_ok.mpr ⟨room, one⟩, ih.mpr ⟨(PBuffer.roomFor_took one).mp more, later⟩⟩

/-- The bytes of a reply with these entries. -/
def replySize (es : List (List Byte × List Byte)) : Nat := Pchd.size + ((chunksOf es).map List.length).sum

theorem replySize_map {α : Type} (f : α → List Byte × List Byte) (l : List α) :
    replySize (l.map f) = Pchd.size + (l.map fun a => (f a).1.length + (f a).2.length).sum := by
  unfold replySize
  congr 1
  induction l with
  | nil => rfl
  | cons a rest ih =>
      simp only [chunksOf, List.map_cons, List.flatMap_cons, List.map_append, List.sum_append, List.sum_cons,
        List.map_nil, List.sum_nil] at ih ⊢
      omega

theorem replyBuffer_eq : replyBuffer = (PBuffer.zeros 256).reserveWithTag Pchd.size headerTag := rfl

theorem zeros_built : Built [] (PBuffer.zeros 256) := .blank (PBuffer.zeros_blank (by decide))

theorem replyBuffer_built {p : PBuffer} (made : replyBuffer = .ok p) :
    Built [.reserved Pchd.size headerTag] p ∧ p.data.length = 256 := by
  rw [replyBuffer_eq] at made
  have new : headerTag ∉ tags [] := by decide
  refine ⟨zeros_built.reserve new (by decide) made, ?_⟩
  obtain ⟨-, rfl⟩ := (zeros_built.reserve_eq_ok new).mp made
  exact PBuffer.zeros_length 256

/-- The entries of these rows, and then the header, are copied into memory. -/
def CopiesInside (parts : ResultRow → Except Fault (List Byte × List Byte)) (rows : List ResultRow) : Prop :=
  ∃ p es b at_, replyBuffer = .ok p ∧ List.Forall₂ (fun row e => parts row = .ok e) rows es ∧
    p.RoomFor ((chunksOf es).map List.length) ∧ p.putAll ((chunksOf es).map .chunk) = .ok b ∧
    b.getSrcReservedWithTag headerTag = .ok at_ ∧ 0 ≤ at_ ∧ at_ + Pchd.size ≤ b.data.length

section
variable {es : List (List Byte × List Byte)} {p b : PBuffer}

/-- Entries of small chunks fit into a reply exactly when it ends within the last block. -/
theorem reply_ends_iff (small : ∀ c ∈ chunksOf es, c.length ≤ 256) (made : replyBuffer = .ok p) :
    (∃ b, p.putAll ((chunksOf es).map .chunk) = .ok b) ↔ replySize es ≤ 2 ^ 30 := by
  obtain ⟨built, memory⟩ := replyBuffer_built made
  exact built.chunks_end_iff small ⟨8, by decide, by decide, memory⟩ (by rw [memory]; decide)

theorem reply_roomFor (small : ∀ c ∈ chunksOf es, c.length ≤ 256) (made : replyBuffer = .ok p)
    (room : replySize es ≤ 2 ^ 30) : p.RoomFor ((chunksOf es).map List.length) := by
  obtain ⟨built, memory⟩ := replyBuffer_built made
  exact built.roomFor (capacious_small small ⟨8, by decide, by decide, memory⟩ (by rw [memory]; decide) room)

/-- The header stands in front of the entries. -/
theorem reply_written (small : ∀ c ∈ chunksOf es, c.length ≤ 256) (made : replyBuffer = .ok p)
    (put : p.putAll ((chunksOf es).map .chunk) = .ok b) {header : List Byte} (length : header.length = Pchd.size) :
    ∃ q, b.allocateWithTag headerTag header = .ok q ∧ q.written = header ++ es.flatMap Layout.encode := by
  have room := (reply_ends_iff small made).mp ⟨b, put⟩
  have capacious : Capacious 0 (PBuffer.zeros 256).data.length
      (.reserved Pchd.size headerTag :: (chunksOf es).map .chunk) := by
    rw [PBuffer.zeros_length]
    exact ⟨by decide, capacious_small small ⟨8, by decide, by decide, rfl⟩ (by decide) room⟩
  have untagged : tags ((chunksOf es).map .chunk) = [] := by
    simp [tags, Entry.tag]
  have tagged : tags (.reserved Pchd.size headerTag :: (chunksOf es).map .chunk) = [headerTag] :=
    congrArg (headerTag :: ·) untagged
  have addressed : Addressed (.reserved Pchd.size headerTag :: (chunksOf es).map .chunk) := by
    refine ⟨by rw [tagged]; decide, fun k n tag there _ => ?_⟩
    cases k with
    | zero => exact Nat.zero_le _
    | succ k =>
        have later : Entry.reserved n tag ∈ (chunksOf es).map .chunk := List.mem_of_getElem? there
        simp at later
  have lands := lands_of_addressed (PBuffer.zeros_blank (by decide)) (by rw [tagged]; decide) capacious addressed
  obtain ⟨b', q, ran, fill, written, data⟩ := lands (fun _ => header) [headerTag]
    (fun n tag member => by
      rcases List.mem_cons.mp member with same | later
      · cases same
        exact length
      · simp at later)
    (by rw [tagged])
  obtain ⟨p', reserved, others⟩ := bind_eq_ok.mp ran
  obtain rfl : p' = p := Except.ok.inj (reserved.symm.trans (replyBuffer_eq.symm.trans made))
  obtain rfl : b = b' := Except.ok.inj (put.symm.trans others)
  obtain ⟨q', filled, same⟩ := bind_eq_ok.mp fill
  cases same
  have entries : (Entry.reserved Pchd.size headerTag :: (chunksOf es).map .chunk).flatMap
      (Entry.bytes fun _ => header) = header ++ es.flatMap Layout.encode := by
    rw [List.flatMap_cons, List.flatMap_map, ← chunksOf_flatten]
    simp [Entry.bytes, List.flatMap_id']
  have total : sizes (Entry.reserved Pchd.size headerTag :: (chunksOf es).map .chunk) =
      (header ++ es.flatMap Layout.encode).length := by
    rw [← entries]
    simp only [sizes, List.length_flatMap]
    refine congrArg List.sum (List.map_congr_left fun e member => ?_)
    rcases List.mem_cons.mp member with rfl | later
    · exact length.symm
    · obtain ⟨c, -, rfl⟩ := List.mem_map.mp later
      rfl
  refine ⟨q, filled, ?_⟩
  rw [PBuffer.written, ← PBuffer.writtenSize, written, data, entries, total, Int.toNat_natCast, List.take_left]

/-- The place of the header is at the front. -/
theorem reply_header_inside (small : ∀ c ∈ chunksOf es, c.length ≤ 256) (made : replyBuffer = .ok p)
    (put : p.putAll ((chunksOf es).map .chunk) = .ok b) :
    ∃ at_, b.getSrcReservedWithTag headerTag = .ok at_ ∧ 0 ≤ at_ ∧ at_ + Pchd.size ≤ b.data.length := by
  obtain ⟨built, memory⟩ := replyBuffer_built made
  have room := (reply_ends_iff small made).mp ⟨b, put⟩
  have capacious : Capacious (sizes [.reserved Pchd.size headerTag]) p.data.length ((chunksOf es).map .chunk) :=
    capacious_small small ⟨8, by decide, by decide, memory⟩ (by rw [memory]; decide) room
  have tagged : tags ([.reserved Pchd.size headerTag] ++ (chunksOf es).map .chunk) = [headerTag] :=
    congrArg (headerTag :: ·) (by simp [Entry.tag])
  obtain ⟨whole, inside⟩ := built.putAll _ (by rw [tagged]; decide) capacious put
  have front : offset ([.reserved Pchd.size headerTag] ++ (chunksOf es).map .chunk) 0 = 0 := rfl
  have place := whole.place (show _ = some (Entry.reserved Pchd.size headerTag) from List.getElem?_cons_zero)
  rw [front] at place
  have least : Pchd.size ≤ sizes ([.reserved Pchd.size headerTag] ++ (chunksOf es).map .chunk) :=
    Nat.le_add_right _ _
  have zero : wrap 8 (0 : Nat) = 0 := by decide
  rw [zero] at place
  exact ⟨0, place, le_rfl, by omega⟩

/-- Every entry takes a byte at least. -/
theorem entries_few (some_ : ∀ e ∈ es, 0 < e.1.length) (room : replySize es ≤ 2 ^ 30) : es.length < 2 ^ 31 := by
  have least : es.length ≤ ((chunksOf es).map List.length).sum := by
    clear room
    induction es with
    | nil => simp
    | cons e rest ih =>
        have here := some_ e List.mem_cons_self
        have others := ih fun e' member => some_ e' (List.mem_cons_of_mem _ member)
        simp only [chunksOf, List.flatMap_cons, List.map_append, List.sum_append, List.map_cons, List.map_nil,
          List.sum_cons, List.sum_nil, List.length_cons] at others ⊢
        omega
  simp only [replySize, Pchd.size] at room
  omega

end

section
variable {σ : Type} {E : Engine σ} {db : σ} {text : Str}
  {entry : PBuffer × Int → ResultRow → Except Fault (PBuffer × Int)}
  {parts : ResultRow → Except Fault (List Byte × List Byte)} {es : List (List Byte × List Byte)}

/-- A fetch that makes these entries of its rows ends in a reply that holds them, unless
    it would end behind the last block. -/
theorem fetch_replies (appends : Appends entry parts) {rows : List ResultRow} (exec : E.exec db text = (db, rows))
    (all : List.Forall₂ (fun row e => parts row = .ok e) rows es)
    (small : ∀ c ∈ chunksOf es, c.length ≤ 256) {header : Int → List Byte}
    (length : ∀ n, (header n).length = Pchd.size) {Q : List ResultRow → List Byte → Prop} :
    (∃ p, replyBuffer = .ok p ∧ ∃ f, ((Qr.fetch text entry p).run E db).result = .ok f ∧ ∃ q,
      f.buf.allocateWithTag headerTag (header f.count) = .ok q ∧ Q f.rows q.written) ↔
      replySize es ≤ 2 ^ 30 ∧ Q rows (header es.length ++ es.flatMap Layout.encode) := by
  have found : (E.exec db text).2 = rows := congrArg Prod.snd exec
  constructor
  · rintro ⟨p, made, f, fetched, q, filled, post⟩
    obtain ⟨ran, -, is⟩ := Qr.fetch_eq_ok.mp fetched
    rw [found] at ran is
    obtain ⟨es', all', copied, count⟩ := appends.eachRow.mp ran
    obtain rfl := made_unique all all'
    have put := (appendAll_eq_ok.mp copied).2
    refine ⟨(reply_ends_iff small made).mp ⟨_, put⟩, ?_⟩
    obtain ⟨q', filled', written⟩ := reply_written small made put (length f.count)
    obtain rfl : q = q' := Except.ok.inj (filled.symm.trans filled')
    rw [all.length_eq, Int.zero_add] at count
    rwa [written, count, is] at post
  · rintro ⟨room, post⟩
    obtain ⟨p, made⟩ := replyBuffer_ends
    obtain ⟨b, put⟩ := (reply_ends_iff small made).mpr room
    have ran : eachRow entry (p, 0) rows = .ok (b, es.length) :=
      appends.eachRow.mpr ⟨es, all, appendAll_eq_ok.mpr ⟨reply_roomFor small made room, put⟩,
        by rw [all.length_eq, Int.zero_add]⟩
    obtain ⟨q, filled, written⟩ := reply_written small made put (length es.length)
    refine ⟨p, made, ⟨b, es.length, _, rows⟩, Qr.fetch_eq_ok.mpr ⟨?_, rfl, found.symm⟩, q, filled, ?_⟩
    · rwa [found]
    · rwa [written]

/-- Then every copy was made into memory. -/
theorem copiesInside_of (small : ∀ c ∈ chunksOf es, c.length ≤ 256) {rows : List ResultRow}
    (all : List.Forall₂ (fun row e => parts row = .ok e) rows es) (room : replySize es ≤ 2 ^ 30) :
    CopiesInside parts rows := by
  obtain ⟨p, made⟩ := replyBuffer_ends
  obtain ⟨b, put⟩ := (reply_ends_iff small made).mpr room
  obtain ⟨at_, place, low, inside⟩ := reply_header_inside small made put
  exact ⟨p, es, b, at_, made, all, reply_roomFor small made room, put, place, low, inside⟩

/-- The reply to a fetch that finds these: it is sent unless it would end behind the last
    block, and then it is read back as their entries. -/
theorem rows_reply {α : Type} {found : List α} {row : α → ResultRow} {made : α → List Byte × List Byte} {l : Layout}
    (appends : Appends entry parts) (exec : E.exec db text = (db, found.map row))
    (parted : ∀ a ∈ found, parts (row a) = .ok (made a)) (framed : ∀ a ∈ found, l.Framed (made a))
    (record : 0 < l.size ∧ l.size ≤ 256) (short : ∀ a ∈ found, (made a).2.length ≤ 256) {h : Int → Pchd}
    (counts : ∀ n, (h n).count = wrap 32 n) :
    ∃ bytes, (∀ {Q : List ResultRow → List Byte → Prop},
      (∃ p, replyBuffer = .ok p ∧ ∃ f, ((Qr.fetch text entry p).run E db).result = .ok f ∧ ∃ q,
        f.buf.allocateWithTag headerTag (h f.count).toBytes = .ok q ∧ Q f.rows q.written) ↔
        Pchd.size + (found.map fun a => l.size + (made a).2.length).sum ≤ 2 ^ 30 ∧ Q (found.map row) bytes) ∧
      (Pchd.size + (found.map fun a => l.size + (made a).2.length).sum ≤ 2 ^ 30 →
        readReply l bytes = some (found.map made) ∧ CopiesInside parts (found.map row)) := by
  have all : List.Forall₂ (fun row e => parts row = .ok e) (found.map row) (found.map made) := by
    rw [List.forall₂_map_left_iff, List.forall₂_map_right_iff, List.forall₂_same]
    exact parted
  have small : ∀ c ∈ chunksOf (found.map made), c.length ≤ 256 := by
    intro c member
    obtain ⟨e, there, one⟩ := List.mem_flatMap.mp member
    obtain ⟨a, inside, rfl⟩ := List.mem_map.mp there
    rcases List.mem_pair.mp one with rfl | rfl
    · exact (framed a inside).1.trans_le record.2
    · exact short a inside
  have frames : ∀ e ∈ found.map made, l.Framed e := by
    intro e member
    obtain ⟨a, inside, rfl⟩ := List.mem_map.mp member
    exact framed a inside
  have size : replySize (found.map made) = Pchd.size + (found.map fun a => l.size + (made a).2.length).sum := by
    have each : (found.map fun a => (made a).1.length + (made a).2.length) =
        found.map fun a => l.size + (made a).2.length :=
      List.map_congr_left fun a inside => by rw [(framed a inside).1]
    rw [replySize_map, each]
  rw [← size]
  refine ⟨_, fetch_replies appends exec all small fun n => (h n).toBytes_length, fun room => ?_⟩
  have few : (found.map made).length < 2 ^ 31 :=
    entries_few (fun e member => (frames e member).1.symm ▸ record.1) room
  exact ⟨readReply_encode frames ((counts _).trans (wrap32_nat few)) few, copiesInside_of small all room⟩

/-- The last thing done was a reply made of rows, and `P` holds of them and of its bytes. -/
def Replied (c : ECommand) (P : List ResultRow → List Byte → Prop) (v : World σ) : Prop :=
  ∃ log rows bytes, v.log = log ++ [.reply c rows, .wrote bytes] ∧ P rows bytes

theorem replied_iff {c : ECommand} {P : List ResultRow → List Byte → Prop} {w : World σ} {rows : List ResultRow}
    {bytes : List Byte} : Replied c P (w.replied c rows bytes) ↔ P rows bytes := by
  have log : (w.replied c rows bytes).log = w.log ++ [.reply c rows, .wrote bytes] := List.append_assoc ..
  constructor
  · rintro ⟨before, rows', bytes', is, holds⟩
    rw [log] at is
    cases List.append_inj_right' is rfl
    exact holds
  · exact fun holds => ⟨w.log, rows, bytes, log, holds⟩

end

/-- A user's session with the header of a command in work. -/
def askingFor (user : Str) (c : ECommand) (rows : List (Str × List Row)) : World Memory :=
  { annWaits [] rows with
    self := { annSession [] with
      userName := user
      pc := ⟨(client []).pc.iData, [{ Pchd.empty with actionOrCommand := 1, comd := c.code }]⟩ }
    pending := [] }

end NineProject
