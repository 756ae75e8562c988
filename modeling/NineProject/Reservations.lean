import NineProject.Base.Places
import NineProject.PBuffer

/-! # Places reserved in a buffer

A buffer is filled front to back with chunks and with places to fill in later, under a
tag each. The offset of a place goes into a slot of four bytes and comes back through a
`char`, and there are four slots for the five tags that are let in.
-/

namespace NineProject

open Bytes

/-- A call that goes on with a buffer: `reserve_with_tag` or `allocate_some`. -/
inductive Entry where
  | reserved (size : Nat) (tag : Str)
  | chunk (bytes : List Byte)
  deriving DecidableEq, Repr

namespace Entry

def size : Entry → Nat
  | reserved size _ => size
  | chunk bytes => bytes.length

def tag : Entry → Option Str
  | reserved _ tag => some tag
  | chunk _ => none

def put (p : PBuffer) : Entry → Except Fault PBuffer
  | reserved size tag => p.reserveWithTag size tag
  | chunk bytes => p.allocateSome bytes

/-- What belongs there, once the places hold their data. -/
def bytes (data : Str → List Byte) : Entry → List Byte
  | reserved _ tag => data tag
  | chunk bytes => bytes

end Entry

def sizes (es : List Entry) : Nat := (es.map Entry.size).sum

def tags (es : List Entry) : List Str := es.filterMap Entry.tag

/-- The input point before the call of this number. -/
def offset (es : List Entry) (k : Nat) : Nat := sizes (es.take k)

namespace PBuffer

def putAll (p : PBuffer) (es : List Entry) : Except Fault PBuffer := es.foldlM Entry.put p

/-- `allocate_with_tag` for each tag, in this order. -/
def fillAll (p : PBuffer) (data : Str → List Byte) (order : List Str) : Except Fault PBuffer :=
  order.foldlM (fun p tag => p.allocateWithTag tag (data tag)) p

/-- A buffer in which nothing was put since it was constructed. -/
structure Blank (p : PBuffer) : Prop where
  param : p.param = Param.ofTypes [.int, .int, .int, .int]
  point : p.nextInputPoint = 0
  index : p.reservedIndex = 0
  size : p.size = p.data.length
  int : p.size < 2 ^ 31

end PBuffer

/-- The memory a chunk is copied into. -/
def memoryFor (point size n : Nat) : Nat := if size < point + n then 2 * size else size

/-- A buffer of `size` bytes, filled up to `point`, has the capacity: every chunk ends
    in the memory it finds or in twice as much, and so does every place in the end. -/
def Capacious (point size : Nat) : List Entry → Prop
  | [] => point ≤ size
  | .reserved n _ :: rest => point + n < 2 ^ 31 ∧ Capacious (point + n) size rest
  | .chunk bytes :: rest =>
      let memory := memoryFor point size bytes.length
      point + bytes.length ≤ memory ∧ memory < 2 ^ 31 ∧ Capacious (point + bytes.length) memory rest

instance decidableCapacious : ∀ point size es, Decidable (Capacious point size es)
  | _, _, [] => inferInstanceAs (Decidable (_ ≤ _))
  | point, size, .reserved n _ :: rest =>
      have := decidableCapacious (point + n) size rest
      inferInstanceAs (Decidable (_ ∧ _))
  | point, size, .chunk bytes :: rest =>
      have := decidableCapacious (point + bytes.length) (memoryFor point size bytes.length) rest
      inferInstanceAs (Decidable (_ ∧ _ ∧ _))

/-- The buffer after these calls, whatever stands in the places. -/
structure Built (es : List Entry) (p : PBuffer) : Prop where
  point : p.nextInputPoint = sizes es
  size : p.size = p.data.length
  index : p.reservedIndex = (tags es).length
  few : (tags es).length ≤ 4
  args : p.param.pArgs = (Param.ofTypes [.int, .int, .int, .int]).pArgs
  block : p.param.block.length = 16
  known : ∀ k n tag, es[k]? = some (.reserved n tag) → ∃ j : Nat, j < (tags es).length ∧
    p.param.aMap.lookup tag = some (some (4 * j : Int)) ∧
    (p.param.block.drop (4 * j)).take 4 = ofInt 4 (offset es k)
  unknown : ∀ tag, tag ∉ tags es → p.param.aMap.lookup tag = none
  kept : ∀ k bytes, es[k]? = some (.chunk bytes) → (p.data.drop (offset es k)).take bytes.length = bytes

/-! ## Offsets -/

section
variable {es : List Entry} {e : Entry}

@[simp] theorem sizes_concat : sizes (es ++ [e]) = sizes es + e.size := by simp [sizes]

theorem offset_concat {k : Nat} (h : k ≤ es.length) : offset (es ++ [e]) k = offset es k :=
  Places.start_append h

theorem offset_length : offset es es.length = sizes es := Places.start_length

theorem offset_inside {k : Nat} (h : es[k]? = some e) : offset es k + e.size ≤ sizes es := Places.start_inside h

/-- The entries of a longer list are the old ones and the new one. -/
theorem getElem?_concat {k : Nat} {e' : Entry} (h : (es ++ [e])[k]? = some e') :
    k < es.length ∧ es[k]? = some e' ∨ k = es.length ∧ e' = e := by
  rcases lt_or_ge k es.length with inside | past
  · exact .inl ⟨inside, by rwa [List.getElem?_append_left inside] at h⟩
  · rw [List.getElem?_append_right past] at h
    obtain ⟨last, is⟩ := List.getElem?_eq_some_iff.mp h
    simp only [List.length_singleton] at last
    exact .inr ⟨by omega, by simpa using is.symm⟩

end

/-! ## Building -/

/-- The slots, of which the fifth was never set. -/
theorem slot_at : ∀ i : Nat, i < 4 → (((Param.ofTypes [.int, .int, .int, .int]).pArgs)[i]?).join = some (4 * i : Int) := by
  decide

theorem slot_past : (((Param.ofTypes [.int, .int, .int, .int]).pArgs)[4]?).join = none := by decide

theorem Built.blank {p : PBuffer} (blank : p.Blank) : Built [] p where
  point := blank.point
  size := blank.size
  index := blank.index
  few := by decide
  args := by rw [blank.param]
  block := by rw [blank.param]; rfl
  known k n tag h := by simp at h
  unknown tag _ := by rw [blank.param]; rfl
  kept k bytes h := by simp at h

section
variable {es : List Entry} {p q : PBuffer} {n : Nat} {tag : Str}

/-- The buffer with a place reserved under a new tag, whose offset is kept at `at_`. -/
def reservedAt (p : PBuffer) (n : Nat) (tag : Str) (at_ : Int) : PBuffer :=
  { p with param := { p.param with aMap := (tag, some at_) :: p.param.aMap,
                                   block := poke p.param.block at_ (ofInt 4 p.nextInputPoint) },
           nextInputPoint := wrap 32 (p.nextInputPoint + n),
           reservedIndex := p.reservedIndex + 1 }

theorem Built.reserve_eq_ok (built : Built es p) (new : tag ∉ tags es) :
    p.reserveWithTag n tag = .ok q ↔ (tags es).length < 4 ∧ q = reservedAt p n tag (4 * (tags es).length) := by
  have admitted : ¬ 4 < (tags es).length := Nat.not_lt.mpr built.few
  have unset : p.param.aMap.lookup tag = none := built.unknown tag new
  rcases lt_or_ge (tags es).length 4 with room | full
  · have slot := slot_at _ room
    simp [PBuffer.reserveWithTag, built.index, admitted, Param.setArgs, unset, built.args, slot, Param.setValue,
      Param.pointer, Except.map, room, reservedAt, eq_comm]
  · have count : (tags es).length = 4 := le_antisymm built.few full
    simp [PBuffer.reserveWithTag, built.index, count, Param.setArgs, unset, built.args, slot_past, Param.setValue,
      Param.pointer, Except.map]

theorem tags_reserved : tags (es ++ [.reserved n tag]) = tags es ++ [tag] := by simp [tags, Entry.tag]

theorem tags_chunk {bytes : List Byte} : tags (es ++ [.chunk bytes]) = tags es := by simp [tags, Entry.tag]

theorem Built.reserve (built : Built es p) (new : tag ∉ tags es) (fits : sizes es + n < 2 ^ 31)
    (put : p.reserveWithTag n tag = .ok q) : Built (es ++ [.reserved n tag]) q := by
  obtain ⟨room, rfl⟩ := (built.reserve_eq_ok new).mp put
  have grown : (tags (es ++ [Entry.reserved n tag])).length = (tags es).length + 1 := by simp [tags_reserved]
  have apart : ∀ other : Str, other ∈ tags es → (other == tag) = false := fun other there => by
    simpa using fun same : other = tag => new (same ▸ there)
  refine ⟨?_, built.size, by simp [reservedAt, built.index, grown], by omega, built.args,
    by simp [reservedAt, built.block], ?_, ?_, ?_⟩
  · rw [sizes_concat]
    simp only [reservedAt, built.point, Entry.size]
    push_cast
    exact wrap_of_inRange (by decide) ⟨by omega, by norm_num; omega⟩
  · intro k m other there
    rcases getElem?_concat there with ⟨inside, old⟩ | ⟨rfl, same⟩
    · obtain ⟨j, slot, name, stored⟩ := built.known k m other old
      have member : other ∈ tags es := List.mem_filterMap.mpr ⟨_, List.mem_of_getElem? old, rfl⟩
      refine ⟨j, by omega, ?_, ?_⟩
      · simpa [reservedAt, List.lookup_cons, apart other member] using name
      · rw [offset_concat (by omega), ← stored]
        exact poke_apart (.inl (by push_cast; omega))
    · cases same
      refine ⟨(tags es).length, by omega, by simp [reservedAt], ?_⟩
      have room' : 4 * (tags es).length + (ofInt 4 p.nextInputPoint).length ≤ p.param.block.length := by
        rw [ofInt_length, built.block]
        omega
      have stored := poke_inside room'
      rw [ofInt_length] at stored
      rw [offset_concat le_rfl, offset_length, ← built.point]
      push_cast at stored
      exact stored
  · intro other absent
    rw [tags_reserved, List.mem_append, not_or, List.mem_singleton] at absent
    have lookup : (other == tag) = false := by simpa using absent.2
    simpa [reservedAt, List.lookup_cons, lookup] using built.unknown other absent.1
  · intro k bytes there
    rcases getElem?_concat there with ⟨inside, old⟩ | ⟨-, same⟩
    · rw [offset_concat (by omega)]
      exact built.kept k bytes old
    · cases same

/-- A copy behind the entries of a buffer that has at least the memory it had. -/
theorem Built.appended (built : Built es p) (bytes mem : List Byte)
    (old : ∀ o m, o + m ≤ p.data.length → o + m ≤ sizes es → (mem.drop o).take m = (p.data.drop o).take m)
    (inside : sizes es + bytes.length ≤ mem.length) (int : mem.length < 2 ^ 31) :
    Built (es ++ [.chunk bytes]) { p with size := mem.length, data := poke mem p.nextInputPoint bytes, nextInputPoint := wrap 32 (p.nextInputPoint + bytes.length) } := by
  refine ⟨?_, by simp, ?_, ?_, built.args, built.block, ?_, ?_, ?_⟩
  · rw [sizes_concat, built.point]
    simp only [Entry.size]
    push_cast
    exact wrap_of_inRange (by decide) ⟨by omega, by norm_num; omega⟩
  · rw [tags_chunk]
    exact built.index
  · rw [tags_chunk]
    exact built.few
  · intro k m other there
    rcases getElem?_concat there with ⟨before, there⟩ | ⟨-, same⟩
    · rw [offset_concat (by omega), tags_chunk]
      exact built.known k m other there
    · cases same
  · intro other absent
    rw [tags_chunk] at absent
    exact built.unknown other absent
  · intro k bytes' there
    rcases getElem?_concat there with ⟨before, there⟩ | ⟨rfl, same⟩
    · rw [offset_concat (by omega)]
      have low : offset es k + bytes'.length ≤ sizes es := offset_inside there
      have kept := built.kept k bytes' there
      rcases Nat.eq_zero_or_pos bytes'.length with none_ | some_
      · rw [List.length_eq_zero_iff.mp none_]
        rfl
      · have length := congrArg List.length kept
        simp only [List.length_take, List.length_drop] at length
        show ((poke mem p.nextInputPoint bytes).drop _).take _ = _
        rw [poke_apart (.inl (by rw [built.point]; omega)), old _ _ (by omega) low]
        exact kept
    · cases same
      rw [offset_concat le_rfl, offset_length]
      show ((poke mem p.nextInputPoint bytes).drop _).take _ = _
      rw [built.point]
      exact poke_inside inside

theorem Built.chunk (built : Built es p) {bytes : List Byte}
    (inside : sizes es + bytes.length ≤ memoryFor (sizes es) p.data.length bytes.length)
    (int : memoryFor (sizes es) p.data.length bytes.length < 2 ^ 31) :
    ∃ q, p.allocateSome bytes = .ok q ∧ Built (es ++ [.chunk bytes]) q ∧
      q.data.length = memoryFor (sizes es) p.data.length bytes.length := by
  have point : wrap 32 (p.nextInputPoint + bytes.length) = sizes es + bytes.length := by
    rw [built.point]
    exact wrap_of_inRange (by decide) ⟨by omega, by norm_num; omega⟩
  have overflows : p.Overflows bytes.length ↔ p.data.length < sizes es + bytes.length := by
    rw [PBuffer.Overflows, point, built.size]
    omega
  unfold memoryFor at inside int ⊢
  by_cases more : p.data.length < sizes es + bytes.length
  · rw [if_pos more] at inside int ⊢
    have doubled : p.doubled = 2 * p.data.length := by
      rw [PBuffer.doubled, built.size]
      exact (wrap_of_inRange (by decide) ⟨by omega, by norm_num; omega⟩).trans (by ring)
    have length : p.grown.data.length = 2 * p.data.length := by
      rw [PBuffer.grown_length, doubled]
      omega
    refine ⟨p.grown.append bytes, PBuffer.allocateSome_eq_ok.mpr (.inl ⟨overflows.mpr more, by omega, ?_, rfl⟩), ?_, by simpa using length⟩
    · rw [built.size]
      omega
    · have appended := built.appended bytes p.grown.data (fun o m there low => by
        have same := PBuffer.grown_take (p := p) (n := o + m) (by rw [built.size]; omega) there
          (by rw [doubled]; omega)
        have left := List.drop_take (i := o) (j := o + m) (l := p.grown.data)
        have right := List.drop_take (i := o) (j := o + m) (l := p.data)
        rw [Nat.add_sub_cancel_left] at left right
        rw [← left, ← right, same]) (by omega) (by omega)
      have size : (p.grown.data.length : Int) = p.doubled := by rw [length, doubled]; push_cast; rfl
      rw [size] at appended
      exact appended
  · rw [if_neg more] at inside int ⊢
    refine ⟨p.append bytes, PBuffer.allocateSome_eq_ok.mpr (.inr ⟨fun o => more (overflows.mp o), rfl⟩), ?_, by simp⟩
    have appended := built.appended bytes p.data (fun _ _ _ _ => rfl) inside int
    rw [← built.size] at appended
    exact appended

/-- Calls that end leave the buffer built. -/
theorem Built.putAll (built : Built es p) (rest : List Entry) (distinct : (tags (es ++ rest)).Nodup)
    (capacious : Capacious (sizes es) p.data.length rest) (ran : p.putAll rest = .ok q) :
    Built (es ++ rest) q ∧ sizes (es ++ rest) ≤ q.data.length := by
  induction rest generalizing es p with
  | nil =>
      cases ran
      rw [List.append_nil]
      exact ⟨built, capacious⟩
  | cons e rest ih =>
      obtain ⟨mid, first, others⟩ := bind_eq_ok.mp ran
      rw [List.append_cons] at distinct ⊢
      cases e with
      | reserved n tag =>
          have new : tag ∉ tags es := fun there => by
            have early := (List.nodup_append.mp (by simpa [tags] using distinct)).2.2
            exact early tag there tag (by simp [Entry.tag]) rfl
          have more := built.reserve new capacious.1 first
          have same : mid.data.length = p.data.length := by
            obtain ⟨-, rfl⟩ := (built.reserve_eq_ok new).mp first
            rfl
          exact ih more distinct (by rw [sizes_concat, same]; exact capacious.2) others
      | chunk bytes =>
          obtain ⟨inside, int, later⟩ := capacious
          obtain ⟨next, put, more, memory⟩ := built.chunk inside int
          obtain rfl : mid = next := Except.ok.inj (first.symm.trans put)
          exact ih more distinct (by rw [sizes_concat, memory]; exact later) others

/-- With four tags at most they end. -/
theorem Built.putAll_ends (built : Built es p) (rest : List Entry) (distinct : (tags (es ++ rest)).Nodup)
    (capacious : Capacious (sizes es) p.data.length rest) (few : (tags (es ++ rest)).length ≤ 4) :
    ∃ q, p.putAll rest = .ok q := by
  induction rest generalizing es p with
  | nil => exact ⟨p, rfl⟩
  | cons e rest ih =>
      rw [List.append_cons] at distinct few
      cases e with
      | reserved n tag =>
          have new : tag ∉ tags es := fun there => by
            have early := (List.nodup_append.mp (by simpa [tags] using distinct)).2.2
            exact early tag there tag (by simp [Entry.tag]) rfl
          have room : (tags es).length < 4 := by
            simp only [tags, List.filterMap_append, List.length_append] at few ⊢
            simp [Entry.tag] at few
            omega
          have put := (built.reserve_eq_ok (n := n) new).mpr ⟨room, rfl⟩
          have more := built.reserve new capacious.1 put
          obtain ⟨q, ran⟩ := ih more distinct (by rw [sizes_concat]; exact capacious.2) few
          exact ⟨q, bind_eq_ok.mpr ⟨_, put, ran⟩⟩
      | chunk bytes =>
          obtain ⟨inside, int, later⟩ := capacious
          obtain ⟨next, put, more, memory⟩ := built.chunk inside int
          obtain ⟨q, ran⟩ := ih more distinct (by rw [sizes_concat, memory]; exact later) few
          exact ⟨q, bind_eq_ok.mpr ⟨next, put, ran⟩⟩

/-! ## Filling -/

/-- What comes back of an offset. -/
theorem Built.place (built : Built es p) {k : Nat} (there : es[k]? = some (.reserved n tag)) :
    p.getSrcReservedWithTag tag = .ok (wrap 8 (offset es k)) := by
  obtain ⟨j, -, name, stored⟩ := built.known k n tag there
  have first : (p.param.block.drop (4 * j)).take 1 = (ofInt 4 (offset es k)).take 1 := by
    rw [← stored, List.take_take]
    rfl
  have at_ : p.param.pointer tag = .ok (4 * j : Int) := by simp [Param.pointer, name]
  have low : (4 * j : Int).toNat = 4 * j := by omega
  rw [PBuffer.getSrcReservedWithTag, Param.getValue, at_, Except.map, low, field, List.drop_zero, first,
    toInt_take_one (by decide)]

end

/-- The memory after data went to these places, one after the other. -/
def filled (place : Str → Int) (data : Str → List Byte) (mem : List Byte) (order : List Str) : List Byte :=
  order.foldl (fun mem tag => poke mem (place tag) (data tag)) mem

theorem PBuffer.fillAll_eq {p : PBuffer} {data : Str → List Byte} {order : List Str} {place : Str → Int}
    (placed : ∀ tag ∈ order, p.getSrcReservedWithTag tag = .ok (place tag)) :
    p.fillAll data order = .ok { p with data := filled place data p.data order } := by
  induction order generalizing p with
  | nil => rfl
  | cons tag rest ih =>
      have first : p.allocateWithTag tag (data tag) = .ok { p with data := poke p.data (place tag) (data tag) } := by
        rw [PBuffer.allocateWithTag, placed tag (by simp)]
        rfl
      have others := ih (p := { p with data := poke p.data (place tag) (data tag) })
        fun tag' member => placed tag' (List.mem_cons_of_mem _ member)
      exact bind_eq_ok.mpr ⟨_, first, others⟩

section
variable {place : Str → Int} {data : Str → List Byte} {order : List Str} {mem : List Byte} {o n : Nat}

@[simp] theorem filled_length : (filled place data mem order).length = mem.length := by
  induction order generalizing mem with
  | nil => rfl
  | cons tag rest ih => exact ih.trans (poke_length ..)

theorem poke_nil (mem : List Byte) (off : Int) : poke mem off [] = mem := by
  apply List.ext_getElem?
  intro i
  rw [poke_getElem?]
  simp

/-- Data that goes elsewhere, or is none, leaves a stretch alone. -/
theorem filled_apart (apart : ∀ tag ∈ order, data tag = [] ∨ (o + n : Int) ≤ place tag ∨
    place tag + (data tag).length ≤ o) :
    ((filled place data mem order).drop o).take n = (mem.drop o).take n := by
  induction order generalizing mem with
  | nil => rfl
  | cons tag rest ih =>
      refine (ih fun tag' member => apart tag' (List.mem_cons_of_mem _ member)).trans ?_
      show ((poke mem (place tag) (data tag)).drop o).take n = _
      rcases apart tag (by simp) with none_ | aside
      · rw [none_, poke_nil]
      · exact poke_apart aside

/-- Data that goes to a stretch of its own is what stands there. -/
theorem filled_here {tag : Str} (member : tag ∈ order) (distinct : order.Nodup) (here : place tag = o)
    (inside : o + (data tag).length ≤ mem.length)
    (apart : ∀ tag' ∈ order, tag' ≠ tag → data tag' = [] ∨ (o + (data tag).length : Int) ≤ place tag' ∨
      place tag' + (data tag').length ≤ o) :
    ((filled place data mem order).drop o).take (data tag).length = data tag := by
  induction order generalizing mem with
  | nil => cases member
  | cons first rest ih =>
      obtain ⟨new, distinct⟩ := List.nodup_cons.mp distinct
      by_cases is : first = tag
      · have later : ∀ tag' ∈ rest, tag' ≠ tag := fun tag' there same => new (is ▸ same ▸ there)
        refine (filled_apart fun tag' there =>
          apart tag' (List.mem_cons_of_mem _ there) (later tag' there)).trans ?_
        show ((poke mem (place first) (data first)).drop o).take _ = _
        rw [is, here]
        exact poke_inside inside
      · exact ih ((List.mem_cons.mp member).resolve_left fun same => is same.symm) distinct (by simpa using inside)
          fun tag' there => apart tag' (List.mem_cons_of_mem _ there)

end

/-! ## The bytes in the end -/

section
variable {es : List Entry} {data : Str → List Byte}

theorem entries_apart {k l : Nat} {e e' : Entry} (one : es[k]? = some e) (two : es[l]? = some e') (other : k ≠ l) :
    offset es k + e.size ≤ offset es l ∨ offset es l + e'.size ≤ offset es k := Places.start_apart one two other

/-- Memory in which every entry stands where it belongs. -/
theorem take_entries {mem : List Byte}
    (stands : ∀ k e, es[k]? = some e → (mem.drop (offset es k)).take e.size = e.bytes data) :
    mem.take (sizes es) = es.flatMap (Entry.bytes data) := by
  induction es using List.reverseRecOn with
  | nil => rfl
  | append_singleton es e ih =>
      have last := stands es.length e (by simp)
      rw [offset_concat le_rfl, offset_length] at last
      rw [sizes_concat, List.take_add, last, ih fun k e' there => ?_]
      · simp
      · have inside := (List.getElem?_eq_some_iff.mp there).1
        have old := stands k e' (by rw [List.getElem?_append_left inside]; exact there)
        rwa [offset_concat (by omega)] at old

end

/-- Whatever the data and the order in which it comes, it ends up in its places and
    nowhere else, and the chunks stay as they are. -/
def Lands (p : PBuffer) (es : List Entry) : Prop :=
  ∀ data order, (∀ n tag, .reserved n tag ∈ es → (data tag).length = n) → order.Perm (tags es) →
    ∃ built q, p.putAll es = .ok built ∧ built.fillAll data order = .ok q ∧ q.writtenSize = sizes es ∧
      q.data = es.flatMap (Entry.bytes data) ++ built.data.drop (sizes es)

/-- There are slots for all tags, and each place with bytes has an offset that a `char` holds. -/
def Addressed (es : List Entry) : Prop :=
  (tags es).length ≤ 4 ∧ ∀ k n tag, es[k]? = some (.reserved n tag) → 0 < n → offset es k ≤ 127

theorem char_offset {o : Nat} : wrap 8 o = o ↔ o ≤ 127 := by
  constructor
  · intro same
    have high := Int.bmod_lt (x := o) (m := 2 ^ 8) (by decide)
    rw [wrap] at same
    norm_num at high same
    omega
  · intro low
    exact wrap_of_inRange (by decide) ⟨by omega, by norm_num; omega⟩

/-- Where the data of a tag goes. -/
def PBuffer.placeOf (p : PBuffer) (tag : Str) : Int := (p.getSrcReservedWithTag tag).toOption.getD 0

section
variable {p b : PBuffer} {es : List Entry} {data : Str → List Byte} {order : List Str}

theorem mem_tags {tag : Str} : tag ∈ tags es ↔ ∃ (k n : Nat), es[k]? = some (.reserved n tag) := by
  rw [tags, List.mem_filterMap]
  constructor
  · rintro ⟨e, member, is⟩
    obtain ⟨k, there⟩ := List.mem_iff_getElem?.mp member
    cases e with
    | reserved n tag' =>
        cases is
        exact ⟨k, n, there⟩
    | chunk bytes => cases is
  · rintro ⟨k, n, there⟩
    exact ⟨_, List.mem_of_getElem? there, rfl⟩

theorem Built.placeOf_eq (built : Built es b) {k n : Nat} {tag : Str}
    (there : es[k]? = some (.reserved n tag)) : b.placeOf tag = wrap 8 (offset es k) := by
  simp only [PBuffer.placeOf, built.place there, Except.toOption, Option.getD_some]

theorem Built.fillAll_eq (built : Built es b) (all : order.Perm (tags es)) :
    b.fillAll data order = .ok { b with data := filled b.placeOf data b.data order } :=
  PBuffer.fillAll_eq fun tag member => by
    obtain ⟨k, n, there⟩ := mem_tags.mp (all.mem_iff.mp member)
    rw [built.placeOf_eq there, built.place there]

theorem lands_of_addressed (blank : p.Blank) (distinct : (tags es).Nodup)
    (capacious : Capacious 0 p.data.length es) (addressed : Addressed es) : Lands p es := by
  intro data order lengths all
  obtain ⟨few, low⟩ := addressed
  obtain ⟨b, ran⟩ := (Built.blank blank).putAll_ends es distinct capacious few
  obtain ⟨built, room⟩ := (Built.blank blank).putAll es distinct capacious ran
  rw [List.nil_append] at built room
  have region : ∀ tag ∈ order, ∃ (k n : Nat), es[k]? = some (.reserved n tag) ∧ (data tag).length = n ∧
      (data tag = [] ∨ b.placeOf tag = offset es k) := by
    intro tag member
    obtain ⟨k, n, there⟩ := mem_tags.mp (all.mem_iff.mp member)
    have length := lengths n tag (List.mem_of_getElem? there)
    refine ⟨k, n, there, length, ?_⟩
    rcases Nat.eq_zero_or_pos n with none_ | some_
    · exact .inl (List.length_eq_zero_iff.mp (length.trans none_))
    · exact .inr ((built.placeOf_eq there).trans (char_offset.mpr (low k n tag there some_)))
  -- data of any place but the `k`th stays out of the `k`th entry
  have aside : ∀ {k : Nat} {e}, es[k]? = some e → ∀ tag ∈ order, e.tag ≠ some tag →
      data tag = [] ∨ (offset es k + e.size : Int) ≤ b.placeOf tag ∨
        b.placeOf tag + (data tag).length ≤ offset es k := by
    intro k e there tag member other
    obtain ⟨l, n, there', length, none_ | here⟩ := region tag member
    · exact .inl none_
    · right
      have unequal : k ≠ l := by
        rintro rfl
        cases there.symm.trans there'
        exact other rfl
      rcases entries_apart there there' unequal with before | behind
      · exact .inl (by rw [here]; exact_mod_cast before)
      · exact .inr (by rw [here, length]; exact_mod_cast behind)
  refine ⟨b, _, ran, built.fillAll_eq all, built.point, ?_⟩
  have front : (filled b.placeOf data b.data order).take (sizes es) = es.flatMap (Entry.bytes data) := by
    refine take_entries fun k e there => ?_
    cases e with
    | chunk bytes =>
        refine (filled_apart fun tag member => ?_).trans (built.kept k bytes there)
        exact aside there tag member (by simp [Entry.tag])
    | reserved n tag =>
        have length := lengths n tag (List.mem_of_getElem? there)
        rcases Nat.eq_zero_or_pos n with none_ | some_
        · simp [Entry.size, Entry.bytes, none_, List.length_eq_zero_iff.mp (length.trans none_)]
        · have member : tag ∈ order := all.mem_iff.mpr (mem_tags.mpr ⟨k, n, there⟩)
          have inside := offset_inside there
          show ((filled _ _ _ _).drop _).take n = data tag
          rw [← length]
          refine filled_here member (all.nodup_iff.mpr distinct) ?_ (by simp only [Entry.size] at inside; omega) ?_
          · exact (built.placeOf_eq there).trans (char_offset.mpr (low k n tag there some_))
          · intro tag' member' other
            have out := aside there tag' member' (by simpa [Entry.tag] using other.symm)
            rwa [Entry.size, ← length] at out
  have tail : (filled b.placeOf data b.data order).drop (sizes es) = b.data.drop (sizes es) := by
    have same : ((filled b.placeOf data b.data order).drop (sizes es)).take b.data.length =
        (b.data.drop (sizes es)).take b.data.length := filled_apart fun tag member => by
        obtain ⟨k, n, there, length, none_ | here⟩ := region tag member
        · exact .inl none_
        · have inside := offset_inside there
          simp only [Entry.size] at inside
          exact .inr (.inr (by rw [here, length]; exact_mod_cast inside))
    rwa [List.take_of_length_le (by simp), List.take_of_length_le (by simp)] at same
  rw [← front, ← tail, List.take_append_drop]

theorem exists_data (distinct : (tags es).Nodup) :
    ∃ data : Str → List Byte, ∀ n tag, .reserved n tag ∈ es → (data tag).length = n := by
  induction es with
  | nil => exact ⟨fun _ => [], by simp⟩
  | cons e rest ih =>
      cases e with
      | chunk bytes =>
          obtain ⟨data, lengths⟩ := ih distinct
          exact ⟨data, fun n tag member => lengths n tag (by simpa using member)⟩
      | reserved n tag =>
          obtain ⟨new, distinct⟩ := List.nodup_cons.mp (show (tag :: tags rest).Nodup from distinct)
          obtain ⟨data, lengths⟩ := ih distinct
          refine ⟨Function.update data tag (List.replicate n 0), fun m other member => ?_⟩
          rcases List.mem_cons.mp member with same | there
          · cases same
            simp
          · have apart : other ≠ tag := fun same => new (List.mem_filterMap.mpr ⟨_, there, by rw [Entry.tag, same]⟩)
            rw [Function.update_of_ne apart]
            exact lengths m other there

/-- Each entry stands where it belongs in all of them together. -/
theorem entries_slice (lengths : ∀ n tag, .reserved n tag ∈ es → (data tag).length = n) {k : Nat} {e : Entry}
    (there : es[k]? = some e) :
    ((es.flatMap (Entry.bytes data)).drop (offset es k)).take e.size = e.bytes data := by
  have length : ∀ e ∈ es, (e.bytes data).length = e.size := fun e member => by
    cases e with
    | reserved n tag => exact lengths n tag member
    | chunk bytes => rfl
  obtain ⟨inside, is⟩ := List.getElem?_eq_some_iff.mp there
  have split : es = es.take k ++ e :: es.drop (k + 1) := by
    rw [← is, List.cons_getElem_drop_succ, List.take_append_drop]
  have front : ((es.take k).flatMap (Entry.bytes data)).length = offset es k := by
    rw [List.length_flatMap, offset, sizes]
    exact congrArg List.sum (List.map_congr_left fun e member => length e (List.mem_of_mem_take member))
  have whole : es.flatMap (Entry.bytes data) = (es.take k).flatMap (Entry.bytes data) ++
      (e.bytes data ++ (es.drop (k + 1)).flatMap (Entry.bytes data)) := by
    conv_lhs => rw [split]
    rw [List.flatMap_append, List.flatMap_cons]
  rw [whole, ← front, List.drop_left, ← length e (List.mem_of_getElem? there), List.take_left]

/-- A byte that no data changes. -/
theorem filled_byte {place : Str → Int} {mem : List Byte} {e : Nat} {a : Byte} (was : mem[e]? = some a)
    (same : ∀ tag ∈ order, (∀ b ∈ data tag, b = a) ∨ place tag + (data tag).length ≤ e) :
    (filled place data mem order)[e]? = some a := by
  induction order generalizing mem with
  | nil => exact was
  | cons tag rest ih =>
      refine ih ?_ fun tag' member => same tag' (List.mem_cons_of_mem _ member)
      rcases same tag (by simp) with alike | before
      · rw [poke_getElem?, was, Option.map_some]
        split
        · cases got : (data tag)[((e : Int) - place tag).toNat]? with
          | none => rfl
          | some b => rw [Option.getD_some, alike b (List.mem_of_getElem? got)]
        · rfl
      · exact (poke_after before).trans was

theorem addressed_of_lands (blank : p.Blank) (distinct : (tags es).Nodup)
    (capacious : Capacious 0 p.data.length es) (lands : Lands p es) : Addressed es := by
  obtain ⟨data, lengths⟩ := exists_data distinct
  obtain ⟨b, -, ran, -⟩ := lands data (tags es) lengths (.refl _)
  obtain ⟨built, room⟩ := (Built.blank blank).putAll es distinct capacious ran
  rw [List.nil_append] at built room
  refine ⟨built.few, fun k n tag there some_ => ?_⟩
  by_contra high
  have inside := offset_inside there
  simp only [Entry.size] at inside
  -- the last byte of the place: its own data ends before it
  let last := offset es k + (n - 1)
  have short : last < b.data.length := by omega
  let a := b.data[last]
  let marked : Str → List Byte := fun t => (data t).map fun _ => if t = tag then a + 1 else a
  have length : ∀ t, (marked t).length = (data t).length := fun t => List.length_map ..
  have size := lengths n tag (List.mem_of_getElem? there)
  obtain ⟨b', q, ran', fill, -, is⟩ := lands marked (tags es) (fun m t member => (length t).trans (lengths m t member))
    (.refl _)
  obtain rfl : b = b' := Except.ok.inj (ran.symm.trans ran')
  rw [built.fillAll_eq (.refl _)] at fill
  obtain rfl := Except.ok.inj fill
  have old : (filled b.placeOf marked b.data (tags es))[last]? = some a := by
    refine filled_byte (List.getElem?_eq_getElem short) fun t member => ?_
    by_cases own : t = tag
    · right
      have low := Int.bmod_lt (x := offset es k) (m := 2 ^ 8) (by decide)
      rw [own, built.placeOf_eq there, length, size, wrap]
      norm_num at low ⊢
      omega
    · exact .inl fun c member => by
        obtain ⟨-, -, rfl⟩ := List.mem_map.mp member
        rw [if_neg own]
  have new : (es.flatMap (Entry.bytes marked) ++ b.data.drop (sizes es))[last]? = some (a + 1) := by
    have slice := entries_slice (fun m t member => (length t).trans (lengths m t member)) there
    have whole : (marked tag)[n - 1]? = some (a + 1) := by
      have bound : n - 1 < (data tag).length := by omega
      simp [marked, bound]
    have inner : ((es.flatMap (Entry.bytes marked)).drop (offset es k))[n - 1]? = some (a + 1) := by
      rw [← whole, ← show Entry.bytes marked (.reserved n tag) = marked tag from rfl, ← slice,
        List.getElem?_take_of_lt (by simp only [Entry.size]; omega)]
    rw [List.getElem?_drop] at inner
    rw [List.getElem?_append_left (List.getElem?_eq_some_iff.mp inner).1]
    exact inner
  rw [show filled b.placeOf marked b.data (tags es) = _ from is, new] at old
  exact absurd (Option.some.inj old) (by simp)

/-- Reserved places get their data, whatever it is and however it comes, exactly when
    there are at most four and each that has bytes begins at 127 at the latest. -/
theorem reservations_land_iff (blank : p.Blank) (distinct : (tags es).Nodup)
    (capacious : Capacious 0 p.data.length es) : Lands p es ↔ Addressed es :=
  ⟨addressed_of_lands blank distinct capacious, lands_of_addressed blank distinct capacious⟩

end

/-- `pBuffer(int)`, with zeros for what the source leaves open. -/
def PBuffer.zeros (n : Nat) : PBuffer := ⟨Param.ofTypes [.int, .int, .int, .int], n, 0, 0, List.replicate n 0⟩

theorem PBuffer.zeros_blank {n : Nat} (int : n < 2 ^ 31) : (PBuffer.zeros n).Blank :=
  ⟨rfl, rfl, rfl, by simp [zeros], by simp only [zeros]; omega⟩

@[simp] theorem PBuffer.zeros_length (n : Nat) : (PBuffer.zeros n).data.length = n := List.length_replicate

/-- Room for a header, and a text. -/
theorem reservations_land_header : Lands (PBuffer.zeros 256) [.reserved 32 (str "Header"), .chunk (str "hi")] ↔
    Addressed [.reserved 32 (str "Header"), .chunk (str "hi")] :=
  reservations_land_iff (PBuffer.zeros_blank (by decide)) (by decide)
    (by rw [PBuffer.zeros_length]; decide +kernel)

/-- The data of a place behind 128 bytes goes elsewhere. -/
theorem reservation_astray : ¬ ∀ (p : PBuffer) (es : List Entry), p.Blank → (tags es).Nodup →
    Capacious 0 p.data.length es → Lands p es := by
  intro land
  have capacious : Capacious 0 (PBuffer.zeros 256).data.length
      [.chunk (List.replicate 128 0), .reserved 1 (str "late")] := by
    rw [PBuffer.zeros_length]
    decide +kernel
  have blank := PBuffer.zeros_blank (n := 256) (by decide)
  have addressed := addressed_of_lands blank (by decide) capacious (land _ _ blank (by decide) capacious)
  exact absurd (addressed.2 1 1 (str "late") rfl one_pos) (by decide +kernel)

end NineProject
