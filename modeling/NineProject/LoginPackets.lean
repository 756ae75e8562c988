import NineProject.Reservations
import NineProject.Session.Machine
import NineProject.Session.Returns

/-! # Login packets

The client writes the two sizes of a login, the id and the password behind each other.
`logc_login` reads the sizes as the two `int` they are; a session reads a `char` of each,
asks for as many bytes and cuts them in two.
-/

namespace NineProject

open Bytes M Effect

/-- `rqlog`, 8 bytes. -/
structure RqLog where
  sizeofId : Int
  sizeofPw : Int
  deriving DecidableEq, Repr

namespace RqLog

def ofBytes (b : List Byte) : RqLog := ⟨field b 0 4, field b 4 4⟩

def toBytes (r : RqLog) : List Byte := ofInt 4 r.sizeofId ++ ofInt 4 r.sizeofPw

@[simp] theorem toBytes_length (r : RqLog) : r.toBytes.length = rqlogSize := by
  simp [toBytes, rqlogSize]

end RqLog

/-! ## The client -/

/-- The size of the buffer the client puts a login together in. -/
def stagingSize : Nat := 512

/-- The sizes `req_login` hands on. -/
def reqLogin (id pw : Str) : RqLog := ⟨wrap 32 id.length, wrap 32 pw.length⟩

/-- `req_login_handle`: what it writes, with `buf` for the staging buffer as it finds it. -/
def reqLoginHandle (buf : List Byte) (r : RqLog) (id pw : Str) : List Byte :=
  let size := wrap 32 (rqlogSize + id.length + pw.length)
  let buf := poke buf 0 r.toBytes
  let buf := poke buf rqlogSize id
  let buf := poke buf (rqlogSize + id.length : Nat) pw
  buf.take size.toNat

/-- The bytes of a login. -/
def loginPacket (buf : List Byte) (id pw : Str) : List Byte := reqLoginHandle buf (reqLogin id pw) id pw

/-! ## The two decoders -/

/-- The id and the password that `response_req_login` makes of what was read. -/
def loginArguments (h : PBuffer) (idSize pwSize : Int) : Except Fault (Str × Str) :=
  if idSize < 0 ∨ pwSize < 0 then .error (.thrown .lengthError)
  else .ok (h.data.take idSize.toNat, (h.data.drop idSize.toNat).take pwSize.toNat)

section
variable {σ : Type} (lib : External σ)

/-- What it does with them. -/
def loginWith (id pw : Str) : M σ Unit := do
  let result ← runQuery lib .checkUserPassword (Qr.checkUserPassword id pw)
  emit (.login result)
  when result (sessionInit lib none id)
  let _hd ← front
  asyncWrite (strtLogResp result) false

theorem responseReqLogin_eq (h : PBuffer) (idSize pwSize : Int) : responseReqLogin lib none h idSize pwSize =
    (do
      let (id, pw) ← lift (loginArguments h idSize pwSize)
      loginWith lib id pw) := by
  unfold responseReqLogin loginArguments
  by_cases negative : idSize < 0 ∨ pwSize < 0
  · simp only [Option.isSome_none, Bool.false_eq_true, if_false, negative, if_true]
    rfl
  · simp only [Option.isSome_none, Bool.false_eq_true, if_false, negative]
    rfl

/-- The read of the sizes completes, the session starts to read as many bytes, and when
    this read completes too, these are the id and the password it checks. -/
def SessionDecodes (w : World σ) (index : Nat) (id pw : Str) : Prop :=
  ∃ v idpw idSize pwSize ticket, next lib w (.complete ⟨index, none, 0, false⟩) = some v ∧ v.stopped = none ∧
    v.pending.getLast? = some ⟨.login idpw idSize pwSize, ticket⟩ ∧
    ∃ got socket, transfer ⟨.login idpw idSize pwSize, ticket⟩ ⟨v.pending.length - 1, none, 0, false⟩ v.self.socket =
      some (got, socket) ∧ loginArguments (idpw.receive got) idSize pwSize = .ok (id, pw)

end

/-! ## What the client writes -/

section
variable {buf : List Byte} {id pw : Str}

/-- A copy that begins where the first `off` bytes end. -/
theorem poke_take_end {mem src : List Byte} {off : Nat} (room : off + src.length ≤ mem.length) :
    (poke mem off src).take (off + src.length) = mem.take off ++ src := by
  rw [List.take_add, poke_inside room, poke_take (le_refl _)]

theorem field_take {b : List Byte} {n off k : Nat} (inside : off + k ≤ n) : field (b.take n) off k = field b off k := by
  rw [field, field, List.drop_take, List.take_take, min_eq_left (by omega)]

/-- The first bytes of the two sizes, as the session reads them. -/
theorem sizes_read {stale : List Byte} (room : rqlogSize ≤ stale.length) (r : RqLog) :
    field (poke stale 0 r.toBytes) 0 1 = wrap 8 r.sizeofId ∧ field (poke stale 0 r.toBytes) 4 1 = wrap 8 r.sizeofPw := by
  have record := r.toBytes_length
  have front : (poke stale (0 : Nat) r.toBytes).take (0 + r.toBytes.length) = r.toBytes := by
    rw [poke_take_end (by omega), List.take_zero, List.nil_append]
  rw [record, Nat.zero_add] at front
  have second := field_append_right (ofInt 4 r.sizeofId) (ofInt 4 r.sizeofPw) 0 1
  rw [ofInt_length] at second
  constructor
  · rw [← field_take (n := rqlogSize) (by decide)]
    show field ((poke stale (0 : Nat) r.toBytes).take rqlogSize) 0 1 = _
    rw [front, RqLog.toBytes, ← field_take (n := 4) (by decide)]
    show field ((ofInt 4 r.sizeofId ++ _).take 4) 0 1 = _
    rw [List.take_left' (ofInt_length 4 _)]
    exact toInt_take_one (by decide) _
  · rw [← field_take (n := rqlogSize) (by decide)]
    show field ((poke stale (0 : Nat) r.toBytes).take rqlogSize) 4 1 = _
    rw [front, RqLog.toBytes, second]
    exact toInt_take_one (by decide) _

variable {σ : Type} {lib : External σ}

/-- What the session makes of the bytes behind the sizes. -/
theorem loginArguments_received {idpw : PBuffer} {idSize pwSize : Int} {input : List Byte}
    (made : PBuffer.ofSize (idSize + pwSize) = .ok idpw) (there : (idSize + pwSize).toNat ≤ input.length) :
    loginArguments (idpw.receive (input.take (idSize + pwSize).toNat)) idSize pwSize = .ok (id, pw) ↔
      0 ≤ idSize ∧ 0 ≤ pwSize ∧ input.take idSize.toNat = id ∧ (input.drop idSize.toNat).take pwSize.toNat = pw := by
  by_cases negative : idSize < 0 ∨ pwSize < 0
  · simp only [loginArguments, if_pos negative, reduceCtorEq, false_iff]
    omega
  · obtain ⟨n, rfl⟩ : ∃ n : Nat, idSize = n := ⟨idSize.toNat, by omega⟩
    obtain ⟨m, rfl⟩ : ∃ m : Nat, pwSize = m := ⟨pwSize.toNat, by omega⟩
    have total : ((n : Int) + m).toNat = n + m := by omega
    rw [total] at there ⊢
    have data : (idpw.receive (input.take (n + m))).data = input.take (n + m) := by
      have positive : ¬ (n : Int) + m < 0 := by omega
      simp only [PBuffer.ofSize, PBuffer.newChars, if_neg positive, total, Except.map, Except.ok.injEq] at made
      have length : (input.take (n + m)).length = n + m := by simp [there]
      have all : (poke (List.replicate (n + m) 0) (0 : Nat) (input.take (n + m))).take
          (0 + (input.take (n + m)).length) = _ := poke_take_end (by simp)
      rw [length, Nat.zero_add, List.take_of_length_le (by simp), List.take_zero, List.nil_append] at all
      rw [← made]
      exact all
    simp only [loginArguments, if_neg negative, data, Int.toNat_natCast, List.take_take, List.drop_take,
      Except.ok.injEq, Prod.mk.injEq, Nat.add_sub_cancel_left, min_self, Nat.le_add_right, min_eq_left,
      Int.natCast_nonneg, true_and]

/-- What a session decodes is what it checks. -/
theorem SessionDecodes.checks {w : World σ} {index : Nat} (decodes : SessionDecodes lib w index id pw) :
    ∃ v op socket, next lib w (.complete ⟨index, none, 0, false⟩) = some v ∧
      next lib v (.complete ⟨v.pending.length - 1, none, 0, false⟩) =
        some ((v.completing (v.pending.length - 1) op socket).exec (loginWith lib id pw)) := by
  obtain ⟨v, idpw, idSize, pwSize, ticket, stepped, running, last, got, socket, moved, decoded⟩ := decodes
  refine ⟨v, ⟨.login idpw idSize pwSize, ticket⟩, socket, stepped, ?_⟩
  have checked : complete lib ⟨.login idpw idSize pwSize, ticket⟩ none got false = loginWith lib id pw := by
    show responseReqLogin lib none (idpw.receive got) idSize pwSize = _
    rw [responseReqLogin_eq, decoded]
    rfl
  rw [List.getLast?_eq_getElem?] at last
  simp only [next, running, Option.isSome_none, Bool.false_eq_true, if_false, last, Option.bind_some, moved,
    Option.map_some, checked]

end

/-! ## Ann's login -/

end NineProject
