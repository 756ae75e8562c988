import NineProject.Readers
import NineProject.Sql.Memory

/-! # The password check

The answer is a comparison with what the row callback left behind: the password
of the last matching row, and the empty string where no row matched.
-/

namespace NineProject

open Bytes Sql Sql.Lexer

/-- The table `user` with rows of a rowid, an id and a password. -/
def userTable (users : List (Int × Str × Str)) : Table :=
  ⟨[⟨str "id", .text⟩, ⟨str "pw", .text⟩],
    users.map fun u => ⟨u.1, [.text u.2.1, .text u.2.2]⟩⟩

/-- The text is the name of a column of `user`, as SQLite compares names. -/
def namesUserColumn (id : Str) : Prop := (userTable []).knows id

instance (id : Str) : Decidable (namesUserColumn id) := inferInstanceAs (Decidable (_ = _))

/-- The rows that SQLite finds for an id: where it names a column or the rowid, that is what
    the ids are compared with, and a zero byte leaves the query without rows. -/
def rowsFound (numeric : Str → Value) (users : List (Int × Str × Str)) (id : Str) : List (Int × Str × Str) :=
  if 0 ∈ id then []
  else users.filter fun u => (userTable []).meets numeric ⟨u.1, [.text u.2.1, .text u.2.2]⟩ ⟨str "id", .eq, .quoted id⟩

/-- Otherwise they are the rows that have the id. -/
theorem rowsFound_plain (numeric : Str → Value) (users : List (Int × Str × Str)) {id : Str} (nulFree : 0 ∉ id)
    (noColumn : ¬ namesUserColumn id) : rowsFound numeric users id = users.filter fun u => u.2.1 = id := by
  rw [rowsFound, if_neg nulFree]
  refine List.filter_congr fun u _ => ?_
  have left : (userTable []).value ⟨u.1, [.text u.2.1, .text u.2.2]⟩ (str "id") = some (.text u.2.1) := rfl
  rw [Bool.eq_iff_iff, Table.meets_text numeric rfl noColumn, left]
  simp

/-- The password that the callback is left with. -/
def lastFound (numeric : Str → Value) (users : List (Int × Str × Str)) (id : Str) : Str :=
  ((rowsFound numeric users id).getLast?.map fun u => cString u.2.2).getD []

/-- The callback keeps the last password only. -/
theorem lastPassword (rows : List (Int × Str × Str)) (init : Str) :
    eachRow (fun _ row => argText row 0) init (rows.map fun u => ⟨u.1, [some u.2.2]⟩) =
      .ok ((rows.getLast?.map fun u => cString u.2.2).getD init) := by
  induction rows generalizing init with
  | nil => rfl
  | cons u rest ih =>
      have kept : argText ⟨u.1, [some u.2.2]⟩ 0 = .ok (cString u.2.2) := argText_eq rfl
      simp only [List.map_cons, eachRow, kept, Except.bind, ih]
      cases rest with
      | nil => rfl
      | cons v rest => simp [List.getLast?_cons]

section
variable {σ : Type} {E : Engine σ} {numeric : Str → Value} {view : σ → Store}

/-- The query hands the callback the passwords of the rows that are found. -/
theorem password_exec (lawful : E.Lawful numeric view) {db : σ} {users : List (Int × Str × Str)}
    (table : view db (str "user") = userTable users) {id : Str} (plain : 34 ∉ id) :
    E.exec db (selectQuery .user (0, .string id) 2 1) =
      (db, (rowsFound numeric users id).map fun u => ⟨u.1, [some u.2.2]⟩) := by
  have exec := selectText_exec lawful (.inr (show QueryDescriptor.user.dsc.HasColumn 0 by decide))
    (.inr (.inr (show QueryDescriptor.user.dsc.HasColumn 1 by decide))) rfl (by decide) plain db
  refine exec.trans (congrArg (Prod.mk db) ?_)
  rw [rowsFound]
  split
  · rfl
  · have rows : (userTable users).rows = users.map fun u => ⟨u.1, [.text u.2.1, .text u.2.2]⟩ := rfl
    have shown : ∀ u : Int × Str × Str, (userTable users).project
        ⟨u.1, [.text u.2.1, .text u.2.2]⟩ (.column (str "pw")) = [some u.2.2] := fun _ => rfl
    show Select.rows numeric ⟨.column (str "pw"), str "user", [⟨str "id", .eq, .quoted id⟩]⟩ (view db) = _
    have asked : (userTable users).shows (.column (str "pw")) = true := rfl
    simp only [Select.rows, table, asked, if_true, rows, List.filter_map, List.map_map, List.all_cons, List.all_nil, Bool.and_true]
    rfl

theorem checkUserPassword_found (lawful : E.Lawful numeric view) {db : σ} {users : List (Int × Str × Str)}
    (table : view db (str "user") = userTable users) {id pw : Str} (plain : 34 ∉ id) :
    ((Qr.checkUserPassword id pw).run E db).result = .ok (pw == lastFound numeric users id) := by
  have answer : eachRow (fun _ row => argText row 0) [] (E.exec db (selectQuery .user (0, .string id) 2 1)).2 =
      .ok (lastFound numeric users id) := by
    rw [password_exec lawful table plain, lastPassword, lastFound]
  simp only [Qr.checkUserPassword, Program.run_bind, query_run, answer, Program.run_pure]

/-- The password that is kept for an id, in the last of its rows. -/
def wantedPassword (users : List (Int × Str × Str)) (id : Str) : Str :=
  if 0 ∈ id then [] else (((users.filter fun u => u.2.1 = id).getLast?).map fun u => cString u.2.2).getD []

theorem checkUserPassword_result (lawful : E.Lawful numeric view) {db : σ}
    {users : List (Int × Str × Str)} (table : view db (str "user") = userTable users)
    {id pw : Str} (plain : 34 ∉ id) (noColumn : ¬ namesUserColumn id) :
    ((Qr.checkUserPassword id pw).run E db).result = .ok (pw == wantedPassword users id) := by
  rw [checkUserPassword_found lawful table plain, wantedPassword, lastFound]
  split
  · next zero => simp [rowsFound, zero]
  · next nulFree => rw [rowsFound_plain numeric users nulFree noColumn]

/-! ## Where the check is right -/

/-- The table has a row with this id and this password. -/
def Enrolled (users : List (Int × Str × Str)) (id pw : Str) : Prop := ∃ u ∈ users, u.2 = (id, pw)

instance (users : List (Int × Str × Str)) (id pw : Str) : Decidable (Enrolled users id pw) :=
  inferInstanceAs (Decidable (∃ u ∈ users, u.2 = (id, pw)))

/-- The input is of none of three kinds: nothing is found for the id, and the password is
    empty though the pair is not enrolled, or the other way round; the pair is enrolled, and
    the last row found has another password; it is not, and the last row found has this one. -/
structure Decisive (numeric : Str → Value) (users : List (Int × Str × Str)) (id pw : Str) : Prop where
  nothing : rowsFound numeric users id = [] → (pw = [] ↔ Enrolled users id pw)
  others : ∀ u ∈ (rowsFound numeric users id).getLast?, Enrolled users id pw → cString u.2.2 = pw
  lent : ∀ u ∈ (rowsFound numeric users id).getLast?, ¬ Enrolled users id pw → cString u.2.2 ≠ pw

/-- For an id that is only a text, and passwords without zero bytes, that is: the password of
    an id without rows is not empty, and of the passwords in the rows of an id the last counts. -/
theorem decisive_plain_iff {users : List (Int × Str × Str)} {id pw : Str} (nulFree : 0 ∉ id)
    (noColumn : ¬ namesUserColumn id) (stored : ∀ u ∈ users, 0 ∉ u.2.2) :
    Decisive numeric users id pw ↔ (pw = [] → ∃ u ∈ users, u.2.1 = id) ∧
      (Enrolled users id pw → ∀ u ∈ (users.filter fun u => u.2.1 = id).getLast?, u.2.2 = pw) := by
  have found := rowsFound_plain numeric users nulFree noColumn
  have last : ∀ u ∈ (users.filter fun u => u.2.1 = id).getLast?, u ∈ users ∧ u.2.1 = id ∧ cString u.2.2 = u.2.2 :=
    fun u is => by
      obtain ⟨member, same⟩ := List.mem_filter.mp (List.mem_of_getLast? is)
      exact ⟨member, of_decide_eq_true same, cString_fixed (stored u member)⟩
  constructor
  · rintro ⟨nothing, others, -⟩
    rw [found] at nothing others
    refine ⟨fun empty => ?_, fun enrolled u is => (last u is).2.2.symm.trans (others u is enrolled)⟩
    by_contra none_
    have nobody : ∀ u ∈ users, u.2.1 ≠ id := fun u member same => none_ ⟨u, member, same⟩
    obtain ⟨u, member, is⟩ := (nothing (List.filter_eq_nil_iff.mpr fun u member => by simpa using nobody u member)).mp empty
    exact nobody u member (congrArg Prod.fst is)
  · rintro ⟨known, counts⟩
    refine ⟨fun none_ => ?_, fun u is enrolled => ?_, fun u is unknown same => ?_⟩
    · rw [found, List.filter_eq_nil_iff] at none_
      have nobody : ∀ u ∈ users, u.2.1 ≠ id := fun u member => by simpa using none_ u member
      refine ⟨fun empty => ?_, fun ⟨u, member, is⟩ => absurd (congrArg Prod.fst is) (nobody u member)⟩
      obtain ⟨u, member, same⟩ := known empty
      exact absurd same (nobody u member)
    · rw [found] at is
      exact (last u is).2.2.trans (counts enrolled u is)
    · rw [found] at is
      obtain ⟨member, sameId, whole⟩ := last u is
      exact unknown ⟨u, member, Prod.ext sameId (whole.symm.trans same)⟩

/-- The check answers yes exactly for the pairs that are enrolled on the inputs that the
    last row found decides, and on no others. -/
theorem passwordCheck_correct_iff (lawful : E.Lawful numeric view) {db : σ}
    {users : List (Int × Str × Str)} (table : view db (str "user") = userTable users) {id pw : Str} (plain : 34 ∉ id) :
    (((Qr.checkUserPassword id pw).run E db).result = .ok true ↔ Enrolled users id pw) ↔
      Decisive numeric users id pw := by
  rw [checkUserPassword_found lawful table plain]
  simp only [Except.ok.injEq, beq_iff_eq, lastFound]
  cases final : (rowsFound numeric users id).getLast? with
  | none =>
      have none_ := List.getLast?_eq_none_iff.mp final
      simp only [Option.map_none, Option.getD_none]
      exact ⟨fun right => ⟨fun _ => right, by simp [final], by simp [final]⟩, fun decisive => decisive.nothing none_⟩
  | some u =>
      have some_ : rowsFound numeric users id ≠ [] := fun none_ => by simp [none_] at final
      simp only [Option.map_some, Option.getD_some]
      constructor
      · refine fun right => ⟨fun none_ => absurd none_ some_, fun v is enrolled => ?_, fun v is unknown same => ?_⟩
        · obtain rfl : u = v := by simpa [final] using is
          exact (right.mpr enrolled).symm
        · obtain rfl : u = v := by simpa [final] using is
          exact unknown (right.mp same.symm)
      · rintro ⟨-, others, lent⟩
        refine ⟨fun same => ?_, fun enrolled => (others u final enrolled).symm⟩
        by_contra unknown
        exact lent u final unknown same.symm

end

/-- A server that knows one user. -/
def annOnly : Memory := ⟨fun _ => userTable [(1, str "ann", str "secret")], 0⟩

theorem passwordCheck_correct_ann :
    (((Qr.checkUserPassword (str "ann") (str "secret")).run (Memory.engine .text .text)
        annOnly).result = .ok true ↔ Enrolled [(1, str "ann", str "secret")] (str "ann") (str "secret")) ↔
      Decisive .text [(1, str "ann", str "secret")] (str "ann") (str "secret") :=
  passwordCheck_correct_iff (Memory.engine_lawful .text .text)
    (show annOnly.store (str "user") = _ from rfl) (by decide)

/-- An unknown user with an empty password is let in. -/
theorem passwordCheck_bypassed :
    ¬ ∀ (E : Engine Memory) (view : Memory → Store), E.Lawful .text view →
      ∀ (db : Memory) (users : List (Int × Str × Str)), view db (str "user") = userTable users →
      ∀ id pw : Str, 34 ∉ id → ¬ namesUserColumn id →
        (((Qr.checkUserPassword id pw).run E db).result = .ok true ↔ Enrolled users id pw) := by
  intro right
  have known := (right (Memory.engine .text .text) Memory.store (Memory.engine_lawful .text .text)
    annOnly [(1, str "ann", str "secret")] rfl (str "bob") [] (by decide) (by decide)).mp rfl
  exact absurd known (by decide)

end NineProject
