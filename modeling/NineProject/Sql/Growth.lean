import NineProject.Sql.Connection

/-! # Tables that only grow

A client that runs nothing but insertions and selections only adds rows. `Store.Grows`
is what such a history does to the tables: every table keeps its columns and its rows,
in their order, and new rows come behind them under higher rowids. `Program.Only` says
that every statement a program may ever run meets a condition, whatever it is answered.
-/

namespace Sql

/-! ## Growth -/

/-- The rows stay where they are, and rows come behind them under higher rowids. -/
structure Table.Grows (before after : Table) : Prop where
  columns : after.columns = before.columns
  rows : ∃ new, after.rows = before.rows ++ new ∧ (new.map Row.rowid).Pairwise (· < ·) ∧
    ∀ old ∈ before.rows, ∀ r ∈ new, old.rowid < r.rowid

namespace Table.Grows

theorem refl (t : Table) : t.Grows t := ⟨rfl, [], by simp⟩

theorem trans {a b c : Table} (first : a.Grows b) (second : b.Grows c) : a.Grows c := by
  obtain ⟨columns, new, rows, sorted, above⟩ := first
  obtain ⟨columns', new', rows', sorted', above'⟩ := second
  refine ⟨columns'.trans columns, new ++ new', by rw [rows', rows, List.append_assoc], ?_, fun old member r added => ?_⟩
  · rw [List.map_append]
    refine List.pairwise_append.mpr ⟨sorted, sorted', ?_⟩
    rintro _ one _ two
    obtain ⟨r, member, rfl⟩ := List.mem_map.mp one
    obtain ⟨r', member', rfl⟩ := List.mem_map.mp two
    exact above' r (rows ▸ List.mem_append_right _ member) r' member'
  · rcases List.mem_append.mp added with early | late
    · exact above old member r early
    · exact above' old (rows ▸ List.mem_append_left _ member) r late

theorem isPrefix {a b : Table} (grows : a.Grows b) : a.rows <+: b.rows := by
  obtain ⟨new, rows, -⟩ := grows.rows
  exact ⟨new, rows.symm⟩

end Table.Grows

/-- Only tables in `K` change, and those only grow. -/
def Store.Grows (K : Str → Prop) (before after : Store) : Prop :=
  ∀ table, (before table).Grows (after table) ∧ (¬ K table → after table = before table)

namespace Store.Grows

variable {K : Str → Prop} {a b c : Store}

theorem refl (a : Store) : Store.Grows K a a := fun _ => ⟨.refl _, fun _ => rfl⟩

theorem trans (first : Store.Grows K a b) (second : Store.Grows K b c) : Store.Grows K a c := fun table =>
  ⟨(first table).1.trans (second table).1, fun other => ((second table).2 other).trans ((first table).2 other)⟩

instance : Std.Refl (Store.Grows K) := ⟨refl⟩

instance : IsTrans Store (Store.Grows K) := ⟨fun _ _ _ => trans⟩

theorem chain (grows : Relation.ReflTransGen (Store.Grows K) a b) : Store.Grows K a b := by
  induction grows with
  | refl => exact refl a
  | tail _ last ih => exact ih.trans last

theorem of_adds {table : Str} {r : Row} (adds : a.Adds b table r) (known : K table) : Store.Grows K a b := by
  obtain ⟨above, grown, others⟩ := adds
  intro name
  by_cases same : name = table
  · subst same
    refine ⟨⟨by rw [grown], [r], by rw [grown], by simp, fun old member r' is => ?_⟩, absurd known⟩
    rw [List.mem_singleton.mp is]
    exact above old member
  · rw [others name same]
    exact ⟨.refl _, fun _ => rfl⟩

/-- A row stays. -/
theorem mem (grows : Store.Grows K a b) {table : Str} {r : Row} (member : r ∈ (a table).rows) :
    r ∈ (b table).rows := (grows table).1.isPrefix.subset member

/-- What a selection found it finds again, in the same order, before anything new. -/
theorem select (grows : Store.Grows K a b) (numeric : Str → Value) (s : Select) :
    s.rows numeric a <+: s.rows numeric b := by
  obtain ⟨columns, new, rows, -⟩ := (grows s.table).1
  have meets : (a s.table).meets numeric = (b s.table).meets numeric :=
    funext fun r => funext fun c => Table.meets_columns numeric columns.symm r c
  have project : (a s.table).project = (b s.table).project := by
    cases here : a s.table
    cases there : b s.table
    simp only [here, there] at columns
    cases columns
    rfl
  unfold Select.rows
  rw [meets, project, Table.shows_columns columns.symm, rows, List.filter_append, List.map_append]
  split
  · exact List.prefix_append _ _
  · exact List.prefix_refl _

end Store.Grows

/-- A statement that means an insertion only adds to its table. -/
theorem Means.grows {σ : Type} {E : Engine σ} {numeric : Str → Value} {view : σ → Store} {text : Str} {i : Insert}
    {K : Str → Prop} (means : Means text i) (lawful : E.Lawful numeric view) (known : K i.table) (db : σ) :
    Store.Grows K (view db) (view (E.exec db text).1) := by
  rcases means.outcome lawful db with same | ⟨default, r, -, adds⟩
  · rw [same]
    exact .refl _
  · exact .of_adds adds known

/-! ## Statements that are understood -/

/-- The text means this statement, unless it is cut off inside a string. -/
def Faithful (text : Str) (s : Statement) : Prop :=
  readStatement text = some s ∨ Lexer.CutOff (Bytes.cString text)

/-- The rows that a text with the meaning of a selection returns: none where it is cut off. -/
def Select.shown (s : Select) (numeric : Str → Value) (text : Str) (store : Store) : List ResultRow :=
  if (lex (Bytes.cString text)).isSome then s.rows numeric store else []

theorem Select.shown_subset (s : Select) (numeric : Str → Value) (text : Str) (store : Store) :
    s.shown numeric text store ⊆ s.rows numeric store := by
  unfold shown
  split
  · exact List.Subset.refl _
  · exact List.nil_subset _

theorem Store.Grows.shown {K : Str → Prop} {a b : Store} (grows : Store.Grows K a b) (numeric : Str → Value)
    (s : Select) (text : Str) : s.shown numeric text a <+: s.shown numeric text b := by
  unfold Select.shown
  split
  · exact grows.select numeric s
  · exact List.prefix_refl _

/-- A text with the meaning of a selection leaves the connection as it is. -/
theorem Faithful.shows {σ : Type} {E : Engine σ} {numeric : Str → Value} {view : σ → Store} {text : Str} {s : Select}
    (faithful : Faithful text (.select s)) (lawful : E.Lawful numeric view) (db : σ) :
    E.exec db text = (db, s.shown numeric text (view db)) := by
  rcases faithful with read | cut
  · have whole : (lex (Bytes.cString text)).isSome := by
      unfold readStatement at read
      cases tokens : lex (Bytes.cString text) with
      | none => simp [tokens] at read
      | some ts => rfl
    rw [lawful.select db _ _ read, Select.shown, if_pos whole]
  · rw [lawful.malformed db _ cut, Select.shown, cut.unread]
    rfl

theorem Means.faithful {text : Str} {i : Insert} (means : Means text i) : Faithful text (.insert i) := means

/-- The tables that a statement adds to. -/
def Statement.AddsTo (K : Str → Prop) : Statement → Prop
  | .insert i => K i.table
  | .select _ => True

theorem Faithful.grows {σ : Type} {E : Engine σ} {numeric : Str → Value} {view : σ → Store} {text : Str}
    {s : Statement} {K : Str → Prop} (faithful : Faithful text s) (lawful : E.Lawful numeric view)
    (addsTo : s.AddsTo K) (db : σ) : Store.Grows K (view db) (view (E.exec db text).1) := by
  cases s with
  | insert i => exact Means.grows (i := i) faithful lawful addsTo db
  | select s =>
      rw [faithful.shows lawful]
      exact .refl _

/-! ## What a program may run -/

namespace Program

variable {σ ε α β : Type} {T : Str → Prop}

/-- Every statement the program may come to run meets `T`. -/
def Only (T : Str → Prop) : Program ε α → Prop
  | .done _ | .fail _ => True
  | .exec text next => T text ∧ ∀ rows, (next rows).Only T
  | .lastInsertRowid next => ∀ n, (next n).Only T

namespace Only

theorem pure (a : α) : Only T (Pure.pure a : Program ε α) := trivial

theorem fail (e : ε) : Only T (Program.fail e : Program ε α) := trivial

theorem statement {text : Str} (meets : T text) : Only T (Program.statement text : Program ε _) :=
  ⟨meets, fun _ => trivial⟩

theorem rowid : Only T (Program.rowid : Program ε _) := fun _ => trivial

theorem bind {p : Program ε α} {f : α → Program ε β} (first : Only T p) (rest : ∀ a, Only T (f a)) :
    Only T (p >>= f) := by
  show Only T (p.bind f)
  induction p with
  | done a => exact rest a
  | fail e => trivial
  | exec text next ih => exact ⟨first.1, fun rows => ih rows (first.2 rows)⟩
  | lastInsertRowid next ih => exact fun n => ih n (first n)

theorem executed {p : Program ε α} (only : Only T p) (E : Engine σ) (db : σ) :
    ∀ text ∈ (p.run E db).executed, T text := by
  induction p generalizing db with
  | done a => simp [run]
  | fail e => simp [run]
  | exec text next ih =>
      intro t member
      rcases List.mem_cons.mp member with rfl | later
      · exact only.1
      · exact ih _ (only.2 _) _ t later
  | lastInsertRowid next ih => exact ih _ (only _) db

/-- What every such statement does to the connection the program does. -/
theorem db {R : σ → σ → Prop} [Std.Refl R] [IsTrans σ R] {p : Program ε α} (only : Only T p) {E : Engine σ}
    (each : ∀ db text, T text → R db (E.exec db text).1) (db : σ) : R db (p.run E db).db := by
  induction p generalizing db with
  | done a => exact Std.Refl.refl db
  | fail e => exact Std.Refl.refl db
  | exec text next ih => exact IsTrans.trans _ _ _ (each db text only.1) (ih _ (only.2 _) _)
  | lastInsertRowid next ih => exact ih _ (only _) db

end Only

end Program

end Sql
