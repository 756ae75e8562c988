import NineProject.Base.Decimal

/-! # Reading SQL text as tokens

The lexical rules of SQLite as an automaton that takes one byte at a time. A
string in double quotes (an identifier, or a text where no column has that name)
and a literal in single quotes end at the first closing quote that is not
doubled. A minus sign and the digits behind it are read as one signed number;
the statements read here subtract nothing.
-/

namespace Sql

inductive Token where
  | word (w : Str)
  /-- Between double quotes, with doubled quotes undone. -/
  | quoted (v : Str)
  /-- Between single quotes. -/
  | literal (v : Str)
  | number (n : Int)
  | punct (p : Str)
  deriving DecidableEq, Repr

/-- What has been read of the token the next byte may continue. -/
inductive Mode where
  | gap
  | word (w : Str)
  | number (negative : Bool) (n : Nat)
  | string (delim : Byte) (v : Str)
  /-- A delimiter inside a string: the end, unless the next byte doubles it. -/
  | closing (delim : Byte) (v : Str)
  | operator (b : Byte)
  | minus
  | comment

namespace Lexer

def isIdStart (b : Byte) : Bool :=
  (65 ≤ b && b ≤ 90) || (97 ≤ b && b ≤ 122) || b == 95 || 128 ≤ b

def isIdChar (b : Byte) : Bool := isIdStart b || Decimal.isDigit b || b == 36

def isBlank (b : Byte) : Bool := b == 32 || b == 9 || b == 10 || b == 12 || b == 13

def stringToken (delim : Byte) (v : Str) : Token :=
  if delim = 34 then .quoted v else .literal v

def numberToken (negative : Bool) (n : Nat) : Token :=
  .number (if negative then -n else n)

/-- The two-byte operators. -/
def isPair (a b : Byte) : Bool :=
  [a, b] ∈ [str "==", str "<=", str "<>", str "<<", str ">=", str ">>", str "!=", str "||"]

/-- A byte read where no token is open. -/
def enter (b : Byte) : Option (List Token × Mode) :=
  if isBlank b then some ([], .gap)
  else if isIdStart b then some ([], .word [b])
  else if Decimal.isDigit b then some ([], .number false (b.toNat - 48))
  else if b = 34 ∨ b = 39 then some ([], .string b [])
  else if b = 45 then some ([], .minus)
  else if b ∈ str "=<>!|" then some ([], .operator b)
  else if b ∈ str "(),;*+/.%&~" then some ([.punct [b]], .gap)
  else none

/-- A token that ends before the byte that is then read afresh. -/
def before (t : Token) (next : Option (List Token × Mode)) : Option (List Token × Mode) :=
  next.map fun r => (t :: r.1, r.2)

def advance : Mode → Byte → Option (List Token × Mode)
  | .gap, b => enter b
  | .word w, b => if isIdChar b then some ([], .word (w ++ [b])) else before (.word w) (enter b)
  | .number neg n, b =>
      if Decimal.isDigit b then some ([], .number neg (10 * n + (b.toNat - 48)))
      else if isIdChar b then none
      else before (numberToken neg n) (enter b)
  | .string d v, b => if b = d then some ([], .closing d v) else some ([], .string d (v ++ [b]))
  | .closing d v, b =>
      if b = d then some ([], .string d (v ++ [d])) else before (stringToken d v) (enter b)
  | .operator a, b =>
      if isPair a b then some ([.punct [a, b]], .gap)
      else if a = 33 then none
      else before (.punct [a]) (enter b)
  | .minus, b =>
      if Decimal.isDigit b then some ([], .number true (b.toNat - 48))
      else if b = 45 then some ([], .comment)
      else before (.punct [45]) (enter b)
  | .comment, b => if b = 10 then some ([], .gap) else some ([], .comment)

/-- The text ends: an open string does not. -/
def finish : Mode → Option (List Token)
  | .gap | .comment => some []
  | .word w => some [.word w]
  | .number neg n => some [numberToken neg n]
  | .string _ _ => none
  | .closing d v => some [stringToken d v]
  | .operator b => if b = 33 then none else some [.punct [b]]
  | .minus => some [.punct [45]]

def emit (ts : List Token) (rest : Option (List Token)) : Option (List Token) :=
  rest.map (ts ++ ·)

def lexFrom : Mode → Str → Option (List Token)
  | m, [] => finish m
  | m, b :: rest => match advance m b with
    | none => none
    | some (ts, m') => emit ts (lexFrom m' rest)

end Lexer

/-- The tokens of a text, `none` if some part of it is no token. -/
def lex (text : Str) : Option (List Token) := Lexer.lexFrom .gap text

namespace Lexer

@[simp] theorem emit_nil (rest : Option (List Token)) : emit [] rest = rest := by
  cases rest <;> rfl

@[simp] theorem emit_emit (ts us : List Token) (rest : Option (List Token)) :
    emit ts (emit us rest) = emit (ts ++ us) rest := by
  cases rest <;> simp [emit]

@[simp] theorem emit_cons_eq {t : Token} {ts us : List Token} {rest : Option (List Token)} :
    emit (t :: ts) rest = some (t :: us) ↔ emit ts rest = some us := by
  cases rest <;> simp [emit]

theorem lexFrom_cons {m m' : Mode} {b : Byte} {ts : List Token} (h : advance m b = some (ts, m'))
    (rest : Str) : lexFrom m (b :: rest) = emit ts (lexFrom m' rest) := by
  rw [lexFrom, h]

/-- A byte that only adds to the open token. -/
theorem lexFrom_more {m n : Mode} {b : Byte} (h : advance m b = some ([], n)) (rest : Str) :
    lexFrom m (b :: rest) = lexFrom n rest := by
  rw [lexFrom_cons h, emit_nil]

/-- A token that the next byte does not continue is followed by what a gap before
    that byte is followed by. -/
theorem lexFrom_before {m : Mode} {t : Token} {b : Byte} (h : advance m b = before t (enter b))
    (rest : Str) : lexFrom m (b :: rest) = emit [t] (lexFrom .gap (b :: rest)) := by
  rw [lexFrom, h, lexFrom, advance]
  cases enter b with
  | none => rfl
  | some r => simp [before]

/-- What a part of a text adds, and what it leaves open. -/
def scan : Mode → Str → Option (List Token × Mode)
  | m, [] => some ([], m)
  | m, b :: rest =>
      (advance m b).bind fun r => (scan r.2 rest).map fun t => (r.1 ++ t.1, t.2)

/-- A known part of a text is read by running the automaton over it. -/
theorem lexFrom_append {m n : Mode} {p : Str} {t : List Token} (h : scan m p = some (t, n))
    (rest : Str) : lexFrom m (p ++ rest) = emit t (lexFrom n rest) := by
  induction p generalizing m t with
  | nil =>
      cases h
      rw [List.nil_append, emit_nil]
  | cons b p ih =>
      obtain ⟨⟨us, m₁⟩, step, tail⟩ := Option.bind_eq_some_iff.mp h
      obtain ⟨⟨vs, m₂⟩, run, same⟩ := Option.map_eq_some_iff.mp tail
      cases same
      rw [List.cons_append, lexFrom_cons step, ih run, emit_emit]

/-! ## Strings -/

/-- A text as it stands between two delimiters: the delimiter is doubled. -/
def double (d : Byte) (v : Str) : Str := v.flatMap fun b => if b = d then [d, d] else [b]

@[simp] theorem double_nil (d : Byte) : double d [] = [] := rfl

theorem double_cons (d b : Byte) (v : Str) :
    double d (b :: v) = (if b = d then [d, d] else [b]) ++ double d v := rfl

theorem double_fixed {d : Byte} {v : Str} (h : d ∉ v) : double d v = v := by
  induction v with
  | nil => rfl
  | cons b v ih =>
      simp only [List.mem_cons, not_or] at h
      rw [double_cons, if_neg (Ne.symm h.1), ih h.2, List.singleton_append]

/-- The text behind a string does not start by doubling its delimiter. -/
def Closed (d : Byte) (rest : Str) : Prop := rest.head? ≠ some d

theorem string_end (d : Byte) (v rest : Str) :
    lexFrom (.string d v) (d :: rest) = lexFrom (.closing d v) rest :=
  lexFrom_more (m := .string d v) (n := .closing d v) (if_pos rfl) rest

theorem string_more {d b : Byte} (other : b ≠ d) (v rest : Str) :
    lexFrom (.string d v) (b :: rest) = lexFrom (.string d (v ++ [b])) rest :=
  lexFrom_more (m := .string d v) (n := .string d (v ++ [b])) (if_neg other) rest

theorem closing_again (d : Byte) (v rest : Str) :
    lexFrom (.closing d v) (d :: rest) = lexFrom (.string d (v ++ [d])) rest :=
  lexFrom_more (m := .closing d v) (n := .string d (v ++ [d])) (if_pos rfl) rest

theorem closing_end {d : Byte} {rest : Str} (closed : Closed d rest) (v : Str) :
    lexFrom (.closing d v) rest = emit [stringToken d v] (lexFrom .gap rest) := by
  cases rest with
  | nil => rfl
  | cons b rest =>
      have other : b ≠ d := fun same => closed (by simp [same])
      exact lexFrom_before (m := .closing d v) (if_neg other) rest

/-- Quoting is undone by reading. -/
theorem lexFrom_double (d : Byte) (v w rest : Str) (closed : Closed d rest) :
    lexFrom (.string d w) (double d v ++ d :: rest) =
      emit [stringToken d (w ++ v)] (lexFrom .gap rest) := by
  induction v generalizing w with
  | nil => rw [double_nil, List.nil_append, string_end, closing_end closed, List.append_nil]
  | cons b v ih =>
      rw [double_cons]
      by_cases same : b = d
      · subst same
        simp only [if_true, List.cons_append, List.nil_append, string_end, closing_again, ih,
          List.append_assoc]
      · simp only [same, if_false, List.cons_append, List.nil_append, string_more same, ih,
          List.append_assoc]

/-- Conversely the first token read inside a string is what stands, doubled, before
    the delimiter that ends it. -/
theorem lexFrom_string {d : Byte} {text w : Str} {t : Token} {ts : List Token}
    (h : lexFrom (.string d w) text = some (t :: ts)) :
    ∃ v rest, text = double d v ++ d :: rest ∧ Closed d rest ∧ t = stringToken d (w ++ v) ∧
      lexFrom .gap rest = some ts := by
  induction n : text.length using Nat.strong_induction_on generalizing text w with
  | _ n ih =>
      cases text with
      | nil => cases h
      | cons b text =>
          simp only [List.length_cons] at n
          by_cases same : b = d
          · subst same
            rw [string_end] at h
            by_cases again : text.head? = some b
            · -- a doubled delimiter: the string goes on behind it
              obtain ⟨text, rfl⟩ := List.head?_eq_some_iff.mp again
              rw [closing_again] at h
              simp only [List.length_cons] at n
              obtain ⟨v, rest, rfl, closed, rfl, tail⟩ := ih text.length (by omega) h rfl
              exact ⟨b :: v, rest, by simp [double_cons], closed, by simp, tail⟩
            · rw [closing_end again] at h
              cases tail : lexFrom .gap text with
              | none => rw [tail] at h; cases h
              | some us =>
                  rw [tail] at h
                  obtain ⟨rfl, rfl⟩ := List.cons.inj (Option.some.inj h)
                  exact ⟨[], text, rfl, again, by simp, tail⟩
          · rw [string_more same] at h
            obtain ⟨v, rest, rfl, closed, rfl, tail⟩ := ih text.length (by omega) h rfl
            exact ⟨b :: v, rest, by simp [double_cons, same], closed, by simp, tail⟩

private theorem double_overruns {d : Byte} {v rest rest' : Str} {k : Nat} (closed : Closed d rest)
    (same : v ++ d :: rest = List.replicate (k + 1) d ++ double d v ++ d :: rest') : False := by
  induction v generalizing k with
  | nil =>
      simp only [List.nil_append, double_nil, List.append_nil, List.replicate_succ,
        List.cons_append, List.cons.injEq, true_and] at same
      apply closed
      subst same
      cases k <;> simp [List.replicate_succ]
  | cons b v ih =>
      simp only [List.replicate_succ, List.cons_append, List.cons.injEq] at same
      obtain ⟨rfl, same⟩ := same
      apply ih (k := k + 1)
      rw [same, double_cons, if_pos rfl, List.replicate_succ', List.replicate_succ']
      simp

/-- A text stands for itself between delimiters only if it holds none. -/
theorem double_free {d : Byte} {v rest rest' : Str} (closed : Closed d rest)
    (same : v ++ d :: rest = double d v ++ d :: rest') : d ∉ v := by
  induction v with
  | nil => simp
  | cons b v ih =>
      by_cases here : b = d
      · subst here
        rw [double_cons, if_pos rfl] at same
        simp only [List.cons_append, List.nil_append, List.cons.injEq, true_and] at same
        exact (double_overruns (k := 0) closed (by simpa using same)).elim
      · rw [double_cons, if_neg here] at same
        simp only [List.cons_append, List.nil_append, List.cons.injEq, true_and] at same
        simp only [List.mem_cons, not_or]
        exact ⟨fun h => here h.symm, ih same⟩

/-- A text put between delimiters as it is reads back as that text exactly when it
    holds no delimiter. -/
theorem lexFrom_raw_iff {d : Byte} {v rest : Str} {ts : List Token} (closed : Closed d rest) :
    lexFrom (.string d []) (v ++ d :: rest) = some (stringToken d v :: ts) ↔
      d ∉ v ∧ lexFrom .gap rest = some ts := by
  constructor
  · intro h
    obtain ⟨w, rest', same, _, token, tail⟩ := lexFrom_string h
    have value : v = w := by
      simp only [stringToken, List.nil_append] at token
      split at token <;> simpa using token
    subst value
    have free := double_free closed same
    rw [double_fixed free] at same
    obtain rfl : rest = rest' := by simpa using same
    exact ⟨free, tail⟩
  · rintro ⟨free, tail⟩
    have read := lexFrom_double d v [] rest closed
    rw [double_fixed free] at read
    simp [read, tail, emit]

/-- A string that is never closed makes no token. -/
theorem lexFrom_open {d : Byte} {v w : Str} (free : d ∉ v) : lexFrom (.string d w) v = none := by
  induction v generalizing w with
  | nil => rfl
  | cons b v ih =>
      simp only [List.mem_cons, not_or] at free
      rw [string_more (Ne.symm free.1), ih free.2]

/-! ## Texts that are cut off -/

private theorem enter_running {b : Byte} {ts : List Token} {m : Mode} (step : enter b = some (ts, m))
    (other : b ≠ 59) : .punct (str ";") ∉ ts ∧ m ≠ .operator 59 := by
  have apart : str ";" ≠ [b] := fun same => other (List.singleton_inj.mp same).symm
  unfold enter at step
  split_ifs at step <;> cases step <;> simp [other, apart]

private theorem before_running {t : Token} {b : Byte} {ts : List Token} {m : Mode}
    (step : before t (enter b) = some (ts, m)) (other : b ≠ 59) (first : t ≠ .punct (str ";")) :
    .punct (str ";") ∉ ts ∧ m ≠ .operator 59 := by
  obtain ⟨⟨us, m'⟩, entered, is⟩ := Option.map_eq_some_iff.mp step
  cases is
  obtain ⟨running, mode⟩ := enter_running entered other
  exact ⟨by simp [running, first.symm], mode⟩

private theorem advance_running {m m' : Mode} {b : Byte} {ts : List Token} (step : advance m b = some (ts, m'))
    (other : b ≠ 59) (mode : m ≠ .operator 59) : .punct (str ";") ∉ ts ∧ m' ≠ .operator 59 := by
  cases m with
  | gap => exact enter_running step other
  | word w =>
      simp only [advance] at step
      split at step
      · cases step
        simp
      · exact before_running step other (by simp)
  | number neg n =>
      simp only [advance] at step
      split at step
      · cases step
        simp
      · split at step
        · cases step
        · exact before_running step other (by simp [numberToken])
  | string d v =>
      simp only [advance] at step
      split at step <;> cases step <;> simp
  | closing d v =>
      simp only [advance] at step
      split at step
      · cases step
        simp
      · exact before_running step other (by unfold stringToken; split <;> simp)
  | operator a =>
      simp only [advance] at step
      have apart : a ≠ 59 := fun same => mode (by rw [same])
      split at step
      · cases step
        simp [str]
      · split at step
        · cases step
        · exact before_running step other (by simp [str, apart])
  | minus =>
      simp only [advance] at step
      split at step
      · cases step
        simp
      · split at step
        · cases step
          simp
        · exact before_running step other (by decide)
  | comment =>
      simp only [advance] at step
      split at step <;> cases step <;> simp

/-- A part of a text without semicolons ends no statement. -/
theorem scan_running {p : Str} {m n : Mode} {ts : List Token} (read : scan m p = some (ts, n)) (clear : 59 ∉ p)
    (mode : m ≠ .operator 59) : .punct (str ";") ∉ ts := by
  induction p generalizing m ts with
  | nil =>
      cases read
      simp
  | cons b rest ih =>
      obtain ⟨⟨us, m₁⟩, step, tail⟩ := Option.bind_eq_some_iff.mp read
      obtain ⟨⟨vs, m₂⟩, run, is⟩ := Option.map_eq_some_iff.mp tail
      cases is
      simp only [List.mem_cons, not_or] at clear
      obtain ⟨running, mode'⟩ := advance_running step (Ne.symm clear.1) mode
      simp [running, ih run clear.2 mode']

/-- Whatever stands behind the text is read in this mode, as part of the first statement. -/
structure Leads (p : Str) (ts : List Token) (m : Mode) : Prop where
  reads : ∀ q, lexFrom .gap (p ++ q) = emit ts (lexFrom m q)
  running : .punct (str ";") ∉ ts

theorem Leads.of_scan {p : Str} {ts : List Token} {m : Mode} (read : scan .gap p = some (ts, m)) (clear : 59 ∉ p) :
    Leads p ts m :=
  ⟨lexFrom_append read, scan_running read clear (by simp)⟩

/-- A string goes on from where it opens to the text behind it. -/
theorem Leads.string {p s g : Str} {ts us : List Token} {m : Mode} (leads : Leads p ts (.string 34 []))
    (free : 34 ∉ s) (between : scan .gap g = some (us, m)) (clear : 59 ∉ g) (closed : ∀ q, Closed 34 (g ++ q)) :
    Leads (p ++ (s ++ 34 :: g)) (ts ++ .quoted s :: us) m where
  reads q := by
    have read := lexFrom_double 34 s [] (g ++ q) (closed q)
    rw [double_fixed free] at read
    rw [List.append_assoc, leads.reads, List.append_assoc, List.cons_append, read, lexFrom_append between]
    simp [emit_emit, stringToken]
  running := by simp [leads.running, scan_running between clear]

/-- The text ends in a string that was opened before a statement was over. -/
def CutOff (text : Str) : Prop := ∃ p s ts, text = p ++ s ∧ Leads p ts (.string 34 []) ∧ 34 ∉ s

theorem CutOff.unread {text : Str} (cut : CutOff text) : lex text = none := by
  obtain ⟨p, s, ts, rfl, leads, free⟩ := cut
  rw [lex, leads.reads, lexFrom_open free]
  rfl

/-- A zero byte inside a string cuts a text off. -/
theorem Leads.cut {p s : Str} {ts : List Token} (leads : Leads p ts (.string 34 [])) (nulFree : 0 ∉ p)
    (free : 34 ∉ s) (zero : 0 ∈ s) (rest : Str) : CutOff (Bytes.cString (p ++ (s ++ rest))) := by
  rw [Bytes.cString_append nulFree, Bytes.cString_stop zero]
  exact ⟨p, _, ts, rfl, leads, fun quote => free (Bytes.cString_subset s quote)⟩

/-- Neither the end of the text nor that of a statement. -/
def Clear (p : Str) : Prop := 0 ∉ p ∧ 59 ∉ p

instance (p : Str) : Decidable (Clear p) := inferInstanceAs (Decidable (_ ∧ _))

theorem cut_off {p s : Str} {t : List Token} (opens : scan .gap p = some (t, .string 34 [])) (clear : Clear p)
    (free : 34 ∉ s) (zero : 0 ∈ s) (rest : Str) : CutOff (Bytes.cString (p ++ (s ++ rest))) :=
  (Leads.of_scan opens clear.2).cut clear.1 free zero rest

/-! ## Words and numbers -/

/-- A byte that ends a word or a number and doubles no double quote. -/
def isBreak (b : Byte) : Bool := !isIdChar b && b != 34

/-- The text behind a token does not continue it. -/
def fresh : Str → Bool
  | [] => true
  | b :: _ => isBreak b

theorem closed_of_fresh {rest : Str} (h : fresh rest) : Closed 34 rest := by
  cases rest with
  | nil => simp [Closed]
  | cons b rest =>
      simp only [fresh, isBreak, Bool.and_eq_true, bne_iff_ne] at h
      simpa [Closed] using h.2

def isWord (w : Str) : Bool :=
  match w with
  | [] => false
  | b :: rest => isIdStart b && rest.all isIdChar

private theorem idStart_enter {b : Byte} (h : isIdStart b) :
    advance .gap b = some ([], .word [b]) := by
  have visible : isBlank b = false := by
    simp only [isIdStart, isBlank, Bool.or_eq_true, Bool.and_eq_true, decide_eq_true_eq] at *
    grind
  simp [advance, enter, visible, h]

private theorem lexFrom_wordTail (v w rest : Str) (chars : v.all isIdChar) (next : fresh rest) :
    lexFrom (.word w) (v ++ rest) = emit [.word (w ++ v)] (lexFrom .gap rest) := by
  induction v generalizing w with
  | nil =>
      rw [List.nil_append, List.append_nil]
      cases rest with
      | nil => rfl
      | cons b rest =>
          simp only [fresh, isBreak, Bool.and_eq_true, Bool.not_eq_true'] at next
          exact lexFrom_before (by simp [advance, next.1]) rest
  | cons b v ih =>
      simp only [List.all_cons, Bool.and_eq_true] at chars
      rw [List.cons_append, lexFrom_more (m := .word w) (if_pos chars.1), ih _ chars.2]
      simp

theorem lexFrom_word {w rest : Str} (word : isWord w) (next : fresh rest) :
    lexFrom .gap (w ++ rest) = emit [.word w] (lexFrom .gap rest) := by
  cases w with
  | nil => cases word
  | cons b w =>
      simp only [isWord, Bool.and_eq_true] at word
      rw [List.cons_append, lexFrom_more (idStart_enter word.1),
        lexFrom_wordTail w [b] rest word.2 next]
      simp

private theorem digit_facts {b : Byte} (h : Decimal.isDigit b) :
    isBlank b = false ∧ isIdStart b = false := by
  simp only [Decimal.isDigit, isIdStart, isBlank, Bool.and_eq_true, decide_eq_true_eq] at *
  grind

private theorem lexFrom_digits (ds rest : Str) (neg : Bool) (n : Nat)
    (decimal : ∀ b ∈ ds, Decimal.isDigit b) (next : fresh rest) :
    lexFrom (.number neg n) (ds ++ rest) =
      emit [numberToken neg (ds.foldl (fun sofar b => 10 * sofar + (b.toNat - 48)) n)]
        (lexFrom .gap rest) := by
  induction ds generalizing n with
  | nil =>
      cases rest with
      | nil => rfl
      | cons b rest =>
          simp only [fresh, isBreak, isIdChar, Bool.and_eq_true, Bool.not_eq_true',
            Bool.or_eq_false_iff] at next
          exact lexFrom_before (by simp [advance, isIdChar, next]) rest
  | cons b ds ih =>
      have digit := decimal b (by simp)
      rw [List.cons_append,
        lexFrom_more (m := .number neg n) (if_pos digit),
        ih _ fun c hc => decimal c (by simp [hc])]
      rfl

/-- An integer in decimal notation is one number token, with its sign (where SQLite reads a
    minus and a number, and means the same by them). -/
theorem lexFrom_int (n : Int) {rest : Str} (next : fresh rest) :
    lexFrom .gap (Decimal.ofInt n ++ rest) = emit [.number n] (lexFrom .gap rest) := by
  have decimal : ∀ b ∈ Decimal.digits n.natAbs, Decimal.isDigit b := fun b => Decimal.digits_isDigit
  have value := Decimal.value_digits n.natAbs
  cases run : Decimal.digits n.natAbs with
  | nil => exact absurd run (Decimal.digits_ne_nil _)
  | cons b ds =>
      rw [run] at decimal value
      have digit := decimal b (by simp)
      have rest_digits : ∀ c ∈ ds, Decimal.isDigit c := fun c hc => decimal c (by simp [hc])
      simp only [Decimal.value, List.foldl_cons, Nat.mul_zero, Nat.zero_add] at value
      by_cases negative : n < 0
      · have sign : advance .gap 45 = some ([], .minus) := by rfl
        simp only [Decimal.ofInt, negative, if_true, run, List.cons_append]
        rw [lexFrom_more sign, lexFrom_more (m := .minus) (if_pos digit),
          lexFrom_digits ds rest true _ rest_digits next, value, numberToken, if_pos rfl,
          show -(n.natAbs : Int) = n by omega]
      · have entered : advance .gap b = some ([], .number false (b.toNat - 48)) := by
          simp [advance, enter, digit_facts digit, digit]
        simp only [Decimal.ofInt, negative, if_false, run, List.cons_append]
        rw [lexFrom_more entered, lexFrom_digits ds rest false _ rest_digits next, value,
          numberToken, if_neg (by simp), show (n.natAbs : Int) = n by omega]

theorem Leads.number {p g : Str} {n : Int} {ts us : List Token} {m : Mode} (leads : Leads p ts .gap)
    (between : scan .gap g = some (us, m)) (clear : 59 ∉ g) (next : ∀ q, fresh (g ++ q)) :
    Leads (p ++ (Decimal.ofInt n ++ g)) (ts ++ .number n :: us) m where
  reads q := by
    rw [List.append_assoc, leads.reads, List.append_assoc, lexFrom_int n (next q), lexFrom_append between]
    simp [emit_emit]
  running := by simp [leads.running, scan_running between clear]

end Lexer
end Sql
