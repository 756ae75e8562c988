import NineProject.Insertions

/-! # Values put into an insertion

A value is put in front of the last closing parenthesis of a text. The source keeps the
place in an `int`, so behind 2 GiB it is another one, or none at all. What is said here
of values put in one by one holds of two at once.
-/

namespace NineProject

open Bytes BuilderCall

/-! ## With the place in an `int` -/

/-- `int pos = query->find_last_of(")")`; `npos` becomes -1. -/
def closingPos (query : Str) : Int :=
  match findLastOf 41 query with
  | some pos => wrap 32 pos
  | none => -1

/-- `string::insert`: a negative place becomes a `size_t` behind every text, and it throws. -/
def insertAt (query added : Str) (pos : Int) : Option Str :=
  if 0 ≤ pos ∧ pos ≤ query.length then some (query.take pos.toNat ++ added ++ query.drop pos.toNat) else none

/-- What one value adds. -/
def addition (a : Arg) : Str := str " , " ++ toStringS a

/-- `add_condition_to_insert_query`. -/
def addConditionInt (query : Str) (a0 : Arg) : Option Str := insertAt query (addition a0) (closingPos query)

/-- The template for two values. -/
def addConditionInt2 (query : Str) (a0 a1 : Arg) : Option Str :=
  insertAt query (addition a0 ++ addition a1) (closingPos query)

theorem closingPos_found {query : Str} {pos : Nat} (found : findLastOf 41 query = some pos) :
    closingPos query = wrap 32 pos := by
  rw [closingPos, found]

/-! ## The statement of the values -/

/-- The text in front of the last parenthesis. -/
def unclosed (qd : QueryDescriptor) (a0 a1 : Arg) (more : List Arg) : Str :=
  str "INSERT INTO " ++ qd.dsc.getTableName ++ str " VALUES( " ++ toStringS a0 ++ str "," ++ toStringS a1 ++
    more.flatMap addition

/-- `INSERT INTO <table> VALUES( r0,r1 , r2 , .. , rn);` -/
def extended (qd : QueryDescriptor) (a0 a1 : Arg) (more : List Arg) : Str := unclosed qd a0 a1 more ++ str ");"

/-- This is the text that reads back as the insertion of these values. -/
theorem extended_eq (qd : QueryDescriptor) (a0 a1 : Arg) (more : List Arg) :
    extended qd a0 a1 more = insertText qd a0 a1 more := by
  have others : Piece.texts (more.flatMap fun a => [spacedComma, .arg a]) = more.flatMap addition := by
    simp only [Piece.texts, List.flatMap_assoc, spacedComma]
    simp
    rfl
  have front : Piece.texts (insertPieces qd a0 a1 more) = unclosed qd a0 a1 more := by
    simp only [insertPieces, Piece.texts, List.flatMap_append] at others ⊢
    rw [others]
    simp [insertHead, word, comma, Piece.text, unclosed]
  rw [insertText, Piece.texts, List.flatMap_append, ← Piece.texts, front]
  rfl

theorem extended_nil (qd : QueryDescriptor) (a0 a1 : Arg) : extended qd a0 a1 [] = insertQuery qd a0 a1 := by
  rw [extended_eq, insertText_nil]

theorem extended_append (qd : QueryDescriptor) (a0 a1 : Arg) (more added : List Arg) :
    extended qd a0 a1 (more ++ added) = unclosed qd a0 a1 more ++ added.flatMap addition ++ str ");" := by
  simp [extended, unclosed]

/-! ## Where an addition lands -/

/-- The place of the last parenthesis, as an `int`, is in the text, and what stands between
    it and the parenthesis can be exchanged with what is added. -/
def AtClosing (front added : Str) : Prop :=
  0 ≤ wrap 32 front.length ∧
    front.drop (wrap 32 front.length).toNat ++ added = added ++ front.drop (wrap 32 front.length).toNat

/-- Up to 2 GiB nothing stands there. -/
theorem atClosing_of_short {front : Str} (short : front.length < 2 ^ 31) (added : Str) : AtClosing front added := by
  rw [AtClosing, wrap32_nat short]
  simp

theorem wrap32_le (n : Nat) : wrap 32 n ≤ n := by
  simp only [wrap, Int.bmod_def]
  split <;> omega

theorem insertAt_iff {front added rest : Str} {pos : Int} (before : pos ≤ front.length) :
    insertAt (front ++ rest) added pos = some (front ++ added ++ rest) ↔
      0 ≤ pos ∧ front.drop pos.toNat ++ added = added ++ front.drop pos.toNat := by
  unfold insertAt
  by_cases inside : 0 ≤ pos
  · have there : pos ≤ (front ++ rest).length := by
      rw [List.length_append]
      omega
    have low : pos.toNat ≤ front.length := by omega
    have whole := List.take_append_drop pos.toNat front
    rw [if_pos ⟨inside, there⟩, List.take_append_of_le_length low, List.drop_append_of_le_length low]
    generalize front.take pos.toNat = before at *
    generalize front.drop pos.toNat = between at *
    rw [← whole]
    simp only [Option.some.injEq, inside, true_and, List.append_assoc, List.append_cancel_left_eq]
    rw [← List.append_assoc, ← List.append_assoc, List.append_cancel_right_eq]
    exact eq_comm
  · rw [if_neg (fun both => inside both.1)]
    simp [inside]

theorem closingPos_unclosed (front : Str) : closingPos (front ++ str ");") = wrap 32 front.length :=
  closingPos_found (findLastOf_append (by decide))

theorem addition_lands_iff {qd : QueryDescriptor} {a0 a1 : Arg} {more : List Arg} {added : Str} :
    insertAt (extended qd a0 a1 more) added (closingPos (extended qd a0 a1 more)) =
        some (unclosed qd a0 a1 more ++ added ++ str ");") ↔ AtClosing (unclosed qd a0 a1 more) added := by
  rw [extended, closingPos_unclosed]
  exact insertAt_iff (wrap32_le _)

/-! ## Runs of additions -/

/-- Each value that is put in gives the statement of the values so far, and two at once
    give what they give one after the other. -/
structure ExtendsWell (qd : QueryDescriptor) (a0 a1 : Arg) (more : List Arg) : Prop where
  single : ∀ before after, more = before ++ after →
    before.foldlM addConditionInt (insertQuery qd a0 a1) = some (extended qd a0 a1 before)
  double : ∀ before b0 b1 after, more = before ++ b0 :: b1 :: after → ∃ text,
    [b0, b1].foldlM addConditionInt (extended qd a0 a1 before) = some text ∧
      addConditionInt2 (extended qd a0 a1 before) b0 b1 = some text

/-- Wherever a value is put in, it lands in front of the parenthesis, and so do two at once. -/
structure AllAtClosing (qd : QueryDescriptor) (a0 a1 : Arg) (more : List Arg) : Prop where
  single : ∀ before a after, more = before ++ a :: after → AtClosing (unclosed qd a0 a1 before) (addition a)
  double : ∀ before b0 b1 after, more = before ++ b0 :: b1 :: after →
    AtClosing (unclosed qd a0 a1 before) (addition b0 ++ addition b1)

section
variable {qd : QueryDescriptor} {a0 a1 : Arg} {more : List Arg}

theorem addConditionInt_iff (a : Arg) :
    addConditionInt (extended qd a0 a1 more) a = some (extended qd a0 a1 (more ++ [a])) ↔
      AtClosing (unclosed qd a0 a1 more) (addition a) := by
  rw [← addition_lands_iff, extended_append, List.flatMap_singleton]
  rfl

theorem addConditionInt2_iff (b0 b1 : Arg) :
    addConditionInt2 (extended qd a0 a1 more) b0 b1 = some (extended qd a0 a1 (more ++ [b0, b1])) ↔
      AtClosing (unclosed qd a0 a1 more) (addition b0 ++ addition b1) := by
  have two : [b0, b1].flatMap addition = addition b0 ++ addition b1 := by simp
  rw [← addition_lands_iff, extended_append, two]
  rfl

theorem foldlM_concat {query text : Str} {before : List Arg} (ran : before.foldlM addConditionInt query = some text)
    (a : Arg) : (before ++ [a]).foldlM addConditionInt query = addConditionInt text a := by
  rw [List.foldlM_append, ran]
  simp

theorem foldlM_pair {query text : Str} {b0 : Arg} (first : addConditionInt query b0 = some text) (b1 : Arg) :
    [b0, b1].foldlM addConditionInt query = addConditionInt text b1 := by
  have one : [b0].foldlM addConditionInt query = some text := by simpa using first
  exact foldlM_concat one b1

/-- A run that lands all along makes the statement of its values. -/
theorem additions_run (lands : ∀ before a after, more = before ++ a :: after →
    AtClosing (unclosed qd a0 a1 before) (addition a)) :
    more.foldlM addConditionInt (insertQuery qd a0 a1) = some (extended qd a0 a1 more) := by
  induction more using List.reverseRecOn with
  | nil => rw [extended_nil]; rfl
  | append_singleton more a ih =>
      have earlier := ih fun before b after split => lands before b (after ++ [a]) (by simp [split])
      rw [foldlM_concat earlier]
      exact (addConditionInt_iff a).mpr (lands more a [] rfl)

theorem ExtendsWell.lands (well : ExtendsWell qd a0 a1 more) : AllAtClosing qd a0 a1 more := by
  obtain ⟨single, double⟩ := well
  have step : ∀ before a after, more = before ++ a :: after →
      addConditionInt (extended qd a0 a1 before) a = some (extended qd a0 a1 (before ++ [a])) := by
    intro before a after split
    have until_ := single before (a :: after) split
    have next := single (before ++ [a]) after (by simp [split])
    rwa [foldlM_concat until_] at next
  constructor
  · intro before a after split
    exact (addConditionInt_iff a).mp (step before a after split)
  · intro before b0 b1 after split
    obtain ⟨text, one, two⟩ := double before b0 b1 after split
    have first := step before b0 (b1 :: after) split
    have second := step (before ++ [b0]) b1 after (by simp [split])
    rw [foldlM_pair first, second] at one
    cases one
    rw [List.append_assoc, List.singleton_append] at two
    exact (addConditionInt2_iff b0 b1).mp two

theorem AllAtClosing.well (lands : AllAtClosing qd a0 a1 more) : ExtendsWell qd a0 a1 more := by
  obtain ⟨single, double⟩ := lands
  constructor
  · intro before after split
    refine additions_run fun front a behind split' => ?_
    exact single front a (behind ++ after) (by simp [split, split'])
  · intro before b0 b1 after split
    refine ⟨extended qd a0 a1 (before ++ [b0, b1]), ?_, ?_⟩
    · have first := (addConditionInt_iff b0).mpr (single before b0 (b1 :: after) split)
      have second := (addConditionInt_iff b1).mpr (single (before ++ [b0]) b1 after (by simp [split]))
      rw [foldlM_pair first, second, List.append_assoc, List.singleton_append]
    · exact (addConditionInt2_iff b0 b1).mpr (double before b0 b1 after split)

/-- The values of a list go in well exactly when all of them land. -/
theorem extendsWell_iff : ExtendsWell qd a0 a1 more ↔ AllAtClosing qd a0 a1 more :=
  ⟨ExtendsWell.lands, AllAtClosing.well⟩

/-- Up to 2 GiB every list of values goes in well. -/
theorem extendsWell_of_short (short : (unclosed qd a0 a1 more).length < 2 ^ 31) : ExtendsWell qd a0 a1 more := by
  have front : ∀ before after, more = before ++ after → ∀ added, AtClosing (unclosed qd a0 a1 before) added := by
    rintro before after rfl added
    have longer : unclosed qd a0 a1 (before ++ after) = unclosed qd a0 a1 before ++ after.flatMap addition := by
      simp [unclosed]
    rw [longer, List.length_append] at short
    exact atClosing_of_short (by omega) added
  have lands : AllAtClosing qd a0 a1 more := by
    constructor
    · exact fun before a after split => front before _ split _
    · exact fun before b0 b1 after split => front before _ split _
  exact lands.well

end

/-- Behind a name of 2 GiB the place is negative, and the insertion of an index throws. -/
theorem extension_refused :
    ¬ ∀ (qd : QueryDescriptor) (a0 a1 : Arg) (more : List Arg), ExtendsWell qd a0 a1 more := by
  intro well
  have length : (List.replicate (2 ^ 31) (97 : Byte)).length = 2 ^ 31 := List.length_replicate
  generalize List.replicate (2 ^ 31) (97 : Byte) = name at length
  obtain ⟨inside, -⟩ := (well .participate (.string name) (.int 7) [.int 0]).lands.single [] (.int 0) [] rfl
  have front : (unclosed .participate (.string name) (.int 7) []).length = 2 ^ 31 + 29 := by
    have head : str "INSERT INTO " ++ QueryDescriptor.participate.dsc.getTableName ++ str " VALUES( " =
        str "INSERT INTO part VALUES( " := by decide
    rw [unclosed, head]
    simp only [toStringS, List.length_append, length, List.flatMap_nil]
    rfl
  rw [front] at inside
  revert inside
  decide

end NineProject
