import Mathlib

/-! # Components that share a state

A system is a shared state and a list of components. In each step one of them moves,
with the shared state before it, or a new one joins. Nothing is said of how often or in
which order they move, so what is shown of all runs holds of every interleaving. Some
arguments about such systems are made here once: what a component relies on and what it
guarantees, which component a new fact of the shared state comes from, a balance that no
step raises, components that stay apart, and one component watched among the others.
-/

namespace Sharing

open Relation

/-- How a component moves, and which components may join. -/
structure Rules (S L : Type) where
  move : S → L → S → L → Prop
  joins : S → L → Prop

variable {S L : Type} {rules : Rules S L}

inductive Step (rules : Rules S L) : S × List L → S × List L → Prop
  | move {s t : S} {before after : List L} {l m : L} (moves : rules.move s l t m) :
      Step rules (s, before ++ l :: after) (t, before ++ m :: after)
  | join {s : S} {ls : List L} {l : L} (joins : rules.joins s l) : Step rules (s, ls) (s, ls ++ [l])

abbrev Steps (rules : Rules S L) : S × List L → S × List L → Prop := ReflTransGen (Step rules)

/-- A component found at a position moves. -/
theorem Step.at_ {s t : S} {ls : List L} {i : Nat} {l m : L} (there : ls[i]? = some l)
    (moves : rules.move s l t m) : Step rules (s, ls) (t, ls.set i m) := by
  obtain ⟨inside, rfl⟩ := List.getElem?_eq_some_iff.mp there
  have split : ls = ls.take i ++ ls[i] :: ls.drop (i + 1) := by simp
  rw [List.set_eq_take_append_cons_drop, if_pos inside]
  conv => lhs; rw [split]
  exact .move moves

/-- What is found in a list with one place set. -/
theorem found_set {ls : List L} {n i : Nat} {m l : L} (found : (ls.set n m)[i]? = some l) :
    (i = n ∧ l = m) ∨ (i ≠ n ∧ ls[i]? = some l) := by
  rw [List.getElem?_set] at found
  split at found
  · next same =>
      split at found
      · exact .inl ⟨same.symm, (Option.some.inj found).symm⟩
      · cases found
  · next other => exact .inr ⟨Ne.symm other, found⟩

theorem found_concat {ls : List L} {i : Nat} {m l : L} (found : (ls ++ [m])[i]? = some l) :
    (i = ls.length ∧ l = m) ∨ ls[i]? = some l := by
  obtain ⟨inside, is⟩ := List.getElem?_eq_some_iff.mp found
  by_cases old : i < ls.length
  · exact .inr (by rwa [List.getElem?_append_left old] at found)
  · have last : i = ls.length := by
      rw [List.length_append, List.length_singleton] at inside
      omega
    subst last
    exact .inl ⟨rfl, by simpa using is.symm⟩

/-- A step by the position of the component that moves. -/
theorem Step.position {p q : S × List L} (step : Step rules p q) :
    (∃ (i : Nat) (l m : L), p.2[i]? = some l ∧ rules.move p.1 l q.1 m ∧ q.2 = p.2.set i m) ∨
      ∃ l, rules.joins p.1 l ∧ q = (p.1, p.2 ++ [l]) := by
  cases step with
  | @move s t before after l m moves => exact .inl ⟨before.length, l, m, by simp, moves, by simp⟩
  | @join s ls l joins => exact .inr ⟨l, joins, rfl⟩

/-- Any two components, at different positions, are so related. -/
def Apart (R : L → L → Prop) (ls : List L) : Prop :=
  ∀ (i j : Nat) (l k : L), i ≠ j → ls[i]? = some l → ls[j]? = some k → R l k

/-- What a component knows, `I`, and what holds of the shared state, `J`, are kept by its
    own moves and by whatever the others do within `G`, and every move is within `G`. -/
structure Rely (rules : Rules S L) (G : S → S → Prop) (J : S → Prop) (I : S → L → Prop) : Prop where
  own : ∀ {s l t m}, J s → I s l → rules.move s l t m → I t m
  guarantee : ∀ {s l t m}, J s → I s l → rules.move s l t m → G s t
  shared : ∀ {s t}, J s → G s t → J t
  others : ∀ {s t l}, J s → I s l → G s t → I t l
  joins : ∀ {s l}, J s → rules.joins s l → I s l

namespace Rely

variable {G : S → S → Prop} {J : S → Prop} {I : S → L → Prop} {p q : S × List L}

/-- What is known of the whole system. -/
def Known (J : S → Prop) (I : S → L → Prop) (p : S × List L) : Prop := J p.1 ∧ ∀ l ∈ p.2, I p.1 l

theorem Known.start {s : S} (shared : J s) : Known J I (s, []) := ⟨shared, by simp⟩

theorem step (rely : Rely rules G J I) (known : Known J I p) (step : Step rules p q) :
    Known J I q ∧ ReflTransGen G p.1 q.1 := by
  obtain ⟨shared, known⟩ := known
  cases step with
  | @move s t before after l m moves =>
      have mover := known l (by simp)
      have made := rely.guarantee shared mover moves
      refine ⟨⟨rely.shared shared made, fun k member => ?_⟩, .single made⟩
      rcases List.mem_append.mp member with old | rest
      · exact rely.others shared (known k (by simp [old])) made
      · rcases List.mem_cons.mp rest with rfl | old
        · exact rely.own shared mover moves
        · exact rely.others shared (known k (by simp [old])) made
  | @join s ls l joins =>
      refine ⟨⟨shared, fun k member => ?_⟩, .refl⟩
      rcases List.mem_append.mp member with old | new
      · exact known k old
      · rw [List.mem_singleton.mp new]
        exact rely.joins shared joins

/-- In every run all components keep what they know, and the shared state only changes
    within `G`. -/
theorem run (rely : Rely rules G J I) (known : Known J I p) (run : Steps rules p q) :
    Known J I q ∧ ReflTransGen G p.1 q.1 := by
  induction run with
  | refl => exact ⟨known, .refl⟩
  | tail _ last ih =>
      obtain ⟨kept, changed⟩ := rely.step ih.1 last
      exact ⟨kept, ih.2.trans changed⟩

/-- Every fact of the shared state was there at the start or is shown by a component, if
    a component shows the facts its moves bring about and goes on showing what it did. -/
theorem evidence {F : S → Prop} {E : L → Prop} (rely : Rely rules G J I)
    (shown : ∀ {s l t m}, J s → I s l → rules.move s l t m → F t → F s ∨ E m)
    (kept : ∀ {s l t m}, J s → I s l → rules.move s l t m → E l → E m)
    (known : Known J I p) (run : Steps rules p q) (fact : F q.1) : F p.1 ∨ ∃ m ∈ q.2, E m := by
  induction run with
  | refl => exact .inl fact
  | tail first last ih =>
      have before := (rely.run known first).1
      cases last with
      | @move s t before' after l m moves =>
          have mover := before.2 l (by simp)
          rcases shown before.1 mover moves fact with old | new
          · refine (ih old).imp id ?_
            rintro ⟨k, member, shows⟩
            rcases List.mem_append.mp member with there | rest
            · exact ⟨k, by simp [there], shows⟩
            · rcases List.mem_cons.mp rest with rfl | there
              · exact ⟨m, by simp, kept before.1 mover moves shows⟩
              · exact ⟨k, by simp [there], shows⟩
          · exact .inr ⟨m, by simp, new⟩
      | join joins => exact (ih fact).imp id fun ⟨k, member, shows⟩ => ⟨k, by simp [member], shows⟩

/-- A balance of the shared state and the components that no move raises. -/
theorem balance {c : S → Int} {d : L → Int} (rely : Rely rules G J I)
    (moves : ∀ {s l t m}, J s → I s l → rules.move s l t m → c t + d m ≤ c s + d l)
    (joins : ∀ {s l}, rules.joins s l → d l ≤ 0) (known : Known J I p) (run : Steps rules p q) :
    c q.1 + (q.2.map d).sum ≤ c p.1 + (p.2.map d).sum := by
  induction run with
  | refl => exact le_rfl
  | tail first last ih =>
      have before := (rely.run known first).1
      refine le_trans ?_ ih
      cases last with
      | @move s t before' after l m step =>
          have one : c t + d m ≤ c s + d l := moves before.1 (before.2 l (by simp)) step
          show c t + ((before' ++ m :: after).map d).sum ≤ c s + ((before' ++ l :: after).map d).sum
          simp only [List.map_append, List.map_cons, List.sum_append, List.sum_cons]
          omega
      | @join s ls l new =>
          have one : d l ≤ 0 := joins new
          show c s + ((ls ++ [l]).map d).sum ≤ c s + (ls.map d).sum
          simp only [List.map_append, List.map_cons, List.map_nil, List.sum_append, List.sum_cons, List.sum_nil]
          omega

/-- Components stay apart if a move keeps the mover apart from those it was apart from,
    and whoever joins is. -/
theorem apart {R : L → L → Prop} (rely : Rely rules G J I) (symm : ∀ {l k}, R l k → R k l)
    (moves : ∀ {s l t m k}, J s → I s l → I s k → rules.move s l t m → R l k → R m k)
    (joins : ∀ {s l k}, J s → I s k → rules.joins s l → R l k) (known : Known J I p) (start : Apart R p.2)
    (run : Steps rules p q) : Apart R q.2 := by
  induction run with
  | refl => exact start
  | tail first last ih =>
      obtain ⟨shared, each⟩ := (rely.run known first).1
      intro i j l k other here found
      rcases last.position with ⟨n, mover, moved, there, move, is⟩ | ⟨new, joining, rfl⟩
      · have one : ∀ (j : Nat) (k : L), n ≠ j → _ → R moved k := fun j k other found =>
          moves shared (each _ (List.mem_of_getElem? there)) (each _ (List.mem_of_getElem? found)) move
            (ih n j mover k other there found)
        rw [is] at here found
        rcases found_set here with ⟨rfl, rfl⟩ | ⟨apart, old⟩ <;>
          rcases found_set found with ⟨rfl, rfl⟩ | ⟨-, old'⟩
        · exact absurd rfl other
        · exact one j k other old'
        · exact symm (one i l other.symm old)
        · exact ih i j l k other old old'
      · rcases found_concat here with ⟨rfl, rfl⟩ | old <;> rcases found_concat found with ⟨rfl, rfl⟩ | old'
        · exact absurd rfl other
        · exact joins shared (each _ (List.mem_of_getElem? old')) joining
        · exact symm (joins shared (each _ (List.mem_of_getElem? old)) joining)
        · exact ih i j l k other old old'

/-- What holds of the component at each position, kept by its own moves and by whatever
    the others do within `G`. -/
theorem each {P : Nat → S → L → Prop} (rely : Rely rules G J I)
    (own : ∀ {i s l t m}, J s → I s l → P i s l → rules.move s l t m → P i t m)
    (others : ∀ {i s t l}, J s → P i s l → G s t → P i t l)
    (joins : ∀ {i s l}, J s → rules.joins s l → P i s l) (known : Known J I p)
    (start : ∀ i l, p.2[i]? = some l → P i p.1 l) (run : Steps rules p q) : ∀ i l, q.2[i]? = some l → P i q.1 l := by
  induction run with
  | refl => exact start
  | tail first last ih =>
      obtain ⟨shared, each⟩ := (rely.run known first).1
      intro i l found
      rcases last.position with ⟨n, mover, moved, there, move, is⟩ | ⟨new, joining, rfl⟩
      · have knows := each mover (List.mem_of_getElem? there)
        rw [is] at found
        rcases found_set found with ⟨rfl, rfl⟩ | ⟨-, old⟩
        · exact own shared knows (ih i mover there) move
        · exact others shared (ih i l old) (rely.guarantee shared knows move)
      · rcases found_concat found with ⟨-, rfl⟩ | old
        · exact joins shared joining
        · exact ih i l old

/-- One component among others that know `I`: `P` holds of it as long as its own moves
    keep it and no other's move breaks it. -/
theorem watched {P : S → L → Prop} (rely : Rely rules G J I)
    (own : ∀ {s l t m}, J s → P s l → rules.move s l t m → P t m ∧ G s t)
    (others : ∀ {s l t m k}, J s → P s l → I s k → rules.move s k t m → P t l) {i : Nat} {l : L}
    (shared : J p.1) (there : p.2[i]? = some l) (known : P p.1 l)
    (rest : ∀ (j : Nat) (k : L), j ≠ i → p.2[j]? = some k → I p.1 k) (run : Steps rules p q) :
    ∃ m, q.2[i]? = some m ∧ P q.1 m := by
  suffices all : J q.1 ∧ (∃ m, q.2[i]? = some m ∧ P q.1 m) ∧
      ∀ (j : Nat) (k : L), j ≠ i → q.2[j]? = some k → I q.1 k from all.2.1
  induction run with
  | refl => exact ⟨shared, ⟨l, there, known⟩, rest⟩
  | tail _ last ih =>
      obtain ⟨shared, ⟨m, there, known⟩, rest⟩ := ih
      rcases last.position with ⟨n, mover, moved, found, move, is⟩ | ⟨new, joining, rfl⟩
      · have inside := (List.getElem?_eq_some_iff.mp found).1
        by_cases same : n = i
        · subst same
          obtain rfl : m = mover := Option.some.inj (there.symm.trans found)
          obtain ⟨kept, made⟩ := own shared known move
          refine ⟨rely.shared shared made, ⟨moved, by simp [is, inside], kept⟩, fun j k other at_ => ?_⟩
          rw [is] at at_
          rcases found_set at_ with ⟨rfl, -⟩ | ⟨-, old⟩
          · exact absurd rfl other
          · exact rely.others shared (rest j k other old) made
        · have knows := rest n mover same found
          have made := rely.guarantee shared knows move
          refine ⟨rely.shared shared made, ⟨m, by simp [is, same, there], others shared known knows move⟩,
            fun j k other at_ => ?_⟩
          rw [is] at at_
          rcases found_set at_ with ⟨rfl, rfl⟩ | ⟨-, old⟩
          · exact rely.own shared knows move
          · exact rely.others shared (rest j k other old) made
      · have inside := (List.getElem?_eq_some_iff.mp there).1
        refine ⟨shared, ⟨m, by rw [List.getElem?_append_left inside, there], known⟩, fun j k other at_ => ?_⟩
        rcases found_concat at_ with ⟨-, rfl⟩ | old
        · exact rely.joins shared joining
        · exact rest j k other old

end Rely

end Sharing
