import NineProject.Base.Sharing
import NineProject.Session.Pool
import NineProject.Session.Steps

/-! # The server as a system of sessions

The sessions of a server share the database and the notifier map, and each step of the
server is made of moves of one session. So the server is a system of components, and
what a session relies on, guarantees and shows is shown move by move.
-/

namespace NineProject

open Bytes Relation

variable {σ : Type}

/-- A session with the shared state as it is. -/
def World.seeing (w : World σ) (s : σ × NMap) : World σ := { w with db := s.1, nmap := s.2 }

@[simp] theorem World.seeing_shared (w : World σ) : w.seeing (w.db, w.nmap) = w := rfl

@[simp] theorem World.seeing_seeing (w : World σ) (s t : σ × NMap) : (w.seeing s).seeing t = w.seeing t := rfl

/-- A session that was just made. -/
def Unset.world (memory : Unset) (s : σ × NMap) : World σ :=
  ⟨memory.session, s.1, s.2, [], 0, 0, 0, [], none⟩

section
variable (lib : External σ) (N : Str → Prop) (C : Unset → Prop)

/-- Sessions move as they may, and are made in memory that meets `C`. -/
def system : Sharing.Rules (σ × NMap) (World σ) where
  move s l t m := Move lib N (l.seeing s) (m.seeing t)
  joins s l := ∃ memory, C memory ∧ l = memory.world s

namespace Pool

def shared (p : Pool σ) : σ × NMap := (p.db, p.nmap)

/-- Sessions take up names and texts in `N`, memory meets `C`, and nothing else changes what
    is shared. -/
def Allows (p : Pool σ) : PoolAct σ → Prop
  | .handleAccept _ _ memory => C memory
  | .session _ (.others _ _) => False
  | .session i act => ∀ w ∈ p.world i, ∀ s ∈ w.taken act, N s
  | .run _ | .notifyAbortConnection _ => True

instance [DecidablePred N] [DecidablePred C] (p : Pool σ) : (act : PoolAct σ) → Decidable (Allows N C p act)
  | .handleAccept _ _ memory => inferInstanceAs (Decidable (C memory))
  | .session _ (.others _ _) => .isFalse id
  | .session i (.complete c) => inferInstanceAs (Decidable (∀ w ∈ p.world i, ∀ s ∈ w.taken (.complete c), N s))
  | .session i .checkMailBox => inferInstanceAs (Decidable (∀ w ∈ p.world i, ∀ s ∈ w.taken .checkMailBox, N s))
  | .run _ | .notifyAbortConnection _ => .isTrue trivial

variable {lib N C} {p q : Pool σ}

theorem leaves_steps {i : Nat} {l w : World σ} (there : p.sessions[i]? = some l)
    (moves : Moves lib N (l.seeing p.shared) w) :
    Sharing.Steps (system lib N C) (p.shared, p.sessions) ((p.leave i w).shared, (p.leave i w).sessions) := by
  have inside : i < p.sessions.length := (List.getElem?_eq_some_iff.mp there).1
  induction moves with
  | refl => exact .single (.at_ there (.internal (Internal.refl _)))
  | @tail v w _ last ih =>
      have found : (p.leave i v).sessions[i]? = some v := by simp [leave, inside]
      have step : Sharing.Step (system lib N C) ((p.leave i v).shared, (p.leave i v).sessions)
          ((p.leave i w).shared, (p.leave i v).sessions.set i w) := .at_ found last
      have set : (p.leave i v).sessions.set i w = (p.leave i w).sessions := List.set_set ..
      rw [set] at step
      exact ih.tail step

theorem world_eq_some {i : Nat} {w : World σ} (there : p.world i = some w) :
    ∃ l, p.sessions[i]? = some l ∧ w = l.seeing p.shared := by
  obtain ⟨l, found, rfl⟩ := Option.map_eq_some_iff.mp there
  exact ⟨l, found, rfl⟩

theorem serverRun_steps (memory : Unset) (meets : C memory) :
    Sharing.Steps (system lib N C) (p.shared, p.sessions) ((p.serverRun memory).shared, (p.serverRun memory).sessions) := by
  unfold Pool.serverRun
  cases p.reusablePool with
  | cons i rest => exact .refl
  | nil => exact .single (.join ⟨memory, meets, rfl⟩)

theorem handleAccept_steps (i : Nat) (accepted : Except Failure Socket) :
    Sharing.Steps (system lib N C) (p.shared, p.sessions)
      ((p.handleAccept i accepted).shared, (p.handleAccept i accepted).sessions) := by
  cases accepted with
  | error err => exact .refl
  | ok socket =>
      cases there : p.sessions[i]? with
      | none =>
          have same : (p.handleAccept i (.ok socket)).sessions = p.sessions := by
            simp [handleAccept, List.modify_eq_set_getElem?, there]
          rw [same]
          exact .refl
      | some l =>
          have set : (p.handleAccept i (.ok socket)).sessions =
              p.sessions.set i { l with self := { l.self with socket := socket } } := by
            simp [handleAccept, List.modify_eq_set_getElem?, there]
          rw [set]
          exact .single (.at_ there (.connected socket))

/-- A step of the server is made of moves of its sessions. -/
theorem next_steps {act : PoolAct σ} (allows : p.Allows N C act) (step : p.next lib act = some q) :
    Sharing.Steps (system lib N C) (p.shared, p.sessions) (q.shared, q.sessions) := by
  cases act with
  | handleAccept i accepted memory =>
      obtain ⟨-, rfl⟩ := handleAccept_cases step
      exact (handleAccept_steps i accepted).trans (serverRun_steps memory allows)
  | run n =>
      obtain ⟨i, ⟨f, -, rfl⟩ | ⟨-, w, found, running, rfl⟩⟩ := run_cases step
      · exact .refl
      · obtain ⟨l, there, rfl⟩ := world_eq_some found
        exact leaves_steps there ((sessionTask_makes taskEnd_makes none _).exec running)
  | session i act =>
      obtain ⟨w, t, found, moved, rfl⟩ := session_cases step
      have own : ∀ db nmap, act ≠ .others db nmap := by
        rintro db nmap rfl
        exact allows
      have sent : ∀ s ∈ w.taken act, N s := by
        cases act with
        | others db nmap => exact absurd rfl (own db nmap)
        | complete c => exact allows w found
        | checkMailBox => exact allows w found
      obtain ⟨l, there, rfl⟩ := world_eq_some found
      exact leaves_steps there (next_moves own sent moved)
  | notifyAbortConnection n =>
      obtain ⟨i, -, rfl⟩ := notifyAbortConnection_cases step
      exact .refl

end Pool

/-! ## Runs -/

/-- What a session knows, `P`, and what holds of the database and the notifier map, `J`,
    shown move by move. `P` is about the session with the shared state as it is. -/
structure Knows (G : σ × NMap → σ × NMap → Prop) (J : σ × NMap → Prop) (P : World σ → Prop) : Prop where
  own : ∀ {w t}, J (w.db, w.nmap) → P w → Move lib N w t → P t
  guarantee : ∀ {w t}, J (w.db, w.nmap) → P w → Move lib N w t → G (w.db, w.nmap) (t.db, t.nmap)
  shared : ∀ {s t}, J s → G s t → J t
  others : ∀ {w s}, J (w.db, w.nmap) → P w → G (w.db, w.nmap) s → P (w.seeing s)
  joins : ∀ {memory s}, J s → C memory → P (memory.world s)

namespace Knows

variable {G : σ × NMap → σ × NMap → Prop} {J : σ × NMap → Prop} {P : World σ → Prop} {lib N C}

theorem rely (knows : Knows lib N C G J P) : Sharing.Rely (system lib N C) G J fun s l => P (l.seeing s) where
  own := fun {s l t m} shared known move => knows.own (w := l.seeing s) (t := m.seeing t) shared known move
  guarantee := fun {s l t m} shared known move =>
    knows.guarantee (w := l.seeing s) (t := m.seeing t) shared known move
  shared := knows.shared
  others := fun {s _ l} shared known changed => knows.others (w := l.seeing s) shared known changed
  joins := by
    rintro s _ shared ⟨memory, meets, rfl⟩
    exact knows.joins shared meets

/-- What is known of a session by itself. -/
theorem alone {P : World σ → Prop} (own : ∀ {w t}, P w → Move lib N w t → P t)
    (others : ∀ {w s}, P w → P (w.seeing s)) (joins : ∀ {memory s}, C memory → P (memory.world s)) :
    Knows lib N C (fun _ _ => True) (fun _ => True) P where
  own := fun _ => own
  guarantee := fun _ _ _ => trivial
  shared := fun _ _ => trivial
  others := fun _ known _ => others known
  joins := fun _ => joins

end Knows

/-- A server that takes up names and texts in `N`, with the shared state it was started with. -/
def Pool.Reaches (s : σ × NMap) (p : Pool σ) : Prop := Sharing.Steps (system lib N C) (s, []) (p.shared, p.sessions)

variable {lib N C}

namespace Pool.Reaches

variable {G : σ × NMap → σ × NMap → Prop} {J : σ × NMap → Prop} {P : World σ → Prop} {s : σ × NMap} {p : Pool σ}

/-- What sessions know they know in every state that is reached. -/
theorem known (reaches : p.Reaches lib N C s) (knows : Knows lib N C G J P) (start : J s) :
    J p.shared ∧ ∀ w ∈ p.sessions, P (w.seeing p.shared) :=
  (knows.rely.run (.start start) reaches).1

theorem changed (reaches : p.Reaches lib N C s) (knows : Knows lib N C G J P) (start : J s) :
    ReflTransGen G s p.shared := (knows.rely.run (.start start) reaches).2

end Pool.Reaches

/-- A run of a server is made of moves of its sessions. -/
theorem Pool.steps {acts : List (PoolAct σ)} {p q : Pool σ}
    (allows : Runs.Each (Pool.next lib) (Pool.Allows N C) p acts) (ran : Runs.after (Pool.next lib) p acts = some q) :
    Sharing.Steps (system lib N C) (p.shared, p.sessions) (q.shared, q.sessions) :=
  Runs.invariant (I := fun q : Pool σ => Sharing.Steps (system lib N C) (p.shared, p.sessions) (q.shared, q.sessions))
    (fun _ _ _ before allows step => ReflTransGen.trans before (next_steps allows step)) .refl allows ran

theorem Pool.reaches {db : σ} {memory : Unset} {acts : List (PoolAct σ)} {p : Pool σ} (meets : C memory)
    (allows : Runs.Each (Pool.next lib) (Pool.Allows N C) (Pool.start db memory) acts)
    (ran : Runs.after (Pool.next lib) (Pool.start db memory) acts = some p) :
    p.Reaches lib N C (db, NMap.empty) := by
  have start : (Pool.start db memory).Reaches lib N C (db, NMap.empty) := .single (.join ⟨memory, meets, rfl⟩)
  exact ReflTransGen.trans start (Pool.steps allows ran)

end

end NineProject
