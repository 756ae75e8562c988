import NineProject.Notices
import NineProject.Statements

/-! # The mail boxes of a server

A notification raises a flag in the array that the map has for a user, and the session
that tests the array makes a notice of it. All sessions share the map and the arrays,
and their steps may come in any order.
-/

namespace NineProject

open Bytes Sharing Relation

variable {σ α : Type}

/-! ## What a move does to the mail -/

/-- The event raises a flag of the kind. -/
def Event.raises (task : Nat) : Event → Bool
  | .renew _ raised => raised = task
  | _ => false

/-- How often a session raised a flag of the kind. -/
def World.renewals (w : World σ) (task : Nat) : Nat := w.log.countP (Event.raises task)

@[simp] theorem World.renewals_logged (w : World σ) (e : Event) (task : Nat) :
    (w.logged e).renewals task = w.renewals task + if e.raises task then 1 else 0 := by
  simp [renewals, logged, List.countP_append, List.countP_singleton]

@[simp] theorem World.renewals_ran (w : World σ) (call : QrCall) (r : Sql.Ran σ Fault α) (task : Nat) :
    (w.ran call r).renewals task = w.renewals task := by
  simp [renewals, ran, List.countP_append, List.countP_map, Function.comp_def, Event.raises]

/-- A move does nothing to the mail, raises a flag, opens a box for a login, or turns a
    flag into a notice. -/
inductive Mailed (w t : World σ) : Prop
  | quiet (nmap : t.nmap = w.nmap) (nf : t.self.nf = w.self.nf) (userName : t.self.userName = w.self.userName)
      (notice : t.self.notice = w.self.notice) (on : t.self.initialized = true → w.self.initialized = true)
      (renewals : ∀ task, t.renewals task = w.renewals task)
  | raised {user : Str} {task pointer : Nat} (found : w.nmap.getNotifier user = some pointer)
      (nmap : t.nmap = w.nmap.modify pointer fun a => a.renew task) (self : t.self = w.self)
      (renewals : ∀ k, t.renewals k = w.renewals k + if task = k then 1 else 0)
  | opened (nmap : t.nmap = w.nmap.alloc.1.insert t.self.userName w.nmap.alloc.2)
      (nf : t.self.nf = some w.nmap.alloc.2) (notice : t.self.notice = w.self.notice)
      (renewals : ∀ task, t.renewals task = w.renewals task)
  | noticed {pointer : Nat} {flags : NotificationArr} {kind : Nat × Nat × ECommand} (nf : w.self.nf = some pointer)
      (at_ : w.nmap.at_ pointer = some flags) (up : flags.getNew kind.1 = true) (known : kind ∈ mailKinds)
      (is : t = w.noticed pointer kind)

section
variable {lib : External σ} {N : Str → Prop} {w t : World σ}

theorem Internal.renewals (internal : Internal w t) (task : Nat) : t.renewals task = w.renewals task := by
  obtain ⟨es, log, own⟩ := internal.log
  have low : es.countP (Event.raises task) = 0 := List.countP_eq_zero.mpr fun e member => by
    have private_ := own e member
    cases e with
    | renew _ _ => exact private_.elim
    | _ => exact Bool.false_ne_true
  rw [World.renewals, log, List.countP_append, low]
  rfl

theorem renewals_loggedIn (w : World σ) (id pw : Str) (task : Nat) :
    ((w.checkedPassword lib id pw true).listed lib id).renewals task = w.renewals task := by
  simp [World.listed, World.checkedPassword, Event.raises]

theorem Move.mailed (move : Move lib N w t) : Mailed w t := by
  cases move with
  | internal internal =>
      exact .quiet internal.nmap internal.nf internal.userName internal.notice internal.initialized internal.renewals
  | halted _ => exact .quiet rfl rfl rfl rfl id fun _ => rfl
  | connected _ => exact .quiet rfl rfl rfl rfl id fun _ => rfl
  | asks _ _ => exact .quiet rfl rfl rfl rfl id fun task => by simp
  | notify _ user task =>
      unfold World.notify
      split
      · next known =>
          obtain ⟨pointer, found⟩ := Option.isSome_iff_exists.mp known
          have nmap : w.nmap.notify user task = w.nmap.modify pointer fun a => a.renew task := by
            simp only [NMap.notify, found]
          exact .raised found nmap rfl fun k => by
            simp [World.renewals, List.countP_append, List.countP_singleton, Event.raises]
      · exact .quiet rfl rfl rfl rfl id fun _ => rfl
  | refused _ _ _ => exact .quiet rfl rfl rfl rfl id fun task => by simp [World.checkedPassword, Event.raises]
  | admitted _ _ _ _ => exact .opened rfl rfl rfl fun task => renewals_loggedIn w _ _ task
  | unlisted _ _ _ _ => exact .quiet rfl rfl rfl rfl id fun task => renewals_loggedIn w _ _ task
  | answers _ _ => exact .quiet rfl rfl rfl rfl id fun task => by simp [Event.raises]
  | noticed _ nf at_ up known => exact .noticed nf at_ up known rfl

/-! ## Whose box it is -/

/-- Arrays are never given back, and what a map gains leads to a new one. -/
structure NMap.Grows (m n : NMap) : Prop where
  arrays : m.arrays.length ≤ n.arrays.length
  map : ∀ user p, n.getNotifier user = some p →
    m.getNotifier user = some p ∨ m.arrays.length ≤ p ∧ p < n.arrays.length

/-- The map leads to arrays that there are. -/
def NMap.Filled (m : NMap) : Prop := ∀ user p, m.getNotifier user = some p → p < m.arrays.length

/-- What a session knows of the array it tests. -/
structure Boxed (w : World σ) : Prop where
  there : ∀ p, w.self.nf = some p → p < w.nmap.arrays.length
  own : ∀ p user, w.self.nf = some p → w.nmap.getNotifier user = some p → user = w.self.userName

namespace NMap

@[simp] theorem modify_arrays_length (m : NMap) (p : Nat) (f : NotificationArr → NotificationArr) :
    (m.modify p f).arrays.length = m.arrays.length := List.length_modify ..

@[simp] theorem insert_arrays (m : NMap) (id : Str) (p : Nat) : (m.insert id p).arrays = m.arrays := by
  unfold insert
  split <;> rfl

theorem Grows.refl (m : NMap) : m.Grows m := ⟨le_rfl, fun _ _ => .inl⟩

theorem Grows.modify (m : NMap) (p : Nat) (f : NotificationArr → NotificationArr) : m.Grows (m.modify p f) :=
  ⟨by simp, fun _ _ => .inl⟩

/-- A login makes an array, and the map leads to it for this user or nobody. -/
theorem opened (m : NMap) (id : Str) {user : Str} {p : Nat}
    (found : (m.alloc.1.insert id m.alloc.2).getNotifier user = some p) :
    m.getNotifier user = some p ∨ user = id ∧ p = m.arrays.length := by
  rw [getNotifier_insert] at found
  rcases Option.or_eq_some_iff.mp found with old | ⟨-, new⟩
  · exact .inl old
  · split at new
    · next same => exact .inr ⟨same, (Option.some.inj new).symm⟩
    · cases new

theorem Grows.opened (m : NMap) (user : Str) : m.Grows (m.alloc.1.insert user m.alloc.2) where
  arrays := by simp [alloc]
  map u p found := (m.opened user found).imp_right fun ⟨_, new⟩ => by simp [alloc, new]

theorem Filled.grows {m n : NMap} (filled : m.Filled) (grows : m.Grows n) : n.Filled := fun user p found =>
  (grows.map user p found).elim (fun old => (filled user p old).trans_le grows.arrays) And.right

end NMap

theorem Mailed.grows (mailed : Mailed w t) : w.nmap.Grows t.nmap := by
  cases mailed with
  | quiet nmap => exact nmap ▸ .refl _
  | raised _ nmap => exact nmap ▸ .modify ..
  | opened nmap => exact nmap ▸ .opened ..
  | noticed _ _ _ _ is => exact is ▸ .modify ..

namespace Boxed

/-- The others keep it. -/
theorem seeing {s : σ × NMap} (boxed : Boxed w) (grows : w.nmap.Grows s.2) : Boxed (w.seeing s) where
  there p nf := (boxed.there p nf).trans_le grows.arrays
  own p user nf found := (grows.map user p found).elim (boxed.own p user nf) fun ⟨new, _⟩ =>
    absurd (boxed.there p nf) new.not_gt

theorem mailed (boxed : Boxed w) (filled : w.nmap.Filled) (mailed : Mailed w t) : Boxed t := by
  have kept : ∀ {v : World σ}, v.self.nf = w.self.nf → v.self.userName = w.self.userName → w.nmap.Grows v.nmap →
      Boxed v := fun nf userName grows =>
    ⟨fun p is => (boxed.seeing (s := (w.db, _)) grows).there p (nf ▸ is), fun p user is found =>
      userName ▸ (boxed.seeing (s := (w.db, _)) grows).own p user (nf ▸ is) found⟩
  have grows := mailed.grows
  cases mailed with
  | quiet _ nf userName => exact kept nf userName grows
  | raised _ _ self => exact kept (by rw [self]) (by rw [self]) grows
  | noticed _ _ _ _ is =>
      subst is
      exact kept rfl rfl grows
  | opened nmap nf =>
      refine ⟨fun p is => ?_, fun p user is found => ?_⟩
      · obtain rfl := Option.some.inj (nf.symm.trans is)
        simp [nmap, NMap.alloc]
      · obtain rfl := Option.some.inj (nf.symm.trans is)
        rw [nmap] at found
        rcases w.nmap.opened _ found with old | ⟨same, -⟩
        · exact absurd (filled user _ old) (lt_irrefl _)
        · exact same

end Boxed

theorem boxed_knows {C : Unset → Prop} : Knows lib N C (fun s t => s.2.Grows t.2) (fun s => s.2.Filled) Boxed where
  own := fun filled boxed move => boxed.mailed filled move.mailed
  guarantee := fun _ _ move => move.mailed.grows
  shared := fun filled grows => filled.grows grows
  others := fun _ boxed grows => boxed.seeing grows
  joins := fun _ _ => ⟨(fun _ nf => by cases nf), fun _ _ nf _ => by cases nf⟩

/-- They test no common array. -/
def Unshared (w v : World σ) : Prop := ∀ p, w.self.nf = some p → v.self.nf ≠ some p

theorem Unshared.mailed {v : World σ} (unshared : Unshared w v) (boxed : Boxed (v.seeing (w.db, w.nmap)))
    (mailed : Mailed w t) : Unshared t v := by
  cases mailed with
  | quiet _ nf => exact fun p is => unshared p (nf ▸ is)
  | raised _ _ self => exact fun p is => unshared p (self ▸ is)
  | noticed _ _ _ _ is =>
      subst is
      exact unshared
  | opened _ nf =>
      intro p is tests
      obtain rfl := Option.some.inj (nf.symm.trans is)
      exact lt_irrefl _ (boxed.there _ tests)

end

/-! ## Checks -/

/-- A session that tests its flags has some. -/
def Tested (w : World σ) : Prop := w.self.initialized = true → w.self.nf.isSome

section
variable {lib : External σ} {N : Str → Prop} {w t : World σ}

theorem Tested.mailed (tested : Tested w) (mailed : Mailed w t) : Tested t := by
  cases mailed with
  | quiet _ nf _ _ initialized => exact fun on => nf ▸ tested (initialized on)
  | raised _ _ self => exact fun on => self ▸ tested (self ▸ on)
  | opened _ nf => exact fun _ => by rw [nf]; rfl
  | noticed nf _ _ _ is => exact fun _ => by rw [is]; exact nf ▸ rfl

theorem tested_knows {C : Unset → Prop} (unset : ∀ memory, C memory → memory.initialized = false) :
    Knows lib N C (fun _ _ => True) (fun _ => True) Tested :=
  .alone (fun tested move => tested.mailed move.mailed) id fun meets on => by
    cases (unset _ meets).symm.trans on

/-- A check that has flags to look at returns. -/
theorem Boxed.check (boxed : Boxed w) (tested : Tested w) : ∃ t, checkMailBox w = .ok () t ∧ t.stopped = w.stopped := by
  cases on : w.self.initialized with
  | false => exact ⟨w, by simp [checkMailBox, Effect.bind_apply, on], rfl⟩
  | true =>
      obtain ⟨pointer, nf⟩ := Option.isSome_iff_exists.mp (tested on)
      have inside : pointer < w.nmap.arrays.length := boxed.there pointer nf
      obtain ⟨renewed, made⟩ := checkMailBox_eq on nf (List.getElem?_eq_getElem inside)
      exact ⟨_, made, rfl⟩

/-! ## How many notices -/

theorem NotificationArr.renew_outside (a : NotificationArr) {i : Nat} (outside : ¬ i < 10) : a.renew i = a :=
  Vector.setIfInBounds_eq_of_size_le (by omega)

theorem NotificationArr.renew_raises (a : NotificationArr) (i j : Nat) (up : (a.renew i).getNew j = true) :
    i = j ∨ a.getNew j = true := by
  by_cases inside : i < 10
  · rw [renew_getNew a i j inside] at up
    exact (Bool.or_eq_true_iff.mp up).imp (fun same => (of_decide_eq_true same).symm) id
  · exact .inr (renew_outside a inside ▸ up)

theorem NotificationArr.renew_keeps {a : NotificationArr} {j : Nat} (up : a.getNew j = true) (i : Nat) :
    (a.renew i).getNew j = true := by
  by_cases inside : i < 10
  · rw [renew_getNew a i j inside, up, Bool.or_true]
  · rwa [renew_outside a inside]

/-- The flags of a kind that are up. -/
def NMap.up (m : NMap) (task : Nat) : Nat := m.arrays.countP fun a => a.getNew task

theorem NMap.up_modify {m : NMap} {pointer : Nat} {a : NotificationArr} (at_ : m.at_ pointer = some a)
    (f : NotificationArr → NotificationArr) (task : Nat) :
    (m.modify pointer f).up task + (if a.getNew task then 1 else 0) =
      m.up task + if (f a).getNew task then 1 else 0 := by
  obtain ⟨inside, is⟩ := List.getElem?_eq_some_iff.mp at_
  have there : a.getNew task = true → 0 < m.up task := fun raised =>
    List.countP_pos_iff.mpr ⟨a, List.mem_of_getElem? at_, raised⟩
  have set : (m.modify pointer f).arrays = m.arrays.set pointer (f a) := by
    simp [NMap.modify, List.modify_eq_set_getElem?, show m.arrays[pointer]? = some a from at_]
  simp only [NMap.up] at there ⊢
  rw [set, List.countP_set inside, is]
  split
  · next raised =>
      have := there raised
      omega
  · rfl

/-- The notices of a kind that a session made, over the flags of the kind that it raised. -/
def World.excess (kind : Nat × Nat × ECommand) (w : World σ) : Int :=
  w.self.notice.count (noticeOf kind) - w.renewals kind.1

theorem excess_sum (kind : Nat × Nat × ECommand) (ws : List (World σ)) : (ws.map (World.excess kind)).sum =
    ((ws.map fun w => w.self.notice.count (noticeOf kind)).sum : Nat) -
      ((ws.map fun w => w.renewals kind.1).sum : Nat) := by
  induction ws with
  | nil => rfl
  | cons w rest ih =>
      simp only [List.map_cons, List.sum_cons, ih, World.excess]
      omega

theorem Mailed.balance (mailed : Mailed w t) {kind : Nat × Nat × ECommand} (member : kind ∈ mailKinds) :
    (t.nmap.up kind.1 : Int) + t.excess kind ≤ w.nmap.up kind.1 + w.excess kind := by
  simp only [World.excess]
  cases mailed with
  | quiet nmap _ _ notice _ renewals => rw [nmap, notice, renewals]
  | opened nmap _ notice renewals =>
      have same : t.nmap.up kind.1 = w.nmap.up kind.1 := by
        simp [NMap.up, nmap, NMap.alloc, List.countP_append]
      rw [same, notice, renewals]
  | @raised user task pointer found nmap self renewals =>
      rw [self, renewals, nmap]
      cases at_ : w.nmap.at_ pointer with
      | none =>
          have same : w.nmap.modify pointer (fun a => a.renew task) = w.nmap := by
            have outside : w.nmap.arrays.length ≤ pointer := List.getElem?_eq_none_iff.mp at_
            simp [NMap.modify, List.modify_eq_self outside]
          rw [same]
          omega
      | some flags =>
          have one := NMap.up_modify at_ (fun a => a.renew task) kind.1
          have low := NotificationArr.renew_raises flags task kind.1
          grind
  | @noticed pointer flags kind' nf at_ up known is =>
      have one := NMap.up_modify at_ (fun a => a.taskEnd kind'.1) kind.1
      have same : t.renewals kind.1 = w.renewals kind.1 := by rw [is]; rfl
      rw [NotificationArr.taskEnd_getNew] at one
      rw [same, is]
      simp only [World.noticed, List.count_append, List.count_singleton]
      by_cases this : kind' = kind
      · subst this
        simp [up] at one ⊢
        omega
      · have apart : kind.1 ≠ kind'.1 := fun is => this (List.inj_on_of_nodup_map mailKinds_distinct known member is.symm)
        have other : noticeOf kind' ≠ noticeOf kind := fun is =>
          this (List.inj_on_of_nodup_map (by decide : (mailKinds.map noticeOf).Nodup) known member is)
        simp [apart, other] at one ⊢
        omega

/-! ## That they come -/

/-- The flag of a kind is up in the array. -/
def NMap.Raised (m : NMap) (pointer task : Nat) : Prop := ∃ flags, m.at_ pointer = some flags ∧ flags.getNew task = true

/-- A flag that is up stays up, or the session that tests it makes a notice. -/
theorem Mailed.raised_or (mailed : Mailed w t) {pointer : Nat} {kind : Nat × Nat × ECommand} (member : kind ∈ mailKinds)
    (raised : w.nmap.Raised pointer kind.1) : t.nmap.Raised pointer kind.1 ∨
      w.self.nf = some pointer ∧ t.self.notice = w.self.notice ++ [noticeOf kind] := by
  obtain ⟨flags, at_, up⟩ := raised
  cases mailed with
  | quiet nmap => exact .inl (nmap ▸ ⟨flags, at_, up⟩)
  | opened nmap =>
      refine .inl ⟨flags, ?_, up⟩
      obtain ⟨inside, -⟩ := List.getElem?_eq_some_iff.mp at_
      simp only [nmap, NMap.at_, NMap.insert_arrays, NMap.alloc]
      rw [List.getElem?_append_left inside]
      exact at_
  | @raised user task other _ nmap =>
      by_cases same : other = pointer
      · exact .inl ⟨flags.renew task, by rw [nmap, NMap.at_modify, if_pos same, at_]; rfl,
          NotificationArr.renew_keeps up task⟩
      · exact .inl ⟨flags, by rw [nmap, NMap.at_modify, if_neg same, at_], up⟩
  | @noticed other found kind' nf at_' up' known is =>
      subst is
      by_cases same : other = pointer
      · subst same
        by_cases this : kind' = kind
        · subst this
          exact .inr ⟨nf, rfl⟩
        · refine .inl ⟨flags.taskEnd kind'.1, by simp [World.noticed, NMap.at_modify, at_], ?_⟩
          have apart : kind.1 ≠ kind'.1 := fun is => this (List.inj_on_of_nodup_map mailKinds_distinct known member is.symm)
          simp [NotificationArr.taskEnd_getNew, apart, up]
      · exact .inl ⟨flags, by simp [World.noticed, NMap.at_modify, same, at_], up⟩

theorem Mailed.keeps (mailed : Mailed w t) (notice : Pchd) : w.self.notice.count notice ≤ t.self.notice.count notice := by
  cases mailed with
  | quiet _ _ _ same => rw [same]
  | raised _ _ self => rw [self]
  | opened _ _ same => rw [same]
  | noticed _ _ _ _ is =>
      rw [is]
      simp [World.noticed, List.count_append]

/-- The flag is up, or the session has made a notice of it since it had `made`. -/
structure Awaited (pointer : Nat) (kind : Nat × Nat × ECommand) (made : Nat) (w : World σ) : Prop where
  there : pointer < w.nmap.arrays.length
  kept : made ≤ w.self.notice.count (noticeOf kind)
  comes : w.nmap.Raised pointer kind.1 ∨ made < w.self.notice.count (noticeOf kind)

theorem Awaited.mailed {pointer made : Nat} {kind : Nat × Nat × ECommand} (due : Awaited pointer kind made w)
    (member : kind ∈ mailKinds) (mailed : Mailed w t) : Awaited pointer kind made t where
  there := due.there.trans_le mailed.grows.arrays
  kept := due.kept.trans (mailed.keeps _)
  comes := by
    rcases due.comes with raised | since
    · refine (mailed.raised_or member raised).imp_right fun ⟨_, notice⟩ => ?_
      rw [notice, List.count_append, List.count_singleton_self]
      exact Nat.lt_succ_of_le due.kept
    · exact .inr (since.trans_le (mailed.keeps _))

theorem Awaited.others {pointer made : Nat} {kind : Nat × Nat × ECommand} {v : World σ}
    (due : Awaited pointer kind made (v.seeing (w.db, w.nmap))) (member : kind ∈ mailKinds) (mailed : Mailed w t)
    (tests : w.self.nf ≠ some pointer) : Awaited pointer kind made (v.seeing (t.db, t.nmap)) where
  there := due.there.trans_le mailed.grows.arrays
  kept := due.kept
  comes := due.comes.imp_left fun raised => (mailed.raised_or member raised).resolve_right fun ⟨nf, _⟩ => tests nf

/-- A session that does not test an array never will. -/
theorem spares_knows {C : Unset → Prop} (pointer : Nat) : Knows lib N C (fun s t => s.2.Grows t.2)
    (fun s => pointer < s.2.arrays.length) (fun w => w.self.nf ≠ some pointer) where
  own := by
    intro w t inside spares move
    cases move.mailed with
    | quiet _ nf => exact nf ▸ spares
    | raised _ _ self => exact self ▸ spares
    | noticed _ _ _ _ is => exact is ▸ spares
    | opened _ nf =>
        rw [nf]
        exact fun same => lt_irrefl _ (Option.some.inj same ▸ inside)
  guarantee := fun _ _ move => move.mailed.grows
  shared := fun inside grows => inside.trans_le grows.arrays
  others := fun _ spares _ => spares
  joins := fun _ _ nf => by cases nf

/-- What a check does for a kind whose flag is up. -/
theorem Awaited.check {pointer made : Nat} {kind : Nat × Nat × ECommand} (due : Awaited pointer kind made w)
    (member : kind ∈ mailKinds) (on : w.self.initialized = true) (nf : w.self.nf = some pointer) :
    ∃ t, checkMailBox w = .ok () t ∧ made < t.self.notice.count (noticeOf kind) := by
  have at_ := List.getElem?_eq_getElem due.there
  obtain ⟨renewed, ran⟩ := checkMailBox_eq on nf at_
  refine ⟨_, ran, ?_⟩
  simp only [World.checked, List.count_append, noticesOf_count member]
  rcases due.comes with ⟨flags, here, up⟩ | since
  · obtain rfl := Option.some.inj (at_.symm.trans here)
    simp only [up, if_true]
    exact Nat.lt_succ_of_le due.kept
  · omega

end

section
variable {lib : External σ} {N : Str → Prop} {db : σ} {memory : Unset} {acts : List (PoolAct σ)} {p : Pool σ}

/-- What is known of the boxes wherever a server gets. -/
theorem Pool.Reaches.boxed {C : Unset → Prop} (reaches : p.Reaches lib N C (db, NMap.empty)) :
    (∀ w ∈ p.sessions, Boxed (w.seeing p.shared)) ∧ Apart Unshared p.sessions := by
  have filled : NMap.empty.Filled := fun user p found => by cases found
  refine ⟨(reaches.known boxed_knows filled).2, boxed_knows.rely.apart (fun unshared pointer v w => unshared pointer w v)
    ?_ ?_ (.start filled) ?_ reaches⟩
  · exact fun {s l t m k} filled _ boxed move unshared =>
      Unshared.mailed (w := l.seeing s) (t := m.seeing t) unshared boxed (Move.mailed move)
  · rintro s _ k - - ⟨memory, -, rfl⟩ pointer nf
    cases nf
  · intro i j l k _ found
    cases found

/-- No two sessions test the same array, and an array that a session tests is there and
    is notified for nobody but the user whom the session speaks for. -/
theorem boxes_unshared
    (allows : Runs.Each (Pool.next lib) (Pool.Allows N (fun _ => True)) (Pool.start db memory) acts)
    (ran : Runs.after (Pool.next lib) (Pool.start db memory) acts = some p) :
    Apart Unshared p.sessions ∧ ∀ w ∈ p.sessions, ∀ pointer, w.self.nf = some pointer →
      (p.nmap.at_ pointer).isSome ∧ ∀ user, p.nmap.getNotifier user = some pointer → user = w.self.userName := by
  obtain ⟨boxed, unshared⟩ := (Pool.reaches (C := fun _ => True) trivial allows ran).boxed
  refine ⟨unshared, fun w member pointer nf => ?_⟩
  have inside : pointer < p.nmap.arrays.length := (boxed w member).there pointer nf
  exact ⟨by simp [NMap.at_, inside], fun user => (boxed w member).own pointer user nf⟩

/-- Where a constructor leaves `initialized` false, every check of a mail box returns. -/
theorem mail_checks_return (unset : memory.initialized = false)
    (allows : Runs.Each (Pool.next lib) (Pool.Allows N fun memory => memory.initialized = false)
      (Pool.start db memory) acts)
    (ran : Runs.after (Pool.next lib) (Pool.start db memory) acts = some p) :
    ∀ i w, p.world i = some w → w.stopped = none →
      ∃ t, NineProject.next lib w .checkMailBox = some t ∧ t.stopped = none := by
  intro i w there running
  have reaches := Pool.reaches (C := fun memory => memory.initialized = false) unset allows ran
  obtain ⟨l, found, rfl⟩ := Pool.world_eq_some there
  have member := List.mem_of_getElem? found
  have tested : Tested (l.seeing p.shared) := (reaches.known (tested_knows fun _ => id) trivial).2 l member
  obtain ⟨t, made, same⟩ := (reaches.boxed.1 l member).check tested
  refine ⟨t, ?_, same.trans running⟩
  simp [NineProject.next, running, World.exec, made]

/-- There are no more notices of a kind than flags were raised, and none for a flag that
    is still up. -/
theorem notices_bounded
    (allows : Runs.Each (Pool.next lib) (Pool.Allows N (fun _ => True)) (Pool.start db memory) acts)
    (ran : Runs.after (Pool.next lib) (Pool.start db memory) acts = some p) :
    ∀ kind ∈ mailKinds, p.nmap.up kind.1 + (p.sessions.map fun w => w.self.notice.count (noticeOf kind)).sum ≤
      (p.sessions.map fun w => w.renewals kind.1).sum := by
  intro kind member
  have reaches := Pool.reaches (C := fun _ => True) trivial allows ran
  have filled : NMap.empty.Filled := fun user p found => by cases found
  have balance := boxed_knows.rely.balance (c := fun s => s.2.up kind.1) (d := World.excess kind)
    (fun {s l t m} _ _ move => (Move.mailed (w := l.seeing s) (t := m.seeing t) move).balance member)
    (by
      rintro s _ ⟨memory, -, rfl⟩
      exact le_rfl)
    (.start filled) reaches
  have none_ : NMap.empty.up kind.1 = 0 := rfl
  rw [excess_sum] at balance
  simp only [none_, List.map_nil, List.sum_nil, Pool.shared] at balance
  omega

/-- A flag that is up stays up until the session that tests it makes a notice, whatever
    the others do, and the next check of this session makes one. -/
theorem notices_follow {acts' : List (PoolAct σ)} {q : Pool σ}
    (allows : Runs.Each (Pool.next lib) (Pool.Allows N (fun _ => True)) (Pool.start db memory) (acts ++ acts'))
    (ran : Runs.after (Pool.next lib) (Pool.start db memory) acts = some p)
    (further : Runs.after (Pool.next lib) p acts' = some q) :
    ∀ kind ∈ mailKinds, ∀ i w pointer, p.sessions[i]? = some w → w.self.nf = some pointer →
      p.nmap.Raised pointer kind.1 → ∃ v, q.sessions[i]? = some v ∧
        (q.nmap.Raised pointer kind.1 ∨ w.self.notice.count (noticeOf kind) < v.self.notice.count (noticeOf kind)) ∧
        ∀ q', q.next lib (.session i .checkMailBox) = some q' → v.self.initialized = true → v.self.nf = some pointer →
          ∃ v', q'.sessions[i]? = some v' ∧
            w.self.notice.count (noticeOf kind) < v'.self.notice.count (noticeOf kind) := by
  intro kind member i w pointer there nf raised
  have reaches := Pool.reaches (C := fun _ => True) trivial allows.split.1 ran
  obtain ⟨boxed, unshared⟩ := reaches.boxed
  have inside : pointer < p.nmap.arrays.length := (boxed w (List.mem_of_getElem? there)).there pointer nf
  have start : Awaited pointer kind (w.self.notice.count (noticeOf kind)) (w.seeing p.shared) :=
    ⟨inside, le_rfl, .inl raised⟩
  have spares : Knows lib N (fun _ => True) _ _ _ := spares_knows pointer
  obtain ⟨v, found, due⟩ : ∃ v, q.sessions[i]? = some v ∧
      Awaited pointer kind (w.self.notice.count (noticeOf kind)) (v.seeing q.shared) := spares.rely.watched
    (P := fun s l => Awaited pointer kind (w.self.notice.count (noticeOf kind)) (World.seeing l s))
    (fun {s l t m} _ due move =>
      have mailed := Move.mailed (w := l.seeing s) (t := m.seeing t) move
      ⟨Awaited.mailed (w := l.seeing s) (t := m.seeing t) due member mailed, mailed.grows⟩)
    (fun {s l t m k} _ due spares move =>
      Awaited.others (w := k.seeing s) (t := m.seeing t) due member (Move.mailed move) spares)
    inside there start
    (fun j k other at_ tests => unshared j i k w other at_ there pointer tests nf)
    (Pool.steps (allows.split.2 p ran) further)
  refine ⟨v, found, due.comes, fun q' step on tests => ?_⟩
  obtain ⟨t, made, more⟩ := due.check member on tests
  have world : q.world i = some (v.seeing q.shared) := by rw [Pool.world, found]; rfl
  simp only [Pool.next, world, Option.bind_some, NineProject.next] at step
  obtain ⟨u, checked, rfl⟩ := Option.map_eq_some_iff.mp step
  split at checked
  · cases checked
  · cases checked
    have here : i < q.sessions.length := (List.getElem?_eq_some_iff.mp found).1
    have exec : (v.seeing q.shared).exec checkMailBox = t := by rw [World.exec, made]
    exact ⟨t, by simp [Pool.leave, here, exec], more⟩

end

theorem boxes_unshared_annAsksBob :
    ∃ p, Runs.after (Pool.next memoryServer) (Pool.start twoUsers zeros) annAsksBob = some p ∧
      Apart Unshared p.sessions ∧ ∀ w ∈ p.sessions, ∀ pointer, w.self.nf = some pointer →
        (p.nmap.at_ pointer).isSome ∧ ∀ user, p.nmap.getNotifier user = some pointer → user = w.self.userName := by
  obtain ⟨p, ran⟩ := annAsksBob_runs
  exact ⟨p, ran, boxes_unshared annAsksBob_allows ran⟩

theorem mail_checks_return_annAsksBob :
    ∃ p, Runs.after (Pool.next memoryServer) (Pool.start twoUsers zeros) annAsksBob = some p ∧
      ∀ i w, p.world i = some w → w.stopped = none →
        ∃ t, NineProject.next memoryServer w .checkMailBox = some t ∧ t.stopped = none := by
  obtain ⟨p, ran⟩ := annAsksBob_runs
  have allows : Runs.Each (Pool.next memoryServer) (Pool.Allows Unquoted fun memory => memory.initialized = false)
      (Pool.start twoUsers zeros) annAsksBob := by decide +kernel
  exact ⟨p, ran, mail_checks_return rfl allows ran⟩

theorem notices_bounded_annAsksBob :
    ∃ p, Runs.after (Pool.next memoryServer) (Pool.start twoUsers zeros) annAsksBob = some p ∧
      ∀ kind ∈ mailKinds, p.nmap.up kind.1 + (p.sessions.map fun w => w.self.notice.count (noticeOf kind)).sum ≤
        (p.sessions.map fun w => w.renewals kind.1).sum := by
  obtain ⟨p, ran⟩ := annAsksBob_runs
  exact ⟨p, ran, notices_bounded annAsksBob_allows ran⟩

/-- Ann's request has raised the flag that Bob's session tests. -/
theorem annAsksBob_raises :
    ∃ p w, Runs.after (Pool.next memoryServer) (Pool.start twoUsers zeros) annAsksBob = some p ∧
      p.sessions[1]? = some w ∧ w.self.nf = some 1 ∧ p.nmap.Raised 1 CheckListIndex.connectionReq := by
  obtain ⟨w, found⟩ := Option.isSome_iff_exists.mp (show ((Runs.after (Pool.next memoryServer)
    (Pool.start twoUsers zeros) annAsksBob).bind fun p => (p.sessions[1]?).filter fun w =>
      decide (w.self.nf = some 1) && (p.nmap.at_ 1).any fun flags => flags.getNew CheckListIndex.connectionReq).isSome
    by decide +kernel)
  obtain ⟨p, ran, found⟩ := Option.bind_eq_some_iff.mp found
  obtain ⟨there, known⟩ := Option.filter_eq_some_iff.mp found
  obtain ⟨nf, up⟩ := Bool.and_eq_true_iff.mp known
  exact ⟨p, w, ran, there, of_decide_eq_true nf, by simpa [NMap.Raised, Option.any_eq_true] using up⟩

theorem notices_follow_annAsksBob : ∃ p q w v,
    Runs.after (Pool.next memoryServer) (Pool.start twoUsers zeros) annAsksBob = some p ∧
      Runs.after (Pool.next memoryServer) p [.session 0 .checkMailBox] = some q ∧
      p.sessions[1]? = some w ∧ q.sessions[1]? = some v ∧
      (q.nmap.Raised 1 CheckListIndex.connectionReq ∨
        w.self.notice.count (noticeOf (2, 4, .getConnection)) < v.self.notice.count (noticeOf (2, 4, .getConnection))) := by
  obtain ⟨p, w, ran, there, nf, raised⟩ := annAsksBob_raises
  obtain ⟨q, both⟩ := Option.isSome_iff_exists.mp (show (Runs.after (Pool.next memoryServer)
    (Pool.start twoUsers zeros) (annAsksBob ++ [.session 0 .checkMailBox])).isSome by decide +kernel)
  rw [Runs.after_append, ran] at both
  have allows : Runs.Each (Pool.next memoryServer) (Pool.Allows Unquoted (fun _ => True)) (Pool.start twoUsers zeros)
      (annAsksBob ++ [.session 0 .checkMailBox]) := by decide +kernel
  obtain ⟨v, found, comes, -⟩ := notices_follow allows ran both (2, 4, .getConnection) (by decide) 1 w 1 there nf raised
  exact ⟨p, q, w, v, ran, both, there, found, comes⟩

end NineProject
