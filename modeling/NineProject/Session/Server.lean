import NineProject.Session.Returns

/-! # Sessions that share their notifier map

All sessions of a server have one database and one notifier map. What is atomic here
is a whole call: a login, a notification, a check of one mail box. Between any two of
them the database may change.
-/

namespace NineProject

open Bytes M Effect

variable {σ α : Type}

/-! ## Flags -/

namespace NotificationArr

def getNew (a : NotificationArr) (i : Nat) : Bool := a.toArray.getD i false

@[simp] theorem fresh_getNew (i : Nat) : fresh.getNew i = false := by
  simp only [getNew, fresh, Vector.toArray_replicate, Array.getD_eq_getD_getElem?, Array.getElem?_replicate]
  split <;> rfl

theorem getNew_eq (a : NotificationArr) (i : Nat) :
    a.getNew i = if h : i < 10 then a[i] else false := by
  simp [getNew, Array.getD]

theorem renew_getNew (a : NotificationArr) (i j : Nat) (inside : i < 10) :
    (a.renew i).getNew j = (decide (j = i) || a.getNew j) := by
  simp only [getNew_eq, renew]
  by_cases there : j < 10
  · by_cases same : i = j
    · simp [there, same]
    · simp [there, same, Ne.symm same]
  · simp [there]
    omega

theorem taskEnd_getNew (a : NotificationArr) (i j : Nat) :
    (a.taskEnd i).getNew j = (decide (j ≠ i) && a.getNew j) := by
  simp only [getNew_eq, taskEnd]
  by_cases there : j < 10
  · by_cases same : i = j
    · simp [there, same]
    · simp [there, same, Ne.symm same]
  · simp [there]

theorem taskEnd_lowered {a : NotificationArr} {i : Nat} (low : a.getNew i = false) :
    a.taskEnd i = a := by
  apply Vector.ext
  intro j there
  have old := getNew_eq a j
  simp only [there, dif_pos] at old
  simp only [taskEnd, Vector.getElem_setIfInBounds]
  split
  · next same => rw [← old, ← same, low]
  · rfl

end NotificationArr

namespace NMap

@[simp] theorem getNotifier_modify (m : NMap) (p : Nat) (f : NotificationArr → NotificationArr) (u : Str) :
    (m.modify p f).getNotifier u = m.getNotifier u := rfl

theorem at_modify (m : NMap) (p q : Nat) (f : NotificationArr → NotificationArr) :
    (m.modify p f).at_ q = if p = q then (m.at_ q).map f else m.at_ q := by
  simp only [at_, modify, List.getElem?_modify]
  split
  · rfl
  · simp

theorem modify_modify (m : NMap) (p : Nat) (f g : NotificationArr → NotificationArr) :
    (m.modify p f).modify p g = m.modify p fun a => g (f a) := by
  simp only [modify, List.modify_modify_eq]
  rfl

theorem modify_congr {m : NMap} {p : Nat} {a : NotificationArr} {f g : NotificationArr → NotificationArr}
    (at_ : m.at_ p = some a) (same : f a = g a) : m.modify p f = m.modify p g := by
  have arrays : m.arrays.modify p f = m.arrays.modify p g := by
    apply List.ext_getElem?
    intro i
    simp only [List.getElem?_modify]
    split
    · next here =>
        have found : m.arrays[i]? = some a := here ▸ at_
        simp [found, same]
    · rfl
  simp [modify, arrays]

theorem modify_id (m : NMap) (p : Nat) : (m.modify p fun a => a) = m := by
  have same : m.arrays.modify p (fun a => a) = m.arrays := List.modify_id p m.arrays
  simp [modify, same]

end NMap

/-! ## The mail box -/

/-- The notice of a kind. -/
def noticeOf (kind : Nat × Nat × ECommand) : Pchd := ⟨kind.2.1, 1, kind.2.2.code, 0, 0, 1, 0⟩

/-- The notices a check makes of the flags, in the order it looks at them. -/
def noticesOf (flags : NotificationArr) (kinds : List (Nat × Nat × ECommand)) : List Pchd :=
  (kinds.filter fun kind => flags.getNew kind.1).map noticeOf

def lowered (flags : NotificationArr) (kinds : List (Nat × Nat × ECommand)) : NotificationArr :=
  kinds.foldl (fun a kind => a.taskEnd kind.1) flags

theorem lowered_getNew (flags : NotificationArr) (kinds : List (Nat × Nat × ECommand)) (i : Nat) :
    (lowered flags kinds).getNew i = (decide (i ∉ kinds.map Prod.fst) && flags.getNew i) := by
  induction kinds generalizing flags with
  | nil => simp [lowered]
  | cons kind rest ih =>
      have tail : lowered flags (kind :: rest) = lowered (flags.taskEnd kind.1) rest := rfl
      rw [tail, ih, NotificationArr.taskEnd_getNew]
      simp only [List.map_cons, List.mem_cons, not_or, Bool.decide_and]
      cases decide (i ≠ kind.1) <;> cases decide (i ∉ rest.map Prod.fst) <;> rfl

theorem noticesOf_congr {a b : NotificationArr} {kinds : List (Nat × Nat × ECommand)}
    (same : ∀ kind ∈ kinds, a.getNew kind.1 = b.getNew kind.1) : noticesOf a kinds = noticesOf b kinds := by
  unfold noticesOf
  congr 1
  exact List.filter_congr fun kind member => same kind member

/-- A world after a check that found these flags. -/
def World.checked (w : World σ) (pointer : Nat) (flags : NotificationArr) (renewed : Bool)
    (kinds : List (Nat × Nat × ECommand)) : World σ :=
  { w with self := { w.self with notice := w.self.notice ++ noticesOf flags kinds, renewed := renewed },
           nmap := w.nmap.modify pointer fun a => lowered a kinds }

/-- The world after a raised flag became a notice. -/
def World.noticed (w : World σ) (pointer : Nat) (kind : Nat × Nat × ECommand) : World σ :=
  { w with self := { w.self with notice := w.self.notice ++ [noticeOf kind], renewed := true },
           nmap := w.nmap.modify pointer fun a => a.taskEnd kind.1 }

theorem checkMail_eq {w : World σ} {pointer : Nat} {flags : NotificationArr}
    (nf : w.self.nf = some pointer) (at_ : w.nmap.at_ pointer = some flags)
    (kind : Nat × Nat × ECommand) :
    checkMail kind w = .ok () (if flags.getNew kind.1 then w.noticed pointer kind else w) := by
  unfold checkMail
  simp only [bind_apply, get_apply, nf, Option.bind_some, at_]
  show (if flags.getNew kind.1 then _ else _ : M σ Unit) w = _
  split
  · simp [bind_apply, M.setSelf, World.noticed, noticeOf, nf]
  · rfl

theorem checkMails_eq {kinds : List (Nat × Nat × ECommand)} (distinct : (kinds.map Prod.fst).Nodup)
    {w : World σ} {pointer : Nat} {flags : NotificationArr} (nf : w.self.nf = some pointer)
    (at_ : w.nmap.at_ pointer = some flags) :
    ∃ renewed, kinds.forM checkMail w = .ok () (w.checked pointer flags renewed kinds) := by
  induction kinds generalizing w flags with
  | nil => exact ⟨w.self.renewed, by simp [World.checked, noticesOf, lowered, NMap.modify_id]⟩
  | cons kind rest ih =>
      obtain ⟨new, distinct⟩ := List.nodup_cons.mp distinct
      show ∃ renewed, (checkMail kind >>= fun _ => rest.forM checkMail) w = _
      rw [bind_apply, checkMail_eq nf at_]
      cases raised : flags.getNew kind.1 with
      | true =>
          have later : (w.noticed pointer kind).nmap.at_ pointer = some (flags.taskEnd kind.1) := by
            simp [World.noticed, NMap.at_modify, at_]
          have unread : noticesOf (flags.taskEnd kind.1) rest = noticesOf flags rest :=
            noticesOf_congr fun k member => by
              have apart : k.1 ≠ kind.1 := fun same => new (same ▸ List.mem_map_of_mem member)
              simp [NotificationArr.taskEnd_getNew, apart]
          obtain ⟨renewed, ran⟩ := ih (w := w.noticed pointer kind) distinct nf later
          refine ⟨renewed, ran.trans ?_⟩
          simp [World.checked, World.noticed, NMap.modify_modify, noticesOf, raised, lowered]
          exact unread
      | false =>
          have low : (w.nmap.modify pointer fun a => lowered a rest) =
              w.nmap.modify pointer fun a => lowered a (kind :: rest) :=
            NMap.modify_congr at_ (by simp [lowered, NotificationArr.taskEnd_lowered raised])
          obtain ⟨renewed, ran⟩ := ih distinct nf at_
          refine ⟨renewed, ran.trans ?_⟩
          simp [World.checked, low, noticesOf, raised]

theorem mailKinds_distinct : (mailKinds.map Prod.fst).Nodup := by decide

/-- A check of the mail box of a user. -/
theorem checkMailBox_eq {w : World σ} {pointer : Nat} {flags : NotificationArr}
    (on : w.self.initialized = true) (nf : w.self.nf = some pointer)
    (at_ : w.nmap.at_ pointer = some flags) :
    ∃ renewed, checkMailBox w = .ok () (w.checked pointer flags renewed mailKinds) := by
  obtain ⟨renewed, ran⟩ := checkMails_eq mailKinds_distinct nf at_
  exact ⟨renewed, by simpa [checkMailBox, bind_apply, on] using ran⟩

/-- A check that finds no array of flags changes nothing, if it gets that far. -/
theorem checkMailBox_unset {w : World σ} (nf : w.self.nf = none) : checkMailBox w =
    if w.self.initialized then .error (.fault .wildPointer) w else .ok () w := by
  cases on : w.self.initialized with
  | true => simp [checkMailBox, bind_apply, on, mailKinds, checkMail, nf]
  | false => simp [checkMailBox, bind_apply, on]

/-! ## Logins -/

/-- What a login leaves, if it gets that far. -/
theorem sessionInit_ok {lib : External σ} {w t : World σ} {user : Str}
    (ran : sessionInit lib none user w = .ok () t) : ∃ list,
      t.nmap = w.nmap.alloc.1.insert user w.nmap.alloc.2 ∧
        t.self = { w.self with checkManager := some list, userName := user,
                               nf := some w.nmap.alloc.2, initialized := true } := by
  have returned : Returns (sessionInit lib none user) w fun _ v => v = t := ⟨(), t, ran, rfl⟩
  simp only [sessionInit, returns_bind, returns_when, Option.isSome_none, Bool.false_eq_true, if_false,
    returns_runQuery, returns_setSelf, returns_modify] at returned
  obtain ⟨list, -, rfl⟩ := returned
  exact ⟨list, rfl, rfl⟩

/-! ## The server -/

/-- A session is known by a number. -/
structure Server (σ : Type) where
  db : σ
  nmap : NMap
  sessions : Nat → Session

inductive ServerAct (σ : Type) where
  | sessionInit (i : Nat) (user : Str)
  | nmapNotify (user : Str) (task : Fin 10)
  | nmapNotifyWithList (users : List Str) (task : Fin 10)
  | checkMailBox (i : Nat)
  | database (db : σ)

namespace Server

/-- A session with what it shares. -/
def world (s : Server σ) (i : Nat) : World σ := ⟨s.sessions i, s.db, s.nmap, [], 0, 0, 0, [], none⟩

/-- What a session leaves for the others. -/
def leave (s : Server σ) (i : Nat) (w : World σ) : Server σ :=
  ⟨w.db, w.nmap, fun j => if j = i then w.self else s.sessions j⟩

/-- A call made on a session; nothing comes behind one that does not return. -/
def call (s : Server σ) (i : Nat) (m : M σ Unit) : Option (Server σ) :=
  match m (s.world i) with
  | .ok _ w => some (s.leave i w)
  | .error _ _ => none

def next (lib : External σ) (s : Server σ) : ServerAct σ → Option (Server σ)
  | .sessionInit i user => s.call i (NineProject.sessionInit lib none user)
  | .nmapNotify user task => some { s with nmap := s.nmap.notify user task }
  | .nmapNotifyWithList users task => some { s with nmap := s.nmap.notifyWithList users task }
  | .checkMailBox i => s.call i NineProject.checkMailBox
  | .database db => some { s with db := db }

/-- No one has logged in yet. -/
def New (s : Server σ) : Prop := s.nmap = NMap.empty ∧ ∀ i, (s.sessions i).New

theorem call_eq_some {s t : Server σ} {i : Nat} {m : M σ Unit} (called : s.call i m = some t) :
    ∃ w, m (s.world i) = .ok () w ∧ t = s.leave i w := by
  unfold call at called
  split at called
  · next w ran =>
      cases called
      exact ⟨w, ran, rfl⟩
  · cases called

end Server

/-! ## After a history of logins -/

/-- The logins of a history, with the session they were made on. -/
def loginsOf : List (ServerAct σ) → List (Nat × Str)
  | [] => []
  | .sessionInit i user :: rest => (i, user) :: loginsOf rest
  | _ :: rest => loginsOf rest

/-- A step that notifies no one and checks no mail box. -/
def ServerAct.LogsIn : ServerAct σ → Prop
  | .sessionInit _ _ | .database _ => True
  | _ => False

/-- How the map and the sessions refer to the arrays after these logins: the map to that
    of a user's first login, a session to that of its last. No flag was raised. -/
structure Wired (logins : List (Nat × Str)) (s : Server σ) : Prop where
  arrays : s.nmap.arrays = List.replicate logins.length NotificationArr.fresh
  first : ∀ user, s.nmap.getNotifier user = logins.findIdx? fun l => l.2 = user
  last : ∀ before i user after, logins = before ++ (i, user) :: after → i ∉ after.map Prod.fst →
    (s.sessions i).nf = some before.length ∧ (s.sessions i).initialized = true
  strangers : ∀ i, i ∉ logins.map Prod.fst → (s.sessions i).nf = none

namespace Server

theorem New.wired {s : Server σ} (new : s.New) : Wired [] s := by
  obtain ⟨map, fresh⟩ := new
  refine ⟨by rw [map]; rfl, fun user => by rw [map]; rfl, fun before i user after split => ?_, fun i _ => ?_⟩
  · simp at split
  · obtain ⟨socket, initialized, renewed, iData, hBuf, source, is⟩ := fresh i
    rw [is]
    rfl

end Server

theorem getNotifier_insert (m : NMap) (id user : Str) (pointer : Nat) :
    (m.insert id pointer).getNotifier user =
      (m.getNotifier user).or (if user = id then some pointer else none) := by
  unfold NMap.insert NMap.getNotifier
  by_cases there : (m.map.lookup id).isSome
  · rw [if_pos there]
    by_cases same : user = id
    · obtain ⟨p, found⟩ := Option.isSome_iff_exists.mp there
      simp [same, found]
    · simp [same]
  · rw [if_neg there]
    have missing : m.map.lookup id = none := Option.not_isSome_iff_eq_none.mp there
    by_cases same : user = id
    · simp [same, missing]
    · simp [same, List.lookup_cons, beq_eq_false_iff_ne.mpr same]

/-- Where the last login of a history stands. -/
theorem append_split {α : Type} {xs before after : List α} {x a : α}
    (split : xs ++ [x] = before ++ a :: after) :
    (before = xs ∧ a = x ∧ after = []) ∨ ∃ rest, after = rest ++ [x] ∧ xs = before ++ a :: rest := by
  rcases List.eq_nil_or_concat after with rfl | ⟨rest, y, rfl⟩
  · obtain ⟨same, last⟩ := List.append_inj' split rfl
    cases last
    exact .inl ⟨same.symm, rfl, rfl⟩
  · have joined : xs ++ [x] = (before ++ a :: rest) ++ [y] := by simpa using split
    obtain ⟨same, last⟩ := List.append_inj' joined rfl
    cases last
    exact .inr ⟨rest, by simp, same⟩

theorem Wired.login {lib : External σ} {logins : List (Nat × Str)} {s t : Server σ} {i : Nat} {user : Str}
    (wired : Wired logins s) (step : s.next lib (.sessionInit i user) = some t) :
    Wired (logins ++ [(i, user)]) t := by
  obtain ⟨w, ran, rfl⟩ := Server.call_eq_some step
  obtain ⟨list, nmap, self⟩ := sessionInit_ok ran
  have count : s.nmap.arrays.length = logins.length := by simp [wired.arrays]
  have pointer : (s.world i).nmap.alloc.2 = logins.length := count
  rw [pointer] at nmap self
  have own : ((s.leave i w).sessions i).nf = some logins.length ∧
      ((s.leave i w).sessions i).initialized = true := by simp [Server.leave, self]
  have others : ∀ j, j ≠ i → (s.leave i w).sessions j = s.sessions j := fun j apart => by
    simp [Server.leave, apart]
  refine ⟨?_, fun u => ?_, fun before j u after split last => ?_, fun j stranger => ?_⟩
  · have kept : (s.leave i w).nmap.arrays = s.nmap.arrays ++ [NotificationArr.fresh] := by
      show w.nmap.arrays = _
      rw [nmap]
      unfold NMap.insert
      split <;> rfl
    rw [kept, wired.arrays]
    simp [List.replicate_succ']
  · have found : (s.leave i w).nmap.getNotifier u =
        (s.nmap.getNotifier u).or (if u = user then some logins.length else none) := by
      show w.nmap.getNotifier u = _
      rw [nmap, getNotifier_insert]
      rfl
    rw [found, wired.first, List.findIdx?_append]
    congr 1
    by_cases same : u = user
    · simp [same]
    · simp [same, Ne.symm same]
  · rcases append_split split with ⟨rfl, same, rfl⟩ | ⟨rest, rfl, earlier⟩
    · cases same
      exact own
    · simp only [List.map_append, List.map_cons, List.map_nil, List.mem_append, List.mem_singleton,
        not_or] at last
      rw [others j last.2]
      exact wired.last before j u rest earlier last.1
  · simp only [List.map_append, List.map_cons, List.map_nil, List.mem_append, List.mem_singleton,
      not_or] at stranger
    rw [others j stranger.2]
    exact wired.strangers j stranger.1

theorem Wired.run {lib : External σ} {logins : List (Nat × Str)} {s t : Server σ}
    {acts : List (ServerAct σ)} (wired : Wired logins s) (only : ∀ act ∈ acts, act.LogsIn)
    (ran : Runs.after (Server.next lib) s acts = some t) : Wired (logins ++ loginsOf acts) t := by
  induction acts generalizing logins s with
  | nil =>
      cases ran
      simpa [loginsOf] using wired
  | cons act rest ih =>
      rw [Runs.after_cons] at ran
      obtain ⟨u, step, tail⟩ := Option.bind_eq_some_iff.mp ran
      have later := fun act member => only act (List.mem_cons_of_mem _ member)
      cases act with
      | sessionInit i user =>
          have next := ih (wired.login step) later tail
          simpa [loginsOf] using next
      | database db =>
          cases step
          have kept : Wired logins { s with db := db } :=
            ⟨wired.arrays, wired.first, wired.last, wired.strangers⟩
          exact ih kept later tail
      | nmapNotify user task => exact False.elim (only (.nmapNotify user task) (by simp))
      | nmapNotifyWithList users task =>
          exact False.elim (only (.nmapNotifyWithList users task) (by simp))
      | checkMailBox i => exact False.elim (only (.checkMailBox i) (by simp))

end NineProject
