import Librespot.Daemon.ActiveUser

/-!
# How a session that was added comes to its end (`daemon/app.go`)

The steps of the daemon with a record of the sessions that `addUser` requests have installed, and of
every session that was removed, and why.
-/

open Base.Run List Option

namespace Librespot.Daemon

/-- Why a session is no longer the current one. A logout is that of the player whose message the
loop is handling. -/
inductive Removal where
  | addUser
  | logout (player : Option Nat)
  | ended (player : Nat)
  | shutdown
  | restore
deriving DecidableEq, Repr

def Removal.Allowed (player : Nat) : Removal → Prop
  | .addUser => True
  | .logout requested => requested = some player
  | .ended run => run = player
  | .shutdown => True
  | .restore => False

structure Tenancy where
  users : Users
  leaving : Option Nat := none
  down : Bool := false
  added : List Nat := []
  removals : List (Nat × Removal) := []
deriving DecidableEq, Repr

namespace Tenancy

inductive Op where
  | users (l : Users.Label)
  | shutdown
deriving DecidableEq, Repr

def removal (t : Tenancy) : Users.Label → Removal
  | .serve => .addUser
  | .serveInstall => .addUser
  | .tear => .logout t.leaving
  | .runEnds player => .ended player
  | _ => .restore

def noted (t : Tenancy) (why : Removal) (users : Users) : Tenancy :=
  match t.users.current with
  | none => { t with users }
  | some session =>
    if users.current = some session then { t with users }
    else { t with users, removals := t.removals ++ [(session.player, why)] }

def tracked (t : Tenancy) (users : Users) : Users.Label → Tenancy
  | .logout player => if users.logout = .tearing then { t with leaving := some player } else t
  | .serveInstall => { t with added := (users.current.map (·.player)).toList ++ t.added }
  | _ => t

def isLogout : Users.Label → Bool
  | .logout _ => true
  | _ => false

def step (t : Tenancy) : Op → Option Tenancy
  | .users l =>
    if t.down && isLogout l then none
    else (t.users.step l).map fun users => (t.noted (t.removal l) users).tracked users l
  | .shutdown =>
    if t.users.logout = .idle ∧ ¬ t.down then
      some { t.noted .shutdown (t.users.setSession none) with down := true }
    else none

def start (initial : Option Username) : Tenancy := { users := Users.start initial }

def Kept (t : Tenancy) : Prop := ∀ r ∈ t.removals, r.1 ∈ t.added → r.2.Allowed r.1

/-! ## Logins that do not overlap -/

/-- A request does not install its session while a logout is torn down or restored. -/
def Apart (t : Tenancy) : Op → Prop
  | .users .serveInstall => t.users.logout = .idle ∨ ∃ user, t.users.logout = .naming user
  | _ => True

def Window (leaving : Option Nat) (u : Users) : Prop :=
  match u.logout with
  | .tearing => ∀ session, u.current = some session → leaving = some session.player
  | .restoring | .restored _ => u.current = none
  | _ => True

structure Inv (t : Tenancy) : Prop where
  window : Window t.leaving t.users
  allowed : ∀ r ∈ t.removals, r.2.Allowed r.1

theorem inv_start (initial : Option Username) : (start initial).Inv := by
  refine ⟨?_, by simp [start]⟩
  cases initial with
  | none | some => trivial

variable {t t' : Tenancy} {u : Users}

theorem beginAddUser_current (username : Username) (u : Users) :
    (u.beginAddUser username).current = u.current := by
  unfold Users.beginAddUser
  split_ifs <;> rfl

theorem beginAddUser_logout (username : Username) (u : Users) :
    (u.beginAddUser username).logout = u.logout := by
  unfold Users.beginAddUser
  split_ifs <;> rfl

theorem Inv.removal_allowed (ht : t.Inv) {l : Users.Label} (h : t.users.Moves l u)
    {session : Session} (hcurrent : t.users.current = some session)
    (hgone : u.current ≠ some session) : (t.removal l).Allowed session.player := by
  have hwindow := ht.window
  cases h with
  | begun username => exact absurd ((beginAddUser_current username _).trans hcurrent) hgone
  | served => trivial
  | notLoggedIn | loggedIn => exact absurd hcurrent hgone
  | installed => trivial
  | refused | answered | loggedOut | ignored => exact absurd hcurrent hgone
  | torn hl =>
    simp only [Window, hl] at hwindow
    exact hwindow session hcurrent
  | notRestored | restored => exact absurd hcurrent hgone
  | reinstalled _ hl =>
    simp [Window, hl, hcurrent] at hwindow
  | named => exact absurd hcurrent hgone
  | ended player =>
    by_cases hany : t.users.current.any (·.player = player) = true
    · simpa [hcurrent, eq_comm, removal, Removal.Allowed] using hany
    · rw [if_neg hany] at hgone
      exact absurd hcurrent hgone

theorem Window.of_eq {leaving : Option Nat} {u' : Users} (h : Window leaving u)
    (hlogout : u'.logout = u.logout) (hcurrent : u'.current = u.current ∨ u'.current = none) :
    Window leaving u' := by
  unfold Window at h ⊢
  rw [hlogout]
  rcases hcurrent with heq | hnone
  · rw [heq]
    exact h
  · split <;> simp [hnone]

/-! ## What is recorded -/

theorem noted_users (t : Tenancy) (why : Removal) (u : Users) : (t.noted why u).users = u := by
  unfold noted
  split
  · rfl
  · split_ifs <;> rfl

theorem noted_leaving (t : Tenancy) (why : Removal) (u : Users) :
    (t.noted why u).leaving = t.leaving := by
  unfold noted
  split
  · rfl
  · split_ifs <;> rfl

theorem mem_noted {why : Removal} {r : Nat × Removal}
    (h : r ∈ (t.noted why u).removals) : r ∈ t.removals ∨
      ∃ session, t.users.current = some session ∧ u.current ≠ some session ∧
        r = (session.player, why) := by
  unfold noted at h
  split at h
  · exact .inl h
  · rename_i session hcurrent
    split_ifs at h with hsame
    · exact .inl h
    · rcases mem_append.mp h with h | h
      · exact .inl h
      · exact .inr ⟨session, hcurrent, hsame, mem_singleton.mp h⟩

theorem tracked_users (t : Tenancy) (u : Users) (l : Users.Label) :
    (t.tracked u l).users = t.users := by
  unfold tracked
  split
  · split_ifs <;> rfl
  · rfl
  · rfl

theorem tracked_removals (t : Tenancy) (u : Users) (l : Users.Label) :
    (t.tracked u l).removals = t.removals := by
  unfold tracked
  split
  · split_ifs <;> rfl
  · rfl
  · rfl

theorem Inv.window_step (ht : t.Inv) {l : Users.Label} (h : t.users.Moves l u)
    (hapart : t.Apart (.users l)) (why : Removal) :
    Window ((t.noted why u).tracked u l).leaving u := by
  have hwindow := ht.window
  have hleaving := noted_leaving t why u
  have hsame (hlogout : u.logout = t.users.logout)
      (hcurrent : u.current = t.users.current ∨ u.current = none) :
      Window (t.noted why u).leaving u := by
    rw [hleaving]
    exact hwindow.of_eq hlogout hcurrent
  cases h with
  | begun =>
    exact hsame (beginAddUser_logout _ _) (.inl (beginAddUser_current _ _))
  | served => exact hsame rfl (.inr rfl)
  | notLoggedIn | loggedIn => exact hsame rfl (.inl rfl)
  | installed =>
    rcases hapart with hidle | ⟨user, hnaming⟩
    · simp [Window, Users.setSession, hidle]
    · simp [Window, Users.setSession, hnaming]
  | refused | answered => exact hsame rfl (.inl rfl)
  | loggedOut _ _ hany =>
    simp only [Window, tracked, if_true]
    intro session hcurrent
    simpa [hcurrent, eq_comm] using hany
  | ignored _ hl => simp [Window, hl]
  | torn => rfl
  | notRestored => trivial
  | restored _ hl =>
    simp only [Window, hl] at hwindow
    exact hwindow
  | reinstalled | named => trivial
  | ended =>
    refine hsame ?_ ?_
    · split_ifs <;> rfl
    · split_ifs
      · exact .inr rfl
      · exact .inl rfl

theorem Inv.noted (ht : t.Inv) {why : Removal}
    (hwhy : ∀ session, t.users.current = some session → u.current ≠ some session →
      why.Allowed session.player) : ∀ r ∈ (t.noted why u).removals, r.2.Allowed r.1 := by
  intro r hr
  rcases mem_noted hr with hr | ⟨session, hcurrent, hgone, rfl⟩
  · exact ht.allowed r hr
  · exact hwhy session hcurrent hgone

theorem Inv.step {op : Op} (ht : t.Inv) (hapart : t.Apart op) (h : t.step op = some t') :
    t'.Inv := by
  cases op with
  | users =>
    obtain ⟨-, hmap⟩ := ite_none_left_eq_some.mp h
    obtain ⟨u, hu, rfl⟩ := map_eq_some_iff.mp hmap
    have hmoves := Users.step_moves hu
    constructor
    · rw [tracked_users, noted_users]
      exact ht.window_step hmoves hapart _
    · rw [tracked_removals]
      exact ht.noted fun session hcurrent hgone => ht.removal_allowed hmoves hcurrent hgone
  | shutdown =>
    obtain ⟨⟨hidle, -⟩, hsome⟩ := ite_none_right_eq_some.mp h
    cases hsome
    refine ⟨?_, ht.noted fun _ _ _ => trivial⟩
    simp [Window, noted_users, Users.setSession, hidle]

/-- Whatever the goroutines do, as long as no request installs its session while a logout is being
handled. -/
theorem kept_of_apart {initial : Option Username} {ops : List Op}
    (h : Meets step Apart (start initial) ops) : Always step Kept (start initial) ops :=
  (always_of_meets (fun _ _ _ ht hapart hstep => ht.step hapart hstep) (inv_start initial) h).imp
    fun _ ht r hr _ => ht.allowed r hr

instance (t : Tenancy) : DecidablePred t.Apart
  | .users .serveInstall =>
    match h : t.users.logout with
    | .idle | .naming _ => .isTrue (by simp [Apart, h])
    | .tearing | .restoring | .restored _ => .isFalse (by simp [Apart, h])
  | .users (.addUser _) | .users .serve | .users (.login _) | .users .answer | .users (.logout _)
  | .users .tear | .users (.restore _) | .users .install | .users .name | .users (.runEnds _)
  | .shutdown => .isTrue trivial

def twoGuestsRun : List Op :=
  [.users (.addUser Users.bob), .users .serve, .users (.login (some Users.bob)),
    .users .serveInstall, .users .answer, .users (.logout 1), .users .tear,
    .users (.addUser Users.bob), .users .serve, .users (.restore (some Users.alice)),
    .users .install, .users (.login (some Users.bob)), .users .serveInstall, .users .name]

theorem kept_of_apart_twoGuests :
    (exec step (start (some Users.alice)) twoGuestsRun).map (fun t => (t.added, t.removals)) =
      some ([3, 1], [(0, .addUser), (1, .logout (some 1)), (2, .addUser)]) ∧
    Always step Kept (start (some Users.alice)) twoGuestsRun := by
  exact ⟨by decide +kernel, kept_of_apart (by decide +kernel)⟩

def replacedRun : List Op :=
  [.users (.logout 0), .users .tear, .users (.addUser Users.bob), .users .serve,
    .users (.login (some Users.bob)), .users .serveInstall, .users .answer,
    .users (.restore (some Users.alice)), .users .install]

/-- The restored session takes the place of the one that was added. -/
theorem replaced_by_restore :
    (exec step (start (some Users.alice)) replacedRun).map
      (fun t => (t.users.current, t.added, t.removals)) =
      some (some { player := 2, username := Users.alice }, [1],
        [(0, .logout (some 0)), (1, .restore)]) ∧
    ¬ Always step Kept (start (some Users.alice)) replacedRun := by
  refine ⟨by decide +kernel, fun halways => ?_⟩
  exact halways.last (exec_get (by decide +kernel)) (1, .restore) (by decide +kernel)
    (by decide +kernel)

end Tenancy

end Librespot.Daemon
