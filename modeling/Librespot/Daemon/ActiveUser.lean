import Librespot.Base.Run

/-!
# The session and the user that is advertised (`daemon/app.go`, `zeroconf/zeroconf.go`)

The session belongs to the daemon and the advertised user to the zeroconf responder. The loop that
handles logouts, the handler of an `addUser` request and the goroutines that run a session all write
to them. One step is what a goroutine does under one lock, or a login.
-/

open Base.Run Option

namespace Librespot.Daemon

abbrev Username := { name : String // name ≠ "" }

structure Session where
  player : Nat
  username : Username
deriving DecidableEq, Repr

/-- An `addUser` request that has passed the checks. `creating` is the call of `newAppPlayer`. -/
inductive AddUser where
  | none
  | posted (username : Username)
  | creating (username : Username)
  | created (username : Username) (session : Session)
  | answered (username : Username) (accepted : Bool)
deriving DecidableEq, Repr

/-- The loop over `logoutCh`. `naming` is about to set the advertised user. -/
inductive LogoutLoop where
  | idle
  | tearing
  | restoring
  | restored (session : Session)
  | naming (user : String)
deriving DecidableEq, Repr

structure Users where
  current : Option Session := none
  currentUser : String := ""
  authenticatingUser : String := ""
  players : Nat := 0
  request : AddUser := .none
  logout : LogoutLoop := .idle
deriving DecidableEq, Repr

namespace Users

/-- A login that fails gives no username. A restore may also have nothing to restore. -/
inductive Label where
  | addUser (username : Username)
  | serve
  | login (username : Option Username)
  | serveInstall
  | answer
  | logout (player : Nat)
  | tear
  | restore (username : Option Username)
  | install
  | name
  | runEnds (player : Nat)
deriving DecidableEq, Repr

def newSession (username : Username) (s : Users) : Session × Users :=
  ({ player := s.players, username }, { s with players := s.players + 1 })

def start : Option Username → Users
  | none => {}
  | some username =>
    { current := some { player := 0, username }, currentUser := username, players := 1 }

/-- The session that is replaced is closed, which ends its `Run`. -/
def setSession (session : Option Session) (s : Users) : Users := { s with current := session }

def beginAddUser (username : Username) (s : Users) : Users :=
  if s.authenticatingUser = username then s
  else if s.authenticatingUser ≠ "" then s
  else { s with authenticatingUser := username, request := .posted username }

def step (s : Users) : Label → Option Users
  | .addUser username => some (s.beginAddUser username)
  | .serve =>
    match s.request with
    | .posted username => some { s.setSession none with request := .creating username }
    | _ => none
  | .login res =>
    match s.request, res with
    | .creating username, none => some { s with request := .answered username false }
    | .creating username, some name =>
      let (session, s) := s.newSession name
      some { s with request := .created username session }
    | _, _ => none
  | .serveInstall =>
    match s.request with
    | .created username session =>
      some { s.setSession (some session) with request := .answered username true }
    | _ => none
  | .answer =>
    match s.request with
    | .answered _ false => some { s with authenticatingUser := "", request := .none }
    | .answered username true =>
      some { s with authenticatingUser := "", currentUser := username, request := .none }
    | _ => none
  | .logout player =>
    if s.logout ≠ .idle then none
    else if s.current.any (·.player = player) then some { s with logout := .tearing }
    else some s
  | .tear =>
    if s.logout = .tearing then some { s.setSession none with logout := .restoring } else none
  | .restore res =>
    match s.logout, res with
    | .restoring, none => some { s with logout := .naming "" }
    | .restoring, some name =>
      let (session, s) := s.newSession name
      some { s with logout := .restored session }
    | _, _ => none
  | .install =>
    match s.logout with
    | .restored session =>
      some { s.setSession (some session) with logout := .naming session.username }
    | _ => none
  | .name =>
    match s.logout with
    | .naming user => some { s with currentUser := user, logout := .idle }
    | _ => none
  | .runEnds player =>
    some (if s.current.any (·.player = player) then s.setSession none else s)

inductive Moves (s : Users) : Label → Users → Prop
  | begun (username : Username) : Moves s (.addUser username) (s.beginAddUser username)
  | served (username : Username) (hrequest : s.request = .posted username) :
      Moves s .serve { s.setSession none with request := .creating username }
  | notLoggedIn (username : Username) (hrequest : s.request = .creating username) :
      Moves s (.login none) { s with request := .answered username false }
  | loggedIn (username name : Username) (hrequest : s.request = .creating username) :
      Moves s (.login (some name))
        { (s.newSession name).2 with request := .created username (s.newSession name).1 }
  | installed (username : Username) (session : Session)
      (hrequest : s.request = .created username session) :
      Moves s .serveInstall
        { s.setSession (some session) with request := .answered username true }
  | refused (username : Username) (hrequest : s.request = .answered username false) :
      Moves s .answer { s with authenticatingUser := "", request := .none }
  | answered (username : Username) (hrequest : s.request = .answered username true) :
      Moves s .answer
        { s with authenticatingUser := "", currentUser := username, request := .none }
  | loggedOut (player : Nat) (hlogout : s.logout = .idle)
      (hcurrent : s.current.any (·.player = player) = true) :
      Moves s (.logout player) { s with logout := .tearing }
  | ignored (player : Nat) (hlogout : s.logout = .idle) : Moves s (.logout player) s
  | torn (hlogout : s.logout = .tearing) :
      Moves s .tear { s.setSession none with logout := .restoring }
  | notRestored (hlogout : s.logout = .restoring) :
      Moves s (.restore none) { s with logout := .naming "" }
  | restored (name : Username) (hlogout : s.logout = .restoring) :
      Moves s (.restore (some name))
        { (s.newSession name).2 with logout := .restored (s.newSession name).1 }
  | reinstalled (session : Session) (hlogout : s.logout = .restored session) :
      Moves s .install { s.setSession (some session) with logout := .naming session.username }
  | named (user : String) (hlogout : s.logout = .naming user) :
      Moves s .name { s with currentUser := user, logout := .idle }
  | ended (player : Nat) :
      Moves s (.runEnds player)
        (if s.current.any (·.player = player) then s.setSession none else s)

theorem step_moves {s s' : Users} {l : Label} (h : s.step l = some s') : Moves s l s' := by
  unfold step at h
  split at h
  · exact some.inj h ▸ .begun _
  · split at h
    · exact some.inj h ▸ .served _ ‹_›
    · simp at h
  · split at h
    · exact some.inj h ▸ .notLoggedIn _ ‹_›
    · exact some.inj h ▸ .loggedIn _ _ ‹_›
    · simp at h
  · split at h
    · exact some.inj h ▸ .installed _ _ ‹_›
    · simp at h
  · split at h
    · exact some.inj h ▸ .refused _ ‹_›
    · exact some.inj h ▸ .answered _ ‹_›
    · simp at h
  · split_ifs at h with hlogout hcurrent
    · exact some.inj h ▸ .loggedOut _ (not_not.mp hlogout) hcurrent
    · exact some.inj h ▸ .ignored _ (not_not.mp hlogout)
  · split_ifs at h with hlogout
    exact some.inj h ▸ .torn hlogout
  · split at h
    · exact some.inj h ▸ .notRestored ‹_›
    · exact some.inj h ▸ .restored _ ‹_›
    · simp at h
  · split at h
    · exact some.inj h ▸ .reinstalled _ ‹_›
    · simp at h
  · split at h
    · exact some.inj h ▸ .named _ ‹_›
    · simp at h
  · exact some.inj h ▸ .ended _

def Quiescent (s : Users) : Prop := s.request = .none ∧ s.logout = .idle

def installedUser (s : Users) : String := (s.current.map (·.username.1)).getD ""

def Agrees (s : Users) : Prop :=
  s.currentUser = s.installedUser ∧ (s.currentUser = "" ↔ s.current = none)

theorem agrees_iff (s : Users) : s.Agrees ↔ s.currentUser = s.installedUser := by
  refine ⟨And.left, fun h => ⟨h, ?_⟩⟩
  rw [h, installedUser]
  cases hcurrent : s.current with
  | none => simp
  | some session => simpa using session.username.2

/-! ## Runs without a defect -/

/-- A logout and a request do not overlap, a login that fails finds no user advertised, a session has
the name that was asked for, and the `Run` of the session in place does not end by itself. -/
def Clean (s : Users) : Label → Prop
  | .addUser _ => s.logout = .idle ∨ s.authenticatingUser ≠ ""
  | .logout player => s.request = .none ∨ s.current.any (·.player = player) = false
  | .login none => s.currentUser = ""
  | .login (some name) => ∀ username, s.request = .creating username → name = username
  | .runEnds player => s.current.any (·.player = player) = false
  | _ => True

def RequestHolds (s : Users) : Prop :=
  match s.request with
  | .none => True
  | .posted _ => s.currentUser = s.installedUser
  | .creating _ => s.current = none
  | .created username session => s.current = none ∧ session.username = username
  | .answered username true => s.installedUser = username
  | .answered _ false => s.current = none ∧ s.currentUser = ""

def LogoutHolds (s : Users) : Prop :=
  match s.logout with
  | .idle => True
  | .tearing => s.currentUser = s.installedUser
  | .restoring | .restored _ => s.current = none
  | .naming user => user = s.installedUser

structure Inv (s : Users) : Prop where
  alone : s.request = .none ∨ s.logout = .idle
  authenticating : s.authenticatingUser = "" → s.request = .none
  request : s.RequestHolds
  logout : s.LogoutHolds
  agrees : s.Quiescent → s.currentUser = s.installedUser

theorem start_inv (initial : Option Username) : (start initial).Inv := by
  cases initial with
  | none | some => exact ⟨.inl rfl, fun _ => rfl, trivial, trivial, fun _ => rfl⟩

variable {s s' : Users}

theorem Inv.of_request (hlogout : s.logout = .idle)
    (hauth : s.authenticatingUser = "" → s.request = .none) (hrequest : s.RequestHolds)
    (hagrees : s.request = .none → s.currentUser = s.installedUser) : s.Inv :=
  ⟨.inr hlogout, hauth, hrequest, by rw [LogoutHolds, hlogout]; trivial,
    fun hquiet => hagrees hquiet.1⟩

theorem Inv.of_logout (hrequest : s.request = .none) (hlogout : s.LogoutHolds)
    (hagrees : s.logout = .idle → s.currentUser = s.installedUser) : s.Inv :=
  ⟨.inl hrequest, fun _ => hrequest, by rw [RequestHolds, hrequest]; trivial, hlogout,
    fun hquiet => hagrees hquiet.2⟩

theorem Inv.idle_of_request (h : s.Inv) (hrequest : s.request ≠ .none) : s.logout = .idle :=
  h.alone.resolve_left hrequest

theorem Inv.none_of_logout (h : s.Inv) (hlogout : s.logout ≠ .idle) : s.request = .none :=
  h.alone.resolve_right hlogout

theorem Inv.addUser {username : Username} (h : s.Inv) (hclean : s.Clean (.addUser username)) :
    (s.beginAddUser username).Inv := by
  unfold beginAddUser
  split_ifs with hsame hother
  · exact h
  · exact h
  · have hauth : s.authenticatingUser = "" := not_not.mp hother
    have hidle : s.logout = .idle := hclean.resolve_right (fun hne => hne hauth)
    have hquiet : s.Quiescent := ⟨h.authenticating hauth, hidle⟩
    exact .of_request hidle (fun hempty => absurd hempty username.2) (h.agrees hquiet) (by simp)

theorem Inv.of_progress {request : AddUser} (h : s.Inv) (hbusy : s.request ≠ .none)
    (hcurrent : s'.authenticatingUser = s.authenticatingUser) (hlogout : s'.logout = s.logout)
    (hrequest : s'.request = request) (hholds : s'.RequestHolds) (hnone : request ≠ .none) :
    s'.Inv := by
  refine .of_request (hlogout.trans (h.idle_of_request hbusy)) (fun hauth => ?_) hholds
    fun hidle => absurd (hrequest.symm.trans hidle) hnone
  exact absurd (h.authenticating (hcurrent.symm.trans hauth)) hbusy

theorem Inv.step {l : Label} (h : s.Inv) (hclean : s.Clean l) (hstep : s.step l = some s') :
    s'.Inv := by
  have hrequest := h.request
  have hlogout := h.logout
  cases step_moves hstep with
  | begun => exact h.addUser hclean
  | served _ hr => exact h.of_progress (by simp [hr]) rfl rfl rfl rfl (by simp)
  | notLoggedIn _ hr =>
    simp only [RequestHolds, hr] at hrequest
    exact h.of_progress (by simp [hr]) rfl rfl rfl ⟨hrequest, hclean⟩ (by simp)
  | loggedIn username _ hr =>
    simp only [RequestHolds, hr] at hrequest
    exact h.of_progress (by simp [hr]) rfl rfl rfl ⟨hrequest, hclean username hr⟩ (by simp)
  | installed _ _ hr =>
    simp only [RequestHolds, hr] at hrequest
    exact h.of_progress (by simp [hr]) rfl rfl rfl (congrArg Subtype.val hrequest.2) (by simp)
  | refused _ hr =>
    simp only [RequestHolds, hr] at hrequest
    refine .of_request (h.idle_of_request (by simp [hr])) (fun _ => rfl) trivial fun _ => ?_
    rw [hrequest.2, installedUser, hrequest.1]
    rfl
  | answered _ hr =>
    simp only [RequestHolds, hr] at hrequest
    exact .of_request (h.idle_of_request (by simp [hr])) (fun _ => rfl) trivial fun _ =>
      hrequest.symm
  | loggedOut _ hl hcurrent =>
    have hnone : s.request = .none := hclean.resolve_right (by simp [hcurrent])
    exact .of_logout hnone (h.agrees ⟨hnone, hl⟩) (by simp)
  | ignored => exact h
  | torn hl => exact .of_logout (h.none_of_logout (by simp [hl])) rfl (by simp)
  | notRestored hl =>
    simp only [LogoutHolds, hl] at hlogout
    refine .of_logout (h.none_of_logout (by simp [hl])) ?_ (by simp)
    rw [LogoutHolds, installedUser, hlogout]
    rfl
  | restored _ hl =>
    simp only [LogoutHolds, hl] at hlogout
    exact .of_logout (h.none_of_logout (by simp [hl])) hlogout (by simp)
  | reinstalled _ hl => exact .of_logout (h.none_of_logout (by simp [hl])) rfl (by simp)
  | named _ hl =>
    simp only [LogoutHolds, hl] at hlogout
    exact .of_logout (h.none_of_logout (by simp [hl])) trivial fun _ => hlogout
  | ended =>
    rw [if_neg (by rw [show s.current.any _ = false from hclean]; simp)]
    exact h

/-- Whenever nothing is in progress, the user of the session is the one advertised. -/
theorem user_agrees_of_clean {initial : Option Username} {ls : List Label}
    (hclean : Meets step Clean (start initial) ls) (hrun : exec step (start initial) ls = some s)
    (hquiet : s.Quiescent) : s.Agrees := by
  have hend : s.Inv := Always.last
    (always_of_meets (fun _ _ _ h hc hstep => h.step hc hstep) (start_inv initial) hclean) hrun
  exact s.agrees_iff.mpr (hend.agrees hquiet)

instance (s : Users) : Decidable s.Quiescent := inferInstanceAs (Decidable (_ ∧ _))

instance (s : Users) : DecidablePred s.Clean
  | .addUser _ | .logout _ => inferInstanceAs (Decidable (_ ∨ _))
  | .login none | .runEnds _ => inferInstanceAs (Decidable (_ = _))
  | .login (some name) =>
    match h : s.request with
    | .creating username => decidable_of_iff (name = username) (by simp [Clean, h])
    | .none | .posted _ | .created .. | .answered .. => .isTrue (by simp [Clean, h])
  | .serve | .serveInstall | .answer | .tear | .restore _ | .install | .name => .isTrue trivial

def alice : Username := ⟨"alice", by decide⟩

def bob : Username := ⟨"bob", by decide⟩

def takenOverRun : List Label :=
  [.addUser bob, .serve, .login (some bob), .serveInstall, .runEnds 0, .answer, .logout 1, .tear,
    .restore none, .name]

theorem user_agrees_of_clean_takenOverRun :
    ∃ s, exec step (start (some alice)) takenOverRun = some s ∧ s.Quiescent ∧ s.Agrees := by
  have hclean : Meets step Clean (start (some alice)) takenOverRun := by decide +kernel
  exact ⟨Option.get _ (by decide +kernel), exec_get _, by decide +kernel,
    user_agrees_of_clean hclean (exec_get _) (by decide +kernel)⟩

/-- The login of a second user fails. The first session is gone by then, but its user stays. -/
theorem user_stays_after_failed_login :
    (exec step (start (some alice)) [.addUser bob, .serve, .login none, .answer]).map
      (fun s => (s.request, s.logout, s.current, s.currentUser)) =
      some (.none, .idle, none, "alice") := by
  decide +kernel

end Users

end Librespot.Daemon
