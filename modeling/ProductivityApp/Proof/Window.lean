import Mathlib.Data.List.Chain
import ProductivityApp.Auth.Client

/-!
# The window follows the session

The listener of a scene is called late: notifications wait in the main queue, sessions change in the
meantime, and a change of token that is not a change of account is posted as well. The first law is
that a window is never left behind: whenever nothing waits any more, it shows a controller made for
the account that is signed in. The second is about all the controllers a window has been given: no
two in a row are for the same account, so signing in again as oneself replaces nothing, and they are
in the order of the sessions.
-/

namespace ProductivityApp

open EventSystem

namespace Scene

/-- The listener was last called with this user's account. -/
def UpToDate (scene : Scene) (user : Option FIRUser) : Prop :=
  scene.firstInvocation = false ∧ scene.previousUserID = user.map FIRUser.uid

theorem upToDate_listener (scene : Scene) (user : Option FIRUser) :
    (scene.listener user).UpToDate user := ⟨rfl, rfl⟩

theorem UpToDate.of_uid_eq {scene : Scene} {user other : Option FIRUser}
    (h : scene.UpToDate user) (heq : user.map FIRUser.uid = other.map FIRUser.uid) :
    scene.UpToDate other := ⟨h.1, h.2.trans heq⟩

/-- What holds of the controllers of a window: the last is for the account the listener knows of,
no two in a row are for one account, and the sessions came in their order. -/
structure Sound (sessions : List (Option Uid)) (scene : Scene) : Prop where
  last : scene.rootViewControllers.getLast?
    = if scene.firstInvocation then none else some scene.previousUserID
  chain : scene.rootViewControllers.IsChain (· ≠ ·)
  sublist : scene.rootViewControllers.Sublist sessions

theorem sound_connected (sessions : List (Option Uid)) : connected.Sound sessions where
  last := rfl
  chain := .nil
  sublist := List.nil_sublist sessions

theorem Sound.append {sessions : List (Option Uid)} {scene : Scene} (h : scene.Sound sessions)
    (later : List (Option Uid)) : scene.Sound (sessions ++ later) :=
  { h with sublist := h.sublist.trans (List.sublist_append_left sessions later) }

theorem sublist_concat {α : Type} {shorter longer : List α} {a : α}
    (h : shorter.Sublist (longer ++ [a])) (hne : shorter.getLast? ≠ some a) :
    (shorter ++ [a]).Sublist (longer ++ [a]) := by
  obtain ⟨before, after, rfl, hbefore, hafter⟩ := List.sublist_append_iff.mp h
  cases List.sublist_singleton.mp hafter with
  | inl hnil =>
      subst hnil
      simpa using hbefore
  | inr hsingle =>
      subst hsingle
      simp at hne

theorem Sound.listener {sessions : List (Option Uid)} {scene : Scene} {user : Option FIRUser}
    (h : scene.Sound sessions) (hlast : sessions.getLast? = some (user.map FIRUser.uid)) :
    (scene.listener user).Sound sessions := by
  by_cases hcall : (scene.firstInvocation || scene.previousUserID != user.map FIRUser.uid) = true
  · have hne : scene.rootViewControllers.getLast? ≠ some (user.map FIRUser.uid) := by
      rw [h.last]
      cases hfirst : scene.firstInvocation with
      | true => simp
      | false => simpa [hfirst] using hcall
    have hconcat : (scene.listener user).rootViewControllers
        = scene.rootViewControllers ++ [user.map FIRUser.uid] := by
      simp only [Scene.listener, if_pos hcall]
    refine ⟨?_, ?_, ?_⟩
    · rw [hconcat, List.getLast?_concat]
      rfl
    · rw [hconcat, List.isChain_append]
      refine ⟨h.chain, List.isChain_singleton _, ?_⟩
      rintro last hmem first hfirst rfl
      obtain rfl : user.map FIRUser.uid = last := by simpa using hfirst
      exact hne hmem
    · obtain ⟨earlier, rfl⟩ := List.getLast?_eq_some_iff.mp hlast
      rw [hconcat]
      exact sublist_concat h.sublist hne
  · have hsame : (scene.listener user).rootViewControllers = scene.rootViewControllers := by
      simp only [Scene.listener, if_neg hcall, List.append_nil]
    obtain ⟨hfirst, hprevious⟩ : scene.firstInvocation = false
        ∧ scene.previousUserID = user.map FIRUser.uid := by simpa using hcall
    refine ⟨?_, hsame ▸ h.chain, hsame ▸ h.sublist⟩
    rw [hsame, h.last, hfirst, hprevious]
    rfl

end Scene

namespace FIRAuth

/-- A notification waits in the main queue, or the task at work is about to put one there. -/
def Outstanding (auth : FIRAuth) : Prop :=
  .notification ∈ auth.mainQueue
    ∨ auth.posting = true
      ∧ auth.lastNotifiedUserToken ≠ auth.currentUser.map FIRUser.rawAccessToken

/-- Every scene knows who is signed in, except that its first call may be waiting. -/
def Told (auth : FIRAuth) : Prop :=
  ∀ index scene, auth.scenes[index]? = some scene →
    .firstCall index ∈ auth.mainQueue ∨ scene.UpToDate auth.currentUser

/-- The invariant of Auth and its listeners. Between two tasks the token last notified is of the
account signed in, even where the token itself is out of date. -/
structure Coherent (auth : FIRAuth) : Prop where
  unloaded : auth.loaded = false → auth.posting = false
  notified : auth.posting = false →
    auth.lastNotifiedUserToken.map IDToken.account = auth.currentUser.map FIRUser.uid
  told : auth.Outstanding ∨ auth.Told
  sessions_getLast : auth.sessions.getLast? = some (auth.currentUser.map FIRUser.uid)
  scenes : ∀ scene ∈ auth.scenes, scene.Sound auth.sessions

theorem coherent_launched : launched.Coherent where
  unloaded _ := rfl
  notified _ := rfl
  told := Or.inr (by simp [Told, launched])
  sessions_getLast := rfl
  scenes := by simp [launched]

variable {auth : FIRAuth}

theorem notification_mem_of_outstanding (h : auth.Outstanding) (hidle : auth.posting = false) :
    .notification ∈ auth.mainQueue := by
  obtain hmem | ⟨hposting, -⟩ := h
  · exact hmem
  · simp [hidle] at hposting

theorem Coherent.posting (h : auth.Coherent) (hloaded : auth.loaded = true) :
    { auth with posting := true }.Coherent where
  unloaded := by simp [hloaded]
  notified := by simp
  told := by
    by_cases hidle : auth.posting = true
    · have hsame : { auth with posting := true } = auth := by rw [← hidle]
      rw [hsame]
      exact h.told
    · obtain houtstanding | htold := h.told
      · have hmem := notification_mem_of_outstanding houtstanding (by simpa using hidle)
        exact Or.inl (Or.inl hmem)
      · exact Or.inr htold
  sessions_getLast := h.sessions_getLast
  scenes := h.scenes

theorem Coherent.setCurrentUser (h : auth.Coherent) (hloaded : auth.loaded = true)
    (hidle : auth.posting = false) (user : Option FIRUser) :
    (auth.setCurrentUser user).Coherent where
  unloaded := by simp [FIRAuth.setCurrentUser, hloaded]
  notified := by simp [FIRAuth.setCurrentUser]
  told := by
    by_cases htoken : auth.lastNotifiedUserToken = user.map FIRUser.rawAccessToken
    · have huid : auth.currentUser.map FIRUser.uid = user.map FIRUser.uid := by
        rw [← h.notified hidle, htoken, Option.map_map]
        rfl
      obtain houtstanding | htold := h.told
      · have hmem := notification_mem_of_outstanding houtstanding hidle
        exact Or.inl (Or.inl hmem)
      · refine Or.inr fun index scene hscene => ?_
        exact (htold index scene hscene).imp_right fun hscene => hscene.of_uid_eq huid
    · exact Or.inl (Or.inr ⟨rfl, htoken⟩)
  sessions_getLast := by simp [FIRAuth.setCurrentUser]
  scenes scene hmem := (h.scenes scene hmem).append _

theorem Coherent.updated (h : auth.Coherent) (hloaded : auth.loaded = true)
    (hidle : auth.posting = false) {user updated : FIRUser} (huser : auth.currentUser = some user)
    (huid : updated.uid = user.uid) (posting : Bool) :
    { auth with currentUser := some updated, posting }.Coherent where
  unloaded := by simp [hloaded]
  notified _ := by rw [h.notified hidle, huser]; simp [huid]
  told := by
    obtain houtstanding | htold := h.told
    · have hmem := notification_mem_of_outstanding houtstanding hidle
      exact Or.inl (Or.inl hmem)
    · refine Or.inr fun index scene hscene => ?_
      exact (htold index scene hscene).imp_right fun hscene =>
        hscene.of_uid_eq (by simp [huser, huid])
  sessions_getLast := by rw [h.sessions_getLast, huser]; simp [huid]
  scenes := h.scenes

theorem Coherent.possiblyPost (h : auth.Coherent) : auth.possiblyPost.Coherent := by
  by_cases htoken : auth.lastNotifiedUserToken = auth.currentUser.map FIRUser.rawAccessToken
  · have hpost : auth.possiblyPost = { auth with posting := false } := if_pos htoken
    rw [hpost]
    refine { h with unloaded := fun _ => rfl, notified := fun _ => ?_, told := ?_ }
    · rw [htoken, Option.map_map]
      rfl
    · refine h.told.imp_left fun houtstanding => ?_
      obtain hmem | ⟨-, hne⟩ := houtstanding
      · exact Or.inl hmem
      · exact absurd htoken hne
  · have hpost : auth.possiblyPost = { auth with
        posting := false
        lastNotifiedUserToken := auth.currentUser.map FIRUser.rawAccessToken
        mainQueue := auth.mainQueue ++ [.notification] } := if_neg htoken
    rw [hpost]
    refine { h with unloaded := fun _ => rfl, notified := fun _ => ?_, told := ?_ }
    · rw [Option.map_map]
      rfl
    · exact Or.inl (Or.inl (by simp))

theorem Coherent.addStateDidChangeListener (h : auth.Coherent) :
    auth.addStateDidChangeListener.Coherent := by
  refine { h with told := ?_, scenes := ?_ }
  · obtain (hmem | hposting) | htold := h.told
    · exact Or.inl (Or.inl (by simp [FIRAuth.addStateDidChangeListener, hmem]))
    · exact Or.inl (Or.inr hposting)
    · refine Or.inr fun index scene hscene => ?_
      simp only [FIRAuth.addStateDidChangeListener] at hscene ⊢
      obtain hlt | rfl | hgt := Nat.lt_trichotomy index auth.scenes.length
      · rw [List.getElem?_append_left hlt] at hscene
        exact (htold index scene hscene).imp_left fun hmem => by simp [hmem]
      · exact Or.inl (by simp)
      · rw [List.getElem?_eq_none (by simp; omega)] at hscene
        cases hscene
  · intro scene hmem
    simp only [FIRAuth.addStateDidChangeListener, List.mem_append, List.mem_singleton] at hmem
    obtain hmem | rfl := hmem
    · exact h.scenes scene hmem
    · exact Scene.sound_connected auth.sessions

theorem Coherent.runMainBlock (h : auth.Coherent) : auth.runMainBlock.Coherent := by
  cases hqueue : auth.mainQueue with
  | nil => simpa only [FIRAuth.runMainBlock, hqueue] using h
  | cons block blocks =>
      cases block with
      | notification =>
          have hrun : auth.runMainBlock = { auth with mainQueue := blocks }.callListeners := by
            simp only [FIRAuth.runMainBlock, hqueue]
          rw [hrun]
          refine { h with told := Or.inr fun index scene hscene => ?_, scenes := ?_ }
          · obtain ⟨before, -, rfl⟩ := Option.map_eq_some_iff.mp (List.getElem?_map ▸ hscene)
            exact Or.inr (before.upToDate_listener auth.currentUser)
          · intro scene hmem
            obtain ⟨before, hbefore, rfl⟩ := List.mem_map.mp hmem
            exact (h.scenes before hbefore).listener h.sessions_getLast
      | firstCall called =>
          have hrun :
              auth.runMainBlock = { auth with mainQueue := blocks }.callListener called := by
            simp only [FIRAuth.runMainBlock, hqueue]
          rw [hrun]
          refine { h with told := ?_, scenes := ?_ }
          · obtain (hmem | hposting) | htold := h.told
            · exact Or.inl (Or.inl (by simpa [hqueue, FIRAuth.callListener] using hmem))
            · exact Or.inl (Or.inr hposting)
            · refine Or.inr fun index scene hscene => ?_
              simp only [FIRAuth.callListener, List.getElem?_modify] at hscene ⊢
              obtain ⟨before, hbefore, rfl⟩ := Option.map_eq_some_iff.mp hscene
              by_cases hcalled : called = index
              · rw [if_pos hcalled]
                exact Or.inr (before.upToDate_listener auth.currentUser)
              · rw [if_neg hcalled]
                refine (htold index before hbefore).imp_left fun hmem => ?_
                have hne : index ≠ called := fun heq => hcalled heq.symm
                simpa [hqueue, hne] using hmem
          · intro scene hmem
            obtain ⟨index, hscene⟩ := List.mem_iff_getElem?.mp hmem
            simp only [FIRAuth.callListener, List.getElem?_modify] at hscene
            obtain ⟨before, hbefore, rfl⟩ := Option.map_eq_some_iff.mp hscene
            have hsound := h.scenes before (List.mem_of_getElem? hbefore)
            by_cases hcalled : called = index
            · rw [if_pos hcalled]
              exact hsound.listener h.sessions_getLast
            · rw [if_neg hcalled]
              exact hsound

/-- When nothing waits, every scene has been told who is signed in. -/
theorem Coherent.getLast (h : auth.Coherent) (hidle : auth.posting = false)
    (hqueue : auth.mainQueue = []) :
    ∀ scene ∈ auth.scenes,
      scene.rootViewControllers.getLast? = some (auth.currentUser.map FIRUser.uid) := by
  intro scene hmem
  have htold : auth.Told := by
    refine h.told.resolve_left fun houtstanding => ?_
    simpa [hqueue] using notification_mem_of_outstanding houtstanding hidle
  obtain ⟨index, hscene⟩ := List.mem_iff_getElem?.mp hmem
  obtain hwaiting | ⟨hfirst, hprevious⟩ := htold index scene hscene
  · simp [hqueue] at hwaiting
  · simpa [hfirst, hprevious] using (h.scenes scene hmem).last

end FIRAuth

theorem Scene.rootViewController_eq {scene : Scene} {user : Option FIRUser}
    (h : scene.rootViewControllers.getLast? = some (user.map FIRUser.uid)) :
    scene.rootViewController
      = if user.isSome then .appHomeNavigationController else .loginNavigationController := by
  cases user with
  | none => simp [Scene.rootViewController, h]
  | some user => simp [Scene.rootViewController, h]

namespace Phone

/-- The invariant, of a phone whose app may not be running. -/
def Coherent (phone : Phone) : Prop := ∀ auth, phone.auth = some auth → auth.Coherent

theorem coherent_some {keychain : Option IDToken} {auth : FIRAuth} (h : auth.Coherent) :
    Coherent { keychain, auth := some auth } := by
  rintro _ ⟨⟩
  exact h

theorem coherent_updateCurrentUser {keychain : Option IDToken} {auth : FIRAuth}
    (h : auth.Coherent) (hloaded : auth.loaded = true) (hidle : auth.posting = false)
    (user : Option FIRUser) (byForce savingToDisk saved : Bool) :
    (updateCurrentUser keychain auth user byForce savingToDisk saved).Coherent := by
  unfold updateCurrentUser
  split
  · exact coherent_some (h.posting hloaded)
  · refine coherent_some ?_
    split
    · exact h.setCurrentUser hloaded hidle user
    · exact h

theorem coherent_loadUser {keychain : Option IDToken} {auth : FIRAuth} (h : auth.Coherent)
    (hloaded : auth.loaded = false) (readable : Bool) :
    (loadUser keychain auth readable).Coherent := by
  have hidle := h.unloaded hloaded
  have hloading : { auth with loaded := true, nextObject := auth.nextObject + 1 }.Coherent :=
    { h with unloaded := by simp }
  unfold loadUser
  split
  · exact coherent_updateCurrentUser hloading rfl hidle _ false false false
  · exact coherent_some hloading

theorem coherent_signedIn {keychain : Option IDToken} {auth : FIRAuth} (h : auth.Coherent)
    (hloaded : auth.loaded = true) (hidle : auth.posting = false) (token : IDToken)
    (saved : Bool) : (signedIn keychain auth token saved).Coherent :=
  have hnext : { auth with nextObject := auth.nextObject + 1 }.Coherent := { h with }
  coherent_updateCurrentUser hnext hloaded hidle _ false true saved

theorem coherent_signOut {keychain : Option IDToken} {auth : FIRAuth} (h : auth.Coherent)
    (hloaded : auth.loaded = true) (hidle : auth.posting = false) (saved : Bool) :
    (signOut keychain auth saved).Coherent := by
  unfold signOut
  split
  · exact coherent_some h
  · exact coherent_updateCurrentUser h hloaded hidle none false true saved

theorem coherent_updateKeychain {keychain : Option IDToken} {auth : FIRAuth} (h : auth.Coherent)
    (hloaded : auth.loaded = true) (hidle : auth.posting = false) (object serial : ℕ)
    (saved : Bool) : (updateKeychain keychain auth object serial saved).Coherent := by
  unfold updateKeychain
  cases huser : auth.currentUser with
  | none => exact coherent_some h
  | some user =>
      by_cases hobject : user.object = object
      · simp only [if_pos hobject]
        have huid : ({ user with rawAccessToken := { account := user.uid, serial } } : FIRUser).uid
            = user.uid := rfl
        exact coherent_some (h.updated hloaded hidle huser huid saved)
      · simp only [if_neg hobject]
        exact coherent_some h

theorem coherent_signOutByForce {keychain : Option IDToken} {auth : FIRAuth} (h : auth.Coherent)
    (hloaded : auth.loaded = true) (hidle : auth.posting = false) (object : ℕ) (saved : Bool) :
    (signOutByForce keychain auth object saved).Coherent := by
  unfold signOutByForce
  split
  · exact coherent_updateCurrentUser h hloaded hidle none true true saved
  · exact coherent_some h

theorem coherent_startUp {phone : Phone} (h : phone.Coherent) (readable : Bool) :
    (phone.startUp readable).Coherent := by
  unfold startUp
  split
  · exact h
  · rename_i auth hauth
    by_cases hloaded : auth.loaded = true
    · rw [if_pos hloaded]
      exact h
    · rw [if_neg hloaded]
      exact coherent_loadUser (h auth hauth) (by simpa using hloaded) readable

theorem coherent_task {phone : Phone} (h : phone.Coherent) {run : FIRAuth → Phone}
    (hrun : ∀ auth, auth.Coherent → auth.loaded = true → auth.posting = false →
      (run auth).Coherent) : (phone.task run).Coherent := by
  unfold task
  split
  · exact h
  · rename_i auth hauth
    by_cases hidle : auth.idle = true
    · obtain ⟨hloaded, hposting⟩ : auth.loaded = true ∧ auth.posting = false := by
        simpa [FIRAuth.idle] using hidle
      rw [if_pos hidle]
      exact hrun auth (h auth hauth) hloaded hposting
    · rw [if_neg hidle]
      exact h

theorem coherent_within {phone : Phone} (h : phone.Coherent) {run : FIRAuth → FIRAuth}
    (hrun : ∀ auth, auth.Coherent → (run auth).Coherent) : (phone.within run).Coherent := by
  intro after hafter
  obtain ⟨auth, hauth, rfl⟩ := Option.map_eq_some_iff.mp hafter
  exact hrun auth (h auth hauth)

theorem coherent_step {phone : Phone} (h : phone.Coherent) (e : AuthEvent) :
    (phone.step e).Coherent := by
  cases e with
  | launch =>
      refine coherent_some ?_
      cases hauth : phone.auth with
      | none => exact FIRAuth.coherent_launched
      | some auth => exact h auth hauth
  | terminate =>
      rintro _ ⟨⟩
  | loadUser readable => exact coherent_startUp h readable
  | sceneWillConnect => exact coherent_within h fun _ hauth => hauth.addStateDidChangeListener
  | signedIn token saved =>
      exact coherent_task h fun _ hauth hloaded hidle =>
        coherent_signedIn hauth hloaded hidle token saved
  | signOut saved =>
      exact coherent_task h fun _ hauth hloaded hidle =>
        coherent_signOut hauth hloaded hidle saved
  | userUpdated object serial saved =>
      exact coherent_task h fun _ hauth hloaded hidle =>
        coherent_updateKeychain hauth hloaded hidle object serial saved
  | tokenInvalid object saved =>
      exact coherent_task h fun _ hauth hloaded hidle =>
        coherent_signOutByForce hauth hloaded hidle object saved
  | post =>
      refine coherent_within h fun auth hauth => ?_
      split
      · exact hauth.possiblyPost
      · exact hauth
  | mainBlock => exact coherent_within h fun _ hauth => hauth.runMainBlock

theorem coherent_run (keychain : Option IDToken) (events : List AuthEvent) :
    (run step (installed keychain) events).Coherent := by
  have hstep : ∀ phone e, Coherent phone → True → Coherent (step phone e) :=
    fun _ e h _ => coherent_step h e
  refine run_invariant hstep ?_ (always_of_forall step (fun _ _ => trivial) _ events)
  rintro _ ⟨⟩

/-- **A window is never left behind.** However sign-ins, sign-outs, changes of token, connecting
scenes and the blocks of the main queue follow on each other, whenever nothing waits any more every
window shows a controller made for the account signed in: the home screen of that account, or the
login screen when nobody is. -/
theorem window_of_settled (keychain : Option IDToken) (events : List AuthEvent) (auth : FIRAuth)
    (hauth : (run step (installed keychain) events).auth = some auth)
    (hidle : auth.posting = false) (hqueue : auth.mainQueue = []) :
    ∀ scene ∈ auth.scenes,
      scene.rootViewControllers.getLast? = some (auth.currentUser.map FIRUser.uid)
        ∧ scene.rootViewController = if auth.currentUser.isSome then .appHomeNavigationController
            else .loginNavigationController := fun scene hmem =>
  have hlast := (coherent_run keychain events auth hauth).getLast hidle hqueue scene hmem
  ⟨hlast, Scene.rootViewController_eq hlast⟩

/-- A user signs in after the app was started with nobody signed in. -/
theorem window_of_settled_signIn :
    (⟨false, some "ada", [none, some "ada"]⟩ : Scene).rootViewController
      = .appHomeNavigationController :=
  (window_of_settled none
    [.launch, .sceneWillConnect, .loadUser true, .post, .mainBlock,
      .signedIn ⟨"ada", 1⟩ true, .post, .mainBlock] _ rfl rfl rfl
    ⟨false, some "ada", [none, some "ada"]⟩ (by decide)).2

/-- **A window changes only with the account.** In every run, the controllers a window has been
given are for accounts that were signed in, in that order, and never for the same account twice in
a row: a user who signs in again, or whose token is refreshed, keeps the controller. -/
theorem window_follows_sessions (keychain : Option IDToken) (events : List AuthEvent)
    (auth : FIRAuth) (hauth : (run step (installed keychain) events).auth = some auth) :
    auth.sessions.getLast? = some (auth.currentUser.map FIRUser.uid)
      ∧ ∀ scene ∈ auth.scenes,
          scene.rootViewControllers.Sublist auth.sessions
            ∧ scene.rootViewControllers.IsChain (· ≠ ·) := by
  have hcoherent := coherent_run keychain events auth hauth
  refine ⟨hcoherent.sessions_getLast, fun scene hmem => ?_⟩
  have hsound := hcoherent.scenes scene hmem
  exact ⟨hsound.sublist, hsound.chain⟩

/-- A password check signs the user in again, and the window keeps its controller. -/
theorem window_follows_sessions_reauthenticated :
    [none, some "ada"].Sublist [none, some "ada", some "ada"] :=
  ((window_follows_sessions none
    [.launch, .sceneWillConnect, .loadUser true, .post, .mainBlock, .signedIn ⟨"ada", 1⟩ true,
      .post, .mainBlock, .signedIn ⟨"ada", 2⟩ true, .post, .mainBlock] _ rfl).2
    ⟨false, some "ada", [none, some "ada"]⟩ (by decide)).1

end Phone

end ProductivityApp
