import ProductivityApp.Auth.Client

/-!
# Sessions survive a restart

Auth keeps the user in memory and in the keychain. A sign-in or a sign-out the keychain refuses
changes neither, but a sign-out by force, when the server no longer accepts a token, ends the
session in memory whatever the keychain does, and a keychain that cannot be read at startup leaves
the archived user where it is. These two are all that can separate the copies, and then the app that
is started again is signed in as someone else than the app that was stopped.
-/

namespace ProductivityApp

open EventSystem

namespace Phone

/-- The app is stopped and started again, and the keychain can be read. -/
def restart (phone : Phone) : Phone := run step phone [.terminate, .launch, .loadUser true]

/-- Once Auth has read the keychain, stopping the app and starting it again changes nothing about
who is signed in. -/
def SurvivesRestart (phone : Phone) : Prop :=
  ∀ auth, phone.auth = some auth → auth.loaded = true → phone.restart.session = phone.session

/-- The keychain does what it is asked to where Auth goes on without it: it is read at startup,
unless it is empty, and it deletes a user who is signed out by force. -/
def KeychainObeys (phone : Phone) : AuthEvent → Prop
  | .loadUser readable =>
      ∀ auth, phone.auth = some auth → auth.loaded = false → readable = true ∨ phone.keychain = none
  | .tokenInvalid object saved =>
      ∀ auth, phone.auth = some auth → auth.idle = true →
        auth.currentUser.map FIRUser.object = some object → saved = true
  | _ => True

theorem session_restart (phone : Phone) :
    phone.restart.session = phone.keychain.map IDToken.account := by
  cases hkeychain : phone.keychain with
  | none => simp [restart, step, startUp, loadUser, updateCurrentUser, session, hkeychain,
      FIRAuth.launched]
  | some token =>
      simp [restart, step, startUp, loadUser, updateCurrentUser, session, hkeychain,
        FIRAuth.launched, FIRAuth.setCurrentUser, FIRAuth.newUser, FIRUser.uid]

/-- The archived user is of the account signed in, and a user object made later is another one. -/
structure Archived (keychain : Option IDToken) (auth : FIRAuth) : Prop where
  loaded : auth.loaded = true →
    keychain.map IDToken.account = auth.currentUser.map FIRUser.uid
  unloaded : auth.loaded = false → auth.currentUser = none
  objects : ∀ user, auth.currentUser = some user → user.object < auth.nextObject

def Durable (phone : Phone) : Prop := ∀ auth, phone.auth = some auth → Archived phone.keychain auth

theorem survivesRestart_iff (phone : Phone) :
    phone.SurvivesRestart ↔ ∀ auth, phone.auth = some auth → auth.loaded = true →
      phone.keychain.map IDToken.account = auth.currentUser.map FIRUser.uid := by
  refine forall₃_congr fun auth hauth _ => ?_
  rw [session_restart, session, hauth]
  rfl

theorem Durable.survivesRestart {phone : Phone} (h : phone.Durable) : phone.SurvivesRestart :=
  phone.survivesRestart_iff.mpr fun auth hauth hloaded => (h auth hauth).loaded hloaded

section Steps

variable {keychain : Option IDToken} {auth : FIRAuth}

theorem durable_some (h : Archived keychain auth) : Durable { keychain, auth := some auth } := by
  rintro _ ⟨⟩
  exact h

/-- Signing in as a new user object, or out. -/
theorem archived_setCurrentUser {user : Option FIRUser} (hloaded : auth.loaded = true)
    (hobjects : ∀ current, user = some current → current.object < auth.nextObject) :
    Archived (user.map FIRUser.rawAccessToken) (auth.setCurrentUser user) where
  loaded _ := by
    rw [Option.map_map]
    rfl
  unloaded := by simp [FIRAuth.setCurrentUser, hloaded]
  objects := hobjects

/-- A change of user that is saved or does not go through keeps the two copies together. -/
theorem durable_updateCurrentUser (h : Archived keychain auth) (hloaded : auth.loaded = true)
    {user : Option FIRUser} {byForce saved : Bool} (hforce : byForce = true → saved = true)
    (hobjects : ∀ current, user = some current → current.object < auth.nextObject) :
    (updateCurrentUser keychain auth user byForce true saved).Durable := by
  by_cases hsame : user.map FIRUser.object = auth.currentUser.map FIRUser.object
  · rw [updateCurrentUser, if_pos hsame]
    exact durable_some { h with }
  · rw [updateCurrentUser, if_neg hsame]
    cases saved with
    | true => exact durable_some (archived_setCurrentUser hloaded hobjects)
    | false =>
        cases byForce with
        | true => simp at hforce
        | false => exact durable_some h

theorem durable_signedIn (h : Archived keychain auth) (hloaded : auth.loaded = true)
    (token : IDToken) (saved : Bool) : (signedIn keychain auth token saved).Durable := by
  have hnext : Archived keychain { auth with nextObject := auth.nextObject + 1 } :=
    { h with objects := fun user huser => (h.objects user huser).trans (Nat.lt_succ_self _) }
  refine durable_updateCurrentUser hnext hloaded (by simp) ?_
  rintro _ ⟨⟩
  exact Nat.lt_succ_self _

theorem durable_signOut (h : Archived keychain auth) (hloaded : auth.loaded = true)
    (saved : Bool) : (signOut keychain auth saved).Durable := by
  unfold signOut
  split
  · exact durable_some h
  · exact durable_updateCurrentUser h hloaded (by simp) (by simp)

theorem durable_updateKeychain (h : Archived keychain auth) (hloaded : auth.loaded = true)
    (object serial : ℕ) (saved : Bool) :
    (updateKeychain keychain auth object serial saved).Durable := by
  unfold updateKeychain
  cases huser : auth.currentUser with
  | none => exact durable_some h
  | some user =>
      by_cases hobject : user.object = object
      · simp only [if_pos hobject]
        have haccount := h.loaded hloaded
        refine durable_some ⟨fun _ => ?_, by simp [hloaded], ?_⟩
        · cases saved with
          | true => rfl
          | false => simpa [huser, FIRUser.uid] using haccount
        · rintro _ ⟨⟩
          exact h.objects user huser
      · simp only [if_neg hobject]
        exact durable_some h

theorem durable_signOutByForce (h : Archived keychain auth) (hloaded : auth.loaded = true)
    {object : ℕ} {saved : Bool}
    (hsaved : auth.currentUser.map FIRUser.object = some object → saved = true) :
    (signOutByForce keychain auth object saved).Durable := by
  by_cases hobject : auth.currentUser.map FIRUser.object = some object
  · rw [signOutByForce, if_pos hobject]
    exact durable_updateCurrentUser h hloaded (fun _ => hsaved hobject) (by simp)
  · rw [signOutByForce, if_neg hobject]
    exact durable_some h

theorem durable_loadUser (h : Archived keychain auth) (hloaded : auth.loaded = false)
    {readable : Bool} (hreadable : readable = true ∨ keychain = none) :
    (loadUser keychain auth readable).Durable := by
  have hcurrent := h.unloaded hloaded
  have hnone : Archived none { auth with loaded := true, nextObject := auth.nextObject + 1 } :=
    { loaded := by simp [hcurrent], unloaded := by simp, objects := by simp [hcurrent] }
  cases hkeychain : keychain with
  | none =>
      cases readable with
      | true =>
          have hload : loadUser none auth true = ⟨none, some { auth with
              loaded := true, nextObject := auth.nextObject + 1, posting := true }⟩ := by
            simp [loadUser, updateCurrentUser, hcurrent]
          rw [hload]
          exact durable_some { hnone with }
      | false => exact durable_some hnone
  | some token =>
      obtain rfl : readable = true := by simpa [hkeychain] using hreadable
      have hload : loadUser (some token) auth true = ⟨some token, some (FIRAuth.setCurrentUser
          { auth with loaded := true, nextObject := auth.nextObject + 1 }
          (some (auth.newUser token)))⟩ := by
        simp [loadUser, updateCurrentUser, hcurrent]
      rw [hload]
      refine durable_some (@archived_setCurrentUser _ (some (auth.newUser token)) rfl ?_)
      rintro _ ⟨⟩
      exact Nat.lt_succ_self _

end Steps

theorem durable_task {phone : Phone} (h : phone.Durable) {run : FIRAuth → Phone}
    (hrun : ∀ auth, phone.auth = some auth → auth.idle = true → auth.loaded = true →
      Archived phone.keychain auth → (run auth).Durable) : (phone.task run).Durable := by
  unfold task
  split
  · exact h
  · rename_i auth hauth
    by_cases hidle : auth.idle = true
    · have hloaded : auth.loaded = true := by
        simp only [FIRAuth.idle, Bool.and_eq_true] at hidle
        exact hidle.1
      rw [if_pos hidle]
      exact hrun auth hauth hidle hloaded (h auth hauth)
    · rw [if_neg hidle]
      exact h

theorem durable_within {phone : Phone} (h : phone.Durable) {run : FIRAuth → FIRAuth}
    (hrun : ∀ auth, (run auth).loaded = auth.loaded ∧ (run auth).currentUser = auth.currentUser
      ∧ (run auth).nextObject = auth.nextObject) : (phone.within run).Durable := by
  intro after hafter
  obtain ⟨auth, hauth, rfl⟩ := Option.map_eq_some_iff.mp hafter
  obtain ⟨hloaded, huser, hobject⟩ := hrun auth
  have harchived := h auth hauth
  exact ⟨by rw [hloaded, huser]; exact harchived.loaded,
    by rw [hloaded, huser]; exact harchived.unloaded,
    by rw [huser, hobject]; exact harchived.objects⟩

theorem durable_startUp {phone : Phone} (h : phone.Durable) {readable : Bool}
    (hreadable : phone.KeychainObeys (.loadUser readable)) : (phone.startUp readable).Durable := by
  unfold startUp
  split
  · exact h
  · rename_i auth hauth
    by_cases hloaded : auth.loaded = true
    · rw [if_pos hloaded]
      exact h
    · rw [if_neg hloaded]
      have hunloaded : auth.loaded = false := by simpa using hloaded
      exact durable_loadUser (h auth hauth) hunloaded (hreadable auth hauth hunloaded)

theorem durable_step {phone : Phone} {e : AuthEvent} (h : phone.Durable)
    (hobeys : phone.KeychainObeys e) : (phone.step e).Durable := by
  cases e with
  | launch =>
      refine durable_some ?_
      cases hauth : phone.auth with
      | none => exact ⟨by simp [FIRAuth.launched], fun _ => rfl, by simp [FIRAuth.launched]⟩
      | some auth => exact h auth hauth
  | terminate =>
      rintro _ ⟨⟩
  | loadUser readable => exact durable_startUp h hobeys
  | sceneWillConnect => exact durable_within h fun _ => ⟨rfl, rfl, rfl⟩
  | signedIn token saved =>
      exact durable_task h fun _ _ _ hloaded harchived =>
        durable_signedIn harchived hloaded token saved
  | signOut saved =>
      exact durable_task h fun _ _ _ hloaded harchived => durable_signOut harchived hloaded saved
  | userUpdated object serial saved =>
      exact durable_task h fun _ _ _ hloaded harchived =>
        durable_updateKeychain harchived hloaded object serial saved
  | tokenInvalid object saved =>
      exact durable_task h fun auth hauth hidle hloaded harchived =>
        durable_signOutByForce harchived hloaded (hobeys auth hauth hidle)
  | post =>
      refine durable_within h fun auth => ?_
      split
      · dsimp only [FIRAuth.possiblyPost]
        split <;> exact ⟨rfl, rfl, rfl⟩
      · exact ⟨rfl, rfl, rfl⟩
  | mainBlock =>
      refine durable_within h fun auth => ?_
      unfold FIRAuth.runMainBlock
      split <;> exact ⟨rfl, rfl, rfl⟩

/-- Where the keychain does not obey, the session is gone from memory and kept on disk. -/
theorem keychainObeys_of_survivesRestart {phone : Phone} {e : AuthEvent} (h : phone.Durable)
    (hsurvives : (phone.step e).SurvivesRestart) : phone.KeychainObeys e := by
  rw [survivesRestart_iff] at hsurvives
  cases e with
  | loadUser readable =>
      intro auth hauth hunloaded
      cases readable with
      | true => exact Or.inl rfl
      | false =>
          have hstep : phone.step (.loadUser false) = ⟨phone.keychain, some { auth with
              loaded := true, nextObject := auth.nextObject + 1 }⟩ := by
            simp [step, startUp, hauth, hunloaded, loadUser]
          have haccount := hsurvives _ (congrArg Phone.auth hstep) rfl
          rw [hstep] at haccount
          simpa [(h auth hauth).unloaded hunloaded] using haccount
  | tokenInvalid object saved =>
      intro auth hauth hidle hobject
      obtain ⟨user, huser, rfl⟩ := Option.map_eq_some_iff.mp hobject
      by_contra hunsaved
      have hloaded : auth.loaded = true := by
        simp only [FIRAuth.idle, Bool.and_eq_true] at hidle
        exact hidle.1
      have hstep : phone.step (.tokenInvalid user.object saved)
          = ⟨phone.keychain, some (auth.setCurrentUser none)⟩ := by
        simp [step, task, hauth, hidle, signOutByForce, updateCurrentUser, huser, hunsaved]
      have haccount := hsurvives _ (congrArg Phone.auth hstep) hloaded
      have hbefore := (h auth hauth).loaded hloaded
      rw [hstep] at haccount
      simp [hbefore, huser, FIRAuth.setCurrentUser] at haccount
  | _ => trivial

/-- **A session survives a restart**: at every moment of a run, once Auth has read the keychain, the
app stopped and started again is signed in as before. This holds in exactly the runs in which the
keychain is read at startup and deletes the users who are signed out by force; refused sign-ins,
sign-outs and changes of token do no harm. -/
theorem always_survivesRestart_iff (keychain : Option IDToken) (events : List AuthEvent) :
    Always step (fun phone e => (phone.step e).SurvivesRestart) (installed keychain) events
      ↔ Always step KeychainObeys (installed keychain) events := by
  have hinstalled : (installed keychain).Durable := by
    rintro _ ⟨⟩
  have hstep : ∀ phone e, Durable phone → phone.KeychainObeys e → Durable (step phone e) :=
    fun _ _ h hobeys => durable_step h hobeys
  refine always_iff_of_invariant hstep (fun phone e h => ?_) hinstalled
  exact ⟨keychainObeys_of_survivesRestart h, fun hobeys => (durable_step h hobeys).survivesRestart⟩

end Phone

end ProductivityApp
