import ProductivityApp.Proof.Session
import ProductivityApp.System.Record

/-!
# The new password

The button checks that the three fields are filled in and asks Auth to verify the current password;
only the completion compares the two other fields, reads the new password and looks up the account.
What is sent is what was meant at the press exactly when, of an attempt whose fields still agree
with each other, the fields are the ones of the press and the account signed in is the verified one.
An empty password is never sent: `FIRUser` refuses it.
-/

namespace ProductivityApp

open EventSystem

/-- The form of the password screen when the button was pressed that led to this check. -/
def Record.pressedForm (record : Record) (pending : Pending) (screen : Screen) : PasswordForm :=
  (record.started pending).passwordForms screen

/-- A password update goes to the account that a check has just verified, and the new password is
not empty and is what both fields held when the button was pressed for that check. -/
def SendsVerified (record : Record) (e : Event) : Prop :=
  ∀ uid newPassword completion,
    Command.call (.updatePassword uid newPassword) completion ∈ record.world.commands e →
      ∃ index pending screen, e = .complete index
        ∧ record.world.answered index = some (pending, .user uid)
        ∧ pending.completion = .checkCurrentPassword screen
        ∧ newPassword ≠ ""
        ∧ newPassword = (record.pressedForm pending screen).newPassword
        ∧ newPassword = (record.pressedForm pending screen).newPasswordConfirm

/-- When a check has succeeded and its completion runs, nobody is signed in, or the two fields for
the new password differ or are both empty, or the account signed in is the verified one and both
fields are as they were at the press. -/
def KeepsAttempt (record : Record) (e : Event) : Prop :=
  ∀ index pending verified screen user, e = .complete index →
    record.world.device.crashed = false →
    record.world.answered index = some (pending, .user verified) →
    pending.completion = .checkCurrentPassword screen →
    record.world.device.currentUser = some user →
    (record.world.device.passwordForms screen).newPassword
        = (record.world.device.passwordForms screen).newPasswordConfirm →
    (record.world.device.passwordForms screen).newPassword ≠ "" →
      user.uid = verified
        ∧ (record.world.device.passwordForms screen).newPassword
          = (record.pressedForm pending screen).newPassword
        ∧ (record.world.device.passwordForms screen).newPasswordConfirm
          = (record.pressedForm pending screen).newPasswordConfirm

/-! ### Checks and updates -/

def Completion.checksPassword (completion : Completion) : Prop :=
  ∃ screen, completion = .checkCurrentPassword screen

/-- The check was asked for with the fields for the new password filled in. -/
def AskedFilled (device : Device) (pending : Pending) : Prop :=
  ∀ screen, pending.completion = .checkCurrentPassword screen →
    (device.passwordForms screen).newPassword ≠ ""

structure PasswordInv (record : Record) : Prop where
  sound : ∀ pending ∈ record.world.device.pending, pending.Sound
  filled : record.Keeps Completion.checksPassword AskedFilled

section

variable {w : World} {record : Record} {e : Event}

theorem askedFilled_of_issued {c : Command} {pending : Pending} (hc : c ∈ w.commands e)
    (hpending : c.pending (w.origin e) = some pending)
    (hcompletion : pending.completion.checksPassword) :
    (∀ index, e ≠ .complete index) ∧ AskedFilled w.device pending := by
  obtain ⟨screen, hcompletion⟩ := hcompletion
  cases issued_of_mem hc with
  | @checkPassword pressed user huser =>
      refine ⟨by simp, fun other hother => ?_⟩
      cases hpending
      cases hother
      simp only [World.commands_of_running (World.running_of_mem_commands hc), World.handle,
        PasswordResetViewController.passowrdUpdateButtonPressed] at hc
      split_ifs at hc with hfilled
      · exact hfilled.2.1
      · simp at hc
  | _ =>
      cases hpending <;> cases hcompletion

theorem passwordInv_step (h : PasswordInv record) (e : Event) : PasswordInv (record.step e) where
  sound := World.sound_step h.sound e
  filled := by
    refine Record.keeps_step h.filled ?_ fun c hc pending => askedFilled_of_issued hc
    intro device before after hcall hfilled screen hcompletion
    exact hfilled screen (hcall.2.1 ▸ hcompletion)

theorem answer_of_check (h : PasswordInv record) {index : ℕ} {pending : Pending} {answer : Answer}
    {screen : Screen} (hanswered : record.world.answered index = some (pending, answer))
    (hcompletion : pending.completion = .checkCurrentPassword screen) :
    (∃ uid, answer = .user uid) ∨ ∃ description, answer = .error description := by
  obtain ⟨hmem, hanswer⟩ := World.mem_of_answered hanswered
  have hsound := h.sound pending hmem
  have hfits := hsound.fits
  rw [hcompletion, Request.fits_checkCurrentPassword] at hfits
  obtain ⟨email, password, hrequest⟩ := hfits
  have hgiven := hsound.answered answer hanswer
  rw [hrequest] at hgiven
  exact Request.answeredBy_signIn hgiven

theorem commands_checked {index : ℕ} {pending : Pending} {verified : Uid} {screen : Screen}
    {user : User} (hrunning : w.device.crashed = false)
    (hanswered : w.answered index = some (pending, .user verified))
    (hcompletion : pending.completion = .checkCurrentPassword screen)
    (huser : w.device.currentUser = some user) :
    w.commands (.complete index)
      = if (w.device.passwordForms screen).newPassword
          = (w.device.passwordForms screen).newPasswordConfirm then
          [user.updatePassword (w.device.passwordForms screen).newPassword (.updatePassword screen)]
        else [.present (.label "Password confirmation does not match.")] := by
  simp [World.commands_complete hrunning hanswered, World.completed, hcompletion,
    PasswordResetViewController.passwordChecked, PasswordResetViewController.updatePassword, huser]

theorem sendsVerified_of_keepsAttempt (h : PasswordInv record) (hkeeps : KeepsAttempt record e) :
    SendsVerified record e := by
  intro uid newPassword completion hmem
  have hrunning := World.running_of_mem_commands hmem
  cases issued_of_mem hmem with
  | @updatePassword index pending answer screen user hanswered hcompletion huser hnonempty =>
      obtain ⟨verified, rfl⟩ | ⟨description, rfl⟩ := answer_of_check h hanswered hcompletion
      · rw [commands_checked hrunning hanswered hcompletion huser] at hmem
        split_ifs at hmem with hagree
        · obtain ⟨hverified, hnew, hconfirm⟩ := hkeeps index pending verified screen user rfl
            hrunning hanswered hcompletion huser hagree hnonempty
          have hfilled := (h.filled pending (World.mem_of_answered hanswered).1
            ⟨screen, hcompletion⟩).2 screen hcompletion
          refine ⟨index, pending, screen, rfl, hverified ▸ hanswered, hcompletion, ?_, hnew, ?_⟩
          · rw [hnew]
            exact hfilled
          · rw [← hconfirm, ← hagree]
        · simp at hmem
      · simp [World.commands_of_running hrunning, World.handle, hanswered, World.completed,
          hcompletion, PasswordResetViewController.passwordChecked] at hmem

theorem keepsAttempt_of_sendsVerified (hsends : SendsVerified record e) :
    KeepsAttempt record e := by
  rintro index pending verified screen user rfl hrunning hanswered hcompletion huser hagree
    hnonempty
  obtain ⟨index', pending', screen', hindex, hanswered', hcompletion', -, hnew, hconfirm⟩ :=
    hsends user.uid (record.world.device.passwordForms screen).newPassword (.updatePassword screen)
      (by
        rw [commands_checked hrunning hanswered hcompletion huser, if_pos hagree,
          User.updatePassword, if_neg hnonempty]
        exact List.mem_singleton_self _)
  cases hindex
  rw [hanswered] at hanswered'
  cases hanswered'
  rw [hcompletion] at hcompletion'
  cases hcompletion'
  exact ⟨rfl, hnew, hagree ▸ hconfirm⟩

end

/-- **What is sent is what was meant**, in exactly the runs in which the completion of each
successful check finds the account it verified and the fields as they were at the press, or sends
nothing. -/
theorem always_sendsVerified_iff (server : Server) (events : List Event) :
    Always Record.step SendsVerified (Record.installed server) events
      ↔ Always Record.step KeepsAttempt (Record.installed server) events := by
  have hstep : ∀ record e, PasswordInv record → KeepsAttempt record e →
      PasswordInv (record.step e) := fun _ e h _ => passwordInv_step h e
  have hinitial : PasswordInv (Record.installed server) :=
    { sound := fun pending hmem => by cases hmem
      filled := Record.keeps_installed server }
  refine always_iff_of_invariant hstep (fun record e h => ?_) hinitial
  exact ⟨keepsAttempt_of_sendsVerified, sendsVerified_of_keepsAttempt h⟩

/-- Both fields for the new password are changed while the check is pending. -/
def changedMeanwhile : List Event :=
  [.editLogin { email := "first@example.org", password := "one" }, .loginButtonPressed,
    .answer 0 (.user "first"), .complete 0,
    .editPasswords 0
      { currentPassword := "one", newPassword := "secret", newPasswordConfirm := "secret" },
    .passowrdUpdateButtonPressed 0, .answer 0 (.user "first"),
    .editPasswords 0
      { currentPassword := "one", newPassword := "secrets", newPasswordConfirm := "secrets" },
    .complete 0]

theorem changedMeanwhile_sends_other :
    ¬ Always Record.step SendsVerified (Record.installed sharedServer) changedMeanwhile := by
  intro h
  obtain ⟨-, -, -, -, -, -, -, -, hlast, -⟩ := h
  obtain ⟨index, pending, screen, hindex, hanswered, hcompletion, -, hnew, -⟩ :=
    hlast "first" "secrets" (.updatePassword 0) (by decide)
  cases hindex
  cases hanswered
  cases hcompletion
  exact absurd hnew (by decide)

end ProductivityApp
