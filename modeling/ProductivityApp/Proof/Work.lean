import Mathlib.Algebra.BigOperators.Group.List.Basic
import Mathlib.Data.List.Perm.Basic
import ProductivityApp.System.DeviceLemmas

/-!
# The app comes to rest

Completions make further calls: a sign-up leads to an upload, the upload to a download URL and a
change of the profile, an opening of Settings to a reload and a download. Every chain is finite, and
how long it can get is known when its first call is made. So the completions a run goes through are
paid for by what the user did, and answers, snapshots and changes elsewhere start nothing.
-/

namespace ProductivityApp

open EventSystem ProfileUpdate

/-- How many completions a call can lead to, its own included. -/
def Completion.weight : Completion → ℕ
  | .signUp => 5
  | .checkCurrentPassword _ => 2
  | .pictureUploaded _ => 3
  | .pictureURL => 2
  | .pictureReloaded _ => 3
  | .pictureDownloaded _ _ => 2
  | _ => 1

/-- How many completions an event can lead to. -/
def Event.budget : Event → ℕ
  | .signUpButtonPressed => 5
  | .openSettings => 4
  | .imagePicked _ _ => 3
  | .passowrdUpdateButtonPressed _ => 2
  | .loginButtonPressed | .textFieldShouldReturn _ | .emailRowPressed _ | .updateEmailPressed _
  | .willEnterForeground => 1
  | _ => 0

/-- The completion that runs at this event, counted. -/
def World.completions (w : World) : Event → ℕ
  | .complete index => if w.device.crashed = false ∧ (w.answered index).isSome then 1 else 0
  | _ => 0

/-- How many completions the pending calls can lead to. -/
def World.awaited (w : World) : ℕ :=
  (w.device.pending.map fun pending => pending.completion.weight).sum

/-- How many completions a command can lead to: none unless it makes a call. -/
def Command.weight : Command → ℕ
  | .call _ completion | .mainAsync completion _ => completion.weight
  | _ => 0

def callWeight (commands : List Command) : ℕ := (commands.map Command.weight).sum

section Commands

variable {commands more : List Command} {command : Command} {currentUser : Option User}

@[simp]
theorem callWeight_nil : callWeight [] = 0 := rfl

@[simp]
theorem callWeight_cons : callWeight (command :: commands) = command.weight + callWeight commands :=
  rfl

@[simp]
theorem callWeight_append :
    callWeight (commands ++ more) = callWeight commands + callWeight more := by
  simp [callWeight]

/-- The calls of these commands wait with the weight of the commands. -/
theorem sum_weight_pending (origin : Origin) (commands : List Command) :
    ((commands.filterMap (Command.pending origin)).map
      fun pending => pending.completion.weight).sum = callWeight commands := by
  induction commands with
  | nil => rfl
  | cons command commands ih =>
      cases command <;> simp [List.filterMap_cons, Command.pending, Command.weight, ih]

theorem callWeight_updateDisplayName_le (name : String) :
    callWeight (updateDisplayName currentUser name) ≤ 1 := by
  cases currentUser <;> simp [updateDisplayName, Command.weight, Completion.weight]

theorem callWeight_updateProfilePicture_le (image : Option Image) :
    callWeight (updateProfilePicture currentUser image) ≤ 3 := by
  cases currentUser with
  | none => simp [updateProfilePicture]
  | some user =>
      cases image with
      | none => simp [updateProfilePicture, Command.weight]
      | some image =>
          cases hdata : image.jpegData <;>
            simp [updateProfilePicture, hdata, saveLocalImage, Command.weight, Completion.weight]

theorem callWeight_viewDidLoad_le (screen : Screen) (localFile : Option Data) :
    callWeight (SettingsTableViewController.viewDidLoad screen currentUser localFile) ≤ 4 := by
  have htitle :
      callWeight (SettingsTableViewController.updateSettingsTitle screen currentUser) = 0 := by
    unfold SettingsTableViewController.updateSettingsTitle
    split <;> rfl
  cases currentUser <;>
    simp [SettingsTableViewController.viewDidLoad, htitle,
      SettingsTableViewController.checkForEmailUpdate,
      SettingsTableViewController.getProfilePicture, Command.weight, Completion.weight]

/-- A completion leads to fewer completions than it stands for. -/
theorem callWeight_completed_lt (device : Device) (answer : Answer) (completion : Completion) :
    callWeight (World.completed device answer completion) < completion.weight := by
  cases completion with
  | signUp =>
      have hname :=
        @callWeight_updateDisplayName_le device.currentUser device.signUpForm.displayName
      have hpicture :=
        @callWeight_updateProfilePicture_le device.currentUser device.signUpForm.profilePicture
      cases answer <;>
        simp only [World.completed, SignUpViewController.userCreated, callWeight_append,
          callWeight_cons, callWeight_nil, Command.weight, Completion.weight] <;> omega
  | firebaseAuth =>
      simp only [World.completed, LoginViewController.signedIn]
      split <;> simp [Command.weight, Completion.weight]
  | emailRow =>
      simp only [World.completed, SettingsTableViewController.passwordChecked,
        UpdateEmailViewController.viewDidLoad]
      split
      · simp [Command.weight, Completion.weight]
      · split <;> simp [Command.weight, Completion.weight]
  | checkCurrentPassword screen =>
      simp only [World.completed, PasswordResetViewController.passwordChecked,
        PasswordResetViewController.updatePassword]
      split
      · simp [Command.weight, Completion.weight]
      · split_ifs
        · split
          · simp [Completion.weight]
          · simp only [User.updatePassword]
            split_ifs <;> simp [Command.weight, Completion.weight]
        · simp [Command.weight, Completion.weight]
  | updateEmail screen =>
      simp only [World.completed, UpdateEmailViewController.emailUpdated, ProfileUpdate.updateEmail]
      split
      · split_ifs <;> simp [Command.weight, Completion.weight]
      · split <;> simp [Command.weight, Completion.weight]
  | updatePassword screen =>
      simp only [World.completed, PasswordResetViewController.passwordUpdated]
      split
      · split_ifs <;> simp [Command.weight, Completion.weight]
      · simp [Completion.weight]
  | pictureUploaded profileRef =>
      simp only [World.completed, ProfileUpdate.pictureUploaded]
      split <;> simp [Command.weight, Completion.weight]
  | pictureURL =>
      simp only [World.completed, ProfileUpdate.pictureURL]
      split
      · split <;> simp [Command.weight, Completion.weight]
      · simp [Completion.weight]
  | pictureReloaded screen =>
      simp only [World.completed, SettingsTableViewController.pictureReloaded]
      split
      · simp [Completion.weight]
      · split <;> simp [downloadProfilePicture, Command.weight, Completion.weight]
  | pictureDownloaded user screen =>
      simp only [World.completed, ProfileUpdate.pictureDownloaded]
      split
      · split <;> simp [saveLocalImage, Command.weight, Completion.weight]
      · simp [Command.weight, Completion.weight]
  | pictureShown screen =>
      simp only [World.completed, SettingsTableViewController.pictureShown]
      split <;> simp [Command.weight, Completion.weight]
  | nameReloaded screen =>
      simp [World.completed, SettingsTableViewController.nameReloaded, Command.weight,
        Completion.weight]
  | displayNameCommitted | photoCommitted | none => simp [World.completed, Completion.weight]

/-- What the user does starts no more than it is taken to pay for. -/
theorem callWeight_handle_le (w : World) {e : Event} (h : ∀ index, e ≠ .complete index) :
    callWeight (w.handle e) ≤ e.budget := by
  cases e with
  | complete index => exact absurd rfl (h index)
  | signUpButtonPressed =>
      simp only [World.handle, SignUpViewController.signUpButtonPressed]
      split_ifs <;> simp [Command.weight, Completion.weight, Event.budget]
  | loginButtonPressed =>
      simp [World.handle, LoginViewController.firebaseAuth, Command.weight, Completion.weight,
        Event.budget]
  | openSettings => exact callWeight_viewDidLoad_le _ _
  | textFieldShouldReturn screen =>
      simp only [World.handle, SettingsTableViewController.textFieldShouldReturn]
      split_ifs
      · exact callWeight_updateDisplayName_le _
      · simp
  | imagePicked screen image =>
      cases image with
      | none => simp [World.handle, SettingsTableViewController.imagePicked]
      | some image =>
          simp only [World.handle, SettingsTableViewController.imagePicked, callWeight_append,
            callWeight_cons, callWeight_nil, Command.weight, Event.budget, Nat.zero_add]
          exact callWeight_updateProfilePicture_le _
  | emailRowPressed password =>
      simp only [World.handle, SettingsTableViewController.emailRowPressed]
      split_ifs
      · split <;> simp [Command.weight, Completion.weight, Event.budget]
      · simp [Command.weight]
  | updateEmailPressed screen =>
      simp only [World.handle, UpdateEmailViewController.updateEmailPressed]
      split_ifs
      · split <;> simp [Command.weight, Completion.weight, Event.budget]
      · simp
  | passowrdUpdateButtonPressed screen =>
      simp only [World.handle, PasswordResetViewController.passowrdUpdateButtonPressed,
        PasswordResetViewController.checkCurrentPassword]
      split_ifs
      · split <;> simp [Command.weight, Completion.weight, Event.budget]
      · simp [Command.weight]
  | logoutPressed =>
      simp [World.handle, SettingsTableViewController.logoutPressed, logout, Command.weight]
  | willEnterForeground =>
      simp only [World.handle, applicationWillEnterForeground]
      split <;> simp [Command.weight, Completion.weight, Event.budget]
  | snapshot index snapshot =>
      simp only [World.handle, SettingsTableViewController.documentChanged]
      split
      · simp
      · split
        · simp
        · simp
        · split
          · simp
          · split_ifs
            · split <;> simp [Command.weight]
            · simp [logout, Command.weight]
  | _ => simp [World.handle]

end Commands

theorem awaited_complete {w : World} {index : ℕ} {pending : Pending} {answer : Answer}
    (h : w.answered index = some (pending, answer)) :
    w.awaited = pending.completion.weight + (w.arrive (.complete index)).awaited := by
  obtain ⟨hpending, -⟩ := World.answered_eq_some.mp h
  obtain ⟨hlt, rfl⟩ := List.getElem?_eq_some_iff.mp hpending
  have hperm := (List.getElem_cons_eraseIdx_perm hlt).map fun pending => pending.completion.weight
  simpa [World.awaited, World.arrive_complete h] using hperm.sum_eq.symm

theorem awaited_arrive {w : World} {e : Event} (h : ∀ index, e ≠ .complete index) :
    (w.arrive e).awaited = w.awaited := by
  cases e with
  | complete index => exact absurd rfl (h index)
  | answer index answer =>
      obtain hsame | ⟨pending, after, hanswers⟩ := w.arrive_answer_cases index answer
      · rw [hsame]
      · obtain ⟨hlt, rfl⟩ := List.getElem?_eq_some_iff.mp hanswers.pending_eq
        rw [hanswers.arrive_eq, World.awaited, World.awaited, List.map_set]
        congr 1
        apply List.ext_getElem (by simp)
        intro i hi hi'
        rw [List.getElem_set]
        split
        · rename_i hindex
          subst hindex
          simp
        · rfl
  | writeLands accepted =>
      rw [World.awaited, World.arrive_writeLands_field Device.pending accepted fun _ _ => rfl]
      rfl
  | _ => rfl

/-- A completion that runs is paid for by its call, and whatever is started by its event. -/
theorem completions_add_awaited_le (w : World) (e : Event) :
    w.completions e + (w.step e).awaited ≤ w.awaited + e.budget := by
  cases hcrashed : w.device.crashed with
  | true =>
      have hnone : w.completions e = 0 := by cases e <;> simp [World.completions, hcrashed]
      rw [World.step_of_crashed hcrashed, hnone]
      omega
  | false =>
      have hawaited : (w.step e).awaited
          = (w.arrive e).awaited + callWeight (w.handle e) := by
        rw [← World.commands_of_running hcrashed]
        simp only [World.awaited, World.step_pending hcrashed, List.map_append, List.sum_append,
          sum_weight_pending]
      rw [hawaited]
      by_cases hcomplete : ∃ index, e = .complete index
      · obtain ⟨index, rfl⟩ := hcomplete
        cases hanswered : w.answered index with
        | none =>
            simp [World.completions, World.handle, hanswered, World.arrive_complete_of_none,
              Event.budget]
        | some call =>
            obtain ⟨pending, answer⟩ := call
            have hpaid := callWeight_completed_lt w.device answer pending.completion
            have hended := awaited_complete hanswered
            simp only [World.completions, World.handle, hanswered, hcrashed, Option.isSome_some,
              and_self, if_true, Event.budget]
            omega
      · have hother : ∀ index, e ≠ .complete index := fun index heq => hcomplete ⟨index, heq⟩
        have hnone : w.completions e = 0 := by
          cases e with
          | complete index => exact absurd rfl (hother index)
          | _ => rfl
        have hstarted := callWeight_handle_le w hother
        rw [hnone, awaited_arrive hother]
        omega

/-- **The app comes to rest.** However answers, completions, snapshots and changes elsewhere are
interleaved with what the user does, the completions that run in a run of the app, and those its
pending calls can still lead to, are at most what the user's actions pay for: five for a sign-up,
four for an opening of Settings, three for a picture, two for a password and one for any other call.
Everything else starts nothing. -/
theorem completions_le_budget (server : Server) (events : List Event) :
    total World.step World.completions (World.installed server) events
        + (run World.step (World.installed server) events).awaited
      ≤ (events.map Event.budget).sum := by
  have hbudget : total World.step (fun _ e => e.budget) (World.installed server) events
      = (events.map Event.budget).sum := by
    generalize World.installed server = w
    induction events generalizing w with
    | nil => rfl
    | cons e events ih => simp [total, ih]
  have hle := total_add_le completions_add_awaited_le (World.installed server) events
  rw [hbudget] at hle
  simpa [World.awaited, World.installed, Device.initial] using hle

end ProductivityApp
