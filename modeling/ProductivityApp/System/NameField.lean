import ProductivityApp.System.Calls

/-!
# The name in a settings screen

The display name of an account stands in the title of its settings screen and in the text field
below. The field belongs to the user and to two callbacks: a snapshot of `users/{uid}` with the
current email sets both places, and the completion of the reload sets the field. Whatever else
happens in the app, an open screen shows what these deliveries leave, one after the other.
-/

namespace ProductivityApp

open EventSystem

@[ext]
structure ShownName where
  title : String
  field : String
  deriving DecidableEq

/-- What a callback brings to a settings screen: the display name in a snapshot that carries the
current email, or the one Auth has cached when the completion of the reload runs. -/
inductive NameDelivery where
  | snapshot (name : Option String)
  | reload (name : Option String)
  deriving DecidableEq

namespace ShownName

/-- Both places show this name. -/
def named (name : String) : ShownName := { title := name ++ "'s Settings", field := name }

/-- What a screen opens with. -/
def opened (name : Option String) : ShownName :=
  { title := name.elim "Settings" (· ++ "'s Settings"), field := name.getD "" }

def receive (shown : ShownName) : NameDelivery → ShownName
  | .snapshot (some name) => named name
  | .snapshot none => { shown with title := "Settings" }
  | .reload name => { shown with field := name.getD "" }

end ShownName

/-- The text that a delivery puts into the field. -/
def NameDelivery.text : NameDelivery → Option String
  | .snapshot name => name
  | .reload name => some (name.getD "")

theorem ShownName.field_receive (shown : ShownName) (delivery : NameDelivery) :
    (shown.receive delivery).field = delivery.text.getD shown.field := by
  cases delivery with
  | snapshot name => cases name <;> rfl
  | reload name => rfl

def Device.shownName (device : Device) (screen : Screen) : ShownName :=
  { title := (device.settings screen).title, field := (device.settings screen).displayName }

namespace World

def shownName (w : World) (screen : Screen) : ShownName := w.device.shownName screen

/-- What an event brings to a screen. -/
def delivery (w : World) (screen : Screen) (e : Event) : Option NameDelivery :=
  if w.device.crashed then none
  else
    match e with
    | .snapshot index (.data document) =>
        w.device.listeners[index]?.bind fun listener =>
          if listener.screen = screen
              ∧ w.device.currentUser.any (fun user => document.string "email" = some user.email)
          then some (.snapshot (document.string "displayName")) else none
    | .complete index =>
        (w.answered index).bind fun call =>
          if call.1.completion = .nameReloaded screen
          then some (.reload (w.device.currentUser.bind User.displayName)) else none
    | _ => none

/-- What a run brings to a screen, in order of arrival. -/
def deliveries (screen : Screen) : World → List Event → List NameDelivery
  | _, [] => []
  | w, e :: events => (w.delivery screen e).toList ++ deliveries screen (w.step e) events

end World

/-- The user types into the name field of this screen. -/
def Event.typesName (screen : Screen) : Event → Bool
  | .editDisplayName edited _ => edited = screen
  | _ => false

/-! ### Commands that leave a screen's name alone -/

def Command.names (screen : Screen) : Command → Bool
  | .setDisplayName named _ | .setTitle named _ => named = screen
  | _ => false

section

variable {w : World} {e : Event} {screen : Screen}

theorem shownName_execAll {device : Device} {origin : Origin} {commands : List Command}
    (h : ∀ command ∈ commands, command.names screen = false) :
    (device.execAll origin commands).shownName screen = device.shownName screen := by
  refine Device.execAll_field device origin commands (Device.shownName · screen) ?_
  intro device command hmem
  have hnames := h command hmem
  cases command with
  | signOut => exact device.signOut_field (Device.shownName · screen) fun _ _ => rfl
  | setDisplayName named _ | setTitle named _ =>
      have hne : screen ≠ named := by
        rintro rfl
        simp [Command.names] at hnames
      simp [Device.shownName, Device.exec, Device.setScreen, Function.update_of_ne hne]
  | setEmail shown _ | setPicture shown _ =>
      by_cases hshown : screen = shown
      · subst hshown
        simp [Device.shownName, Device.exec, Device.setScreen]
      · simp [Device.shownName, Device.exec, Device.setScreen, Function.update_of_ne hshown]
  | _ => rfl

theorem names_updateDisplayName {currentUser : Option User} {name : String} :
    ∀ command ∈ ProfileUpdate.updateDisplayName currentUser name, command.names screen = false := by
  cases currentUser <;> simp [ProfileUpdate.updateDisplayName, Command.names]

theorem names_updateProfilePicture {currentUser : Option User} {picture : Option Image} :
    ∀ command ∈ ProfileUpdate.updateProfilePicture currentUser picture,
      command.names screen = false := by
  unfold ProfileUpdate.updateProfilePicture
  split
  · simp
  · split
    · simp [Command.names]
    · split <;> simp [ProfileUpdate.saveLocalImage, Command.names]

theorem names_completed {device : Device} {answer : Answer} {completion : Completion}
    (h : completion ≠ .nameReloaded screen) :
    ∀ command ∈ World.completed device answer completion, command.names screen = false := by
  cases completion with
  | signUp =>
      cases answer with
      | user uid =>
          intro command hmem
          simp only [World.completed, SignUpViewController.userCreated, List.mem_append,
            List.mem_singleton] at hmem
          obtain (rfl | hname) | hpicture := hmem
          · rfl
          · exact names_updateDisplayName command hname
          · exact names_updateProfilePicture command hpicture
      | _ => simp [World.completed, SignUpViewController.userCreated, Command.names]
  | firebaseAuth =>
      cases answer <;> simp [World.completed, LoginViewController.signedIn, Command.names]
  | emailRow =>
      cases huser : device.currentUser <;> cases answer <;>
        simp [World.completed, SettingsTableViewController.passwordChecked,
          UpdateEmailViewController.viewDidLoad, huser, Command.names]
  | checkCurrentPassword checked =>
      intro command hmem
      simp only [World.completed, PasswordResetViewController.passwordChecked] at hmem
      split at hmem
      · rw [List.mem_singleton.mp hmem]
        rfl
      · unfold PasswordResetViewController.updatePassword at hmem
        split_ifs at hmem
        · split at hmem
          · cases hmem
          · rw [List.mem_singleton.mp hmem, User.updatePassword]
            split <;> rfl
        · rw [List.mem_singleton.mp hmem]
          rfl
  | updateEmail changed =>
      intro command hmem
      simp only [World.completed, UpdateEmailViewController.emailUpdated] at hmem
      split at hmem
      · split_ifs at hmem <;> rw [List.mem_singleton.mp hmem] <;> rfl
      · unfold ProfileUpdate.updateEmail at hmem
        split at hmem <;> rw [List.mem_singleton.mp hmem] <;> rfl
  | updatePassword changed =>
      intro command hmem
      simp only [World.completed, PasswordResetViewController.passwordUpdated] at hmem
      split at hmem
      · split_ifs at hmem <;> rw [List.mem_singleton.mp hmem] <;> rfl
      · cases hmem
  | pictureUploaded ref =>
      cases answer <;> simp [World.completed, ProfileUpdate.pictureUploaded, Command.names]
  | pictureURL =>
      cases huser : device.currentUser <;> cases answer <;>
        simp [World.completed, ProfileUpdate.pictureURL, huser, Command.names]
  | nameReloaded named =>
      have hne : named ≠ screen := by
        rintro rfl
        exact h rfl
      simp [World.completed, SettingsTableViewController.nameReloaded, Command.names, hne]
  | pictureReloaded reloaded =>
      intro command hmem
      simp only [World.completed, SettingsTableViewController.pictureReloaded,
        ProfileUpdate.downloadProfilePicture] at hmem
      split at hmem
      · cases hmem
      · split at hmem
        · cases hmem
        · rw [List.mem_singleton.mp hmem]
          rfl
  | pictureDownloaded user downloaded =>
      intro command hmem
      simp only [World.completed, ProfileUpdate.pictureDownloaded] at hmem
      split at hmem
      · split at hmem
        · rw [List.mem_singleton.mp hmem]
          rfl
        · simp only [ProfileUpdate.saveLocalImage, List.cons_append, List.nil_append,
            List.mem_cons, List.not_mem_nil, or_false] at hmem
          obtain rfl | rfl := hmem <;> rfl
      · rw [List.mem_singleton.mp hmem]
        rfl
  | pictureShown shown =>
      cases answer <;> simp [World.completed, SettingsTableViewController.pictureShown,
        Command.names]
  | _ => simp [World.completed]

theorem names_viewDidLoad {opened : Screen} {currentUser : Option User} {localFile : Option Data}
    (h : screen ≠ opened) :
    ∀ command ∈ SettingsTableViewController.viewDidLoad opened currentUser localFile,
      command.names screen = false := by
  have hne := h.symm
  cases huser : currentUser with
  | none =>
      simp [SettingsTableViewController.viewDidLoad,
        SettingsTableViewController.updateSettingsTitle,
        SettingsTableViewController.checkForEmailUpdate,
        SettingsTableViewController.getProfilePicture, Command.names, hne]
  | some user =>
      cases hname : user.displayName <;>
        simp [SettingsTableViewController.viewDidLoad,
          SettingsTableViewController.updateSettingsTitle,
          SettingsTableViewController.checkForEmailUpdate,
          SettingsTableViewController.getProfilePicture, Command.names, hne, hname]

theorem names_handle (hopened : screen < w.device.settingsCount)
    (hsnapshot : ∀ index snapshot, e ≠ .snapshot index snapshot)
    (hcomplete : ∀ index, e ≠ .complete index) :
    ∀ command ∈ w.handle e, command.names screen = false := by
  intro command hmem
  cases e with
  | signUpButtonPressed =>
      simp only [World.handle, SignUpViewController.signUpButtonPressed] at hmem
      split_ifs at hmem <;> rw [List.mem_singleton.mp hmem] <;> rfl
  | loginButtonPressed => rw [List.mem_singleton.mp hmem]; rfl
  | openSettings => exact names_viewDidLoad (Nat.ne_of_lt hopened) command hmem
  | textFieldShouldReturn returned =>
      simp only [World.handle, SettingsTableViewController.textFieldShouldReturn] at hmem
      split at hmem
      · exact names_updateDisplayName command hmem
      · cases hmem
  | imagePicked picked image =>
      cases image with
      | none => simp [World.handle, SettingsTableViewController.imagePicked] at hmem
      | some image =>
          simp only [World.handle, SettingsTableViewController.imagePicked, List.mem_append,
            List.mem_singleton] at hmem
          obtain rfl | hmem := hmem
          · rfl
          · exact names_updateProfilePicture command hmem
  | emailRowPressed password =>
      simp only [World.handle, SettingsTableViewController.emailRowPressed] at hmem
      split_ifs at hmem
      · split at hmem
        · cases hmem
        · rw [List.mem_singleton.mp hmem]; rfl
      · rw [List.mem_singleton.mp hmem]; rfl
  | updateEmailPressed pressed =>
      simp only [World.handle, UpdateEmailViewController.updateEmailPressed] at hmem
      split at hmem
      · split at hmem
        · cases hmem
        · rw [List.mem_singleton.mp hmem]; rfl
      · cases hmem
  | passowrdUpdateButtonPressed pressed =>
      simp only [World.handle, PasswordResetViewController.passowrdUpdateButtonPressed] at hmem
      split_ifs at hmem
      · unfold PasswordResetViewController.checkCurrentPassword at hmem
        split at hmem
        · cases hmem
        · rw [List.mem_singleton.mp hmem]; rfl
      · rw [List.mem_singleton.mp hmem]; rfl
  | logoutPressed => rw [List.mem_singleton.mp hmem]; rfl
  | willEnterForeground =>
      simp only [World.handle, applicationWillEnterForeground] at hmem
      split at hmem
      · cases hmem
      · rw [List.mem_singleton.mp hmem]; rfl
  | complete index => exact absurd rfl (hcomplete index)
  | snapshot index snapshot => exact absurd rfl (hsnapshot index snapshot)
  | _ => simp [World.handle] at hmem

/-! ### One step, and a run -/

theorem shownName_arrive (hedit : e.typesName screen = false) :
    (w.arrive e).shownName screen = w.shownName screen := by
  cases e with
  | answer index answer =>
      exact World.arrive_answer_field (Device.shownName · screen) index answer fun _ _ _ _ _ => rfl
  | complete index =>
      exact World.arrive_complete_field (Device.shownName · screen) index fun _ _ => rfl
  | writeLands accepted =>
      exact World.arrive_writeLands_field (Device.shownName · screen) accepted fun _ _ => rfl
  | editDisplayName edited text =>
      have hne : screen ≠ edited := by
        rintro rfl
        simp [Event.typesName] at hedit
      simp [World.shownName, Device.shownName, World.arrive, Device.setScreen,
        Function.update_of_ne hne]
  | _ => rfl

theorem shownName_step_of_names (hedit : e.typesName screen = false)
    (h : ∀ command ∈ w.commands e, command.names screen = false) :
    (w.step e).shownName screen = w.shownName screen := by
  cases hcrashed : w.device.crashed with
  | true => rw [World.step_of_crashed hcrashed]
  | false =>
      rw [World.step_of_running hcrashed]
      exact (shownName_execAll h).trans (shownName_arrive hedit)

theorem settingsCount_step_of_running (hrunning : w.device.crashed = false) :
    (w.step e).device.settingsCount = (w.arrive e).device.settingsCount := by
  rw [World.step_of_running hrunning]
  refine Device.execAll_field _ _ _ Device.settingsCount fun device command _ => ?_
  cases command <;> first | rfl | exact device.signOut_field Device.settingsCount fun _ _ => rfl

theorem settingsCount_step : w.device.settingsCount ≤ (w.step e).device.settingsCount := by
  cases hcrashed : w.device.crashed with
  | true => rw [World.step_of_crashed hcrashed]
  | false =>
      rw [settingsCount_step_of_running hcrashed]
      cases e with
      | answer index answer =>
          rw [World.arrive_answer_field Device.settingsCount index answer fun _ _ _ _ _ => rfl]
      | complete index =>
          rw [World.arrive_complete_field Device.settingsCount index fun _ _ => rfl]
      | writeLands accepted =>
          rw [World.arrive_writeLands_field Device.settingsCount accepted fun _ _ => rfl]
      | openSettings => exact Nat.le_succ _
      | _ => exact le_rfl

/-- A snapshot for another screen, or with another email than the current one, names no screen. -/
theorem names_documentChanged {listened : Screen} {currentUser : Option User} {document : Document}
    (h : ¬ (listened = screen
      ∧ currentUser.any (fun user => document.string "email" = some user.email))) :
    ∀ command ∈ SettingsTableViewController.documentChanged listened currentUser (.data document),
      command.names screen = false := by
  intro command hmem
  simp only [SettingsTableViewController.documentChanged] at hmem
  split at hmem
  · cases hmem
  · rename_i currentEmail hemail
    rw [List.mem_append, List.mem_singleton] at hmem
    obtain rfl | hmem := hmem
    · rfl
    · split_ifs at hmem with hcurrent
      · have hne : listened ≠ screen := by
          intro hscreen
          obtain ⟨user, huser, hmail⟩ := Option.map_eq_some_iff.mp hcurrent.symm
          exact h ⟨hscreen, by simp [huser, hemail, hmail]⟩
        split at hmem
        · simp only [List.mem_cons, List.not_mem_nil, or_false] at hmem
          obtain rfl | rfl := hmem <;> simp [Command.names, hne]
        · rw [List.mem_singleton.mp hmem]
          simp [Command.names, hne]
      · rw [List.mem_singleton.mp hmem]
        rfl

theorem shownName_step_snapshot {index : ℕ} {document : Document} :
    (w.step (.snapshot index (.data document))).shownName screen
      = (w.delivery screen (.snapshot index (.data document))).elim (w.shownName screen)
          (w.shownName screen).receive := by
  cases hcrashed : w.device.crashed with
  | true => simp [World.step_of_crashed hcrashed, World.delivery, hcrashed]
  | false =>
      cases hlistener : w.device.listeners[index]? with
      | none =>
          rw [shownName_step_of_names rfl]
          · simp [World.delivery, hcrashed, hlistener]
          · simp [World.commands_of_handle, World.handle, hlistener]
      | some listener =>
          have hcommands : w.commands (.snapshot index (.data document))
              = SettingsTableViewController.documentChanged listener.screen w.device.currentUser
                (.data document) := by
            simp [World.commands_of_running hcrashed, World.handle, hlistener]
          by_cases hshows : listener.screen = screen
              ∧ w.device.currentUser.any (fun user => document.string "email" = some user.email)
          · obtain ⟨rfl, hcurrent⟩ := id hshows
            obtain ⟨user, huser, hemail⟩ := (Option.any_eq_true _ _).mp hcurrent
            rw [decide_eq_true_eq] at hemail
            rw [World.step_of_running hcrashed, World.react, hcommands]
            cases hname : document.string "displayName" <;>
              simp [SettingsTableViewController.documentChanged, World.delivery, hcrashed,
                hlistener, huser, hemail, hname, World.arrive, World.shownName, Device.shownName,
                Device.exec, Device.setScreen, ShownName.receive, ShownName.named]
          · rw [shownName_step_of_names rfl (hcommands ▸ names_documentChanged hshows)]
            simp only [World.delivery, hcrashed, hlistener, Option.bind_some, if_neg hshows]
            rfl

theorem shownName_step_complete {index : ℕ} :
    (w.step (.complete index)).shownName screen
      = (w.delivery screen (.complete index)).elim (w.shownName screen)
          (w.shownName screen).receive := by
  cases hcrashed : w.device.crashed with
  | true => simp [World.step_of_crashed hcrashed, World.delivery, hcrashed]
  | false =>
      cases hanswered : w.answered index with
      | none =>
          rw [shownName_step_of_names rfl]
          · simp [World.delivery, hcrashed, hanswered]
          · simp [(World.complete_eq_of_answered_none hanswered).2]
      | some call =>
          obtain ⟨pending, answer⟩ := call
          by_cases hcompletion : pending.completion = .nameReloaded screen
          · obtain ⟨origin, history, hstep⟩ := World.step_complete hcrashed hanswered
            rw [hstep, hcompletion]
            simp [World.delivery, hcrashed, hanswered, hcompletion, World.completed,
              SettingsTableViewController.nameReloaded, World.shownName, Device.shownName,
              Device.exec, Device.setScreen, ShownName.receive]
          · rw [shownName_step_of_names rfl]
            · simp [World.delivery, hcrashed, hanswered, hcompletion]
            · intro command hmem
              simp only [World.commands_of_running hcrashed, World.handle, hanswered] at hmem
              exact names_completed hcompletion command hmem

/-- **A step shows what it delivers**, on every screen that is open and not typed into. -/
theorem shownName_step (hopened : screen < w.device.settingsCount)
    (hedit : e.typesName screen = false) :
    (w.step e).shownName screen
      = (w.delivery screen e).elim (w.shownName screen) (w.shownName screen).receive := by
  have hnothing (hsnapshot : ∀ index snapshot, e ≠ .snapshot index snapshot)
      (hcomplete : ∀ index, e ≠ .complete index) :
      (w.step e).shownName screen = w.shownName screen := by
    refine shownName_step_of_names hedit fun command hmem => ?_
    rw [World.commands_of_running (World.running_of_mem_commands hmem)] at hmem
    exact names_handle hopened hsnapshot hcomplete command hmem
  cases e with
  | snapshot index snapshot =>
      cases snapshot with
      | data document => exact shownName_step_snapshot
      | _ =>
          rw [shownName_step_of_names hedit]
          · simp [World.delivery]
          · intro command hmem
            have hrunning := World.running_of_mem_commands hmem
            rw [World.commands_of_running hrunning, World.handle] at hmem
            split at hmem <;> cases hmem
  | complete index => exact shownName_step_complete
  | _ =>
      rw [hnothing (by simp) (by simp)]
      simp [World.delivery]

/-- A run in which the user does not type shows its deliveries, one after the other. -/
theorem shownName_run (hopened : screen < w.device.settingsCount) {events : List Event}
    (hquiet : ∀ e ∈ events, e.typesName screen = false) :
    (run World.step w events).shownName screen
      = (World.deliveries screen w events).foldl ShownName.receive (w.shownName screen) := by
  induction events generalizing w with
  | nil => rfl
  | cons e events ih =>
      rw [List.forall_mem_cons] at hquiet
      rw [run_cons, ih (hopened.trans_le settingsCount_step) hquiet.2, World.deliveries,
        List.foldl_append, shownName_step hopened hquiet.1]
      cases w.delivery screen e <;> rfl

theorem shownName_openSettings (hrunning : w.device.crashed = false) :
    (w.step .openSettings).shownName w.device.settingsCount
        = .opened (w.device.currentUser.bind User.displayName)
      ∧ w.device.settingsCount < (w.step .openSettings).device.settingsCount := by
  constructor
  · rw [World.step_of_running hrunning, World.react, World.commands_of_running hrunning]
    cases huser : w.device.currentUser with
    | none =>
        simp [World.handle, SettingsTableViewController.viewDidLoad, huser,
          SettingsTableViewController.updateSettingsTitle,
          SettingsTableViewController.checkForEmailUpdate,
          SettingsTableViewController.getProfilePicture, World.shownName, Device.shownName,
          Device.exec, Device.setScreen, ShownName.opened]
    | some user =>
        cases hname : user.displayName <;>
          simp [World.handle, SettingsTableViewController.viewDidLoad, huser, hname,
            SettingsTableViewController.updateSettingsTitle,
            SettingsTableViewController.checkForEmailUpdate,
            SettingsTableViewController.getProfilePicture, World.shownName, Device.shownName,
            Device.exec, Device.setScreen, ShownName.opened]
  · rw [settingsCount_step_of_running hrunning]
    exact Nat.lt_succ_self _

end

end ProductivityApp
