import ProductivityApp.App.Login

/-!
# The settings screens

`SettingsTableViewController.swift`, `UpdateEmailViewController.swift`,
`PasswordResetViewController.swift` and the foreground reload of `AppDelegate.swift`.
-/

namespace ProductivityApp

namespace SettingsTableViewController

def updateSettingsTitle (screen : Screen) (currentUser : Option User) : List Command :=
  match currentUser.bind User.displayName with
  | some cloudDisplayName => [.setTitle screen (cloudDisplayName ++ "'s Settings")]
  | none => [.setTitle screen "Settings"]

def checkForEmailUpdate (screen : Screen) (currentUser : Option User) : List Command :=
  match currentUser with
  | none => []
  | some user => [.addSnapshotListener user.uid screen]

/-- `checkForEmailUpdate`, the snapshot handler. `currentUser` is the user signed in when the
snapshot is delivered, which need not be the one who registered the listener. -/
def documentChanged (screen : Screen) (currentUser : Option User) : Snapshot → List Command
  | .error _ => []
  | .missing => []
  | .data document =>
      match document.string "email" with
      | none => []
      | some currentEmail =>
          [.setEmail screen (some currentEmail)] ++
            if some currentEmail = currentUser.map User.email then
              match document.string "displayName" with
              | some currentDisplayName =>
                  [.setDisplayName screen (some currentDisplayName),
                    .setTitle screen (currentDisplayName ++ "'s Settings")]
              | none => [.setTitle screen "Settings"]
            else
              ProfileUpdate.logout

/-- `localFile` is the content of the cached picture file of the signed-in user. -/
def getProfilePicture (screen : Screen) (currentUser : Option User) (localFile : Option Data) :
    List Command :=
  match currentUser with
  | none => []
  | some user =>
      [.setPicture screen
        (match localFile with
        | some data => data.image
        | none => some .systemPerson),
        .call (.reload user.uid) (.pictureReloaded screen)]

/-- `getProfilePicture`, the completion of `reload` -/
def pictureReloaded (screen : Screen) (currentUser : Option User) : Answer → List Command
  | .error _ => []
  | _ =>
      match currentUser.bind User.photoURL with
      | none => []
      | some imageUrl => ProfileUpdate.downloadProfilePicture currentUser imageUrl screen

/-- `getProfilePicture`, the completion of `downloadProfilePicture` -/
def pictureShown (screen : Screen) : Answer → List Command
  | .image result => [.setPicture screen result]
  | _ => []

def viewDidLoad (screen : Screen) (currentUser : Option User) (localFile : Option Data) :
    List Command :=
  updateSettingsTitle screen currentUser
    ++ checkForEmailUpdate screen currentUser
    ++ getProfilePicture screen currentUser localFile
    ++ [.setDisplayName screen (currentUser.bind User.displayName),
      .setEmail screen (currentUser.map User.email)]
    ++ match currentUser with
      | none => []
      | some user => [.call (.reload user.uid) (.nameReloaded screen)]

/-- `viewDidLoad`, the completion of `reload` -/
def nameReloaded (screen : Screen) (currentUser : Option User) : List Command :=
  [.setDisplayName screen (currentUser.bind User.displayName)]

def textFieldShouldReturn (currentUser : Option User) (text : String) : List Command :=
  if text ≠ "" then ProfileUpdate.updateDisplayName currentUser text else []

/-- `emailRowPressed`, the action of the alert's Submit button -/
def emailRowPressed (currentUser : Option User) (password : String) : List Command :=
  if password ≠ "" then
    match currentUser with
    | none => []
    | some user => [.call (.signIn user.email password) .emailRow]
  else
    [.present (.alert "Password Incorrect" "")]

def logoutPressed : List Command := ProfileUpdate.logout

/-- `imagePickerController(_:didFinishPickingMediaWithInfo:)` -/
def imagePicked (screen : Screen) (currentUser : Option User) : Option Image → List Command
  | none => []
  | some pickedImage =>
      [.setPicture screen (some pickedImage)]
        ++ ProfileUpdate.updateProfilePicture currentUser (some pickedImage)

end SettingsTableViewController

namespace UpdateEmailViewController

/-- `viewDidLoad`; the property `user` is `auth.currentUser` at this moment. -/
def viewDidLoad (currentUser : Option User) : List Command :=
  match currentUser with
  | none => [.trap]  -- `user!`
  | some user => [.openUpdateEmail user.uid]

/-- `user` is the property set when the screen was opened. -/
def updateEmailPressed (screen : Screen) (user : Option Uid) (newEmail : String) : List Command :=
  if newEmail ≠ "" then
    match user with
    | none => []
    | some user => [.call (.updateEmail user newEmail) (.updateEmail screen)]
  else []

/-- `updateEmailPressed`, the completion of `updateEmail`; `newEmail` is the text of the field when
it runs. -/
def emailUpdated (currentUser : Option User) (newEmail : String) : Answer → List Command
  | .error description =>
      if description = "The email address is already in use by another account." then
        [.present
          (.label "That email is already in use, please enter a different email address")]
      else if description = "The email address is badly formatted." then
        [.present (.label "Please enter a valid email address and try again.")]
      else
        [.present (.label description)]
  | _ => ProfileUpdate.updateEmail currentUser newEmail

end UpdateEmailViewController

/-- `emailRowPressed`, the completion of `signIn` -/
def SettingsTableViewController.passwordChecked (currentUser : Option User) :
    Answer → List Command
  | .error _ => [.present (.alert "Password Incorrect" "")]
  | _ => UpdateEmailViewController.viewDidLoad currentUser

structure PasswordForm where
  currentPassword : String
  newPassword : String
  newPasswordConfirm : String
  deriving DecidableEq

namespace PasswordResetViewController

def checkCurrentPassword (screen : Screen) (currentUser : Option User) (form : PasswordForm) :
    List Command :=
  match currentUser with
  | none => []
  | some user =>
      [.call (.signIn user.email form.currentPassword) (.checkCurrentPassword screen)]

def passowrdUpdateButtonPressed (screen : Screen) (currentUser : Option User)
    (form : PasswordForm) : List Command :=
  if form.currentPassword ≠ "" ∧ form.newPassword ≠ "" ∧ form.newPasswordConfirm ≠ "" then
    checkCurrentPassword screen currentUser form
  else
    [.present (.label "Please fill in all fields.")]

def updatePassword (screen : Screen) (currentUser : Option User) (form : PasswordForm) :
    List Command :=
  if form.newPassword = form.newPasswordConfirm then
    match currentUser with
    | none => []
    | some user => [user.updatePassword form.newPassword (.updatePassword screen)]
  else
    [.present (.label "Password confirmation does not match.")]

/-- `checkCurrentPassword`, the completion of `signIn` -/
def passwordChecked (screen : Screen) (currentUser : Option User) (form : PasswordForm) :
    Answer → List Command
  | .error _ => [.present (.label "Incorrect Password.")]
  | _ => updatePassword screen currentUser form

/-- `updatePassword`, the completion -/
def passwordUpdated : Answer → List Command
  | .error description =>
      if description = "The password must be 6 characters long or more." then
        [.present (.label "The new password must be at least 6 charaters long.")]
      else
        [.present
          (.label "There was an error updating your password, please try again.")]
  | _ => []

end PasswordResetViewController

/-- `AppDelegate.applicationWillEnterForeground` -/
def applicationWillEnterForeground (currentUser : Option User) : List Command :=
  match currentUser with
  | none => []
  | some user => [.call (.reload user.uid) .none]

end ProductivityApp
