import ProductivityApp.Platform.Server

/-!
# Commands

A function of the app is modelled by the list of commands it issues, in order, given what it reads.
A command is one call into Firebase, the file system or UIKit; a call that completes later names the
closure it was given, and that closure is again a function that issues commands. `print` issues
none, and neither do animations, dismissals and keyboard focus.
-/

namespace ProductivityApp

/-- A view controller, numbered in the order its kind is opened in. -/
abbrev Screen := ℕ

/-- The closures handed to asynchronous calls, with what they capture. -/
inductive Completion where
  /-- `SignUpViewController.signUpButtonPressed` -/
  | signUp
  /-- `LoginViewController.firebaseAuth` -/
  | firebaseAuth
  /-- `SettingsTableViewController.emailRowPressed` -/
  | emailRow
  /-- `PasswordResetViewController.checkCurrentPassword` -/
  | checkCurrentPassword (screen : Screen)
  /-- `UpdateEmailViewController.updateEmailPressed` -/
  | updateEmail (screen : Screen)
  /-- `PasswordResetViewController.updatePassword` -/
  | updatePassword (screen : Screen)
  /-- `ProfileUpdate.updateDisplayName`: prints only -/
  | displayNameCommitted
  /-- `ProfileUpdate.updateProfilePicture`, after `putData` -/
  | pictureUploaded (profileRef : StorageRef)
  /-- `ProfileUpdate.updateProfilePicture`, after `downloadURL` -/
  | pictureURL
  /-- `ProfileUpdate.updateProfilePicture`, after `commitChanges`: prints only -/
  | photoCommitted
  /-- `SettingsTableViewController.viewDidLoad` -/
  | nameReloaded (screen : Screen)
  /-- `SettingsTableViewController.getProfilePicture` -/
  | pictureReloaded (screen : Screen)
  /-- `ProfileUpdate.downloadProfilePicture`, on the session's own queue -/
  | pictureDownloaded (user : Option Uid) (screen : Screen)
  /-- `ProfileUpdate.downloadProfilePicture`, on the main queue -/
  | pictureShown (screen : Screen)
  /-- `AppDelegate.applicationWillEnterForeground`: no closure -/
  | none
  deriving DecidableEq

/-- What the user is told: an alert, or the text of an error label. -/
inductive Notice where
  | alert (title message : String)
  | label (text : String)
  deriving DecidableEq

inductive Command where
  | call (request : Request) (completion : Completion)
  | mainAsync (completion : Completion) (answer : Answer)
  | setData (uid : Uid) (fields : Fields)
  | updateData (uid : Uid) (fields : Fields)
  | addSnapshotListener (uid : Uid) (screen : Screen)
  | signOut
  /-- Writes a file of the documents directory, and does not fail. -/
  | writeFile (name : Uid) (data : Data)
  | setDisplayName (screen : Screen) (text : Option String)
  | setTitle (screen : Screen) (title : String)
  | setEmail (screen : Screen) (text : Option String)
  | setPicture (screen : Screen) (image : Option Image)
  | openUpdateEmail (user : Uid)
  | present (notice : Notice)
  /-- The app stops: `nil` was unwrapped. -/
  | trap
  deriving DecidableEq

/-- `FIRUser.updatePassword(to:)`: an empty password is refused before Auth is asked. -/
def User.updatePassword (user : User) (password : String) (completion : Completion) : Command :=
  if password = "" then
    .mainAsync completion (.error "The password must be 6 characters long or more.")
  else
    .call (.updatePassword user.uid password) completion

/-- What a snapshot listener of `users/{uid}` is called with. -/
inductive Snapshot where
  | error (description : String)
  | missing
  | data (document : Document)

end ProductivityApp
