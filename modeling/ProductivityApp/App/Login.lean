import ProductivityApp.App.ProfileUpdate

/-!
# The signed-out screens

`SignUpViewController.swift` and `LoginViewController.swift`. The text fields are read when a button
is pressed and, by the sign-up completion, once more when it runs.
-/

namespace ProductivityApp

/-- `String.removeExtraSpaces`: replaces every match of `[\s\n]+` by nothing. -/
def removeExtraSpaces (text : String) : String :=
  String.ofList (text.toList.filter fun c => !(isRegexSpace c || c == '\n'))

structure SignUpForm where
  email : String
  displayName : String
  password : String
  passwordConfirmation : String
  profilePicture : Option Image
  deriving DecidableEq

namespace SignUpViewController

def signUpButtonPressed (form : SignUpForm) : List Command :=
  if form.email = "" then
    [.present (.alert "Email Required" "Please enter a valid email address.")]
  else if form.displayName = "" then
    [.present (.alert "Display Name Required" "Please enter a display name.")]
  else if form.password = "" then
    [.present (.alert "Password Invalid" "Please enter a password")]
  else if form.password ≠ form.passwordConfirmation then
    [.present (.alert "Passwords do not match" "Please re-type password")]
  else
    [.call (.createUser (removeExtraSpaces form.email) form.password) .signUp]

/-- `signUpButtonPressed`, the completion of `createUser` -/
def userCreated (currentUser : Option User) (form : SignUpForm) (now : Double) :
    Answer → List Command
  | .user uid =>
      [.setData uid
        [("accountCreatedOn", .double now), ("email", .string form.email),
          ("emailIsVerified", .boolean false)]]
        ++ ProfileUpdate.updateDisplayName currentUser form.displayName
        ++ ProfileUpdate.updateProfilePicture currentUser form.profilePicture
  | .error description => [.present (.alert "Error" description)]
  | _ => []

end SignUpViewController

structure LoginForm where
  email : String
  password : String
  deriving DecidableEq

namespace LoginViewController

def firebaseAuth (form : LoginForm) : List Command :=
  [.call (.signIn form.email form.password) .firebaseAuth]

/-- `firebaseAuth`, the completion of `signIn` -/
def signedIn : Answer → List Command
  | .error description => [.present (.alert "Error" description)]
  | _ => []

end LoginViewController

end ProductivityApp
