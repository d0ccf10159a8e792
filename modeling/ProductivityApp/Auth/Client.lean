import ProductivityApp.Lib.Run
import ProductivityApp.Platform.Server

/-!
# The session and the window

`FIRAuth` on the device: the user it has signed in, the copy of that user in the keychain, and the
notifications at which every `SceneDelegate` puts a new controller in its window. Auth does its work
on a queue of its own, while listeners are called on the main queue and read the current user when
they are, so a step here is one task of either queue. Assigning the current user and posting that it
changed are two steps, since blocks of the main queue may run in between.

A Firebase user is an object: signing in again makes another one for the same account. Its ID token
names the account it was issued to, and the account of the user is read off the token.
-/

namespace ProductivityApp

/-- An ID token, by the account it names and what tells it from the other tokens of the account. -/
structure IDToken where
  account : Uid
  serial : ℕ
  deriving DecidableEq

/-- A `FIRUser`, by its identity as an object and its `rawAccessToken`. -/
structure FIRUser where
  object : ℕ
  rawAccessToken : IDToken
  deriving DecidableEq

def FIRUser.uid (user : FIRUser) : Uid := user.rawAccessToken.account

/-- The controllers `SceneDelegate` instantiates. The storyboard opens with the first of them. -/
inductive Root where
  | loginNavigationController
  | appHomeNavigationController
  deriving DecidableEq

/-- A connected scene and the variables its listener has captured. The controllers put in its window
are kept in order, each by the account it was made for. -/
structure Scene where
  firstInvocation : Bool
  previousUserID : Option Uid
  rootViewControllers : List (Option Uid)
  deriving DecidableEq

namespace Scene

def connected : Scene :=
  { firstInvocation := true, previousUserID := none, rootViewControllers := [] }

/-- The block of `addAuthStateDidChangeListener`, around the closure of `SceneDelegate`. -/
def listener (scene : Scene) (user : Option FIRUser) : Scene :=
  let uid := user.map FIRUser.uid
  let shouldCallListener := scene.firstInvocation || scene.previousUserID != uid
  { firstInvocation := false
    previousUserID := uid
    rootViewControllers := scene.rootViewControllers ++ if shouldCallListener then [uid] else [] }

/-- What the window shows. -/
def rootViewController (scene : Scene) : Root :=
  match scene.rootViewControllers.getLast? with
  | some (some _) => .appHomeNavigationController
  | _ => .loginNavigationController

end Scene

/-- A block on the main queue: the posting of `FIRAuthStateDidChangeNotification`, or the first call
of the listener of a scene. -/
inductive MainBlock where
  | notification
  | firstCall (scene : ℕ)
  deriving DecidableEq

/-- Auth in a running process. `posting` says that a task of Auth's queue has yet to reach
`possiblyPostAuthStateChangeNotification`, and `sessions` lists who was signed in, in order. -/
structure FIRAuth where
  loaded : Bool
  currentUser : Option FIRUser
  lastNotifiedUserToken : Option IDToken
  posting : Bool
  mainQueue : List MainBlock
  scenes : List Scene
  nextObject : ℕ
  sessions : List (Option Uid)

/-- The device: the user archived in the keychain, and Auth if the app is running. -/
structure Phone where
  keychain : Option IDToken
  auth : Option FIRAuth

inductive AuthEvent where
  | launch
  | terminate
  /-- The keychain is read at startup. -/
  | loadUser (readable : Bool)
  | sceneWillConnect
  /-- The server signed a user in. `saved` says whether the keychain takes the user. -/
  | signedIn (token : IDToken) (saved : Bool)
  | signOut (saved : Bool)
  /-- A user object was given another token, or changed otherwise. -/
  | userUpdated (object serial : ℕ) (saved : Bool)
  /-- The server no longer accepts the token of a user object. -/
  | tokenInvalid (object : ℕ) (saved : Bool)
  /-- The task of Auth's queue posts what it changed. -/
  | post
  /-- The next block of the main queue runs. -/
  | mainBlock
  deriving DecidableEq

namespace FIRAuth

def launched : FIRAuth :=
  { loaded := false
    currentUser := none
    lastNotifiedUserToken := none
    posting := false
    mainQueue := []
    scenes := []
    nextObject := 0
    sessions := [none] }

/-- `possiblyPostAuthStateChangeNotification` -/
def possiblyPost (auth : FIRAuth) : FIRAuth :=
  let token := auth.currentUser.map FIRUser.rawAccessToken
  if auth.lastNotifiedUserToken = token then { auth with posting := false }
  else
    { auth with
      posting := false
      lastNotifiedUserToken := token
      mainQueue := auth.mainQueue ++ [.notification] }

def setCurrentUser (auth : FIRAuth) (user : Option FIRUser) : FIRAuth :=
  { auth with
    currentUser := user
    posting := true
    sessions := auth.sessions ++ [user.map FIRUser.uid] }

/-- The scene at `index` has its listener called. -/
def callListener (auth : FIRAuth) (index : ℕ) : FIRAuth :=
  { auth with scenes := auth.scenes.modify index (·.listener auth.currentUser) }

def callListeners (auth : FIRAuth) : FIRAuth :=
  { auth with scenes := auth.scenes.map (·.listener auth.currentUser) }

def runMainBlock (auth : FIRAuth) : FIRAuth :=
  match auth.mainQueue with
  | [] => auth
  | .notification :: blocks => { auth with mainQueue := blocks }.callListeners
  | .firstCall index :: blocks => { auth with mainQueue := blocks }.callListener index

/-- `addAuthStateDidChangeListener`, from `scene(_:willConnectTo:options:)`. -/
def addStateDidChangeListener (auth : FIRAuth) : FIRAuth :=
  { auth with
    scenes := auth.scenes ++ [Scene.connected]
    mainQueue := auth.mainQueue ++ [.firstCall auth.scenes.length] }

/-- A user object as the process makes the next one. -/
def newUser (auth : FIRAuth) (token : IDToken) : FIRUser :=
  { object := auth.nextObject, rawAccessToken := token }

/-- Auth's queue can take up a task: the keychain has been read, which is its first task, and the
task before is over. -/
def idle (auth : FIRAuth) : Bool := auth.loaded && !auth.posting

end FIRAuth

namespace Phone

/-- `updateCurrentUser:byForce:savingToDisk:error:`, up to the posting. -/
def updateCurrentUser (keychain : Option IDToken) (auth : FIRAuth) (user : Option FIRUser)
    (byForce savingToDisk saved : Bool) : Phone :=
  if user.map FIRUser.object = auth.currentUser.map FIRUser.object then
    { keychain, auth := some { auth with posting := true } }
  else
    { keychain :=
        if savingToDisk && saved then user.map FIRUser.rawAccessToken else keychain
      auth := some (if !savingToDisk || saved || byForce then auth.setCurrentUser user else auth) }

/-- The archived user is read when the app starts: a new object with the archived token. -/
def loadUser (keychain : Option IDToken) (auth : FIRAuth) (readable : Bool) : Phone :=
  let loading := { auth with loaded := true, nextObject := auth.nextObject + 1 }
  if readable then updateCurrentUser keychain loading (keychain.map auth.newUser) false false false
  else { keychain, auth := some loading }

/-- `signInFlowAuthDataResultCallbackByDecoratingCallback:`, for a user the server signed in. -/
def signedIn (keychain : Option IDToken) (auth : FIRAuth) (token : IDToken) (saved : Bool) :
    Phone :=
  updateCurrentUser keychain { auth with nextObject := auth.nextObject + 1 }
    (some (auth.newUser token)) false true saved

/-- `signOut:` -/
def signOut (keychain : Option IDToken) (auth : FIRAuth) (saved : Bool) : Phone :=
  match auth.currentUser with
  | none => { keychain, auth := some auth }
  | some _ => updateCurrentUser keychain auth none false true saved

/-- A user object takes a token and calls `updateKeychainWithUser:error:`, which leaves alone what
is no longer the current user. -/
def updateKeychain (keychain : Option IDToken) (auth : FIRAuth) (object serial : ℕ)
    (saved : Bool) : Phone :=
  match auth.currentUser with
  | none => { keychain, auth := some auth }
  | some user =>
      if user.object = object then
        let updated := { user with rawAccessToken := { account := user.uid, serial } }
        { keychain := if saved then some updated.rawAccessToken else keychain
          auth := some { auth with currentUser := some updated, posting := saved } }
      else { keychain, auth := some auth }

/-- `signOutByForceWithUserID:error:`. The code compares the identifiers as objects, and each user
has its own. -/
def signOutByForce (keychain : Option IDToken) (auth : FIRAuth) (object : ℕ) (saved : Bool) :
    Phone :=
  if auth.currentUser.map FIRUser.object = some object then
    updateCurrentUser keychain auth none true true saved
  else { keychain, auth := some auth }

/-- A task of Auth's queue, if the queue can take it up. -/
def task (phone : Phone) (run : FIRAuth → Phone) : Phone :=
  match phone.auth with
  | none => phone
  | some auth => if auth.idle then run auth else phone

/-- What happens within the running process. -/
def within (phone : Phone) (run : FIRAuth → FIRAuth) : Phone :=
  { phone with auth := phone.auth.map run }

/-- The first task of Auth's queue. -/
def startUp (phone : Phone) (readable : Bool) : Phone :=
  match phone.auth with
  | none => phone
  | some auth => if auth.loaded then phone else loadUser phone.keychain auth readable

def step (phone : Phone) : AuthEvent → Phone
  | .launch => { phone with auth := some (phone.auth.getD FIRAuth.launched) }
  | .terminate => { phone with auth := none }
  | .loadUser readable => phone.startUp readable
  | .sceneWillConnect => phone.within FIRAuth.addStateDidChangeListener
  | .signedIn token saved => phone.task (signedIn phone.keychain · token saved)
  | .signOut saved => phone.task (signOut phone.keychain · saved)
  | .userUpdated object serial saved =>
      phone.task (updateKeychain phone.keychain · object serial saved)
  | .tokenInvalid object saved => phone.task (signOutByForce phone.keychain · object saved)
  | .post => phone.within fun auth => if auth.posting then auth.possiblyPost else auth
  | .mainBlock => phone.within FIRAuth.runMainBlock

/-- The app as installed, on a device whose keychain may hold a user from before. -/
def installed (keychain : Option IDToken) : Phone := { keychain, auth := none }

/-- Who is signed in. Nobody is while the app is not running. -/
def session (phone : Phone) : Option Uid :=
  phone.auth.bind fun auth => auth.currentUser.map FIRUser.uid

end Phone

end ProductivityApp
