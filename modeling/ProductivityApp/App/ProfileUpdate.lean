import ProductivityApp.App.Command

/-!
# `ProfileUpdate.swift`

Each function reads the signed-in user when it runs, and so do the closures of
`updateProfilePicture`: `currentUser` is what `auth.currentUser` is at that moment.
-/

namespace ProductivityApp.ProfileUpdate

def updateDisplayName (currentUser : Option User) (newDisplayName : String) : List Command :=
  match currentUser with
  | none => []
  | some user =>
      [.updateData user.uid [("displayName", .string newDisplayName)],
        .call (.commitChanges user.uid { displayName := some newDisplayName })
          .displayNameCommitted]

def updateEmail (currentUser : Option User) (newEmail : String) : List Command :=
  match currentUser with
  | none => [.trap]  -- `userId!`
  | some user => [.updateData user.uid [("email", .string newEmail)]]

def logout : List Command := [.signOut]

/-- `storageRef.child(user).child("\(user).jpg")` -/
def profileRef (user : Uid) : StorageRef := ⟨[user, user ++ ".jpg"]⟩

/-- The write is taken to succeed. Where it fails, the source prints the error and goes on. -/
def saveLocalImage (user : Uid) (imageData : Data) : List Command := [.writeFile user imageData]

def updateProfilePicture (currentUser : Option User) (profilePicture : Option Image) :
    List Command :=
  match currentUser with
  | none => []
  | some user =>
      match profilePicture with
      | none => [.trap]  -- `profilePicture.image!`
      | some image =>
          match image.jpegData with
          | none => []
          | some imageData =>
              saveLocalImage user.uid imageData ++
                [.call (.putData (profileRef user.uid) imageData)
                  (.pictureUploaded (profileRef user.uid))]

/-- `updateProfilePicture`, the completion of `putData` -/
def pictureUploaded (profileRef : StorageRef) : Answer → List Command
  | .error _ => []
  | _ => [.call (.downloadURL profileRef) .pictureURL]

/-- `updateProfilePicture`, the completion of `downloadURL` -/
def pictureURL (currentUser : Option User) : Answer → List Command
  | .url url =>
      match currentUser with
      | none => []
      | some user => [.call (.commitChanges user.uid { photoURL := some url }) .photoCommitted]
  | _ => []

def downloadProfilePicture (currentUser : Option User) (imageUrl : Url) (screen : Screen) :
    List Command :=
  [.call (.dataTask imageUrl) (.pictureDownloaded (currentUser.map User.uid) screen)]

/-- `downloadProfilePicture`, the completion of the data task -/
def pictureDownloaded (user : Option Uid) (screen : Screen) : Answer → List Command
  | .download none (some data) =>
      match user with
      | none => [.trap]  -- `user!`
      | some user =>
          saveLocalImage user data ++ [.mainAsync (.pictureShown screen) (.image data.image)]
  | _ => [.trap]  -- `error!`, then `image!` of a `nil` image

end ProductivityApp.ProfileUpdate
