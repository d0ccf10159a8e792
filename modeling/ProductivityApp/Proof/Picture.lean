import ProductivityApp.Lib.Relay
import ProductivityApp.System.Calls

/-!
# The last picked picture

Two chains of calls write the same file, view and Storage object. Opening Settings shows the cached
file, reloads the account, downloads the picture at its URL and then overwrites the file and the
view; picking a picture sets the view and the file, uploads it and makes the account point to it.
Nothing orders the chains, and nothing tells an old picture from a new one. So the last picked
picture stays exactly where no step overwrites it: as long as what is downloaded and shown after a
pick is that pick, and an older upload does not come after the last one.
-/

namespace ProductivityApp

open EventSystem ProfileUpdate

/-! ### Picking -/

/-- The device with the last picture that was picked. -/
structure Picking where
  world : World
  last : Option Image

def Event.picks : Event → Option Image
  | .imagePicked _ image => image
  | _ => none

def Picking.step (s : Picking) (e : Event) : Picking :=
  { world := s.world.step e, last := e.picks.or s.last }

namespace World

/-- The Settings screen opened last. -/
def openScreen (w : World) : Screen := w.device.settingsCount - 1

def openPicture (w : World) : Option Image := (w.device.settings w.openScreen).picture

def photoURL (uid : Uid) (w : World) : Option Url := (w.server.accounts uid).bind Account.photoURL

/-- The image stored at the account's `photoURL`. -/
def storedPicture (uid : Uid) (w : World) : Option Data :=
  (w.photoURL uid).bind fun url => w.server.storage url.object

/-- A request succeeds, and a download brings what is stored at its URL. -/
def succeeds (w : World) : Request → Answer → Bool
  | .dataTask url, answer =>
      (w.server.storage url.object).isSome
        && answer = .download none (w.server.storage url.object)
  | _, .error _ => false
  | _, _ => true

end World

/-- Settings is opened, a picture is picked there, and the calls made for this succeed. -/
def PictureScope (s : Picking) : Event → Prop
  | .openSettings => True
  | .imagePicked screen image =>
      screen = s.world.openScreen ∧ image.all fun picked => picked.jpegData.isSome
  | .answer index answer =>
      match s.world.device.pending[index]? with
      | none => True
      | some pending => s.world.succeeds pending.request answer = true
  | .complete _ => True
  | _ => False

structure PictureReady (uid : Uid) (w : World) : Prop where
  running : w.device.crashed = false
  idle : w.device.pending = []
  session : w.device.currentUser.map User.uid = some uid

/-- Once nothing is pending, the file, the open screen and the image at `photoURL` are the last
picked picture. -/
def LastPickedWins (uid : Uid) (s : Picking) : Prop :=
  match s.last with
  | none => True
  | some image =>
      s.world.device.pending = [] →
        s.world.device.files uid = some (.jpeg image) ∧ s.world.openPicture = some image
          ∧ s.world.storedPicture uid = some (.jpeg image)

/-- An upload of this picture that has not been answered. -/
def Pending.uploads (uid : Uid) (image : Image) (pending : Pending) : Bool :=
  pending.answer.isNone && pending.request = .putData (profileRef uid) (.jpeg image)

/-- What a completion brings to the file or the open screen is the last picked picture, and an
upload of another picture is accepted only while one of the last picked picture is still to be. -/
def KeepsLastPicked (uid : Uid) (s : Picking) (e : Event) : Prop :=
  match s.last, e with
  | some image, .complete index =>
      match s.world.answered index with
      | none => True
      | some (pending, answer) =>
          match pending.completion, answer with
          | .pictureDownloaded _ _, .download _ data => data = some (.jpeg image)
          | .pictureShown screen, .image result =>
              screen = s.world.openScreen → result = some image
          | _, _ => True
  | some image, .answer index _ =>
      match s.world.device.pending[index]? with
      | none => True
      | some pending =>
          match pending.request with
          | .putData _ data =>
              pending.answer = none → data ≠ .jpeg image →
                s.world.device.pending.any (Pending.uploads uid image) = true
          | _ => True
  | _, _ => True

/-! ### What is pending -/

/-- The calls made for the picture of an account, and the answers they get. -/
inductive PictureCall (uid : Uid) : Pending → Prop
  | nameReload {screen : Screen} {answer : Option Answer} {origin : Origin} :
      PictureCall uid ⟨.reload uid, .nameReloaded screen, answer, origin⟩
  | reload {screen : Screen} {answer : Option Answer} {origin : Origin} :
      PictureCall uid ⟨.reload uid, .pictureReloaded screen, answer, origin⟩
  | download {url : Url} {screen : Screen} {answer : Option Answer} {origin : Origin} :
      (∀ given, answer = some given → ∃ data, given = .download none (some data)) →
        PictureCall uid ⟨.dataTask url, .pictureDownloaded (some uid) screen, answer, origin⟩
  | show {screen : Screen} {result : Option Image} {origin : Origin} :
      PictureCall uid ⟨.mainAsync, .pictureShown screen, some (.image result), origin⟩
  | upload {data : Data} {answer : Option Answer} {origin : Origin} :
      (∀ given, answer = some given → given = .success) →
        PictureCall uid
          ⟨.putData (profileRef uid) data, .pictureUploaded (profileRef uid), answer, origin⟩
  | url {answer : Option Answer} {origin : Origin} :
      (∀ given, answer = some given → given = .url ⟨profileRef uid⟩) →
        PictureCall uid ⟨.downloadURL (profileRef uid), .pictureURL, answer, origin⟩
  | commit {answer : Option Answer} {origin : Origin} :
      PictureCall uid
        ⟨.commitChanges uid { photoURL := some ⟨profileRef uid⟩ }, .photoCommitted, answer, origin⟩

/-- A call whose chain will make the account point to its picture. -/
def Pending.links (pending : Pending) : Bool :=
  match pending.completion with
  | .pictureUploaded _ | .pictureURL => true
  | .photoCommitted => pending.answer.isNone
  | _ => false

structure PictureInv (uid : Uid) (s : Picking) : Prop where
  running : s.world.device.crashed = false
  session : s.world.device.currentUser.map User.uid = some uid
  calls : ∀ pending ∈ s.world.device.pending, PictureCall uid pending
  file : ∀ image, s.last = some image → s.world.device.files uid = some (.jpeg image)
  shown : ∀ image, s.last = some image → s.world.openPicture = some image
  stored : ∀ image, s.last = some image →
    s.world.server.storage (profileRef uid) = some (.jpeg image)
      ∨ ∃ pending ∈ s.world.device.pending, pending.uploads uid image = true
  linked : s.last ≠ none →
    s.world.photoURL uid = some ⟨profileRef uid⟩
      ∨ ∃ pending ∈ s.world.device.pending, pending.links = true

theorem PictureInv.wins {uid : Uid} {s : Picking} (h : PictureInv uid s) :
    LastPickedWins uid s := by
  unfold LastPickedWins
  split
  · trivial
  · rename_i image hlast
    intro hidle
    refine ⟨h.file image hlast, h.shown image hlast, ?_⟩
    have hstored := (h.stored image hlast).resolve_right (by simp [hidle])
    have hlinked := (h.linked (by simp [hlast])).resolve_right (by simp [hidle])
    simpa [World.storedPicture, hlinked] using hstored

/-! ### What a step changes -/

/-- What opening Settings shows at once. -/
def cachedPicture (w : World) (uid : Uid) : Option Image :=
  match w.device.files uid with
  | some data => data.image
  | none => some .systemPerson

section Step

variable {uid : Uid} {w : World} {s : Picking} {e : Event}

theorem PictureInv.exists_currentUser (h : PictureInv uid s) :
    ∃ user, s.world.device.currentUser = some user ∧ user.uid = uid :=
  Option.map_eq_some_iff.mp h.session

theorem session_of_scope (h : PictureInv uid s) (hscope : PictureScope s e) :
    (s.world.step e).device.currentUser.map User.uid = some uid := by
  have harrive : (s.world.arrive e).device.currentUser.map User.uid = some uid := by
    cases s.world.arrivedSession e h.running with
    | same hsame => rw [hsame.1, h.session]
    | signedIn hsignsIn =>
        have hrequest := hsignsIn.signsIn
        cases h.calls _ hsignsIn.mem <;> cases hrequest
    | refreshed hcurrent harrive _ huid _ =>
        have hsession := h.session
        rw [hcurrent, Option.map_some] at hsession
        rw [harrive, Option.map_some, huid, hsession]
    | revoked => exact hscope.elim
  obtain ⟨huser, -⟩ | ⟨-, -, -, hsignOut⟩ := World.session_step h.running
  · rw [huser, harrive]
  · cases issued_of_mem hsignOut <;> exact hscope.elim

theorem step_openSettings {user : User} (hrunning : w.device.crashed = false)
    (huser : w.device.currentUser = some user) :
    (w.step .openSettings).server = w.server
      ∧ (w.step .openSettings).device.crashed = false
      ∧ (w.step .openSettings).device.files = w.device.files
      ∧ (w.step .openSettings).openPicture = cachedPicture w user.uid
      ∧ ∃ origin, (w.step .openSettings).device.pending = w.device.pending
        ++ [⟨.reload user.uid, .pictureReloaded w.device.settingsCount, none, origin⟩,
          ⟨.reload user.uid, .nameReloaded w.device.settingsCount, none, origin⟩] := by
  rw [World.step_of_running hrunning, World.react, World.commands_of_running hrunning]
  cases hname : user.displayName <;> cases hfile : w.device.files user.uid <;>
    simp [World.handle, SettingsTableViewController.viewDidLoad, huser, hname, hfile, hrunning,
      SettingsTableViewController.updateSettingsTitle,
      SettingsTableViewController.checkForEmailUpdate,
      SettingsTableViewController.getProfilePicture, Device.exec, Device.setScreen, World.arrive,
      World.openPicture, World.openScreen, cachedPicture, Command.pending]

theorem step_imagePicked {user : User} {screen : Screen} {image : Image}
    (hrunning : w.device.crashed = false) (huser : w.device.currentUser = some user)
    (hscreen : screen = w.openScreen) (hdata : image.jpegData.isSome) :
    (w.step (.imagePicked screen (some image))).server = w.server
      ∧ (w.step (.imagePicked screen (some image))).device.crashed = false
      ∧ (w.step (.imagePicked screen (some image))).device.files user.uid = some (.jpeg image)
      ∧ (w.step (.imagePicked screen (some image))).openPicture = some image
      ∧ ∃ origin, (w.step (.imagePicked screen (some image))).device.pending = w.device.pending
        ++ [⟨.putData (profileRef user.uid) (.jpeg image), .pictureUploaded (profileRef user.uid),
          none, origin⟩] := by
  obtain ⟨data, hdata⟩ := Option.isSome_iff_exists.mp hdata
  obtain rfl := Image.image_of_jpegData hdata
  rw [World.step_of_running hrunning, World.react, World.commands_of_running hrunning]
  simp [World.handle, SettingsTableViewController.imagePicked, updateProfilePicture, huser, hdata,
    hrunning, saveLocalImage, Device.exec, Device.setScreen, World.arrive, World.openPicture,
    World.openScreen, hscreen, Command.pending]

/-- What Storage holds when this request has succeeded. -/
def Request.stores (storage : StorageRef → Option Data) : Request → StorageRef → Option Data
  | .putData ref data => Function.update storage ref (some data)
  | _ => storage

theorem PictureCall.respond {pending : Pending} {answer : Answer} {after : Server}
    (h : PictureCall uid pending) (hunanswered : pending.answer = none)
    (hsucceeds : w.succeeds pending.request answer = true)
    (hrespond : w.server.respond pending.request answer = some after) :
    PictureCall uid { pending with answer := some answer }
      ∧ after.storage = pending.request.stores w.server.storage
      ∧ (after.accounts uid).bind Account.photoURL
        = if pending.completion = .photoCommitted then some ⟨profileRef uid⟩
          else w.photoURL uid := by
  have hanswered := answeredBy_of_respond hrespond
  cases h with
  | nameReload | reload =>
      cases answer with
      | success =>
          cases (Option.ite_none_right_eq_some.mp hrespond).2
          exact ⟨by constructor, rfl, rfl⟩
      | error _ => cases hsucceeds
      | _ => cases hanswered
  | download _ =>
      simp only [World.succeeds, Bool.and_eq_true, decide_eq_true_eq] at hsucceeds
      obtain ⟨hstored, rfl⟩ := hsucceeds
      obtain ⟨data, hdata⟩ := Option.isSome_iff_exists.mp hstored
      cases hrespond
      refine ⟨.download fun given hgiven => ⟨data, ?_⟩, rfl, rfl⟩
      rw [← Option.some.inj hgiven, hdata]
  | «show» => cases hunanswered
  | upload _ =>
      cases answer with
      | success =>
          cases hrespond
          exact ⟨.upload fun given hgiven => (Option.some.inj hgiven).symm, rfl, rfl⟩
      | error _ => cases hsucceeds
      | _ => cases hanswered
  | url _ =>
      cases answer with
      | url url =>
          obtain ⟨hobject, hafter⟩ := Option.ite_none_right_eq_some.mp hrespond
          cases hafter
          obtain ⟨object⟩ := url
          obtain rfl : object = profileRef uid := hobject
          exact ⟨.url fun given hgiven => (Option.some.inj hgiven).symm, rfl, rfl⟩
      | error _ => cases hsucceeds
      | _ => cases hanswered
  | commit =>
      cases answer with
      | success =>
          obtain ⟨account, haccount, rfl⟩ := Option.map_eq_some_iff.mp hrespond
          exact ⟨.commit, rfl, by simp [Account.commit]⟩
      | error _ => cases hsucceeds
      | _ => cases hanswered

/-! The commands that leave the file and the pictures shown alone. -/

def Command.keepsPicture : Command → Bool
  | .writeFile _ _ | .setPicture _ _ | .trap => false
  | _ => true

/-- What a list of commands has to do with pictures, apart from calls. -/
def Device.pictures (device : Device) : Bool × (Uid → Option Data) × Option Image :=
  (device.crashed, device.files, (device.settings (device.settingsCount - 1)).picture)

theorem pictures_execAll {device : Device} {origin : Origin} {commands : List Command}
    (h : ∀ command ∈ commands, command.keepsPicture = true) :
    (device.execAll origin commands).pictures = device.pictures := by
  refine Device.execAll_field device origin commands Device.pictures fun device command hmem => ?_
  have hkeeps := h command hmem
  cases command with
  | writeFile _ _ | setPicture _ _ | trap => cases hkeeps
  | signOut => exact device.signOut_field Device.pictures fun _ _ => rfl
  | setDisplayName screen _ | setTitle screen _ | setEmail screen _ =>
      simp only [Device.pictures, Device.exec, Device.setScreen, Function.update_apply]
      split
      · rename_i hscreen
        rw [hscreen]
      · rfl
  | _ => rfl

/-! ### The invariant -/

theorem stored_answer {index : ℕ} {answer : Answer} {pending : Pending} {image : Image}
    (h : PictureInv uid s) (hlast : s.last = some image) (hcall : PictureCall uid pending)
    (hi : s.world.device.pending[index]? = some pending) (hunanswered : pending.answer = none)
    (hkeeps : KeepsLastPicked uid s (.answer index answer)) :
    pending.request.stores s.world.server.storage (profileRef uid) = some (.jpeg image)
      ∨ ∃ call ∈ s.world.device.pending.set index { pending with answer := some answer },
        call.uploads uid image = true := by
  have hother (hne : pending.uploads uid image = false)
      (hexists : ∃ call ∈ s.world.device.pending, call.uploads uid image = true) :
      ∃ call ∈ s.world.device.pending.set index { pending with answer := some answer },
        call.uploads uid image = true :=
    exists_mem_set hi (fun huploads => absurd huploads (by simp [hne])) hexists
  cases hcall with
  | @upload data given origin _ =>
      by_cases hdata : data = .jpeg image
      · exact Or.inl (by simp [Request.stores, hdata])
      · right
        refine hother (by simp [Pending.uploads, hdata]) ?_
        have hany := hkeeps
        simp only [KeepsLastPicked, hlast, hi] at hany
        exact List.any_eq_true.mp (hany hunanswered hdata)
  | _ =>
      refine (h.stored image hlast).imp id (hother ?_)
      simp [Pending.uploads]

theorem pictureInv_answer {index : ℕ} {answer : Answer} (h : PictureInv uid s)
    (hscope : PictureScope s (.answer index answer))
    (hkeeps : KeepsLastPicked uid s (.answer index answer)) :
    PictureInv uid (s.step (.answer index answer)) := by
  have hsession := session_of_scope h hscope
  obtain ⟨history, hstep⟩ := World.step_of_no_commands h.running
    (@World.commands_answer s.world index answer)
  rw [hstep] at hsession
  obtain hsame | ⟨pending, after, hanswers⟩ := s.world.arrive_answer_cases index answer
  · rw [hsame] at hstep
    rw [Picking.step, hstep]
    exact { h with }
  · have hi := hanswers.pending_eq
    have hcall := h.calls pending (List.mem_of_getElem? hi)
    have hsucceeds : s.world.succeeds pending.request answer = true := by
      simpa [PictureScope, hi] using hscope
    obtain ⟨hanswered, hstorage, hphoto⟩ :=
      hcall.respond hanswers.unanswered hsucceeds hanswers.respond_eq
    have hpictures : (s.world.arrive (.answer index answer)).device.pictures
        = s.world.device.pictures :=
      World.arrive_answer_field Device.pictures index answer fun _ _ _ _ _ => rfl
    obtain ⟨hcrashed, hfiles, hshown⟩ : _ = _ ∧ _ = _ ∧ _ = _ := by
      simpa only [Device.pictures, Prod.mk.injEq] using hpictures
    rw [Picking.step, hstep]
    refine ⟨hcrashed.trans h.running, hsession, fun call hmem => ?_, fun image hlast => ?_,
      fun image hlast => ?_, fun image hlast => ?_, fun hlast => ?_⟩
    · rw [hanswers.arrive_eq] at hmem
      obtain hmem | rfl := List.mem_or_eq_of_mem_set hmem
      · exact h.calls call hmem
      · exact hanswered
    · exact hfiles ▸ h.file image hlast
    · exact hshown.trans (h.shown image hlast)
    · rw [hanswers.arrive_eq]
      simp only [hstorage]
      exact stored_answer h hlast hcall hi hanswers.unanswered hkeeps
    · rw [hanswers.arrive_eq]
      by_cases hcommitted : pending.completion = .photoCommitted
      · exact Or.inl (hphoto.trans (if_pos hcommitted))
      · rw [if_neg hcommitted] at hphoto
        refine (h.linked hlast).imp hphoto.trans (exists_mem_set hi fun hlinks => ?_)
        unfold Pending.links at hlinks ⊢
        split at hlinks <;> simp_all

/-- The file and the open screen have this picture, if any. -/
def Device.Keeps (uid : Uid) (last : Option Image) (device : Device) : Prop :=
  device.crashed = false ∧ ∀ image, last = some image → device.files uid = some (.jpeg image)
    ∧ (device.settings (device.settingsCount - 1)).picture = some image

theorem PictureInv.keeps (h : PictureInv uid s) : s.world.device.Keeps uid s.last :=
  ⟨h.running, fun image hlast => ⟨h.file image hlast, h.shown image hlast⟩⟩

theorem keeps_execAll {device : Device} {origin : Origin} {commands : List Command}
    {last : Option Image} (h : device.Keeps uid last)
    (hcommands : ∀ command ∈ commands, command.keepsPicture = true) :
    (device.execAll origin commands).Keeps uid last := by
  have hpictures := @pictures_execAll device origin commands hcommands
  simp only [Device.pictures, Prod.mk.injEq] at hpictures
  obtain ⟨hcrashed, hfiles, hshown⟩ := hpictures
  exact ⟨hcrashed.trans h.1, fun image hlast =>
    ⟨hfiles ▸ (h.2 image hlast).1, hshown.trans (h.2 image hlast).2⟩⟩

/-- A completion keeps the invariant when the commands it issues keep the pictures, make calls for
the picture only, and go on with a chain that links it. -/
theorem pictureInv_of_complete {index : ℕ} {pending : Pending} {answer : Answer}
    (h : PictureInv uid s) (hanswered : s.world.answered index = some (pending, answer))
    (hkeeps : ∀ origin, (Device.execAll
      { s.world.device with pending := s.world.device.pending.eraseIdx index } origin
      (World.completed s.world.device answer pending.completion)).Keeps uid s.last)
    (hcalls : ∀ origin, ∀ call ∈ (World.completed s.world.device answer
      pending.completion).filterMap (Command.pending origin), PictureCall uid call)
    (hlinks : ∀ origin, pending.links = true → ∃ call ∈ (World.completed s.world.device answer
      pending.completion).filterMap (Command.pending origin), call.links = true) :
    PictureInv uid (s.step (.complete index)) := by
  have hsession := @session_of_scope uid s (.complete index) h trivial
  obtain ⟨hi, hanswer⟩ := World.answered_eq_some.mp hanswered
  obtain ⟨origin, history, hstep⟩ := World.step_complete h.running hanswered
  rw [hstep] at hsession
  have hafter := hkeeps origin
  rw [Picking.step, hstep]
  refine ⟨hafter.1, hsession, fun call hmem => ?_, fun image hlast => (hafter.2 image hlast).1,
    fun image hlast => (hafter.2 image hlast).2, fun image hlast => ?_, fun hlast => ?_⟩
  · simp only [Device.execAll_pending, List.mem_append] at hmem
    obtain hmem | hmem := hmem
    · exact h.calls call (List.mem_of_mem_eraseIdx hmem)
    · exact hcalls origin call hmem
  · refine (h.stored image hlast).imp id fun hexists => ?_
    obtain ⟨call, hmem, hcall⟩ :=
      exists_mem_eraseIdx hi (by simp [Pending.uploads, hanswer]) hexists
    exact ⟨call, by simp [Device.execAll_pending, hmem], hcall⟩
  · refine (h.linked hlast).imp id fun hexists => ?_
    simp only [Device.execAll_pending, List.mem_append]
    by_cases hpending : pending.links = true
    · obtain ⟨call, hmem, hcall⟩ := hlinks origin hpending
      exact ⟨call, Or.inr hmem, hcall⟩
    · obtain ⟨call, hmem, hcall⟩ := exists_mem_eraseIdx hi hpending hexists
      exact ⟨call, Or.inl hmem, hcall⟩

theorem pictureReloaded_cases {screen : Screen} {currentUser : Option User} {answer : Answer}
    {command : Command}
    (h : command ∈ SettingsTableViewController.pictureReloaded screen currentUser answer) :
    ∃ url, command
      = .call (.dataTask url) (.pictureDownloaded (currentUser.map User.uid) screen) := by
  unfold SettingsTableViewController.pictureReloaded at h
  split at h
  · cases h
  · split at h
    · cases h
    · exact ⟨_, List.mem_singleton.mp h⟩

theorem pictureInv_complete {index : ℕ} (h : PictureInv uid s)
    (hkeeps : KeepsLastPicked uid s (.complete index)) :
    PictureInv uid (s.step (.complete index)) := by
  cases hanswered : s.world.answered index with
  | none =>
      have hsession := @session_of_scope uid s (.complete index) h trivial
      obtain ⟨history, hstep⟩ := World.step_complete_none h.running hanswered
      rw [Picking.step, hstep]
      exact { h with }
  | some call =>
      obtain ⟨pending, answer⟩ := call
      obtain ⟨hmem, hanswer⟩ := World.mem_of_answered hanswered
      obtain ⟨user, huser, huid⟩ := h.exists_currentUser
      cases h.calls pending hmem with
      | nameReload =>
          refine pictureInv_of_complete h hanswered (fun _ => keeps_execAll h.keeps ?_)
            (fun _ call hcall => ?_) (by simp [Pending.links])
          · simp [World.completed, SettingsTableViewController.nameReloaded, Command.keepsPicture]
          · simp [World.completed, SettingsTableViewController.nameReloaded, Command.pending]
              at hcall
      | reload =>
          refine pictureInv_of_complete h hanswered (fun _ => keeps_execAll h.keeps ?_)
            (fun _ call hcall => ?_) (by simp [Pending.links])
          · intro command hcommand
            obtain ⟨url, rfl⟩ := pictureReloaded_cases hcommand
            rfl
          · obtain ⟨command, hcommand, hpending⟩ := List.mem_filterMap.mp hcall
            obtain ⟨url, rfl⟩ := pictureReloaded_cases hcommand
            cases hpending
            rw [huser, Option.map_some, huid]
            exact .download (by simp)
      | download hgiven =>
          obtain ⟨data, rfl⟩ := hgiven answer hanswer
          refine pictureInv_of_complete h hanswered (fun origin => ?_)
            (fun _ call hcall => ?_) (by simp [Pending.links])
          · refine ⟨h.running, fun image hlast => ⟨?_, h.shown image hlast⟩⟩
            have hdata : some data = some (.jpeg image) := by
              simpa [KeepsLastPicked, hlast, hanswered] using hkeeps
            simp [World.completed, pictureDownloaded, saveLocalImage, Device.exec, hdata]
          · simp [World.completed, pictureDownloaded, saveLocalImage, Command.pending] at hcall
            subst hcall
            exact .show
      | @«show» screen result _ =>
          cases hanswer
          refine pictureInv_of_complete h hanswered (fun origin => ?_)
            (fun _ call hcall => ?_) (by simp [Pending.links])
          · refine ⟨h.running, fun image hlast => ⟨h.file image hlast, ?_⟩⟩
            have hshown : screen = s.world.openScreen → result = some image := by
              simpa [KeepsLastPicked, hlast, hanswered] using hkeeps
            show (Function.update s.world.device.settings screen
              { s.world.device.settings screen with picture := result } s.world.openScreen).picture
                = some image
            by_cases hscreen : s.world.openScreen = screen
            · rw [hscreen, Function.update_self]
              exact hshown hscreen.symm
            · rw [Function.update_of_ne hscreen]
              exact h.shown image hlast
          · simp [World.completed, SettingsTableViewController.pictureShown, Command.pending]
              at hcall
      | upload hgiven =>
          obtain rfl := hgiven answer hanswer
          refine pictureInv_of_complete h hanswered (fun _ => keeps_execAll h.keeps ?_)
            (fun _ call hcall => ?_) (fun origin _ => ⟨_, List.mem_singleton_self _, rfl⟩)
          · simp [World.completed, pictureUploaded, Command.keepsPicture]
          · simp [World.completed, pictureUploaded, Command.pending] at hcall
            subst hcall
            exact .url (by simp)
      | url hgiven =>
          obtain rfl := hgiven answer hanswer
          have hcompleted : World.completed s.world.device (.url ⟨profileRef uid⟩) .pictureURL
              = [.call (.commitChanges uid { photoURL := some ⟨profileRef uid⟩ })
                .photoCommitted] := by
            simp [World.completed, pictureURL, huser, huid]
          refine pictureInv_of_complete h hanswered (fun _ => keeps_execAll h.keeps ?_)
            (fun _ call hcall => ?_) (fun origin _ => ?_)
          · simp [hcompleted, Command.keepsPicture]
          · simp [hcompleted, Command.pending] at hcall
            subst hcall
            exact .commit
          · rw [hcompleted]
            exact ⟨_, List.mem_singleton_self _, rfl⟩
      | commit =>
          refine pictureInv_of_complete h hanswered (fun _ => h.keeps)
            (fun _ call hcall => by cases hcall) (fun origin hlinks => ?_)
          simp only [Pending.links, Option.isNone_iff_eq_none] at hlinks
          rw [hlinks] at hanswer
          cases hanswer

theorem pictureInv_step (h : PictureInv uid s) (hscope : PictureScope s e)
    (hkeeps : KeepsLastPicked uid s e) : PictureInv uid (s.step e) := by
  obtain ⟨user, huser, huid⟩ := h.exists_currentUser
  have hsession := session_of_scope h hscope
  cases e with
  | answer index answer => exact pictureInv_answer h hscope hkeeps
  | complete index => exact pictureInv_complete h hkeeps
  | openSettings =>
      obtain ⟨hserver, hcrashed, hfiles, hshown, origin, hpending⟩ :=
        step_openSettings h.running huser
      rw [huid] at hshown hpending
      have hgrows {P : Pending → Prop} (hexists : ∃ call ∈ s.world.device.pending, P call) :
          ∃ call ∈ (s.world.step .openSettings).device.pending, P call := by
        obtain ⟨call, hmem, hcall⟩ := hexists
        exact ⟨call, by simp [hpending, hmem], hcall⟩
      refine ⟨hcrashed, hsession, fun call hmem => ?_, fun image hlast => ?_, fun image hlast => ?_,
        fun image hlast => ?_, fun hlast => ?_⟩
      · simp only [Picking.step, hpending, List.mem_append, List.mem_cons, List.not_mem_nil,
          or_false] at hmem
        obtain hmem | rfl | rfl := hmem
        · exact h.calls call hmem
        · exact .reload
        · exact .nameReload
      · exact (congrFun hfiles uid).trans (h.file image hlast)
      · exact hshown.trans (by rw [cachedPicture, h.file image hlast]; rfl)
      · have hstorage := congrArg (·.storage (profileRef uid)) hserver
        exact (h.stored image hlast).imp hstorage.trans hgrows
      · refine (h.linked hlast).imp (fun hphoto => ?_) hgrows
        exact (congrArg (fun server => (server.accounts uid).bind Account.photoURL) hserver).trans
          hphoto
  | imagePicked screen image =>
      obtain ⟨hscreen, hdata⟩ := hscope
      cases image with
      | none =>
          obtain ⟨history, hstep⟩ := World.step_of_no_commands h.running
            (@World.commands_of_handle s.world (.imagePicked screen none) rfl)
          rw [Picking.step, hstep]
          exact { h with }
      | some image =>
          obtain ⟨hserver, hcrashed, hfiles, hshown, origin, hpending⟩ :=
            step_imagePicked h.running huser hscreen hdata
          rw [huid] at hfiles hpending
          have hupload : _ ∈ (s.step (.imagePicked screen (some image))).world.device.pending :=
            hpending ▸ List.mem_append_right _ (List.mem_singleton_self _)
          refine ⟨hcrashed, hsession, fun call hmem => ?_, fun last hlast => ?_,
            fun last hlast => ?_, fun last hlast => ?_, fun _ => Or.inr ⟨_, hupload, rfl⟩⟩
          · simp only [Picking.step, hpending, List.mem_append, List.mem_singleton] at hmem
            obtain hmem | rfl := hmem
            · exact h.calls call hmem
            · exact .upload (by simp)
          all_goals obtain rfl := Option.some.inj hlast
          · exact hfiles
          · exact hshown
          · exact Or.inr ⟨_, hupload, by simp [Pending.uploads]⟩
  | _ => exact hscope.elim

theorem pictureInv_initial {w : World} (h : PictureReady uid w) :
    PictureInv uid { world := w, last := none } :=
  { running := h.running
    session := h.session
    calls := by simp [h.idle]
    file := by simp
    shown := by simp
    stored := by simp
    linked := by simp }

end Step

/-- **The last picked picture wins** in every run in which no completion brings the file or the open
screen anything else, and no older upload is accepted after the last one. -/
theorem lastPicked_wins (uid : Uid) (w : World) (events : List Event) (hready : PictureReady uid w)
    (hscope : Always Picking.step PictureScope { world := w, last := none } events)
    (hkeeps : Always Picking.step (KeepsLastPicked uid) { world := w, last := none } events) :
    LastPickedWins uid (run Picking.step { world := w, last := none } events) := by
  have hstep : ∀ s e, PictureInv uid s → PictureScope s e ∧ KeepsLastPicked uid s e →
      PictureInv uid (s.step e) := fun _ _ h hevent => pictureInv_step h hevent.1 hevent.2
  exact (run_invariant hstep (pictureInv_initial hready) (hscope.and hkeeps)).wins

instance (s : Picking) (e : Event) : Decidable (PictureScope s e) := by
  unfold PictureScope
  apply @Event.casesOn _ e
  case answer =>
    intro index _
    dsimp only
    refine Option.casesOn s.world.device.pending[index]? ?_ fun _ => ?_ <;> infer_instance
  all_goals
    intros
    infer_instance

instance (uid : Uid) (s : Picking) (e : Event) : Decidable (KeepsLastPicked uid s e) := by
  unfold KeepsLastPicked
  refine Option.casesOn s.last ?_ fun image => ?_
  · infer_instance
  apply @Event.casesOn _ e
  case complete =>
    intro index
    dsimp only
    refine Option.casesOn (s.world.answered index) ?_ fun call => ?_
    · infer_instance
    · refine Prod.casesOn call fun pending answer => ?_
      dsimp only
      refine Completion.casesOn pending.completion ?_ ?_ ?_ ?_ ?_ ?_ ?_ ?_ ?_ ?_ ?_ ?_ ?_ ?_ ?_
      all_goals
        intros
        apply @Answer.casesOn _ answer
        all_goals
          intros
          infer_instance
  case answer =>
    intro index _
    dsimp only
    refine Option.casesOn s.world.device.pending[index]? ?_ fun pending => ?_
    · infer_instance
    · dsimp only
      refine Request.casesOn pending.request ?_ ?_ ?_ ?_ ?_ ?_ ?_ ?_ ?_ ?_
      all_goals
        intros
        infer_instance
  all_goals
    intros
    infer_instance

instance (uid : Uid) (s : Picking) : Decidable (LastPickedWins uid s) := by
  unfold LastPickedWins
  refine Option.casesOn s.last ?_ fun _ => ?_ <;> infer_instance

/-! The account has a picture; Settings is opened, and another picture is picked. -/

def oldPicture : Image := .picture 1 true

def newPicture : Image := .picture 2 true

def pictureServer : Server :=
  { accounts := fun uid =>
      if uid = "ann" then
        some
          { email := "ann@example.org"
            password := "secret"
            displayName := some "Ann"
            photoURL := some ⟨profileRef "ann"⟩ }
      else none
    users := fun _ => none
    storage := fun ref => if ref = profileRef "ann" then some (.jpeg oldPicture) else none }

def pictureWorld : World :=
  run World.step (World.installed pictureServer)
    [.editLogin { email := "ann@example.org", password := "secret" }, .loginButtonPressed,
      .answer 0 (.user "ann"), .complete 0]

/-- The upload of the picture, made by the call at this index, and what follows it. -/
def uploaded (index : ℕ) : List Event :=
  [.answer index .success, .complete index, .answer index (.url ⟨profileRef "ann"⟩),
    .complete index, .answer index .success, .complete index]

/-- Settings is opened and its download answered. -/
def openedSettings : List Event :=
  [.openSettings, .answer 0 .success, .complete 0, .answer 0 .success, .complete 0,
    .answer 0 (.download none (some (.jpeg oldPicture)))]

theorem pickedAfterDownload_wins :
    LastPickedWins "ann" (run Picking.step { world := pictureWorld, last := none }
      (openedSettings ++ [.complete 0, .complete 0, .imagePicked 0 (some newPicture)]
        ++ uploaded 0)) :=
  lastPicked_wins "ann" pictureWorld _ ⟨by decide, by decide, by decide⟩ (by decide) (by decide)

/-- The download that was answered before the pick completes after it. -/
theorem pickedBeforeDownload_loses :
    PictureReady "ann" pictureWorld
      ∧ Always Picking.step PictureScope { world := pictureWorld, last := none }
        (openedSettings ++ [.imagePicked 0 (some newPicture)] ++ uploaded 1
          ++ [.complete 0, .complete 0])
      ∧ ¬ LastPickedWins "ann" (run Picking.step { world := pictureWorld, last := none }
        (openedSettings ++ [.imagePicked 0 (some newPicture)] ++ uploaded 1
          ++ [.complete 0, .complete 0])) :=
  ⟨⟨by decide, by decide, by decide⟩, by decide, by decide⟩

end ProductivityApp
