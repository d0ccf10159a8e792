import ProductivityApp.System.Issued

/-!
# Calls and their answers

Every pending call was made with one of the closures the app has for calls of its kind, and carries
no answer or one that calls of its kind get. The laws about several requests in flight read what a
call is about off its request, and what its closure will do off its completion; this invariant is
what ties the two together.
-/

namespace ProductivityApp

/-- The app makes calls of this kind with this closure. -/
def Request.fits : Request → Completion → Bool
  | .createUser _ _, .signUp => true
  | .signIn _ _, .firebaseAuth | .signIn _ _, .emailRow | .signIn _ _, .checkCurrentPassword _ =>
      true
  | .updateEmail _ _, .updateEmail _ => true
  | .updatePassword _ _, .updatePassword _ => true
  | .commitChanges _ _, .displayNameCommitted | .commitChanges _ _, .photoCommitted => true
  | .reload _, .nameReloaded _ | .reload _, .pictureReloaded _ | .reload _, .none => true
  | .putData ref _, .pictureUploaded profileRef => ref = profileRef
  | .downloadURL _, .pictureURL => true
  | .dataTask _, .pictureDownloaded _ _ => true
  | .mainAsync, .pictureShown _ | .mainAsync, .updatePassword _ => true
  | _, _ => false

theorem Request.fits_signUp {request : Request} :
    request.fits .signUp = true ↔ ∃ email password, request = .createUser email password := by
  cases request <;> simp [fits]

theorem Request.fits_updateEmail {request : Request} {screen : Screen} :
    request.fits (.updateEmail screen) = true
      ↔ ∃ user email, request = .updateEmail user email := by
  cases request <;> simp [fits]

theorem Request.fits_checkCurrentPassword {request : Request} {screen : Screen} :
    request.fits (.checkCurrentPassword screen) = true
      ↔ ∃ email password, request = .signIn email password := by
  cases request <;> simp [fits]

theorem Request.fits_of_createUser {email password : String} {completion : Completion}
    (h : (Request.createUser email password).fits completion = true) : completion = .signUp := by
  cases completion <;> simp_all [fits]

theorem Request.fits_of_updateEmail {user : Uid} {email : String} {completion : Completion}
    (h : (Request.updateEmail user email).fits completion = true) :
    ∃ screen, completion = .updateEmail screen := by
  cases completion <;> simp_all [fits]

/-- A call of this kind can get this answer. -/
def Request.answeredBy : Request → Answer → Bool
  | .createUser _ _, .user _ | .signIn _ _, .user _ => true
  | .updateEmail _ _, .success | .updatePassword _ _, .success => true
  | .commitChanges _ _, .success | .reload _, .success | .putData _ _, .success => true
  | .downloadURL ref, .url url => url.object = ref
  | .dataTask _, .download _ _ => true
  | .mainAsync, .image _ => true
  | .dataTask _, .error _ => false
  | _, .error _ => true
  | _, _ => false

theorem answeredBy_of_respond {server after : Server} {request : Request} {answer : Answer}
    (h : server.respond request answer = some after) : request.answeredBy answer = true := by
  cases request <;> cases answer <;>
    first
    | rfl
    | cases h
    | exact decide_eq_true (Option.ite_none_right_eq_some.mp h).1

theorem Request.answeredBy_signIn {email password : String} {answer : Answer}
    (h : (Request.signIn email password).answeredBy answer = true) :
    (∃ uid, answer = .user uid) ∨ ∃ description, answer = .error description := by
  cases answer <;> simp_all [answeredBy]

structure Pending.Sound (pending : Pending) : Prop where
  fits : pending.request.fits pending.completion = true
  answered : ∀ answer, pending.answer = some answer → pending.request.answeredBy answer = true

theorem Pending.sound_of_issued {w : World} {e : Event} {c : Command} {origin : Origin}
    {pending : Pending} (h : Issued w e c) (hpending : c.pending origin = some pending) :
    pending.Sound := by
  cases h with
  | showPicture | refusePassword =>
      cases hpending
      exact ⟨rfl, fun answer hanswer => by cases hanswer; rfl⟩
  | pictureUpload =>
      cases hpending
      exact ⟨by simp [Request.fits], by simp⟩
  | _ => cases hpending <;> exact ⟨rfl, by simp⟩

namespace World

theorem sound_step {w : World} (h : ∀ pending ∈ w.device.pending, pending.Sound) (e : Event) :
    ∀ pending ∈ (w.step e).device.pending, pending.Sound := by
  intro pending hmem
  obtain hmem | ⟨index, answer, before, after, -, hanswers, rfl⟩ | ⟨c, hc, hpending⟩ :=
    pending_step_cases hmem
  · exact h pending hmem
  · refine ⟨(h before (List.mem_of_getElem? hanswers.pending_eq)).fits, fun given hgiven => ?_⟩
    cases hgiven
    exact answeredBy_of_respond hanswers.respond_eq
  · exact Pending.sound_of_issued (issued_of_mem hc) hpending

end World

end ProductivityApp
