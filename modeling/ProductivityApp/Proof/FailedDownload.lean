import ProductivityApp.Proof.Picture

/-!
# Failed downloads

The handler of a download writes what it got into the cached file before anything has looked at it,
and unwraps an image it has just set to `nil` when it got nothing. So an outcome that is no picture
stops the app or spoils the cache, and a run keeps the cache whole exactly while every download
brings a picture. This holds of all runs of the app, and for every account's file.
-/

namespace ProductivityApp

open EventSystem ProfileUpdate

/-- The handler of a data task runs with this outcome. -/
def World.DownloadEnds (w : World) (e : Event) (index : ℕ) (user : Option Uid) (screen : Screen)
    (outcome : Answer) : Prop :=
  w.device.crashed = false ∧ e = .complete index
    ∧ ∃ pending, w.answered index = some (pending, outcome)
      ∧ pending.completion = .pictureDownloaded user screen

/-- No error, and bytes that decode. -/
def Answer.isPicture : Answer → Bool
  | .download none (some data) => data.image.isSome
  | _ => false

/-- The pictures in the settings screens. -/
def World.pictures (w : World) (screen : Screen) : Option Image :=
  (w.device.settings screen).picture

/-- A download that ends does not stop the app and puts one call of its completion on the main
queue; one that brings no picture changes no file and no picture shown, neither then nor in that
call; and whenever Settings is opened, the cached file of the account decodes. -/
structure FailsCleanly (w : World) (e : Event) : Prop where
  completes : ∀ index user screen outcome, w.DownloadEnds e index user screen outcome →
    (w.step e).device.crashed = false ∧ ∃ result origin,
      (w.step e).device.pending = w.device.pending.eraseIdx index
        ++ [⟨.mainAsync, .pictureShown screen, some (.image result), origin⟩]
  keeps : ∀ index user screen outcome, w.DownloadEnds e index user screen outcome →
    outcome.isPicture = false →
      (w.step e).device.files = w.device.files ∧ (w.step e).pictures = w.pictures
  shown : ∀ index pending screen, w.device.crashed = false → e = .complete index →
    w.answered index = some (pending, .image none) → pending.completion = .pictureShown screen →
      (w.step e).pictures = w.pictures
  cached : w.device.crashed = false → e = .openSettings → ∀ user data,
    w.device.currentUser = some user → w.device.files user.uid = some data → data.image.isSome

/-- A download that ends has brought a picture. -/
def BringsPicture (w : World) (e : Event) : Prop :=
  ∀ index user screen outcome, w.DownloadEnds e index user screen outcome →
    outcome.isPicture = true

/-- Every cached file decodes, and so does what is about to be shown. -/
structure CacheInv (w : World) : Prop where
  sound : ∀ pending ∈ w.device.pending, pending.Sound
  files : ∀ uid data, w.device.files uid = some data → data.image.isSome
  user : ∀ pending ∈ w.device.pending, ∀ user screen,
    pending.completion = .pictureDownloaded user screen → user.isSome
  shown : ∀ pending ∈ w.device.pending, ∀ screen, pending.completion = .pictureShown screen →
    pending.answer ≠ some (.image none)

/-! ### Cached files -/

section

variable {w : World} {e : Event}

theorem arrive_files : (w.arrive e).device.files = w.device.files := by
  cases e with
  | answer index answer =>
      exact World.arrive_answer_field Device.files index answer fun _ _ _ _ _ => rfl
  | complete index => exact World.arrive_complete_field Device.files index fun _ _ => rfl
  | writeLands accepted =>
      exact World.arrive_writeLands_field Device.files accepted fun _ _ => rfl
  | _ => rfl

theorem files_step {uid : Uid} {data : Data} (h : (w.step e).device.files uid = some data) :
    w.device.files uid = some data ∨ Command.writeFile uid data ∈ w.commands e := by
  cases hcrashed : w.device.crashed with
  | true => exact Or.inl (by rwa [World.step_of_crashed hcrashed] at h)
  | false =>
      rw [World.step_of_running hcrashed] at h
      rw [← @arrive_files w e]
      exact Device.execAll_files _ _ h

/-! ### The invariant -/

theorem isPicture_of_mem {index : ℕ} {pending : Pending} {answer : Answer}
    {user : Option Uid} {screen : Screen} {c : Command}
    (hbrings : BringsPicture w (.complete index)) (hc : c ∈ w.commands (.complete index))
    (hanswered : w.answered index = some (pending, answer))
    (hcompletion : pending.completion = .pictureDownloaded user screen) :
    answer.isPicture = true :=
  hbrings index user screen answer
    ⟨World.running_of_mem_commands hc, rfl, pending, hanswered, hcompletion⟩

theorem files_cacheInv_step (h : CacheInv w) (hbrings : BringsPicture w e) (uid : Uid) (data : Data)
    (hdata : (w.step e).device.files uid = some data) : data.image.isSome := by
  obtain hdata | hc := files_step hdata
  · exact h.files uid data hdata
  · cases issued_of_mem hc with
    | pictureFile _ hjpeg _ =>
        rw [Image.image_of_jpegData hjpeg]
        rfl
    | downloadedFile hanswered hcompletion =>
        exact isPicture_of_mem hbrings hc hanswered hcompletion

theorem user_cacheInv_step (h : CacheInv w) (pending : Pending)
    (hmem : pending ∈ (w.step e).device.pending) (user : Option Uid) (screen : Screen)
    (hcompletion : pending.completion = .pictureDownloaded user screen) : user.isSome := by
  obtain ⟨before, hbefore, hcall⟩ | ⟨c, hc, hpending⟩ := World.mem_pending_step hmem
  · exact h.user before hbefore user screen (hcall.2.1 ▸ hcompletion)
  · cases issued_of_mem hc with
    | dataTask _ _ _ _ =>
        cases hpending
        cases hcompletion
        rfl
    | _ => cases hpending <;> cases hcompletion

theorem shown_cacheInv_step (h : CacheInv w) (hbrings : BringsPicture w e) (pending : Pending)
    (hmem : pending ∈ (w.step e).device.pending) (screen : Screen)
    (hcompletion : pending.completion = .pictureShown screen) :
    pending.answer ≠ some (.image none) := by
  obtain hmem | ⟨index, answer, before, after, -, hanswers, rfl⟩ | ⟨c, hc, hpending⟩ :=
    World.pending_step_cases hmem
  · exact h.shown pending hmem screen hcompletion
  · have hfits := (h.sound before (List.mem_of_getElem? hanswers.pending_eq)).fits
    have hrespond := hanswers.respond_eq
    rw [show before.completion = .pictureShown screen from hcompletion] at hfits
    cases hrequest : before.request with
    | mainAsync => rw [hrequest] at hrespond; cases hrespond
    | _ => rw [hrequest] at hfits; cases hfits
  · cases issued_of_mem hc with
    | showPicture hanswered hdownloaded =>
        cases hpending
        have hpicture := isPicture_of_mem hbrings hc hanswered hdownloaded
        intro hnone
        simp only [Option.some.injEq, Answer.image.injEq] at hnone
        simp [Answer.isPicture, hnone] at hpicture
    | _ => cases hpending <;> cases hcompletion

theorem cacheInv_step (h : CacheInv w) (hbrings : BringsPicture w e) : CacheInv (w.step e) where
  sound := World.sound_step h.sound e
  files := files_cacheInv_step h hbrings
  user := user_cacheInv_step h
  shown := shown_cacheInv_step h hbrings

/-! ### The law -/

theorem step_downloaded {index : ℕ} {user : Uid} {screen : Screen} {data : Data}
    (h : w.DownloadEnds e index (some user) screen (.download none (some data))) :
    (w.step e).device.crashed = false
      ∧ (w.step e).device.files = Function.update w.device.files user (some data)
      ∧ ∃ origin, (w.step e).device.pending = w.device.pending.eraseIdx index
        ++ [⟨.mainAsync, .pictureShown screen, some (.image data.image), origin⟩] := by
  obtain ⟨hrunning, rfl, pending, hanswered, hcompletion⟩ := h
  obtain ⟨origin, history, hstep⟩ := World.step_complete hrunning hanswered
  rw [hstep, hcompletion]
  simp [World.completed, pictureDownloaded, saveLocalImage, Device.exec, Command.pending, hrunning]

theorem crashed_downloaded {index : ℕ} {user : Option Uid} {screen : Screen} {outcome : Answer}
    (h : w.DownloadEnds e index user screen outcome)
    (hfailed : ∀ data, outcome ≠ .download none (some data)) :
    (w.step e).device.crashed = true := by
  obtain ⟨hrunning, rfl, pending, hanswered, hcompletion⟩ := h
  obtain ⟨origin, history, hstep⟩ := World.step_complete hrunning hanswered
  have htrap : pictureDownloaded user screen outcome = [.trap] := by
    unfold pictureDownloaded
    split
    · exact absurd rfl (hfailed _)
    · rfl
  rw [hstep, hcompletion]
  simp [World.completed, htrap, Device.exec]

theorem CacheInv.exists_owner (h : CacheInv w) {index : ℕ} {user : Option Uid} {screen : Screen}
    {outcome : Answer} (hends : w.DownloadEnds e index user screen outcome) :
    ∃ owner, user = some owner := by
  obtain ⟨-, -, pending, hanswered, hcompletion⟩ := hends
  exact Option.isSome_iff_exists.mp
    (h.user pending (World.mem_of_answered hanswered).1 user screen hcompletion)

theorem failsCleanly_of_bringsPicture (h : CacheInv w) (hbrings : BringsPicture w e) :
    FailsCleanly w e where
  completes index user screen outcome hends := by
    have hpicture := hbrings index user screen outcome hends
    obtain ⟨owner, rfl⟩ := h.exists_owner hends
    match outcome, hpicture with
    | .download none (some data), _ =>
        obtain ⟨hrunning, -, origin, hpending⟩ := step_downloaded hends
        exact ⟨hrunning, data.image, origin, hpending⟩
  keeps index user screen outcome hends hfailed := by
    rw [hbrings index user screen outcome hends] at hfailed
    cases hfailed
  shown index pending screen _ _ hanswered hcompletion := by
    obtain ⟨hmem, hanswer⟩ := World.mem_of_answered hanswered
    exact absurd hanswer (h.shown pending hmem screen hcompletion)
  cached _ _ user data _ hdata := h.files user.uid data hdata

theorem bringsPicture_of_failsCleanly (h : CacheInv w) (hclean : FailsCleanly w e) :
    BringsPicture w e := by
  intro index user screen outcome hends
  by_contra hfailed
  rw [Bool.not_eq_true] at hfailed
  obtain ⟨hrunning, -⟩ := hclean.completes index user screen outcome hends
  obtain ⟨hfiles, -⟩ := hclean.keeps index user screen outcome hends hfailed
  by_cases hdata : ∃ data, outcome = .download none (some data)
  · obtain ⟨data, rfl⟩ := hdata
    obtain ⟨owner, rfl⟩ := h.exists_owner hends
    -- the bytes were written, so they are what was in the file before, and decode after all
    obtain ⟨-, hwritten, -⟩ := step_downloaded hends
    have hcached : w.device.files owner = some data := by
      rw [← hfiles, hwritten, Function.update_self]
    have hpicture := h.files owner data hcached
    rw [Answer.isPicture] at hfailed
    simp [hfailed] at hpicture
  · rw [crashed_downloaded hends (not_exists.mp hdata)] at hrunning
    cases hrunning

end

/-- **A failed download changes nothing** in exactly the runs in which no download fails. -/
theorem always_failsCleanly_iff (server : Server) (events : List Event) :
    Always World.step FailsCleanly (World.installed server) events
      ↔ Always World.step BringsPicture (World.installed server) events := by
  have hstep : ∀ w e, CacheInv w → BringsPicture w e → CacheInv (w.step e) :=
    fun _ _ h hbrings => cacheInv_step h hbrings
  have hinitial : CacheInv (World.installed server) :=
    { sound := fun pending hmem => by cases hmem
      files := fun uid data hdata => by cases hdata
      user := fun pending hmem => by cases hmem
      shown := fun pending hmem => by cases hmem }
  refine always_iff_of_invariant hstep (fun w e h => ?_) hinitial
  exact ⟨bringsPicture_of_failsCleanly h, failsCleanly_of_bringsPicture h⟩

/-! The server answers the download with an error page. -/

def errorPage : Data := .undecodable [0x34, 0x30, 0x34]

def errorPageDownloaded : List Event :=
  [.editLogin { email := "ann@example.org", password := "secret" }, .loginButtonPressed,
    .answer 0 (.user "ann"), .complete 0, .openSettings, .answer 0 .success, .complete 0,
    .answer 0 .success, .complete 0, .answer 0 (.download none (some errorPage)), .complete 0]

theorem errorPage_cached :
    ¬ Always World.step FailsCleanly (World.installed pictureServer)
      (errorPageDownloaded ++ [.openSettings]) := by
  intro h
  have hopened := (always_append World.step).mp h
  have hcached := hopened.2.1.cached (by decide) rfl
    { uid := "ann", email := "ann@example.org", displayName := some "Ann",
      photoURL := some ⟨profileRef "ann"⟩ } errorPage (by decide) (by decide)
  exact absurd hcached (by decide)

end ProductivityApp
