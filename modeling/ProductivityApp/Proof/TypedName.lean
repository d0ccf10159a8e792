import ProductivityApp.Proof.ShownName

/-!
# The name being typed

The text field is both what the user types into and what the callbacks write to, and Return passes
on whatever stands in it. While a name is being typed, an edit changes the text that is there, so
Return passes on the user's own text exactly as long as no callback puts another one in its place.
-/

namespace ProductivityApp

open EventSystem

/-- The user at a settings screen, and what the user's edits alone have made of the text the field
held when editing began. -/
structure Editing where
  world : World
  typed : Option String

inductive EditingEvent where
  | beginEditing
  /-- An edit, by what it makes of the text in the field. -/
  | edit (change : String → String)
  /-- Anything else that happens to the device and the services. -/
  | other (e : Event)

def Event.returns (screen : Screen) : Event → Bool
  | .textFieldShouldReturn returned => returned = screen
  | _ => false

namespace Editing

def field (s : Editing) (screen : Screen) : String := (s.world.shownName screen).field

/-- Return ends the editing, unless the field is empty. -/
def step (screen : Screen) (s : Editing) (e : EditingEvent) : Editing :=
  if s.world.device.crashed then s
  else
    match e with
    | .beginEditing =>
        if screen < s.world.device.settingsCount then
          { s with typed := s.typed.or (some (s.field screen)) }
        else s
    | .edit change =>
        match s.typed with
        | none => s
        | some typed =>
            { world := s.world.step (.editDisplayName screen (change (s.field screen)))
              typed := some (change typed) }
    | .other e =>
        if e.typesName screen then s
        else
          { world := s.world.step e
            typed := if e.returns screen ∧ s.field screen ≠ "" then none else s.typed }

def installed (server : Server) : Editing := { world := World.installed server, typed := none }

end Editing

/-- After this event, Return would pass on what the user's own edits have made. -/
def PassesTyped (screen : Screen) (s : Editing) (e : EditingEvent) : Prop :=
  ∀ typed, (s.step screen e).typed = some typed → ∀ currentUser,
    SettingsTableViewController.textFieldShouldReturn currentUser ((s.step screen e).field screen)
      = SettingsTableViewController.textFieldShouldReturn currentUser typed

/-- A callback that puts a text into the field while it is edited puts the one that is there by the
user's edits. -/
def LeavesTyping (screen : Screen) (s : Editing) (e : EditingEvent) : Prop :=
  ∀ event typed delivery text, e = .other event → s.typed = some typed →
    s.world.delivery screen event = some delivery → delivery.text = some text → text = typed

/-- The field of the open screen holds what the user has typed. -/
def HoldsTyped (screen : Screen) (s : Editing) : Prop :=
  ∀ typed, s.typed = some typed →
    s.field screen = typed ∧ screen < s.world.device.settingsCount

theorem textFieldShouldReturn_inj {text other : String}
    (h : ∀ currentUser, SettingsTableViewController.textFieldShouldReturn currentUser text
      = SettingsTableViewController.textFieldShouldReturn currentUser other) : text = other := by
  have huser := h (some { uid := "", email := "", displayName := none, photoURL := none })
  unfold SettingsTableViewController.textFieldShouldReturn at huser
  split_ifs at huser with htext hother hother
  · simpa [ProfileUpdate.updateDisplayName] using huser
  · simp [ProfileUpdate.updateDisplayName] at huser
  · simp [ProfileUpdate.updateDisplayName] at huser
  · rw [not_not.mp htext, not_not.mp hother]

section

variable {screen : Screen} {s : Editing} {e : EditingEvent}

theorem field_editDisplayName {w : World} {text : String} (hrunning : w.device.crashed = false) :
    ((w.step (.editDisplayName screen text)).shownName screen).field = text
      ∧ (w.step (.editDisplayName screen text)).device.settingsCount = w.device.settingsCount := by
  obtain ⟨history, hstep⟩ := @World.step_of_no_commands w (.editDisplayName screen text) hrunning
    (World.commands_of_handle rfl)
  rw [hstep]
  simp [World.arrive, World.shownName, Device.shownName, Device.setScreen]

theorem field_step {event : Event} (hopened : screen < s.world.device.settingsCount)
    (hedit : event.typesName screen = false) :
    ((s.world.step event).shownName screen).field
      = ((s.world.delivery screen event).bind NameDelivery.text).getD (s.field screen) := by
  rw [shownName_step hopened hedit, Editing.field]
  cases s.world.delivery screen event with
  | none => rfl
  | some delivery => exact ShownName.field_receive _ delivery

theorem holdsTyped_step (h : HoldsTyped screen s) (hleaves : LeavesTyping screen s e) :
    HoldsTyped screen (s.step screen e) := by
  cases hcrashed : s.world.device.crashed with
  | true =>
      have hsame : s.step screen e = s := by simp [Editing.step, hcrashed]
      rwa [hsame]
  | false =>
      cases e with
      | beginEditing =>
          simp only [Editing.step, hcrashed, Bool.false_eq_true, if_false]
          split_ifs with hopened
          · intro typed htyped
            cases hbefore : s.typed with
            | none =>
                rw [hbefore] at htyped
                exact ⟨Option.some.inj htyped, hopened⟩
            | some before =>
                rw [hbefore] at htyped
                exact h typed (hbefore.trans htyped)
          · exact h
      | edit change =>
          simp only [Editing.step, hcrashed, Bool.false_eq_true, if_false]
          cases hbefore : s.typed with
          | none => exact h
          | some before =>
              obtain ⟨hfield, hopened⟩ := h before hbefore
              obtain ⟨hafter, hcount⟩ := @field_editDisplayName screen s.world
                (change (s.field screen)) hcrashed
              intro typed htyped
              cases htyped
              exact ⟨hafter.trans (by rw [hfield]), hopened.trans_eq hcount.symm⟩
      | other event =>
          simp only [Editing.step, hcrashed, Bool.false_eq_true, if_false]
          split_ifs with hedit hreturn
          · exact h
          · intro typed htyped
            cases htyped
          · rw [Bool.not_eq_true] at hedit
            intro typed htyped
            obtain ⟨hfield, hopened⟩ := h typed htyped
            refine ⟨?_, hopened.trans_le settingsCount_step⟩
            refine (field_step hopened hedit).trans ?_
            cases htext : (s.world.delivery screen event).bind NameDelivery.text with
            | none => exact hfield
            | some text =>
                obtain ⟨delivery, hdelivery, htext⟩ := Option.bind_eq_some_iff.mp htext
                exact hleaves event typed delivery text rfl htyped hdelivery htext

theorem passesTyped_of_leavesTyping (h : HoldsTyped screen s) (hleaves : LeavesTyping screen s e) :
    PassesTyped screen s e := by
  intro typed htyped currentUser
  rw [(holdsTyped_step h hleaves typed htyped).1]

/-- A callback does not end the editing, so Return would pass on what it has put there. -/
theorem leavesTyping_of_passesTyped (h : HoldsTyped screen s) (hpasses : PassesTyped screen s e) :
    LeavesTyping screen s e := by
  rintro event typed delivery text rfl htyped hdelivery htext
  have hrunning : s.world.device.crashed = false := by
    by_contra hcrashed
    simp [World.delivery, hcrashed] at hdelivery
  have hcallback : event.typesName screen = false ∧ event.returns screen = false := by
    cases event with
    | editDisplayName _ _ => simp [World.delivery] at hdelivery
    | textFieldShouldReturn _ => simp [World.delivery] at hdelivery
    | _ => exact ⟨rfl, rfl⟩
  have hstep : s.step screen (.other event)
      = { world := s.world.step event, typed := s.typed } := by
    simp [Editing.step, hrunning, hcallback]
  have hfield := textFieldShouldReturn_inj (hpasses typed (by rw [hstep, htyped]))
  rw [hstep, Editing.field, field_step (h typed htyped).2 hcallback.1, hdelivery] at hfield
  rwa [Option.bind_some, htext, Option.getD_some] at hfield

end

/-- **A name being typed is not lost** in exactly the runs in which no callback puts another text
into the field while it is edited. -/
theorem always_passesTyped_iff (screen : Screen) (server : Server) (events : List EditingEvent) :
    Always (Editing.step screen) (PassesTyped screen) (Editing.installed server) events
      ↔ Always (Editing.step screen) (LeavesTyping screen) (Editing.installed server) events := by
  have hstep : ∀ s e, HoldsTyped screen s → LeavesTyping screen s e →
      HoldsTyped screen (s.step screen e) := fun _ _ h hleaves => holdsTyped_step h hleaves
  have hinitial : HoldsTyped screen (Editing.installed server) := by
    intro typed htyped
    cases htyped
  refine always_iff_of_invariant hstep (fun s e h => ?_) hinitial
  exact ⟨leavesTyping_of_passesTyped h, passesTyped_of_leavesTyping h⟩

/-- Ann is about to become Anne when a snapshot comes that calls her Anna. -/
def overtyped : List EditingEvent :=
  [.other (.editLogin { email := "ann@example.org", password := "secret" }),
    .other .loginButtonPressed, .other (.answer 0 (.user "ann")), .other (.complete 0),
    .other .openSettings, .beginEditing, .edit (· ++ "e"),
    .other (.snapshot 0 (.data annaDocument))]

theorem overtyped_passes_Anna :
    ¬ Always (Editing.step 0) (PassesTyped 0) (Editing.installed pictureServer) overtyped := by
  intro h
  obtain ⟨-, -, -, -, -, -, -, hlast, -⟩ := h
  exact absurd (hlast "Anne" (by decide) (pictureServer.user "ann")) (by decide)

end ProductivityApp
