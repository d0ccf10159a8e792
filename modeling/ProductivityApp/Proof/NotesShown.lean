import ProductivityApp.Proof.NotesTable

/-!
# What the notes table shows

Every callback refills the array, while the table changes only when a reload runs, and the callback
queues one reload for each note it appends. So nothing tells the table of a snapshot without notes,
and a failed listener empties the array and leaves the table as it was. Array and table are the last
snapshot exactly while such a callback has nothing to take away.
-/

namespace ProductivityApp

open EventSystem NotesListViewController

/-- A table, with the notes of the last successful snapshot. -/
structure Listening where
  table : NotesTable
  latest : List NoteExcerpt

def TableEvent.brings : TableEvent → Option (List NoteExcerpt)
  | .snapshot (.documents documents) => some (wellFormed documents)
  | _ => none

namespace Listening

def step (s : Listening) (e : TableEvent) : Listening :=
  if s.table.crashed then s
  else { table := s.table.step e, latest := e.brings.getD s.latest }

def initial : Listening := { table := NotesTable.initial, latest := [] }

def notes (s : Listening) : List NoteExcerpt := s.table.screen.notes

def shown (s : Listening) : List NoteExcerpt := s.table.screen.shown

def reloads (s : Listening) : ℕ := s.table.screen.reloads

end Listening

/-- After this event, once no reload is queued any more, the array and the rows are the notes of the
last successful snapshot; a failure of the listener leaves both as they were. -/
structure ShowsLatest (s : Listening) (e : TableEvent) : Prop where
  latest : (s.step e).reloads = 0 →
    (s.step e).notes = (s.step e).latest ∧ (s.step e).shown = (s.step e).latest
  failure : ∀ description, e = .snapshot (.error description) →
    (s.step e).notes = s.notes ∧ (s.step e).shown = s.shown

/-- A snapshot without a well-formed note comes while a reload is queued or the table has no rows,
and the listener fails while the array is empty. -/
def NothingToForget (s : Listening) : TableEvent → Prop
  | .snapshot (.documents documents) =>
      s.table.crashed = false → wellFormed documents = [] → s.reloads = 0 → s.shown = []
  | .snapshot (.error _) => s.table.crashed = false → s.notes = []
  | _ => True

structure ListeningInv (s : Listening) : Prop where
  filled : s.notes = s.latest
  reloaded : s.reloads = 0 → s.shown = s.notes

/-! ### What a step leaves -/

namespace Listening

variable {s : Listening}

theorem step_of_crashed (h : s.table.crashed = true) (e : TableEvent) : s.step e = s := by
  simp [step, h]

theorem step_documents (h : s.table.crashed = false) (documents : List Document) :
    (s.step (.snapshot (.documents documents))).notes = wellFormed documents
      ∧ (s.step (.snapshot (.documents documents))).shown = s.shown
      ∧ (s.step (.snapshot (.documents documents))).reloads
        = s.reloads + (wellFormed documents).length
      ∧ (s.step (.snapshot (.documents documents))).latest = wellFormed documents := by
  simp [step, h, NotesTable.step, notesChanged_documents, notes, shown, reloads, TableEvent.brings]

theorem step_error (h : s.table.crashed = false) (description : String) :
    (s.step (.snapshot (.error description))).notes = []
      ∧ (s.step (.snapshot (.error description))).shown = s.shown
      ∧ (s.step (.snapshot (.error description))).reloads = s.reloads
      ∧ (s.step (.snapshot (.error description))).latest = s.latest := by
  simp [step, h, NotesTable.step, notesChanged, notes, shown, reloads, TableEvent.brings]

/-- A reload shows the array; there may be none to run. -/
theorem step_reload (h : s.table.crashed = false) :
    (s.step .reload).notes = s.notes ∧ (s.step .reload).latest = s.latest
      ∧ ((s.step .reload).shown = s.notes ∨ s.reloads = 0 ∧ (s.step .reload).shown = s.shown) := by
  by_cases hreloads : s.table.screen.reloads = 0
  · simp [step, h, NotesTable.step, hreloads, notes, shown, reloads, TableEvent.brings]
  · simp [step, h, NotesTable.step, hreloads, NotesScreen.reloadData, notes, shown,
      TableEvent.brings]

theorem step_cellForRowAt (h : s.table.crashed = false) (row : ℕ) :
    (s.step (.cellForRowAt row)).notes = s.notes
      ∧ (s.step (.cellForRowAt row)).shown = s.shown
      ∧ (s.step (.cellForRowAt row)).reloads = s.reloads
      ∧ (s.step (.cellForRowAt row)).latest = s.latest := by
  by_cases hrow : row < s.table.screen.shown.length <;>
    simp [step, h, NotesTable.step, hrow, notes, shown, reloads, TableEvent.brings]

end Listening

/-! ### The law -/

theorem listeningInv_step {s : Listening} (h : ListeningInv s) {e : TableEvent}
    (hforget : NothingToForget s e) : ListeningInv (s.step e) := by
  cases hcrashed : s.table.crashed with
  | true => rwa [Listening.step_of_crashed hcrashed]
  | false =>
      obtain ⟨hfilled, hreloaded⟩ := h
      cases e with
      | snapshot snapshot =>
          cases snapshot with
          | documents documents =>
              obtain ⟨hnotes, hshown, hreloads, hlatest⟩ := s.step_documents hcrashed documents
              refine ⟨by rw [hnotes, hlatest], fun hnone => ?_⟩
              rw [hreloads, Nat.add_eq_zero_iff, List.length_eq_zero_iff] at hnone
              rw [hshown, hnotes, hforget hcrashed hnone.2 hnone.1, hnone.2]
          | error description =>
              obtain ⟨hnotes, hshown, hreloads, hlatest⟩ := s.step_error hcrashed description
              have hempty : s.notes = [] := hforget hcrashed
              refine ⟨by rw [hnotes, hlatest, ← hfilled, hempty], fun hnone => ?_⟩
              rw [hreloads] at hnone
              rw [hshown, hnotes, hreloaded hnone, hempty]
      | reload =>
          obtain ⟨hnotes, hlatest, hshown⟩ := s.step_reload hcrashed
          refine ⟨by rw [hnotes, hlatest, hfilled], fun _ => ?_⟩
          obtain hshown | ⟨hnone, hshown⟩ := hshown
          · rw [hshown, hnotes]
          · rw [hshown, hnotes, hreloaded hnone]
      | cellForRowAt row =>
          obtain ⟨hnotes, hshown, hreloads, hlatest⟩ := s.step_cellForRowAt hcrashed row
          refine ⟨by rw [hnotes, hlatest, hfilled], fun hnone => ?_⟩
          rw [hreloads] at hnone
          rw [hshown, hnotes, hreloaded hnone]

theorem showsLatest_of_nothingToForget {s : Listening} (h : ListeningInv s) {e : TableEvent}
    (hforget : NothingToForget s e) : ShowsLatest s e := by
  obtain ⟨hfilled, hreloaded⟩ := listeningInv_step h hforget
  refine ⟨fun hnone => ⟨hfilled, (hreloaded hnone).trans hfilled⟩, ?_⟩
  rintro description rfl
  cases hcrashed : s.table.crashed with
  | true =>
      rw [Listening.step_of_crashed hcrashed]
      exact ⟨rfl, rfl⟩
  | false =>
      obtain ⟨hnotes, hshown, -⟩ := s.step_error hcrashed description
      exact ⟨hnotes.trans (hforget hcrashed).symm, hshown⟩

theorem nothingToForget_of_showsLatest {s : Listening} {e : TableEvent} (h : ShowsLatest s e) :
    NothingToForget s e := by
  cases e with
  | snapshot snapshot =>
      cases snapshot with
      | documents documents =>
          intro hcrashed hnone hreloads
          obtain ⟨-, hshown, hafter, hlatest⟩ := s.step_documents hcrashed documents
          have hrun := h.latest (by rw [hafter, hnone, hreloads, List.length_nil])
          rw [← hshown, hrun.2, hlatest, hnone]
      | error description =>
          intro hcrashed
          rw [← (h.failure description rfl).1, (s.step_error hcrashed description).1]
  | _ => trivial

/-- **Array and table are the last snapshot** whenever no reload is queued, and survive a failure of
the listener, in exactly the runs in which no callback takes notes away without a reload to come. -/
theorem always_showsLatest_iff (events : List TableEvent) :
    Always Listening.step ShowsLatest Listening.initial events
      ↔ Always Listening.step NothingToForget Listening.initial events := by
  have hstep : ∀ s e, ListeningInv s → NothingToForget s e → ListeningInv (s.step e) :=
    fun _ _ h hforget => listeningInv_step h hforget
  refine always_iff_of_invariant hstep (fun s e h => ?_) (⟨rfl, fun _ => rfl⟩ : ListeningInv _)
  exact ⟨nothingToForget_of_showsLatest, showsLatest_of_nothingToForget h⟩

/-- The only note is removed, and the table goes on showing it. -/
theorem removedNote_stays_shown :
    ¬ Always Listening.step ShowsLatest Listening.initial
      [.reload, .snapshot (.documents [shoppingNote]), .reload, .snapshot (.documents [])] := by
  intro h
  obtain ⟨-, -, -, hlast, -⟩ := h
  exact absurd (hlast.latest (by decide)).2 (by decide)

end ProductivityApp
