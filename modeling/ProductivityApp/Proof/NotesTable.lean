import ProductivityApp.System.Notes

/-!
# The rows of the notes table

The callback empties the array at once, and the table keeps the count it was told until a queued
reload runs. The table may then ask for a row that is not there, and does so with impunity exactly
while no callback brings fewer notes than the table counts.
-/

namespace ProductivityApp

open EventSystem NotesListViewController

/-- After this event, the app survives whatever the table asks for next. -/
def RowsInBounds (table : NotesTable) (e : TableEvent) : Prop :=
  ∀ row, ((table.step e).step (.cellForRowAt row)).crashed = false

/-- A callback brings at least as many well-formed notes as the table was last told there are. A
failed listener brings none. -/
def BringsEnough (table : NotesTable) : TableEvent → Prop
  | .snapshot (.documents documents) =>
      table.screen.shown.length ≤ (wellFormed documents).length
  | .snapshot (.error _) => table.screen.shown.length = 0
  | _ => True

/-- The table counts no row that the array does not have. -/
structure RowsInv (table : NotesTable) : Prop where
  running : table.crashed = false
  counted : table.screen.shown.length ≤ table.screen.notes.length

theorem NotesTable.step_of_crashed {table : NotesTable} (h : table.crashed = true)
    (e : TableEvent) : table.step e = table := by
  simp [NotesTable.step, h]

theorem crashed_cellForRowAt {table : NotesTable} (hrunning : table.crashed = false) (row : ℕ) :
    (table.step (.cellForRowAt row)).crashed = true
      ↔ table.screen.notes.length ≤ row ∧ row < table.screen.shown.length := by
  by_cases hrow : row < table.screen.shown.length
  · simp [NotesTable.step, hrunning, hrow, cellForRowAt]
  · simp [NotesTable.step, hrunning, hrow]

/-- Every row the table may ask for is there exactly when the array has as many as it counts. -/
theorem rowsInBounds_iff_inv (table : NotesTable) (e : TableEvent) :
    RowsInBounds table e ↔ RowsInv (table.step e) := by
  constructor
  · intro h
    have hrunning : (table.step e).crashed = false := by
      have hnext := h 0
      by_contra hcrashed
      rw [NotesTable.step_of_crashed (Bool.not_eq_false _ ▸ hcrashed)] at hnext
      exact hcrashed hnext
    refine ⟨hrunning, ?_⟩
    by_contra hshort
    have hcrashed := (crashed_cellForRowAt hrunning (table.step e).screen.notes.length).mpr
      ⟨le_rfl, by omega⟩
    rw [h] at hcrashed
    cases hcrashed
  · rintro ⟨hrunning, hcounted⟩ row
    by_contra hcrashed
    rw [Bool.not_eq_false, crashed_cellForRowAt hrunning] at hcrashed
    omega

theorem rowsInv_step_iff {table : NotesTable} (h : RowsInv table) (e : TableEvent) :
    RowsInv (table.step e) ↔ BringsEnough table e := by
  have hrunning := h.running
  have hcounted := h.counted
  have hiff : RowsInv (table.step e)
      ↔ (table.step e).crashed = false
        ∧ (table.step e).screen.shown.length ≤ (table.step e).screen.notes.length :=
    ⟨fun h => ⟨h.running, h.counted⟩, fun h => ⟨h.1, h.2⟩⟩
  rw [hiff]
  cases e with
  | snapshot snapshot =>
      cases snapshot with
      | error description => simp [NotesTable.step, hrunning, notesChanged, BringsEnough]
      | documents documents =>
          simp [NotesTable.step, hrunning, notesChanged_documents, BringsEnough]
  | reload =>
      by_cases hreloads : table.screen.reloads = 0
      · simp [NotesTable.step, hrunning, hreloads, hcounted, BringsEnough]
      · have htold : table.screen.reloadData.shown.length ≤ table.screen.reloadData.notes.length :=
          table.screen.length_shown_reloadData.le
        simp [NotesTable.step, hrunning, hreloads, htold, BringsEnough]
  | cellForRowAt row =>
      have hsurvives : (table.step (.cellForRowAt row)).crashed = false := by
        by_contra hcrashed
        rw [Bool.not_eq_false, crashed_cellForRowAt hrunning] at hcrashed
        omega
      have hscreen : (table.step (.cellForRowAt row)).screen = table.screen := by
        by_cases hrow : row < table.screen.shown.length <;> simp [NotesTable.step, hrunning, hrow]
      simp [hsurvives, hscreen, hcounted, BringsEnough]

/-- **The table never asks for a row that is not there**, in exactly the runs in which no callback
brings fewer notes than the table counts. -/
theorem always_rowsInBounds_iff (events : List TableEvent) :
    Always NotesTable.step RowsInBounds NotesTable.initial events
      ↔ Always NotesTable.step BringsEnough NotesTable.initial events :=
  always_iff_of_invariant (fun _ e h hbrings => (rowsInv_step_iff h e).mpr hbrings)
    (fun table e h => (rowsInBounds_iff_inv table e).trans (rowsInv_step_iff h e))
    (show RowsInv NotesTable.initial from ⟨rfl, le_rfl⟩)

/-! The only note of an account is shown, and then removed on another device. -/

def shoppingNote : Document :=
  Document.empty.merge
    [(FStore.titleField, .string "Shopping"), (FStore.excerptField, .string "Milk"),
      (FStore.updatedOnField, .double (Double.ofRat 1600000000))]

theorem removedNote_traps :
    ¬ Always NotesTable.step RowsInBounds NotesTable.initial
      [.reload, .snapshot (.documents [shoppingNote]), .reload, .snapshot (.documents [])] := by
  intro h
  obtain ⟨-, -, -, hlast, -⟩ := h
  exact absurd (hlast 0) (by decide)

end ProductivityApp
