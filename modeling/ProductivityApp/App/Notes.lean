import ProductivityApp.App.Command
import ProductivityApp.Platform.Query

/-!
# The notes screens

`EditNoteViewController.swift` and `NotesListViewController.swift`. The list keeps its notes in an
array that the snapshot callback empties and refills at once, and a table view that learns of it
only when a reload the callback has queued is run.
-/

namespace ProductivityApp

/-! ### `K.FStore` -/

namespace FStore

def titleField : String := "noteTitle"

def excerptField : String := "noteExcerpt"

def updatedOnField : String := "noteEditDate"

end FStore

structure NoteExcerpt where
  title : String
  excerpt : String
  dateEdited : Double
  deriving DecidableEq

/-- `saveButtonPressed`: the account whose `notes` collection gets a document, and its fields. -/
def EditNoteViewController.saveButtonPressed (currentUser : Option Uid) (title body : String)
    (now : Double) : Option (Uid × Fields) :=
  match currentUser with
  | none => none
  | some user =>
      some (user,
        [(FStore.titleField, .string (if title = "" then "Untitled Note" else title)),
          (FStore.excerptField, .string body), (FStore.updatedOnField, .double now)])

/-- A query of the `notes` collection of an account. -/
structure NotesQuery where
  user : Uid
  orderedBy : String
  deriving DecidableEq

/-- `loadNotes`: the query that is listened to. -/
def NotesListViewController.loadNotes (currentUser : Option Uid) : Option NotesQuery :=
  currentUser.map fun userId => { user := userId, orderedBy := FStore.updatedOnField }

/-- What the notes listener is called with. -/
inductive QuerySnapshot where
  | error (description : String)
  | documents (documents : List Document)

/-- `NotesListViewController` and its table view. `shown` is what the rows were when the table was
last reloaded, so its length is the count `numberOfRowsInSection` returned then. -/
structure NotesScreen where
  notes : List NoteExcerpt
  shown : List NoteExcerpt
  /-- The table reloads on the main queue. -/
  reloads : ℕ
  alerts : List Notice
  deriving DecidableEq

namespace NotesListViewController

/-- The note in a document, if its fields are what the loop asks for. -/
def noteExcerpt (document : Document) : Option NoteExcerpt :=
  match document.string FStore.titleField, document.string FStore.excerptField,
    document.double FStore.updatedOnField with
  | some title, some excerpt, some dateEdited => some { title, excerpt, dateEdited }
  | _, _, _ => none

/-- One turn of the loop over the documents. -/
def appendNote (screen : NotesScreen) (document : Document) : NotesScreen :=
  match noteExcerpt document with
  | some newNote =>
      { screen with notes := screen.notes ++ [newNote], reloads := screen.reloads + 1 }
  | none => screen

/-- `loadNotes`, the snapshot callback -/
def notesChanged (screen : NotesScreen) (snapshot : QuerySnapshot) : NotesScreen :=
  let screen := { screen with notes := [] }
  match snapshot with
  | .error description =>
      { screen with alerts := screen.alerts ++ [.alert "Error Retreving Notes" description] }
  | .documents documents => documents.foldl appendNote screen

def numberOfRowsInSection (screen : NotesScreen) : ℕ := screen.notes.length

/-- The note that `cellForRowAt` puts into a cell; `none` if `notes[indexPath.row]` traps. -/
def cellForRowAt (screen : NotesScreen) (row : ℕ) : Option NoteExcerpt := screen.notes[row]?

/-- The table is loaded once when it appears. -/
def initial : NotesScreen := { notes := [], shown := [], reloads := 1, alerts := [] }

end NotesListViewController

/-! ### The documents and the rows of a snapshot -/

open NotesListViewController

/-- The notes a snapshot holds. -/
def wellFormed (documents : List Document) : List NoteExcerpt := documents.filterMap noteExcerpt

theorem foldl_appendNote (documents : List Document) (screen : NotesScreen) :
    documents.foldl appendNote screen
      = { screen with
          notes := screen.notes ++ wellFormed documents
          reloads := screen.reloads + (wellFormed documents).length } := by
  induction documents generalizing screen with
  | nil => simp [wellFormed]
  | cons document documents ih =>
      rw [List.foldl_cons, ih]
      cases hnote : noteExcerpt document with
      | none => simp [appendNote, wellFormed, hnote]
      | some note => simp [appendNote, wellFormed, hnote]; omega

/-- A successful snapshot leaves its well-formed notes in the array and queues a reload for each. -/
theorem notesChanged_documents (screen : NotesScreen) (documents : List Document) :
    notesChanged screen (.documents documents)
      = { screen with
          notes := wellFormed documents
          reloads := screen.reloads + (wellFormed documents).length } := by
  simp [notesChanged, foldl_appendNote]

end ProductivityApp
