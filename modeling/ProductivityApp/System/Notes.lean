import ProductivityApp.App.Notes
import ProductivityApp.Lib.Run
import Mathlib.Logic.Function.Basic

/-!
# The notes screens at work

Two systems. The table is one notes list with its table view: the snapshot callback, the reloads it
has queued and the rows the table asks for come in any order. The notebook is all accounts' notes
with the screens that write and list them: accounts come and go, saved notes are accepted later,
other clients add and remove documents, and snapshots are delivered to every list that was opened.

The Firestore client of the notebook is a simple one. Its saved notes wait in one queue, in the
order they were saved, where the client keeps a queue for each account and sends that of the account
signed in; and the snapshot that has all accepted changes leaves out the notes still in the queue,
which the client shows at once. A snapshot that has them is one of the other snapshots.
-/

namespace ProductivityApp

open NotesListViewController

/-! ### The table -/

structure NotesTable where
  screen : NotesScreen
  crashed : Bool
  deriving DecidableEq

inductive TableEvent where
  | snapshot (snapshot : QuerySnapshot)
  /-- A queued reload runs. -/
  | reload
  /-- The table asks for a row. It asks for none at or past the count it was told. -/
  | cellForRowAt (row : ℕ)

/-- `tableView.reloadData()` -/
def NotesScreen.reloadData (screen : NotesScreen) : NotesScreen :=
  { screen with shown := screen.notes, reloads := screen.reloads - 1 }

theorem NotesScreen.length_shown_reloadData (screen : NotesScreen) :
    screen.reloadData.shown.length = numberOfRowsInSection screen := rfl

def NotesTable.step (table : NotesTable) (e : TableEvent) : NotesTable :=
  if table.crashed then table
  else
    match e with
    | .snapshot snapshot => { table with screen := notesChanged table.screen snapshot }
    | .reload =>
        if table.screen.reloads = 0 then table
        else { table with screen := table.screen.reloadData }
    | .cellForRowAt row =>
        if row < table.screen.shown.length then
          { table with crashed := (cellForRowAt table.screen row).isNone }
        else table

def NotesTable.initial : NotesTable :=
  { screen := NotesListViewController.initial, crashed := false }

/-! ### The notebook -/

/-- A press of Save: the account, the id the client gave the document, and the note as typed. No
function of the app reads these, nor which documents are other clients'; the laws are about them. -/
structure SavedNote where
  user : Uid
  id : DocumentID
  note : NoteExcerpt
  deriving DecidableEq

/-- A document on its way to the `notes` collection of an account. -/
structure AddedDocument where
  user : Uid
  id : DocumentID
  document : Document

structure Notebook where
  currentUser : Option Uid
  now : Double
  titleField : String
  bodyField : String
  queue : List AddedDocument
  /-- `users/{uid}/notes` -/
  collections : Uid → Collection
  /-- The lists that were opened, with the query each one listens to. -/
  lists : List (NotesQuery × NotesScreen)
  saved : List SavedNote
  /-- What other clients have added to `users/{uid}/notes` and nobody has removed. -/
  others : Uid → Collection

inductive NotebookEvent where
  | signIn (user : Uid)
  | signOut
  | clock (now : Double)
  | edit (title body : String)
  /-- The document of the note gets this id. -/
  | saveButtonPressed (id : DocumentID)
  /-- The oldest queued document reaches Firestore, and is accepted or refused. -/
  | documentLands (accepted : Bool)
  | documentAdded (user : Uid) (id : DocumentID) (document : Document)
  | documentRemoved (user : Uid) (id : DocumentID)
  /-- A notes list is opened. -/
  | viewDidLoad
  /-- A list gets a snapshot with all changes accepted so far. -/
  | latestSnapshot (list : ℕ)
  /-- A list gets any other snapshot, or its listener fails. -/
  | snapshot (list : ℕ) (snapshot : QuerySnapshot)
  | reload (list : ℕ)

namespace Notebook

/-- The note that the user has typed. -/
def typed (book : Notebook) : NoteExcerpt :=
  { title := if book.titleField = "" then "Untitled Note" else book.titleField
    excerpt := book.bodyField
    dateEdited := book.now }

def add (book : Notebook) (added : AddedDocument) : Notebook :=
  { book with
    collections := Function.update book.collections added.user
      (book.collections added.user ++ [(added.id, added.document)]) }

def changeList (book : Notebook) (list : ℕ) (change : NotesQuery → NotesScreen → NotesScreen) :
    Notebook :=
  { book with lists := book.lists.modify list fun entry => (entry.1, change entry.1 entry.2) }

/-- What a query returns. -/
def result (book : Notebook) (query : NotesQuery) : Collection :=
  (book.collections query.user).orderBy query.orderedBy

def step (book : Notebook) : NotebookEvent → Notebook
  | .signIn user => { book with currentUser := some user }
  | .signOut => { book with currentUser := none }
  | .clock now => { book with now }
  | .edit title body => { book with titleField := title, bodyField := body }
  | .saveButtonPressed id =>
      match EditNoteViewController.saveButtonPressed book.currentUser book.titleField
        book.bodyField book.now with
      | none => book
      | some (user, fields) =>
          { book with
            queue := book.queue ++ [{ user, id, document := Document.empty.merge fields }]
            saved := book.saved ++ [{ user, id, note := book.typed }] }
  | .documentLands accepted =>
      match book.queue with
      | [] => book
      | added :: queue => if accepted then { book with queue }.add added else { book with queue }
  | .documentAdded user id document =>
      { book.add { user, id, document } with
        others := Function.update book.others user (book.others user ++ [(id, document)]) }
  | .documentRemoved user id =>
      { book with
        collections := Function.update book.collections user
          ((book.collections user).filter fun entry => entry.1 ≠ id)
        others := Function.update book.others user
          ((book.others user).filter fun entry => entry.1 ≠ id) }
  | .viewDidLoad =>
      match NotesListViewController.loadNotes book.currentUser with
      | none => book
      | some query =>
          { book with lists := book.lists ++ [(query, NotesListViewController.initial)] }
  | .latestSnapshot list =>
      book.changeList list fun query screen =>
        notesChanged screen (.documents ((book.result query).map Prod.snd))
  | .snapshot list snapshot => book.changeList list fun _ screen => notesChanged screen snapshot
  | .reload list => book.changeList list fun _ screen => screen.reloadData

def initial : Notebook :=
  { currentUser := none
    now := Double.ofRat 0
    titleField := ""
    bodyField := ""
    queue := []
    collections := fun _ => []
    lists := []
    saved := []
    others := fun _ => [] }

end Notebook

end ProductivityApp
