import ProductivityApp.Proof.ForcedLogout
import ProductivityApp.Proof.NotesList
import ProductivityApp.Proof.NotesTable
import ProductivityApp.Proof.Ownership
import ProductivityApp.System.Fleet
import ProductivityApp.Proof.Agreement
import ProductivityApp.Proof.HalfApplied
import ProductivityApp.Proof.Picture
import ProductivityApp.Proof.NotesShown
import ProductivityApp.Proof.Password
import ProductivityApp.Proof.Address
import ProductivityApp.Proof.FailedDownload
import ProductivityApp.Proof.ShownName
import ProductivityApp.Proof.TypedName
import ProductivityApp.Auth.Client
import ProductivityApp.Proof.Window
import ProductivityApp.Proof.Restart
import ProductivityApp.Proof.Home
import ProductivityApp.Proof.Work
import ProductivityApp.Proof.Stops
import ProductivityApp.Proof.UserRecord
import ProductivityApp.Firestore.Number
import ProductivityApp.Firestore.FieldValue
import ProductivityApp.Lib.Lexicographic
import ProductivityApp.Proof.ValueOrder
import ProductivityApp.Firestore.ObjectValue
import ProductivityApp.Proof.Patch
import ProductivityApp.Firestore.Mutation
import ProductivityApp.Firestore.MutationQueue
import ProductivityApp.Proof.QueuedWrites
import ProductivityApp.Firestore.LocalStore
import ProductivityApp.Proof.LocalView
import ProductivityApp.Proof.QueryResults
import ProductivityApp.Lib.Ranked
import ProductivityApp.Proof.DocumentOrder
import ProductivityApp.Firestore.View
import ProductivityApp.Proof.ViewChanges
import ProductivityApp.Proof.ViewResults
import ProductivityApp.Proof.ViewSnapshots
import ProductivityApp.Firestore.SyncEngine
import ProductivityApp.Proof.Listeners
import ProductivityApp.Proof.NotesSnapshot
