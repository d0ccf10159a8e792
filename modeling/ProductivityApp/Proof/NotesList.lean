import ProductivityApp.System.Notes

/-!
# What a notes list holds

A saved note travels through an untyped dictionary into the collection of the account that saved it,
and back through an ordered query and the loop of the list. The list ends up with what is in the
collection: the saved notes, each once, and the well-formed notes of other clients. Its order is
Firestore's order of the stored dates, in which booleans come before numbers.
-/

namespace ProductivityApp

open EventSystem NotesListViewController

/-! ### What a list should hold -/

def Collection.ids (collection : Collection) : List DocumentID := collection.map Prod.fst

/-- The notes in the documents of a collection. -/
def Collection.notes (collection : Collection) : List NoteExcerpt :=
  collection.filterMap fun entry => noteExcerpt entry.2

/-- Whether the edit date of a document is stored as a boolean. -/
def booleanDated (entry : DocumentID × Document) : Bool :=
  (entry.2.get FStore.updatedOnField).any Value.isBoolean

namespace Notebook

/-- The notes an account has saved and whose documents still exist. -/
def savedNotes (book : Notebook) (user : Uid) : List NoteExcerpt :=
  (book.saved.filter fun saved => saved.user = user ∧ saved.id ∈ (book.collections user).ids).map
    SavedNote.note

/-- The notes other clients have put among the notes of an account. -/
def othersNotes (book : Notebook) (user : Uid) : List NoteExcerpt := (book.others user).notes

/-- Those of them whose date is stored as a boolean. -/
def booleanNotes (book : Notebook) (user : Uid) : List NoteExcerpt :=
  Collection.notes ((book.others user).filter booleanDated)

end Notebook

def InEditOrder (notes : List NoteExcerpt) : Prop :=
  notes.Pairwise fun a b => a.dateEdited ≤ b.dateEdited

/-- The list holds the account's saved notes, each once, and the well-formed notes of other clients,
in the order they were edited in. -/
def ListsInEditOrder (book : Notebook) (user : Uid) (notes : List NoteExcerpt) : Prop :=
  notes.Perm (book.savedNotes user ++ book.othersNotes user) ∧ InEditOrder notes

/-- The list holds the account's saved notes, each once, and the well-formed notes of other clients:
first those whose date is stored as a boolean, then all others, both in the order they were edited
in. -/
def ListsInStoredOrder (book : Notebook) (user : Uid) (notes : List NoteExcerpt) : Prop :=
  notes.Perm (book.savedNotes user ++ book.othersNotes user)
    ∧ ∃ booleans numbers, notes = booleans ++ numbers ∧ booleans.Perm (book.booleanNotes user)
      ∧ InEditOrder booleans ∧ InEditOrder numbers

/-- A law about what a list holds after a snapshot with all accepted changes. -/
def AfterLatestSnapshot (law : Notebook → Uid → List NoteExcerpt → Prop) (book : Notebook)
    (e : NotebookEvent) : Prop :=
  match e with
  | .latestSnapshot list =>
      match (book.step e).lists[list]? with
      | none => True
      | some (query, screen) => law book query.user screen.notes
  | _ => True

/-- The id of a new document is not in use and never was. -/
def FreshIDs (book : Notebook) : NotebookEvent → Prop
  | .saveButtonPressed id =>
      match book.currentUser with
      | none => True
      | some user =>
          id ∉ (book.collections user).ids ∧ ∀ saved ∈ book.saved, saved.user = user → saved.id ≠ id
  | .documentAdded user id _ =>
      id ∉ (book.collections user).ids ∧ ∀ saved ∈ book.saved, saved.user = user → saved.id ≠ id
  | _ => True

/-! ### What a run keeps -/

/-- The document of a saved note. -/
def SavedNote.document (saved : SavedNote) : Document :=
  Document.empty.merge
    [(FStore.titleField, .string saved.note.title),
      (FStore.excerptField, .string saved.note.excerpt),
      (FStore.updatedOnField, .double saved.note.dateEdited)]

def SavedNote.entry (saved : SavedNote) : DocumentID × Document := (saved.id, saved.document)

def SavedNote.added (saved : SavedNote) : AddedDocument :=
  { user := saved.user, id := saved.id, document := saved.document }

/-- What is in a collection was put there by another client or is a saved note of its account, and
what is on its way is a saved note. -/
structure NotebookInv (book : Notebook) : Prop where
  savedOnce : (book.saved.map fun saved => (saved.user, saved.id)).Nodup
  queueOnce : (book.queue.map fun added => (added.user, added.id)).Nodup
  queued : ∀ added ∈ book.queue, (∃ saved ∈ book.saved, added = saved.added)
    ∧ added.id ∉ (book.collections added.user).ids
  idsOnce : ∀ user, (book.collections user).ids.Nodup
  othersOnce : ∀ user, (book.others user).ids.Nodup
  others : ∀ user, ∀ entry ∈ book.others user, entry ∈ book.collections user
    ∧ ∀ saved ∈ book.saved, saved.user = user → saved.id ≠ entry.1
  stored : ∀ user, ∀ entry ∈ book.collections user, entry ∈ book.others user
    ∨ ∃ saved ∈ book.saved, saved.user = user ∧ entry = saved.entry
  lists : ∀ entry ∈ book.lists, entry.1.orderedBy = FStore.updatedOnField

theorem notebookInv_initial : NotebookInv Notebook.initial where
  savedOnce := List.nodup_nil
  queueOnce := List.nodup_nil
  queued := by simp [Notebook.initial]
  idsOnce := fun _ => List.nodup_nil
  othersOnce := fun _ => List.nodup_nil
  others := by simp [Notebook.initial]
  stored := by simp [Notebook.initial]
  lists := by simp [Notebook.initial]

section Step

variable {book after : Notebook}

theorem NotebookInv.eq_of_id (h : NotebookInv book) {a b : SavedNote} (ha : a ∈ book.saved)
    (hb : b ∈ book.saved) (huser : a.user = b.user) (hid : a.id = b.id) : a = b :=
  List.inj_on_of_nodup_map h.savedOnce ha hb (Prod.ext huser hid)

theorem NotebookInv.of_lists (h : NotebookInv book) (hsaved : after.saved = book.saved)
    (hqueue : after.queue = book.queue) (hcollections : after.collections = book.collections)
    (hothers : after.others = book.others)
    (hlists : ∀ entry ∈ after.lists, entry.1.orderedBy = FStore.updatedOnField) :
    NotebookInv after where
  savedOnce := hsaved ▸ h.savedOnce
  queueOnce := hqueue ▸ h.queueOnce
  queued := by
    rw [hsaved, hqueue, hcollections]
    exact h.queued
  idsOnce := hcollections ▸ h.idsOnce
  othersOnce := hothers ▸ h.othersOnce
  others := by
    rw [hsaved, hcollections, hothers]
    exact h.others
  stored := by
    rw [hsaved, hcollections, hothers]
    exact h.stored
  lists := hlists

theorem changeList_lists (h : NotebookInv book) (list : ℕ)
    (change : NotesQuery → NotesScreen → NotesScreen) :
    ∀ entry ∈ (book.changeList list change).lists,
      entry.1.orderedBy = FStore.updatedOnField := by
  intro entry hmem
  obtain ⟨i, hi⟩ := List.mem_iff_getElem?.mp hmem
  rw [Notebook.changeList, List.getElem?_modify] at hi
  obtain ⟨before, hbefore, heq⟩ := Option.map_eq_some_iff.mp hi
  have hquery : entry.1 = before.1 := by
    split at heq <;> rw [← heq]
  rw [hquery]
  exact h.lists before (List.mem_of_getElem? hbefore)

theorem step_saveButtonPressed {user : Uid} (huser : book.currentUser = some user)
    (id : DocumentID) :
    book.step (.saveButtonPressed id)
      = { book with
          queue := book.queue ++ [SavedNote.added { user, id, note := book.typed }]
          saved := book.saved ++ [{ user, id, note := book.typed }] } := by
  simp [Notebook.step, huser, EditNoteViewController.saveButtonPressed]
  rfl

theorem notebookInv_save (h : NotebookInv book) {user : Uid} {id : DocumentID}
    (huser : book.currentUser = some user) (hfresh : FreshIDs book (.saveButtonPressed id)) :
    NotebookInv (book.step (.saveButtonPressed id)) := by
  simp only [FreshIDs, huser] at hfresh
  obtain ⟨hcollection, hsaved⟩ := hfresh
  have hpath : ∀ saved ∈ book.saved, (saved.user, saved.id) ≠ (user, id) := by
    intro saved hmem heq
    obtain ⟨hsame, hid⟩ := Prod.mk.inj heq
    exact hsaved saved hmem hsame hid
  rw [step_saveButtonPressed huser]
  refine ⟨?_, ?_, ?_, h.idsOnce, h.othersOnce, ?_, ?_, h.lists⟩
  · rw [List.map_append, List.nodup_append]
    refine ⟨h.savedOnce, List.nodup_singleton _, ?_⟩
    simpa using fun saved hmem => (hpath saved hmem)
  · rw [List.map_append, List.nodup_append]
    refine ⟨h.queueOnce, List.nodup_singleton _, ?_⟩
    simp only [List.mem_map, List.map_cons, List.map_nil, List.mem_singleton]
    rintro _ ⟨added, hmem, rfl⟩ _ rfl
    obtain ⟨⟨saved, hsaved, rfl⟩, -⟩ := h.queued added hmem
    exact hpath saved hsaved
  · intro added hmem
    obtain hmem | hmem := List.mem_append.mp hmem
    · obtain ⟨⟨saved, hsaved, rfl⟩, hnew⟩ := h.queued added hmem
      exact ⟨⟨saved, List.mem_append_left _ hsaved, rfl⟩, hnew⟩
    · rw [List.mem_singleton] at hmem
      subst hmem
      exact ⟨⟨_, List.mem_append_right _ (List.mem_singleton.mpr rfl), rfl⟩, hcollection⟩
  · intro owner entry hmem
    obtain ⟨hstored, hnot⟩ := h.others owner entry hmem
    refine ⟨hstored, fun saved hsaved => ?_⟩
    obtain hsaved | hsaved := List.mem_append.mp hsaved
    · exact hnot saved hsaved
    · rw [List.mem_singleton] at hsaved
      subst hsaved
      rintro rfl rfl
      exact hcollection (List.mem_map_of_mem hstored)
  · intro owner entry hmem
    refine (h.stored owner entry hmem).imp_right ?_
    rintro ⟨saved, hsaved, hentry⟩
    exact ⟨saved, List.mem_append_left _ hsaved, hentry⟩

theorem ids_append (collection : Collection) (entry : DocumentID × Document) :
    Collection.ids (collection ++ [entry]) = collection.ids ++ [entry.1] := by
  simp [Collection.ids]

theorem ids_nodup_append {collection : Collection} {entry : DocumentID × Document}
    (h : collection.ids.Nodup) (hnew : entry.1 ∉ collection.ids) :
    (Collection.ids (collection ++ [entry])).Nodup := by
  rw [ids_append, List.nodup_append]
  refine ⟨h, List.nodup_singleton _, ?_⟩
  rintro id hid _ hmem rfl
  rw [List.mem_singleton] at hmem
  exact hnew (hmem ▸ hid)

@[simp]
theorem collections_add (added : AddedDocument) (user : Uid) :
    (book.add added).collections user
      = book.collections user
        ++ if user = added.user then [(added.id, added.document)] else [] := by
  by_cases huser : user = added.user
  · subst huser
    simp [Notebook.add]
  · simp [Notebook.add, huser]

theorem idsOnce_add (h : NotebookInv book) {added : AddedDocument}
    (hnew : added.id ∉ (book.collections added.user).ids) (user : Uid) :
    ((book.add added).collections user).ids.Nodup := by
  rw [collections_add]
  split
  · rename_i huser
    subst huser
    exact ids_nodup_append (h.idsOnce _) hnew
  · rw [List.append_nil]
    exact h.idsOnce user

theorem mem_ids_add {added : AddedDocument} {user : Uid} {id : DocumentID}
    (h : id ∈ ((book.add added).collections user).ids) :
    id ∈ (book.collections user).ids ∨ (user = added.user ∧ id = added.id) := by
  rw [collections_add] at h
  split at h
  · rename_i huser
    rw [ids_append, List.mem_append, List.mem_singleton] at h
    exact h.imp_right fun hid => ⟨huser, hid⟩
  · rw [List.append_nil] at h
    exact Or.inl h

theorem notebookInv_added (h : NotebookInv book) {user : Uid} {id : DocumentID}
    {document : Document} (hfresh : FreshIDs book (.documentAdded user id document)) :
    NotebookInv (book.step (.documentAdded user id document)) := by
  obtain ⟨hcollection, hsaved⟩ := hfresh
  have hothers : ∀ owner entry, entry ∈ (book.step (.documentAdded user id document)).others owner →
      entry ∈ book.others owner ∨ (owner = user ∧ entry = (id, document)) := by
    intro owner entry hmem
    by_cases howner : owner = user
    · subst howner
      simpa [Notebook.step] using hmem
    · left
      simpa [Notebook.step, Function.update_of_ne howner] using hmem
  refine ⟨h.savedOnce, h.queueOnce, ?_, idsOnce_add h hcollection, ?_, ?_, ?_, h.lists⟩
  · intro added hmem
    obtain ⟨⟨saved, hmem', rfl⟩, hnew⟩ := h.queued added hmem
    refine ⟨⟨saved, hmem', rfl⟩, fun hid => ?_⟩
    obtain hid | ⟨howner, hid⟩ := mem_ids_add hid
    · exact hnew hid
    · exact hsaved saved hmem' howner hid
  · intro owner
    by_cases howner : owner = user
    · subst howner
      simp only [Notebook.step, Function.update_self]
      refine ids_nodup_append (h.othersOnce owner) fun hid => ?_
      obtain ⟨entry, hmem, rfl⟩ := List.mem_map.mp hid
      exact hcollection (List.mem_map_of_mem (h.others owner entry hmem).1)
    · simp only [Notebook.step, Function.update_of_ne howner]
      exact h.othersOnce owner
  · intro owner entry hmem
    obtain hmem | ⟨rfl, rfl⟩ := hothers owner entry hmem
    · obtain ⟨hstored, hnot⟩ := h.others owner entry hmem
      refine ⟨?_, hnot⟩
      simp only [Notebook.step, collections_add]
      exact List.mem_append_left _ hstored
    · refine ⟨?_, hsaved⟩
      simp only [Notebook.step, collections_add, if_true]
      exact List.mem_append_right _ (List.mem_singleton.mpr rfl)
  · intro owner entry hmem
    simp only [Notebook.step, collections_add, List.mem_append] at hmem
    obtain hmem | hmem := hmem
    · refine (h.stored owner entry hmem).imp_left fun hother => ?_
      by_cases howner : owner = user
      · subst howner
        simp [Notebook.step, hother]
      · simpa [Notebook.step, Function.update_of_ne howner] using hother
    · split at hmem
      · rename_i howner
        subst howner
        rw [List.mem_singleton] at hmem
        left
        simp [Notebook.step, hmem]
      · cases hmem

theorem notebookInv_removed (h : NotebookInv book) (user : Uid) (id : DocumentID) :
    NotebookInv (book.step (.documentRemoved user id)) := by
  have hcollections : ∀ owner,
      (book.step (.documentRemoved user id)).collections owner
        = (book.collections owner).filter fun entry => ¬ (owner = user ∧ entry.1 = id) := by
    intro owner
    by_cases howner : owner = user
    · subst howner
      simp [Notebook.step]
    · simp [Notebook.step, howner]
  have hothers : ∀ owner,
      (book.step (.documentRemoved user id)).others owner
        = (book.others owner).filter fun entry => ¬ (owner = user ∧ entry.1 = id) := by
    intro owner
    by_cases howner : owner = user
    · subst howner
      simp [Notebook.step]
    · simp [Notebook.step, howner]
  refine ⟨h.savedOnce, h.queueOnce, ?_, ?_, ?_, ?_, ?_, h.lists⟩
  · intro added hmem
    obtain ⟨hsaved, hnew⟩ := h.queued added hmem
    refine ⟨hsaved, fun hid => hnew ?_⟩
    rw [hcollections] at hid
    exact (List.filter_sublist.map _).subset hid
  · intro owner
    rw [hcollections]
    exact (h.idsOnce owner).sublist (List.filter_sublist.map _)
  · intro owner
    rw [hothers]
    exact (h.othersOnce owner).sublist (List.filter_sublist.map _)
  · intro owner entry hmem
    rw [hothers, List.mem_filter] at hmem
    obtain ⟨hstored, hnot⟩ := h.others owner entry hmem.1
    refine ⟨?_, hnot⟩
    rw [hcollections, List.mem_filter]
    exact ⟨hstored, hmem.2⟩
  · intro owner entry hmem
    rw [hcollections, List.mem_filter] at hmem
    refine (h.stored owner entry hmem.1).imp_left fun hother => ?_
    rw [hothers, List.mem_filter]
    exact ⟨hother, hmem.2⟩

theorem notebookInv_lands (h : NotebookInv book) (accepted : Bool) :
    NotebookInv (book.step (.documentLands accepted)) := by
  cases hqueue : book.queue with
  | nil =>
      have hsame : book.step (.documentLands accepted) = book := by simp [Notebook.step, hqueue]
      rwa [hsame]
  | cons added queue =>
      have hqueueOnce := h.queueOnce
      rw [hqueue, List.map_cons, List.nodup_cons] at hqueueOnce
      obtain ⟨hhead, hrest⟩ := hqueueOnce
      have hqueued : ∀ later ∈ queue, (∃ saved ∈ book.saved, later = saved.added)
          ∧ later.id ∉ (book.collections later.user).ids := fun later hmem =>
        h.queued later (hqueue ▸ List.mem_cons_of_mem _ hmem)
      cases accepted with
      | false =>
          have hstep : book.step (.documentLands false) = { book with queue } := by
            simp [Notebook.step, hqueue]
          rw [hstep]
          exact ⟨h.savedOnce, hrest, hqueued, h.idsOnce, h.othersOnce, h.others, h.stored, h.lists⟩
      | true =>
          have hstep : book.step (.documentLands true) = { book.add added with queue } := by
            simp [Notebook.step, hqueue, Notebook.add]
          obtain ⟨⟨saved, hsaved, rfl⟩, hnew⟩ := h.queued added (hqueue ▸ List.mem_cons_self)
          rw [hstep]
          refine ⟨h.savedOnce, hrest, ?_, idsOnce_add h hnew, h.othersOnce, ?_, ?_, h.lists⟩
          · intro later hmem
            obtain ⟨hlater, hnot⟩ := hqueued later hmem
            refine ⟨hlater, fun hid => ?_⟩
            obtain hid | ⟨huser, hid⟩ := mem_ids_add hid
            · exact hnot hid
            · exact hhead (List.mem_map.mpr ⟨later, hmem, Prod.ext huser hid⟩)
          · intro owner entry hmem
            obtain ⟨hstored, hnot⟩ := h.others owner entry hmem
            refine ⟨?_, hnot⟩
            simp only [collections_add]
            exact List.mem_append_left _ hstored
          · intro owner entry hmem
            simp only [collections_add, List.mem_append] at hmem
            obtain hmem | hmem := hmem
            · exact h.stored owner entry hmem
            · split at hmem
              · rename_i howner
                exact Or.inr ⟨saved, hsaved, howner.symm, List.mem_singleton.mp hmem⟩
              · cases hmem

theorem notebookInv_step (h : NotebookInv book) {e : NotebookEvent} (hfresh : FreshIDs book e) :
    NotebookInv (book.step e) := by
  cases e with
  | saveButtonPressed id =>
      cases huser : book.currentUser with
      | none =>
          have hsame : book.step (.saveButtonPressed id) = book := by
            simp [Notebook.step, huser, EditNoteViewController.saveButtonPressed]
          rwa [hsame]
      | some user => exact notebookInv_save h huser hfresh
  | documentLands accepted => exact notebookInv_lands h accepted
  | documentAdded user id document => exact notebookInv_added h hfresh
  | documentRemoved user id => exact notebookInv_removed h user id
  | viewDidLoad =>
      cases huser : book.currentUser with
      | none =>
          have hsame : book.step .viewDidLoad = book := by
            simp [Notebook.step, loadNotes, huser]
          rwa [hsame]
      | some user =>
          simp only [Notebook.step, loadNotes, huser, Option.map_some]
          refine h.of_lists rfl rfl rfl rfl fun entry hmem => ?_
          obtain hmem | hmem := List.mem_append.mp hmem
          · exact h.lists entry hmem
          · rw [List.mem_singleton.mp hmem]
  | latestSnapshot list => exact h.of_lists rfl rfl rfl rfl (changeList_lists h list _)
  | snapshot list snapshot => exact h.of_lists rfl rfl rfl rfl (changeList_lists h list _)
  | reload list => exact h.of_lists rfl rfl rfl rfl (changeList_lists h list _)
  | _ => exact h.of_lists rfl rfl rfl rfl h.lists

/-! ### The contents of a list -/

/-- A collection holds what other clients have put there and the saved notes that exist. -/
theorem collection_perm (h : NotebookInv book) (user : Uid) :
    (book.collections user).Perm
      ((book.saved.filter fun saved =>
        saved.user = user ∧ saved.id ∈ (book.collections user).ids).map SavedNote.entry
          ++ book.others user) := by
  have hsavedOnce : ((book.saved.filter fun saved =>
      saved.user = user ∧ saved.id ∈ (book.collections user).ids).map SavedNote.entry).Nodup := by
    refine List.Nodup.map_on ?_ ((List.Nodup.of_map _ h.savedOnce).filter _)
    intro a ha b hb hentry
    simp only [List.mem_filter, decide_eq_true_eq] at ha hb
    exact h.eq_of_id ha.1 hb.1 (ha.2.1.trans hb.2.1.symm) (congrArg Prod.fst hentry)
  have hothersOnce : (book.others user).Nodup := List.Nodup.of_map _ (h.othersOnce user)
  have hcollectionOnce : (book.collections user).Nodup := List.Nodup.of_map _ (h.idsOnce user)
  rw [List.perm_ext_iff_of_nodup hcollectionOnce]
  · intro entry
    simp only [List.mem_append, List.mem_map, List.mem_filter, decide_eq_true_eq]
    constructor
    · intro hmem
      obtain hother | ⟨saved, hsaved, huser, rfl⟩ := h.stored user entry hmem
      · exact Or.inr hother
      · exact Or.inl ⟨saved, ⟨hsaved, huser, List.mem_map_of_mem hmem⟩, rfl⟩
    · rintro (⟨saved, ⟨hsaved, huser, hid⟩, rfl⟩ | hother)
      · obtain ⟨entry, hmem, hentry⟩ := List.mem_map.mp hid
        obtain hother | ⟨twin, htwin, huser', rfl⟩ := h.stored user entry hmem
        · exact absurd hentry.symm ((h.others user entry hother).2 saved hsaved huser)
        · rwa [h.eq_of_id hsaved htwin (huser.trans huser'.symm) hentry.symm]
      · exact (h.others user entry hother).1
  · rw [List.nodup_append]
    refine ⟨hsavedOnce, hothersOnce, ?_⟩
    rintro entry hentry _ hother rfl
    simp only [List.mem_map, List.mem_filter, decide_eq_true_eq] at hentry
    obtain ⟨saved, ⟨hsaved, huser, -⟩, rfl⟩ := hentry
    exact (h.others user _ hother).2 saved hsaved huser rfl

theorem notes_map_entry (saved : List SavedNote) :
    Collection.notes (saved.map SavedNote.entry) = saved.map SavedNote.note := by
  rw [Collection.notes, List.filterMap_map]
  exact congrFun List.filterMap_eq_map' saved

theorem notes_perm (h : NotebookInv book) (user : Uid) :
    (book.collections user).notes.Perm (book.savedNotes user ++ book.othersNotes user) := by
  have hperm := (collection_perm h user).filterMap fun entry => noteExcerpt entry.2
  rw [List.filterMap_append] at hperm
  rwa [Notebook.savedNotes, ← notes_map_entry]

theorem booleanNotes_perm (h : NotebookInv book) (user : Uid) :
    (Collection.notes ((book.collections user).filter booleanDated)).Perm
      (book.booleanNotes user) := by
  have hperm := ((collection_perm h user).filter booleanDated).filterMap fun entry =>
    noteExcerpt entry.2
  have hnone (saved : List SavedNote) : (saved.map SavedNote.entry).filter booleanDated = [] := by
    rw [List.filter_eq_nil_iff]
    intro entry hmem
    obtain ⟨saved, -, rfl⟩ := List.mem_map.mp hmem
    exact Bool.false_ne_true
  rwa [List.filter_append, hnone, List.nil_append] at hperm

end Step

/-! ### The order of a list -/

section Order

variable {field : String} {a b : DocumentID × Document} {x y : NoteExcerpt}

theorem dated_of_noteExcerpt {document : Document} {note : NoteExcerpt}
    (h : noteExcerpt document = some note) :
    ∃ value, document.get FStore.updatedOnField = some value
      ∧ value.asDouble = some note.dateEdited := by
  unfold noteExcerpt at h
  split at h
  · rename_i hdate
    cases h
    exact Option.bind_eq_some_iff.mp hdate
  · cases h

theorem booleanDated_eq {value : Value} (h : a.2.get FStore.updatedOnField = some value) :
    booleanDated a = value.isBoolean := by
  simp [booleanDated, h]

theorem key_le_of_queryKey_le {v u : Value} (h : queryKey field a ≤ queryKey field b)
    (ha : a.2.get field = some v) (hb : b.2.get field = some u) : v.key ≤ u.key := by
  rw [queryKey, queryKey, ha, hb, Prod.Lex.toLex_le_toLex] at h
  obtain hlt | ⟨heq, -⟩ := h
  · exact (WithBot.coe_lt_coe.mp hlt).le
  · exact (WithBot.coe_inj.mp heq).le

theorem dateEdited_le (h : queryKey FStore.updatedOnField a ≤ queryKey FStore.updatedOnField b)
    (hx : noteExcerpt a.2 = some x) (hy : noteExcerpt b.2 = some y)
    (hsame : booleanDated a = booleanDated b) : x.dateEdited ≤ y.dateEdited := by
  obtain ⟨v, hv, hvx⟩ := dated_of_noteExcerpt hx
  obtain ⟨u, hu, huy⟩ := dated_of_noteExcerpt hy
  rw [booleanDated_eq hv, booleanDated_eq hu] at hsame
  exact Value.asDouble_le_of_key_le (key_le_of_queryKey_le h hv hu) hvx huy hsame

theorem booleanDated_of_queryKey_le
    (h : queryKey FStore.updatedOnField a ≤ queryKey FStore.updatedOnField b)
    (hx : noteExcerpt a.2 = some x) (hy : noteExcerpt b.2 = some y)
    (hb : booleanDated b = true) : booleanDated a = true := by
  obtain ⟨v, hv, hvx⟩ := dated_of_noteExcerpt hx
  obtain ⟨u, hu, huy⟩ := dated_of_noteExcerpt hy
  rw [booleanDated_eq hu] at hb
  rw [booleanDated_eq hv]
  exact Value.isBoolean_of_key_le (key_le_of_queryKey_le h hv hu) hvx huy hb

variable {collection : Collection}

/-- A sorted list of documents in which all dates are booleans, or none. -/
theorem inEditOrder_filter (p : DocumentID × Document → Bool)
    (h : collection.Pairwise fun a b =>
      queryKey FStore.updatedOnField a ≤ queryKey FStore.updatedOnField b)
    (hsame : ∀ a b, p a = true → p b = true → booleanDated a = booleanDated b) :
    InEditOrder (Collection.notes (collection.filter p)) := by
  rw [InEditOrder, Collection.notes, List.pairwise_filterMap]
  refine (h.filter p).imp_of_mem fun ha hb hle x hx y hy => ?_
  exact dateEdited_le hle hx hy (hsame _ _ (List.mem_filter.mp ha).2 (List.mem_filter.mp hb).2)

theorem notes_eq_booleans_append
    (h : collection.Pairwise fun a b =>
      queryKey FStore.updatedOnField a ≤ queryKey FStore.updatedOnField b) :
    collection.notes
      = Collection.notes (collection.filter booleanDated)
        ++ Collection.notes (collection.filter fun entry => !booleanDated entry) := by
  induction collection with
  | nil => rfl
  | cons entry collection ih =>
      rw [List.pairwise_cons] at h
      obtain ⟨hhead, htail⟩ := h
      have ih := ih htail
      simp only [Collection.notes, List.filterMap_cons, List.filter_cons] at ih ⊢
      cases hboolean : booleanDated entry with
      | true =>
          cases hnote : noteExcerpt entry.2 with
          | none => simpa [hnote] using ih
          | some note => simp [hnote, ih]
      | false =>
          cases hnote : noteExcerpt entry.2 with
          | none => simpa [hnote] using ih
          | some note =>
              -- a numbered note is followed by no note dated by a boolean
              have hnone : (collection.filter booleanDated).filterMap
                  (fun entry => noteExcerpt entry.2) = [] := by
                rw [List.filterMap_eq_nil_iff]
                intro later hmem
                rw [List.mem_filter] at hmem
                by_contra hne
                obtain ⟨other, hother⟩ := Option.ne_none_iff_exists'.mp hne
                have := booleanDated_of_queryKey_le (hhead later hmem.1) hnote hother hmem.2
                rw [hboolean] at this
                cases this
              rw [hnone, List.nil_append] at ih
              simp [hnote, hnone, ih]

end Order

theorem notes_latestSnapshot {book : Notebook} {list : ℕ} {query : NotesQuery}
    {screen : NotesScreen}
    (h : (book.step (.latestSnapshot list)).lists[list]? = some (query, screen)) :
    (∃ before, (query, before) ∈ book.lists) ∧ screen.notes = (book.result query).notes := by
  simp only [Notebook.step, Notebook.changeList, List.getElem?_modify_eq] at h
  obtain ⟨⟨query', before⟩, hbefore, heq⟩ := Option.map_eq_some_iff.mp h
  obtain ⟨rfl, rfl⟩ := Prod.mk.inj heq
  refine ⟨⟨before, List.mem_of_getElem? hbefore⟩, ?_⟩
  rw [notesChanged_documents, Collection.notes, wellFormed, List.filterMap_map]
  rfl

theorem notes_filter {p : DocumentID × Document → Bool} (collection : Collection)
    (hp : ∀ entry, (noteExcerpt entry.2).isSome = true → p entry = true) :
    Collection.notes (collection.filter p) = collection.notes := by
  rw [Collection.notes, List.filterMap_filter, Collection.notes]
  refine List.filterMap_congr fun entry _ => ?_
  split
  · rfl
  · rename_i hnot
    exact (Option.not_isSome_iff_eq_none.mp fun hsome => hnot (hp entry hsome)).symm

theorem notes_filter_isSome (collection : Collection) :
    Collection.notes (collection.filter fun entry => (entry.2.get FStore.updatedOnField).isSome)
      = collection.notes := by
  refine notes_filter collection fun entry hnote => ?_
  obtain ⟨note, hnote⟩ := Option.isSome_iff_exists.mp hnote
  obtain ⟨value, hvalue, -⟩ := dated_of_noteExcerpt hnote
  rw [hvalue]
  rfl

theorem listsInStoredOrder {book : Notebook} (h : NotebookInv book) (user : Uid) :
    ListsInStoredOrder book user
      ((book.collections user).orderBy FStore.updatedOnField).notes := by
  have hperm := orderBy_perm (book.collections user) FStore.updatedOnField
  have hsorted := orderBy_pairwise (book.collections user) FStore.updatedOnField
  have hnotes := hperm.filterMap fun entry => noteExcerpt entry.2
  have hbooleans := (hperm.filter booleanDated).filterMap fun entry => noteExcerpt entry.2
  refine ⟨?_, _, _, notes_eq_booleans_append hsorted, ?_, ?_, ?_⟩
  · exact (hnotes.trans (List.Perm.of_eq (notes_filter_isSome _))).trans (notes_perm h user)
  · refine hbooleans.trans (List.Perm.trans (List.Perm.of_eq ?_) (booleanNotes_perm h user))
    rw [List.filter_comm]
    exact notes_filter_isSome _
  · exact inEditOrder_filter _ hsorted fun a b ha hb => ha.trans hb.symm
  · refine inEditOrder_filter _ hsorted fun a b ha hb => ?_
    rw [Bool.not_eq_true'] at ha hb
    exact ha.trans hb.symm

/-- **A notes list holds each saved note once, and what other clients wrote**, after every snapshot
with all accepted changes, in Firestore's order of the stored dates. -/
theorem always_listsInStoredOrder (events : List NotebookEvent)
    (hfresh : Always Notebook.step FreshIDs Notebook.initial events) :
    Always Notebook.step (AfterLatestSnapshot ListsInStoredOrder) Notebook.initial events := by
  have hstep : ∀ book e, NotebookInv book → FreshIDs book e → NotebookInv (book.step e) :=
    fun _ _ h hfresh => notebookInv_step h hfresh
  refine always_of_invariant hstep (fun book e h _ => ?_) notebookInv_initial hfresh
  cases e with
  | latestSnapshot list =>
      simp only [AfterLatestSnapshot]
      split
      · trivial
      · rename_i query screen hlist
        obtain ⟨⟨before, hmem⟩, hnotes⟩ := notes_latestSnapshot hlist
        rw [hnotes, Notebook.result, h.lists _ hmem]
        exact listsInStoredOrder h query.user
  | _ => trivial

instance (book : Notebook) (e : NotebookEvent) : Decidable (FreshIDs book e) := by
  unfold FreshIDs
  apply @NotebookEvent.casesOn _ e
  case saveButtonPressed =>
    intro _
    dsimp only
    refine Option.casesOn book.currentUser ?_ fun _ => ?_ <;> infer_instance
  all_goals
    intros
    infer_instance

instance (notes : List NoteExcerpt) : Decidable (InEditOrder notes) :=
  inferInstanceAs (Decidable (List.Pairwise _ _))

instance (book : Notebook) (user : Uid) (notes : List NoteExcerpt) :
    Decidable (ListsInEditOrder book user notes) :=
  inferInstanceAs (Decidable (_ ∧ _))

instance (book : Notebook) (e : NotebookEvent) :
    Decidable (AfterLatestSnapshot ListsInEditOrder book e) := by
  unfold AfterLatestSnapshot
  apply @NotebookEvent.casesOn _ e
  case latestSnapshot =>
    intro list
    dsimp only
    refine Option.casesOn (book.step (.latestSnapshot list)).lists[list]? ?_ fun _ => ?_ <;>
      infer_instance
  all_goals
    intros
    infer_instance

/-! Two accounts take a note each, another client adds a note to the collection of one of them, and
that one opens the list. -/

def importedNote (date : Value) : Document :=
  Document.empty.merge
    [(FStore.titleField, .string "Imported"), (FStore.excerptField, .string ""),
      (FStore.updatedOnField, date)]

def savedAndImported (date : Value) : List NotebookEvent :=
  [.signIn "ben", .edit "Plans" "Travel", .saveButtonPressed "b", .documentLands true, .signOut,
    .signIn "ann", .edit "" "Milk", .saveButtonPressed "a", .documentLands true,
    .documentAdded "ann" "c" (importedNote date), .viewDidLoad, .latestSnapshot 0]

theorem savedAndImported_listsInStoredOrder :
    Always Notebook.step (AfterLatestSnapshot ListsInStoredOrder) Notebook.initial
      (savedAndImported (.integer 7)) :=
  always_listsInStoredOrder _ (by decide)

/-- `true` is listed as one, before a note saved when the clock was at zero. -/
theorem booleanDated_not_inEditOrder :
    Always Notebook.step FreshIDs Notebook.initial (savedAndImported (.boolean true))
      ∧ ¬ Always Notebook.step (AfterLatestSnapshot ListsInEditOrder) Notebook.initial
        (savedAndImported (.boolean true)) := by
  decide

end ProductivityApp
