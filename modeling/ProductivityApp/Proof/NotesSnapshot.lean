import ProductivityApp.Proof.Listeners
import ProductivityApp.Proof.NotesList

/-!
# The notes listener

The notes list reads the documents of a snapshot with casts, and keeps those with a title, an
excerpt and a date that is a number. On these documents the order of the Firestore client is the
order the notebook has, so once Watch has caught up with the writes of the account, what the list
makes of a snapshot is what it makes of the ordered collection of the account.
-/

namespace ProductivityApp.Firestore

open Lexicographic NotesListViewController

/-! ### What the app reads of a document -/

/-- `data()` -/
def Document.read (doc : Document) : ProductivityApp.Document :=
  ⟨fun field => (doc.data.lookup field).map FieldValue.value⟩

/-- The id of a document, the last segment of its key. -/
def documentID (key : DocumentKey) : DocumentID := key.getLastD ""

/-- A document of a collection as the app sees it. -/
def Document.entry (doc : Document) : DocumentID × ProductivityApp.Document :=
  (documentID doc.key, doc.read)

/-- `loadNotes`, the query as the client gets it. The name of the field has no dot. -/
def notesQuery (notes : NotesQuery) : Query :=
  ⟨["users", notes.user, "notes"], [⟨[notes.orderedBy], .ascending⟩], .none, 0⟩

/-- The documents the store has in the collection at a path. -/
def LocalStore.collection (store : LocalStore) (path : ResourcePath) : Collection :=
  match store.getDocumentsMatchingQuery ⟨path, [], .none, 0⟩ with
  | some results => results.entries.map fun entry => entry.2.entry
  | none => []

theorem field_singleton (doc : Document) (field : String) :
    doc.field [field] = doc.data.lookup field := by
  rw [Document.field, ObjectValue.get, FieldValue.get]
  cases doc.data.lookup field <;> rfl

/-! ### The order of dated documents -/

/-- Whether the edit date of a document is a number. -/
def Dated (entry : DocumentID × ProductivityApp.Document) : Prop :=
  (entry.2.double FStore.updatedOnField).isSome = true

instance : DecidablePred Dated := fun _ => inferInstanceAs (Decidable (_ = true))

section Order

variable {path : ResourcePath} {a b : Document} {query : Query}

theorem exists_date (h : Dated a.entry) :
    ∃ value x, a.field [FStore.updatedOnField] = some value
      ∧ a.read.get FStore.updatedOnField = some value.value ∧ value.value.asDouble = some x := by
  obtain ⟨x, hx⟩ := Option.isSome_iff_exists.mp h
  obtain ⟨read, hread, hx⟩ := Option.bind_eq_some_iff.mp hx
  obtain ⟨value, hvalue, rfl⟩ := Option.map_eq_some_iff.mp hread
  exact ⟨value, x, (field_singleton a _).trans hvalue, hread, hx⟩

theorem documentID_append (path : ResourcePath) (id : DocumentID) :
    documentID (path ++ [id]) = id := by
  rw [documentID, List.getLastD_eq_getLast?, List.getLast?_append]
  rfl

theorem order_append (path : ResourcePath) (i j : DocumentID) :
    order (path ++ [i]) (path ++ [j]) = order i j := by
  induction path with
  | nil =>
      rw [List.nil_append, List.nil_append, order_cons, order_self]
      cases order i j <;> rfl
  | cons segment path ih =>
      rw [List.cons_append, List.cons_append, order_cons, order_self]
      exact ih

theorem queryKey_of_date {i : DocumentID} {value : Value} (ha : a.key = path ++ [i])
    (hread : a.read.get FStore.updatedOnField = some value) :
    queryKey FStore.updatedOnField a.entry
      = toLex ((value.key : WithBot (ℕ ×ₗ Double ×ₗ String)), i) := by
  rw [queryKey, Document.entry, hread, ha, documentID_append]
  rfl

/-- The client orders dated documents of a collection as the notebook does. -/
theorem comparator_of_dated {i j : DocumentID}
    (hquery : query.explicitOrderBys = [⟨[FStore.updatedOnField], .ascending⟩])
    (ha : a.key = path ++ [i]) (hb : b.key = path ++ [j]) (hda : Dated a.entry)
    (hdb : Dated b.entry) :
    query.comparator a b
      = order (queryKey FStore.updatedOnField a.entry)
        (queryKey FStore.updatedOnField b.entry) := by
  obtain ⟨value, x, hvalue, hread, hx⟩ := exists_date hda
  obtain ⟨value', y, hvalue', hread', hy⟩ := exists_date hdb
  have horderBys : query.orderBys
      = [⟨[FStore.updatedOnField], .ascending⟩, ⟨keyFieldPath, .ascending⟩] := by
    rw [Query.orderBys, hquery]
    rfl
  have hdate : OrderBy.compare ⟨[FStore.updatedOnField], .ascending⟩ a b
      = order value.value.key value'.value.key := by
    rw [← FieldValue.compareTo_of_asDouble hx hy, OrderBy.compare, hvalue, hvalue']
    rfl
  have hkey : OrderBy.compare ⟨keyFieldPath, .ascending⟩ a b = order i j := by
    rw [OrderBy.compare, if_pos rfl, compareContainer_eq, ha, hb, order_append]
    rfl
  have hplace (place place' : ℕ ×ₗ Double ×ₗ String) :
      order (place : WithBot (ℕ ×ₗ Double ×ₗ String)) place' = order place place' :=
    WithBot.coe_strictMono.cmp_map_eq place place'
  calc query.comparator a b
      = (order value.value.key value'.value.key).then ((order i j).then .eq) := by
        rw [Query.comparator, horderBys, List.foldr_cons, List.foldr_cons, List.foldr_nil, hdate,
          hkey]
    _ = (order value.value.key value'.value.key).then (order i j) := by
        cases order i j <;> rfl
    _ = order (queryKey FStore.updatedOnField a.entry)
          (queryKey FStore.updatedOnField b.entry) := by
        rw [queryKey_of_date ha hread, queryKey_of_date hb hread', order_toLex, hplace]

end Order

/-! ### The collection of an account -/

theorem isImmediateParentOf_iff {path : ResourcePath} {key : DocumentKey} :
    isImmediateParentOf path key = true ↔ ∃ id, key = path ++ [id] := by
  rw [isImmediateParentOf, Bool.and_eq_true_iff, decide_eq_true_iff, List.isPrefixOf_iff_prefix]
  constructor
  · rintro ⟨⟨rest, rfl⟩, hlength⟩
    rw [List.length_append, Nat.add_left_cancel_iff] at hlength
    obtain ⟨id, rfl⟩ := List.length_eq_one_iff.mp hlength
    exact ⟨id, rfl⟩
  · rintro ⟨id, rfl⟩
    exact ⟨List.prefix_append path [id], List.length_append⟩

section Collection

variable {store : LocalStore} {path : ResourcePath} {entry : DocumentID × ProductivityApp.Document}

theorem read_congr {a b : Document} (h : a.data = b.data) : a.read = b.read := by
  rw [Document.read, Document.read, h]

theorem matches_of_path {query : Query} (hpath : isDocumentKey query.path = false)
    {doc : Document} : query.matches doc = true
      ↔ (∃ id, doc.key = query.path ++ [id]) ∧ query.matchesOrderBy doc = true := by
  rw [Query.matches, Query.matchesPath, if_neg (by simp [hpath]), Bool.and_eq_true_iff,
    isImmediateParentOf_iff]

theorem exists_of_sameContents {a b : Option Document} (h : SameContents a b) {doc : Document}
    (hdoc : a = some doc) :
    ∃ other, b = some other ∧ doc.key = other.key ∧ doc.data = other.data := by
  subst hdoc
  cases b with
  | none => cases h
  | some other =>
      obtain ⟨hkey, hdata, -⟩ := Prod.mk.inj (Option.some.inj h) |>.imp_right Prod.mk.inj
      exact ⟨other, rfl, hkey, hdata⟩

theorem exists_results (h : store.Plain) (hpath : isDocumentKey path = false) :
    ∃ results : SortedMap DocumentKey Document,
      store.collection path = results.entries.map (fun found => found.2.entry)
      ∧ (∀ found ∈ results.entries, ∃ doc, store.document found.1 = some doc
        ∧ found.1 = path ++ [found.2.entry.1] ∧ doc.read = found.2.read)
      ∧ ∀ id doc, store.document (path ++ [id]) = some doc →
        ∃ found ∈ results.entries, found.2.entry = (id, doc.read) := by
  let query : Query := ⟨path, [], .none, 0⟩
  have hquery : isDocumentKey query.path = false := hpath
  have horder : isDocumentKey query.path = true → query.explicitOrderBys = [] := fun _ => rfl
  obtain ⟨results, hresults, hsame⟩ :=
    LocalStore.getDocumentsMatchingQuery_eq h.valid horder (h.queues store.user)
  refine ⟨results, by rw [LocalStore.collection, hresults], ?_, ?_⟩
  · intro found hfound
    obtain ⟨doc, hdoc, hkey, hdata⟩ :=
      exists_of_sameContents (hsame found.1) (SortedMap.find_eq_some_iff.mpr hfound)
    obtain ⟨hdoc, hmatches⟩ := Option.filter_eq_some_iff.mp hdoc
    obtain ⟨⟨id, hid⟩, -⟩ := (matches_of_path hquery).mp hmatches
    refine ⟨doc, hdoc, ?_, (read_congr hdata).symm⟩
    rw [Document.entry, hkey, hid, documentID_append, ← hid]
    exact (h.valid.key_document doc hdoc).symm
  · intro id doc hdoc
    have hkey := h.valid.key_document doc hdoc
    have hmatches : query.matches doc = true := (matches_of_path hquery).mpr ⟨⟨id, hkey⟩, rfl⟩
    obtain ⟨found, hfound, hfoundKey, hdata⟩ := exists_of_sameContents (hsame _).symm
      (Option.filter_eq_some_iff.mpr ⟨hdoc, hmatches⟩)
    refine ⟨_, SortedMap.find_eq_some_iff.mp hfound, ?_⟩
    rw [Document.entry, ← hfoundKey, hkey, documentID_append, ← read_congr hdata]

theorem mem_collection (h : store.Plain) (hpath : isDocumentKey path = false) :
    entry ∈ store.collection path
      ↔ ∃ doc, store.document (path ++ [entry.1]) = some doc ∧ doc.read = entry.2 := by
  obtain ⟨results, hcollection, hfound, hall⟩ := exists_results h hpath
  rw [hcollection, List.mem_map]
  constructor
  · rintro ⟨found, hmem, rfl⟩
    obtain ⟨doc, hdoc, hkey, hread⟩ := hfound found hmem
    exact ⟨doc, hkey ▸ hdoc, hread⟩
  · rintro ⟨doc, hdoc, hread⟩
    obtain ⟨found, hmem, hentry⟩ := hall entry.1 doc hdoc
    exact ⟨found, hmem, by rw [hentry, hread]⟩

theorem nodup_collection (h : store.Plain) (hpath : isDocumentKey path = false) :
    (store.collection path).ids.Nodup := by
  obtain ⟨results, hcollection, hfound, -⟩ := exists_results h hpath
  rw [Collection.ids, hcollection, List.map_map]
  refine List.Nodup.map_on ?_ (results.sorted.imp fun hlt heq => hlt.ne (congrArg Prod.fst heq))
  intro found hmem other hother hid
  obtain ⟨-, -, hkey, -⟩ := hfound found hmem
  obtain ⟨-, -, hotherKey, -⟩ := hfound other hother
  have hkeys : found.1 = other.1 := by
    rw [hkey, hotherKey]
    exact congrArg (fun id => path ++ [id]) hid
  have hfind := SortedMap.find_eq_some_iff.mpr hmem
  rw [hkeys, SortedMap.find_eq_some_iff.mpr hother] at hfind
  exact Prod.ext hkeys (Option.some.inj hfind).symm

end Collection

/-! ### What is shown of a collection -/

/-- Watch has sent what was written to the collection and accepted. -/
def LocalStore.CaughtUp (store : LocalStore) (path : ResourcePath) : Prop :=
  ∀ id doc, store.document (path ++ [id]) = some doc → doc.hasCommittedMutations = false

/-- Whether a document comes before another in an ordered collection. -/
def Earlier (a b : DocumentID × ProductivityApp.Document) : Prop :=
  queryKey FStore.updatedOnField a < queryKey FStore.updatedOnField b

instance : Std.Irrefl Earlier := ⟨fun a => lt_irrefl (queryKey FStore.updatedOnField a)⟩

instance : Std.Antisymm Earlier := ⟨fun _ _ hab hba => absurd hab hba.asymm⟩

section Shown

variable {store : LocalStore} {query : Query} {whole : DocumentSet query}
  {entry : DocumentID × ProductivityApp.Document}

theorem matchesOrderBy_iff
    (hquery : query.explicitOrderBys = [⟨[FStore.updatedOnField], .ascending⟩]) (doc : Document) :
    query.matchesOrderBy doc = true ↔ (doc.read.get FStore.updatedOnField).isSome = true := by
  rw [Query.matchesOrderBy, hquery, List.all_cons, List.all_nil, Bool.and_true, field_singleton,
    Document.read, Option.isSome_map]
  rfl

theorem shown_eq (hwhole : IsWhole store whole) {key : DocumentKey} {stored shown : Document}
    (hcommitted : stored.hasCommittedMutations = false)
    (hstored : store.stored query key = some stored) (hshown : whole.find key = some shown) :
    shown.read = stored.read := by
  have hshows := hwhole key
  rw [hstored, hshown] at hshows
  cases hshows with
  | current hdata hlocal => exact read_congr hdata
  | waiting hlocal hcommits =>
      rw [hcommitted] at hcommits
      cases hcommits

/-- What is shown is in the store, below the path of the query. -/
theorem exists_stored (h : store.Plain) (hwhole : IsWhole store whole)
    (hpath : isDocumentKey query.path = false) {shown : Document} (hmem : shown ∈ whole.elements) :
    ∃ id stored, shown.key = query.path ++ [id]
      ∧ store.document (query.path ++ [id]) = some stored
      ∧ store.stored query shown.key = some stored ∧ query.matchesOrderBy stored = true := by
  have hshown : whole.find shown.key = some shown := Ranked.mem_iff.mp hmem
  have hshows := hwhole shown.key
  rw [hshown] at hshows
  cases hstored : store.stored query shown.key with
  | none =>
      rw [hstored] at hshows
      cases hshows
  | some stored =>
      obtain ⟨hdoc, hmatches⟩ := Option.filter_eq_some_iff.mp hstored
      obtain ⟨⟨id, hid⟩, horder⟩ := (matches_of_path hpath).mp hmatches
      rw [h.valid.key_document stored hdoc] at hid
      exact ⟨id, stored, hid, hid ▸ hdoc, rfl, horder⟩

/-- What is in the store and has the field is shown, unless it waits for Watch. -/
theorem exists_shown (h : store.Plain) (hwhole : IsWhole store whole)
    (hpath : isDocumentKey query.path = false)
    (hquery : query.explicitOrderBys = [⟨[FStore.updatedOnField], .ascending⟩]) {id : DocumentID}
    {stored : Document} (hdoc : store.document (query.path ++ [id]) = some stored)
    (hcommitted : stored.hasCommittedMutations = false)
    (hfield : (stored.read.get FStore.updatedOnField).isSome = true) :
    ∃ shown ∈ whole.elements, shown.key = query.path ++ [id] ∧ shown.read = stored.read := by
  have hkey := h.valid.key_document stored hdoc
  have hmatches : query.matches stored = true :=
    (matches_of_path hpath).mpr ⟨⟨id, hkey⟩, (matchesOrderBy_iff hquery stored).mpr hfield⟩
  have hstored : store.stored query (query.path ++ [id]) = some stored :=
    Option.filter_eq_some_iff.mpr ⟨hdoc, hmatches⟩
  have hshows := hwhole (query.path ++ [id])
  rw [hstored] at hshows
  cases hshown : whole.find (query.path ++ [id]) with
  | none =>
      rw [hshown] at hshows
      cases hshows
  | some shown =>
      obtain ⟨hmem, hshownKey⟩ := Ranked.find_eq_some_iff.mp hshown
      exact ⟨shown, hmem, hshownKey, shown_eq hwhole hcommitted hstored hshown⟩

/-- A view of an ordered collection shows the documents that have the field. -/
theorem mem_shown (h : store.Plain) (hwhole : IsWhole store whole)
    (hpath : isDocumentKey query.path = false)
    (hquery : query.explicitOrderBys = [⟨[FStore.updatedOnField], .ascending⟩])
    (hcaught : store.CaughtUp query.path) :
    entry ∈ whole.elements.map Document.entry
      ↔ entry ∈ store.collection query.path
        ∧ (entry.2.get FStore.updatedOnField).isSome = true := by
  rw [mem_collection h hpath, List.mem_map]
  constructor
  · rintro ⟨shown, hmem, rfl⟩
    obtain ⟨id, stored, hid, hdoc, hstored, horder⟩ := exists_stored h hwhole hpath hmem
    have hread := shown_eq hwhole (hcaught id stored hdoc) hstored (Ranked.mem_iff.mp hmem)
    rw [Document.entry, hread, hid, documentID_append]
    exact ⟨⟨stored, hdoc, rfl⟩, (matchesOrderBy_iff hquery stored).mp horder⟩
  · rintro ⟨⟨stored, hdoc, hread⟩, hfield⟩
    obtain ⟨shown, hmem, hkey, hshown⟩ :=
      exists_shown h hwhole hpath hquery hdoc (hcaught _ stored hdoc) (hread ▸ hfield)
    refine ⟨shown, hmem, ?_⟩
    rw [Document.entry, hshown, hread, hkey, documentID_append]

theorem pairwise_shown
    (hquery : query.explicitOrderBys = [⟨[FStore.updatedOnField], .ascending⟩])
    (hkeys : ∀ doc ∈ whole.elements, ∃ id, doc.key = query.path ++ [id]) :
    ((whole.elements.map Document.entry).filter Dated).Pairwise Earlier := by
  rw [List.filter_map, List.pairwise_map]
  refine (whole.pairwise_before.filter _).imp_of_mem fun {a b} ha hb hbefore => ?_
  obtain ⟨ha, hda⟩ := List.mem_filter.mp ha
  obtain ⟨hb, hdb⟩ := List.mem_filter.mp hb
  obtain ⟨i, hi⟩ := hkeys a ha
  obtain ⟨j, hj⟩ := hkeys b hb
  have hcompare : query.comparator a b = .lt := hbefore
  rw [comparator_of_dated hquery hi hj (of_decide_eq_true hda) (of_decide_eq_true hdb)] at hcompare
  exact (cmp_eq_lt_iff _ _).mp hcompare

theorem pairwise_orderBy {collection : Collection} (h : collection.ids.Nodup) :
    ((collection.orderBy FStore.updatedOnField).filter Dated).Pairwise Earlier := by
  have hids : (collection.orderBy FStore.updatedOnField).Pairwise fun a b => a.1 ≠ b.1 := by
    have hnodup : ((collection.orderBy FStore.updatedOnField).map Prod.fst).Nodup := by
      rw [((orderBy_perm collection FStore.updatedOnField).map Prod.fst).nodup_iff]
      exact h.sublist (List.filter_sublist.map Prod.fst)
    exact List.pairwise_map.mp hnodup
  refine List.Pairwise.filter _ (((orderBy_pairwise collection _).and hids).imp ?_)
  rintro a b ⟨hle, hne⟩
  refine lt_of_le_of_ne hle fun heq => hne ?_
  exact congrArg (fun key => (ofLex key).2) heq

/-- The dated documents of a collection are shown in the order of the notebook. -/
theorem dated_shown (h : store.Plain) (hwhole : IsWhole store whole)
    (hpath : isDocumentKey query.path = false)
    (hquery : query.explicitOrderBys = [⟨[FStore.updatedOnField], .ascending⟩])
    (hcaught : store.CaughtUp query.path) :
    (whole.elements.map Document.entry).filter Dated
      = ((store.collection query.path).orderBy FStore.updatedOnField).filter Dated := by
  have hkeys : ∀ doc ∈ whole.elements, ∃ id, doc.key = query.path ++ [id] := by
    intro doc hdoc
    obtain ⟨id, -, hid, -⟩ := exists_stored h hwhole hpath hdoc
    exact ⟨id, hid⟩
  refine (pairwise_shown hquery hkeys).eq_of_mem_iff
    (pairwise_orderBy (nodup_collection h hpath)) fun entry => ?_
  rw [List.mem_filter, List.mem_filter, mem_shown h hwhole hpath hquery hcaught,
    (orderBy_perm _ _).mem_iff, List.mem_filter]

end Shown

theorem isDocumentKey_notesQuery (query : NotesQuery) :
    isDocumentKey (notesQuery query).path = false := by
  simp [isDocumentKey, notesQuery]

/-! ### Saving a note -/

/-- The fields of a note, in the order of their names. -/
def noteObject (title body : String) (now : Binary64) : ObjectValue :=
  [(FStore.updatedOnField, .double now), (FStore.excerptField, .string body),
    (FStore.titleField, .string (if title = "" then "Untitled Note" else title))]

/-- `saveButtonPressed`, the write of a note to a new document -/
def saveNote (user : Uid) (id : DocumentID) (title body : String) (now : Binary64) : Mutation :=
  .set (["users", user, "notes"] ++ [id]) (noteObject title body now) .none

section Saving

variable {account : Uid} {id : DocumentID} {title body : String} {now : Binary64}
  {store : LocalStore} {fields : Fields}

theorem read_noteObject
    (h : EditNoteViewController.saveButtonPressed (some account) title body now.value
      = some (account, fields)) {doc : Document} (hdata : doc.data = noteObject title body now) :
    doc.read = ProductivityApp.Document.empty.merge fields := by
  cases h
  rw [Document.read, hdata]
  refine congrArg ProductivityApp.Document.mk (funext fun field => ?_)
  have htitle : (FStore.titleField == FStore.excerptField) = false := by decide
  have hdate : (FStore.titleField == FStore.updatedOnField) = false := by decide
  have hexcerpt : (FStore.excerptField == FStore.updatedOnField) = false := by decide
  by_cases hfirst : field = FStore.titleField
  · subst hfirst
    simp [noteObject, List.lookup_cons, FieldValue.value, htitle, hdate]
  · by_cases hsecond : field = FStore.excerptField
    · subst hsecond
      simp [noteObject, List.lookup_cons, FieldValue.value, beq_false_of_ne hfirst, hexcerpt]
    · simp only [noteObject, List.lookup_cons, List.lookup_nil, beq_false_of_ne hfirst,
        beq_false_of_ne hsecond, Option.or_none, ProductivityApp.Document.empty]
      cases field == FStore.updatedOnField <;> rfl

/-- A note is in the store as soon as it is written. -/
theorem document_saveNote (store : LocalStore) :
    ∃ doc, (store.written [saveNote account id title body now]).document
        (["users", account, "notes"] ++ [id]) = some doc
      ∧ doc.data = noteObject title body now ∧ doc.hasCommittedMutations = false := by
  rw [LocalStore.document, LocalStore.localView_written]
  refine ⟨⟨noteObject title body now, ["users", account, "notes"] ++ [id],
    Mutation.getPostMutationVersion (store.localView (["users", account, "notes"] ++ [id])),
    .localMutations⟩, ?_, rfl, rfl⟩
  have hkey : (saveNote account id title body now).key = ["users", account, "notes"] ++ [id] := rfl
  rw [MutationBatch.applyToLocalDocument, List.foldl_cons, List.foldl_nil, if_pos hkey]
  rfl

/-- A list is opened and a note is saved. -/
theorem allowed_listen_saveNote (user : User) (account : Uid) (id : DocumentID)
    (title body : String) (now : Binary64) :
    SyncEngine.Allowed user ([.listen (notesQuery ⟨account, FStore.updatedOnField⟩)]
      ++ [.writeMutations [saveNote account id title body now]]) := by
  refine ⟨fun engine hengine => ?_, fun engine _ => ⟨List.cons_ne_nil _ _, List.nodup_singleton _,
    List.forall_mem_singleton.mpr rfl⟩, trivial⟩
  cases hengine
  refine ⟨List.not_mem_nil, fun hpath => ?_⟩
  rw [isDocumentKey_notesQuery] at hpath
  cases hpath

theorem localStore_listen_saveNote {user : User} {query : NotesQuery} {engine : SyncEngine}
    (h : SyncEngine.run user ([.listen (notesQuery query)]
      ++ [.writeMutations [saveNote account id title body now]]) = some engine) :
    engine.localStore
      = (LocalStore.initial user).written [saveNote account id title body now] := by
  obtain ⟨before, hlisten, hwrite⟩ := Option.bind_eq_some_iff.mp h
  have hlisten : (SyncEngine.initial user).listen (notesQuery query) = some before := hlisten
  have hbefore := SyncEngine.localStore_listen hlisten
  have hvalid : before.localStore.Valid := hbefore ▸ LocalStore.valid_initial user
  rw [SyncEngine.localStore_writeMutations hvalid (List.cons_ne_nil _ _) hwrite, hbefore]
  rfl

/-- With a first note, there is nothing to wait for. -/
theorem caughtUp_saveNote (user : User) (path : ResourcePath) :
    ((LocalStore.initial user).written [saveNote account id title body now]).CaughtUp path := by
  intro other doc hdoc
  rw [LocalStore.document, LocalStore.localView_written, MutationBatch.applyToLocalDocument,
    List.foldl_cons, List.foldl_nil] at hdoc
  split at hdoc
  · cases hdoc
    rfl
  · cases hdoc

end Saving

/-! ### What the notes list makes of a snapshot -/

theorem notes_filter_dated (collection : Collection) :
    Collection.notes (collection.filter Dated) = collection.notes := by
  refine notes_filter collection fun entry hnote => decide_eq_true ?_
  obtain ⟨note, hnote⟩ := Option.isSome_iff_exists.mp hnote
  obtain ⟨value, hvalue, hdate⟩ := dated_of_noteExcerpt hnote
  rw [Dated, ProductivityApp.Document.double, hvalue, Option.bind_some, hdate]
  rfl

theorem notesChanged_map_snd (screen : NotesScreen) (collection : Collection) :
    notesChanged screen (.documents (collection.map Prod.snd))
      = { screen with
          notes := collection.notes
          reloads := screen.reloads + collection.notes.length } := by
  rw [notesChanged_documents, Collection.notes, wellFormed, List.filterMap_map]
  rfl

/-- **A snapshot of the notes is one of the notebook.** Whatever happens to a client, once Watch has
caught up with the notes of an account, a notes list of the account that gets the last snapshot is
what a notebook with the collection the store has makes of it with its latest snapshot. -/
theorem snapshot_refines_notebook {user : User} {events : List SyncEvent}
    (h : SyncEngine.Allowed user events) :
    ∃ engine, SyncEngine.run user events = some engine
      ∧ ∀ queryView ∈ engine.queryViews, ∀ currentUser query,
        loadNotes currentUser = some query → queryView.query = notesQuery query →
        engine.localStore.CaughtUp (notesQuery query).path →
        ∀ (book : Notebook) (list : ℕ) (screen : NotesScreen),
          book.collections query.user = engine.localStore.collection (notesQuery query).path →
          book.lists[list]? = some (query, screen) →
          (book.step (.latestSnapshot list)).lists[list]? = some (query, notesChanged screen
            (.documents (queryView.snapshot.documents.elements.map Document.read))) := by
  obtain ⟨engine, hrun, hcorrect, -⟩ := SyncEngine.going_run h
  refine ⟨engine, hrun, ?_⟩
  intro queryView hmem currentUser query hload hquery hcaught book list screen hcollection hlist
  obtain ⟨path, view, snapshot, replayed⟩ := queryView
  obtain rfl : path = notesQuery query := hquery
  have hview := hcorrect.views _ hmem
  obtain ⟨whole, hwhole, helements⟩ := hview.displays.shows
  have hfield : query.orderedBy = FStore.updatedOnField := by
    obtain ⟨uid, -, rfl⟩ := Option.map_eq_some_iff.mp hload
    rfl
  have hshown : snapshot.documents.elements = whole.elements :=
    (congrArg Ranked.elements hview.documents).trans helements
  have hexplicit : (notesQuery query).explicitOrderBys
      = [⟨[FStore.updatedOnField], .ascending⟩] := by rw [notesQuery, hfield]
  have hdated :=
    dated_shown hcorrect.store hwhole (isDocumentKey_notesQuery query) hexplicit hcaught
  have hnotes :
      Collection.notes (whole.elements.map Document.entry) = (book.result query).notes := by
    calc Collection.notes (whole.elements.map Document.entry)
        = Collection.notes ((whole.elements.map Document.entry).filter Dated) :=
          (notes_filter_dated _).symm
      _ = Collection.notes ((engine.localStore.collection
            (notesQuery query).path).orderBy FStore.updatedOnField) := by
          rw [hdated, notes_filter_dated]
      _ = (book.result query).notes := by rw [Notebook.result, hcollection, hfield]
  have hread : snapshot.documents.elements.map Document.read
      = (whole.elements.map Document.entry).map Prod.snd := by
    rw [hshown, List.map_map]
    rfl
  rw [hread, notesChanged_map_snd, hnotes, ← notesChanged_map_snd]
  simp only [Notebook.step, Notebook.changeList, List.getElem?_modify_eq, hlist]
  rfl

theorem snapshot_refines_notebook_first :
    ∃ engine, SyncEngine.run none
        ([.listen (notesQuery ⟨"ada", FStore.updatedOnField⟩)]
          ++ [.writeMutations [saveNote "ada" "n1" "" "milk" .negativeZero]]) = some engine
      ∧ ∀ queryView ∈ engine.queryViews,
        queryView.query = notesQuery ⟨"ada", FStore.updatedOnField⟩ →
        ∃ book : Notebook, (book.step (.latestSnapshot 0)).lists[0]?
          = some (⟨"ada", FStore.updatedOnField⟩, notesChanged NotesListViewController.initial
            (.documents (queryView.snapshot.documents.elements.map Document.read))) := by
  obtain ⟨engine, hrun, hviews⟩ := snapshot_refines_notebook
    (allowed_listen_saveNote none "ada" "n1" "" "milk" .negativeZero)
  refine ⟨engine, hrun, fun queryView hmem hquery => ?_⟩
  have hcaught : engine.localStore.CaughtUp (notesQuery ⟨"ada", FStore.updatedOnField⟩).path := by
    rw [localStore_listen_saveNote hrun]
    exact caughtUp_saveNote none _
  exact ⟨{ Notebook.initial with
      collections := fun user => engine.localStore.collection (notesQuery ⟨user, ""⟩).path
      lists := [(⟨"ada", FStore.updatedOnField⟩, NotesListViewController.initial)] },
    hviews queryView hmem (some "ada") _ rfl hquery hcaught _ 0 _ rfl rfl⟩

section Saved

variable {account : Uid} {id : DocumentID} {title body : String} {now : Binary64} {fields : Fields}

/-- **A saved note is listed at once.** Whatever happened to a client before, when a note is saved
the last snapshot of every list of the account has its document. -/
theorem savedNote_shown {user : User} {events : List SyncEvent}
    (h : SyncEngine.Allowed user (events ++ [.writeMutations [saveNote account id title body now]]))
    (hfields : EditNoteViewController.saveButtonPressed (some account) title body now.value
      = some (account, fields)) :
    ∃ engine, SyncEngine.run user
        (events ++ [.writeMutations [saveNote account id title body now]]) = some engine
      ∧ ∀ queryView ∈ engine.queryViews, ∀ query, loadNotes (some account) = some query →
        queryView.query = notesQuery query →
        ProductivityApp.Document.empty.merge fields
          ∈ queryView.snapshot.documents.elements.map Document.read := by
  obtain ⟨hbefore, hallows, -⟩ := (EventSystem.always_append SyncEngine.step).mp h
  obtain ⟨before, hrun, hcorrect, -⟩ := SyncEngine.going_run hbefore
  have hrun :
      EventSystem.run SyncEngine.step (some (SyncEngine.initial user)) events = some before := hrun
  rw [hrun] at hallows
  obtain ⟨engine, hwrite, hafter⟩ := hcorrect.handle (hallows before rfl)
  refine ⟨engine, ?_, ?_⟩
  · rw [SyncEngine.run, EventSystem.run, List.foldl_append]
    exact (congrArg (SyncEngine.step · _) hrun).trans hwrite
  · intro queryView hmem query hload hquery
    obtain rfl : query = ⟨account, FStore.updatedOnField⟩ := (Option.some.inj hload).symm
    obtain ⟨path, view, snapshot, replayed⟩ := queryView
    obtain rfl : path = notesQuery ⟨account, FStore.updatedOnField⟩ := hquery
    have hview := hafter.views _ hmem
    obtain ⟨whole, hwhole, helements⟩ := hview.displays.shows
    have hshown : snapshot.documents.elements = whole.elements :=
      (congrArg Ranked.elements hview.documents).trans helements
    have hstore := SyncEngine.localStore_writeMutations hcorrect.store.valid
      (List.cons_ne_nil _ _) hwrite
    obtain ⟨doc, hdoc, hdata, hcommitted⟩ :=
      @document_saveNote account id title body now before.localStore
    rw [← hstore] at hdoc
    have hread := read_noteObject hfields hdata
    have hfield : (doc.read.get FStore.updatedOnField).isSome = true := by
      rw [hread]
      cases hfields
      rfl
    obtain ⟨shown, hshownMem, -, hshownRead⟩ :=
      exists_shown hafter.store hwhole (isDocumentKey_notesQuery _) rfl hdoc hcommitted hfield
    exact List.mem_map.mpr ⟨shown, hshown ▸ hshownMem, hshownRead.trans hread⟩

theorem savedNote_shown_first :
    ∃ engine, SyncEngine.run none
        ([.listen (notesQuery ⟨"ada", FStore.updatedOnField⟩)]
          ++ [.writeMutations [saveNote "ada" "n1" "" "milk" .negativeZero]]) = some engine
      ∧ ∀ queryView ∈ engine.queryViews, ∀ query, loadNotes (some "ada") = some query →
        queryView.query = notesQuery query →
        ProductivityApp.Document.empty.merge
            [(FStore.titleField, .string "Untitled Note"), (FStore.excerptField, .string "milk"),
              (FStore.updatedOnField, .double (Double.ofRat 0))]
          ∈ queryView.snapshot.documents.elements.map Document.read :=
  savedNote_shown (allowed_listen_saveNote none "ada" "n1" "" "milk" .negativeZero) rfl

end Saved

end ProductivityApp.Firestore
