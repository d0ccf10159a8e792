import ProductivityApp.Firestore.View

/-!
# What a view reports

The changes a view collects lead from the documents it showed to the ones it shows now, at every
key, and the documents it marks as pending are the shown ones with local mutations. A change is only
ever merged with one it can follow, so no combination of changes is unsupported.
-/

namespace ProductivityApp.Firestore

open SortedMap

variable {query : Query}

theorem find_insert_document (documentSet : DocumentSet query) (doc : Document)
    (key : DocumentKey) :
    (documentSet.insert doc).find key
      = if key = doc.key then some doc else documentSet.find key :=
  Ranked.find_insert documentSet doc key

/-! ### Changes lead from one set of documents to another -/

/-- A change that tells what happened to the document at a key. -/
inductive Recorded (key : DocumentKey) :
    Option Document → Option Document → Option DocumentViewChange → Prop
  | unchanged (doc : Option Document) : Recorded key doc doc none
  | added (doc : Document) : Recorded key none (some doc) (some ⟨doc, .added⟩)
  | modified (before after : Document) :
      Recorded key (some before) (some after) (some ⟨after, .modified⟩)
  | metadata (before after : Document) (h : after.data = before.data) :
      Recorded key (some before) (some after) (some ⟨after, .metadata⟩)
  | removed (before doc : Document) (h : doc.key = key) :
      Recorded key (some before) none (some ⟨doc, .removed⟩)

/-- The changes tell the difference between two sets of documents. -/
def Records (base current : DocumentSet query) (changes : DocumentViewChangeSet) : Prop :=
  ∀ key, Recorded key (base.find key) (current.find key) (changes.find key)

/-- A change that is reported of a document when it is shown, or no longer shown. -/
inductive Happens : Option Document → Option Document → DocumentViewChange → Prop
  | added (doc : Document) : Happens none (some doc) ⟨doc, .added⟩
  | modified (current doc : Document) : Happens (some current) (some doc) ⟨doc, .modified⟩
  | metadata (current doc : Document) (h : doc.data = current.data) :
      Happens (some current) (some doc) ⟨doc, .metadata⟩
  | removed (current : Document) : Happens (some current) none ⟨current, .removed⟩

section Merging

variable {base current next : DocumentSet query} {changes : DocumentViewChangeSet}
  {key : DocumentKey} {doc : Option Document}

theorem Records.replace (h : Records base current changes) {change : Option DocumentViewChange}
    (hchange : Recorded key (base.find key) doc change)
    (hnext : ∀ other, next.find other = if other = key then doc else current.find other) :
    Records base next (changes.replace key change) := by
  intro other
  rw [hnext, SortedMap.find_replace]
  by_cases hother : other = key
  · subst hother
    rw [if_pos rfl, if_pos rfl]
    exact hchange
  · rw [if_neg hother, if_neg hother]
    exact h other

/-- A change is merged with the one before it. -/
theorem Records.addChange (h : Records base current changes) {change : DocumentViewChange}
    (hkey : change.document.key = key) (hchange : Happens (current.find key) doc change) :
    ∃ merged, changes.addChange change = some (changes.replace key merged)
      ∧ Recorded key (base.find key) doc merged := by
  have hcurrent := h key
  unfold DocumentViewChangeSet.addChange
  rw [hkey]
  dsimp only
  generalize hold : changes.find key = old at hcurrent
  generalize hbefore : base.find key = before at hcurrent ⊢
  generalize hfind : current.find key = found at hcurrent hchange
  cases hcurrent with
  | unchanged found =>
      refine ⟨some change, rfl, ?_⟩
      cases hchange with
      | added doc => exact .added doc
      | modified current doc => exact .modified current doc
      | metadata current doc hdata => exact .metadata current doc hdata
      | removed current => exact .removed current current hkey
  | added found =>
      cases hchange with
      | modified current doc => exact ⟨some ⟨doc, .added⟩, rfl, .added doc⟩
      | metadata current doc hdata => exact ⟨some ⟨doc, .added⟩, rfl, .added doc⟩
      | removed current => exact ⟨none, rfl, .unchanged none⟩
  | modified before found =>
      cases hchange with
      | modified current doc => exact ⟨some ⟨doc, .modified⟩, rfl, .modified before doc⟩
      | metadata current doc hdata => exact ⟨some ⟨doc, .modified⟩, rfl, .modified before doc⟩
      | removed current => exact ⟨some ⟨_, .removed⟩, rfl, .removed before _ hkey⟩
  | metadata before found hdata =>
      cases hchange with
      | modified current doc => exact ⟨some ⟨doc, .modified⟩, rfl, .modified before doc⟩
      | metadata current doc hsame =>
          exact ⟨some ⟨doc, .metadata⟩, rfl, .metadata before doc (hsame.trans hdata)⟩
      | removed current => exact ⟨some ⟨_, .removed⟩, rfl, .removed before _ hkey⟩
  | removed before found hfound =>
      cases hchange with
      | added doc => exact ⟨some ⟨doc, .modified⟩, rfl, .modified before doc⟩

end Merging

/-! ### What a pass keeps -/

/-- The marked documents are the shown ones with local mutations. -/
def Marks (documentSet : DocumentSet query) (mutatedKeys : SortedSet DocumentKey) : Prop :=
  ∀ key, mutatedKeys.contains key = true
    ↔ ∃ doc, documentSet.find key = some doc ∧ doc.hasLocalMutations = true

section Marking

variable {documentSet : DocumentSet query} {mutatedKeys : SortedSet DocumentKey}

theorem Marks.insert (h : Marks documentSet mutatedKeys) (doc : Document) :
    Marks (documentSet.insert doc)
      (if doc.hasLocalMutations then mutatedKeys.insert doc.key ()
        else mutatedKeys.erase doc.key) := by
  intro key
  rw [find_insert_document]
  by_cases heq : key = doc.key
  · rw [if_pos heq]
    split
    · rename_i hlocal
      exact iff_of_true ((SortedSet.contains_insert _ _ _).mpr (Or.inl heq)) ⟨doc, rfl, hlocal⟩
    · rename_i hlocal
      refine iff_of_false (fun hcontains => ?_) ?_
      · exact ((SortedSet.contains_erase _ _ _).mp hcontains).1 heq
      · rintro ⟨other, hother, hmutations⟩
        cases hother
        exact hlocal hmutations
  · rw [if_neg heq, ← h key]
    split
    · rw [SortedSet.contains_insert, or_iff_right heq]
    · rw [SortedSet.contains_erase, and_iff_right heq]

theorem Marks.erase (h : Marks documentSet mutatedKeys) (key : DocumentKey) :
    Marks (documentSet.erase key) (mutatedKeys.erase key) := by
  intro other
  rw [Ranked.find_erase, SortedSet.contains_erase]
  split
  · rename_i heq
    exact iff_of_false (fun hcontains => hcontains.1 heq) (by simp)
  · rename_i hne
    rw [and_iff_right hne]
    exact h other

end Marking

/-- The changes tell what became of the documents the view showed, and the marks are right. -/
structure Sound (base : DocumentSet query) (state : ViewDocumentChanges query) : Prop where
  records : Records base state.documentSet state.changeSet
  marks : Marks state.documentSet state.mutatedKeys

theorem ViewDocumentChanges.add_eq {state : ViewDocumentChanges query} {change : DocumentViewChange}
    {changes : DocumentViewChangeSet} (h : state.changeSet.addChange change = some changes) :
    state.add change = some { state with changeSet := changes } := by
  rw [add, h]
  rfl

section Pass

variable {base : DocumentSet query} {state : ViewDocumentChanges query} {key : DocumentKey}
  {doc : Document}

theorem Sound.present (h : Sound base state) (hkey : doc.key = key) {type : ChangeType}
    (hchange : Happens (state.documentSet.find key) (some doc) ⟨doc, type⟩) :
    ∃ added, state.add ⟨doc, type⟩ = some added ∧ Sound base (added.present doc)
      ∧ (∀ other, (added.present doc).documentSet.find other
          = if other = key then some doc else state.documentSet.find other)
      ∧ added.needsRefill = state.needsRefill := by
  subst hkey
  have hkey : (⟨doc, type⟩ : DocumentViewChange).document.key = doc.key := rfl
  obtain ⟨merged, hmerged, hrecorded⟩ := h.records.addChange hkey hchange
  have hfind := find_insert_document state.documentSet doc
  exact ⟨_, ViewDocumentChanges.add_eq hmerged,
    ⟨h.records.replace hrecorded hfind, h.marks.insert doc⟩, hfind, rfl⟩

theorem Sound.hide (h : Sound base state) (hkey : doc.key = key)
    (hdoc : state.documentSet.find key = some doc) :
    ∃ added, state.add ⟨doc, .removed⟩ = some added ∧ Sound base (added.hide key)
      ∧ (added.hide key).documentSet = state.documentSet.erase key
      ∧ added.needsRefill = state.needsRefill := by
  subst hkey
  have hkey : (⟨doc, .removed⟩ : DocumentViewChange).document.key = doc.key := rfl
  have hchange : Happens (state.documentSet.find doc.key) none ⟨doc, .removed⟩ :=
    hdoc ▸ Happens.removed doc
  obtain ⟨merged, hmerged, hrecorded⟩ := h.records.addChange hkey hchange
  exact ⟨_, ViewDocumentChanges.add_eq hmerged,
    ⟨h.records.replace hrecorded (Ranked.find_erase _ _), h.marks.erase doc.key⟩, rfl, rfl⟩

end Pass

/-! ### A pass over the changed documents -/

/-- What is shown of a document after a pass that was told of it. -/
def shownAfter (mutated : Bool) (oldDoc newDoc : Option Document) : Option Document :=
  match oldDoc, newDoc with
  | some oldDoc, some newDoc =>
      if oldDoc.data ≠ newDoc.data then
        if shouldWaitForSyncedDocument newDoc oldDoc then some oldDoc else some newDoc
      else if mutated ≠ (newDoc.hasLocalMutations || mutated && newDoc.hasCommittedMutations) then
        some newDoc
      else some oldDoc
  | none, newDoc => newDoc
  | some _, none => none

/-- Whether a change can let in documents from outside the limit. -/
def leavesLimit (oldDocumentSet : DocumentSet query) (oldDoc newDoc : Option Document) : Bool :=
  match oldDoc, newDoc with
  | some oldDoc, some newDoc =>
      oldDoc.data ≠ newDoc.data && !shouldWaitForSyncedDocument newDoc oldDoc
        && outsideLimit oldDocumentSet newDoc
  | some _, none =>
      (lastDocInLimit oldDocumentSet).isSome || (firstDocInLimit oldDocumentSet).isSome
  | none, _ => false

theorem key_of_newDocument {key : DocumentKey} {maybeNewDoc : MaybeDocument}
    {newDoc : Option Document} (h : newDocument query key maybeNewDoc = some newDoc) :
    ∀ doc ∈ newDoc, doc.key = key := by
  intro doc hdoc
  unfold newDocument at h
  split at h
  · split at h
    · rename_i hkey
      cases h
      obtain ⟨hsome, -⟩ := Option.filter_eq_some_iff.mp hdoc
      cases hsome
      exact hkey.symm
    · cases h
  · cases h
    cases hdoc

section Step

variable {base oldDocumentSet : DocumentSet query} {oldMutatedKeys : SortedSet DocumentKey}
  {state : ViewDocumentChanges query} {key : DocumentKey} {maybeNewDoc : MaybeDocument}
  {newDoc : Option Document}

/-- A document of which the pass was not told before. -/
theorem applyDocumentChange_eq (h : Sound base state)
    (hsame : state.documentSet.find key = oldDocumentSet.find key)
    (hnew : newDocument query key maybeNewDoc = some newDoc) :
    ∃ next, applyDocumentChange oldDocumentSet oldMutatedKeys state key maybeNewDoc = some next
      ∧ Sound base next
      ∧ (∀ other, next.documentSet.find other
          = if other = key then
              shownAfter (oldMutatedKeys.contains key) (oldDocumentSet.find key) newDoc
            else state.documentSet.find other)
      ∧ next.needsRefill
          = (state.needsRefill || leavesLimit oldDocumentSet (oldDocumentSet.find key) newDoc) := by
  have hnewKey := key_of_newDocument hnew
  have hunchanged (shown : Option Document) (hshown : oldDocumentSet.find key = shown)
      (other : DocumentKey) : state.documentSet.find other
        = if other = key then shown else state.documentSet.find other := by
    split
    · rename_i heq
      rw [heq, hsame, hshown]
    · rfl
  unfold applyDocumentChange
  simp only [hnew, Option.bind_eq_bind, Option.bind_some]
  cases hold : oldDocumentSet.find key with
  | none =>
      cases newDoc with
      | none => exact ⟨state, rfl, h, hunchanged none hold, (Bool.or_false _).symm⟩
      | some newDoc =>
          have hchange : Happens (state.documentSet.find key) (some newDoc) ⟨newDoc, .added⟩ := by
            rw [hsame, hold]
            exact .added newDoc
          obtain ⟨added, hadded, hsound, hfind, hrefill⟩ := h.present (hnewKey newDoc rfl) hchange
          refine ⟨added.present newDoc, ?_, hsound, hfind, hrefill.trans (Bool.or_false _).symm⟩
          dsimp only
          rw [hadded]
          rfl
  | some oldDoc =>
      cases newDoc with
      | none =>
          have holdKey : oldDoc.key = key := Ranked.key_of_find hold
          obtain ⟨added, hadded, hsound, hset, hrefill⟩ := h.hide holdKey (hsame.trans hold)
          refine ⟨(added.hide key).refill
            ((lastDocInLimit oldDocumentSet).isSome || (firstDocInLimit oldDocumentSet).isSome),
            ?_, ⟨hsound.records, hsound.marks⟩, fun other => ?_, ?_⟩
          · dsimp only
            rw [hadded]
            rfl
          · exact (congrArg (Ranked.find · other) hset).trans (Ranked.find_erase _ _ _)
          · exact congrArg (· || _) hrefill
      | some newDoc =>
          unfold shownAfter leavesLimit
          dsimp only
          by_cases hdata : oldDoc.data ≠ newDoc.data
          · rw [if_pos hdata, if_pos hdata, decide_eq_true hdata]
            cases hwait : shouldWaitForSyncedDocument newDoc oldDoc with
            | true => exact ⟨state, rfl, h, hunchanged (some oldDoc) hold, (Bool.or_false _).symm⟩
            | false =>
                have hchange :
                    Happens (state.documentSet.find key) (some newDoc) ⟨newDoc, .modified⟩ := by
                  rw [hsame, hold]
                  exact .modified oldDoc newDoc
                obtain ⟨added, hadded, hsound, hfind, hrefill⟩ :=
                  h.present (hnewKey newDoc rfl) hchange
                refine ⟨(added.present newDoc).refill (outsideLimit oldDocumentSet newDoc), ?_,
                  ⟨hsound.records, hsound.marks⟩, hfind, congrArg (· || _) hrefill⟩
                rw [if_neg Bool.false_ne_true, hadded]
                rfl
          · rw [if_neg hdata, if_neg hdata, decide_eq_false hdata]
            have hsameData : newDoc.data = oldDoc.data := (not_not.mp hdata).symm
            have hpending : ((some oldDoc).isSome && oldMutatedKeys.contains key)
                = oldMutatedKeys.contains key := Bool.true_and _
            rw [hpending, Option.any_some]
            split
            · have hchange :
                  Happens (state.documentSet.find key) (some newDoc) ⟨newDoc, .metadata⟩ := by
                rw [hsame, hold]
                exact .metadata oldDoc newDoc hsameData
              obtain ⟨added, hadded, hsound, hfind, hrefill⟩ :=
                h.present (hnewKey newDoc rfl) hchange
              refine ⟨added.present newDoc, ?_, hsound, hfind, hrefill.trans (Bool.or_false _).symm⟩
              rw [hadded]
              rfl
            · exact ⟨state, rfl, h, hunchanged (some oldDoc) hold, (Bool.or_false _).symm⟩

end Step

section Fold

variable {base oldDocumentSet : DocumentSet query} {state : ViewDocumentChanges query}

/-- What the view is told of a document. -/
def told (query : Query) (maybeDoc : MaybeDocument) : Option Document :=
  maybeDoc.toDocument.filter query.matches

theorem newDocument_eq {key : DocumentKey} {maybeDoc : MaybeDocument}
    (h : ∀ doc ∈ maybeDoc.toDocument, doc.key = key) :
    newDocument query key maybeDoc = some (told query maybeDoc) := by
  unfold newDocument told
  cases hdoc : maybeDoc.toDocument with
  | none => rfl
  | some doc => exact if_pos (h doc hdoc).symm

/-- The documents are at their own keys. -/
def Keyed (entries : List (DocumentKey × MaybeDocument)) : Prop :=
  ∀ entry ∈ entries, ∀ doc ∈ entry.2.toDocument, doc.key = entry.1

/-- A pass over changed documents, each told once. -/
theorem foldlM_applyDocumentChange (oldMutatedKeys : SortedSet DocumentKey)
    {entries : List (DocumentKey × MaybeDocument)} (hsorted : Entries.Sorted entries)
    (hkeyed : Keyed entries) (h : Sound base state)
    (hsame : ∀ entry ∈ entries, state.documentSet.find entry.1 = oldDocumentSet.find entry.1) :
    ∃ next, entries.foldlM
        (fun state entry => applyDocumentChange oldDocumentSet oldMutatedKeys state entry.1 entry.2)
        state = some next
      ∧ Sound base next
      ∧ (∀ entry ∈ entries, next.documentSet.find entry.1
          = shownAfter (oldMutatedKeys.contains entry.1) (oldDocumentSet.find entry.1)
              (told query entry.2))
      ∧ (∀ key, (∀ entry ∈ entries, entry.1 ≠ key) →
          next.documentSet.find key = state.documentSet.find key)
      ∧ next.needsRefill = (state.needsRefill || entries.any fun entry =>
          leavesLimit oldDocumentSet (oldDocumentSet.find entry.1) (told query entry.2)) := by
  induction entries generalizing state with
  | nil => exact ⟨state, rfl, h, by simp, fun _ _ => rfl, (Bool.or_false _).symm⟩
  | cons entry entries ih =>
      obtain ⟨hfirst, hrest⟩ := List.forall_mem_cons.mp hsame
      obtain ⟨hkey, hkeyed⟩ := List.forall_mem_cons.mp hkeyed
      obtain ⟨hhead, htail⟩ := List.pairwise_cons.mp hsorted
      obtain ⟨next, hnext, hsound, hfind, hrefill⟩ := applyDocumentChange_eq h hfirst
        (newDocument_eq hkey)
      obtain ⟨last, hlast, hsound, htold, hother, hrefillLast⟩ := ih htail hkeyed hsound
        fun other hmem => by rw [hfind, if_neg (hhead other hmem).ne', hrest other hmem]
      refine ⟨last, ?_, hsound, List.forall_mem_cons.mpr ⟨?_, htold⟩, fun key hnot => ?_, ?_⟩
      · rw [List.foldlM_cons, hnext]
        exact hlast
      · rw [hother entry.1 fun other hmem => (hhead other hmem).ne', hfind, if_pos rfl]
      · obtain ⟨hne, hnot⟩ := List.forall_mem_cons.mp hnot
        rw [hother key hnot, hfind, if_neg hne.symm]
      · rw [hrefillLast, hrefill, List.any_cons, Bool.or_assoc]

end Fold

/-! ### Meeting the limit -/

/-- The documents inside the limit of a query. -/
def Query.clip (query : Query) (documents : List Document) : List Document :=
  match query.limitType with
  | .none => documents
  | .first => documents.take query.limit
  | .last => documents.rtake query.limit

section Drop

variable {base : DocumentSet query} {state : ViewDocumentChanges query}

/-- The documents without the outermost ones. -/
def withoutOutermost (query : Query) (count : ℕ) (documents : List Document) : List Document :=
  if query.limitType = .first then documents.take (documents.length - count)
  else documents.drop count

theorem dropDocuments_eq (h : Sound base state) {count : ℕ}
    (hcount : count ≤ state.documentSet.size) :
    ∃ next, dropDocuments count state = some next ∧ Sound base next
      ∧ next.documentSet.elements = withoutOutermost query count state.documentSet.elements
      ∧ next.needsRefill = state.needsRefill := by
  induction count generalizing state with
  | zero =>
      refine ⟨state, rfl, h, ?_, rfl⟩
      simp [withoutOutermost]
  | succ count ih =>
      obtain ⟨oldDoc, hold, helements⟩ : ∃ oldDoc, outermost state.documentSet = some oldDoc
          ∧ (state.documentSet.erase oldDoc.key).elements
            = if query.limitType = .first then state.documentSet.elements.dropLast
              else state.documentSet.elements.tail := by
        have hne : state.documentSet.elements ≠ [] :=
          List.ne_nil_of_length_pos (Nat.lt_of_lt_of_le (Nat.succ_pos count) hcount)
        unfold outermost
        split
        · have hlast := List.getLast?_eq_some_getLast hne
          exact ⟨_, hlast, Ranked.elements_erase_last hlast⟩
        · have hfirst := List.head?_eq_some_head hne
          exact ⟨_, hfirst, Ranked.elements_erase_first hfirst⟩
      have hfind : state.documentSet.find oldDoc.key = some oldDoc := by
        refine Ranked.mem_iff.mp ?_
        unfold outermost at hold
        split at hold
        · exact List.mem_of_getLast? hold
        · exact List.mem_of_head? hold
      obtain ⟨added, hadded, hsound, hset, hrefill⟩ := h.hide rfl hfind
      have hsize : (added.hide oldDoc.key).documentSet.size = state.documentSet.size - 1 := by
        rw [hset, Ranked.size, helements]
        split <;> simp [Ranked.size]
      obtain ⟨next, hnext, hsound, hdropped, hkept⟩ := ih hsound (by omega)
      refine ⟨next, ?_, hsound, ?_, hkept.trans hrefill⟩
      · rw [dropDocuments, hold]
        simp only [Option.bind_eq_bind, Option.bind_some, hadded]
        exact hnext
      · rw [hdropped, hset, helements]
        unfold withoutOutermost
        split
        · rw [List.length_dropLast, List.dropLast_eq_take, List.take_take]
          congr 1
          omega
        · rw [List.drop_tail]

theorem dropDocuments_overLimit (h : Sound base state) :
    ∃ next, dropDocuments (overLimit state.documentSet) state = some next ∧ Sound base next
      ∧ next.documentSet.elements = query.clip state.documentSet.elements
      ∧ next.needsRefill = state.needsRefill := by
  have hcount : overLimit state.documentSet ≤ state.documentSet.size := by
    unfold overLimit
    split
    · exact Nat.zero_le _
    · exact Nat.sub_le _ _
  obtain ⟨next, hnext, hsound, helements, hrefill⟩ := dropDocuments_eq h hcount
  refine ⟨next, hnext, hsound, ?_, hrefill⟩
  rw [helements, withoutOutermost, overLimit, Query.clip, Ranked.size]
  cases query.limitType with
  | none => simp
  | first =>
      simp only [reduceCtorEq, if_false, if_true]
      obtain hle | hlt := Nat.le_total state.documentSet.elements.length query.limit
      · rw [Nat.sub_eq_zero_of_le hle, Nat.sub_zero, List.take_length, List.take_of_length_le hle]
      · rw [Nat.sub_sub_self hlt]
  | last => simp [List.rtake]

end Drop

end ProductivityApp.Firestore
