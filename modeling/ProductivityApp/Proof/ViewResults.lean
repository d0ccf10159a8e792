import ProductivityApp.Proof.QueryResults
import ProductivityApp.Proof.ViewChanges

/-!
# What a view shows

A view shows the documents of the store that match its query, up to the limit, in the order of the
query. A shown document has the contents and the local mutations of the one in the store, except
that one with an acknowledged write is shown as it was written until Watch has sent it. Documents
beyond the limit are unknown to the view, which runs its query again when one of them may have to be
shown.
-/

namespace ProductivityApp.Firestore

open LocalStore

variable {query : Query}

/-! ### One document -/

/-- What may be shown of a document in the store. -/
inductive Shows : Option Document → Option Document → Prop
  | absent : Shows none none
  | current {shown stored : Document} (hdata : shown.data = stored.data)
      (hlocal : shown.hasLocalMutations = stored.hasLocalMutations) :
      Shows (some shown) (some stored)
  | waiting {shown stored : Document} (hshown : shown.hasLocalMutations = true)
      (hstored : stored.hasCommittedMutations = true) : Shows (some shown) (some stored)

section One

variable {shown stored : Option Document} {mutated : Bool}

theorem Shows.refl (doc : Option Document) : Shows doc doc := by
  cases doc with
  | none => exact .absent
  | some doc => exact .current rfl rfl

theorem Shows.trans_sameContents {other : Option Document} (h : Shows shown stored)
    (hsame : SameContents stored other) : Shows shown other := by
  cases other with
  | none =>
      cases h with
      | absent => exact .absent
      | current hdata hlocal => cases hsame
      | waiting hshown hstored => cases hsame
  | some other =>
      cases h with
      | absent => cases hsame
      | current hdata hlocal =>
          obtain ⟨-, hother, hstate⟩ := Prod.mk.inj (Option.some.inj hsame) |>.imp_right Prod.mk.inj
          refine .current (hdata.trans hother) (hlocal.trans ?_)
          rw [Document.hasLocalMutations, hstate]
          rfl
      | waiting hshown hstored =>
          obtain ⟨-, -, hstate⟩ := Prod.mk.inj (Option.some.inj hsame) |>.imp_right Prod.mk.inj
          refine .waiting hshown ?_
          rw [Document.hasCommittedMutations, hstate] at hstored
          exact hstored

/-- What a pass shows of a document, if it knows whether the document had local mutations. -/
theorem shows_shownAfter (hmutated : ∀ doc ∈ shown, mutated = doc.hasLocalMutations) :
    Shows (shownAfter mutated shown stored) stored := by
  cases shown with
  | none => exact Shows.refl stored
  | some old =>
      cases stored with
      | none => exact .absent
      | some new =>
          have hmutated := hmutated old rfl
          simp only [shownAfter]
          split
          · split
            · rename_i hwait
              obtain ⟨hboth, -⟩ := Bool.and_eq_true_iff.mp hwait
              obtain ⟨hlocal, hcommitted⟩ := Bool.and_eq_true_iff.mp hboth
              exact .waiting hlocal hcommitted
            · exact Shows.refl _
          · rename_i hdata
            split
            · exact Shows.refl _
            · rename_i hpending
              have hpending := not_not.mp hpending
              cases hlocal : old.hasLocalMutations with
              | false =>
                  rw [hmutated, hlocal, Bool.false_and, Bool.or_false] at hpending
                  exact .current (not_not.mp hdata) (hlocal.trans hpending)
              | true =>
                  rw [hmutated, hlocal, Bool.true_and] at hpending
                  obtain hnew | hnew := Bool.or_eq_true_iff.mp hpending.symm
                  · exact .current (not_not.mp hdata) (hlocal.trans hnew.symm)
                  · exact .waiting hlocal hnew

theorem shows_shownAfter_of_shows (h : ∀ doc, shown = some doc → Shows (some doc) stored) :
    Shows (shownAfter mutated shown stored) stored := by
  cases shown with
  | none => exact Shows.refl stored
  | some old =>
      have hold := h old rfl
      cases stored with
      | none => exact .absent
      | some new =>
          simp only [shownAfter]
          split
          · split
            · exact hold
            · exact Shows.refl _
          · split
            · exact Shows.refl _
            · exact hold

/-- Where a document that goes on being shown is, unless it moves. -/
theorem shownAfter_cases (documentSet : DocumentSet query) (old new : Document) :
    ∃ doc, shownAfter mutated (some old) (some new) = some doc
      ∧ (doc = old ∨ doc = new ∧ new.data = old.data
        ∨ doc = new ∧ leavesLimit documentSet (some old) (some new)
          = outsideLimit documentSet new) := by
  simp only [shownAfter, leavesLimit]
  split
  · rename_i hdata
    split
    · exact ⟨old, rfl, Or.inl rfl⟩
    · rename_i hwait
      refine ⟨new, rfl, Or.inr (Or.inr ⟨rfl, ?_⟩)⟩
      rw [decide_eq_true hdata, Bool.of_not_eq_true hwait]
      rfl
  · rename_i hdata
    split
    · exact ⟨new, rfl, Or.inr (Or.inl ⟨rfl, (not_not.mp hdata).symm⟩)⟩
    · exact ⟨old, rfl, Or.inl rfl⟩

theorem shownAfter_mem {doc : Document} (h : doc ∈ shownAfter mutated shown stored) :
    shown = some doc ∨ stored = some doc := by
  unfold shownAfter at h
  split at h
  · split at h
    · split at h
      · exact Or.inl h
      · exact Or.inr h
    · split at h
      · exact Or.inr h
      · exact Or.inl h
  · exact Or.inr h
  · cases h

theorem leavesLimit_eq_of_shows {new : Document} (documentSet : DocumentSet query)
    (h : ∀ doc, shown = some doc → Shows (some doc) (some new)) :
    leavesLimit documentSet shown (some new) = false := by
  cases shown with
  | none => rfl
  | some old =>
      cases h old rfl with
      | current hdata hlocal => simp [leavesLimit, hdata]
      | waiting hshown hstored =>
          have hlocal : new.hasLocalMutations = false := by
            rw [Document.hasCommittedMutations, decide_eq_true_iff] at hstored
            rw [Document.hasLocalMutations, hstored]
            rfl
          simp [leavesLimit, shouldWaitForSyncedDocument, hshown, hstored, hlocal]

end One

/-! ### One pass -/

section Pass

variable {base whole next pool window : DocumentSet query} {docChanges : MaybeDocumentMap}

theorem computeDocumentChanges_eq {view : View query}
    {previous : Option (ViewDocumentChanges query)} (h : Sound base (view.startChanges previous))
    (hkeyed : Keyed docChanges.entries) :
    ∃ (pool : DocumentSet query) (next : ViewDocumentChanges query),
      (∀ key, pool.find key
          = (docChanges.find key).elim ((view.startChanges previous).documentSet.find key)
            fun maybeDoc => shownAfter (view.mutatedKeys.contains key)
              ((view.startChanges previous).documentSet.find key) (told query maybeDoc))
      ∧ Sound base next ∧ next.documentSet.elements = query.clip pool.elements
      ∧ next.needsRefill = (docChanges.entries.any fun entry =>
          leavesLimit (view.startChanges previous).documentSet
            ((view.startChanges previous).documentSet.find entry.1) (told query entry.2))
      ∧ view.computeDocumentChanges docChanges previous
          = if next.needsRefill && previous.isSome then none else some next := by
  have hstart : (view.startChanges previous).needsRefill = false := by
    unfold View.startChanges
    split <;> rfl
  obtain ⟨state, hstate, hsound, htold, hother, hrefill⟩ :=
    foldlM_applyDocumentChange view.mutatedKeys docChanges.sorted hkeyed h fun _ _ => rfl
  obtain ⟨next, hnext, hsound, helements, hkept⟩ := dropDocuments_overLimit hsound
  refine ⟨state.documentSet, next, fun key => ?_, hsound, helements, ?_, ?_⟩
  · cases hfind : docChanges.find key with
    | none =>
        refine hother key fun entry hmem heq => ?_
        rw [← heq, SortedMap.find_eq_some_iff.mpr hmem] at hfind
        cases hfind
    | some maybeDoc => exact htold _ (SortedMap.find_eq_some_iff.mp hfind)
  · rw [hkept, hrefill, hstart, Bool.false_or]
  · rw [View.computeDocumentChanges]
    simp only [hstate, Option.bind_eq_bind, Option.bind_some, hnext]
    rfl

/-- What becomes of a document in a full window, if the query need not be run again. -/
theorem exists_kept (mutated : DocumentKey → Bool) {doc : Document}
    (hdoc : doc ∈ window.elements) {maybeDoc : MaybeDocument}
    (hchange : docChanges.find doc.key = some maybeDoc)
    (hnext : next.find doc.key = shownAfter (mutated doc.key) (window.find doc.key)
      (told query maybeDoc))
    (hrefill : leavesLimit window (window.find doc.key) (told query maybeDoc) = false)
    (hfull : ((lastDocInLimit window).isSome || (firstDocInLimit window).isSome) = true) :
    ∃ after, next.find doc.key = some after
      ∧ ((after.key = doc.key ∧ after.data = doc.data) ∨ outsideLimit window after = false) := by
  have hfind : window.find doc.key = some doc := Ranked.mem_iff.mp hdoc
  rw [hfind] at hnext hrefill
  cases htold : told query maybeDoc with
  | none =>
      rw [htold] at hrefill
      exact absurd (hrefill.symm.trans hfull) Bool.false_ne_true
  | some new =>
      rw [htold] at hnext hrefill
      obtain ⟨after, hafter, hcases⟩ :=
        @shownAfter_cases query (mutated doc.key) window doc new
      rw [hafter] at hnext
      refine ⟨after, hnext, ?_⟩
      obtain rfl | ⟨rfl, hdata⟩ | ⟨rfl, houtside⟩ := hcases
      · exact Or.inl ⟨rfl, rfl⟩
      · exact Or.inl ⟨Ranked.key_of_find hnext, hdata⟩
      · exact Or.inr (houtside.symm.trans hrefill)

/-- **A window stays a window.** A view that is told of all changes, and need not run its query
again, shows what is inside the limit of all documents. -/
theorem clip_eq_of_not_refill {mutated : DocumentKey → Bool}
    (hwindow : window.elements = query.clip whole.elements)
    (hpool : ∀ key, pool.find key = (docChanges.find key).elim (window.find key)
      fun maybeDoc => shownAfter (mutated key) (window.find key) (told query maybeDoc))
    (hnext : ∀ key, next.find key = (docChanges.find key).elim (whole.find key)
      fun maybeDoc => shownAfter (mutated key) (window.find key) (told query maybeDoc))
    (hrefill : ∀ key maybeDoc, docChanges.find key = some maybeDoc →
      leavesLimit window (window.find key) (told query maybeDoc) = false) :
    query.clip pool.elements = query.clip next.elements := by
  have hchanged : ∀ key, (docChanges.find key).isSome = true → pool.find key = next.find key := by
    intro key hsome
    obtain ⟨maybeDoc, hfind⟩ := Option.isSome_iff_exists.mp hsome
    rw [hpool, hnext, hfind]
    rfl
  have hsame : ∀ key, ¬(docChanges.find key).isSome = true →
      pool.find key = window.find key ∧ next.find key = whole.find key := by
    intro key hnone
    rw [hpool, hnext, Option.not_isSome_iff_eq_none.mp hnone]
    exact ⟨rfl, rfl⟩
  have hkept : ∀ doc ∈ window.elements, (docChanges.find doc.key).isSome = true →
      ((lastDocInLimit window).isSome || (firstDocInLimit window).isSome) = true →
      ∃ after, next.find doc.key = some after
        ∧ ((after.key = doc.key ∧ after.data = doc.data) ∨ outsideLimit window after = false) := by
    intro doc hdoc hsome hfull
    obtain ⟨maybeDoc, hfind⟩ := Option.isSome_iff_exists.mp hsome
    refine exists_kept mutated hdoc hfind ?_ (hrefill doc.key maybeDoc hfind) hfull
    rw [hnext, hfind]
    rfl
  unfold Query.clip at hwindow ⊢
  cases hlimit : query.limitType with
  | none =>
      rw [hlimit] at hwindow
      have hwhole : window.elements = whole.elements := hwindow
      refine congrArg Ranked.elements (Ranked.ext fun key => ?_)
      by_cases hsome : (docChanges.find key).isSome = true
      · exact hchanged key hsome
      · obtain ⟨hfind, hfindNext⟩ := hsame key hsome
        rw [hfind, hfindNext, Ranked.find, Ranked.find, hwhole]
  | first =>
      rw [hlimit] at hwindow
      refine Ranked.take_eq_take_of_changed hwindow hchanged hsame ?_
      intro last hsize hlast doc hdoc hsome
      have hlastDoc : lastDocInLimit window = some last := by
        rw [lastDocInLimit, hlimit, hsize, hlast]
        simp
      obtain ⟨after, hafter, hcases⟩ := hkept doc hdoc hsome (by rw [hlastDoc]; rfl)
      refine ⟨after, hafter, ?_⟩
      obtain hstays | houtside := hcases
      · have hcompare := query.comparator_congr (a := last) ⟨rfl, rfl⟩ hstays
        have hnot := Ranked.not_before_getLast hlast hdoc
        exact fun hbefore => hnot (hcompare.symm.trans hbefore)
      · intro hbefore
        have hgt : query.comparator after last = .gt := Std.OrientedCmp.gt_of_lt hbefore
        rw [outsideLimit, hlastDoc, Option.any_some, hgt] at houtside
        cases houtside
  | last =>
      rw [hlimit] at hwindow
      have hreversed : window.reverse.elements = whole.reverse.elements.take query.limit := by
        have hreverse := congrArg List.reverse hwindow
        rwa [List.rtake_eq_reverse_take_reverse, List.reverse_reverse] at hreverse
      have htake : pool.reverse.elements.take query.limit
          = next.reverse.elements.take query.limit := by
        refine Ranked.take_eq_take_of_changed hreversed
          (fun key (hsome : (docChanges.find key).isSome = true) => ?_) (fun key hnone => ?_) ?_
        · rw [Ranked.find_reverse, Ranked.find_reverse, hchanged key hsome]
        · simp only [Ranked.find_reverse]
          exact hsame key hnone
        · intro first hsize hfirst doc hdoc hsome
          have hfirstDoc : firstDocInLimit window = some first := by
            rw [Ranked.size_reverse] at hsize
            rw [Ranked.last_reverse] at hfirst
            rw [firstDocInLimit, hlimit, hsize, hfirst]
            simp
          obtain ⟨after, hafter, hcases⟩ := hkept doc (List.mem_reverse.mp hdoc) hsome
            (by rw [hfirstDoc, Option.isSome_some, Bool.or_true])
          refine ⟨after, (Ranked.find_reverse next _).trans hafter, ?_⟩
          obtain hstays | houtside := hcases
          · have hcompare := query.comparator_congr (b := first) hstays ⟨rfl, rfl⟩
            have hnot := Ranked.not_before_getLast hfirst hdoc
            exact fun hbefore => hnot (hcompare.symm.trans hbefore)
          · intro hbefore
            have hlt : query.comparator after first = .lt := hbefore
            rw [outsideLimit, hfirstDoc, Option.any_some, hlt] at houtside
            simp at houtside
      rw [List.rtake_eq_reverse_take_reverse, List.rtake_eq_reverse_take_reverse]
      exact congrArg List.reverse htake

end Pass

/-! ### Running the query -/

/-- What the store has of a document for a query. -/
def LocalStore.stored (store : LocalStore) (query : Query) (key : DocumentKey) : Option Document :=
  (store.document key).filter query.matches

/-- A set of documents of which the view shows what is inside the limit. -/
def IsWhole (store : LocalStore) (whole : DocumentSet query) : Prop :=
  ∀ key, Shows (whole.find key) (store.stored query key)

theorem mem_of_mem_clip {documents : List Document} {doc : Document}
    (h : doc ∈ query.clip documents) : doc ∈ documents := by
  unfold Query.clip at h
  split at h
  · exact h
  · exact List.mem_of_mem_take h
  · exact List.mem_of_mem_drop h

/-- The queries the store can run: an order on the document of a path is left out, and mutations are
made of plain data. -/
structure Runs (store : LocalStore) (query : Query) : Prop where
  valid : store.Valid
  path : isDocumentKey query.path = true → query.explicitOrderBys = []
  plain : ∀ batch ∈ store.mutationQueue.queue, ∀ mutation ∈ batch.mutations, mutation.Plain

section RunQuery

variable {base : DocumentSet query} {store : LocalStore} {view : View query}
  {previous : Option (ViewDocumentChanges query)} {key : DocumentKey} {doc : Document}

theorem key_stored (h : store.Valid) : ∀ doc ∈ store.stored query key, doc.key = key :=
  fun doc hdoc => h.key_document doc (Option.filter_eq_some_iff.mp hdoc).1

theorem told_of_sameContents (hdoc : SameContents (some doc) (store.stored query key)) :
    told query (.document doc) = some doc := by
  have hfilter := SameContents.filter hdoc query
  have htwice : (store.stored query key).filter query.matches = store.stored query key := by
    cases hstored : store.stored query key with
    | none => rfl
    | some found => exact if_pos (Option.filter_eq_some_iff.mp hstored).2
  rw [htwice] at hfilter
  have hsome := hfilter.isSome_eq.trans hdoc.isSome_eq.symm
  unfold told
  cases hmatches : query.matches doc with
  | true => exact if_pos hmatches
  | false =>
      rw [Option.filter_some, hmatches] at hsome
      cases hsome

/-- Running the query finds every document, whatever of it is shown already. -/
theorem runQuery_eq (hruns : Runs store query) (h : Sound base (view.startChanges previous))
    (hstart : ∀ key doc, (view.startChanges previous).documentSet.find key = some doc →
      Shows (some doc) (store.stored query key)) :
    ∃ (whole : DocumentSet query) (next : ViewDocumentChanges query),
      view.runQuery store previous = some next ∧ Sound base next ∧ next.needsRefill = false
      ∧ IsWhole store whole ∧ next.documentSet.elements = query.clip whole.elements := by
  obtain ⟨results, hresults, hsame⟩ :=
    getDocumentsMatchingQuery_eq hruns.valid hruns.path hruns.plain
  have hdocs (key : DocumentKey) :
      (results.mapValues fun _ doc => MaybeDocument.document doc).find key
        = (results.find key).map MaybeDocument.document := SortedMap.find_mapValues results _ key
  have hfound {key : DocumentKey} {doc : Document} (hfind : results.find key = some doc) :
      SameContents (some doc) (store.stored query key) := hfind ▸ hsame key
  have hshown {key : DocumentKey} {doc : Document} (hfind : results.find key = some doc) :
      ∀ shown, (view.startChanges previous).documentSet.find key = some shown →
        Shows (some shown) (some doc) :=
    fun shown hshown => (hstart key shown hshown).trans_sameContents (hfound hfind).symm
  have hentry : ∀ entry ∈ (results.mapValues fun _ doc => MaybeDocument.document doc).entries,
      ∃ doc, entry.2 = .document doc ∧ results.find entry.1 = some doc := by
    intro entry hmem
    have hfind := hdocs entry.1 ▸ SortedMap.find_eq_some_iff.mpr hmem
    obtain ⟨doc, hfind, hdoc⟩ := Option.map_eq_some_iff.mp hfind
    exact ⟨doc, hdoc.symm, hfind⟩
  have hkeyed : Keyed (results.mapValues fun _ doc => MaybeDocument.document doc).entries := by
    intro entry hmem doc hdoc
    obtain ⟨found, hentry, hfind⟩ := hentry entry hmem
    rw [hentry] at hdoc
    cases hdoc
    cases hstored : store.stored query entry.1 with
    | none =>
        have hsame := hfound hfind
        rw [hstored] at hsame
        cases hsame
    | some stored =>
        have hsame := hfound hfind
        rw [hstored] at hsame
        obtain ⟨hkey, -⟩ := Prod.mk.inj (Option.some.inj hsame)
        exact hkey.trans (key_stored hruns.valid stored hstored)
  obtain ⟨whole, next, hwhole, hsound, helements, hrefill, hcompute⟩ :=
    computeDocumentChanges_eq h hkeyed
  have hnot : next.needsRefill = false := by
    rw [hrefill, List.any_eq_false]
    intro entry hmem
    obtain ⟨doc, hdoc, hfind⟩ := hentry entry hmem
    rw [hdoc, told_of_sameContents (hfound hfind), leavesLimit_eq_of_shows _ (hshown hfind)]
    exact Bool.false_ne_true
  refine ⟨whole, next, ?_, hsound, hnot, fun key => ?_, helements⟩
  · rw [View.runQuery, hresults]
    simp only [Option.bind_eq_bind, Option.bind_some, hcompute, hnot]
    rfl
  · rw [hwhole, hdocs]
    cases hfind : results.find key with
    | some doc =>
        rw [Option.map_some, Option.elim_some, told_of_sameContents (hfound hfind)]
        exact (shows_shownAfter_of_shows (hshown hfind)).trans_sameContents (hfound hfind)
    | none =>
        have hnone : store.stored query key = none := by
          have hsome := (hsame key).isSome_eq
          rw [hfind] at hsome
          exact Option.not_isSome_iff_eq_none.mp (by rw [stored, ← hsome]; simp)
        rw [Option.map_none, Option.elim_none, hnone]
        cases hshown : (view.startChanges previous).documentSet.find key with
        | none => exact .absent
        | some doc =>
            have hshows := hstart key doc hshown
            rw [hnone] at hshows
            cases hshows

end RunQuery

/-! ### Documents that have changed -/

/-- The view shows what is inside the limit, and marks what has local mutations. -/
structure Displays (view : View query) (store : LocalStore) : Prop where
  shows : ∃ whole : DocumentSet query, IsWhole store whole
    ∧ view.documentSet.elements = query.clip whole.elements
  marks : Marks view.documentSet view.mutatedKeys

section Changes

variable {view : View query} {before after : LocalStore} {changes : MaybeDocumentMap}
  {key : DocumentKey} {maybeDoc : MaybeDocument}

theorem told_eq_stored (h : Accounts before after changes)
    (hfind : changes.find key = some maybeDoc) : told query maybeDoc = after.stored query key := by
  have htold := h key
  rw [hfind] at htold
  rw [told, htold]
  rfl

theorem stored_eq_stored (h : Accounts before after changes) (hfind : changes.find key = none) :
    after.stored query key = before.stored query key := by
  have hsame := h key
  rw [hfind] at hsame
  rw [stored, hsame]
  rfl

theorem keyed_of_accounts (hafter : after.Valid) (h : Accounts before after changes) :
    Keyed changes.entries := by
  intro entry hmem doc hdoc
  have htold := h entry.1
  rw [SortedMap.find_eq_some_iff.mpr hmem] at htold
  exact hafter.key_document doc (htold.symm.trans hdoc)

theorem find_of_clip {whole window : DocumentSet query} {doc : Document}
    (h : window.elements = query.clip whole.elements) (hdoc : window.find key = some doc) :
    whole.find key = some doc := by
  obtain ⟨hmem, hkey⟩ := Ranked.find_eq_some_iff.mp hdoc
  exact Ranked.find_eq_some_iff.mpr ⟨mem_of_mem_clip (h ▸ hmem), hkey⟩

theorem Displays.shows_shownAfter (h : Displays view before) (stored : Option Document) :
    Shows (shownAfter (view.mutatedKeys.contains key) (view.documentSet.find key) stored)
      stored := by
  refine Firestore.shows_shownAfter fun doc hdoc => Bool.eq_iff_iff.mpr ?_
  rw [h.marks]
  refine ⟨?_, fun hlocal => ⟨doc, hdoc, hlocal⟩⟩
  rintro ⟨other, hother, hlocal⟩
  cases hother.symm.trans hdoc
  exact hlocal

/-- All documents as a view would show them after changes, if it had no limit. -/
theorem exists_whole (whole : DocumentSet query) (hafter : after.Valid) (view : View query)
    (changes : MaybeDocumentMap) :
    ∃ next : DocumentSet query, ∀ key, next.find key
      = (changes.find key).elim (whole.find key) fun _ =>
          shownAfter (view.mutatedKeys.contains key) (view.documentSet.find key)
            (after.stored query key) := by
  have hkey : ∀ key ∈ changes.keys, ∀ doc ∈ shownAfter (view.mutatedKeys.contains key)
      (view.documentSet.find key) (after.stored query key), query.ranking.key doc = key := by
    intro key _ doc hdoc
    obtain hold | hnew := shownAfter_mem hdoc
    · exact Ranked.key_of_find hold
    · exact key_stored hafter doc hnew
  obtain ⟨next, hnext⟩ := whole.exists_changed changes.keys _ hkey
  refine ⟨next, fun key => (hnext key).trans ?_⟩
  cases hfind : changes.find key with
  | none => exact if_neg fun hmem => by simpa [hfind] using SortedMap.mem_keys.mp hmem
  | some maybeDoc => exact if_pos (SortedMap.mem_keys.mpr (by rw [hfind]; rfl))

/-- What a view has computed when documents of the store have changed. -/
theorem computeChanges_eq (h : Displays view before) (hruns : Runs after query)
    (haccounts : Accounts before after changes) :
    ∃ (whole : DocumentSet query) (next : ViewDocumentChanges query),
      view.computeChanges after changes = some next ∧ Sound view.documentSet next
      ∧ next.needsRefill = false ∧ IsWhole after whole
      ∧ next.documentSet.elements = query.clip whole.elements := by
  obtain ⟨whole, hwhole, hwindow⟩ := h.shows
  have hstart : Sound view.documentSet (view.startChanges none) :=
    ⟨fun key => .unchanged _, h.marks⟩
  obtain ⟨pool, first, hpool, hfirst, helements, hrefill, hcompute⟩ :=
    computeDocumentChanges_eq hstart (keyed_of_accounts hruns.valid haccounts)
  rw [Option.isSome_none, Bool.and_false, if_neg Bool.false_ne_true] at hcompute
  cases hneeded : first.needsRefill with
  | false =>
      obtain ⟨next, hnext⟩ := exists_whole whole hruns.valid view changes
      have hpool : ∀ key, pool.find key = (changes.find key).elim (view.documentSet.find key)
          fun maybeDoc => shownAfter (view.mutatedKeys.contains key) (view.documentSet.find key)
            (told query maybeDoc) := hpool
      have htold : ∀ key, next.find key = (changes.find key).elim (whole.find key)
          fun maybeDoc => shownAfter (view.mutatedKeys.contains key) (view.documentSet.find key)
            (told query maybeDoc) := by
        intro key
        rw [hnext]
        cases hfind : changes.find key with
        | none => rfl
        | some maybeDoc =>
            rw [Option.elim_some, Option.elim_some, told_eq_stored haccounts hfind]
      have hstays : ∀ key maybeDoc, changes.find key = some maybeDoc →
          leavesLimit view.documentSet (view.documentSet.find key) (told query maybeDoc)
            = false := by
        intro key maybeDoc hfind
        rw [hneeded, eq_comm, List.any_eq_false] at hrefill
        exact Bool.of_not_eq_true (hrefill _ (SortedMap.find_eq_some_iff.mp hfind))
      refine ⟨next, first, ?_, hfirst, hneeded, fun key => ?_,
        helements.trans (clip_eq_of_not_refill hwindow hpool htold hstays)⟩
      · rw [View.computeChanges, hcompute]
        simp only [Option.bind_eq_bind, Option.bind_some, hneeded]
        rfl
      · rw [hnext]
        cases hfind : changes.find key with
        | none =>
            rw [stored_eq_stored haccounts hfind]
            exact hwhole key
        | some maybeDoc => exact h.shows_shownAfter _
  | true =>
      have hshown : ∀ key doc, (view.startChanges (some first)).documentSet.find key = some doc →
          Shows (some doc) (after.stored query key) := by
        intro key doc hdoc
        have hfound := find_of_clip helements hdoc
        rw [hpool] at hfound
        cases hfind : changes.find key with
        | none =>
            rw [hfind] at hfound
            rw [stored_eq_stored haccounts hfind, ← find_of_clip hwindow hfound]
            exact hwhole key
        | some maybeDoc =>
            rw [hfind, Option.elim_some, told_eq_stored haccounts hfind] at hfound
            exact hfound ▸ h.shows_shownAfter _
      have hagain : Sound view.documentSet (view.startChanges (some first)) :=
        ⟨hfirst.records, hfirst.marks⟩
      obtain ⟨whole, next, hrun, hsound, hnot, hwhole, helements⟩ :=
        runQuery_eq hruns hagain hshown
      refine ⟨whole, next, ?_, hsound, hnot, hwhole, helements⟩
      rw [View.computeChanges, hcompute]
      simp only [Option.bind_eq_bind, Option.bind_some, hneeded, if_true, hrun]

end Changes

end ProductivityApp.Firestore
