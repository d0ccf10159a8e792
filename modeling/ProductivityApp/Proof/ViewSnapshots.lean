import ProductivityApp.Proof.ViewResults

/-!
# What a snapshot says

The changes of a snapshot, one after the other, turn the documents of the snapshot before it into
its own, and without a snapshot the documents stay as they are. A view that says it is synced shows
no document but those the backend has for its query and those with local mutations.
-/

namespace ProductivityApp.Firestore

variable {query : Query}

/-! ### Replaying changes -/

/-- The document there is after a change. -/
def DocumentViewChange.outcome (change : DocumentViewChange) : Option Document :=
  match change.type with
  | .removed => none
  | _ => some change.document

section Replay

variable {base current documents : DocumentSet query} {changes : DocumentViewChangeSet}
  {change : DocumentViewChange} {list : List DocumentViewChange} {key : DocumentKey}

theorem find_replay (documents : DocumentSet query) (change : DocumentViewChange)
    (key : DocumentKey) :
    (documents.replay change).find key
      = if key = change.document.key then change.outcome else documents.find key := by
  unfold DocumentSet.replay DocumentViewChange.outcome
  cases change.type with
  | removed => exact Ranked.find_erase _ _ _
  | added => exact find_insert_document _ _ _
  | modified => exact find_insert_document _ _ _
  | metadata => exact find_insert_document _ _ _

theorem find_foldl_replay_of_ne (h : ∀ change ∈ list, change.document.key ≠ key) :
    (list.foldl DocumentSet.replay documents).find key = documents.find key := by
  induction list generalizing documents with
  | nil => rfl
  | cons change list ih =>
      obtain ⟨hfirst, hrest⟩ := List.forall_mem_cons.mp h
      rw [List.foldl_cons, ih hrest, find_replay, if_neg hfirst.symm]

theorem find_foldl_replay (hkeys : (list.map fun change => change.document.key).Nodup)
    (hmem : change ∈ list) :
    (list.foldl DocumentSet.replay documents).find change.document.key = change.outcome := by
  induction list generalizing documents with
  | nil => cases hmem
  | cons first list ih =>
      obtain ⟨hnot, hkeys⟩ := List.nodup_cons.mp hkeys
      rw [List.foldl_cons]
      cases hmem with
      | head =>
          have hne : ∀ other ∈ list, other.document.key ≠ change.document.key :=
            fun other hother heq => hnot (List.mem_map.mpr ⟨other, hother, heq⟩)
          rw [find_foldl_replay_of_ne hne, find_replay, if_pos rfl]
      | tail _ hmem => exact ih hkeys hmem

theorem Records.outcome_eq (h : Records base current changes)
    (hfind : changes.find key = some change) :
    change.document.key = key ∧ current.find key = change.outcome := by
  have hrecorded := h key
  rw [hfind] at hrecorded
  generalize base.find key = before at hrecorded
  generalize hcurrent : current.find key = after at hrecorded ⊢
  cases hrecorded with
  | added doc => exact ⟨Ranked.key_of_find hcurrent, rfl⟩
  | modified before doc => exact ⟨Ranked.key_of_find hcurrent, rfl⟩
  | metadata before doc hdata => exact ⟨Ranked.key_of_find hcurrent, rfl⟩
  | removed before doc hkey => exact ⟨hkey, rfl⟩

/-- Recorded changes lead from the one set of documents to the other, in any order. -/
theorem Records.foldl_replay (h : Records base current changes)
    (hperm : list.Perm (changes.entries.map Prod.snd)) :
    list.foldl DocumentSet.replay base = current := by
  have hentry : ∀ entry ∈ changes.entries, entry.2.document.key = entry.1 :=
    fun entry hmem => (h.outcome_eq (SortedMap.find_eq_some_iff.mpr hmem)).1
  have hkeys : (list.map fun change => change.document.key).Nodup := by
    have hmap : (changes.entries.map Prod.snd).map (fun change => change.document.key)
        = changes.keys := List.map_map.trans (List.map_congr_left hentry)
    rw [(hperm.map _).nodup_iff, hmap, SortedMap.keys, List.nodup_iff_pairwise_ne,
      List.pairwise_map]
    exact changes.sorted.imp fun hlt => hlt.ne
  refine Ranked.ext fun key => ?_
  cases hfind : changes.find key with
  | some change =>
      obtain ⟨rfl, houtcome⟩ := h.outcome_eq hfind
      have hmem : change ∈ list := hperm.mem_iff.mpr
        (List.mem_map.mpr ⟨_, SortedMap.find_eq_some_iff.mp hfind, rfl⟩)
      rw [find_foldl_replay hkeys hmem, houtcome]
  | none =>
      have hne : ∀ change ∈ list, change.document.key ≠ key := by
        intro change hmem heq
        obtain ⟨entry, hentries, rfl⟩ := List.mem_map.mp (hperm.mem_iff.mp hmem)
        rw [hentry entry hentries] at heq
        rw [← heq, SortedMap.find_eq_some_iff.mpr hentries] at hfind
        cases hfind
      rw [find_foldl_replay_of_ne hne]
      have hrecorded := h key
      rw [hfind] at hrecorded
      generalize base.find key = before at hrecorded ⊢
      generalize current.find key = after at hrecorded ⊢
      cases hrecorded
      rfl

end Replay

/-! ### What is known of the backend -/

/-- Watch reports no document as modified that is not in the target. -/
def View.Expects (view : View query) (targetChange : Option TargetChange) : Prop :=
  ∀ change ∈ targetChange, ∀ key, change.modifiedDocuments.contains key = true →
    view.syncedDocuments.contains key = true ∨ change.addedDocuments.contains key = true

/-- A synced view shows documents of its target and documents with local mutations. -/
def View.Settled (view : View query) : Prop :=
  view.syncState = .synced → ∀ key doc, view.documentSet.find key = some doc →
    view.syncedDocuments.contains key = true ∨ doc.hasLocalMutations = true

/-- The reported changes lead from one set of limbo documents to the other. -/
def LimboRecords (old new : SortedSet DocumentKey) (changes : List LimboDocumentChange) : Prop :=
  ∀ key, new.contains key = true ↔ .added key ∈ changes
    ∨ old.contains key = true ∧ .removed key ∉ changes

section Target

variable {view : View query} {targetChange : Option TargetChange} {key : DocumentKey}

/-- A target change only changes what is known of the target. -/
theorem applyTargetChange_eq (h : view.Expects targetChange) :
    ∃ next, view.applyTargetChange targetChange = some next
      ∧ next.documentSet = view.documentSet ∧ next.mutatedKeys = view.mutatedKeys
      ∧ next.limboDocuments = view.limboDocuments := by
  cases targetChange with
  | none => exact ⟨view, rfl, rfl, rfl, rfl⟩
  | some change =>
      refine ⟨_, if_pos (List.all_eq_true.mpr fun key hmem => ?_), rfl, rfl, rfl⟩
      rw [SortedSet.contains_foldl_insert, SortedSet.mem_toList]
      exact (h change rfl key (SortedSet.mem_toList.mp hmem)).symm

theorem limboRecords_diff (old new : SortedSet DocumentKey) :
    LimboRecords old new
      ((old.toList.filter fun key => !new.contains key).map .removed
        ++ (new.toList.filter fun key => !old.contains key).map .added) := by
  intro key
  simp only [List.mem_append, List.mem_map, List.mem_filter, SortedSet.mem_toList,
    LimboDocumentChange.added.injEq, LimboDocumentChange.removed.injEq, reduceCtorEq]
  cases hnew : new.contains key <;> cases hold : old.contains key <;> simp [hnew, hold]

theorem limboRecords_updateLimboDocuments (view : View query) :
    LimboRecords view.limboDocuments view.updateLimboDocuments.2.limboDocuments
      view.updateLimboDocuments.1 := by
  unfold View.updateLimboDocuments
  split
  · exact limboRecords_diff _ _
  · intro key
    simp

theorem contains_limboDocuments {view : View query} (hcurrent : view.current = true)
    (key : DocumentKey) :
    view.updateLimboDocuments.2.limboDocuments.contains key = true
      ↔ view.shouldBeInLimbo key = true := by
  rw [View.updateLimboDocuments, if_pos hcurrent]
  dsimp only
  rw [SortedSet.contains_ofList, List.mem_filter, and_iff_right_iff_imp, List.mem_map]
  intro hlimbo
  obtain ⟨-, hdoc⟩ := Bool.and_eq_true_iff.mp hlimbo
  obtain ⟨doc, hfind, -⟩ := (Option.any_eq_true _ _).mp hdoc
  obtain ⟨hmem, hkey⟩ := Ranked.find_eq_some_iff.mp hfind
  exact ⟨doc, hmem, hkey⟩

/-- Only the limbo documents and the sync state are brought up to date. -/
theorem settle_eq (view : View query) :
    view.settle.2 = { view with
      limboDocuments := view.updateLimboDocuments.2.limboDocuments
      syncState := view.settle.2.syncState } := by
  have hlimbo : view.updateLimboDocuments.2
      = { view with limboDocuments := view.updateLimboDocuments.2.limboDocuments } := by
    unfold View.updateLimboDocuments
    split <;> rfl
  exact congrArg (fun update : View query => { update with syncState := view.settle.2.syncState })
    hlimbo

theorem started_settle (view : View query) : view.settle.2.syncState ≠ .none := by
  unfold View.settle
  dsimp only
  split <;> simp

theorem settled_settle (view : View query) : view.settle.2.Settled := by
  intro hstate key doc hfind
  have hsynced : view.updateLimboDocuments.2.limboDocuments.entries.isEmpty = true
      ∧ view.settle.2.current = true := by
    unfold View.settle at hstate
    dsimp only at hstate
    split at hstate
    · rename_i hsynced
      exact Bool.and_eq_true_iff.mp hsynced
    · cases hstate
  obtain ⟨hnone, hcurrent⟩ := hsynced
  rw [settle_eq] at hfind hcurrent ⊢
  have hcurrent : view.current = true := hcurrent
  have hlimbo : view.shouldBeInLimbo key = false := by
    rw [Bool.eq_false_iff, ne_eq, ← contains_limboDocuments hcurrent, SortedSet.contains,
      SortedMap.find, List.isEmpty_iff.mp hnone]
    exact Bool.false_ne_true
  have hfind : view.documentSet.find key = some doc := hfind
  rw [View.shouldBeInLimbo, hfind] at hlimbo
  by_contra hneither
  obtain ⟨hunsynced, hlocal⟩ := not_or.mp hneither
  simp [hunsynced, hlocal] at hlimbo

end Target

/-! ### Applying changes -/

/-- The snapshot has what the view shows, and its changes lead there from what was shown before. -/
structure Tells (before : DocumentSet query) (view : View query) (snapshot : ViewSnapshot query) :
    Prop where
  documents : snapshot.documents = view.documentSet
  replay : snapshot.documentChanges.foldl DocumentSet.replay before = snapshot.documents
  fromCache : snapshot.fromCache = decide (view.syncState = .local)

/-- What a view is left with after changes, and what it reports of them. -/
structure Reports (view : View query) (docChanges : ViewDocumentChanges query)
    (change : ViewChange query) : Prop where
  documentSet : change.view.documentSet = docChanges.documentSet
  mutatedKeys : change.view.mutatedKeys = docChanges.mutatedKeys
  settled : change.view.Settled
  started : change.view.syncState ≠ .none
  limbo : LimboRecords view.limboDocuments change.view.limboDocuments change.limboChanges
  told : change.snapshot.elim (change.view.documentSet = view.documentSet
      ∧ change.view.syncState = view.syncState) (Tells view.documentSet change.view)

section Apply

variable {view : View query} {docChanges : ViewDocumentChanges query}
  {targetChange : Option TargetChange}

theorem snapshot_cases (oldView newView : View query) (docChanges : ViewDocumentChanges query) :
    (oldView.snapshot newView docChanges = none ∧ View.sortedChanges docChanges = []
        ∧ newView.syncState = oldView.syncState)
      ∨ ∃ snapshot, oldView.snapshot newView docChanges = some snapshot
        ∧ snapshot.documents = docChanges.documentSet
        ∧ snapshot.documentChanges = View.sortedChanges docChanges
        ∧ snapshot.fromCache = decide (newView.syncState = .local) := by
  unfold View.snapshot
  dsimp only
  split
  · rename_i hnone
    obtain ⟨hchanges, hstate⟩ := Bool.and_eq_true_iff.mp hnone
    exact Or.inl ⟨rfl, List.isEmpty_iff.mp hchanges, by simpa using hstate⟩
  · exact Or.inr ⟨_, rfl, rfl, rfl, rfl⟩

theorem applyChanges_eq (h : Sound view.documentSet docChanges)
    (hneeded : docChanges.needsRefill = false) (htarget : view.Expects targetChange) :
    ∃ change, view.applyChanges docChanges targetChange = some change
      ∧ Reports view docChanges change := by
  have hexpects : View.Expects
      { view with documentSet := docChanges.documentSet, mutatedKeys := docChanges.mutatedKeys }
      targetChange := htarget
  obtain ⟨changed, hchanged, hset, hkeys, hlimbo⟩ := applyTargetChange_eq hexpects
  have happly : view.applyChanges docChanges targetChange
      = some ⟨view.snapshot changed.settle.2 docChanges, changed.settle.1, changed.settle.2⟩ := by
    unfold View.applyChanges
    rw [hneeded]
    simp only [hchanged, Bool.false_eq_true, if_false, Option.bind_eq_bind, Option.bind_some]
    rfl
  have hset : changed.settle.2.documentSet = docChanges.documentSet :=
    (congrArg View.documentSet (settle_eq changed)).trans hset
  have hreplay : (View.sortedChanges docChanges).foldl DocumentSet.replay view.documentSet
      = docChanges.documentSet := h.records.foldl_replay (List.mergeSort_perm _ _)
  refine ⟨_, happly, hset, (congrArg View.mutatedKeys (settle_eq changed)).trans hkeys,
    settled_settle changed, started_settle changed, ?_, ?_⟩
  · have hrecords := limboRecords_updateLimboDocuments changed
    rw [hlimbo] at hrecords
    exact hrecords
  · obtain ⟨hnone, hchanges, hstate⟩ | ⟨snapshot, hsnapshot, hdocuments, hchanges, hcache⟩ :=
      snapshot_cases view changed.settle.2 docChanges
    · rw [hnone, Option.elim_none]
      rw [hchanges] at hreplay
      exact ⟨hset.trans hreplay.symm, hstate⟩
    · rw [hsnapshot, Option.elim_some]
      exact ⟨hdocuments.trans hset.symm, by rw [hchanges, hreplay, hdocuments], hcache⟩

end Apply

/-! ### Views at work -/

section Work

variable {view : View query} {before after store : LocalStore} {changes : MaybeDocumentMap}
  {targetChange : Option TargetChange}

/-- A view that is told of all changes goes on showing what it should. -/
theorem update_eq (h : Displays view before) (hruns : Runs after query)
    (haccounts : LocalStore.Accounts before after changes) (htarget : view.Expects targetChange) :
    ∃ change docChanges, view.update after changes targetChange = some change
      ∧ Displays change.view after ∧ Reports view docChanges change := by
  obtain ⟨whole, docChanges, hcompute, hsound, hneeded, hwhole, helements⟩ :=
    computeChanges_eq h hruns haccounts
  obtain ⟨change, happly, hreports⟩ := applyChanges_eq hsound hneeded htarget
  refine ⟨change, docChanges, ?_, ⟨⟨whole, hwhole, ?_⟩, ?_⟩, hreports⟩
  · rw [View.update, hcompute]
    exact happly
  · rw [hreports.documentSet, helements]
  · rw [hreports.documentSet, hreports.mutatedKeys]
    exact hsound.marks

/-- A new view shows what it should, and always has a snapshot. -/
theorem listen_eq (hruns : Runs store query) (remoteDocuments : SortedSet DocumentKey) :
    ∃ (change : ViewChange query) (snapshot : ViewSnapshot query),
      View.listen store remoteDocuments = some change
      ∧ change.snapshot = some snapshot ∧ Displays change.view store ∧ change.view.Settled
      ∧ change.view.syncState ≠ .none ∧ Tells .empty change.view snapshot := by
  have hstart : Sound (.empty : DocumentSet query)
      (View.startChanges (View.initial remoteDocuments) none) := by
    refine ⟨fun key => .unchanged none, fun key => iff_of_false Bool.false_ne_true ?_⟩
    rintro ⟨doc, hfind, -⟩
    cases hfind
  obtain ⟨whole, docChanges, hrun, hsound, hneeded, hwhole, helements⟩ :=
    runQuery_eq hruns hstart (fun key doc hfind => by cases hfind)
  have hexpects : View.Expects (View.initial remoteDocuments : View query) none := by
    intro change hchange
    cases hchange
  obtain ⟨change, happly, hreports⟩ := applyChanges_eq hsound hneeded hexpects
  have htold := hreports.told
  cases hsnapshot : change.snapshot with
  | none =>
      rw [hsnapshot] at htold
      exact absurd htold.2 hreports.started
  | some snapshot =>
      rw [hsnapshot] at htold
      refine ⟨change, snapshot, ?_, hsnapshot, ⟨⟨whole, hwhole, ?_⟩, ?_⟩, hreports.settled,
        hreports.started, htold⟩
      · rw [View.listen, hrun]
        exact happly
      · rw [hreports.documentSet, helements]
      · rw [hreports.documentSet, hreports.mutatedKeys]
        exact hsound.marks

/-- What is known of the connection changes no document that is shown, and none in limbo. -/
theorem applyOnlineStateChange_eq (h : Displays view store) (hsettled : view.Settled)
    (hstarted : view.syncState ≠ .none) (onlineState : OnlineState) :
    ∃ change, view.applyOnlineStateChange onlineState = some change ∧ change.limboChanges = []
      ∧ Displays change.view store ∧ change.view.Settled ∧ change.view.syncState ≠ .none
      ∧ change.snapshot.elim (change.view.documentSet = view.documentSet
          ∧ change.view.syncState = view.syncState) (Tells view.documentSet change.view) := by
  unfold View.applyOnlineStateChange
  split
  · let offline : View query := { view with current := false }
    let docChanges : ViewDocumentChanges query :=
      ⟨view.documentSet, .empty, view.mutatedKeys, false⟩
    have hsound : Sound offline.documentSet docChanges := ⟨fun key => .unchanged _, h.marks⟩
    have hexpects : offline.Expects none := by
      intro change hchange
      cases hchange
    obtain ⟨change, happly, hreports⟩ := applyChanges_eq hsound rfl hexpects
    have hlimbo : change.limboChanges = [] := by
      cases happly
      rfl
    refine ⟨change, happly, hlimbo, ⟨?_, ?_⟩, hreports.settled, hreports.started, hreports.told⟩
    · rw [hreports.documentSet]
      exact h.shows
    · rw [hreports.documentSet, hreports.mutatedKeys]
      exact h.marks
  · exact ⟨_, rfl, rfl, h, hsettled, hstarted, rfl, rfl⟩

end Work

end ProductivityApp.Firestore
