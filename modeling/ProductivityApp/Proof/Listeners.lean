import ProductivityApp.Firestore.SyncEngine
import ProductivityApp.Proof.ViewSnapshots

/-!
# What listeners are sent

Whatever happens to a client, none of its assertions fails, and the last snapshot that was sent of a
query has the documents the store has for it, up to the limit. A snapshot that is not said to come
from the cache only has documents of the target and documents with local mutations.
-/

namespace ProductivityApp.Firestore

/-! ### One query -/

/-- The last snapshot of a query is right. -/
structure QueryView.Correct (queryView : QueryView) (store : LocalStore) : Prop where
  path : isDocumentKey queryView.query.path = true → queryView.query.explicitOrderBys = []
  displays : Displays queryView.view store
  settled : queryView.view.Settled
  started : queryView.view.syncState ≠ .none
  documents : queryView.snapshot.documents = queryView.view.documentSet
  fromCache : queryView.snapshot.fromCache = decide (queryView.view.syncState = .local)
  replayed : queryView.replayed = queryView.view.documentSet

/-- The queues of a store are in order and made of plain mutations. -/
structure LocalStore.Plain (store : LocalStore) : Prop where
  valid : store.Valid
  queues : ∀ user, ∀ batch ∈ (store.mutationQueues user).queue,
    ∀ mutation ∈ batch.mutations, mutation.Plain

section Query

variable {queryView : QueryView} {before store : LocalStore} {change : ViewChange queryView.query}

theorem LocalStore.Plain.runs (h : store.Plain) {query : Query}
    (hpath : isDocumentKey query.path = true → query.explicitOrderBys = []) : Runs store query :=
  ⟨h.valid, hpath, h.queues store.user⟩

theorem LocalStore.Plain.of_queue (h : before.Plain) (hvalid : store.Valid)
    (hothers : ∀ user, user ≠ store.user →
      ∀ batch ∈ (store.mutationQueues user).queue, batch ∈ (before.mutationQueues user).queue)
    (hqueue : ∀ batch ∈ store.mutationQueue.queue, ∀ mutation ∈ batch.mutations, mutation.Plain) :
    store.Plain := by
  refine ⟨hvalid, fun user batch hmem => ?_⟩
  by_cases huser : user = store.user
  · subst huser
    exact hqueue batch hmem
  · exact h.queues user batch (hothers user huser batch hmem)

@[simp]
theorem QueryView.query_apply (queryView : QueryView) (change : ViewChange queryView.query) :
    (queryView.apply change).query = queryView.query := by
  unfold QueryView.apply
  split <;> rfl

/-- Telling what has changed keeps the last snapshot right. -/
theorem QueryView.Correct.apply (h : queryView.Correct before)
    (hdisplays : Displays change.view store) (hsettled : change.view.Settled)
    (hstarted : change.view.syncState ≠ .none)
    (htold : change.snapshot.elim (change.view.documentSet = queryView.view.documentSet
      ∧ change.view.syncState = queryView.view.syncState)
      (Tells queryView.view.documentSet change.view)) :
    (queryView.apply change).Correct store := by
  unfold QueryView.apply
  cases hsnapshot : change.snapshot with
  | none =>
      rw [hsnapshot] at htold
      obtain ⟨hsame, hstate⟩ := htold
      refine ⟨h.path, hdisplays, hsettled, hstarted, h.documents.trans hsame.symm, ?_,
        h.replayed.trans hsame.symm⟩
      exact h.fromCache.trans (by rw [hstate])
  | some snapshot =>
      rw [hsnapshot] at htold
      refine ⟨h.path, hdisplays, hsettled, hstarted, htold.documents, htold.fromCache, ?_⟩
      have hreplay := htold.replay.trans htold.documents
      rw [← h.replayed] at hreplay
      exact hreplay

end Query

/-! ### All queries -/

theorem exists_mapM {α β : Type} {p : β → Prop} {f : α → Option β} {list : List α}
    (h : ∀ a ∈ list, ∃ b, f a = some b ∧ p b) :
    ∃ bs, list.mapM f = some bs ∧ ∀ b ∈ bs, p b := by
  induction list with
  | nil => exact ⟨[], rfl, by simp⟩
  | cons a list ih =>
      obtain ⟨hfirst, hrest⟩ := List.forall_mem_cons.mp h
      obtain ⟨b, hb, hp⟩ := hfirst
      obtain ⟨bs, hbs, hall⟩ := ih hrest
      refine ⟨b :: bs, ?_, List.forall_mem_cons.mpr ⟨hp, hall⟩⟩
      rw [List.mapM_cons, hb, hbs]
      rfl

namespace SyncEngine

/-- The store is in order, every query has a target, and every listener was sent what the store
has. -/
structure Correct (engine : SyncEngine) : Prop where
  store : engine.localStore.Plain
  targets : ∀ queryView ∈ engine.queryViews, queryView.query.toTarget ∈ engine.targets
  views : ∀ queryView ∈ engine.queryViews, queryView.Correct engine.localStore

section Emit

variable {engine : SyncEngine}

/-- When the store has changed, every listener is sent what it has now. -/
theorem Correct.emit (h : engine.Correct) {changes : MaybeDocumentMap} {store : LocalStore}
    {targetChanges : TargetChanges} (hstore : store.Plain)
    (haccounts : LocalStore.Accounts engine.localStore store changes)
    (htargets : ∀ queryView ∈ engine.queryViews,
      queryView.view.Expects (targetChanges queryView.query.toTarget)) :
    ∃ next, engine.emitChanges targetChanges (changes, store) = some next ∧ next.Correct := by
  have htold : ∀ queryView ∈ engine.queryViews, ∃ next,
      (do let change ← queryView.view.update store changes (targetChanges queryView.query.toTarget)
          return queryView.apply change) = some next
        ∧ next.query.toTarget ∈ engine.targets ∧ next.Correct store := by
    intro queryView hmem
    have hview := h.views queryView hmem
    obtain ⟨change, docChanges, hupdate, hdisplays, hreports⟩ :=
      update_eq hview.displays (hstore.runs hview.path) haccounts (htargets queryView hmem)
    refine ⟨queryView.apply change, ?_, ?_, hview.apply hdisplays hreports.settled hreports.started
      hreports.told⟩
    · rw [hupdate]
      rfl
    · rw [QueryView.query_apply]
      exact h.targets queryView hmem
  obtain ⟨queryViews, hviews, hcorrect⟩ := exists_mapM htold
  refine ⟨⟨store, engine.targets, queryViews⟩, ?_, hstore, fun queryView hmem =>
    (hcorrect queryView hmem).1, fun queryView hmem => (hcorrect queryView hmem).2⟩
  rw [emitChanges, emitNewSnapshotsAndNotifyLocalStore, hviews]
  rfl

/-- A query that is listened to has a target. -/
theorem Correct.listensTo_eq_false (h : engine.Correct) {query : Query}
    (hnew : query.toTarget ∉ engine.targets) : engine.listensTo query = false := by
  rw [← Bool.not_eq_true, listensTo, List.any_eq_true]
  rintro ⟨queryView, hmem, hequals⟩
  obtain ⟨-, hsame⟩ := Bool.and_eq_true_iff.mp hequals
  exact hnew (of_decide_eq_true hsame ▸ h.targets queryView hmem)

theorem Correct.listen (h : engine.Correct) {query : Query}
    (hnew : query.toTarget ∉ engine.targets)
    (hpath : isDocumentKey query.path = true → query.explicitOrderBys = []) :
    ∃ next, engine.listen query = some next ∧ next.Correct := by
  obtain ⟨change, snapshot, hlisten, hsnapshot, hdisplays, hsettled, hstarted, htells⟩ :=
    listen_eq (h.store.runs hpath) .empty
  have hview : (QueryView.new change.view snapshot).Correct engine.localStore :=
    ⟨hpath, hdisplays, hsettled, hstarted, htells.documents, htells.fromCache,
      htells.replay.trans htells.documents⟩
  refine ⟨⟨engine.localStore, engine.targets ++ [query.toTarget],
    engine.queryViews ++ [.new change.view snapshot]⟩, ?_, h.store, ?_,
    List.forall_mem_append.mpr ⟨h.views, List.forall_mem_singleton.mpr hview⟩⟩
  · rw [SyncEngine.listen, h.listensTo_eq_false hnew, if_neg Bool.false_ne_true, hlisten]
    simp only [Option.bind_eq_bind, Option.bind_some, hsnapshot]
    rfl
  · refine List.forall_mem_append.mpr ⟨fun queryView hmem => ?_, List.forall_mem_singleton.mpr ?_⟩
    · exact List.mem_append_left _ (h.targets queryView hmem)
    · exact List.mem_append_right _ (List.mem_singleton_self _)

theorem Correct.stopListening (h : engine.Correct) {query : Query}
    (hlistened : engine.listensTo query = true) :
    ∃ next, engine.stopListening query = some next ∧ next.Correct :=
  ⟨_, if_pos hlistened, h.store,
    fun queryView hmem => h.targets queryView (List.mem_of_mem_filter hmem),
    fun queryView hmem => h.views queryView (List.mem_of_mem_filter hmem)⟩

theorem Correct.handleOnlineStateChange (h : engine.Correct) (onlineState : OnlineState) :
    ∃ next, engine.handleOnlineStateChange onlineState = some next ∧ next.Correct := by
  have htold : ∀ queryView ∈ engine.queryViews, ∃ next,
      (do let change ← queryView.view.applyOnlineStateChange onlineState
          if change.limboChanges.isEmpty then return queryView.apply change else none)
        = some next ∧ next.query.toTarget ∈ engine.targets ∧ next.Correct engine.localStore := by
    intro queryView hmem
    have hview := h.views queryView hmem
    obtain ⟨change, hchange, hlimbo, hdisplays, hsettled, hstarted, htold⟩ :=
      applyOnlineStateChange_eq hview.displays hview.settled hview.started onlineState
    refine ⟨queryView.apply change, ?_, ?_, hview.apply hdisplays hsettled hstarted htold⟩
    · simp only [hchange, Option.bind_eq_bind, Option.bind_some, hlimbo]
      rfl
    · rw [QueryView.query_apply]
      exact h.targets queryView hmem
  obtain ⟨queryViews, hviews, hcorrect⟩ := exists_mapM htold
  refine ⟨⟨engine.localStore, engine.targets, queryViews⟩, ?_, h.store, fun queryView hmem =>
    (hcorrect queryView hmem).1, fun queryView hmem => (hcorrect queryView hmem).2⟩
  rw [SyncEngine.handleOnlineStateChange, hviews]
  rfl

end Emit

/-! ### Events -/

/-- What may happen. A query is listened to with a new target, and one on a document has no order.
Mutations are plain, and a batch changes no document twice. Answers come in the order of the
batches, with a version for each mutation, and Watch does not go back in time. -/
def Allows (engine : SyncEngine) : SyncEvent → Prop
  | .listen query => query.toTarget ∉ engine.targets
      ∧ (isDocumentKey query.path = true → query.explicitOrderBys = [])
  | .stopListening query => engine.listensTo query = true
  | .writeMutations mutations => mutations ≠ [] ∧ (mutations.map Mutation.key).Nodup
      ∧ ∀ mutation ∈ mutations, mutation.Plain
  | .handleSuccessfulWrite result => ∃ rest, engine.localStore.Answers result rest
  | .handleRejectedWrite batchId => ∃ batch rest,
      engine.localStore.mutationQueue.queue = batch :: rest ∧ batch.batchId = batchId
  | .applyRemoteEvent event targetChanges => engine.localStore.Follows event
      ∧ ∀ queryView ∈ engine.queryViews,
        queryView.view.Expects (targetChanges queryView.query.toTarget)
  | .handleCredentialChange _ => True
  | .handleOnlineStateChange _ => True

section Events

variable {engine : SyncEngine}

theorem expects_none (engine : SyncEngine) : ∀ queryView ∈ engine.queryViews,
    queryView.view.Expects (noTargetChanges queryView.query.toTarget) := by
  intro queryView _ change hchange
  cases hchange

/-- The queue is as it was, without its first batch. -/
theorem Correct.plain_of_rest (h : engine.Correct) {store : LocalStore} (hvalid : store.Valid)
    {batch : MutationBatch} {rest : List MutationBatch}
    (huser : store.user = engine.localStore.user)
    (hqueue : engine.localStore.mutationQueue.queue = batch :: rest)
    (hrest : store.mutationQueue.queue = rest)
    (hothers : ∀ user, user ≠ engine.localStore.user →
      store.mutationQueues user = engine.localStore.mutationQueues user) : store.Plain := by
  refine h.store.of_queue hvalid (fun user hne other hmem => ?_) fun other hmem => ?_
  · rwa [hothers user (huser ▸ hne)] at hmem
  · have hmem : other ∈ engine.localStore.mutationQueue.queue := by
      rw [hqueue]
      exact List.mem_cons_of_mem _ (hrest ▸ hmem)
    exact h.store.queues engine.localStore.user other hmem

theorem Correct.writeMutations (h : engine.Correct) {mutations : List Mutation}
    (hne : mutations ≠ []) (hkeys : (mutations.map Mutation.key).Nodup)
    (hplain : ∀ mutation ∈ mutations, mutation.Plain) :
    ∃ next, engine.writeMutations mutations = some next ∧ next.Correct := by
  obtain ⟨changes, hwrite, hvalid, haccounts⟩ :=
    LocalStore.writeLocally_eq h.store.valid hne
  have hqueues (user : User) (huser : user ≠ engine.localStore.user) :
      (engine.localStore.written mutations).mutationQueues user
        = engine.localStore.mutationQueues user := Function.update_of_ne huser _ _
  have hafter : (engine.localStore.written mutations).Plain := by
    refine h.store.of_queue hvalid (fun user hne batch hmem => ?_) fun batch hmem => ?_
    · rwa [hqueues user hne] at hmem
    · rw [LocalStore.written, LocalStore.mutationQueue_setMutationQueue] at hmem
      obtain hmem | hmem := List.mem_append.mp hmem
      · exact h.store.queues _ batch hmem
      · cases List.mem_singleton.mp hmem
        exact hplain
  obtain ⟨next, hnext, hcorrect⟩ := h.emit hafter (haccounts hkeys) engine.expects_none
  refine ⟨next, ?_, hcorrect⟩
  rw [SyncEngine.writeMutations, hwrite]
  exact hnext

theorem Correct.handleSuccessfulWrite (h : engine.Correct) {result : MutationBatchResult}
    {rest : List MutationBatch} (hanswers : engine.localStore.Answers result rest) :
    ∃ next, engine.handleSuccessfulWrite result = some next ∧ next.Correct := by
  obtain ⟨changes, store, hacknowledge, hvalid, huser, hrest, hothers, -, haccounts⟩ :=
    LocalStore.acknowledgeBatch_eq h.store.valid hanswers
  have hafter := h.plain_of_rest hvalid huser hanswers.queue hrest hothers
  obtain ⟨next, hnext, hcorrect⟩ := h.emit hafter haccounts engine.expects_none
  refine ⟨next, ?_, hcorrect⟩
  rw [SyncEngine.handleSuccessfulWrite, hacknowledge]
  exact hnext

theorem Correct.handleRejectedWrite (h : engine.Correct) {batch : MutationBatch}
    {rest : List MutationBatch} (hqueue : engine.localStore.mutationQueue.queue = batch :: rest) :
    ∃ next, engine.handleRejectedWrite batch.batchId = some next ∧ next.Correct := by
  obtain ⟨changes, store, hreject, hvalid, huser, hrest, hothers, -, haccounts⟩ :=
    LocalStore.rejectBatch_eq h.store.valid hqueue
  have hafter := h.plain_of_rest hvalid huser hqueue hrest hothers
  obtain ⟨next, hnext, hcorrect⟩ := h.emit hafter haccounts engine.expects_none
  refine ⟨next, ?_, hcorrect⟩
  rw [SyncEngine.handleRejectedWrite, hreject]
  exact hnext

theorem Correct.applyRemoteEvent (h : engine.Correct) {event : RemoteEvent}
    {targetChanges : TargetChanges} (hfollows : engine.localStore.Follows event)
    (htargets : ∀ queryView ∈ engine.queryViews,
      queryView.view.Expects (targetChanges queryView.query.toTarget)) :
    ∃ next, engine.applyRemoteEvent event targetChanges = some next ∧ next.Correct := by
  obtain ⟨changes, store, happly, hvalid, huser, hqueues, haccounts⟩ :=
    LocalStore.applyRemoteEvent_eq h.store.valid hfollows
  have hafter : store.Plain := ⟨hvalid, hqueues ▸ h.store.queues⟩
  obtain ⟨next, hnext, hcorrect⟩ := h.emit hafter haccounts htargets
  refine ⟨next, ?_, hcorrect⟩
  rw [SyncEngine.applyRemoteEvent, happly]
  exact hnext

theorem Correct.handleCredentialChange (h : engine.Correct) (user : User) :
    ∃ next, engine.handleCredentialChange user = some next ∧ next.Correct := by
  by_cases huser : engine.localStore.user = user
  · exact ⟨engine, if_pos huser, h⟩
  · obtain ⟨changes, store, hchange, hvalid, -, hqueues, -, haccounts⟩ :=
      LocalStore.handleUserChange_eq h.store.valid user
    have hafter : store.Plain := by
      refine ⟨hvalid, fun other batch hmem => h.store.queues other batch ?_⟩
      rw [hqueues] at hmem
      by_cases hother : other = user
      · subst hother
        rwa [Function.update_self, MutationQueue.queue_start] at hmem
      · rwa [Function.update_of_ne hother] at hmem
    obtain ⟨next, hnext, hcorrect⟩ := h.emit hafter haccounts engine.expects_none
    refine ⟨next, ?_, hcorrect⟩
    rw [SyncEngine.handleCredentialChange, if_neg huser, hchange]
    exact hnext

/-- No assertion fails, and every listener is sent what the store has. -/
theorem Correct.handle (h : engine.Correct) {e : SyncEvent} (hallows : engine.Allows e) :
    ∃ next, engine.handle e = some next ∧ next.Correct := by
  cases e with
  | listen query => exact h.listen hallows.1 hallows.2
  | stopListening query => exact h.stopListening hallows
  | writeMutations mutations => exact h.writeMutations hallows.1 hallows.2.1 hallows.2.2
  | handleSuccessfulWrite result =>
      obtain ⟨rest, hanswers⟩ := hallows
      exact h.handleSuccessfulWrite hanswers
  | handleRejectedWrite batchId =>
      obtain ⟨batch, rest, hqueue, rfl⟩ := hallows
      exact h.handleRejectedWrite hqueue
  | applyRemoteEvent event targetChanges => exact h.applyRemoteEvent hallows.1 hallows.2
  | handleCredentialChange user => exact h.handleCredentialChange user
  | handleOnlineStateChange onlineState => exact h.handleOnlineStateChange onlineState

end Events

/-! ### The queries that are listened to -/

def queries (engine : SyncEngine) : List Query := engine.queryViews.map QueryView.query

/-- The queries that are listened to after an event. -/
def listened (queries : List Query) : SyncEvent → List Query
  | .listen query => queries ++ [query]
  | .stopListening query => queries.filter fun other => !other.equals query
  | _ => queries

section Queries

variable {engine next : SyncEngine}

theorem map_query_of_mapM {f : QueryView → Option QueryView}
    (hf : ∀ a b, f a = some b → b.query = a.query) {list changed : List QueryView}
    (h : list.mapM f = some changed) :
    changed.map QueryView.query = list.map QueryView.query := by
  induction list generalizing changed with
  | nil =>
      cases h
      rfl
  | cons a list ih =>
      rw [List.mapM_cons] at h
      obtain ⟨b, hb, h⟩ := Option.bind_eq_some_iff.mp h
      obtain ⟨rest, hrest, h⟩ := Option.bind_eq_some_iff.mp h
      cases h
      rw [List.map_cons, List.map_cons, hf a b hb, ih hrest]

theorem queries_emitChanges {targetChanges : TargetChanges}
    {changed : MaybeDocumentMap × LocalStore}
    (h : engine.emitChanges targetChanges changed = some next) : next.queries = engine.queries := by
  obtain ⟨queryViews, hviews, h⟩ := Option.bind_eq_some_iff.mp h
  cases h
  refine map_query_of_mapM (fun queryView told htold => ?_) hviews
  obtain ⟨change, -, htold⟩ := Option.bind_eq_some_iff.mp htold
  cases htold
  exact QueryView.query_apply queryView change

theorem localStore_emitChanges {targetChanges : TargetChanges}
    {changed : MaybeDocumentMap × LocalStore}
    (h : engine.emitChanges targetChanges changed = some next) : next.localStore = changed.2 := by
  obtain ⟨queryViews, -, h⟩ := Option.bind_eq_some_iff.mp h
  cases h
  rfl

theorem localStore_listen {query : Query} (h : engine.listen query = some next) :
    next.localStore = engine.localStore := by
  unfold SyncEngine.listen at h
  split at h
  · cases h
  · obtain ⟨change, -, h⟩ := Option.bind_eq_some_iff.mp h
    obtain ⟨snapshot, -, h⟩ := Option.bind_eq_some_iff.mp h
    cases h
    rfl

/-- After a write the store has the batch in its queue. -/
theorem localStore_writeMutations {mutations : List Mutation} (hvalid : engine.localStore.Valid)
    (hne : mutations ≠ []) (h : engine.writeMutations mutations = some next) :
    next.localStore = engine.localStore.written mutations := by
  obtain ⟨written, hwritten, h⟩ := Option.bind_eq_some_iff.mp h
  obtain ⟨changes, hwrite, -⟩ := LocalStore.writeLocally_eq hvalid hne
  cases hwritten.symm.trans hwrite
  exact localStore_emitChanges h

theorem queries_handle {e : SyncEvent} (h : engine.handle e = some next) :
    next.queries = listened engine.queries e := by
  cases e with
  | listen query =>
      change engine.listen query = some next at h
      unfold SyncEngine.listen at h
      split at h
      · cases h
      · obtain ⟨change, -, h⟩ := Option.bind_eq_some_iff.mp h
        obtain ⟨snapshot, -, h⟩ := Option.bind_eq_some_iff.mp h
        cases h
        exact List.map_append
  | stopListening query =>
      change engine.stopListening query = some next at h
      unfold SyncEngine.stopListening at h
      split at h
      · cases h
        rw [listened, queries, queries, List.filter_map]
        rfl
      · cases h
  | writeMutations mutations =>
      obtain ⟨written, -, h⟩ := Option.bind_eq_some_iff.mp h
      exact queries_emitChanges h
  | handleSuccessfulWrite result =>
      obtain ⟨changed, -, h⟩ := Option.bind_eq_some_iff.mp h
      exact queries_emitChanges h
  | handleRejectedWrite batchId =>
      obtain ⟨changed, -, h⟩ := Option.bind_eq_some_iff.mp h
      exact queries_emitChanges h
  | applyRemoteEvent event targetChanges =>
      obtain ⟨changed, -, h⟩ := Option.bind_eq_some_iff.mp h
      exact queries_emitChanges h
  | handleCredentialChange user =>
      change engine.handleCredentialChange user = some next at h
      unfold SyncEngine.handleCredentialChange at h
      split at h
      · cases h
        rfl
      · obtain ⟨changed, -, h⟩ := Option.bind_eq_some_iff.mp h
        exact queries_emitChanges h
  | handleOnlineStateChange onlineState =>
      obtain ⟨queryViews, hviews, h⟩ := Option.bind_eq_some_iff.mp h
      cases h
      refine map_query_of_mapM (fun queryView told htold => ?_) hviews
      obtain ⟨change, -, htold⟩ := Option.bind_eq_some_iff.mp htold
      split at htold
      · cases htold
        exact QueryView.query_apply queryView change
      · cases htold

end Queries

/-! ### Runs -/

section Runs

theorem correct_initial (user : User) : (initial user).Correct where
  store := ⟨LocalStore.valid_initial user, fun _ batch hmem => by cases hmem⟩
  targets queryView hmem := by cases hmem
  views queryView hmem := by cases hmem

/-- The run of a client that starts on an empty store. -/
def run (user : User) (events : List SyncEvent) : Option SyncEngine :=
  EventSystem.run step (some (initial user)) events

/-- Everything that happens in the run may happen. -/
def Allowed (user : User) (events : List SyncEvent) : Prop :=
  EventSystem.Always step (fun engine e => ∀ current ∈ engine, current.Allows e)
    (some (initial user)) events

/-- No assertion has failed, and all is right for the queries that are listened to. -/
def Going (queries : List Query) (engine : Option SyncEngine) : Prop :=
  ∃ current, engine = some current ∧ current.Correct ∧ current.queries = queries

theorem Going.run {queries : List Query} {engine : Option SyncEngine} {events : List SyncEvent}
    (h : Going queries engine)
    (hallowed : EventSystem.Always step (fun engine e => ∀ current ∈ engine, current.Allows e)
      engine events) :
    Going (events.foldl listened queries) (EventSystem.run step engine events) := by
  induction events generalizing queries engine with
  | nil => exact h
  | cons e events ih =>
      obtain ⟨current, rfl, hcorrect, rfl⟩ := h
      obtain ⟨hallows, hrest⟩ := hallowed
      obtain ⟨next, hnext, hcorrect⟩ := hcorrect.handle (hallows current rfl)
      exact ih ⟨next, hnext, hcorrect, queries_handle hnext⟩ hrest

theorem going_run {user : User} {events : List SyncEvent} (h : Allowed user events) :
    Going (events.foldl listened []) (run user events) :=
  Going.run ⟨initial user, rfl, correct_initial user, rfl⟩ h

/-- **Listeners see the store.** Whatever happens to a client, no assertion fails. Each query that
is listened to was last sent the documents the store has for it, up to its limit, and a listener
that goes by the changes has the same documents. If the last snapshot is not from the cache, its
documents are in the target of the query or have local mutations. -/
theorem listeners_see_store {user : User} {events : List SyncEvent} (h : Allowed user events) :
    ∃ engine, run user events = some engine ∧ engine.queries = events.foldl listened []
      ∧ ∀ queryView ∈ engine.queryViews,
        (∃ whole : DocumentSet queryView.query, IsWhole engine.localStore whole
          ∧ queryView.snapshot.documents.elements = queryView.query.clip whole.elements)
        ∧ queryView.replayed = queryView.snapshot.documents
        ∧ (queryView.snapshot.fromCache = false →
          ∀ doc ∈ queryView.snapshot.documents.elements,
            queryView.view.syncedDocuments.contains doc.key = true
              ∨ doc.hasLocalMutations = true) := by
  obtain ⟨engine, hrun, hcorrect, hqueries⟩ := going_run h
  refine ⟨engine, hrun, hqueries, fun queryView hmem => ?_⟩
  have hview := hcorrect.views queryView hmem
  rw [hview.documents]
  refine ⟨hview.displays.shows, hview.replayed, fun hcache doc hdoc => ?_⟩
  have hsynced : queryView.view.syncState = .synced := by
    have hlocal := of_decide_eq_false (hview.fromCache.symm.trans hcache)
    have hstarted := hview.started
    cases hstate : queryView.view.syncState with
    | none => exact absurd hstate hstarted
    | «local» => exact absurd hstate hlocal
    | synced => rfl
  exact hview.settled hsynced doc.key doc (Ranked.mem_iff.mp hdoc)

theorem listeners_see_store_rejectedWrite :
    ∃ engine, run none [.listen ⟨["notes"], [], .first, 1⟩,
        .writeMutations [.set ["notes", "a"] [] .none], .handleRejectedWrite 1,
        .handleOnlineStateChange .offline, .handleCredentialChange (some "ada")] = some engine
      ∧ engine.queries = [⟨["notes"], [], .first, 1⟩]
      ∧ ∀ queryView ∈ engine.queryViews, queryView.replayed = queryView.snapshot.documents := by
  have hqueue : (run none [.listen ⟨["notes"], [], .first, 1⟩,
      .writeMutations [.set ["notes", "a"] [] .none]]).map (fun engine =>
        engine.localStore.mutationQueue.queue.map MutationBatch.batchId) = some [1] := by
    decide +kernel
  have hrejected : ∀ engine, run none [.listen ⟨["notes"], [], .first, 1⟩,
      .writeMutations [.set ["notes", "a"] [] .none]] = some engine →
      engine.Allows (.handleRejectedWrite 1) := by
    intro engine hrun
    rw [hrun] at hqueue
    obtain ⟨batch, rest, hbatches, hid, -⟩ := List.map_eq_cons_iff.mp (Option.some.inj hqueue)
    exact ⟨batch, rest, hbatches, hid⟩
  have hallowed : Allowed none [.listen ⟨["notes"], [], .first, 1⟩,
      .writeMutations [.set ["notes", "a"] [] .none], .handleRejectedWrite 1,
      .handleOnlineStateChange .offline, .handleCredentialChange (some "ada")] := by
    refine ⟨fun engine hengine => ?_, fun engine _ => ⟨by simp, by simp, by simp [Mutation.Plain]⟩,
      hrejected, fun _ _ => trivial, fun _ _ => trivial, trivial⟩
    cases hengine
    exact ⟨List.not_mem_nil, fun _ => rfl⟩
  obtain ⟨engine, hrun, hqueries, hviews⟩ := listeners_see_store hallowed
  exact ⟨engine, hrun, hqueries, fun queryView hmem => (hviews queryView hmem).2.1⟩

end Runs

end SyncEngine

end ProductivityApp.Firestore
