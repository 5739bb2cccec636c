import Ledgence.Pages.Inbox

/-! Walks over pages of a database that is written to between them. -/
open Kit Kit.Checked

namespace Ledgence.Pages

/-- Each page is read from a snapshot of its own, with the cursor of the page before it and any
limit. A walk may be given up after any page; it has come to its end when a page has no cursor. -/
inductive Walk {Page : Type} (read : Database → Nat → Option String → Result Page)
    (next : Page → Option String) : Database → Option String → List (Database × Page) → Prop
  | start (db : Database) (cursor : Option String) : Walk read next db cursor []
  | last {db now : Database} {writes : List Write} {limit : Nat} {cursor : Option String}
      {page : Page} : db.commit writes = .ok now → read now limit cursor = .ok page →
      next page = none → Walk read next db cursor [(now, page)]
  | more {db now : Database} {writes : List Write} {limit : Nat} {cursor : Option String}
      {page : Page} {text : String} {pages : List (Database × Page)} :
      db.commit writes = .ok now → read now limit cursor = .ok page → next page = some text →
      Walk read next now (some text) pages → Walk read next db cursor ((now, page) :: pages)

structure Listing (κ ρ α Page : Type) where
  read : Database → Nat → Option String → Result Page
  next : Page → Option String
  items : Page → List α
  rows : Database → List ρ
  key : ρ → κ
  decodes : Database → ρ → α → Prop
  stands : Option String → Option κ → Prop

namespace Listing
variable {κ ρ α ι Page : Type} [LinearOrder κ] {listing : Listing κ ρ α Page} {db : Database}
  {cursor : Option String} {pages : List (Database × Page)}

structure Shows (listing : Listing κ ρ α Page) (page : Database × Page) (v : Keyset.Visit κ ρ) :
    Prop where
  rows : v.rows = listing.rows page.1
  inside : ∀ r ∈ v.items, r ∈ v.rows
  items : List.Forall₂ (listing.decodes page.1) v.items (listing.items page.2)
  ended : listing.next page.2 = none → v.next = none

/-- Every page is a visit of its rows at the position that its cursor stands for, and hands on a
cursor for the next position. -/
structure Sound (listing : Listing κ ρ α Page) : Prop where
  start : listing.stands none none
  page : ∀ {now limit cursor position page}, listing.read now limit cursor = .ok page →
    listing.stands cursor position → ∃ v, v.Reads listing.key position ∧
      listing.Shows (now, page) v ∧ ∀ text, listing.next page = some text →
        ∃ k, v.next = some k ∧ listing.stands (some text) (some k)

theorem refines (sound : listing.Sound) (walk : Walk listing.read listing.next db cursor pages)
    {position : Option κ} (stands : listing.stands cursor position) :
    ∃ visits, Keyset.Walk listing.key position visits ∧ List.Forall₂ listing.Shows pages visits := by
  induction walk generalizing position with
  | start db cursor => exact ⟨[], .start position, .nil⟩
  | last _ reads ended =>
    obtain ⟨v, visited, shows, -⟩ := sound.page reads stands
    exact ⟨[v], .last visited (shows.ended ended), .cons shows .nil⟩
  | more _ reads going _ ih =>
    obtain ⟨v, visited, shows, goes⟩ := sound.page reads stands
    obtain ⟨k, next, stands⟩ := goes _ going
    obtain ⟨visits, rest, shown⟩ := ih stands
    exact ⟨v :: visits, .more visited next rest, .cons shows shown⟩

end Listing

/-- What the snapshots of a walk hold was all written by its last one. -/
theorem Walk.remembered {Page : Type} {read : Database → Nat → Option String → Result Page}
    {next : Page → Option String} {db : Database} {cursor : Option String}
    {pages : List (Database × Page)} (walk : Walk read next db cursor pages) (valid : db.Valid) :
    ∃ final : Database, final.Valid ∧ db.Remembers final ∧
      ∀ page ∈ pages, page.1.Valid ∧ page.1.Remembers final := by
  induction walk with
  | start db cursor => exact ⟨db, valid, ⟨fun _ mem => mem, fun _ mem => mem⟩, by simp⟩
  | @last db now writes limit cursor page done _ _ =>
    obtain ⟨kept, known⟩ := Database.commit_ok done valid
    refine ⟨now, kept, known, fun page mem => ?_⟩
    obtain rfl := List.mem_singleton.mp mem
    exact ⟨kept, fun _ mem => mem, fun _ mem => mem⟩
  | @more db now writes limit cursor page text pages done _ _ _ ih =>
    obtain ⟨kept, tasks, inbox⟩ := Database.commit_ok done valid
    obtain ⟨final, last, ⟨tasks', inbox'⟩, each⟩ := ih kept
    refine ⟨final, last, ⟨fun _ mem => tasks' (tasks mem), fun _ mem => inbox' (inbox mem)⟩,
      fun page mem => ?_⟩
    cases mem with
    | head => exact ⟨kept, tasks', inbox'⟩
    | tail _ mem => exact each page mem

namespace Listing
variable {κ ρ α ι Page : Type} [LinearOrder κ] {listing : Listing κ ρ α Page} {db : Database}
  {pages : List (Database × Page)} {visits : List (Keyset.Visit κ ρ)}

def shown (listing : Listing κ ρ α Page) (pages : List (Database × Page)) : List α :=
  pages.flatMap fun page => listing.items page.2

omit [LinearOrder κ] in
theorem ended_of_shows (shows : List.Forall₂ listing.Shows pages visits)
    (ended : ∃ page ∈ pages.getLast?, listing.next page.2 = none) :
    ∃ v ∈ visits.getLast?, v.next = none := by
  induction shows with
  | nil => simp at ended
  | @cons page v pages visits first rest ih =>
    cases rest with
    | nil =>
      obtain ⟨page', mem, stop⟩ := ended
      obtain rfl : page = page' := by simpa using mem
      exact ⟨v, by simp, first.ended stop⟩
    | cons second rest =>
      rw [List.getLast?_cons_cons] at ended
      rw [List.getLast?_cons_cons]
      exact ih ended

omit [LinearOrder κ] in
theorem map_shown {β : Type} {f : α → β} {g : ρ → β} (shows : List.Forall₂ listing.Shows pages visits)
    (same : ∀ db r a, listing.decodes db r a → f a = g r) :
    (listing.shown pages).map f = (Keyset.collected visits).map g := by
  induction shows with
  | nil => rfl
  | cons first rest ih =>
    rw [shown, Keyset.collected, List.flatMap_cons, List.flatMap_cons, List.map_append,
      List.map_append]
    have here := Keyset.map_eq_of_forall₂ first.items fun r _ a h => same _ r a h
    exact congrArg₂ (· ++ ·) here ih

/-- The walks of a listing, by the keys of the rows and the identities of the items. -/
theorem walk_sound [BEq ι] [LawfulBEq ι] (sound : listing.Sound) (rank : α → κ) (identity : α → ι)
    (idOf : ρ → ι) (same : ∀ db r a, listing.decodes db r a → rank a = listing.key r ∧
      identity a = idOf r)
    (walk : Walk listing.read listing.next db none pages)
    (distinct : ∀ page ∈ pages, ((listing.rows page.1).map listing.key).Nodup)
    (fixed : ∀ page ∈ pages, ∀ page' ∈ pages, ∀ a ∈ listing.rows page.1,
      ∀ b ∈ listing.rows page'.1, idOf a = idOf b ↔ listing.key a = listing.key b) :
    (listing.shown pages).Pairwise (fun a b => rank a < rank b) ∧
      ((listing.shown pages).map identity).Nodup ∧
      (∀ page ∈ pages, ∀ a ∈ listing.items page.2,
        ∃ r ∈ listing.rows page.1, listing.decodes page.1 r a) ∧
      ((∃ page ∈ pages.getLast?, listing.next page.2 = none) → ∀ i,
        (∀ page ∈ pages, i ∈ (listing.rows page.1).map idOf) →
        ((listing.shown pages).map identity).count i = 1) := by
  obtain ⟨visits, keyed, shows⟩ := refines sound walk sound.start
  have rows : ∀ v ∈ visits, ∃ page ∈ pages, v.rows = listing.rows page.1 := by
    intro v mem
    obtain ⟨page, inside, h⟩ := Keyset.exists_of_mem_forall₂ shows mem
    exact ⟨page, inside, h.rows⟩
  have nodup : ∀ v ∈ visits, (v.rows.map listing.key).Nodup := by
    intro v mem
    obtain ⟨page, inside, same⟩ := rows v mem
    exact same ▸ distinct page inside
  have kept : ∀ v ∈ visits, ∀ w ∈ visits, ∀ a ∈ v.rows, ∀ b ∈ w.rows,
      idOf a = idOf b ↔ listing.key a = listing.key b := by
    intro v hv w hw a ha b hb
    obtain ⟨page, inside, same⟩ := rows v hv
    obtain ⟨page', inside', same'⟩ := rows w hw
    exact fixed page inside page' inside' a (same ▸ ha) b (same' ▸ hb)
  have ranks := map_shown shows fun db r a h => (same db r a h).1
  have ids := map_shown shows fun db r a h => (same db r a h).2
  refine ⟨?_, ?_, fun page mem a here => ?_, fun ended i always => ?_⟩
  · rw [← List.pairwise_map, ranks]
    exact (keyed.ascending nodup).1
  · rw [ids]
    exact keyed.distinct nodup fun v hv w hw a ha b hb => (kept v hv w hw a ha b hb).mp
  · obtain ⟨v, visited, h⟩ := Keyset.exists_of_mem_forall₂ shows.flip mem
    obtain ⟨r, inside, decoded⟩ := Keyset.exists_of_mem_forall₂ h.items here
    exact ⟨r, h.rows ▸ h.inside r inside, decoded⟩
  · rw [ids]
    refine keyed.once nodup kept (ended_of_shows shows ended) fun v mem => ?_
    obtain ⟨page, inside, same⟩ := rows v mem
    exact same ▸ always page inside

end Listing

/- Tasks. -/

section Tasks
variable {serde : Serde} {bound : Option Scope} {scope : Scope} {filters : TaskFilters}
  {pages : List (Database × TaskPage)}

def readTasks (serde : Serde) (bound : Option Scope) (scope : Scope) (filters : TaskFilters)
    (now : Database) (limit : Nat) (cursor : Option String) : Result TaskPage :=
  now.tasks.listTasksOnce serde bound scope ⟨filters, limit, cursor⟩

def tasksListing (serde : Serde) (bound : Option Scope) (scope : Scope) (filters : TaskFilters) :
    Listing (Nat ×ₗ List Nat)ᵒᵈ TaskRow TaskStatus TaskPage where
  read := readTasks serde bound scope filters
  next := TaskPage.nextCursor
  items := TaskPage.items
  rows now := now.tasks.listed scope filters
  key row := row.position.place
  decodes now row task := now.tasks.status row = .ok task
  stands cursor k := ∀ limit q, (TaskListQuery.mk filters limit cursor).validate serde scope = .ok q →
    q.map TaskPosition.place = k

theorem tasksListing_sound (correct : serde.Correct) :
    (tasksListing serde bound scope filters).Sound where
  start := by
    intro limit q accepted
    obtain ⟨-, -, -, ⟨-, rfl⟩ | ⟨text, p, given, -, -⟩⟩ := TaskListQuery.validate_eq_ok.mp accepted
    · rfl
    · cases given
  page := by
    intro now limit cursor position page done stands
    obtain ⟨p, -, checked, read, -, -⟩ := TaskTables.listTasksOnce_ok done
    obtain rfl := stands limit p checked
    obtain ⟨-, -, ⟨some, -⟩, -⟩ := TaskListQuery.validate_eq_ok.mp checked
    obtain ⟨ended, goes⟩ := TaskTables.nextCursor_ok correct done checked
    have reads := @TaskTables.visit_reads now.tasks scope ⟨filters, limit, cursor⟩ p some
    refine ⟨_, reads, ⟨rfl, fun r mem => reads.mem_rows mem, read, ended⟩, fun text given => ?_⟩
    obtain ⟨q, next, continues⟩ := goes text given
    refine ⟨q.place, next, fun limit' q' accepted => ?_⟩
    rw [continues ⟨filters, limit', .some text⟩ rfl rfl q' accepted]
    rfl

structure TasksShown (scope : Scope) (filters : TaskFilters) (pages : List (Database × TaskPage)) :
    Prop where
  descending : (pages.flatMap fun page => page.2.items).Pairwise fun a b =>
    b.position.rank < a.position.rank
  distinct : ((pages.flatMap fun page => page.2.items).map TaskStatus.taskId).Nodup
  listed : ∀ page ∈ pages, ∀ task ∈ page.2.items, task.scope = scope ∧
    filters.matchesStatus task = true ∧
    ∃ row ∈ page.1.tasks.rows, row.retiringAt = none ∧ page.1.tasks.status row = .ok task
  complete : (∃ page ∈ pages.getLast?, page.2.nextCursor = none) → ∀ taskId,
    (∀ page ∈ pages, ∃ row ∈ page.1.tasks.rows, row.lists scope filters = true ∧
      row.columns.taskId = taskId) →
    ((pages.flatMap fun page => page.2.items).map TaskStatus.taskId).count taskId = 1

theorem tasks_fixed {final : Database} (valid : final.Valid) {db now : Database}
    (earlier : db.Valid ∧ db.Remembers final) (later : now.Valid ∧ now.Remembers final)
    {a b : TaskRow} (ha : a ∈ db.tasks.listed scope filters) (hb : b ∈ now.tasks.listed scope filters) :
    a.columns.taskId = b.columns.taskId ↔ a.position.place = b.position.place := by
  constructor
  · intro same
    have known := earlier.2.1 (earlier.1.tasks.known a (List.mem_of_mem_filter ha))
    have known' := later.2.1 (later.1.tasks.known b (List.mem_of_mem_filter hb))
    have columns := List.inj_on_of_nodup_map valid.tasks.submitted known known' same
    rw [TaskRow.position, TaskRow.position, columns]
  · intro same
    exact congrArg TaskPosition.taskId (place_injective same)

theorem tasks_shown (correct : serde.Correct) {db : Database} (valid : db.Valid)
    (walk : Walk (readTasks serde bound scope filters) TaskPage.nextCursor db none pages) :
    TasksShown scope filters pages := by
  obtain ⟨final, last, -, each⟩ := walk.remembered valid
  have same : ∀ (db : Database) row task, db.tasks.status row = .ok task →
      task.position.place = row.position.place ∧ task.taskId = row.columns.taskId := by
    intro db row task decoded
    have position := (TaskTables.status_ok decoded).2.2.2.1
    exact ⟨congrArg TaskPosition.place position, congrArg TaskPosition.taskId position⟩
  obtain ⟨order, distinct, listed, complete⟩ := Listing.walk_sound
    (tasksListing_sound correct) (fun task => task.position.place) TaskStatus.taskId
    (fun row => row.columns.taskId) same walk (fun page mem => (each page mem).1.tasks.places)
    fun page mem page' mem' a ha b hb => tasks_fixed last (each page mem) (each page' mem') ha hb
  refine ⟨order, distinct, fun page mem task here => ?_, fun ended taskId always => ?_⟩
  · obtain ⟨row, inside, decoded⟩ := listed page mem task here
    obtain ⟨there, lists⟩ := List.mem_filter.mp inside
    obtain ⟨owned, matched⟩ := (TaskTables.lists_iff decoded).mp lists
    exact ⟨owned, matched, row, there, (TaskTables.status_ok decoded).1, decoded⟩
  · refine complete ended taskId fun page mem => ?_
    obtain ⟨row, there, lists, same⟩ := always page mem
    exact List.mem_map.mpr ⟨row, List.mem_filter.mpr ⟨there, lists⟩, same⟩

end Tasks

/- The approval inbox. -/

section Inbox
variable {serde : Serde} {bound : Option Scope} {query : ApprovalInboxQuery}
  {pages : List (Database × ApprovalInboxPage)}

def readInbox (serde : Serde) (bound : Option Scope) (query : ApprovalInboxQuery) (now : Database)
    (limit : Nat) (cursor : Option String) : Result ApprovalInboxPage :=
  now.inbox.approvalInboxOnce serde bound { query with cursor, limit }

def inboxListing (serde : Serde) (bound : Option Scope) (query : ApprovalInboxQuery) :
    Listing (Nat ×ₗ List Nat ×ₗ List Nat) ApprovalRow ApprovalInboxItem ApprovalInboxPage where
  read := readInbox serde bound query
  next := ApprovalInboxPage.nextCursor
  items := ApprovalInboxPage.items
  rows now := now.inbox.listed query
  key row := row.position.rank
  decodes _ row item := row.item = .ok item
  stands cursor k := ∀ limit q,
    ApprovalInboxQuery.validate serde { query with cursor, limit } = .ok q →
    q.map ApprovalInboxPosition.rank = k

theorem inboxListing_sound (correct : serde.Correct) : (inboxListing serde bound query).Sound where
  start := by
    intro limit q accepted
    obtain ⟨-, -, -, -, ⟨-, rfl⟩ | ⟨text, p, given, -, -⟩⟩ :=
      ApprovalInboxQuery.validate_eq_ok.mp accepted
    · rfl
    · cases given
  page := by
    intro now limit cursor position page done stands
    obtain ⟨p, rows, -, checked, -, read, -, -⟩ := InboxTables.approvalInboxOnce_ok done
    obtain rfl := stands limit p checked
    obtain ⟨-, -, -, ⟨some, -⟩, -⟩ := ApprovalInboxQuery.validate_eq_ok.mp checked
    obtain ⟨ended, goes⟩ := InboxTables.following_ok correct done checked
    have reads := @InboxTables.visit_reads now.inbox { query with cursor, limit } p some
    refine ⟨_, reads, ⟨rfl, fun r mem => reads.mem_rows mem, read, ended⟩, fun text given => ?_⟩
    obtain ⟨q, next, continues⟩ := goes text given
    refine ⟨q.rank, next, fun limit' q' accepted => ?_⟩
    rw [continues { query with cursor := .some text, limit := limit' } rfl ⟨rfl, rfl, rfl, rfl⟩ q'
      accepted]
    rfl

structure InboxShown (query : ApprovalInboxQuery) (pages : List (Database × ApprovalInboxPage)) :
    Prop where
  ascending : (pages.flatMap fun page => page.2.items).Pairwise fun a b =>
    a.position.rank < b.position.rank
  distinct : ((pages.flatMap fun page => page.2.items).map fun item =>
    (item.workflowId, item.key)).Nodup
  listed : ∀ page ∈ pages, ∀ item ∈ page.2.items, query.matchesItem item = true ∧
    ∃ row ∈ page.1.inbox.approvals, page.1.inbox.Live row.columns.workflowId ∧
      (⟨row.columns.tenantId, row.columns.namespaceId⟩ : Scope) = query.scope ∧ row.item = .ok item
  complete : (∃ page ∈ pages.getLast?, page.2.nextCursor = none) → ∀ identity,
    (∀ page ∈ pages, ∃ row ∈ page.1.inbox.approvals, row.lists query = true ∧
      page.1.inbox.Live row.columns.workflowId ∧ row.columns.identity = identity) →
    ((pages.flatMap fun page => page.2.items).map fun item =>
      (item.workflowId, item.key)).count identity = 1

/-- An approval keeps its identity and its position in all snapshots of a walk. -/
theorem inbox_fixed {final : Database} (valid : final.Valid) {db now : Database}
    (earlier : db.Valid ∧ db.Remembers final) (later : now.Valid ∧ now.Remembers final)
    {a b : ApprovalRow} (ha : a ∈ db.inbox.listed query) (hb : b ∈ now.inbox.listed query) :
    a.columns.identity = b.columns.identity ↔ a.position.rank = b.position.rank := by
  constructor
  · intro same
    have known := earlier.2.2 (earlier.1.inbox.known a (List.mem_of_mem_filter ha))
    have known' := later.2.2 (later.1.inbox.known b (List.mem_of_mem_filter hb))
    have columns := List.inj_on_of_nodup_map valid.inbox.proposed known known' same
    rw [ApprovalRow.position, ApprovalRow.position, columns]
  · intro same
    have positions := rank_injective same
    exact congrArg₂ Prod.mk (congrArg ApprovalInboxPosition.workflowId positions)
      (congrArg ApprovalInboxPosition.key positions)

theorem inbox_shown (correct : serde.Correct) {db : Database} (valid : db.Valid)
    (walk : Walk (readInbox serde bound query) ApprovalInboxPage.nextCursor db none pages) :
    InboxShown query pages := by
  obtain ⟨final, last, -, each⟩ := walk.remembered valid
  have same : ∀ (_ : Database) (row : ApprovalRow) item, row.item = .ok item →
      item.position.rank = row.position.rank ∧
        (item.workflowId, item.key) = row.columns.identity := by
    intro _ row item decoded
    obtain ⟨position, identity, -⟩ := ApprovalRow.item_ok decoded
    exact ⟨congrArg ApprovalInboxPosition.rank position, identity⟩
  obtain ⟨order, distinct, listed, complete⟩ := Listing.walk_sound
    (inboxListing_sound correct) (fun item => item.position.rank)
    (fun item => (item.workflowId, item.key)) (fun row => row.columns.identity) same walk
    (fun page mem => (each page mem).1.inbox.places)
    fun page mem page' mem' a ha b hb => inbox_fixed last (each page mem) (each page' mem') ha hb
  refine ⟨order, distinct, fun page mem item here => ?_, fun ended identity always => ?_⟩
  · obtain ⟨row, inside, decoded⟩ := listed page mem item here
    obtain ⟨there, lists⟩ := List.mem_filter.mp inside
    rw [Bool.and_eq_true, decide_eq_true_eq] at lists
    obtain ⟨owned, matched⟩ := (ApprovalRow.lists_iff decoded).mp lists.1
    exact ⟨matched, row, there, lists.2, owned, decoded⟩
  · refine complete ended identity fun page mem => ?_
    obtain ⟨row, there, lists, live, same⟩ := always page mem
    refine List.mem_map.mpr ⟨row, List.mem_filter.mpr ⟨there, ?_⟩, same⟩
    rw [lists, decide_eq_true live]
    rfl

end Inbox
end Ledgence.Pages

/-! Pagination neither repeats nor skips, and its cursors and pages keep their contracts. -/

namespace Ledgence.Pages

section Cursors
variable {serde : Serde}

/-- A cursor for tasks fits its limit, reads back under its own scope and filters, and under no
other. -/
theorem task_cursor (correct : serde.Correct) {query : TaskListQuery} {scope : Scope}
    {previous : Option TaskPosition} {position : TaskPosition}
    (checked : query.validate serde scope = .ok previous)
    (inside : position.validate query.filters = .ok ()) :
    ∃ text, query.nextCursor serde scope position = .ok text ∧ byteLen text ≤ taskCursorMaxBytes ∧
      ∀ (other : TaskListQuery) (scope' : Scope), other.cursor = some text →
        (∀ q, other.validate serde scope' = .ok q →
          scope' = scope ∧ other.filters = query.filters ∧ q = some position) ∧
        (scope' = scope → other.filters = query.filters → 1 ≤ other.limit →
          other.limit ≤ taskListMaxLimit → other.validate serde scope' = .ok (some position)) := by
  obtain ⟨text, written, short, -, decodes⟩ := TaskListQuery.nextCursor_ok correct checked inside
  obtain ⟨named, filters, -, -⟩ := TaskListQuery.validate_eq_ok.mp checked
  refine ⟨text, written, short, fun other scope' given => ⟨fun q accepted => ?_, ?_⟩⟩
  · obtain ⟨-, -, -, ⟨absent, -⟩ | ⟨text', p, given', rfl, decoded⟩⟩ :=
      TaskListQuery.validate_eq_ok.mp accepted
    · rw [given] at absent
      cases absent
    · obtain rfl : text = text' := Option.some.inj (given.symm.trans given')
      rw [decodes] at decoded
      by_cases same : scope' = scope ∧ other.filters = query.filters
      · rw [if_pos same] at decoded
        exact ⟨same.1, same.2, congrArg some (Except.ok.inj decoded).symm⟩
      · rw [if_neg same] at decoded
        cases decoded
  · rintro rfl sameFilters low high
    refine TaskListQuery.validate_eq_ok.mpr ⟨named, sameFilters ▸ filters, ⟨low, high⟩,
      .inr ⟨text, position, given, rfl, ?_⟩⟩
    rw [decodes, if_pos ⟨rfl, sameFilters⟩]

/-- A cursor for the inbox fits its limit, reads back under its own scope and filters where these
allow its position, and under no other. -/
theorem inbox_cursor (correct : serde.Correct) {query : ApprovalInboxQuery}
    {previous : Option ApprovalInboxPosition} {item : ApprovalInboxItem}
    (checked : query.validate serde = .ok previous) (inside : item.position.validate = .ok ()) :
    ∃ text, query.nextCursor item = .ok text ∧ byteLen text ≤ approvalInboxCursorMaxBytes ∧
      ∀ other : ApprovalInboxQuery, other.cursor = some text →
        (∀ q, other.validate serde = .ok q → query.Agrees other ∧ q = some item.position) ∧
        (query.Agrees other → query.dueBefore.all (item.deadline < ·) = true → 1 ≤ other.limit →
          other.limit ≤ approvalInboxMaxLimit →
          other.validate serde = .ok (some item.position)) := by
  obtain ⟨text, written, short, -, decodes⟩ :=
    ApprovalInboxQuery.nextCursor_ok correct checked inside
  obtain ⟨named, program, times, -, -⟩ := ApprovalInboxQuery.validate_eq_ok.mp checked
  refine ⟨text, written, short, fun other given => ⟨fun q accepted => ?_, ?_⟩⟩
  · obtain ⟨-, -, -, -, ⟨absent, -⟩ | ⟨text', p, given', rfl, decoded⟩⟩ :=
      ApprovalInboxQuery.validate_eq_ok.mp accepted
    · rw [given] at absent
      cases absent
    · obtain rfl : text = text' := Option.some.inj (given.symm.trans given')
      rw [decodes] at decoded
      by_cases same : query.Agrees other ∧ query.dueBefore.all (item.deadline < ·) = true
      · rw [if_pos same] at decoded
        exact ⟨same.1, congrArg some (Except.ok.inj decoded).symm⟩
      · rw [if_neg same] at decoded
        cases decoded
  · rintro ⟨scopes, statuses, programs, dues⟩ early low high
    refine ApprovalInboxQuery.validate_eq_ok.mpr ⟨scopes ▸ named, programs ▸ program, dues ▸ times,
      ⟨low, high⟩, .inr ⟨text, item.position, given, rfl, ?_⟩⟩
    rw [decodes, if_pos ⟨⟨scopes, statuses, programs, dues⟩, early⟩]

end Cursors

theorem task_page_valid {serde : Serde} {bound : Option Scope} {tables : TaskTables} {scope : Scope}
    {request : TaskListQuery} {page : TaskPage}
    (done : tables.listTasksOnce serde bound scope request = .ok page) :
    page.validate serde scope request = .ok () ∧ page.toJson.size ≤ taskPageMaxBytes := by
  obtain ⟨-, -, -, -, -, valid⟩ := TaskTables.listTasksOnce_ok done
  refine ⟨valid, ?_⟩
  simp only [TaskPage.validate, bind_eq_ok, exists_unit, ok_of_mapError, checkEncodedSize,
    refuse_eq_ok, not_lt] at valid
  obtain ⟨-, -, -, -, -, fits⟩ := valid
  exact fits

theorem inbox_page_valid {serde : Serde} (correct : serde.Correct) {bound : Option Scope}
    {tables : InboxTables} {query : ApprovalInboxQuery} {page : ApprovalInboxPage}
    (done : tables.approvalInboxOnce serde bound query = .ok page) :
    page.validateFor serde query = .ok () ∧ page.toJson.size ≤ approvalInboxPageMaxBytes := by
  obtain ⟨-, -, -, -, -, -, -, valid⟩ := InboxTables.approvalInboxOnce_ok done
  exact ⟨valid, InboxTables.page_size_le correct done⟩

/-- Walks over tasks and over the approval inbox are ordered, repeat no identity, show what matches
in its snapshot, and to their end skip nothing that matches in all snapshots. Cursors fit their
limit and read back under their own scope and filters only. Every page that is returned passes its
validation within its size, and one is returned where the listed rows are sound. -/
theorem keyset_pagination (serde : Serde) (correct : serde.Correct) :
    (∀ (db : Database) (bound : Option Scope) (scope : Scope) (filters : TaskFilters)
      (pages : List (Database × TaskPage)), db.Reachable →
      Walk (readTasks serde bound scope filters) TaskPage.nextCursor db none pages →
      TasksShown scope filters pages) ∧
    (∀ (db : Database) (bound : Option Scope) (query : ApprovalInboxQuery)
      (pages : List (Database × ApprovalInboxPage)), db.Reachable →
      Walk (readInbox serde bound query) ApprovalInboxPage.nextCursor db none pages →
      InboxShown query pages) ∧
    (∀ (query : TaskListQuery) (scope : Scope) (previous : Option TaskPosition)
      (position : TaskPosition), query.validate serde scope = .ok previous →
      position.validate query.filters = .ok () →
      ∃ text, query.nextCursor serde scope position = .ok text ∧
        byteLen text ≤ taskCursorMaxBytes ∧
        ∀ (other : TaskListQuery) (scope' : Scope), other.cursor = some text →
          (∀ q, other.validate serde scope' = .ok q →
            scope' = scope ∧ other.filters = query.filters ∧ q = some position) ∧
          (scope' = scope → other.filters = query.filters → 1 ≤ other.limit →
            other.limit ≤ taskListMaxLimit →
            other.validate serde scope' = .ok (some position))) ∧
    (∀ (query : ApprovalInboxQuery) (previous : Option ApprovalInboxPosition)
      (item : ApprovalInboxItem), query.validate serde = .ok previous →
      item.position.validate = .ok () →
      ∃ text, query.nextCursor item = .ok text ∧ byteLen text ≤ approvalInboxCursorMaxBytes ∧
        ∀ other : ApprovalInboxQuery, other.cursor = some text →
          (∀ q, other.validate serde = .ok q → query.Agrees other ∧ q = some item.position) ∧
          (query.Agrees other → query.dueBefore.all (item.deadline < ·) = true → 1 ≤ other.limit →
            other.limit ≤ approvalInboxMaxLimit →
            other.validate serde = .ok (some item.position))) ∧
    (∀ (db : Database) (bound : Option Scope) (scope : Scope) (request : TaskListQuery),
      db.Reachable →
      (∀ page, db.tasks.listTasksOnce serde bound scope request = .ok page →
        page.validate serde scope request = .ok () ∧ page.toJson.size ≤ taskPageMaxBytes) ∧
      ((∃ previous, request.validate serde scope = .ok previous) →
        requireScope bound scope = .ok () →
        (∀ row ∈ db.tasks.listed scope request.filters, ∃ task, db.tasks.status row = .ok task) →
        ∃ page, db.tasks.listTasksOnce serde bound scope request = .ok page)) ∧
    (∀ (db : Database) (bound : Option Scope) (query : ApprovalInboxQuery), db.Reachable →
      (∀ page, db.inbox.approvalInboxOnce serde bound query = .ok page →
        page.validateFor serde query = .ok () ∧ page.toJson.size ≤ approvalInboxPageMaxBytes) ∧
      ((∃ previous, query.validate serde = .ok previous) →
        requireScope bound query.scope = .ok () →
        (∀ row ∈ db.inbox.listed query, ∃ item, row.item = .ok item ∧ item.validate = .ok ()) →
        ∃ page, db.inbox.approvalInboxOnce serde bound query = .ok page)) := by
  refine ⟨fun db bound scope filters pages reachable walk => ?_,
    fun db bound query pages reachable walk => ?_,
    fun query scope previous position checked inside => task_cursor correct checked inside,
    fun query previous item checked inside => inbox_cursor correct checked inside,
    fun db bound scope request reachable => ⟨fun page done => task_page_valid done, ?_⟩,
    fun db bound query reachable => ⟨fun page done => inbox_page_valid correct done, ?_⟩⟩
  · exact tasks_shown correct reachable.valid walk
  · exact inbox_shown correct reachable.valid walk
  · rintro ⟨previous, checked⟩ served sound
    exact TaskTables.listTasksOnce_sound correct reachable.valid.tasks served checked sound
  · rintro ⟨previous, checked⟩ served sound
    exact InboxTables.approvalInboxOnce_sound correct reachable.valid.inbox served checked sound

/- Two tasks, and a third one that is submitted between the two pages. -/

def sampleTask (taskId : String) (submittedAt : Nat) : Write :=
  .task (.submit ⟨"t", "n", taskId, "r", "q", none, none, submittedAt⟩ none)

def sampleScope : Scope := ⟨"t", "n"⟩

def sampleFilters : TaskFilters := ⟨none, none, none, none, none⟩

def sampleCommit (db : Database) (writes : List Write) : Database :=
  (db.commit writes).toOption.getD db

def sampleFirst : Database :=
  sampleCommit .empty [sampleTask "a" 5, sampleTask "b" 7]

def sampleSecond : Database :=
  sampleCommit sampleFirst [sampleTask "c" 9]

theorem sampleCommit_ok {db : Database} {writes : List Write} (done : (db.commit writes).isOk = true) :
    db.commit writes = .ok (sampleCommit db writes) := by
  obtain ⟨next, ok⟩ := exists_of_isOk done
  rw [sampleCommit, ok]
  rfl

theorem sample_status :
    (∀ row ∈ sampleFirst.tasks.listed sampleScope sampleFilters,
      (sampleFirst.tasks.status row).isOk = true) ∧
    ∀ row ∈ sampleSecond.tasks.listed sampleScope sampleFilters,
      (sampleSecond.tasks.status row).isOk = true := by
  decide +kernel

theorem sample_second :
    (∀ text, (sampleSecond.tasks.visit sampleScope ⟨sampleFilters, 1, text⟩
      (some ⟨7, "b"⟩)).items.map TaskRow.position = [⟨5, "a"⟩]) ∧
    ∀ text, ¬ 1 < (sampleSecond.tasks.query sampleScope ⟨sampleFilters, 1, text⟩
      (some ⟨7, "b"⟩)).length := by
  constructor
  · intro text
    change (sampleSecond.tasks.visit sampleScope ⟨sampleFilters, 1, none⟩
      (some ⟨7, "b"⟩)).items.map TaskRow.position = [⟨5, "a"⟩]
    decide +kernel
  · intro text
    change ¬ 1 < (sampleSecond.tasks.query sampleScope ⟨sampleFilters, 1, none⟩
      (some ⟨7, "b"⟩)).length
    decide +kernel

theorem keyset_pagination_two_pages : ∃ first second : TaskPage,
    Walk (readTasks .ofZeros none sampleScope sampleFilters) TaskPage.nextCursor .empty none
      [(sampleFirst, first), (sampleSecond, second)] ∧
    TasksShown sampleScope sampleFilters [(sampleFirst, first), (sampleSecond, second)] ∧
    (first.items ++ second.items).map TaskStatus.position = [⟨7, "b"⟩, ⟨5, "a"⟩] := by
  obtain ⟨tasks, -, cursors, -, pages, -⟩ := keyset_pagination .ofZeros Serde.ofZeros_correct
  have early : Database.empty.commit [sampleTask "a" 5, sampleTask "b" 7] = .ok sampleFirst :=
    sampleCommit_ok (by decide +kernel)
  have later : sampleFirst.commit [sampleTask "c" 9] = .ok sampleSecond :=
    sampleCommit_ok (by decide +kernel)
  have reachable : sampleSecond.Reachable :=
    ⟨_, foldlM_append_ok.mpr ⟨sampleFirst, early, later⟩⟩
  have served : requireScope none sampleScope = .ok () := by decide +kernel
  -- the first page has a cursor behind the newer task
  have start : (TaskListQuery.mk sampleFilters 1 none).validate .ofZeros sampleScope = .ok none := by
    decide +kernel
  obtain ⟨first, read⟩ := (pages sampleFirst none sampleScope ⟨sampleFilters, 1, none⟩
    ⟨_, early⟩).2 ⟨none, start⟩ served fun row mem => exists_of_isOk (sample_status.1 row mem)
  obtain ⟨p, -, checked, items, following, -⟩ := TaskTables.listTasksOnce_ok read
  obtain rfl : p = none := Except.ok.inj (checked.symm.trans start)
  rw [if_pos (by decide +kernel)] at following
  obtain ⟨last, text, here, written, cursor⟩ := following
  have shown : first.items.map TaskStatus.position = [⟨7, "b"⟩] :=
    (TaskTables.positions_eq items).trans (by decide +kernel)
  have behind : last.position = ⟨7, "b"⟩ := by
    have ends := congrArg List.getLast? shown
    rw [List.getLast?_map, here] at ends
    exact Option.some.inj ends
  -- which the second page reads back
  obtain ⟨text', same, -, reads⟩ := cursors ⟨sampleFilters, 1, none⟩ sampleScope none ⟨7, "b"⟩ start
    (by decide +kernel)
  obtain rfl : text = text' := Except.ok.inj ((behind ▸ written).symm.trans same)
  have goes : (TaskListQuery.mk sampleFilters 1 (some text)).validate .ofZeros sampleScope =
      .ok (some ⟨7, "b"⟩) := (reads ⟨sampleFilters, 1, some text⟩ sampleScope rfl).2 rfl rfl le_rfl
    (show 1 ≤ taskListMaxLimit by decide)
  obtain ⟨second, read'⟩ := (pages sampleSecond none sampleScope ⟨sampleFilters, 1, some text⟩
    reachable).2 ⟨_, goes⟩ served fun row mem => exists_of_isOk (sample_status.2 row mem)
  obtain ⟨p, -, checked', items', following', -⟩ := TaskTables.listTasksOnce_ok read'
  obtain rfl : p = some ⟨7, "b"⟩ := Except.ok.inj (checked'.symm.trans goes)
  have shown' : second.items.map TaskStatus.position = [⟨5, "a"⟩] :=
    (TaskTables.positions_eq items').trans (sample_second.1 (some text))
  have ended : second.nextCursor = none := by
    rw [if_neg] at following'
    · exact following'
    · exact sample_second.2 (some text)
  have walk : Walk (readTasks .ofZeros none sampleScope sampleFilters) TaskPage.nextCursor .empty none
      [(sampleFirst, first), (sampleSecond, second)] :=
    .more early read cursor (.last later read' ended)
  refine ⟨first, second, walk, tasks .empty none sampleScope sampleFilters _ ⟨[], rfl⟩ walk, ?_⟩
  rw [List.map_append, shown, shown']
  rfl

end Ledgence.Pages
