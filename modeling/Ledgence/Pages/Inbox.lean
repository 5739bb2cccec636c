import Ledgence.Pages.Tasks

/-! One page of the approval inbox: a statement over the rows, their decoding, and the checks of the
page. -/
open Kit Kit.Checked

namespace Ledgence.Pages

def ApprovalRow.position (row : ApprovalRow) : ApprovalInboxPosition :=
  ⟨row.columns.deadline, row.columns.workflowId, row.columns.waitKey⟩

def ApprovalRow.item (row : ApprovalRow) : Result ApprovalInboxItem := do
  let createdAt ← timestamp row.columns.createdAt
  let deadline ← timestamp row.columns.deadline
  return { workflowId := row.columns.workflowId
           key := row.columns.waitKey
           activationId := row.columns.activationId
           programId := row.columns.programId
           programVersion := row.columns.programVersion
           actionName := row.columns.actionName
           actionVersion := row.columns.actionVersion
           createdAt
           deadline
           status := row.status }

def ApprovalRow.lists (query : ApprovalInboxQuery) (row : ApprovalRow) : Bool :=
  row.columns.tenantId == query.scope.tenantId &&
    row.columns.namespaceId == query.scope.namespaceId && query.status.all (· == row.status) &&
    query.programId.all (· == row.columns.programId) &&
    query.dueBefore.all (row.columns.deadline < ·)

namespace InboxTables

def listed (tables : InboxTables) (query : ApprovalInboxQuery) : List ApprovalRow :=
  tables.approvals.filter fun row => row.lists query && decide (tables.Live row.columns.workflowId)

/-- `approval_inbox::select`: behind the position, the earliest first, one more than the limit. -/
def select (tables : InboxTables) (query : ApprovalInboxQuery)
    (after : Option ApprovalInboxPosition) : Result (List ApprovalRow) := do
  ifSome query.dueBefore ms
  ifSome after fun position => ms position.deadline
  return Keyset.select (fun row => row.position.rank) (after.map ApprovalInboxPosition.rank)
    query.limit (tables.listed query)

def followingCursor (query : ApprovalInboxQuery) (more : Bool) (items : List ApprovalInboxItem) :
    Result (Option String) :=
  if more = true then do
    let last ← okOr items.getLast? (corrupt "empty inbox page")
    some <$> query.nextCursor last
  else return none

def approvalInboxOnce (serde : Serde) (bound : Option Scope) (tables : InboxTables)
    (query : ApprovalInboxQuery) : Result ApprovalInboxPage := do
  requireScope bound query.scope
  let after ← query.validate serde
  let rows ← tables.select query after
  let items ← (rows.take query.limit).mapM ApprovalRow.item
  let nextCursor ← followingCursor query (query.limit < rows.length) items
  let page : ApprovalInboxPage := ⟨items, nextCursor⟩
  (page.validateFor serde query).mapError fun _ => corrupt "approval inbox page"
  return page

end InboxTables

/- Decoding. -/

section Item
variable {row : ApprovalRow} {item : ApprovalInboxItem} {query : ApprovalInboxQuery}

theorem ApprovalRow.item_ok (decoded : row.item = .ok item) :
    item.position = row.position ∧ (item.workflowId, item.key) = row.columns.identity ∧
      item.programId = row.columns.programId ∧ item.status = row.status ∧
      item.deadline ≤ maxTimestamp := by
  simp only [ApprovalRow.item, bind_eq_ok, timestamp_eq_ok, pure_eq_ok] at decoded
  obtain ⟨_, ⟨-, rfl⟩, _, ⟨inRange, rfl⟩, rfl⟩ := decoded
  exact ⟨rfl, rfl, rfl, rfl, inRange⟩

/-- The rows of an inbox are those of the scope whose item matches the filters. -/
theorem ApprovalRow.lists_iff (decoded : row.item = .ok item) : row.lists query = true ↔
    (⟨row.columns.tenantId, row.columns.namespaceId⟩ : Scope) = query.scope ∧
      query.matchesItem item = true := by
  obtain ⟨position, -, program, status, -⟩ := item_ok decoded
  have deadline : item.deadline = row.columns.deadline :=
    congrArg ApprovalInboxPosition.deadline position
  obtain ⟨⟨tenantId, namespaceId⟩, _⟩ := query
  simp only [ApprovalRow.lists, ApprovalInboxQuery.matchesItem, program, status, deadline,
    Bool.and_eq_true, beq_iff_eq, Scope.mk.injEq]
  tauto

end Item

theorem rank_injective : Function.Injective ApprovalInboxPosition.rank := by
  intro a b same
  have all : (a.deadline, textKey a.workflowId, textKey a.key) =
      (b.deadline, textKey b.workflowId, textKey b.key) := same
  obtain ⟨deadline, texts⟩ := Prod.mk.inj all
  obtain ⟨workflow, key⟩ := Prod.mk.inj texts
  cases a
  cases b
  simp only [ApprovalInboxPosition.mk.injEq]
  exact ⟨deadline, textKey_injective workflow, textKey_injective key⟩

/- A page of the inbox. -/

namespace InboxTables
variable {serde : Serde} {bound : Option Scope} {tables : InboxTables} {query : ApprovalInboxQuery}
  {page : ApprovalInboxPage} {after : Option ApprovalInboxPosition}

def visit (tables : InboxTables) (query : ApprovalInboxQuery)
    (after : Option ApprovalInboxPosition) :
    Keyset.Visit (Nat ×ₗ List Nat ×ₗ List Nat) ApprovalRow where
  rows := tables.listed query
  items := (Keyset.select (fun row => row.position.rank) (after.map ApprovalInboxPosition.rank)
    query.limit (tables.listed query)).take query.limit
  next := Keyset.next (after.map ApprovalInboxPosition.rank) query.limit
    ((tables.listed query).map fun row => row.position.rank)

theorem visit_reads (some : 0 < query.limit) : (tables.visit query after).Reads
    (fun row => row.position.rank) (after.map ApprovalInboxPosition.rank) :=
  ⟨query.limit, some, rfl, rfl⟩

theorem Valid.ids (valid : tables.Valid) :
    ((tables.listed query).map fun row => row.columns.identity).Nodup :=
  valid.approvals.sublist (List.filter_sublist.map _)

theorem Valid.places (valid : tables.Valid) :
    ((tables.listed query).map fun row => row.position.rank).Nodup := by
  have ids : ((tables.listed query).map fun row => row.columns.identity).Nodup := valid.ids
  rw [List.Nodup, List.pairwise_map] at ids ⊢
  refine ids.imp fun apart same => apart ?_
  have positions := rank_injective same
  exact congrArg₂ Prod.mk (congrArg ApprovalInboxPosition.workflowId positions)
    (congrArg ApprovalInboxPosition.key positions)

/-- The position behind the page is that of its last row, and there is one if rows are left. -/
theorem visit_next {rows : List ApprovalRow} (selected : tables.select query after = .ok rows) :
    (tables.visit query after).items = rows.take query.limit ∧
    (tables.visit query after).next = if query.limit < rows.length then
      ((tables.visit query after).items.map fun row => row.position.rank).getLast?
    else none := by
  have items : (tables.visit query after).items.map (fun row => row.position.rank) =
      Keyset.items (after.map ApprovalInboxPosition.rank) query.limit
        ((tables.listed query).map fun row => row.position.rank) :=
    Keyset.map_items rfl
  simp only [select, bind_eq_ok, pure_eq_ok] at selected
  obtain ⟨-, -, -, -, rfl⟩ := selected
  rw [items]
  exact ⟨rfl, by simp only [visit, Keyset.next, Keyset.length_select]⟩

theorem approvalInboxOnce_ok (done : tables.approvalInboxOnce serde bound query = .ok page) :
    ∃ after rows, requireScope bound query.scope = .ok () ∧ query.validate serde = .ok after ∧
      tables.select query after = .ok rows ∧
      List.Forall₂ (fun row item => row.item = .ok item) (tables.visit query after).items
        page.items ∧
      (if query.limit < rows.length then ∃ last text, page.items.getLast? = some last ∧
        query.nextCursor last = .ok text ∧ page.nextCursor = some text
      else page.nextCursor = none) ∧
      page.validateFor serde query = .ok () := by
  simp only [approvalInboxOnce, bind_eq_ok, exists_unit, pure_eq_ok, mapM_eq_ok, followingCursor,
    decide_eq_true_eq, ok_of_mapError] at done
  obtain ⟨served, after, checked, rows, selected, items, read, cursor, following, valid, rfl⟩ := done
  refine ⟨after, rows, served, checked, selected, (visit_next selected).1 ▸ read, ?_, valid⟩
  by_cases more : query.limit < rows.length
  · rw [if_pos more] at following ⊢
    simp only [bind_eq_ok, okOr_eq_ok, map_eq_ok] at following
    obtain ⟨last, here, text, written, rfl⟩ := following
    exact ⟨last, text, here, written, rfl⟩
  · rw [if_neg more] at following ⊢
    exact (pure_eq_ok.mp following).symm

theorem positions_eq {rows : List ApprovalRow} {items : List ApprovalInboxItem}
    (read : List.Forall₂ (fun row item => row.item = .ok item) rows items) :
    items.map ApprovalInboxItem.position = rows.map ApprovalRow.position :=
  Keyset.map_eq_of_forall₂ read fun _ _ _ decoded => (ApprovalRow.item_ok decoded).1

theorem items_ok (checked : page.validateFor serde query = .ok ()) {item : ApprovalInboxItem}
    (mem : item ∈ page.items) : item.validate = .ok () ∧ query.matchesItem item = true := by
  simp only [ApprovalInboxPage.validateFor, bind_eq_ok, exists_unit] at checked
  obtain ⟨previous, -, -, items, -⟩ := checked
  exact ApprovalInboxPage.checkItem_eq_ok.mp ((Keyset.checkItems_eq_ok.mp items).1 item mem)

theorem nextCursor_ok (correct : serde.Correct) (checked : query.validate serde = .ok after)
    {item : ApprovalInboxItem} (accepted : item.validate = .ok ())
    (matched : query.matchesItem item = true) :
    ∃ text, query.nextCursor item = .ok text ∧
      Json.size (.str text) ≤ 2 * approvalInboxCursorMaxBytes + 2 ∧
      ∀ other : ApprovalInboxQuery, other.decodeCursor serde text =
        if query.Agrees other then .ok item.position else .error ApprovalInboxQuery.mismatched := by
  simp only [ApprovalInboxQuery.matchesItem, Bool.and_eq_true] at matched
  obtain ⟨text, written, -, size, decodes⟩ := ApprovalInboxQuery.nextCursor_ok correct checked
    (ApprovalInboxItem.validate_eq_ok.mp accepted).1
  refine ⟨text, written, size, fun other => ?_⟩
  rw [decodes, matched.1.1]
  simp only [and_true]

/-- A page without a cursor leaves no rows, and one with a cursor goes on behind its last row. -/
theorem following_ok (correct : serde.Correct)
    (done : tables.approvalInboxOnce serde bound query = .ok page)
    (checked : query.validate serde = .ok after) :
    (page.nextCursor = none → (tables.visit query after).next = none) ∧
    ∀ text, page.nextCursor = some text → ∃ p : ApprovalInboxPosition,
      (tables.visit query after).next = some p.rank ∧
      ∀ other : ApprovalInboxQuery, other.cursor = some text → query.Agrees other →
        ∀ q, other.validate serde = .ok q → q = some p := by
  obtain ⟨after', rows, served, checked', selected, read, following, valid⟩ :=
    approvalInboxOnce_ok done
  obtain rfl : after' = after := Except.ok.inj (checked'.symm.trans checked)
  rw [(visit_next selected).2]
  by_cases more : query.limit < rows.length
  · rw [if_pos more] at following ⊢
    obtain ⟨last, text, here, written, cursor⟩ := following
    refine ⟨fun ended => absurd (cursor.symm.trans ended) (by simp), fun text' given => ?_⟩
    obtain rfl : text = text' := Option.some.inj (cursor.symm.trans given)
    have places := congrArg (fun ps => (ps.map ApprovalInboxPosition.rank).getLast?)
      (positions_eq read)
    simp only [List.map_map, List.getLast?_map, here, Option.map_some] at places
    refine ⟨last.position, ?_, fun other sameText agrees q accepted => ?_⟩
    · rw [List.getLast?_map]
      exact places.symm
    · obtain ⟨fits, matched⟩ := items_ok valid (List.mem_of_getLast? here)
      obtain ⟨text', same, -, decodes⟩ := nextCursor_ok correct checked' fits matched
      obtain rfl : text = text' := Except.ok.inj (written.symm.trans same)
      obtain ⟨-, -, -, -, ⟨absent, -⟩ | ⟨text', p, given', rfl, decoded⟩⟩ :=
        ApprovalInboxQuery.validate_eq_ok.mp accepted
      · rw [sameText] at absent
        cases absent
      · obtain rfl : text = text' := Option.some.inj (sameText.symm.trans given')
        rw [decodes, if_pos agrees] at decoded
        exact congrArg some (Except.ok.inj decoded).symm
  · rw [if_neg more] at following ⊢
    refine ⟨fun _ => rfl, fun text given => ?_⟩
    rw [following] at given
    cases given

theorem select_ok (checked : query.validate serde = .ok after) :
    ∃ rows, tables.select query after = .ok rows := by
  obtain ⟨-, -, times, -, cursor⟩ := ApprovalInboxQuery.validate_eq_ok.mp checked
  have positions : ∀ p, after = some p → p.deadline ≤ maxTimestamp := by
    rintro p rfl
    obtain ⟨-, none⟩ | ⟨text, q, -, same, decoded⟩ := cursor
    · cases none
    · obtain rfl := Option.some.inj same
      simp only [ApprovalInboxQuery.decodeCursor, bind_eq_ok, exists_unit, pure_eq_ok] at decoded
      obtain ⟨-, -, c, -, -, accepted, rfl⟩ := decoded
      exact (ApprovalInboxPosition.validate_eq_ok.mp accepted).1
  simp only [select, bind_eq_ok, exists_unit, ifSome_eq_ok, pure_eq_ok, ms, refuse_eq_ok, not_lt]
  exact ⟨_, times, positions, rfl⟩

/-- Where all rows of an inbox give valid items, there is a page of it. -/
theorem approvalInboxOnce_sound (correct : serde.Correct) (valid : tables.Valid)
    (served : requireScope bound query.scope = .ok ()) (checked : query.validate serde = .ok after)
    (sound : ∀ row ∈ tables.listed query, ∃ item, row.item = .ok item ∧ item.validate = .ok ()) :
    ∃ page, tables.approvalInboxOnce serde bound query = .ok page := by
  obtain ⟨-, -, -, ⟨positive, limit⟩, -⟩ := ApprovalInboxQuery.validate_eq_ok.mp checked
  obtain ⟨rows, selected⟩ := @select_ok _ tables _ _ checked
  have taken := (visit_next selected).1
  have inside : ∀ row ∈ rows.take query.limit, row ∈ tables.listed query := by
    intro row mem
    rw [← taken] at mem
    exact Keyset.mem_of_mem_select (List.mem_of_mem_take mem)
  obtain ⟨items, mapped⟩ := exists_mapM fun row mem =>
    (sound row (inside row mem)).imp fun _ both => both.1
  have read := mapM_eq_ok.mp mapped
  have each : ∀ row ∈ tables.listed query, ∀ item, row.item = .ok item →
      item.validate = .ok () ∧ query.matchesItem item = true := by
    intro row mem item decoded
    obtain ⟨item', decoded', accepted⟩ := sound row mem
    obtain rfl : item' = item := Except.ok.inj (decoded'.symm.trans decoded)
    have listed := (List.mem_filter.mp mem).2
    rw [Bool.and_eq_true] at listed
    exact ⟨accepted, ((ApprovalRow.lists_iff decoded).mp listed.1).2⟩
  have items_each : ∀ item ∈ items, item.validate = .ok () ∧ query.matchesItem item = true := by
    intro item mem
    obtain ⟨row, here, decoded⟩ := Keyset.exists_of_mem_forall₂ read mem
    exact each row (inside row here) item decoded
  have passed : Keyset.checkItems (ApprovalInboxPage.checkItem query)
      (fun item => item.position.rank) (fun item => (item.workflowId, item.key))
      ApprovalInboxPage.inconsistent (after.map ApprovalInboxPosition.rank) [] items = .ok () := by
    rw [← taken] at read
    refine Keyset.checkItems_select valid.places valid.ids read fun row mem item decoded => ?_
    obtain ⟨same, identity, -⟩ := ApprovalRow.item_ok decoded
    exact ⟨ApprovalInboxPage.checkItem_eq_ok.mpr (each row mem item decoded),
      congrArg ApprovalInboxPosition.rank same, identity⟩
  have short : items.length ≤ query.limit := by
    rw [← read.length_eq]
    exact List.length_take_le _ _
  have page_valid : ∀ nextCursor : Option String, (∀ text, nextCursor = some text →
      items.length = query.limit ∧ ∃ last, items.getLast? = some last ∧
        query.nextCursor last = .ok text) →
      (ApprovalInboxPage.mk items nextCursor).validateFor serde query = .ok () := by
    intro nextCursor cursor
    simp only [ApprovalInboxPage.validateFor, bind_eq_ok, checked, Except.ok.injEq, exists_eq_left',
      refuse_eq_ok, exists_unit, passed, ifSome_eq_ok, okOr_eq_ok, not_lt, true_and]
    refine ⟨short, fun text given => ?_⟩
    obtain ⟨full, last, here, written⟩ := cursor text given
    exact ⟨by simp [full], last, here, text, written, by simp⟩
  by_cases more : query.limit < rows.length
  · have full : items.length = query.limit := by
      rw [← read.length_eq, List.length_take]
      omega
    obtain ⟨last, here⟩ : ∃ last, items.getLast? = some last := by
      cases ends : items.getLast? with
      | none =>
        rw [List.getLast?_eq_none_iff.mp ends] at full
        exact absurd full (by simp; omega)
      | some last => exact ⟨last, rfl⟩
    obtain ⟨accepted, matched⟩ := items_each last (List.mem_of_getLast? here)
    obtain ⟨text, written, -, -⟩ := nextCursor_ok correct checked accepted matched
    have good := page_valid (some text) fun text' given => by
      obtain rfl := Option.some.inj given
      exact ⟨full, last, here, written⟩
    have following : followingCursor query (query.limit < rows.length) items = .ok (some text) := by
      simp [followingCursor, more, here, written]
    refine ⟨⟨items, some text⟩, ?_⟩
    simp only [approvalInboxOnce, bind_eq_ok, exists_unit, pure_eq_ok, ok_of_mapError]
    exact ⟨served, after, checked, rows, selected, items, mapped, _, following, good, rfl⟩
  · have good := page_valid none fun text given => by cases given
    have following : followingCursor query (query.limit < rows.length) items = .ok none := by
      simp [followingCursor, more]
    refine ⟨⟨items, none⟩, ?_⟩
    simp only [approvalInboxOnce, bind_eq_ok, exists_unit, pure_eq_ok, ok_of_mapError]
    exact ⟨served, after, checked, rows, selected, items, mapped, _, following, good, rfl⟩

theorem page_size_le (correct : serde.Correct)
    (done : tables.approvalInboxOnce serde bound query = .ok page) :
    page.toJson.size ≤ approvalInboxPageMaxBytes := by
  obtain ⟨after, rows, -, checked, -, -, following, valid⟩ := approvalInboxOnce_ok done
  have short : page.items.length ≤ query.limit := by
    simp only [ApprovalInboxPage.validateFor, bind_eq_ok, exists_unit, refuse_eq_ok, not_lt] at valid
    obtain ⟨-, -, short, -⟩ := valid
    exact short
  obtain ⟨-, -, -, ⟨-, limit⟩, -⟩ := ApprovalInboxQuery.validate_eq_ok.mp checked
  refine ApprovalInboxPage.size_le (short.trans limit) (fun item mem => (items_ok valid mem).1)
    fun text given => ?_
  by_cases more : query.limit < rows.length
  · rw [if_pos more] at following
    obtain ⟨last, text', here, written, cursor⟩ := following
    obtain rfl : text = text' := Option.some.inj (given.symm.trans cursor)
    obtain ⟨fits, matched⟩ := items_ok valid (List.mem_of_getLast? here)
    obtain ⟨text', same, size, -⟩ := nextCursor_ok correct checked fits matched
    obtain rfl : text = text' := Except.ok.inj (written.symm.trans same)
    exact size
  · rw [if_neg more] at following
    rw [following] at given
    cases given

end InboxTables
end Ledgence.Pages
