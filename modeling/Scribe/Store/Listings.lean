import Mathlib.Data.Prod.Lex
import Mathlib.Data.String.Basic
import Scribe.Data.Attempt
import Scribe.Data.GoText
import Scribe.Data.Json
import Scribe.Data.Keyset

/-! The paged listings of the store: transcription jobs, contexts and selection rules.

Each cursor is the key of the last row of a page, and the condition of each query is the
order of its listing. A table here has what the listings read of it, and its rows have the
positive identifiers that the database assigns.
-/

set_option autoImplicit false

namespace Scribe.Store

open List

def maxPageSize : Nat := 100

/-! ## Transcription jobs -/

structure JobRow where
  id : Nat
  workspaceID : Nat
  itemImageID : Nat
  /-- Seconds; zero is no date. -/
  createdAt : Nat
  identified : 0 < id
  dated : 0 < createdAt

structure JobCursor where
  createdAt : Nat
  id : Nat

def JobRow.cursor (job : JobRow) : JobCursor := ⟨job.createdAt, job.id⟩

def JobCursor.Before (a b : JobCursor) : Prop :=
  b.createdAt < a.createdAt ∨ b.createdAt = a.createdAt ∧ b.id < a.id

instance : DecidableRel JobCursor.Before := fun a b =>
  inferInstanceAs (Decidable (b.createdAt < a.createdAt ∨ b.createdAt = a.createdAt ∧ b.id < a.id))

def jobVisible (workspaceID itemImageID : Nat) (job : JobRow) : Bool :=
  job.workspaceID = workspaceID ∧ (itemImageID = 0 ∨ job.itemImageID = itemImageID)

def listTranscriptionJobsPage (jobs : List JobRow) (workspaceID itemImageID : Nat)
    (cursorCreatedAt : Option Nat) (cursorID limit : Nat) : List JobRow :=
  Table.first (Keyset.Upto JobCursor.Before JobRow.cursor) limit
    (jobs.filter fun job => jobVisible workspaceID itemImageID job && cursorCreatedAt.all fun last =>
      job.createdAt < last ∨ job.createdAt = last ∧ job.id < cursorID)

def listPage (jobs : List JobRow) (workspaceID itemImageID pageSize : Nat)
    (cursor : Option JobCursor) : Except String (List JobRow × Option JobCursor) := do
  if workspaceID = 0 ∨ pageSize = 0 ∨ maxPageSize < pageSize then
    throw "invalid transcription job page: workspace and page size between 1 and 100 are required"
  if cursor.any fun last => last.createdAt = 0 ∨ last.id = 0 then
    throw "invalid transcription job page: cursor requires created_at and id"
  pure (Keyset.lookAhead JobRow.cursor pageSize
    (listTranscriptionJobsPage jobs workspaceID itemImageID (cursor.map JobCursor.createdAt)
      ((cursor.map JobCursor.id).getD 0) (pageSize + 1)))

/-! ## Contexts -/

structure ContextRow where
  id : Nat
  workspaceID : Option Nat
  isDefault : Bool
  identified : 0 < id

structure ContextCursor where
  id : Nat
  isDefault : Bool
  isSystem : Bool

def ContextRow.cursor (context : ContextRow) : ContextCursor :=
  ⟨context.id, context.isDefault, context.workspaceID.isNone⟩

/-- Defaults first, then the contexts of the system, then identifiers. -/
def ContextCursor.Before (a b : ContextCursor) : Prop :=
  b.isDefault < a.isDefault ∨ b.isDefault = a.isDefault ∧ b.isSystem < a.isSystem ∨
    b.isDefault = a.isDefault ∧ b.isSystem = a.isSystem ∧ a.id < b.id

instance : DecidableRel ContextCursor.Before := fun a b =>
  inferInstanceAs (Decidable (b.isDefault < a.isDefault ∨ b.isDefault = a.isDefault ∧
    b.isSystem < a.isSystem ∨
    b.isDefault = a.isDefault ∧ b.isSystem = a.isSystem ∧ a.id < b.id))

def contextVisible (workspaceID : Nat) (systemOnly : Bool) (context : ContextRow) : Bool :=
  context.workspaceID.isNone || (systemOnly = false && context.workspaceID = some workspaceID)

def listContextsPageForWorkspace (contexts : List ContextRow) (workspaceID : Nat)
    (systemOnly : Bool) (cursorID : Nat) (cursorIsDefault cursorIsSystem : Bool) (limit : Nat) :
    List ContextRow :=
  Table.first (Keyset.Upto ContextCursor.Before ContextRow.cursor) limit
    (contexts.filter fun context => contextVisible workspaceID systemOnly context &&
      (cursorID = 0 ∨ context.isDefault < cursorIsDefault ∨
        context.isDefault = cursorIsDefault ∧ context.workspaceID.isNone < cursorIsSystem ∨
        context.isDefault = cursorIsDefault ∧ context.workspaceID.isNone = cursorIsSystem ∧
        cursorID < context.id))

/-- The checks that the listings of contexts and of rules share. -/
def checkPage (listing : String) (workspaceID pageSize : Nat) (cursorID : Option Nat) :
    Except String Unit := do
  if workspaceID = 0 then throw s!"invalid {listing} page: workspace is required"
  if pageSize = 0 ∨ maxPageSize < pageSize then
    throw s!"invalid {listing} page: page size must be between 1 and 100"
  if cursorID = some 0 then throw s!"invalid {listing} page: cursor ID is required"
  if 2 ^ 63 ≤ workspaceID then
    throw s!"list {listing} page: uint64 value {workspaceID} exceeds int64 range"

def listPageForWorkspace (contexts : List ContextRow) (workspaceID : Nat) (systemOnly : Bool)
    (pageSize : Nat) (cursor : Option ContextCursor) :
    Except String (List ContextRow × Option ContextCursor) := do
  checkPage "context" workspaceID pageSize (cursor.map ContextCursor.id)
  pure (Keyset.lookAhead ContextRow.cursor pageSize
    (listContextsPageForWorkspace contexts workspaceID systemOnly
      ((cursor.map ContextCursor.id).getD 0)
      ((cursor.map ContextCursor.isDefault).getD false)
        ((cursor.map ContextCursor.isSystem).getD false) (pageSize + 1)))

/-! ## Selection rules -/

structure RuleRow where
  id : Nat
  contextID : Nat
  priority : Int
  conditions : Json
  identified : 0 < id

structure RuleCursor where
  id : Nat
  priority : Int

def RuleRow.cursor (rule : RuleRow) : RuleCursor := ⟨rule.id, rule.priority⟩

structure RuleCondition where
  field : String
  operator : String
  value : String

structure ContextSelectionRule where
  row : RuleRow
  conditions : List RuleCondition

def ContextSelectionRule.cursor (rule : ContextSelectionRule) : RuleCursor := rule.row.cursor

/-- A text member of a condition: the last one of its name counts, and null leaves it. -/
def memberText (members : Object) (name : String) : Except String String :=
  members.foldlM (fun text member =>
    if Go.equalFold member.1 name then
      match member.2 with
      | .str value => pure value
      | .null => pure text
      | _ => throw "cannot unmarshal"
    else pure text) ""

def decodeCondition : Json → Except String RuleCondition
  | .null => pure ⟨"", "", ""⟩
  | .obj members => do
    let field ← memberText members "field"
    let operator ← memberText members "operator"
    let value ← memberText members "value"
    pure ⟨field, operator, value⟩
  | _ => throw "cannot unmarshal"

def validateSelectionRule (rule : ContextSelectionRule) : Except String Unit := do
  if rule.row.contextID = 0 then throw "selection rule context is required"
  if 32 < rule.conditions.length then throw "selection rule may contain at most 32 conditions"
  for condition in rule.conditions do
    if Go.trimSpace condition.field = "" ∨ 255 < condition.field.utf8ByteSize then
      throw "selection rule field must contain at most 255 valid UTF-8 bytes"
    if 4096 < condition.value.utf8ByteSize then
      throw "selection rule value must contain at most 4096 valid UTF-8 bytes"
    if condition.operator ∉ ["eq", "neq", "contains", "starts_with", "ends_with"] then
      throw "selection rule operator is invalid"

def RuleRow.decodeConditions (row : RuleRow) : Except String (List RuleCondition) :=
  match row.conditions with
  | .arr entries => entries.mapM decodeCondition
  | .null => throw s!"selection rule {row.id} conditions must be a JSON array"
  | _ => throw s!"decode selection rule {row.id} conditions"

def rowToRule (row : RuleRow) : Except String ContextSelectionRule := do
  let conditions ← row.decodeConditions
  validateSelectionRule ⟨row, conditions⟩
  pure ⟨row, conditions⟩

def RuleCursor.Before (a b : RuleCursor) : Prop :=
  b.priority < a.priority ∨ b.priority = a.priority ∧ a.id < b.id

instance : DecidableRel RuleCursor.Before := fun a b =>
  inferInstanceAs (Decidable (b.priority < a.priority ∨ b.priority = a.priority ∧ a.id < b.id))

/-- The join with the contexts is on their primary key. -/
def ruleVisible (contexts : List ContextRow) (workspaceID contextID : Nat) (rule : RuleRow) : Bool :=
  contexts.any (fun context => context.id = rule.contextID &&
    contextVisible workspaceID false context) &&
    (contextID = 0 || rule.contextID = contextID)

def listSelectionRulesPageForWorkspace (contexts : List ContextRow) (rules : List RuleRow)
    (workspaceID contextID : Nat) (cursorID : Nat) (cursorPriority : Int) (limit : Nat) :
    List RuleRow :=
  Table.first (Keyset.Upto RuleCursor.Before RuleRow.cursor) limit
    (rules.filter fun rule => ruleVisible contexts workspaceID contextID rule &&
      (cursorID = 0 ∨ rule.priority < cursorPriority ∨ rule.priority = cursorPriority ∧
        cursorID < rule.id))

def listRulePageForWorkspace (contexts : List ContextRow) (rules : List RuleRow)
    (workspaceID contextID pageSize : Nat) (cursor : Option RuleCursor) :
    Except String (List ContextSelectionRule × Option RuleCursor) := do
  checkPage "selection rule" workspaceID pageSize (cursor.map RuleCursor.id)
  let (rows, next) := Keyset.lookAhead RuleRow.cursor pageSize
    (listSelectionRulesPageForWorkspace contexts rules workspaceID contextID
      ((cursor.map RuleCursor.id).getD 0)
      ((cursor.map RuleCursor.priority).getD 0) (pageSize + 1))
  let found ← rows.mapM rowToRule
  pure (found, next)

/-! ## The orders -/

instance : IsStrictTotalOrder JobCursor JobCursor.Before where
  trichotomous a b := by
    cases a
    cases b
    simp only [JobCursor.Before, JobCursor.mk.injEq]
    omega
  irrefl a := by
    simp only [JobCursor.Before]
    omega
  trans a b c := by
    simp only [JobCursor.Before]
    omega

instance : IsStrictTotalOrder RuleCursor RuleCursor.Before where
  trichotomous a b := by
    cases a
    cases b
    simp only [RuleCursor.Before, RuleCursor.mk.injEq]
    omega
  irrefl a := by
    simp only [RuleCursor.Before]
    omega
  trans a b c := by
    simp only [RuleCursor.Before]
    omega

instance : IsStrictTotalOrder ContextCursor ContextCursor.Before where
  trichotomous a b := by
    obtain ⟨_, ⟨⟩ | ⟨⟩, ⟨⟩ | ⟨⟩⟩ := a <;> obtain ⟨_, ⟨⟩ | ⟨⟩, ⟨⟩ | ⟨⟩⟩ := b <;>
      simp [ContextCursor.Before] <;> omega
  irrefl a := by simp [ContextCursor.Before]
  trans a b c := by
    obtain ⟨_, ⟨⟩ | ⟨⟩, ⟨⟩ | ⟨⟩⟩ :=
      a <;> obtain ⟨_, ⟨⟩ | ⟨⟩, ⟨⟩ | ⟨⟩⟩ := b <;> obtain ⟨_, ⟨⟩ | ⟨⟩, ⟨⟩ | ⟨⟩⟩ := c <;>
      simp [ContextCursor.Before] <;> omega

theorem before_wellFounded : WellFounded fun next last : JobCursor => last.Before next := by
  have wf := (Prod.lex Nat.lt_wfRel Nat.lt_wfRel).wf
  refine Subrelation.wf ?_ (InvImage.wf (fun last : JobCursor => (last.createdAt, last.id)) wf)
  intro next last later
  exact Prod.lex_iff.mpr later

/-! ## What the listings serve -/

theorem listPage_serves {tables : Nat → List JobRow} {workspaceID itemImageID pageSize : Nat}
    (distinct : ∀ time, ((tables time).map JobRow.id).Nodup) (workspace : workspaceID ≠ 0)
    (positive : 0 < pageSize) (bounded : pageSize ≤ maxPageSize) :
    Keyset.Serves JobCursor.Before JobRow.cursor (fun time =>
      listPage (tables time) workspaceID itemImageID pageSize)
      fun time => (tables time).filter (jobVisible workspaceID itemImageID) := by
  intro time cursor known
  refine ⟨_, _, ?_, Keyset.isPage_query JobCursor.id (distinct time) positive _ cursor⟩
  have request : ¬ (workspaceID = 0 ∨ pageSize = 0 ∨ maxPageSize < pageSize) := by omega
  have valid : (cursor.any fun last => last.createdAt = 0 ∨ last.id = 0) = false := by
    cases cursor with
    | none => rfl
    | some last =>
      obtain ⟨_, row, _, rfl⟩ := known last rfl
      have := row.identified
      have := row.dated
      simp [JobRow.cursor]
      omega
  have query : ∀ job : JobRow, ((cursor.map JobCursor.createdAt).all fun last =>
        job.createdAt < last ∨ job.createdAt = last ∧
          job.id < (cursor.map JobCursor.id).getD 0) = true ↔
      Keyset.Past JobCursor.Before JobRow.cursor cursor job := by
    intro job
    cases cursor <;> simp [Keyset.Past, JobCursor.Before, JobRow.cursor]
  show listPage (tables time) workspaceID itemImageID pageSize cursor = _
  rw [listPage, if_neg request, valid, listTranscriptionJobsPage, Keyset.filter_past query]
  rfl

theorem checkPage_ok {listing : String} {workspaceID pageSize : Nat} {cursorID : Option Nat}
    (workspace : workspaceID ≠ 0) (small : workspaceID < 2 ^ 63) (positive : 0 < pageSize)
    (bounded : pageSize ≤ maxPageSize) (valid : cursorID ≠ some 0) :
    checkPage listing workspaceID pageSize cursorID = .ok () := by
  have size : ¬ (pageSize = 0 ∨ maxPageSize < pageSize) := by omega
  rw [checkPage, if_neg workspace, if_neg size, if_neg valid, if_neg (Nat.not_le.mpr small)]
  rfl

theorem listPageForWorkspace_serves {contexts : List ContextRow} {workspaceID pageSize : Nat}
    {systemOnly : Bool} (distinct : (contexts.map ContextRow.id).Nodup)
    (workspace : workspaceID ≠ 0) (small : workspaceID < 2 ^ 63) (positive : 0 < pageSize)
    (bounded : pageSize ≤ maxPageSize) : Keyset.Serves ContextCursor.Before ContextRow.cursor
      (fun _ => listPageForWorkspace contexts workspaceID systemOnly pageSize)
      fun _ => contexts.filter (contextVisible workspaceID systemOnly) := by
  intro time cursor known
  refine ⟨_, _, ?_, Keyset.isPage_query ContextCursor.id distinct positive _ cursor⟩
  have valid : cursor.map ContextCursor.id ≠ some 0 := by
    cases cursor with
    | none => simp
    | some last =>
      obtain ⟨_, row, _, rfl⟩ := known last rfl
      simpa [ContextRow.cursor] using row.identified.ne'
  have query : ∀ context : ContextRow, decide ((cursor.map ContextCursor.id).getD 0 = 0 ∨
        context.isDefault < (cursor.map ContextCursor.isDefault).getD false ∨
        context.isDefault = (cursor.map ContextCursor.isDefault).getD false ∧
          context.workspaceID.isNone < (cursor.map ContextCursor.isSystem).getD false ∨
        context.isDefault = (cursor.map ContextCursor.isDefault).getD false ∧
          context.workspaceID.isNone = (cursor.map ContextCursor.isSystem).getD false ∧
          (cursor.map ContextCursor.id).getD 0 < context.id) = true ↔
      Keyset.Past ContextCursor.Before ContextRow.cursor cursor context := by
    intro context
    cases cursor with
    | none => simp [Keyset.Past]
    | some last =>
      have : last.id ≠ 0 := by simpa using valid
      simp [Keyset.Past, ContextCursor.Before, ContextRow.cursor, this]
  show listPageForWorkspace contexts workspaceID systemOnly pageSize cursor = _
  rw [listPageForWorkspace, checkPage_ok workspace small positive bounded valid,
    listContextsPageForWorkspace, Keyset.filter_past query]
  rfl

theorem rowToRule_row {row : RuleRow} {rule : ContextSelectionRule}
    (made : rowToRule row = .ok rule) : rule.row = row := by
  simp only [rowToRule, Attempt.bind_ok_iff, Attempt.pure_ok_iff] at made
  obtain ⟨_, _, _, _, rfl⟩ := made
  rfl

def ruleOf (row : RuleRow) : ContextSelectionRule := (rowToRule row).toOption.getD ⟨row, []⟩

theorem rowToRule_eq {row : RuleRow} (valid : (rowToRule row).isOk) :
    rowToRule row = .ok (ruleOf row) := by
  obtain ⟨rule, made⟩ := Attempt.isOk_iff.mp valid
  rw [ruleOf, made]
  rfl

theorem cursor_ruleOf (row : RuleRow) : (ruleOf row).cursor = row.cursor := by
  rw [ContextSelectionRule.cursor, ruleOf]
  cases made : rowToRule row with
  | error => rfl
  | ok rule => rw [Except.toOption, Option.getD_some, rowToRule_row made]

theorem listRulePageForWorkspace_serves {contexts : List ContextRow} {rules : List RuleRow}
    {workspaceID contextID pageSize : Nat} (distinct : (rules.map RuleRow.id).Nodup)
    (workspace : workspaceID ≠ 0) (small : workspaceID < 2 ^ 63) (positive : 0 < pageSize)
    (bounded : pageSize ≤ maxPageSize) (decoded : ∀ rule ∈ rules,
      ruleVisible contexts workspaceID contextID rule = true → (rowToRule rule).isOk) :
    Keyset.Serves RuleCursor.Before ContextSelectionRule.cursor
      (fun _ => listRulePageForWorkspace contexts rules workspaceID contextID pageSize)
      fun _ => (rules.filter (ruleVisible contexts workspaceID contextID)).map ruleOf := by
  intro time cursor known
  have page : Keyset.IsPage RuleCursor.Before RuleRow.cursor
      ((rules.filter (ruleVisible contexts workspaceID contextID)).filter
        (Keyset.Past RuleCursor.Before RuleRow.cursor cursor)) _ _ :=
    Keyset.isPage_query RuleCursor.id distinct positive _ cursor
  have behind : ((rules.filter (ruleVisible contexts workspaceID contextID)).map ruleOf).filter
        (Keyset.Past RuleCursor.Before ContextSelectionRule.cursor cursor) =
      ((rules.filter (ruleVisible contexts workspaceID contextID)).filter
        (Keyset.Past RuleCursor.Before RuleRow.cursor cursor)).map ruleOf := by
    rw [filter_map]
    refine congrArg _ (filter_congr fun row _ => ?_)
    simp [Keyset.Past, cursor_ruleOf]
  refine ⟨_, _, ?_, behind ▸ page.map cursor_ruleOf⟩
  have valid : cursor.map RuleCursor.id ≠ some 0 := by
    cases cursor with
    | none => simp
    | some last =>
      obtain ⟨_, row, among, rfl⟩ := known last rfl
      simpa [ContextSelectionRule.cursor, RuleRow.cursor] using row.row.identified.ne'
  -- The condition of the query, with 0 for an absent cursor, is to be behind the cursor.
  have query : ∀ row : RuleRow, decide ((cursor.map RuleCursor.id).getD 0 = 0 ∨
        row.priority < (cursor.map RuleCursor.priority).getD 0 ∨
        row.priority = (cursor.map RuleCursor.priority).getD 0 ∧
        (cursor.map RuleCursor.id).getD 0 < row.id) = true ↔
      Keyset.Past RuleCursor.Before RuleRow.cursor cursor row := by
    intro row
    cases cursor with
    | none => simp [Keyset.Past]
    | some last =>
      have : last.id ≠ 0 := by simpa using valid
      simp [Keyset.Past, RuleCursor.Before, RuleRow.cursor, this]
  show listRulePageForWorkspace contexts rules workspaceID contextID pageSize cursor = _
  rw [listRulePageForWorkspace, checkPage_ok workspace small positive bounded valid,
    listSelectionRulesPageForWorkspace, Keyset.filter_past query]
  refine Attempt.bind_ok_iff.mpr ⟨(), rfl,
    Attempt.bind_ok_iff.mpr ⟨_, Attempt.mapM_eq_map fun row among => ?_, rfl⟩⟩
  have present := ((page.mem_iff row).mp among).1
  simp only [mem_filter] at present
  exact rowToRule_eq (decoded row present.1.1 present.1.2)

/-! ## The enumerations -/

/-- Jobs are listed in their order, each that stays once whatever else happens to the table between
the pages; so are contexts, and rules where the visible ones are valid, for a workspace whose id the
queries can carry. -/
theorem listings_enumerate (jobs : List JobRow) (tables : Nat → List JobRow)
    (contexts : List ContextRow) (rules : List RuleRow)
    (workspaceID itemImageID contextID pageSize : Nat) (systemOnly : Bool)
    (distinctJobs : (jobs.map JobRow.id).Nodup)
    (distinctTables : ∀ time, ((tables time).map JobRow.id).Nodup)
    (distinctContexts : (contexts.map ContextRow.id).Nodup)
    (distinctRules : (rules.map RuleRow.id).Nodup) (workspace : workspaceID ≠ 0)
    (positive : 0 < pageSize) (bounded : pageSize ≤ maxPageSize) :
    Keyset.Enumerates JobCursor.Before JobRow.cursor (listPage jobs workspaceID itemImageID pageSize)
      (jobs.filter (jobVisible workspaceID itemImageID)) ∧
    (∃ result, Keyset.Follows (fun time => listPage (tables time) workspaceID itemImageID pageSize)
      0 none result) ∧
    (∀ result, Keyset.Follows (fun time => listPage (tables time) workspaceID itemImageID pageSize)
      0 none result →
      Keyset.EachOnce JobCursor.Before JobRow.cursor
        (fun time => (tables time).filter (jobVisible workspaceID itemImageID)) result) ∧
    (workspaceID < 2 ^ 63 →
      Keyset.Enumerates ContextCursor.Before ContextRow.cursor
        (listPageForWorkspace contexts workspaceID systemOnly pageSize)
        (contexts.filter (contextVisible workspaceID systemOnly)) ∧
      ((∀ rule ∈ rules, ruleVisible contexts workspaceID contextID rule = true →
        (rowToRule rule).isOk = true) →
        Keyset.Enumerates RuleCursor.Before ContextSelectionRule.cursor
          (listRulePageForWorkspace contexts rules workspaceID contextID pageSize)
          ((rules.filter (ruleVisible contexts workspaceID contextID)).map ruleOf))) := by
  have served : Keyset.Serves JobCursor.Before JobRow.cursor
      (fun time => listPage (tables time) workspaceID itemImageID pageSize)
      fun time => (tables time).filter (jobVisible workspaceID itemImageID) :=
    listPage_serves distinctTables workspace positive bounded
  refine ⟨(listPage_serves (fun _ => distinctJobs) workspace positive bounded).enumerates ?_,
    Keyset.exists_follows served before_wellFounded fun _ _ _ later _ => later,
    fun result follows => ?_, fun small =>
      ⟨(listPageForWorkspace_serves distinctContexts workspace small positive bounded).enumerates
        ?_,
      fun decoded =>
        (listRulePageForWorkspace_serves distinctRules workspace small positive bounded
          decoded).enumerates ?_⟩⟩
  · intro row among other present same
    exact inj_on_of_nodup_map distinctJobs (mem_of_mem_filter among) (mem_of_mem_filter present)
      (congrArg JobCursor.id same)
  · obtain ⟨ordered, read, complete⟩ := follows.eachOnce served (by rintro _ ⟨⟩)
    exact ⟨ordered, fun row among => (read row among).2, fun place taken =>
      complete place (by rintro _ ⟨⟩) taken⟩
  · intro row among other present same
    exact inj_on_of_nodup_map distinctContexts (mem_of_mem_filter among) (mem_of_mem_filter present)
      (congrArg ContextCursor.id same)
  · intro rule among other present same
    obtain ⟨row, here, rfl⟩ := mem_map.mp among
    obtain ⟨second, there, rfl⟩ := mem_map.mp present
    rw [cursor_ruleOf, cursor_ruleOf] at same
    rw [inj_on_of_nodup_map distinctRules (mem_of_mem_filter here) (mem_of_mem_filter there)
      (congrArg RuleCursor.id same)]

theorem listings_enumerate_two :
    (rowToRule ⟨4, 3, -1, .arr [], by decide⟩).isOk = true ∧
    Keyset.Enumerates RuleCursor.Before ContextSelectionRule.cursor
      (listRulePageForWorkspace [⟨3, none, true, by decide⟩]
        [⟨4, 3, -1, .arr [], by decide⟩, ⟨5, 3, 0, .arr [], by decide⟩] 1 0 1)
      ([⟨4, 3, -1, .arr [], by decide⟩, ⟨5, 3, 0, .arr [], by decide⟩].map ruleOf) := by
  have enumerated := listings_enumerate [] (fun _ => []) [⟨3, none, true, by decide⟩]
    [⟨4, 3, -1, .arr [], by decide⟩, ⟨5, 3, 0, .arr [], by decide⟩] 1 0 0 1 false (by decide)
    (by simp) (by decide) (by decide) (by decide) (by decide) (by decide)
  refine ⟨by decide, (enumerated.2.2.2 (by decide)).2 fun rule among _ => ?_⟩
  rcases mem_pair.mp among with rfl | rfl <;> decide

/-- A rule that does not decode ends the listing with an error, so no visible rule is listed. -/
theorem malformed_rule_ends_listing :
    ruleVisible [⟨3, none, true, by decide⟩] 1 0 ⟨5, 3, 0, .arr [], by decide⟩ = true ∧
    ∀ result, ¬ Keyset.Follows (fun _ => listRulePageForWorkspace [⟨3, none, true, by decide⟩]
      [⟨4, 3, 1, .obj [], by decide⟩, ⟨5, 3, 0, .arr [], by decide⟩] 1 0 1) 0 none result := by
  refine ⟨by decide, ?_⟩
  have failed : (listRulePageForWorkspace [⟨3, none, true, by decide⟩]
      [⟨4, 3, 1, .obj [], by decide⟩, ⟨5, 3, 0, .arr [], by decide⟩] 1 0 1 none).toOption.isNone =
          true := by
    decide +kernel
  rintro result (page | ⟨page, _⟩)
  · rw [page] at failed
    simp [Except.toOption] at failed
  · rw [page] at failed
    simp [Except.toOption] at failed

end Scribe.Store
