import Scribe.Editor.Patches

/-! The undo history of an editor session.

The entries of the two stacks form a trail of pages through the draft: each entry leads
from the page before it to the page after it, up to the order of keys. Every action keeps
such a trail, and it starts at the base page until the history limit drops an entry.
-/

set_option autoImplicit false

namespace Scribe.Editor

open List

/-! ## Trails -/

/-- The entry leads from one page to the other. -/
def Leads (patch : PagePatch) (source target : AnnotationPage) : Prop :=
  ∃ first second, ProperPage first ∧ ProperPage second ∧ SamePage first source ∧
    SamePage second target ∧
    patch = createPagePatch (some first) (some second)

def Trail : AnnotationPage → List PagePatch → AnnotationPage → Prop
  | source, [], target => SamePage source target
  | source, patch :: rest, target => ∃ middle, ProperPage middle ∧ Leads patch source middle ∧
    Trail middle rest target

section Trails

variable {patch : PagePatch} {patches : List PagePatch} {source target other : AnnotationPage}

theorem Leads.congr {source' target' : AnnotationPage} (leads : Leads patch source target)
    (sameSource : SamePage source source') (sameTarget : SamePage target target') :
    Leads patch source' target' := by
  obtain ⟨first, second, proper, properToo, isFirst, isSecond, rfl⟩ := leads
  exact ⟨first, second, proper, properToo, isFirst.trans sameSource, isSecond.trans sameTarget, rfl⟩

theorem Leads.backward (leads : Leads patch source target) (properTarget : ProperPage target) :
    ProperPage (applyPagePatch target patch .backward) ∧
      SamePage (applyPagePatch target patch .backward) source := by
  obtain ⟨first, second, proper, properToo, isFirst, isSecond, rfl⟩ := leads
  obtain ⟨properResult, isSame⟩ := applyPagePatch_same proper properToo properTarget .backward
    (isSecond.symm properToo properTarget)
  exact ⟨properResult, isSame.trans isFirst⟩

theorem Leads.forward (leads : Leads patch source target) (properSource : ProperPage source) :
    ProperPage (applyPagePatch source patch .forward) ∧
      SamePage (applyPagePatch source patch .forward) target := by
  obtain ⟨first, second, proper, properToo, isFirst, isSecond, rfl⟩ := leads
  obtain ⟨properResult, isSame⟩ := applyPagePatch_same proper properToo properSource .forward
    (isFirst.symm proper properSource)
  exact ⟨properResult, isSame.trans isSecond⟩

theorem leads_createPagePatch (proper : ProperPage source) (properToo : ProperPage target) :
    Leads (createPagePatch (some source) (some target)) source target :=
  ⟨source, target, proper, properToo, SamePage.refl proper, SamePage.refl properToo, rfl⟩

theorem Trail.congr_source {source' : AnnotationPage} (trail : Trail source patches target)
    (proper : ProperPage source) (properToo : ProperPage source') (same : SamePage source source') :
    Trail source' patches target := by
  cases patches with
  | nil => exact (same.symm proper properToo).trans trail
  | cons patch rest =>
    obtain ⟨middle, properMiddle, leads, onward⟩ := trail
    exact ⟨middle, properMiddle, leads.congr same (SamePage.refl properMiddle), onward⟩

theorem Trail.congr_target {target' : AnnotationPage} (trail : Trail source patches target)
    (same : SamePage target target') : Trail source patches target' := by
  induction patches generalizing source with
  | nil => exact SamePage.trans trail same
  | cons patch rest ih =>
    obtain ⟨middle, properMiddle, leads, onward⟩ := trail
    exact ⟨middle, properMiddle, leads, ih onward⟩

theorem Trail.concat (trail : Trail source patches target) (proper : ProperPage source)
    (properTarget : ProperPage target) (properOther : ProperPage other)
    (leads : Leads patch target other) : Trail source (patches ++ [patch]) other := by
  induction patches generalizing source with
  | nil => exact ⟨other, properOther,
      leads.congr (SamePage.symm proper properTarget trail) (SamePage.refl properOther),
      SamePage.refl properOther⟩
  | cons first rest ih =>
    obtain ⟨middle, properMiddle, leadsFirst, onward⟩ := trail
    exact ⟨middle, properMiddle, leadsFirst, ih onward properMiddle⟩

theorem Trail.of_concat (trail : Trail source (patches ++ [patch]) target)
    (proper : ProperPage source) :
    ∃ middle, ProperPage middle ∧ Trail source patches middle ∧ Leads patch middle target := by
  induction patches generalizing source with
  | nil =>
    obtain ⟨middle, properMiddle, leads, same⟩ := trail
    exact ⟨source, proper, SamePage.refl proper, leads.congr (SamePage.refl proper) same⟩
  | cons first rest ih =>
    obtain ⟨middle, properMiddle, leadsFirst, onward⟩ := trail
    obtain ⟨last, properLast, upTo, leads⟩ := ih onward properMiddle
    exact ⟨last, properLast, ⟨middle, properMiddle, leadsFirst, upTo⟩, leads⟩

theorem Trail.drop (trail : Trail source patches target) (proper : ProperPage source) (count : Nat) :
    ∃ later, ProperPage later ∧ Trail later (patches.drop count) target := by
  induction count generalizing source patches with
  | zero => exact ⟨source, proper, trail⟩
  | succ count ih =>
    cases patches with
    | nil => exact ⟨source, proper, trail⟩
    | cons patch rest =>
      obtain ⟨middle, properMiddle, _, onward⟩ := trail
      exact ih onward properMiddle

end Trails

/-! ## What an action does to the history -/

/-- The pages and stacks of a session, with the number of entries recorded since the stacks were
rebuilt. -/
structure HistoryView where
  base : Option AnnotationPage
  draft : Option AnnotationPage
  undo : List PagePatch
  redo : List PagePatch
  recorded : Nat

def EditorSession.view (session : EditorSession) (recorded : Nat) : HistoryView :=
  ⟨session.basePage, session.draftPage, session.undoStack, session.redoStack, recorded⟩

/-- What an action may do. -/
inductive Effect (view : HistoryView) : HistoryView → Prop where
  | kept : Effect view view
  | created (page : Option AnnotationPage) (proper : ∀ present ∈ page, ProperPage present) :
      Effect view ⟨page, page, [], [], 0⟩
  | rebuilt (base draft : AnnotationPage) (proper : ProperPage base) (properToo : ProperPage draft) :
      Effect view ⟨some base, some draft, historyForRebasedDraft base draft, [], 0⟩
  | opened (next : AnnotationPage) (proper : ProperPage next) (noDraft : view.draft = none) :
      Effect view ⟨view.base, some next, view.undo, [], view.recorded⟩
  | recorded (draft next : AnnotationPage) (isDraft : view.draft = some draft)
      (proper : ProperPage next) :
      Effect view ⟨view.base, some next,
        pushHistory view.undo (createPagePatch (some draft) (some next)), [], view.recorded + 1⟩
  | replaced (draft next : AnnotationPage) (isDraft : view.draft = some draft)
      (proper : ProperPage next)
      (same : SamePage draft next) : Effect view ⟨view.base, some next, view.undo, [], view.recorded⟩
  | undone (draft : AnnotationPage) (undo : List PagePatch) (patch : PagePatch)
      (isDraft : view.draft = some draft)
      (isUndo : view.undo = undo ++ [patch]) :
      Effect view ⟨view.base, some (applyPagePatch draft patch .backward), undo,
        view.redo ++ [patch], view.recorded⟩
  | redone (draft : AnnotationPage) (redo : List PagePatch) (patch : PagePatch)
      (isDraft : view.draft = some draft)
      (isRedo : view.redo = redo ++ [patch]) :
      Effect view ⟨view.base, some (applyPagePatch draft patch .forward),
        pushHistory view.undo patch, redo, view.recorded⟩

/-- The stacks lie on a trail through the draft, from the base page while no entry was dropped. -/
structure Traced (view : HistoryView) : Prop where
  base : ∀ page ∈ view.base, ProperPage page
  draft : ∀ page ∈ view.draft, ProperPage page
  empty : view.draft = none → view.base = none ∧ view.undo = [] ∧ view.redo = []
  past : ∀ page ∈ view.draft, ∃ start, ProperPage start ∧ Trail start view.undo page ∧
    (view.recorded < historyLimit → ∀ base ∈ view.base, SamePage start base)
  future : ∀ page ∈ view.draft, ∃ stop, ProperPage stop ∧ Trail page view.redo.reverse stop
  size : view.undo.length + view.redo.length ≤ view.recorded + 1

theorem pushHistory_eq {stack : List PagePatch} (room : stack.length < historyLimit)
    (patch : PagePatch) : pushHistory stack patch = stack ++ [patch] := by
  rw [pushHistory, Nat.sub_eq_zero_of_le (by omega), drop_zero]

theorem length_pushHistory (stack : List PagePatch) (patch : PagePatch) :
    (pushHistory stack patch).length ≤ stack.length + 1 ∧
      (pushHistory stack patch).length ≤ historyLimit := by
  simp only [pushHistory, length_append, length_drop, length_singleton, historyLimit]
  omega

theorem Trail.push {stack : List PagePatch} {patch : PagePatch} {start draft next : AnnotationPage}
    (trail : Trail start stack draft) (proper : ProperPage start) (properDraft : ProperPage draft)
    (properNext : ProperPage next) (leads : Leads patch draft next) :
    ∃ later, ProperPage later ∧ Trail later (pushHistory stack patch) next ∧
      (stack.length < historyLimit → later = start) := by
  by_cases room : stack.length < historyLimit
  · refine ⟨start, proper, ?_, fun _ => rfl⟩
    rw [pushHistory_eq room]
    exact trail.concat proper properDraft properNext leads
  · obtain ⟨later, properLater, kept⟩ := trail.drop proper (stack.length - (historyLimit - 1))
    exact ⟨later, properLater, kept.concat properLater properDraft properNext leads, fun fits =>
      absurd fits room⟩

theorem Traced.of_draft {view : HistoryView} {page : AnnotationPage} (isDraft : view.draft = some page)
    (base : ∀ page ∈ view.base, ProperPage page) (proper : ProperPage page)
    (past : ∃ start, ProperPage start ∧ Trail start view.undo page ∧
      (view.recorded < historyLimit → ∀ base ∈ view.base, SamePage start base))
    (future : ∃ stop, ProperPage stop ∧ Trail page view.redo.reverse stop)
    (size : view.undo.length + view.redo.length ≤ view.recorded + 1) : Traced view := by
  have only : ∀ other ∈ view.draft, other = page := by
    intro other isOther
    rw [Option.mem_def, isDraft, Option.some.injEq] at isOther
    exact isOther.symm
  refine ⟨base, fun other isOther => only other isOther ▸ proper, fun none => ?_,
    fun other isOther => ?_, fun other isOther => ?_, size⟩
  · rw [isDraft] at none
    cases none
  · rw [only other isOther]
    exact past
  · rw [only other isOther]
    exact future

theorem Traced.created {page : Option AnnotationPage} (proper : ∀ present ∈ page, ProperPage present) :
    Traced ⟨page, page, [], [], 0⟩ := by
  cases page with
  | none => exact ⟨proper, proper, fun _ => ⟨rfl, rfl, rfl⟩, by simp, by simp, by simp⟩
  | some page =>
    have isProper := proper page rfl
    have same := SamePage.refl isProper
    refine Traced.of_draft rfl proper isProper ⟨page, isProper, same, fun _ base isBase =>
      ?_⟩ ⟨page, isProper, same⟩ (by simp)
    cases isBase
    exact same

theorem Effect.traced {view next : HistoryView} (effect : Effect view next) (traced : Traced view) :
    Traced next := by
  have size := traced.size
  cases effect with
  | kept => exact traced
  | created page proper => exact Traced.created proper
  | rebuilt base draft proper properToo =>
    refine Traced.of_draft rfl (fun page isBase => ?_) properToo
      ⟨base, proper, ?_, fun _ page isBase => ?_⟩
      ⟨draft, properToo, SamePage.refl properToo⟩ ?_
    · cases isBase
      exact proper
    · simp only [historyForRebasedDraft]
      split
      · exact (pagesEqual_iff proper properToo).mp ‹_›
      · exact ⟨draft, properToo, leads_createPagePatch proper properToo, SamePage.refl properToo⟩
    · cases isBase
      exact SamePage.refl proper
    · simp only [historyForRebasedDraft]
      split <;> simp
  | opened next proper noDraft =>
    obtain ⟨noBase, noUndo, _⟩ := traced.empty noDraft
    have same := SamePage.refl proper
    refine Traced.of_draft rfl traced.base proper ⟨next, proper, ?_, fun _ base isBase => ?_⟩
      ⟨next, proper, same⟩ ?_
    · rw [noUndo]
      exact same
    · rw [noBase] at isBase
      cases isBase
    · simp only [length_nil]
      omega
  | recorded draft next isDraft proper =>
    have properDraft := traced.draft draft isDraft
    obtain ⟨start, properStart, trail, fromBase⟩ := traced.past draft isDraft
    obtain ⟨later, properLater, onward, same⟩ :=
      trail.push properStart properDraft proper (leads_createPagePatch properDraft proper)
    refine Traced.of_draft rfl traced.base proper ⟨later, properLater, onward,
      fun few base isBase => ?_⟩
      ⟨next, proper, SamePage.refl proper⟩ ?_
    -- No entry was dropped as long as fewer than the limit were recorded.
    · simp only at few
      rw [same (by simp only [historyLimit] at few ⊢; omega)]
      exact fromBase (by omega) base isBase
    · have := (length_pushHistory view.undo (createPagePatch (some draft) (some next))).1
      simp only [length_nil]
      omega
  | replaced draft next isDraft proper isSame =>
    obtain ⟨start, properStart, trail, fromBase⟩ := traced.past draft isDraft
    refine Traced.of_draft rfl traced.base proper ⟨start, properStart,
      trail.congr_target isSame, fromBase⟩
      ⟨next, proper, SamePage.refl proper⟩ ?_
    simp only [length_nil]
    omega
  | undone draft undo patch isDraft isUndo =>
    have properDraft := traced.draft draft isDraft
    obtain ⟨start, properStart, trail, fromBase⟩ := traced.past draft isDraft
    obtain ⟨stop, properStop, onward⟩ := traced.future draft isDraft
    rw [isUndo] at trail
    -- The last entry of the past becomes the first of the future.
    obtain ⟨middle, properMiddle, upTo, leads⟩ := trail.of_concat properStart
    obtain ⟨proper, isSame⟩ := leads.backward properDraft
    have isMiddle := isSame.symm proper properMiddle
    refine Traced.of_draft rfl traced.base proper ⟨start, properStart,
      upTo.congr_target isMiddle, fromBase⟩
      ⟨stop, properStop, ?_⟩ ?_
    · rw [reverse_append]
      exact ⟨draft, properDraft, leads.congr isMiddle (SamePage.refl properDraft), onward⟩
    · rw [isUndo] at size
      simp only [length_append, length_singleton] at size ⊢
      omega
  | redone draft redo patch isDraft isRedo =>
    have properDraft := traced.draft draft isDraft
    obtain ⟨start, properStart, trail, fromBase⟩ := traced.past draft isDraft
    obtain ⟨stop, properStop, onward⟩ := traced.future draft isDraft
    rw [isRedo, reverse_append] at onward
    obtain ⟨middle, properMiddle, leads, further⟩ := onward
    obtain ⟨proper, isSame⟩ := leads.forward properDraft
    have isMiddle := isSame.symm proper properMiddle
    obtain ⟨later, properLater, upTo, same⟩ :=
      trail.push properStart properDraft proper (leads.congr (SamePage.refl properDraft) isMiddle)
    rw [isRedo] at size
    simp only [length_append, length_singleton] at size
    refine Traced.of_draft rfl traced.base proper ⟨later, properLater, upTo, fun few base isBase => ?_⟩
      ⟨stop, properStop, further.congr_source properMiddle proper isMiddle⟩ ?_
    · simp only at few
      rw [same (by simp only [historyLimit] at few ⊢; omega)]
      exact fromBase few base isBase
    · have := (length_pushHistory view.undo patch).1
      simp only
      omega

end Scribe.Editor
