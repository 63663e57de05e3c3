import Scribe.Editor.Grouping
import Scribe.Editor.Runs

/-! The cache of editor sessions, one for each canvas.

Clean sessions are evicted in the order of their last access; a dirty session is kept until it
is saved.
-/

set_option autoImplicit false

namespace Scribe.Editor

open List

structure EditorSessionCache where
  accessOrder : List String
  sessions : List (String × EditorSession)

def maxCleanEditorSessions : Nat := 12

def canvasKey (canvasId : String) : String := trimText canvasId

def createEditorSessionCache (canvasId : String) (page : Option AnnotationPage)
    (revision : String) : EditorSessionCache :=
  let key := canvasKey canvasId
  if key = "" then ⟨[], []⟩ else ⟨[key], [(key, createEditorSession page revision)]⟩

def isClean (entry : String × EditorSession) : Bool := !entry.2.dirty

/-- The eviction loop, with the number of clean sessions that it counts down. -/
def evict (key : String) : Nat → EditorSessionCache → EditorSessionCache
  | 0, cache => cache
  | cleanCount + 1, cache =>
    if cleanCount + 1 > maxCleanEditorSessions then
      match cache.accessOrder.find? fun id =>
          id ≠ key ∧ ¬ ((Assoc.get cache.sessions id).any EditorSession.dirty) with
      | none => cache
      | some evicted => evict key cleanCount ⟨cache.accessOrder.erase evicted,
        Assoc.erase cache.sessions evicted⟩
    else cache

section
variable (identical : EditorSession → EditorSession → Bool)

/-- `identical` is the equality of references, which a reducer without effect may or may not
keep. -/
def editorSessionCacheReducer (cache : EditorSessionCache) (canvasId : String)
    (action : SessionAction) : EditorSessionCache :=
  let key := canvasKey canvasId
  if key = "" then cache
  else
    let current := (Assoc.get cache.sessions key).getD (createEditorSession none "")
    let next := editorSessionReducer current action
    let accessOrder := (cache.accessOrder.filter (· ≠ key)) ++ [key]
    if (Assoc.get cache.sessions key).isSome ∧ identical next current ∧
      cache.accessOrder = accessOrder then cache
    else
      let nextSessions := Assoc.set cache.sessions key next
      evict key (nextSessions.countP isClean) ⟨accessOrder, nextSessions⟩

def cacheAfter (cache : EditorSessionCache) (actions : List (String × SessionAction)) :
    EditorSessionCache :=
  actions.foldl (fun cache action => editorSessionCacheReducer identical cache action.1 action.2) cache

end

/-- The access order lists the canvases of the sessions, each once. -/
structure Ordered (cache : EditorSessionCache) : Prop where
  distinct : (Assoc.keys cache.sessions).Nodup
  order : cache.accessOrder.Perm (Assoc.keys cache.sessions)

structure CacheSound (cache : EditorSessionCache) : Prop extends Ordered cache where
  bounded : cache.sessions.countP isClean ≤ maxCleanEditorSessions

structure ActionEffect (cache : EditorSessionCache) (key : String) (action : SessionAction)
    (next : EditorSessionCache) : Prop extends CacheSound next where
  last : next.accessOrder.getLast? = some key
  acted : Assoc.get next.sessions key =
    some (editorSessionReducer ((Assoc.get cache.sessions key).getD (createEditorSession none ""))
      action)
  others : ∀ other session, other ≠ key → session.dirty = true →
    Assoc.get cache.sessions other = some session →
    Assoc.get next.sessions other = some session

section
variable {cache : EditorSessionCache} {key id : String} {session : EditorSession}

/-! ## Eviction -/

theorem keys_erase (sessions : List (String × EditorSession)) (id : String) :
    Assoc.keys (Assoc.erase sessions id) = (Assoc.keys sessions).filter (· != id) := by
  simp [Assoc.keys, Assoc.erase, filter_map, Function.comp_def, bne, Bool.beq_eq_decide_eq]

theorem Ordered.erase (ordered : Ordered cache) (id : String) :
    Ordered ⟨cache.accessOrder.erase id, Assoc.erase cache.sessions id⟩ := by
  have nodup : cache.accessOrder.Nodup := ordered.order.nodup_iff.mpr ordered.distinct
  constructor
  · rw [keys_erase]
    exact ordered.distinct.filter _
  · rw [keys_erase, nodup.erase_eq_filter]
    exact ordered.order.filter _

theorem Ordered.clean_le_one (ordered : Ordered cache)
    (kept : ∀ id ∈ cache.accessOrder, id ≠ key →
      (Assoc.get cache.sessions id).any EditorSession.dirty) :
    cache.sessions.countP isClean ≤ 1 := by
  have own : cache.sessions.countP isClean ≤ cache.sessions.countP fun entry => entry.1 == key := by
    refine countP_mono_left fun entry among clean => ?_
    by_contra other
    have found := Assoc.get_of_mem ordered.distinct among
    have dirty :=
      kept entry.1 (ordered.order.mem_iff.mpr (mem_map_of_mem among)) (by simpa using other)
    simp [isClean, found] at clean dirty
    simp [clean] at dirty
  refine own.trans ?_
  rw [← Function.comp_def (fun id => id == key), ← countP_map]
  exact nodup_iff_count_le_one.mp ordered.distinct key

theorem countP_erase_lt {sessions : List (String × EditorSession)}
    (found : Assoc.get sessions id = some session) (clean : session.dirty = false) :
    (Assoc.erase sessions id).countP isClean < sessions.countP isClean := by
  rw [countP_eq_countP_filter_add sessions isClean (fun entry => entry.1 ≠ id), Assoc.erase]
  have evicted : 0 < (sessions.filter fun entry => ¬ entry.1 ≠ id).countP isClean :=
    countP_pos_iff.mpr ⟨(id, session), mem_filter.mpr ⟨Assoc.mem_of_get found, by simp⟩,
      by simp [isClean, clean]⟩
  simp only [decide_not, ne_eq, not_not] at evicted ⊢
  simpa using evicted

/-- Eviction keeps the acted canvas, last, and the dirty sessions, and leaves few clean ones. -/
theorem evict_spec {cleanCount : Nat} (ordered : Ordered cache)
    (last : cache.accessOrder.getLast? = some key)
    (counted : cache.sessions.countP isClean ≤ cleanCount) :
    CacheSound (evict key cleanCount cache) ∧
      (evict key cleanCount cache).accessOrder.getLast? = some key ∧
      ∀ id session, id = key ∨ session.dirty = true → Assoc.get cache.sessions id = some session →
        Assoc.get (evict key cleanCount cache).sessions id = some session := by
  induction cleanCount generalizing cache with
  | zero => exact ⟨⟨ordered, counted.trans (Nat.zero_le _)⟩, last, fun _ _ _ found => found⟩
  | succ cleanCount ih =>
    rw [evict]
    split
    · split
      · rename_i none
        -- Every other session is dirty: at most the current one is clean.
        have kept : ∀ id ∈ cache.accessOrder, id ≠ key →
            (Assoc.get cache.sessions id).any EditorSession.dirty := by
          simpa using none
        exact ⟨⟨ordered, (ordered.clean_le_one kept).trans (by decide)⟩, last,
          fun _ _ _ found => found⟩
      · rename_i evicted isEvicted
        obtain ⟨apart, clean⟩ : evicted ≠ key ∧ _ := by simpa using find?_some isEvicted
        have among : evicted ∈ Assoc.keys cache.sessions :=
          ordered.order.mem_iff.mp (mem_of_find?_eq_some isEvicted)
        obtain ⟨session, found⟩ := Option.isSome_iff_exists.mp ((Assoc.get_isSome_iff _ _).mpr among)
        -- One clean session less, which the fuel counts.
        have fewer := countP_erase_lt found (by simpa [found] using clean)
        have lastKept : (cache.accessOrder.erase evicted).getLast? = some key := by
          obtain ⟨front, isOrder⟩ := getLast?_eq_some_iff.mp last
          rw [isOrder, erase_append]
          split <;> simp [apart.symm]
        obtain ⟨sound, isLast, unchanged⟩ := ih (ordered.erase evicted) lastKept (by
          show (Assoc.erase cache.sessions evicted).countP isClean ≤ cleanCount
          omega)
        refine ⟨sound, isLast, fun id session spared present => unchanged id session spared ?_⟩
        have other : evicted ≠ id := by
          rintro rfl
          rcases spared with same | dirty
          · exact apart same
          · simp [present, dirty] at clean
        rw [Assoc.get_erase, if_neg other, present]
    · exact ⟨⟨ordered, by omega⟩, last, fun _ _ _ found => found⟩

/-! ## Actions -/

theorem Ordered.act (ordered : Ordered cache) (key : String) (next : EditorSession) :
    Ordered ⟨cache.accessOrder.filter (· ≠ key) ++ [key], Assoc.set cache.sessions key next⟩ := by
  have nodup : cache.accessOrder.Nodup := ordered.order.nodup_iff.mpr ordered.distinct
  refine ⟨Assoc.nodup_keys_set ordered.distinct key next, ?_⟩
  refine (perm_ext_iff_of_nodup ?_ (Assoc.nodup_keys_set ordered.distinct key next)).mpr fun id => ?_
  · simpa [nodup_append] using nodup.filter _
  · rw [Assoc.mem_keys_set, ← ordered.order.mem_iff]
    by_cases same : id = key <;> simp [same]

section
variable {identical : EditorSession → EditorSession → Bool}
  (faithful : ∀ a b, identical a b = true → a = b)
include faithful

theorem CacheSound.act (sound : CacheSound cache) (canvasId : String) (action : SessionAction)
    (named : canvasKey canvasId ≠ "") :
    ActionEffect cache (canvasKey canvasId) action
      (editorSessionCacheReducer identical cache canvasId action) := by
  rw [editorSessionCacheReducer]
  simp only [named, if_false]
  generalize canvasKey canvasId = key
  split
  · rename_i same
    obtain ⟨present, unchanged, order⟩ := same
    obtain ⟨current, found⟩ := Option.isSome_iff_exists.mp present
    refine ⟨sound, by rw [order]; simp, ?_, fun _ _ _ _ found => found⟩
    rw [faithful _ _ unchanged, found, Option.getD_some]
  · have last : (cache.accessOrder.filter (· ≠ key) ++ [key]).getLast? = some key := by simp
    obtain ⟨nextSound, isLast, kept⟩ := evict_spec (sound.toOrdered.act key _) last (Nat.le_refl _)
    refine ⟨nextSound, isLast, kept key _ (.inl rfl) (by simp),
      fun other session apart dirty found => ?_⟩
    exact kept other session (.inr dirty) (by rwa [Assoc.get_set_of_ne _ _ apart.symm])

theorem CacheSound.after (sound : CacheSound cache) (actions : List (String × SessionAction)) :
    CacheSound (cacheAfter identical cache actions) := by
  rw [cacheAfter]
  induction actions generalizing cache with
  | nil => exact sound
  | cons first rest ih =>
    refine ih ?_
    by_cases blank : canvasKey first.1 = ""
    · simpa [editorSessionCacheReducer, blank] using sound
    · exact (sound.act faithful first.1 first.2 blank).toCacheSound

end

theorem cacheSound_create (canvasId : String) (page : Option AnnotationPage) (revision : String) :
    CacheSound (createEditorSessionCache canvasId page revision) := by
  rw [createEditorSessionCache]
  split
  · exact ⟨⟨nodup_nil, .refl _⟩, Nat.zero_le _⟩
  · exact ⟨⟨nodup_singleton _, .refl _⟩, countP_le_length.trans (by simp [maxCleanEditorSessions])⟩

/-- No action loses the unsaved work of another canvas. -/
theorem cache_keeps_unsaved {identical : EditorSession → EditorSession → Bool}
    (faithful : ∀ a b, identical a b = true → a = b) (created : String)
    (page : Option AnnotationPage) (revision : String) (actions : List (String × SessionAction))
    (reached : cacheAfter identical (createEditorSessionCache created page revision)
      actions = cache) :
    CacheSound cache ∧ ∀ canvasId action, canvasKey canvasId ≠ "" →
      ActionEffect cache (canvasKey canvasId) action
        (editorSessionCacheReducer identical cache canvasId action) := by
  have sound : CacheSound cache :=
    reached ▸ (cacheSound_create created page revision).after faithful actions
  exact ⟨sound, fun canvasId action named => sound.act faithful canvasId action named⟩

def leafedCanvases : List String :=
  ["b", "c", "d", "e", "f", "g", "h", "i", "j", "k", "l", "m"]

def leafedCache : EditorSessionCache :=
  cacheAfter (fun left right => decide (left = right))
    (createEditorSessionCache "a" (some (textPage [("1", "one")])) "1")
    (("a", .edit (some (textPage [("1", "two")]))) ::
      leafedCanvases.map fun canvasId => (canvasId, .reset (some (textPage [("1", canvasId)])) "1"))

/-- With the thirteenth clean canvas the first one leafed through is evicted, and the edited one is
kept. -/
theorem cache_keeps_unsaved_leafing :
    let next :=
  editorSessionCacheReducer (fun left right => decide (left = right)) leafedCache "n" .loadStart
    ActionEffect leafedCache "n" .loadStart next ∧
      leafedCache.sessions.countP isClean = maxCleanEditorSessions ∧
      next.accessOrder = "a" :: leafedCanvases.tail ++ ["n"] ∧ Assoc.get next.sessions "b" = none ∧
      (Assoc.get next.sessions "a").bind EditorSession.draftPage = some (textPage [("1", "two")]) ∧
      (Assoc.get next.sessions "a").any EditorSession.dirty = true :=
  ⟨(cache_keeps_unsaved (fun _ _ => of_decide_eq_true) "a" _ "1" _ rfl).2 "n" .loadStart (by decide),
    by decide +kernel, by decide +kernel, by decide +kernel, by decide +kernel, by decide +kernel⟩

/-! ## Unsaved work -/

def dirtyEditorSessions (cache : EditorSessionCache) : List (String × EditorSession) :=
  cache.sessions.filter fun entry => entry.2.dirty

theorem evict_subset (key : String) (cleanCount : Nat) (cache : EditorSessionCache) :
    (evict key cleanCount cache).sessions ⊆ cache.sessions := by
  fun_induction evict key cleanCount cache with
  | case3 cleanCount cache _ evicted _ ih => exact fun _ member => filter_subset_self _ (ih member)
  | _ => exact fun _ member => member

variable (identical : EditorSession → EditorSession → Bool)

theorem dirtyExact_act (all : ∀ entry ∈ cache.sessions, DirtyExact entry.2) (canvasId : String)
    (action : SessionAction) :
    ∀ entry ∈ (editorSessionCacheReducer identical cache canvasId action).sessions,
      DirtyExact entry.2 := by
  simp only [editorSessionCacheReducer]
  split_ifs
  · exact all
  · exact all
  · intro entry member
    rcases Assoc.mem_set (evict_subset _ _ _ member) with rfl | old
    · refine reducer_dirtyExact ?_ action
      cases own : Assoc.get cache.sessions (canvasKey canvasId) with
      | none => exact dirtyExact_create none ""
      | some current => exact all _ (Assoc.mem_of_get own)
    · exact all entry old

theorem dirtyEditorSessions_exact (created : String) (page : Option AnnotationPage) (revision : String)
    (actions : List (String × SessionAction)) :
    let cache := cacheAfter identical (createEditorSessionCache created page revision) actions
    dirtyEditorSessions cache = cache.sessions.filter fun entry =>
        !pagesEqual entry.2.basePage entry.2.draftPage := by
  refine filter_congr ?_
  induction actions using List.reverseRecOn with
  | nil =>
    simp only [cacheAfter, foldl_nil, createEditorSessionCache]
    split_ifs
    · exact forall_mem_nil _
    · exact forall_mem_singleton.mpr (dirtyExact_create page revision)
  | append_singleton actions action ih =>
    rw [cacheAfter, foldl_append]
    exact dirtyExact_act identical ih action.1 action.2

end

end Scribe.Editor
