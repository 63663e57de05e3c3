import Scribe.Editor.Merge
import Scribe.Data.JsonSame

/-! History entries of the editor.

An entry keeps the annotations, the metadata and the order that an edit changed. Applied
to a page that equals the one side of the edit it gives the other side, whatever the
spelling of what the edit left alone.
-/

set_option autoImplicit false

namespace Scribe.Editor

open List

/-! ## Pages up to the order of keys -/

/-- A page as the editor decodes it, with distinct identifiers. -/
structure ProperPage (page : AnnotationPage) : Prop where
  distinct : DistinctIds page
  items : ∀ item ∈ page.items, item.Proper
  metadata : Json.Proper (.obj page.metadata)

/-- The same metadata, items and order. -/
structure SamePage (left right : AnnotationPage) : Prop where
  ids : left.ids = right.ids
  items : ∀ id, sameOptional (left.at? id) (right.at? id) = true
  metadata : Json.same (.obj left.metadata) (.obj right.metadata) = true

theorem ProperPage.at?_proper {page : AnnotationPage} (proper : ProperPage page) {id : String} :
    ∀ item ∈ page.at? id, item.Proper :=
  fun item found => proper.items item (mem_of_find?_eq_some found)

section SameOptional

variable {first second third : Option Json}

theorem sameOptional_refl (proper : ∀ item ∈ first, item.Proper) :
    sameOptional first first = true := by
  cases first with
  | none => rfl
  | some item => exact Json.same_refl item (proper item rfl)

theorem sameOptional_symm (proper : ∀ item ∈ first, item.Proper)
    (properToo : ∀ item ∈ second, item.Proper) (same : sameOptional first second = true) :
    sameOptional second first = true := by
  cases first with
  | none => cases second with
    | none => rfl
    | some item => cases same
  | some item => cases second with
    | none => cases same
    | some other => exact Json.same_symm item other (proper item rfl) (properToo other rfl) same

theorem sameOptional_trans (same : sameOptional first second = true)
    (sameToo : sameOptional second third = true) : sameOptional first third = true := by
  cases first with
  | none => cases second with
    | none => exact sameToo
    | some item => cases same
  | some item => cases second with
    | none => cases same
    | some other => cases third with
      | none => cases sameToo
      | some last => exact Json.same_trans item other last same sameToo

theorem isSome_of_sameOptional (same : sameOptional first second = true) :
    first.isSome = second.isSome := by
  cases first <;> cases second <;> first | rfl | cases same

end SameOptional

section SamePage

variable {first second third : AnnotationPage}

theorem SamePage.refl (proper : ProperPage first) : SamePage first first :=
  ⟨rfl, fun _ => sameOptional_refl proper.at?_proper, Json.same_refl _ proper.metadata⟩

theorem SamePage.symm (proper : ProperPage first) (properToo : ProperPage second)
    (same : SamePage first second) : SamePage second first :=
  ⟨same.ids.symm, fun id => sameOptional_symm proper.at?_proper properToo.at?_proper (same.items id),
    Json.same_symm _ _ proper.metadata properToo.metadata same.metadata⟩

theorem SamePage.trans (same : SamePage first second) (sameToo : SamePage second third) :
    SamePage first third :=
  ⟨same.ids.trans sameToo.ids, fun id => sameOptional_trans (same.items id) (sameToo.items id),
    Json.same_trans _ _ _ same.metadata sameToo.metadata⟩

theorem itemIds_some (page : AnnotationPage) : itemIds (some page) = page.ids := rfl

theorem patchIsEmpty_iff (distinct : DistinctIds first) (distinctToo : DistinctIds second) :
    patchIsEmpty (createPagePatch (some first) (some second)) = true ↔ SamePage first second := by
  have changes : (createPagePatch (some first) (some second)).changes = [] ↔
      ∀ id, sameOptional (first.at? id) (second.at? id) = true := by
    simp only [createPagePatch, filterMap_eq_nil_iff, mem_eraseDups, mem_append,
      distinct.get_itemsById, distinctToo.get_itemsById]
    constructor
    · intro all id
      by_cases listed : id ∈ Assoc.keys (itemsById (some first)) ∨
        id ∈ Assoc.keys (itemsById (some second))
      · have unchanged := all id listed
        by_contra apart
        simp [apart] at unchanged
      · rw [not_or] at listed
        rw [← distinct.get_itemsById, ← distinctToo.get_itemsById,
          (Assoc.get_eq_none_iff _ _).mpr listed.1, (Assoc.get_eq_none_iff _ _).mpr listed.2]
        rfl
    · intro all id _
      rw [if_pos (all id)]
  have metadata : (createPagePatch (some first) (some second)).metadataBefore.isNone = true ↔
      Json.same (.obj first.metadata) (.obj second.metadata) = true := by
    simp only [createPagePatch, pageMetadata, Option.map_some, sameMetadata]
    by_cases same : Json.same (.obj first.metadata) (.obj second.metadata) = true <;> simp [same]
  have order : (createPagePatch (some first) (some second)).orderBefore.isNone = true ↔
      first.ids = second.ids := by
    simp only [createPagePatch, itemIds_some]
    by_cases same : first.ids = second.ids <;> simp [same]
  rw [patchIsEmpty, Bool.and_eq_true, Bool.and_eq_true, List.isEmpty_iff, changes, metadata, order]
  constructor
  · rintro ⟨⟨items, metadata⟩, ids⟩
    exact ⟨ids, items, metadata⟩
  · exact fun same => ⟨⟨same.items, same.metadata⟩, same.ids⟩

theorem pagesEqual_iff (proper : ProperPage first) (properToo : ProperPage second) :
    pagesEqual (some first) (some second) = true ↔ SamePage first second := by
  rw [pagesEqual, Bool.or_eq_true, patchIsEmpty_iff proper.distinct properToo.distinct, beq_iff_eq,
    Option.some.injEq]
  exact ⟨fun equal => equal.elim (fun same => same ▸ SamePage.refl proper) id, .inr⟩

end SamePage

/-! ## Items by identifier -/

structure Keyed (items : List (String × Json)) : Prop where
  nodup : (Assoc.keys items).Nodup
  own : ∀ key value, Assoc.get items key = some value → annotationId value = key
  named : "" ∉ Assoc.keys items

theorem DistinctIds.keyed {page : AnnotationPage} (distinct : DistinctIds page) :
    Keyed (itemsById (some page)) := by
  have same : Assoc.keys (itemsById (some page)) = page.ids := by
    rw [distinct.itemsById_eq]
    simp [Assoc.keys, AnnotationPage.ids, Function.comp_def]
  refine ⟨same ▸ distinct.nodup, fun key value found => ?_, same ▸ distinct.named⟩
  rw [distinct.get_itemsById] at found
  exact AnnotationPage.at?_id found

theorem Keyed.set {items : List (String × Json)} (keyed : Keyed items) {id : String} {value : Json}
    (own : annotationId value = id) (named : id ≠ "") : Keyed (Assoc.set items id value) := by
  refine ⟨Assoc.nodup_keys_set keyed.nodup _ _, fun key found here => ?_, fun listed => ?_⟩
  · rw [Assoc.get_set] at here
    split at here
    case isTrue same =>
      rw [Option.some.injEq] at here
      rw [← here, own, same]
    case isFalse => exact keyed.own key found here
  · rcases (Assoc.mem_keys_set _ _ _ _).mp listed with old | isNew
    · exact keyed.named old
    · exact named isNew.symm

theorem Keyed.erase {items : List (String × Json)} (keyed : Keyed items) (id : String) :
    Keyed (Assoc.erase items id) := by
  have sub : (Assoc.keys (Assoc.erase items id)).Sublist (Assoc.keys items) := filter_sublist.map _
  refine ⟨keyed.nodup.sublist sub, fun key found here => ?_, fun listed =>
    keyed.named (sub.subset listed)⟩
  rw [Assoc.get_erase] at here
  split at here
  · cases here
  · exact keyed.own key found here

/-- The items in an order, and after them those that the order does not list. -/
def arrange (items : List (String × Json)) (order : List String) : List Json :=
  order.filterMap (Assoc.get items) ++ Assoc.values (items.filter fun entry => entry.1 ∉ order)

section Arrange

variable {items : List (String × Json)} {order : List String}

theorem Keyed.map_filterMap (keyed : Keyed items) (order : List String) :
    (order.filterMap (Assoc.get items)).map annotationId = order.filter (· ∈ Assoc.keys items) := by
  induction order with
  | nil => rfl
  | cons id rest ih =>
    cases found : Assoc.get items id with
    | none =>
      have absent := (Assoc.get_eq_none_iff items id).mp found
      rw [filterMap_cons_none found, ih, filter_cons_of_neg (by simpa using absent)]
    | some value =>
      have present := (Assoc.get_isSome_iff items id).mp (by rw [found]; rfl)
      rw [filterMap_cons_some found, map_cons, ih, keyed.own id value found,
        filter_cons_of_pos (by simpa using present)]

theorem Keyed.map_values (keyed : Keyed items) (keep : String → Bool) :
    (Assoc.values (items.filter fun entry => keep entry.1)).map annotationId =
      (Assoc.keys items).filter keep := by
  have own : ∀ entry ∈ items, annotationId entry.2 = entry.1 :=
    fun entry member => keyed.own entry.1 entry.2 (Assoc.get_of_mem keyed.nodup member)
  rw [Assoc.values, map_map, Assoc.keys, filter_map]
  exact map_congr_left fun entry member => own entry (mem_of_mem_filter member)

theorem Keyed.arrange_ids (keyed : Keyed items) (order : List String) :
    (arrange items order).map annotationId =
    order.filter (· ∈ Assoc.keys items) ++ (Assoc.keys items).filter (· ∉ order) := by
  rw [arrange, map_append, keyed.map_filterMap]
  congr 1
  exact keyed.map_values fun id => id ∉ order

theorem Keyed.mem_arrange_ids (keyed : Keyed items) {id : String} :
    id ∈ (arrange items order).map annotationId ↔ id ∈ Assoc.keys items := by
  rw [keyed.arrange_ids, mem_append, mem_filter, mem_filter]
  by_cases listed : id ∈ order <;> simp [listed]

theorem Keyed.arrange_distinct (keyed : Keyed items) (nodup : order.Nodup) (metadata : Object) :
    DistinctIds ⟨metadata, arrange items order⟩ := by
  constructor
  · change ((arrange items order).map annotationId).Nodup
    rw [keyed.arrange_ids, nodup_append]
    refine ⟨nodup.filter _, keyed.nodup.filter _, fun left inOrder right outside same => ?_⟩
    subst same
    simp only [mem_filter, decide_eq_true_eq] at inOrder outside
    exact outside.2 inOrder.1
  · change "" ∉ (arrange items order).map annotationId
    rw [keyed.mem_arrange_ids]
    exact keyed.named

theorem mem_arrange {item : Json} (member : item ∈ arrange items order) :
    ∃ id, (id, item) ∈ items := by
  rcases mem_append.mp member with listed | rest
  · obtain ⟨id, _, found⟩ := mem_filterMap.mp listed
    exact ⟨id, Assoc.mem_of_get found⟩
  · obtain ⟨entry, here, rfl⟩ := mem_map.mp rest
    exact ⟨entry.1, mem_of_mem_filter here⟩

theorem Keyed.arrange_at? (keyed : Keyed items) (nodup : order.Nodup) (metadata : Object)
    (id : String) : AnnotationPage.at? ⟨metadata, arrange items order⟩ id = Assoc.get items id := by
  have distinct := keyed.arrange_distinct nodup metadata
  cases found : AnnotationPage.at? ⟨metadata, arrange items order⟩ id with
  | none =>
    have absent : id ∉ (arrange items order).map annotationId := by
      intro listed
      have := (AnnotationPage.at?_isSome_iff ⟨metadata, arrange items order⟩ id).mpr listed
      rw [found] at this
      cases this
    rw [keyed.mem_arrange_ids] at absent
    exact ((Assoc.get_eq_none_iff items id).mpr absent).symm
  | some item =>
    obtain ⟨key, member⟩ := mem_arrange (mem_of_find?_eq_some found)
    have isItem := Assoc.get_of_mem keyed.nodup member
    have same : key = id := (keyed.own key item isItem).symm.trans (AnnotationPage.at?_id found)
    rw [← same, isItem]

end Arrange

/-! ## Applying an entry -/

def Direction.pick {α : Type} : Direction → α → α → α
  | .forward, after, _ => after
  | .backward, _, before => before

def changeItem (direction : Direction) (items : List (String × Json)) (change : ItemChange) :
    List (String × Json) :=
  match direction.pick change.after change.before with
  | some value => Assoc.set items change.id value
  | none => Assoc.erase items change.id

theorem get_changeItem (direction : Direction) (items : List (String × Json)) (change : ItemChange)
    (id : String) : Assoc.get (changeItem direction items change) id =
      if change.id = id then direction.pick change.after change.before else Assoc.get items id := by
  rw [changeItem]
  split
  case h_1 value picked => rw [Assoc.get_set, picked]
  case h_2 picked => rw [Assoc.get_erase, picked]

def changedItems (direction : Direction) (changes : List ItemChange) (items : List (String × Json)) :
    List (String × Json) :=
  changes.foldl (changeItem direction) items

/-- The changes of an entry put items under their own identifiers, and its orders repeat nothing. -/
structure Named (patch : PagePatch) : Prop where
  changes : ∀ change ∈ patch.changes, change.id ≠ "" ∧
    (∀ value ∈ change.after, annotationId value = change.id) ∧ ∀ value ∈ change.before,
      annotationId value = change.id
  orderAfter : ∀ order ∈ patch.orderAfter, order.Nodup
  orderBefore : ∀ order ∈ patch.orderBefore, order.Nodup

theorem Keyed.changedItems (direction : Direction) {changes : List ItemChange}
    {items : List (String × Json)} (keyed : Keyed items) (named : ∀ change ∈ changes, change.id ≠ "" ∧
      (∀ value ∈ change.after, annotationId value = change.id) ∧
      ∀ value ∈ change.before, annotationId value = change.id) :
    Keyed (Editor.changedItems direction changes items) := by
  induction changes generalizing items with
  | nil => exact keyed
  | cons change rest ih =>
    obtain ⟨isNamed, after, before⟩ := named change mem_cons_self
    have own : ∀ value ∈ direction.pick change.after change.before,
        annotationId value = change.id := by
      cases direction
      · exact after
      · exact before
    refine ih ?_ fun other member => named other (mem_cons_of_mem _ member)
    rw [changeItem]
    split
    case h_1 value picked => exact keyed.set (own value picked) isNamed
    case h_2 => exact keyed.erase change.id

theorem firstById_eq {seen : List String} {items : List (Option Json)}
    (nodup : (seen ++ (items.filterMap id).map annotationId).Nodup) :
    firstById seen items = items.filterMap id := by
  induction items generalizing seen with
  | nil => rfl
  | cons item rest ih =>
    cases item with
    | none => exact ih (by simpa using nodup)
    | some item =>
      have fresh : annotationId item ∉ seen := by
        intro listed
        rw [nodup_append] at nodup
        exact nodup.2.2 _ listed _ (by simp) rfl
      rw [firstById, if_neg fresh, ih]
      · rfl
      · have perm : (annotationId item :: seen ++ (rest.filterMap id).map annotationId).Perm
            (seen ++ annotationId item :: (rest.filterMap id).map annotationId) := perm_middle.symm
        exact perm.nodup_iff.mpr (by simpa using nodup)

theorem applyPagePatch_metadata (page : AnnotationPage) (patch : PagePatch) (direction : Direction) :
    (applyPagePatch page patch direction).metadata =
      (direction.pick patch.metadataAfter patch.metadataBefore).getD page.metadata := by
  cases direction <;> rfl

theorem applyPagePatch_items {page : AnnotationPage} {patch : PagePatch} (distinct : DistinctIds page)
    (named : Named patch) (direction : Direction) :
    (applyPagePatch page patch direction).items =
      arrange (changedItems direction patch.changes (itemsById (some page)))
        ((direction.pick patch.orderAfter patch.orderBefore).getD page.ids) := by
  have keyed := distinct.keyed.changedItems direction named.changes
  cases picked : direction.pick patch.orderAfter patch.orderBefore with
  | some wantedOrder =>
    cases direction <;> simp only [Direction.pick] at picked <;>
      simp only [applyPagePatch, picked] <;> rfl
  -- Without a recorded order the page's own order is followed.
  | none =>
    have starts : (applyPagePatch page patch direction).items =
        let items := changedItems direction patch.changes (itemsById (some page))
        let current := firstById [] (page.items.map fun item =>
          if annotationId item = "" then none else Assoc.get items (annotationId item))
        current ++ Assoc.values (items.filter fun entry => entry.1 ∉ current.map annotationId) := by
      cases direction <;> simp only [Direction.pick] at picked <;>
        simp only [applyPagePatch, picked] <;> rfl
    rw [starts]
    generalize changedItems direction patch.changes (itemsById (some page)) = items at keyed ⊢
    have looked : (page.items.map fun item => if annotationId item = "" then none
      else Assoc.get items (annotationId item)) =
        page.ids.map (Assoc.get items) := by
      rw [AnnotationPage.ids, map_map]
      refine map_congr_left fun item member => ?_
      have isNamed : annotationId item ≠ "" :=
        fun empty => distinct.named (mem_map.mpr ⟨item, member, empty⟩)
      simp [isNamed]
    have collected : (page.ids.map (Assoc.get items)).filterMap id =
        page.ids.filterMap (Assoc.get items) := by
      rw [filterMap_map]
      rfl
    have current : firstById [] (page.ids.map (Assoc.get items)) =
        page.ids.filterMap (Assoc.get items) := by
      rw [firstById_eq, collected]
      rw [collected, nil_append, keyed.map_filterMap]
      exact distinct.nodup.filter _
    simp only [looked, current, Option.getD_none, arrange, keyed.map_filterMap]
    congr 2
    refine filter_congr fun entry member => ?_
    have listed : entry.1 ∈ Assoc.keys items := mem_map.mpr ⟨entry, member, rfl⟩
    simp [listed]

/-! ## Entries between two pages -/

section Between

variable {first second page : AnnotationPage}

theorem mem_changes (distinct : DistinctIds first) (distinctToo : DistinctIds second)
    {change : ItemChange} (member : change ∈ (createPagePatch (some first) (some second)).changes) :
    change.before = first.at? change.id ∧ change.after = second.at? change.id ∧
      sameOptional change.before change.after = false := by
  simp only [createPagePatch, mem_filterMap, distinct.get_itemsById,
    distinctToo.get_itemsById] at member
  obtain ⟨id, _, made⟩ := member
  split at made
  · cases made
  · rename_i apart
    cases made
    exact ⟨rfl, rfl, by simpa using apart⟩

theorem createPagePatch_order (first second : AnnotationPage) (direction : Direction) :
    direction.pick (createPagePatch (some first) (some second)).orderAfter
        (createPagePatch (some first) (some second)).orderBefore =
      if first.ids = second.ids then none else some (direction.pick second first).ids := by
  by_cases same : first.ids = second.ids <;> cases direction <;>
    simp [createPagePatch, itemIds_some, same, Direction.pick]

theorem createPagePatch_metadata (first second : AnnotationPage) (direction : Direction) :
    direction.pick (createPagePatch (some first) (some second)).metadataAfter
        (createPagePatch (some first) (some second)).metadataBefore =
      if Json.same (.obj first.metadata) (.obj second.metadata) then none
      else some (direction.pick second first).metadata := by
  by_cases same : Json.same (.obj first.metadata) (.obj second.metadata) = true <;> cases direction <;>
    simp [createPagePatch, pageMetadata, sameMetadata, same, Direction.pick]

theorem createPagePatch_named (distinct : DistinctIds first) (distinctToo : DistinctIds second) :
    Named (createPagePatch (some first) (some second)) := by
  refine ⟨fun change member => ?_, fun order found => ?_, fun order found => ?_⟩
  · obtain ⟨isBefore, isAfter, apart⟩ := mem_changes distinct distinctToo member
    refine ⟨fun empty => ?_, fun value found => ?_, fun value found => ?_⟩
    · rw [isBefore, isAfter, empty, AnnotationPage.at?_eq_none distinct.named,
        AnnotationPage.at?_eq_none distinctToo.named] at apart
      cases apart
    · rw [isAfter] at found
      exact AnnotationPage.at?_id found
    · rw [isBefore] at found
      exact AnnotationPage.at?_id found
  · have isOrder := createPagePatch_order first second .forward
    simp only [Direction.pick] at isOrder
    rw [isOrder, Option.mem_def, Option.ite_none_left_eq_some, Option.some.injEq] at found
    exact found.2 ▸ distinctToo.nodup
  · have isOrder := createPagePatch_order first second .backward
    simp only [Direction.pick] at isOrder
    rw [isOrder, Option.mem_def, Option.ite_none_left_eq_some, Option.some.injEq] at found
    exact found.2 ▸ distinct.nodup

theorem get_changedItems (distinct : DistinctIds first) (distinctToo : DistinctIds second)
    (direction : Direction) (items : List (String × Json)) (id : String) :
    Assoc.get (changedItems direction (createPagePatch (some first) (some second)).changes items) id =
      if sameOptional (first.at? id) (second.at? id) then Assoc.get items id
      else direction.pick (second.at? id) (first.at? id) := by
  -- For any list of ids; those that occur in neither page have no change.
  have general : ∀ (ids : List String) (items : List (String × Json)),
      Assoc.get (changedItems direction (ids.filterMap fun key =>
        if sameOptional (first.at? key) (second.at? key) then none
        else some ⟨key, first.at? key, second.at? key⟩) items) id =
      if id ∈ ids ∧ sameOptional (first.at? id) (second.at? id) = false then
        direction.pick (second.at? id) (first.at? id)
      else Assoc.get items id := by
    intro ids
    induction ids with
    | nil => simp [changedItems]
    | cons key rest ih =>
      intro items
      by_cases isSame : sameOptional (first.at? key) (second.at? key) = true
      · rw [filterMap_cons_none (by rw [if_pos isSame]), ih]
        by_cases here : id = key
        · simp [here, isSame]
        · simp [here]
      · rw [filterMap_cons_some (by rw [if_neg isSame]), changedItems, foldl_cons, ← changedItems,
          ih, get_changeItem]
        by_cases here : id = key
        · simp [here, isSame]
        · simp [here, Ne.symm here]
  simp only [createPagePatch, distinct.get_itemsById, distinctToo.get_itemsById]
  rw [general]
  by_cases isSame : sameOptional (first.at? id) (second.at? id) = true
  · simp [isSame]
  · have listed : id ∈ (Assoc.keys (itemsById (some first)) ++ Assoc.keys
        (itemsById (some second))).eraseDups := by
      rw [mem_eraseDups, mem_append]
      by_contra absent
      rw [not_or] at absent
      rw [← distinct.get_itemsById, ← distinctToo.get_itemsById,
        (Assoc.get_eq_none_iff _ _).mpr absent.1, (Assoc.get_eq_none_iff _ _).mpr absent.2] at isSame
      exact isSame rfl
    simp only [listed, true_and]
    simp [isSame]

/-- An entry leads from a page that equals its one side to one that equals the other. -/
theorem applyPagePatch_same (proper : ProperPage first) (properToo : ProperPage second)
    (properPage : ProperPage page) (direction : Direction)
    (isSame : SamePage page (direction.pick first second)) :
    ProperPage (applyPagePatch page (createPagePatch (some first) (some second)) direction) ∧
    SamePage (applyPagePatch page (createPagePatch (some first) (some second)) direction)
    (direction.pick second first) := by
  have named := createPagePatch_named proper.distinct properToo.distinct
  have isMetadata :=
    applyPagePatch_metadata page (createPagePatch (some first) (some second)) direction
  have isItems := applyPagePatch_items properPage.distinct named direction
  rw [createPagePatch_order] at isItems
  rw [createPagePatch_metadata] at isMetadata
  have properTarget : ProperPage (direction.pick second first) := by
    cases direction
    · exact properToo
    · exact proper
  -- both sides agree where the entry has nothing
  have across : ∀ id, sameOptional (first.at? id) (second.at? id) = true →
      sameOptional (page.at? id) ((direction.pick second first).at? id) = true := by
    intro id agree
    cases direction
    · exact sameOptional_trans (isSame.items id) agree
    · exact sameOptional_trans (isSame.items id)
        (sameOptional_symm proper.at?_proper properToo.at?_proper agree)
  have isOrder : (if first.ids = second.ids then none
    else some (direction.pick second first).ids).getD page.ids =
      (direction.pick second first).ids := by
    split
    · rename_i agree
      rw [Option.getD_none, isSame.ids]
      cases direction
      · exact agree
      · exact agree.symm
    · rfl
  have keyed := properPage.distinct.keyed.changedItems direction named.changes
  have value := get_changedItems proper.distinct properToo.distinct direction (itemsById (some page))
  simp only [properPage.distinct.get_itemsById] at value
  rw [isOrder] at isItems
  generalize changedItems direction (createPagePatch (some first) (some second)).changes
    (itemsById (some page)) = items
    at isItems keyed value
  generalize applyPagePatch page (createPagePatch (some first) (some second)) direction =
    result at isItems isMetadata ⊢
  obtain ⟨metadata, resultItems⟩ := result
  simp only at isItems isMetadata
  subst isItems isMetadata
  have sameValue : ∀ id, sameOptional (Assoc.get items id)
      ((direction.pick second first).at? id) = true := by
    intro id
    rw [value]
    split
    · exact across id ‹_›
    · cases direction
      · exact sameOptional_refl properToo.at?_proper
      · exact sameOptional_refl proper.at?_proper
  have keys : ∀ id, id ∈ Assoc.keys items ↔ id ∈ (direction.pick second first).ids := by
    intro id
    rw [← Assoc.get_isSome_iff, isSome_of_sameOptional (sameValue id), AnnotationPage.at?_isSome_iff]
  have properValue : ∀ id, ∀ item ∈ Assoc.get items id, item.Proper := by
    intro id
    rw [value]
    split
    · exact properPage.at?_proper
    · cases direction
      · exact properToo.at?_proper
      · exact proper.at?_proper
  refine ⟨⟨keyed.arrange_distinct properTarget.distinct.nodup _, fun item member => ?_, ?_⟩, ?_,
    fun id => ?_, ?_⟩
  · obtain ⟨id, listed⟩ := mem_arrange member
    exact properValue id item (Assoc.get_of_mem keyed.nodup listed)
  · split
    · exact properPage.metadata
    · exact properTarget.metadata
  · have all : (direction.pick second first).ids.filter (· ∈ Assoc.keys items) =
        (direction.pick second first).ids :=
      filter_eq_self.mpr fun id member => by simpa using (keys id).mpr member
    have none : (Assoc.keys items).filter (· ∉ (direction.pick second first).ids) = [] :=
      filter_eq_nil_iff.mpr fun id member => by simpa using (keys id).mp member
    change (arrange items (direction.pick second first).ids).map annotationId = _
    rw [keyed.arrange_ids, all, none, append_nil]
  · rw [keyed.arrange_at? properTarget.distinct.nodup]
    exact sameValue id
  · split
    · rename_i agree
      rw [Option.getD_none]
      cases direction
      · exact Json.same_trans _ _ _ isSame.metadata agree
      · exact Json.same_trans _ _ _ isSame.metadata
          (Json.same_symm _ _ proper.metadata properToo.metadata agree)
    · exact Json.same_refl _ properTarget.metadata

end Between

end Scribe.Editor
