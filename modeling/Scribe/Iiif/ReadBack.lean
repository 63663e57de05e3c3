import Scribe.Iiif.Lens

/-! What a rewritten target reads as.

Validation admits targets with nested or repeated selectors, and a rewritten one of
those may no longer name a single rectangle. Whenever it still names one, it is the
rectangle that was written.
-/

set_option autoImplicit false

namespace Scribe.Iiif

open List Json Attempt

/-- A rectangle as the server writes it: digits and commas. -/
structure IsPlainXYWH (xywh : String) : Prop where
  filled : xywh ≠ ""
  plain : ∀ c ∈ xywh.toList, c.isDigit = true ∨ c = ','

def IsWritten (xywh value : String) : Prop := value = xywh ∨ value = "pixel:" ++ xywh

theorem unicodeSpace_digit {c : Char} (digit : c.isDigit = true) : Text.unicodeSpace c = false := by
  simp only [Char.isDigit, ge_iff_le, Bool.and_eq_true, decide_eq_true_eq,
    UInt32.le_iff_toNat_le] at digit
  have low : 48 ≤ c.toNat := digit.1
  have high : c.toNat ≤ 57 := digit.2
  simp [Text.unicodeSpace]
  omega

section
variable {xywh : String} (plain : IsPlainXYWH xywh)
include plain

theorem IsPlainXYWH.isField : Text.IsField Text.unicodeSpace xywh := by
  refine ⟨plain.filled, fun c member => ?_⟩
  rcases plain.plain c member with digit | rfl
  · exact unicodeSpace_digit digit
  · decide

theorem IsWritten.isField {value : String} (written : IsWritten xywh value) :
    Text.IsField Text.unicodeSpace value := by
  rcases written with rfl | rfl
  · exact plain.isField
  · refine ⟨by simp, fun c member => ?_⟩
    rw [String.toList_append, mem_append] at member
    rcases member with unit | digits
    · have free : (("pixel:".toList).all fun c => !Text.unicodeSpace c) = true := by decide
      simpa using all_eq_true.mp free c unit
    · exact plain.isField.2 c digits

theorem IsWritten.noSeparator {value : String} (written : IsWritten xywh value) :
    '&' ∉ value.toList := by
  have free : '&' ∉ xywh.toList := by
    intro member
    rcases plain.plain '&' member with digit | comma
    · exact absurd digit (by decide)
    · exact absurd comma (by decide)
  rcases written with rfl | rfl
  · exact free
  · rw [String.toList_append, mem_append]
    rintro (unit | digits)
    · exact absurd unit (by decide)
    · exact free digits

/-! ## Fragments -/

/-- Whatever rectangle a fragment has is a written one. -/
def HasWritten (fragment xywh : String) : Prop :=
  ∀ found, mediaFragmentPixelXYWH fragment = .ok found → ∃ value, found = some value ∧
    IsWritten xywh value

theorem HasWritten.of_replace {raw updated : String}
    (done : replaceMediaFragmentPixelXYWH raw xywh = .ok updated) : HasWritten updated xywh := by
  intro found read
  obtain ⟨value, rfl, written⟩ := read_written done read
  have trimmed : Go.trimSpace xywh = xywh := Go.trimSpace_of_isField plain.isField
  have shape := written.shape
  rw [trimmed] at shape
  exact ⟨value, rfl, shape⟩

theorem HasWritten.single : HasWritten ("xywh=" ++ xywh) xywh := by
  have ends : ∀ c, (String.intercalate "&" ["xywh=" ++ xywh]).toList.getLast? = some c →
      Text.unicodeSpace c = false := by
    intro c found
    rw [String.intercalate_singleton, String.toList_append,
      getLast?_append_of_ne_nil _ (by simpa using plain.filled)] at found
    exact plain.isField.2 c (mem_of_getLast? found)
  have free : '&' ∉ ("xywh=" ++ xywh).toList := by
    rw [String.toList_append, mem_append]
    rintro (mark | inside)
    · exact absurd mark (by decide)
    · exact IsWritten.noSeparator plain (.inl rfl) inside
  have parameters : mediaFragmentParameters ("xywh=" ++ xywh) = ["xywh=" ++ xywh] := by
    have joined := @mediaFragmentParameters_join ["xywh=" ++ xywh] (by simp) (by simpa using free)
      (fun c found => by
        rw [String.intercalate_singleton, String.toList_append,
          head?_append_of_ne_nil _ (by decide)] at found
        rw [← Option.some.inj found]
        decide) ends
    rwa [String.intercalate_singleton] at joined
  have value : xywhParameter? ("xywh=" ++ xywh) = some xywh :=
    @xywhParameter?_written "xywh" _ (by decide) (by decide)
  intro found read
  rw [mediaFragmentPixelXYWH, parameters, filterMap_cons, value] at read
  simp only [filterMap_nil, Go.trimSpace_of_isField plain.isField, plain.filled, if_false,
    Except.ok.injEq] at read
  exact ⟨xywh, read.symm, .inl rfl⟩

end

/-! ## Selectors -/

/-- Whatever rectangles a selector value has, a written one is among them. -/
def SelectorHas (selector : Json) (xywh : String) : Prop :=
  ∀ rectangles, selectorRectangles selector = .ok rectangles → ∃ value ∈ rectangles,
    IsWritten xywh value

theorem SelectorHas.of_fragment {selector : Object} {xywh fragment : String}
    (isType : stringValue (field selector "type") = fragmentSelectorType)
    (isValue : stringValue (field selector "value") = fragment) (has : HasWritten fragment xywh) :
    SelectorHas (.obj selector) xywh := by
  intro rectangles read
  have spatial : Go.equalFold (Go.trimSpace fragmentSelectorType) fragmentSelectorType = true := by
    decide
  rw [selectorRectangles, isType, isValue, if_pos spatial] at read
  obtain ⟨found, here, same⟩ := bind_ok_iff.mp read
  obtain ⟨value, rfl, written⟩ := has found here
  rw [← pure_ok_iff.mp same]
  exact ⟨value, by simp, written⟩

theorem selectorListRectangles_mem {entries : List Json} {rectangles : List String}
    (read : selectorListRectangles entries = .ok rectangles) {entry : Json}
    (member : entry ∈ entries) :
    ∃ here, selectorRectangles entry = .ok here ∧ ∀ value ∈ here, value ∈ rectangles := by
  induction entries generalizing rectangles with
  | nil => cases member
  | cons first rest ih =>
    rw [selectorListRectangles] at read
    obtain ⟨here, atFirst, read⟩ := bind_ok_iff.mp read
    obtain ⟨after, atRest, same⟩ := bind_ok_iff.mp read
    rw [← pure_ok_iff.mp same]
    rcases mem_cons.mp member with rfl | member
    · exact ⟨here, atFirst, fun value inside => mem_append_left _ inside⟩
    · obtain ⟨found, atEntry, inside⟩ := ih atRest member
      exact ⟨found, atEntry, fun value held => mem_append_right _ (inside value held)⟩

theorem SelectorHas.of_mem {entries : List Json} {entry : Json} {xywh : String}
    (member : entry ∈ entries) (has : SelectorHas entry xywh) : SelectorHas (.arr entries) xywh := by
  intro rectangles read
  rw [selectorRectangles] at read
  obtain ⟨here, atEntry, inside⟩ := selectorListRectangles_mem read member
  obtain ⟨value, held, written⟩ := has here atEntry
  exact ⟨value, inside value held, written⟩

theorem SelectorHas.new {xywh fragment : String} (has : HasWritten fragment xywh) :
    SelectorHas (newFragmentSelector fragment) xywh :=
  SelectorHas.of_fragment (by simp [field, Assoc.get, stringValue])
    (by simp [field, Assoc.get, stringValue]) has

theorem updateFragmentSelector_has {selector updated : Object} {xywh : String}
    (plain : IsPlainXYWH xywh) (done : updateFragmentSelector selector xywh = .ok updated) :
    SelectorHas (.obj updated) xywh := by
  obtain ⟨fragment, replaced, same⟩ := bind_ok_iff.mp done
  have isUpdated := pure_ok_iff.mp same
  have has := HasWritten.of_replace plain replaced
  have apart : ("value" : String) ≠ "type" := by decide
  have apartType : ("conformsTo" : String) ≠ "type" := by decide
  have apartValue : ("conformsTo" : String) ≠ "value" := by decide
  refine @SelectorHas.of_fragment updated xywh fragment ?_ ?_ has
  · rw [← isUpdated]
    split
    · rw [field_set_of_ne _ _ apartType, field_set_of_ne _ _ apart, field_set_self]
      rfl
    · rw [field_set_of_ne _ _ apart, field_set_self]
      rfl
  · rw [← isUpdated]
    split
    · rw [field_set_of_ne _ _ apartValue, field_set_self]
      rfl
    · rw [field_set_self]
      rfl

theorem scanSelectors_bound {position : Nat} {seen found : SelectorScan} {selectors : List Json}
    (scanned : scanSelectors position seen selectors = .ok found)
    (spatial : ∀ i ∈ seen.spatial, i < position) (fragments : ∀ i ∈ seen.fragments, i < position) :
    (∀ i ∈ found.spatial, i < position + selectors.length) ∧ ∀ i ∈ found.fragments,
      i < position + selectors.length := by
  induction selectors generalizing position seen with
  | nil =>
    simp only [scanSelectors, Except.ok.injEq] at scanned
    subst scanned
    exact ⟨by simpa using spatial, by simpa using fragments⟩
  | cons selector rest ih =>
    have shift : position + 1 + rest.length = position + (selector :: rest).length := by
      simp only [length_cons]
      omega
    rw [scanSelectors] at scanned
    split at scanned
    · rw [← shift]
      exact ih scanned (fun i member => Nat.lt_succ_of_lt (spatial i member))
        (fun i member => Nat.lt_succ_of_lt (fragments i member))
    · have grown : ∀ i ∈ seen.fragments ++ [position], i < position + 1 := by
        intro i member
        rcases mem_append.mp member with old | new
        · exact Nat.lt_succ_of_lt (fragments i old)
        · rw [mem_singleton.mp new]
          exact Nat.lt_succ_self _
      obtain ⟨rectangle, _, scanned⟩ := bind_ok_iff.mp scanned
      rw [← shift]
      cases rectangle with
      | none => exact ih scanned (fun i member => Nat.lt_succ_of_lt (spatial i member)) grown
      | some value =>
        simp only at scanned
        split at scanned
        · cases scanned
        · refine ih scanned ?_ grown
          intro i member
          simp only [Option.mem_some_iff] at member
          omega

theorem spatialPosition_bound {selectors : List Json} {position : Nat}
    (found : spatialPosition selectors = .ok (some position)) : position < selectors.length := by
  obtain ⟨seen, scanned, chosen⟩ := bind_ok_iff.mp found
  obtain ⟨spatial, fragments⟩ := scanSelectors_bound scanned (by simp) (by simp)
  rw [Nat.zero_add] at spatial fragments
  split at chosen
  · rename_i isSpatial
    simp only [pure, Except.pure, Except.ok.injEq, Option.some.injEq] at chosen
    subst chosen
    exact spatial _ isSpatial
  · rename_i isFragment
    simp only [pure, Except.pure, Except.ok.injEq, Option.some.injEq] at chosen
    subst chosen
    exact fragments _ (by rw [isFragment]; exact mem_cons_self)
  · cases chosen

theorem replaceSelectorPixelXYWH_has {target updated : Object} {xywh : String}
    (plain : IsPlainXYWH xywh) (done : replaceSelectorPixelXYWH target xywh = .ok updated) :
    ∃ selector, updated = Assoc.set target "selector" selector ∧ SelectorHas selector xywh := by
  have trimmed : Go.trimSpace xywh = xywh := Go.trimSpace_of_isField plain.isField
  have added : SelectorHas (newFragmentSelector ("xywh=" ++ xywh)) xywh :=
    SelectorHas.new (HasWritten.single plain)
  unfold replaceSelectorPixelXYWH at done
  rw [trimmed] at done
  simp only at done
  cases shape : field target "selector" with
  | obj selector =>
    simp only [shape] at done
    obtain ⟨position, _, done⟩ := bind_ok_iff.mp done
    cases position with
    | some position =>
      obtain ⟨replaced, made, same⟩ := bind_ok_iff.mp done
      exact ⟨_, (pure_ok_iff.mp same).symm, updateFragmentSelector_has plain made⟩
    | none => exact ⟨_, (pure_ok_iff.mp done).symm, SelectorHas.of_mem (by simp) added⟩
  | arr selectors =>
    simp only [shape] at done
    obtain ⟨position, found, done⟩ := bind_ok_iff.mp done
    cases position with
    | some position =>
      obtain ⟨replaced, made, same⟩ := bind_ok_iff.mp done
      have inside : Json.obj replaced ∈ selectors.set position (.obj replaced) :=
        List.mem_set (spatialPosition_bound found) _
      exact ⟨_, (pure_ok_iff.mp same).symm,
        SelectorHas.of_mem inside (updateFragmentSelector_has plain made)⟩
    | none => exact ⟨_, (pure_ok_iff.mp done).symm, SelectorHas.of_mem (by simp) added⟩
  | null =>
    simp only [shape] at done
    exact ⟨_, (pure_ok_iff.mp done).symm, added⟩
  | bool value =>
    simp only [shape] at done
    exact ⟨_, (pure_ok_iff.mp done).symm, SelectorHas.of_mem (by simp) added⟩
  | num literal =>
    simp only [shape] at done
    exact ⟨_, (pure_ok_iff.mp done).symm, SelectorHas.of_mem (by simp) added⟩
  | str value =>
    simp only [shape] at done
    exact ⟨_, (pure_ok_iff.mp done).symm, SelectorHas.of_mem (by simp) added⟩

/-! ## Targets -/

def sourceCanvas : Json → Option String
  | .str source => some (Go.trimSpace source)
  | .obj source => some (Go.trimSpace (stringValue (field source "id")))
  | _ => none

/-- What a rewritten target reads as: its Canvas, and its rectangle if it still names one. -/
structure TargetHas (target : Object) (canvasURI xywh : String) : Prop where
  source : sourceCanvas (field target "source") = some canvasURI
  rectangle : SelectorHas (field target "selector") xywh

theorem TargetHas.canvas {target : Object} {canvasURI xywh : String}
    (has : TargetHas target canvasURI xywh) : targetCanvas (.obj target) = canvasURI := by
  have source := has.source
  unfold targetCanvas
  cases shape : field target "source" with
  | str text => simpa [shape, sourceCanvas] using source
  | obj object => simpa [shape, sourceCanvas] using source
  | _ => simp [shape, sourceCanvas] at source

theorem sourceCanvas_setTargetCanvas (target : Object) (canvasURI : String) :
    sourceCanvas (field (setTargetCanvas target canvasURI) "source") =
      some (Go.trimSpace canvasURI) := by
  have apartType : ("type" : String) ≠ "id" := by decide
  unfold setTargetCanvas
  cases shape : field target "source" with
  | obj source =>
    simp only [field_set_self, sourceCanvas]
    split
    · rw [field_set_of_ne _ _ apartType, field_set_self]
      rfl
    · rw [field_set_self]
      rfl
  | _ => simp only [field_set_self, sourceCanvas]

theorem replaceTargetPixelXYWH_has {ext : Externals} {raw : Json} {canvasURI xywh : String}
    {target : Object} (plain : IsPlainXYWH xywh)
    (done : replaceTargetPixelXYWH ext raw canvasURI xywh = .ok target) :
    TargetHas target (Go.trimSpace canvasURI) xywh := by
  have trimmed : Go.trimSpace xywh = xywh := Go.trimSpace_of_isField plain.isField
  have compact : ∀ fragment, HasWritten fragment xywh →
      TargetHas [("source", .str (Go.trimSpace canvasURI)), ("selector", newFragmentSelector fragment)]
        (Go.trimSpace canvasURI) xywh := by
    intro fragment has
    refine ⟨?_, ?_⟩
    · simp [sourceCanvas, field, Assoc.get, Go.trimSpace_trimSpace]
    · simpa [field, Assoc.get] using SelectorHas.new has
  obtain ⟨_, _, done⟩ := bind_ok_iff.mp done
  cases raw with
  | str value =>
    obtain ⟨fragment, replaced, same⟩ := bind_ok_iff.mp done
    rw [← pure_ok_iff.mp same]
    exact compact fragment (HasWritten.of_replace plain replaced)
  | obj value =>
    obtain ⟨selector, rfl, has⟩ := replaceSelectorPixelXYWH_has plain done
    refine ⟨?_, by rw [field_set_self]; exact has⟩
    rw [field_set_of_ne _ _ (by decide), sourceCanvas_setTargetCanvas, Go.trimSpace_trimSpace]
  | _ =>
    rw [← pure_ok_iff.mp done, trimmed]
    exact compact _ (HasWritten.single plain)

end Scribe.Iiif
