import Mathlib.Order.Defs.Unbundled
import Mathlib.Order.WellFounded
import Scribe.Data.Table

/-! Keyset pagination.

A page is the first rows behind a cursor. One row more than the page holds is read, to
learn whether a next page exists, and the last row of the page is then the next cursor.
Following the cursors passes each place of the order once, also where the table changes
between the pages.
-/

set_option autoImplicit false

namespace Scribe.Keyset

open List

variable {α β γ ε : Type}

/-- Cut a page off the rows that were read. -/
def lookAhead (key : α → γ) (size : Nat) (found : List α) : List α × Option γ :=
  if size < found.length then (found.take size, (found.take size).getLast?.map key) else (found, none)

/-- Follow the cursors until there is none; the time counts the pages. -/
inductive Follows (fetch : Nat → Option γ → Except ε (List α × Option γ)) :
    Nat → Option γ → List α → Prop where
  | last {time : Nat} {cursor : Option γ} {found : List α} (page : fetch time cursor =
      .ok (found, none)) :
      Follows fetch time cursor found
  | more {time : Nat} {cursor : Option γ} {next : γ} {found others : List α}
      (page : fetch time cursor = .ok (found, some next))
        (rest : Follows fetch (time + 1) (some next) others) :
      Follows fetch time cursor (found ++ others)

section
variable (before : γ → γ → Prop) (key : α → γ)

def Upto (a b : α) : Prop := ¬ before (key b) (key a)

instance [DecidableRel before] : DecidableRel (Upto before key) :=
  fun a b => inferInstanceAs (Decidable (¬ before (key b) (key a)))

def Past (cursor : Option γ) (row : α) : Prop := ∀ last ∈ cursor, before last (key row)

instance [DecidableRel before] (cursor : Option γ) : DecidablePred (Past before key cursor) :=
  fun row =>
  match cursor with
  | none => .isTrue (by rintro _ ⟨⟩)
  | some last => decidable_of_iff (before last (key row)) (by simp [Past])

/-- The rows up to the next cursor, in order. -/
structure IsPage (rows found : List α) (next : Option γ) : Prop where
  ordered : found.Pairwise fun a b => before (key a) (key b)
  mem_iff : ∀ row, row ∈ found ↔ row ∈ rows ∧ ∀ last ∈ next, ¬ before last (key row)
  reached : ∀ last ∈ next, ∃ row ∈ found, key row = last

def Serves [DecidableRel before] (fetch : Nat → Option γ → Except ε (List α × Option γ))
    (tables : Nat → List α) : Prop :=
  ∀ time cursor, (∀ last ∈ cursor, ∃ t, ∃ row ∈ tables t, key row = last) →
    ∃ found next, fetch time cursor = .ok (found, next) ∧
      IsPage before key ((tables time).filter (Past before key cursor)) found next

/-- Each place that is always taken is passed once, in order. -/
structure EachOnce (tables : Nat → List α) (result : List α) : Prop where
  ordered : result.Pairwise fun a b => before (key a) (key b)
  read : ∀ row ∈ result, ∃ time, row ∈ tables time
  complete : ∀ place, (∀ time, ∃ row ∈ tables time, key row = place) → ∃ row ∈ result, key row = place

end

section
variable {before : γ → γ → Prop} [DecidableRel before] [IsStrictTotalOrder γ before] {key : α → γ}
  {rows : List α}

instance : Std.Total (Upto before key) :=
  ⟨fun a b => (em (before (key b) (key a))).elim (fun later => .inr fun earlier =>
    asymm_of before later earlier) .inl⟩

instance : IsTrans α (Upto before key) :=
  ⟨fun a b _ ab bc ca => (trichotomous_of before (key a) (key b)).elim (fun earlier =>
    bc (trans_of before ca earlier))
    fun other => other.elim (fun same => bc (same ▸ ca)) ab⟩

theorem pairwise_before_sorted (distinct : (rows.map key).Nodup) :
    (rows.insertionSort (Upto before key)).Pairwise fun a b => before (key a) (key b) := by
  have sorted := rows.pairwise_insertionSort (Upto before key)
  have apart : (rows.insertionSort (Upto before key)).Pairwise fun a b => key a ≠ key b := by
    rw [← pairwise_map]
    exact ((rows.perm_insertionSort (Upto before key)).map key).nodup_iff.mpr distinct
  refine (sorted.and apart).imp fun {a b} both => ?_
  rcases trichotomous_of before (key a) (key b) with earlier | same | later
  · exact earlier
  · exact absurd same both.2
  · exact absurd later both.1

omit [DecidableRel before] in
theorem isPage_take {sorted : List α} {size : Nat}
    (ordered : sorted.Pairwise fun a b => before (key a) (key b)) (positive : 0 < size)
    (filled : sorted ≠ []) :
    IsPage before key sorted (sorted.take size) ((sorted.take size).getLast?.map key) := by
  obtain ⟨init, last, isLast⟩ : ∃ init last, sorted.take size = init ++ [last] := by
    rcases eq_nil_or_concat (sorted.take size) with none | ⟨init, last, isLast⟩
    · rcases take_eq_nil_iff.mp none with zero | empty
      · omega
      · exact absurd empty filled
    · exact ⟨init, last, by simpa using isLast⟩
  have split := ordered
  rw [← sorted.take_append_drop size, isLast, pairwise_append, pairwise_append] at split
  rw [isLast, getLast?_concat, Option.map_some]
  refine ⟨pairwise_append.mpr split.1, fun row => ⟨fun among => ?_, fun ⟨among, near⟩ => ?_⟩, ?_⟩
  · refine ⟨mem_of_mem_take (isLast ▸ among), ?_⟩
    rintro _ ⟨⟩ later
    rcases mem_append.mp among with earlier | here
    · exact asymm_of before later (split.1.2.2 row earlier last (by simp))
    · rw [mem_singleton.mp here] at later
      exact irrefl_of before (key last) later
  · rw [← sorted.take_append_drop size, isLast, mem_append] at among
    rcases among with here | behind
    · exact here
    · exact absurd (split.2.2 last (by simp) row behind) (near _ rfl)
  · rintro _ ⟨⟩
    exact ⟨last, by simp, rfl⟩

theorem isPage_lookAhead {size : Nat} (distinct : (rows.map key).Nodup) (positive : 0 < size) :
    IsPage before key rows (lookAhead key size (Table.first (Upto before key) (size + 1) rows)).1
      (lookAhead key size (Table.first (Upto before key) (size + 1) rows)).2 := by
  have ordered : (rows.insertionSort (Upto before key)).Pairwise fun a b => before (key a) (key b) :=
    pairwise_before_sorted distinct
  have same : ∀ row, row ∈ rows.insertionSort (Upto before key) ↔ row ∈ rows := fun row =>
    (rows.perm_insertionSort (Upto before key)).mem_iff
  rw [Table.first]
  generalize rows.insertionSort (Upto before key) = sorted at ordered same ⊢
  rw [lookAhead]
  split
  · rename_i longer
    have filled : sorted ≠ [] := by
      rintro rfl
      simp at longer
    rw [take_take, Nat.min_eq_left (Nat.le_succ size)]
    obtain ⟨kept, mem_iff, reached⟩ := isPage_take ordered positive filled
    exact ⟨kept, fun row => (mem_iff row).trans (and_congr_left fun _ => same row), reached⟩
  · rename_i short
    have whole : sorted.take (size + 1) = sorted := by
      rw [length_take] at short
      exact take_of_length_le (by omega)
    rw [whole]
    exact ⟨ordered, fun row => by simp [same], by rintro _ ⟨⟩⟩

theorem isPage_query {size : Nat} (name : γ → Nat)
    (distinct : (rows.map fun row => name (key row)).Nodup) (positive : 0 < size)
    (visible : α → Bool) (cursor : Option γ) :
    IsPage before key ((rows.filter visible).filter (Past before key cursor))
      (lookAhead key size (Table.first (Upto before key) (size + 1)
        ((rows.filter visible).filter (Past before key cursor)))).1
      (lookAhead key size (Table.first (Upto before key) (size + 1)
        ((rows.filter visible).filter (Past before key cursor)))).2 := by
  have keys : (rows.map key).Nodup := List.Nodup.of_map name (by rwa [map_map])
  exact isPage_lookAhead (keys.sublist ((filter_sublist.trans filter_sublist).map key)) positive

omit [DecidableRel before] [IsStrictTotalOrder γ before] in
theorem IsPage.map {mapped : β → γ} {f : α → β} {found : List α} {next : Option γ}
    (same : ∀ row, mapped (f row) = key row) (page : IsPage before key rows found next) :
    IsPage before mapped (rows.map f) (found.map f) next where
  ordered := by
    rw [pairwise_map]
    simpa only [same] using page.ordered
  mem_iff := by
    intro row
    simp only [mem_map, page.mem_iff]
    constructor
    · rintro ⟨old, ⟨among, near⟩, rfl⟩
      exact ⟨⟨old, among, rfl⟩, by rwa [same]⟩
    · rintro ⟨⟨old, among, rfl⟩, near⟩
      exact ⟨old, ⟨among, by rwa [same] at near⟩, rfl⟩
  reached := by
    intro last isLast
    obtain ⟨row, among, place⟩ := page.reached last isLast
    exact ⟨f row, mem_map_of_mem among, (same row).trans place⟩

/-! ## Following the cursors -/

section
variable {fetch : Nat → Option γ → Except ε (List α × Option γ)} {tables : Nat → List α}

omit [IsStrictTotalOrder γ before] in
theorem IsPage.next_past {time : Nat} {cursor : Option γ} {found : List α} {next : γ}
    (page : IsPage before key ((tables time).filter (Past before key cursor)) found (some next)) :
    ∃ row ∈ tables time, key row = next ∧ Past before key cursor row := by
  obtain ⟨row, among, place⟩ := page.reached next rfl
  have past := mem_filter.mp ((page.mem_iff row).mp among).1
  exact ⟨row, past.1, place, by simpa using past.2⟩

/-- From a cursor on, each place behind it that is always taken is passed once. -/
theorem Follows.eachOnce (serves : Serves before key fetch tables) {time : Nat} {cursor : Option γ}
    {result : List α} (follows : Follows fetch time cursor result)
    (known : ∀ last ∈ cursor, ∃ t, ∃ row ∈ tables t, key row = last) :
    result.Pairwise (fun a b => before (key a) (key b)) ∧
    (∀ row ∈ result, Past before key cursor row ∧ ∃ t, row ∈ tables t) ∧
    ∀ place, (∀ last ∈ cursor, before last place) → (∀ t, ∃ row ∈ tables t, key row = place) →
      ∃ row ∈ result, key row = place := by
  induction follows with
  | last answered =>
    obtain ⟨found, next, same, page⟩ := serves _ _ known
    obtain ⟨rfl, rfl⟩ := Prod.mk.inj (Except.ok.inj (answered.symm.trans same))
    refine ⟨page.ordered, fun row among => ?_, fun place behind taken => ?_⟩
    · have past := mem_filter.mp ((page.mem_iff row).mp among).1
      exact ⟨by simpa using past.2, _, past.1⟩
    · obtain ⟨row, among, rfl⟩ := taken _
      exact ⟨row, (page.mem_iff row).mpr ⟨mem_filter.mpr ⟨among, by simpa [Past] using behind⟩,
        by simp⟩, rfl⟩
  | @more time cursor next found others answered rest ih =>
    obtain ⟨_, _, same, page⟩ := serves _ _ known
    obtain ⟨rfl, rfl⟩ := Prod.mk.inj (Except.ok.inj (answered.symm.trans same))
    obtain ⟨reached, here, place, past⟩ := page.next_past
    have nextKnown : ∀ last ∈ some next, ∃ t, ∃ row ∈ tables t, key row = last := by
      rintro _ ⟨⟩
      exact ⟨_, reached, here, place⟩
    obtain ⟨ordered, read, complete⟩ := ih nextKnown
    have found_iff : ∀ row, row ∈ found ↔ (row ∈ tables time ∧ Past before key cursor row) ∧
        ¬ before next (key row) := by
      intro row
      rw [page.mem_iff, mem_filter, decide_eq_true_iff]
      simp
    -- A row of this page is not behind the next cursor, and the rows of the others are.
    have apart : ∀ row ∈ found, ∀ other ∈ others, before (key row) (key other) := by
      intro row among other behind
      have later := (read other behind).1 next rfl
      rcases trichotomous_of before (key row) next with earlier | same | past
      · exact trans_of before earlier later
      · exact same ▸ later
      · exact absurd past ((found_iff row).mp among).2
    refine ⟨pairwise_append.mpr ⟨page.ordered, ordered, apart⟩, fun row among => ?_,
      fun spot behind taken => ?_⟩
    · rcases mem_append.mp among with here | later
      · have facts := ((found_iff row).mp here).1
        exact ⟨facts.2, _, facts.1⟩
      · refine ⟨fun last isLast => trans_of before (past last isLast) ?_, (read row later).2⟩
        rw [place]
        exact (read row later).1 next rfl
    · by_cases further : before next spot
      · obtain ⟨row, among, same⟩ := complete spot (by rintro _ ⟨⟩; exact further) taken
        exact ⟨row, mem_append_right _ among, same⟩
      · obtain ⟨row, among, rfl⟩ := taken time
        exact ⟨row, mem_append_left _ ((found_iff row).mpr ⟨⟨among, behind⟩, further⟩), rfl⟩

omit [IsStrictTotalOrder γ before] in
/-- Where the cursors descend, following them ends. -/
theorem exists_follows (serves : Serves before key fetch tables) {below : γ → γ → Prop}
    (wf : WellFounded below) (descends : ∀ time last next, before last next →
      (∃ row ∈ tables time, key row = next) → below next last) :
    ∃ result, Follows fetch 0 none result := by
  have further : ∀ last time, (∃ t, ∃ row ∈ tables t, key row = last) → ∃ result,
      Follows fetch time (some last) result := by
    intro last
    induction last using wf.induction with
    | _ last ih =>
      intro time known
      obtain ⟨found, next, answered, page⟩ := serves time (some last) (by rintro _ ⟨⟩; exact known)
      cases next with
      | none => exact ⟨found, .last answered⟩
      | some next =>
        obtain ⟨row, among, place, past⟩ := page.next_past
        obtain ⟨others, rest⟩ :=
          ih next (descends time last next (place ▸ past last rfl) ⟨row, among, place⟩) (time + 1)
          ⟨time, row, among, place⟩
        exact ⟨found ++ others, .more answered rest⟩
  obtain ⟨found, next, answered, page⟩ := serves 0 none (by rintro _ ⟨⟩)
  cases next with
  | none => exact ⟨found, .last answered⟩
  | some next =>
    obtain ⟨row, among, place, -⟩ := page.next_past
    obtain ⟨others, rest⟩ := further next 1 ⟨0, row, among, place⟩
    exact ⟨found ++ others, .more answered rest⟩

theorem exists_follows_static {rows : List α} (serves : Serves before key fetch fun _ => rows) :
    ∃ result, Follows fetch 0 none result := by
  have wf : WellFounded (InvImage (· < ·) fun last => rows.countP fun row => before last (key row)) :=
    InvImage.wf _ wellFounded_lt
  refine exists_follows serves wf ?_
  rintro _ last _ later ⟨row, among, rfl⟩
  have fewer : ∀ part : List α,
      part.countP (fun other => before (key row) (key other)) ≤ part.countP fun other =>
          before last (key other) :=
    fun part => countP_mono_left fun other _ past =>
      by simpa using trans_of before later (by simpa using past)
  obtain ⟨front, back, rfl⟩ := append_of_mem among
  have gone : ¬ before (key row) (key row) := irrefl_of before (key row)
  have inFront := fewer front
  have inBack := fewer back
  simp only [InvImage, countP_append, countP_cons, later, gone, decide_true, decide_false, if_true]
  simp only [Bool.false_eq_true, if_false]
  omega

end

omit [IsStrictTotalOrder γ before] in
theorem filter_past {visible condition : α → Bool} {cursor : Option γ}
    (places : ∀ row, condition row = true ↔ Past before key cursor row) :
    (rows.filter fun row => visible row && condition row) =
      (rows.filter visible).filter (Past before key cursor) := by
  rw [filter_filter]
  refine filter_congr fun row _ => ?_
  rw [Bool.and_comm, Bool.eq_iff_iff]
  simp [places]

/-- A list is enumerated: the cursors end, and pass each row once in order. -/
def Enumerates (before : γ → γ → Prop) (key : α → γ)
    (fetch : Option γ → Except ε (List α × Option γ)) (rows : List α) : Prop :=
  (∃ result, Follows (fun _ => fetch) 0 none result) ∧
  ∀ result, Follows (fun _ => fetch) 0 none result →
    result.Pairwise (fun a b => before (key a) (key b)) ∧ ∀ row, row ∈ result ↔ row ∈ rows

theorem Serves.enumerates {fetch : Option γ → Except ε (List α × Option γ)}
    (serves : Serves before key (fun _ => fetch) fun _ => rows)
    (distinct : ∀ row ∈ rows, ∀ other ∈ rows, key row = key other → row = other) :
    Enumerates before key fetch rows := by
  refine ⟨exists_follows_static serves, fun result follows => ?_⟩
  obtain ⟨ordered, read, complete⟩ := follows.eachOnce serves (by rintro _ ⟨⟩)
  refine ⟨ordered, fun row => ⟨fun among => (read row among).2.choose_spec, fun among => ?_⟩⟩
  obtain ⟨found, here, same⟩ := complete (key row) (by rintro _ ⟨⟩) fun _ => ⟨row, among, rfl⟩
  rw [distinct row among found (read found here).2.choose_spec same.symm]
  exact here

end

end Scribe.Keyset
