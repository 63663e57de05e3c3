import Mathlib.Data.List.Sort
import Mathlib.Data.Nat.Log
import Mathlib.Logic.Function.Basic
import Mathlib.Tactic.Ring

/-! An index of ranges over positions `0, …, size - 1`, as a binary tree in heap
layout: node `1` is the root, node `n` has the children `2n` and `2n + 1`, and
position `p` is the leaf `size + p`.

A range is stored at the nodes that cut it into subtrees. Removing a range only
marks it; a query drops marked entries from the front of the queues it meets and
returns the entry of least order among the ranges that contain the position.
-/

set_option autoImplicit false

namespace Scribe.Coverage

open List

structure Entry where
  line : Nat
  order : Nat
  deriving DecidableEq, Repr

abbrev Queue := List Entry

def Queue.push (queue : Queue) (entry : Entry) : Queue :=
  queue.orderedInsert (fun a b => a.order ≤ b.order) entry

structure Index where
  size : Nat
  nodes : Nat → Queue
  active : Nat → Bool

def growSize : (fuel size count : Nat) → Nat
  | 0, size, _ => size
  | fuel + 1, size, count => if size < count then growSize fuel (2 * size) count else size

def Index.empty (count : Nat) : Index :=
  { size := growSize count 1 count, nodes := fun _ => [], active := fun _ => false }

/-- The nodes at which a range of leaves is stored. -/
def coverNodes : (fuel left right : Nat) → List Nat
  | 0, _, _ => []
  | fuel + 1, left, right =>
      if left ≤ right then
        let here := (if left % 2 = 1 then [left] else []) ++ (if right % 2 = 0 then [right] else [])
        let left := if left % 2 = 1 then left + 1 else left
        let right := if right % 2 = 0 then right - 1 else right
        here ++ coverNodes fuel (left / 2) (right / 2)
      else []

def pushAt (entry : Entry) (nodes : Nat → Queue) (node : Nat) : Nat → Queue :=
  Function.update nodes node ((nodes node).push entry)

def Index.add (index : Index) (entry : Entry) (left right : Nat) : Index :=
  if left ≤ right then
    { index with
      active := Function.update index.active entry.line true
      nodes := (coverNodes (index.size + right) (index.size + left) (index.size + right)).foldl
        (pushAt entry) index.nodes }
  else index

def Index.remove (index : Index) (line : Nat) : Index :=
  { index with active := Function.update index.active line false }

/-- Drop removed entries from the front. -/
def Index.candidates (index : Index) (node : Nat) : Queue :=
  (index.nodes node).dropWhile fun entry => !index.active entry.line

def better (best : Option Entry) (candidates : Queue) : Option Entry :=
  match candidates.head?, best with
  | some top, some held => if top.order < held.order then some top else some held
  | some top, none => some top
  | none, best => best

/-- Walk from a node to the root. -/
def ownerFrom : (fuel node : Nat) → Index → Option Entry → Index × Option Entry
  | 0, _, index, best => (index, best)
  | fuel + 1, node, index, best =>
      if node = 0 then (index, best)
      else
        let candidates := index.candidates node
        ownerFrom fuel (node / 2) { index with nodes := Function.update index.nodes node candidates }
          (better best candidates)

def Index.owner (index : Index) (position : Nat) : Index × Option Entry :=
  ownerFrom (index.size + position) (index.size + position) index none

/-! ## Which leaves a range covers -/

def Below (leaf node : Nat) : Prop := 0 < node ∧ ∃ level, leaf / 2 ^ level = node

theorem below_self {leaf : Nat} (positive : 0 < leaf) : Below leaf leaf := ⟨positive, 0, by simp⟩

theorem below_same_level {level leaf node : Nat} (leafHigh : leaf < 2 ^ (level + 1))
    (nodeLow : 2 ^ level ≤ node) (below : Below leaf node) : leaf = node := by
  obtain ⟨_, step, same⟩ := below
  cases step with
  | zero => simpa using same
  | succ step =>
    have halved : leaf / 2 ^ (step + 1) < 2 ^ level := by
      rw [Nat.div_lt_iff_lt_mul (Nat.two_pow_pos _), ← pow_add]
      exact lt_of_lt_of_le leafHigh (Nat.pow_le_pow_right (by omega) (by omega))
    omega

theorem below_half_iff {leaf node : Nat} (small : node < leaf) :
    Below leaf node ↔ Below (leaf / 2) node := by
  constructor
  · rintro ⟨positive, step, same⟩
    cases step with
    | zero => simp only [pow_zero, Nat.div_one] at same; omega
    | succ step =>
      refine ⟨positive, step, ?_⟩
      rw [Nat.div_div_eq_div_mul, ← pow_succ']
      exact same
  · rintro ⟨positive, step, same⟩
    refine ⟨positive, step + 1, ?_⟩
    rw [pow_succ', ← Nat.div_div_eq_div_mul]
    exact same

theorem coverNodes_lt {fuel left right node : Nat} (member : node ∈ coverNodes fuel left right) :
    node ≤ right := by
  induction fuel generalizing left right with
  | zero => simp [coverNodes] at member
  | succ fuel ih =>
    simp only [coverNodes] at member
    split at member
    · rename_i ordered
      simp only [mem_append] at member
      rcases member with (here | here) | later
      · split at here <;> simp at here; omega
      · split at here <;> simp at here; omega
      · have bound := ih later
        split at bound <;> omega
    · simp at member

theorem coverNodes_below {fuel level left right leaf : Nat} (enough : right ≤ fuel)
    (leftLow : 2 ^ level ≤ left) (rightHigh : right < 2 ^ (level + 1))
    (leafLow : 2 ^ level ≤ leaf) (leafHigh : leaf < 2 ^ (level + 1)) :
    (∃ node ∈ coverNodes fuel left right, Below leaf node) ↔ left ≤ leaf ∧ leaf ≤ right := by
  induction level generalizing fuel left right leaf with
  | zero =>
    -- At the root the only leaf is node one.
    simp only [pow_zero, zero_add, pow_one] at leftLow rightHigh leafLow leafHigh
    have root : leaf = 1 := by omega
    subst root
    cases fuel with
    | zero => simp [coverNodes]; omega
    | succ fuel =>
      by_cases ordered : left ≤ right
      · have one : left = 1 ∧ right = 1 := by omega
        obtain ⟨rfl, rfl⟩ := one
        simp [coverNodes, below_self]
      · simp [coverNodes, ordered]; omega
  | succ level ih =>
    have power : 2 ^ (level + 1) = 2 * 2 ^ level := by ring
    have power' : 2 ^ (level + 1 + 1) = 2 * 2 ^ (level + 1) := by ring
    have positive : 0 < 2 ^ level := Nat.two_pow_pos level
    cases fuel with
    | zero => simp [coverNodes]; omega
    | succ fuel =>
      by_cases ordered : left ≤ right
      · set left' := if left % 2 = 1 then left + 1 else left with leftStep
        set right' := if right % 2 = 0 then right - 1 else right with rightStep
        have evenLeft : left' % 2 = 0 ∧ left ≤ left' ∧ left' ≤ left + 1 := by
          split_ifs at leftStep <;> omega
        have oddRight : right' % 2 = 1 ∧ right' ≤ right ∧ right ≤ right' + 1 := by
          split_ifs at rightStep <;> omega
        have deeper : (∃ node ∈ coverNodes fuel (left' / 2) (right' / 2), Below (leaf / 2) node) ↔
            left' / 2 ≤ leaf / 2 ∧ leaf / 2 ≤ right' / 2 := by
          apply ih <;> omega
        have same : (∃ node ∈ coverNodes fuel (left' / 2) (right' / 2), Below leaf node) ↔
            ∃ node ∈ coverNodes fuel (left' / 2) (right' / 2), Below (leaf / 2) node := by
          refine exists_congr fun node => and_congr_right fun member => below_half_iff ?_
          have bound := coverNodes_lt member
          omega
        have here : ∀ node, 2 ^ (level + 1) ≤ node → (Below leaf node ↔ leaf = node) := by
          intro node low
          exact ⟨below_same_level leafHigh low, fun same => same ▸ below_self (by omega)⟩
        have unfolded : coverNodes (fuel + 1) left right =
            ((if left % 2 = 1 then [left] else []) ++ (if right % 2 = 0 then [right] else [])) ++
              coverNodes fuel (left' / 2) (right' / 2) := by
          simp only [coverNodes, ordered, if_true]
          rfl
        have ends :
            (∃ node ∈ (if left % 2 = 1 then [left] else []) ++ (if right % 2 = 0 then
                [right] else []),
            Below leaf node) ↔ (left % 2 = 1 ∧ leaf = left) ∨ (right % 2 = 0 ∧ leaf = right) := by
          have atLeft := here left leftLow
          have atRight := here right (by omega)
          split_ifs <;> simp_all
        rw [unfolded]
        simp only [mem_append, or_and_right, exists_or] at ends ⊢
        rw [ends, same, deeper]
        split_ifs at leftStep rightStep <;> omega
      · simp [coverNodes, ordered]; omega

/-! ## What an index holds -/

structure Span where
  entry : Entry
  left : Nat
  right : Nat

def Span.nodes (span : Span) (size : Nat) : List Nat :=
  coverNodes (size + span.right) (size + span.left) (size + span.right)

def Span.Contains (span : Span) (position : Nat) : Prop := span.left ≤ position ∧ position ≤ span.right

/-- The queues hold the given ranges: those still active at all their nodes, and
nothing that was never stored. -/
structure Tracks (index : Index) (spans : List Span) : Prop where
  shape : ∃ level, index.size = 2 ^ level
  inside : ∀ span ∈ spans, span.right < index.size
  sorted : ∀ node, (index.nodes node).Pairwise fun a b => a.order ≤ b.order
  present : ∀ span ∈ spans, index.active span.entry.line = true →
    ∀ node ∈ span.nodes index.size, span.entry ∈ index.nodes node
  sound : ∀ node, ∀ entry ∈ index.nodes node,
    ∃ span ∈ spans, span.entry = entry ∧ node ∈ span.nodes index.size

theorem growSize_shape (fuel level count : Nat) :
    ∃ grown, growSize fuel (2 ^ level) count = 2 ^ grown := by
  induction fuel generalizing level with
  | zero => exact ⟨level, rfl⟩
  | succ fuel ih =>
    simp only [growSize]
    split
    · rw [← pow_succ']
      exact ih (level + 1)
    · exact ⟨level, rfl⟩

theorem growSize_ge {fuel size count : Nat} (enough : count ≤ size + fuel) (positive : 0 < size) :
    count ≤ growSize fuel size count := by
  induction fuel generalizing size with
  | zero => simpa [growSize] using enough
  | succ fuel ih =>
    simp only [growSize]
    split
    · exact ih (by omega) (by omega)
    · omega

theorem le_size_empty (count : Nat) : count ≤ (Index.empty count).size :=
  growSize_ge (by omega) (by omega)

theorem tracks_empty (count : Nat) : Tracks (Index.empty count) [] where
  shape := by simpa [Index.empty] using growSize_shape count 0 count
  inside := by simp
  sorted := by simp [Index.empty]
  present := by simp
  sound := by simp [Index.empty]

theorem mem_push {queue : Queue} {entry other : Entry} : other ∈ queue.push entry ↔
      other = entry ∨ other ∈ queue := by
  simp [Queue.push]

theorem sorted_push {queue : Queue} (sorted : queue.Pairwise fun a b => a.order ≤ b.order)
    (entry : Entry) : (queue.push entry).Pairwise fun a b => a.order ≤ b.order := by
  have total : Std.Total (fun a b : Entry => a.order ≤ b.order) := ⟨fun a b => le_total _ _⟩
  have trans : IsTrans Entry (fun a b => a.order ≤ b.order) := ⟨fun _ _ _ => le_trans⟩
  exact List.Pairwise.orderedInsert entry _ sorted

theorem foldl_pushAt (entry : Entry) (stored : List Nat) (nodes : Nat → Queue) (node : Nat) :
    (∀ other, other ∈ stored.foldl (pushAt entry) nodes node ↔ (node ∈ stored ∧ other = entry) ∨
      other ∈ nodes node) ∧
    ((nodes node).Pairwise (fun a b => a.order ≤ b.order) →
      (stored.foldl (pushAt entry) nodes node).Pairwise fun a b => a.order ≤ b.order) := by
  induction stored generalizing nodes with
  | nil => simp
  | cons first rest ih =>
    obtain ⟨members, sorted⟩ := ih (pushAt entry nodes first)
    by_cases same : node = first
    · subst same
      refine ⟨fun other => ?_, fun before => ?_⟩
      · rw [foldl_cons, members]
        simp [pushAt, mem_push]
        tauto
      · exact sorted (by simpa [pushAt] using sorted_push before entry)
    · refine ⟨fun other => ?_, fun before => ?_⟩
      · rw [foldl_cons, members]
        simp [pushAt, same]
      · exact sorted (by simpa [pushAt, same] using before)

theorem Tracks.add {index : Index} {spans : List Span} (tracks : Tracks index spans) (entry : Entry)
    {left right : Nat} (ordered : left ≤ right) (inside : right < index.size)
    (fresh : ∀ span ∈ spans, span.entry.line ≠ entry.line) :
    Tracks (index.add entry left right) (⟨entry, left, right⟩ :: spans) := by
  have pushed := fun node => foldl_pushAt entry
    (coverNodes (index.size + right) (index.size + left) (index.size + right)) index.nodes node
  simp only [Index.add, ordered, if_true]
  refine ⟨tracks.shape, ?_, fun node => (pushed node).2 (tracks.sorted node), ?_, ?_⟩
  · intro span member
    rcases mem_cons.mp member with rfl | member
    · exact inside
    · exact tracks.inside span member
  · intro span member active node stored
    refine ((pushed node).1 span.entry).mpr ?_
    rcases mem_cons.mp member with rfl | member
    · exact Or.inl ⟨stored, rfl⟩
    · simp only [Function.update_of_ne (fresh span member)] at active
      exact Or.inr (tracks.present span member active node stored)
  · intro node other member
    rcases ((pushed node).1 other).mp member with ⟨stored, rfl⟩ | member
    · exact ⟨_, mem_cons_self, rfl, stored⟩
    · obtain ⟨span, held, same, stored⟩ := tracks.sound node other member
      exact ⟨span, mem_cons_of_mem _ held, same, stored⟩

theorem Tracks.remove {index : Index} {spans : List Span} (tracks : Tracks index spans) (line : Nat) :
    Tracks (index.remove line) spans where
  shape := tracks.shape
  inside := tracks.inside
  sorted := tracks.sorted
  sound := tracks.sound
  present := by
    intro span member active
    by_cases same : span.entry.line = line
    · simp [Index.remove, same] at active
    · exact tracks.present span member (by simpa [Index.remove, same] using active)

/-! ## What a query returns -/

theorem mem_candidates_of_active {index : Index} {node : Nat} {entry : Entry}
    (member : entry ∈ index.nodes node) (active : index.active entry.line = true) :
    entry ∈ index.candidates node := by
  unfold Index.candidates
  revert member
  induction index.nodes node with
  | nil => simp
  | cons first rest ih =>
    intro member
    by_cases gone : index.active first.line = true
    · simpa [gone] using member
    · rcases mem_cons.mp member with rfl | member
      · exact absurd active gone
      · simpa [gone] using ih member

theorem candidates_sublist (index : Index) (node : Nat) :
    (index.candidates node).Sublist (index.nodes node) :=
  dropWhile_sublist _

theorem head_candidates_active {index : Index} {node : Nat} {top : Entry}
    (found : (index.candidates node).head? = some top) : index.active top.line = true := by
  have kept := head?_dropWhile_not (fun entry : Entry => !index.active entry.line) (index.nodes node)
  unfold Index.candidates at found
  rw [found] at kept
  simpa using kept

theorem Tracks.prune {index : Index} {spans : List Span} (tracks : Tracks index spans) (node : Nat) :
    Tracks { index with nodes := Function.update index.nodes node (index.candidates node) } spans where
  shape := tracks.shape
  inside := tracks.inside
  sorted := by
    intro other
    by_cases same : other = node
    · subst same
      simpa using (tracks.sorted other).sublist (candidates_sublist index other)
    · simpa [same] using tracks.sorted other
  present := by
    intro span member active other stored
    have held := tracks.present span member active other stored
    by_cases same : other = node
    · subst same
      simpa using mem_candidates_of_active held active
    · simpa [same] using held
  sound := by
    intro other entry member
    by_cases same : other = node
    · subst same
      simp only [Function.update_self] at member
      exact tracks.sound other entry ((candidates_sublist index other).subset member)
    · exact tracks.sound other entry (by simpa [same] using member)

theorem better_spec (best : Option Entry) (candidates : Queue)
    (sorted : candidates.Pairwise fun a b => a.order ≤ b.order) :
    (∀ entry, better best candidates = some entry → best = some entry ∨
      candidates.head? = some entry) ∧
    (∀ entry, best = some entry ∨ entry ∈ candidates →
      ∃ chosen, better best candidates = some chosen ∧ chosen.order ≤ entry.order) := by
  cases candidates with
  | nil => cases best <;> simp [better]
  | cons top rest =>
    have least : ∀ entry ∈ top :: rest, top.order ≤ entry.order := by
      intro entry member
      rcases mem_cons.mp member with rfl | member
      · exact le_refl _
      · exact rel_of_pairwise_cons sorted member
    cases best with
    | none =>
      refine ⟨by simp [better], ?_⟩
      rintro entry (held | member)
      · simp at held
      · exact ⟨top, rfl, least entry member⟩
    | some held =>
      by_cases less : top.order < held.order
      · refine ⟨by simp [better, less], ?_⟩
        rintro entry (same | member)
        · obtain rfl := Option.some.inj same
          exact ⟨top, by simp [better, less], by omega⟩
        · exact ⟨top, by simp [better, less], least entry member⟩
      · refine ⟨by simp [better, less], ?_⟩
        rintro entry (same | member)
        · obtain rfl := Option.some.inj same
          exact ⟨held, by simp [better, less], le_refl _⟩
        · have after := least entry member
          exact ⟨held, by simp [better, less], by omega⟩

theorem ownerFrom_spec {fuel node : Nat} (enough : node ≤ fuel) {index : Index} {spans : List Span}
    (tracks : Tracks index spans) (best : Option Entry) :
    Tracks (ownerFrom fuel node index best).1 spans ∧
    (ownerFrom fuel node index best).1.active = index.active ∧
    (ownerFrom fuel node index best).1.size = index.size ∧
    (∀ entry, (ownerFrom fuel node index best).2 = some entry → best = some entry ∨
      (index.active entry.line = true ∧ ∃ above, Below node above ∧ entry ∈ index.nodes above)) ∧
    (∀ entry, (best = some entry ∨
        (index.active entry.line = true ∧ ∃ above, Below node above ∧ entry ∈ index.nodes above)) →
      ∃ chosen, (ownerFrom fuel node index best).2 = some chosen ∧ chosen.order ≤ entry.order) := by
  -- The walk halves the node until it passes the root; `best` is the least entry met so far.
  induction fuel generalizing node index best with
  | zero =>
    have root : node = 0 := by omega
    subst root
    refine ⟨tracks, rfl, rfl, fun entry found => Or.inl found, ?_⟩
    rintro entry (held | ⟨_, above, ⟨positive, step, same⟩, _⟩)
    · exact ⟨entry, held, le_refl _⟩
    · simp only [Nat.zero_div] at same; omega
  | succ fuel ih =>
    by_cases root : node = 0
    · subst root
      simp only [ownerFrom, if_true]
      refine ⟨tracks, trivial, trivial, fun entry found => Or.inl found, ?_⟩
      rintro entry (held | ⟨_, above, ⟨positive, step, same⟩, _⟩)
      · exact ⟨entry, held, le_refl _⟩
      · simp only [Nat.zero_div] at same; omega
    · simp only [ownerFrom, root, if_false]
      have sorted := (tracks.sorted node).sublist (candidates_sublist index node)
      obtain ⟨from_, least⟩ := better_spec best (index.candidates node) sorted
      obtain ⟨kept, active, size, origin, minimal⟩ :=
        @ih (node / 2) (by omega) _ (tracks.prune node) (better best (index.candidates node))
      -- The nodes above a node are itself and those above its parent.
      have above_half : ∀ above, Below node above ↔ above = node ∨ Below (node / 2) above := by
        intro above
        constructor
        · intro below
          by_cases same : above = node
          · exact Or.inl same
          · obtain ⟨positive, step, at_⟩ := below
            have le : node / 2 ^ step ≤ node := Nat.div_le_self _ _
            exact Or.inr ((below_half_iff (by omega)).mp ⟨positive, step, at_⟩)
        · rintro (rfl | below)
          · exact below_self (by omega)
          · obtain ⟨positive, step, at_⟩ := below
            have le : node / 2 / 2 ^ step ≤ node / 2 := Nat.div_le_self _ _
            exact (below_half_iff (by omega)).mpr ⟨positive, step, at_⟩
      have smaller : ∀ above, Below (node / 2) above → above ≠ node := by
        rintro above ⟨positive, step, at_⟩
        have le : node / 2 / 2 ^ step ≤ node / 2 := Nat.div_le_self _ _
        omega
      refine ⟨kept, active, size, ?_, ?_⟩
      · intro entry found
        rcases origin entry found with chosen | ⟨alive, above, below, member⟩
        · rcases from_ entry chosen with held | top
          · exact Or.inl held
          · refine Or.inr ⟨head_candidates_active top, node, below_self (by omega), ?_⟩
            exact (candidates_sublist index node).subset (mem_of_mem_head? top)
        · refine Or.inr ⟨alive, above, (above_half above).mpr (Or.inr below), ?_⟩
          simpa [smaller above below] using member
      · rintro entry (held | ⟨alive, above, below, member⟩)
        · obtain ⟨chosen, found, le⟩ := least entry (Or.inl held)
          obtain ⟨final, result, le'⟩ := minimal chosen (Or.inl found)
          exact ⟨final, result, by omega⟩
        · rcases (above_half above).mp below with rfl | below
          · obtain ⟨chosen, found, le⟩ := least entry (Or.inr (mem_candidates_of_active member alive))
            obtain ⟨final, result, le'⟩ := minimal chosen (Or.inl found)
            exact ⟨final, result, by omega⟩
          · refine minimal entry (Or.inr ⟨alive, above, below, ?_⟩)
            simpa [smaller above below] using member

theorem Tracks.below_iff {index : Index} {spans : List Span}
    (tracks : Tracks index spans) {span : Span} (member : span ∈ spans) {position : Nat}
    (inside : position < index.size) :
    (∃ node ∈ span.nodes index.size, Below (index.size + position) node) ↔ span.Contains position := by
  obtain ⟨level, shape⟩ := tracks.shape
  have bound := tracks.inside span member
  have doubled : 2 ^ (level + 1) = 2 * 2 ^ level := by ring
  rw [Span.nodes, @coverNodes_below _ level _ _ _ (le_refl _) (by omega) (by omega)
    (by omega) (by omega)]
  unfold Span.Contains
  omega

/-- A query keeps the index and returns the least entry of the active ranges at its position. -/
theorem Tracks.owner {index : Index} {spans : List Span} (tracks : Tracks index spans) {position : Nat}
    (inside : position < index.size) :
    Tracks (index.owner position).1 spans ∧
    (index.owner position).1.active = index.active ∧
    (index.owner position).1.size = index.size ∧
    (∀ entry, (index.owner position).2 = some entry →
      index.active entry.line = true ∧ ∃ span ∈ spans, span.entry = entry ∧ span.Contains position) ∧
    (∀ span ∈ spans, index.active span.entry.line = true → span.Contains position →
      ∃ chosen, (index.owner position).2 = some chosen ∧ chosen.order ≤ span.entry.order) := by
  obtain ⟨kept, active, size, origin, minimal⟩ :=
    ownerFrom_spec (le_refl (index.size + position)) tracks none
  refine ⟨kept, active, size, ?_, ?_⟩
  · intro entry found
    rcases origin entry found with held | ⟨alive, above, below, member⟩
    · simp at held
    · obtain ⟨span, held, same, stored⟩ := tracks.sound above entry member
      exact ⟨alive, span, held, same, (tracks.below_iff held inside).mp ⟨above, stored, below⟩⟩
  · intro span member alive contains
    obtain ⟨node, stored, below⟩ := (tracks.below_iff member inside).mpr contains
    exact minimal span.entry (Or.inr ⟨alive, node, below,
      tracks.present span member alive node stored⟩)

end Scribe.Coverage
