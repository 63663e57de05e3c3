import Mathlib.Data.List.Basic
import Mathlib.Data.List.Nodup
import Mathlib.Data.List.Perm.Subperm
import Mathlib.Data.List.Range

/-! Alignment of a line's committed tokens with its edited tokens.

Equal ends are matched first; the rest goes through a longest-common-subsequence
table whose cells count against a budget shared by the whole page.
-/

set_option autoImplicit false

namespace Scribe.Server

open List

def maxWordReconciliationLCSCells : Nat := 1000000

structure TokenMatch where
  baseIndex : Nat
  tokenIndex : Nat
  deriving DecidableEq, Repr

def commonLead : List String → List String → Nat
  | a :: as, b :: bs => if a = b then commonLead as bs + 1 else 0
  | _, _ => 0

/-- One row of the table from the row below it. The last cell of a row is zero. -/
def lcsRow (token : String) : List String → List Nat → List Nat
  | [], _ => [0]
  | other :: rest, below =>
      let row := lcsRow token rest below.tail
      let cell :=
        if token = other then (below.tail.head?.getD 0) + 1
        else if (below.head?.getD 0) ≥ (row.head?.getD 0) then below.head?.getD 0 else row.head?.getD 0
      cell :: row

/-- The lengths of longest common subsequences of all suffixes. -/
def lcsTable : List String → List String → List (List Nat)
  | [], tokens => [List.replicate (tokens.length + 1) 0]
  | token :: rest, tokens =>
      let table := lcsTable rest tokens
      lcsRow token tokens (table.head?.getD []) :: table

def cellAt (table : List (List Nat)) (i j : Nat) : Nat := (table[i]?.getD [])[j]?.getD 0

def walkTable (table : List (List Nat)) (base tokens : List String) :
    (fuel i j : Nat) → List TokenMatch
  | 0, _, _ => []
  | fuel + 1, i, j =>
      match base[i]?, tokens[j]? with
      | some a, some b =>
          if a = b then ⟨i, j⟩ :: walkTable table base tokens fuel (i + 1) (j + 1)
          else if cellAt table (i + 1) j ≥ cellAt table i (j + 1) then
            walkTable table base tokens fuel (i + 1) j
          else walkTable table base tokens fuel i (j + 1)
      | _, _ => []

/-- Matches in increasing position, and what is left of the budget. -/
def longestCommonTokenMatches (base tokens : List String) (cellsRemaining : Nat) :
    Except String (List TokenMatch × Nat) :=
  let lead := commonLead base tokens
  let trail := commonLead (base.drop lead).reverse (tokens.drop lead).reverse
  let middleBase := (base.drop lead).take (base.length - lead - trail)
  let middleTokens := (tokens.drop lead).take (tokens.length - lead - trail)
  let cells := middleBase.length * middleTokens.length
  if middleBase ≠ [] ∧ middleTokens.length > maxWordReconciliationLCSCells / middleBase.length then
    .error ("token reconciliation exceeds " ++ Nat.repr maxWordReconciliationLCSCells ++
      " comparison cells")
  else if cells > cellsRemaining then
    .error ("page token reconciliation exceeds " ++ Nat.repr maxWordReconciliationLCSCells ++
      " comparison cells")
  else
    let middle := walkTable (lcsTable middleBase middleTokens) middleBase middleTokens
      (middleBase.length + middleTokens.length) 0 0
    .ok ((List.range lead).map (fun index => ⟨index, index⟩) ++
        middle.map (fun match_ => ⟨lead + match_.baseIndex, lead + match_.tokenIndex⟩) ++
        (List.range trail).map (fun offset =>
          ⟨base.length - trail + offset, tokens.length - trail + offset⟩),
      cellsRemaining - cells)

/-! ## What a match says -/

theorem commonLead_self (tokens : List String) : commonLead tokens tokens = tokens.length := by
  induction tokens with
  | nil => rfl
  | cons token rest ih => simp [commonLead, ih]

theorem commonLead_le (left right : List String) :
    commonLead left right ≤ left.length ∧ commonLead left right ≤ right.length := by
  fun_induction commonLead left right with
  | case1 as b bs ih =>
    simp only [length_cons]
    omega
  | case2 => exact ⟨Nat.zero_le _, Nat.zero_le _⟩
  | case3 => exact ⟨Nat.zero_le _, Nat.zero_le _⟩

theorem getElem?_commonLead (left right : List String) {i : Nat} (inside : i < commonLead left right) :
    ∃ token, left[i]? = some token ∧ right[i]? = some token := by
  induction left generalizing right i with
  | nil => simp [commonLead] at inside
  | cons a as ih =>
    cases right with
    | nil => simp [commonLead] at inside
    | cons b bs =>
      simp only [commonLead] at inside
      split at inside
      · rename_i same
        subst same
        cases i with
        | zero => exact ⟨a, rfl, rfl⟩
        | succ i => simpa using ih bs (Nat.lt_of_succ_lt_succ inside)
      · exact absurd inside (Nat.not_lt_zero i)

def TokenMatch.Valid (base tokens : List String) (found : TokenMatch) : Prop :=
  ∃ token, base[found.baseIndex]? = some token ∧ tokens[found.tokenIndex]? = some token

def TokenMatch.Before (a b : TokenMatch) : Prop :=
  a.baseIndex < b.baseIndex ∧ a.tokenIndex < b.tokenIndex

theorem walkTable_valid (table : List (List Nat)) (base tokens : List String) (fuel i j : Nat) :
    (walkTable table base tokens fuel i j).Pairwise TokenMatch.Before ∧
      ∀ found ∈ walkTable table base tokens fuel i j,
        found.Valid base tokens ∧ i ≤ found.baseIndex ∧ j ≤ found.tokenIndex := by
  induction fuel generalizing i j with
  | zero => simp [walkTable]
  | succ fuel ih =>
    rw [walkTable]
    split
    · rename_i a b atI atJ
      split
      · rename_i same
        subst same
        obtain ⟨increasing, valid⟩ := ih (i + 1) (j + 1)
        refine ⟨pairwise_cons.mpr ⟨fun found member => ?_, increasing⟩, fun found member => ?_⟩
        · obtain ⟨_, low, left⟩ := valid found member
          exact ⟨low, left⟩
        · rcases mem_cons.mp member with rfl | member
          · exact ⟨⟨a, atI, atJ⟩, le_refl _, le_refl _⟩
          · obtain ⟨isValid, low, left⟩ := valid found member
            exact ⟨isValid, by omega, by omega⟩
      · split
        · obtain ⟨increasing, valid⟩ := ih (i + 1) j
          refine ⟨increasing, fun found member => ?_⟩
          obtain ⟨isValid, low, left⟩ := valid found member
          exact ⟨isValid, by omega, left⟩
        · obtain ⟨increasing, valid⟩ := ih i (j + 1)
          refine ⟨increasing, fun found member => ?_⟩
          obtain ⟨isValid, low, left⟩ := valid found member
          exact ⟨isValid, low, by omega⟩
    · simp

theorem getElem?_take_drop {α : Type} (values : List α) (start count i : Nat) {value : α}
    (found : ((values.drop start).take count)[i]? = some value) :
    values[start + i]? = some value ∧ i < count := by
  rw [getElem?_take] at found
  split at found
  · rename_i inside
    rw [getElem?_drop] at found
    exact ⟨found, inside⟩
  · cases found

theorem getElem?_trail (left right : List String) {offset : Nat}
    (inside : offset < commonLead left.reverse right.reverse) :
    ∃ token, left[left.length - commonLead left.reverse right.reverse + offset]? = some token ∧
      right[right.length - commonLead left.reverse right.reverse + offset]? = some token := by
  obtain ⟨lowLeft, lowRight⟩ := commonLead_le left.reverse right.reverse
  rw [length_reverse] at lowLeft lowRight
  generalize isTrail : commonLead left.reverse right.reverse = trail at inside lowLeft lowRight
  obtain ⟨token, atLeft, atRight⟩ :=
    @getElem?_commonLead left.reverse right.reverse (trail - 1 - offset)
    (by rw [isTrail]; omega)
  rw [getElem?_reverse (by omega)] at atLeft atRight
  have placeLeft : left.length - 1 - (trail - 1 - offset) = left.length - trail + offset := by omega
  have placeRight : right.length - 1 - (trail - 1 - offset) = right.length - trail + offset := by omega
  rw [placeLeft] at atLeft
  rw [placeRight] at atRight
  exact ⟨token, atLeft, atRight⟩

/-- Matches pair equal tokens, in increasing position on both sides. -/
theorem longestCommonTokenMatches_valid {base tokens : List String} {cells rest : Nat}
    {found : List TokenMatch}
    (done : longestCommonTokenMatches base tokens cells = .ok (found, rest)) :
    found.Pairwise TokenMatch.Before ∧ ∀ pair ∈ found, pair.Valid base tokens := by
  obtain ⟨leadBase, leadTokens⟩ := commonLead_le base tokens
  obtain ⟨trailBase, trailTokens⟩ := commonLead_le (base.drop (commonLead base tokens)).reverse
    (tokens.drop (commonLead base tokens)).reverse
  have leadValid := fun i => @getElem?_commonLead base tokens i
  have trailValid := fun offset => @getElem?_trail (base.drop (commonLead base tokens))
    (tokens.drop (commonLead base tokens)) offset
  unfold longestCommonTokenMatches at done
  simp only at done
  generalize commonLead base tokens = lead at done leadBase leadTokens trailBase trailTokens leadValid trailValid
  generalize commonLead (base.drop lead).reverse (tokens.drop lead).reverse =
    trail at done trailBase trailTokens trailValid
  simp only [length_reverse, length_drop] at trailBase trailTokens trailValid
  split at done
  · cases done
  · split at done
    · cases done
    · obtain ⟨rfl, _⟩ := Prod.mk.inj (Except.ok.inj done)
      obtain ⟨walked, inMiddle⟩ := walkTable_valid
        (lcsTable ((base.drop lead).take (base.length - lead - trail))
          ((tokens.drop lead).take (tokens.length - lead - trail)))
        ((base.drop lead).take (base.length - lead - trail))
          ((tokens.drop lead).take (tokens.length - lead - trail))
        (((base.drop lead).take (base.length - lead - trail)).length +
          ((tokens.drop lead).take (tokens.length - lead - trail)).length) 0 0
      -- The walked matches lie between the common lead and the common trail.
      have middle : ∀ pair ∈ walkTable (lcsTable ((base.drop lead).take (base.length - lead - trail))
            ((tokens.drop lead).take (tokens.length - lead - trail)))
          ((base.drop lead).take (base.length - lead - trail))
            ((tokens.drop lead).take (tokens.length - lead - trail))
          (((base.drop lead).take (base.length - lead - trail)).length +
            ((tokens.drop lead).take (tokens.length - lead - trail)).length) 0 0,
          (∃ token, base[lead + pair.baseIndex]? = some token ∧
            tokens[lead + pair.tokenIndex]? = some token) ∧
          pair.baseIndex < base.length - lead - trail ∧
          pair.tokenIndex < tokens.length - lead - trail := by
        intro pair member
        obtain ⟨⟨token, atBase, atTokens⟩, _⟩ := inMiddle pair member
        obtain ⟨atBase, lowBase⟩ := getElem?_take_drop base _ _ _ atBase
        obtain ⟨atTokens, lowTokens⟩ := getElem?_take_drop tokens _ _ _ atTokens
        exact ⟨⟨token, atBase, atTokens⟩, lowBase, lowTokens⟩
      -- Lead, middle and trail are each increasing, and each lies before the next.
      refine ⟨pairwise_append.mpr ⟨pairwise_append.mpr ⟨?_, ?_, ?_⟩, ?_, ?_⟩, ?_⟩
      · rw [pairwise_map]
        exact pairwise_lt_range.imp fun less => ⟨less, less⟩
      · rw [pairwise_map]
        exact walked.imp fun before =>
          ⟨Nat.add_lt_add_left before.1 lead, Nat.add_lt_add_left before.2 lead⟩
      · intro a memberA b memberB
        obtain ⟨i, inside, rfl⟩ := mem_map.mp memberA
        obtain ⟨pair, member, rfl⟩ := mem_map.mp memberB
        have low := mem_range.mp inside
        exact ⟨Nat.lt_add_right _ low, Nat.lt_add_right _ low⟩
      · rw [pairwise_map]
        exact pairwise_lt_range.imp fun less =>
          ⟨Nat.add_lt_add_left less _, Nat.add_lt_add_left less _⟩
      · intro a memberA b memberB
        obtain ⟨offset, _, rfl⟩ := mem_map.mp memberB
        rcases mem_append.mp memberA with early | inside
        · obtain ⟨i, inside, rfl⟩ := mem_map.mp early
          have low := mem_range.mp inside
          constructor <;> simp only <;> omega
        · obtain ⟨pair, member, rfl⟩ := mem_map.mp inside
          obtain ⟨_, lowBase, lowTokens⟩ := middle pair member
          constructor <;> simp only <;> omega
      · intro pair member
        rcases mem_append.mp member with member | late
        · rcases mem_append.mp member with early | inside
          · obtain ⟨i, inside, rfl⟩ := mem_map.mp early
            exact leadValid i (mem_range.mp inside)
          · obtain ⟨walkedPair, walkedMember, rfl⟩ := mem_map.mp inside
            exact (middle walkedPair walkedMember).1
        · obtain ⟨offset, inside, rfl⟩ := mem_map.mp late
          obtain ⟨token, atBase, atTokens⟩ := trailValid offset (mem_range.mp inside)
          rw [getElem?_drop] at atBase atTokens
          have placeBase : lead + (base.length - lead - trail + offset) =
            base.length - trail + offset := by omega
          have placeTokens : lead + (tokens.length - lead - trail + offset) =
            tokens.length - trail + offset := by omega
          rw [placeBase] at atBase
          rw [placeTokens] at atTokens
          exact ⟨token, atBase, atTokens⟩

theorem longestCommonTokenMatches_self (tokens : List String) (cells : Nat) :
    longestCommonTokenMatches tokens tokens cells =
      .ok ((List.range tokens.length).map fun index => ⟨index, index⟩, cells) := by
  unfold longestCommonTokenMatches
  simp [commonLead_self, walkTable]

theorem eq_range'_of_increasing {values : List Nat} (start count : Nat)
    (increasing : values.Pairwise (· < ·)) (bounds : ∀ value ∈ values, start ≤ value ∧
      value < start + count) (full : count ≤ values.length) :
    values = List.range' start count := by
  induction values generalizing start count with
  | nil =>
    have none : count = 0 := by simpa using full
    simp [none]
  | cons first rest ih =>
    obtain ⟨after, increasing⟩ := pairwise_cons.mp increasing
    obtain ⟨low, high⟩ := bounds first mem_cons_self
    cases count with
    | zero => omega
    | succ count =>
      have rest_eq := ih (first + 1) (start + count - first) increasing (fun value member => by
        have above := after value member
        have bound := bounds value (mem_cons_of_mem _ member)
        omega) (by
        simp only [length_cons] at full
        omega)
      have length := congrArg List.length rest_eq
      simp only [length_range', length_cons] at length full
      have isFirst : first = start := by omega
      subst isFirst
      rw [range'_succ, rest_eq]
      congr 2
      omega

theorem eq_of_all_matched {base tokens : List String} {cells rest : Nat} {found : List TokenMatch}
    (done : longestCommonTokenMatches base tokens cells = .ok (found, rest))
    (same : base.length = tokens.length)
    (all : ∀ i < tokens.length, ∃ pair ∈ found, pair.tokenIndex = i) : base = tokens := by
  obtain ⟨increasing, valid⟩ := longestCommonTokenMatches_valid done
  have bounds : ∀ pair ∈ found, pair.baseIndex < tokens.length ∧ pair.tokenIndex < tokens.length := by
    intro pair member
    obtain ⟨token, atBase, atTokens⟩ := valid pair member
    exact ⟨same ▸ (List.getElem?_eq_some_iff.mp atBase).1, (List.getElem?_eq_some_iff.mp atTokens).1⟩
  -- There are as many matches as tokens, and both of their index lists increase.
  have count : tokens.length ≤ found.length := by
    have inside : List.range tokens.length ⊆ found.map TokenMatch.tokenIndex := by
      intro i member
      obtain ⟨pair, inFound, isIndex⟩ := all i (mem_range.mp member)
      exact mem_map.mpr ⟨pair, inFound, isIndex⟩
    simpa using (List.Nodup.subperm nodup_range inside).length_le
  have onBase := eq_range'_of_increasing 0 tokens.length
    (pairwise_map.mpr (increasing.imp fun before => before.1)) (by
      intro value member
      obtain ⟨pair, inFound, rfl⟩ := mem_map.mp member
      have bound := (bounds pair inFound).1
      omega) (by simpa using count)
  have onTokens := eq_range'_of_increasing 0 tokens.length
    (pairwise_map.mpr (increasing.imp fun before => before.2)) (by
      intro value member
      obtain ⟨pair, inFound, rfl⟩ := mem_map.mp member
      have bound := (bounds pair inFound).2
      omega) (by simpa using count)
  apply ext_getElem? fun i => ?_
  by_cases inside : i < tokens.length
  · obtain ⟨pair, member, isIndex⟩ := all i inside
    have atPair : pair.baseIndex = i := by
      obtain ⟨place, bound, atPlace⟩ := getElem_of_mem member
      have left : (found.map TokenMatch.baseIndex)[place]? = some pair.baseIndex := by
        simp [bound, atPlace]
      have right : (found.map TokenMatch.tokenIndex)[place]? = some pair.tokenIndex := by
        simp [bound, atPlace]
      rw [onBase, ← onTokens, right, isIndex] at left
      exact (Option.some.inj left).symm
    obtain ⟨token, atBase, atTokens⟩ := valid pair member
    rw [atPair] at atBase
    rw [isIndex] at atTokens
    rw [atBase, atTokens]
  · rw [getElem?_eq_none (by omega), getElem?_eq_none (by omega)]

end Scribe.Server
