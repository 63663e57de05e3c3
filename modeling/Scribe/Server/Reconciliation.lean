import Scribe.Server.Ownership
import Scribe.Server.Tokens

/-! The save-time reconciliation of the line and word views of a page.

Ownership is read once from the committed page and carried by word identifier
through the proposed page; geometry decides only for words that are new and for
complete structural replacements of removed lines. Each kept line is then
reconciled on its own.

The proposed items are updated in place by the source. Here they are a list that
the loop passes on; a located annotation is read again through its position
whenever an iteration uses it. The source iterates over maps of line identifiers;
every such loop visits its identifiers in an order that is a parameter.
-/

set_option autoImplicit false

namespace Scribe.Server

open Iiif

def maxAnnotationPageBytes : Nat := 8 * 2 ^ 20

def maxAnnotationsPerPage : Nat := 10000

/-- The loops over maps whose effects could depend on the visiting order. -/
inductive MapLoop where
  | committedOwners
  | newLines
  | removedLines
  | structuralOwners
  | existingLines
  deriving DecidableEq

/-- A choice of visiting order for every loop over a map. -/
structure IterationOrder where
  visit : MapLoop → List String → List String
  perm : ∀ loop ids, (visit loop ids).Perm ids

/-! ## Located annotations -/

def annotationAt (items : List Json) (index : Nat) : Object := (items[index]?.getD .null).toObject

def Located.refresh (items : List Json) (located : Located) : Located :=
  { located with anno := annotationAt items located.index }

def Located.missing : Located := ⟨[], 0, ⟨0, 0, 0, 0⟩⟩

def lookup (located : List (String × Located)) (id : String) : Located :=
  (Assoc.get located id).getD Located.missing

/-- One item of `reconciliationAnnotations`: nothing for another granularity. -/
def reconciliationEntryOf (granularity : String) (item : Json × Nat) :
    Except String (Option (String × Located)) :=
  match item.1 with
  | .obj anno =>
      if !isGranularity anno granularity then .ok none
      else
        let id := Go.trimSpace (annStringValue anno "id")
        if id = "" then
          .error (granularity ++ " annotation at position " ++ Nat.repr item.2 ++ " has no id")
        else match annotationBox anno with
          | .ok box => .ok (some (id, ⟨anno, item.2, box⟩))
          | .error message =>
              .error (granularity ++ " annotation " ++ Go.quote id ++
                " has invalid geometry: " ++ message)
  | _ => .ok none

def reconciliationAnnotations (items : List Json) (granularity : String) :
    Except String (List (String × Located)) := do
  let entries ← items.zipIdx.mapM (reconciliationEntryOf granularity)
  return Assoc.ofEntries (entries.filterMap id)

def proposedOwnedWords (base : List Located) (proposed : List (String × Located)) : List Located :=
  base.filterMap fun word => Assoc.get proposed word.id

def sortReconciliationWords (words : List Located) : List Located := words.insertionSort withinLine

def lineAndWordsSynchronized (line : Located) (words : List Located) : Bool :=
  Go.fields line.text = words.map fun word => Go.trimSpace word.text

def normalizedAnnotationTexts (values : List Located) : String :=
  Go.join ((values.map fun value => Go.trimSpace value.text).filter (· ≠ ""))

def wordIdentityTextSequence (words : List Located) : String :=
  String.join (words.map fun word => word.id ++ nul ++ word.text ++ nul)

def sameBox (left right : Located) : Bool := left.box = right.box

def byID (words : List Located) : List (String × Located) :=
  Assoc.ofEntries (words.map fun word => (word.id, word))

def sameWordsIncludingGeometry (base proposed : List Located) : Bool :=
  base.length = proposed.length && proposed.all fun word =>
    match Assoc.get (byID base) word.id with
    | some committed => committed.text = word.text && sameBox committed word
    | none => false

def sameWordIDMembership (base proposed : List Located) : Bool :=
  base.length = proposed.length && proposed.all fun word => word.id ∈ base.map (·.id)

def annotationUnion : List Located → Box
  | [] => ⟨0, 0, 0, 0⟩
  | first :: rest => rest.foldl (fun box value =>
      ⟨min box.x1 value.box.x1, min box.y1 value.box.y1, max box.x2 value.box.x2,
        max box.y2 value.box.y2⟩) first.box

def unionMatchesLine (words : List Located) (line : Located) : Bool :=
  words ≠ [] && annotationUnion words = line.box

/-! ## Token edits -/

def dividedWordBox (line : Box) (index count : Nat) : Box :=
  if count = 0 then line
  else
    let width := line.x2 - line.x1
    ⟨line.x1 + width * index / count, line.y1, line.x1 + width * (index + 1) / count, line.y2⟩

def wordEditSeed (lineID : String) (expectedRevision tokenIndex : Nat) (token : String)
    (nonce : Nat) : String :=
  String.intercalate nul
    [lineID, "word-edit", Nat.repr expectedRevision, Nat.repr tokenIndex, token, Nat.repr nonce]

/-- The first unused identifier from a nonce on. -/
def availableFrom (ext : Externals) (pageID lineID : String) (expectedRevision tokenIndex : Nat)
    (token : String) (used : List String) : (fuel nonce : Nat) → Except String String
  | 0, _ => .error "could not allocate a unique canonical word id"
  | fuel + 1, nonce => do
      let id ← annotationID ext pageID (wordEditSeed lineID expectedRevision tokenIndex token nonce)
      if id ∈ used then
        availableFrom ext pageID lineID expectedRevision tokenIndex token used fuel (nonce + 1)
      else return id

def availableReconciledWordID (ext : Externals) (pageID lineID : String)
    (expectedRevision tokenIndex : Nat) (token : String) (used : List String) : Except String String :=
  availableFrom ext pageID lineID expectedRevision tokenIndex token used (maxAnnotationsPerPage + 1) 0

structure TokenEdit where
  ext : Externals
  pageID : String
  canvasURI : String
  expectedRevision : Nat
  line : Located
  baseWords : List Located
  proposedWords : List (String × Located)
  count : Nat

/-- Words made so far, the base words not retained, and the identifiers in use. -/
structure TokenProgress where
  generated : List Object
  removed : List String
  usedIDs : List String

def reconcileToken (edit : TokenEdit) (matches_ : List TokenMatch) (progress : TokenProgress)
    (entry : String × Nat) : Except String TokenProgress := do
  let (token, tokenIndex) := entry
  let box := dividedWordBox edit.line.box tokenIndex edit.count
  match (matches_.reverse.find? (·.tokenIndex = tokenIndex)).bind fun found =>
    edit.baseWords[found.baseIndex]? with
  | some baseWord =>
      let template := match Assoc.get edit.proposedWords baseWord.id with
        | some proposed => proposed.anno
        | none => baseWord.anno
      let word ← updatedRetainedWord edit.ext template baseWord.id edit.canvasURI box token
      return { progress with
        generated := progress.generated ++ [word]
        removed := progress.removed.filter (· ≠ baseWord.id) }
  | none =>
      let wordID ← availableReconciledWordID edit.ext edit.pageID edit.line.id
        edit.expectedRevision tokenIndex
        token progress.usedIDs
      let word ← deriveTextAnnotation edit.ext edit.line.anno wordID "word" edit.canvasURI box token
      return { progress with
        generated := progress.generated ++ [word]
        usedIDs := progress.usedIDs ++ [wordID] }

/-- The words of an edited line. Returns what is left of the comparison budget. -/
def reconcileLineTokens (edit : TokenEdit) (tokens : List String) (usedIDs : List String)
    (lcsCellsRemaining : Nat) : Except String (TokenProgress × Nat) := do
  if tokens ≠ [] ∧ edit.line.box.x2 - edit.line.box.x1 < tokens.length then
    throw ("line geometry is too narrow for " ++ Nat.repr tokens.length ++ " distinct word boxes")
  let baseTokens := edit.baseWords.map fun word => Go.trimSpace word.text
  let (matches_, lcsCellsRemaining) ← longestCommonTokenMatches baseTokens tokens lcsCellsRemaining
  let progress ← tokens.zipIdx.foldlM (reconcileToken edit matches_)
    { generated := [], removed := edit.baseWords.map (·.id), usedIDs }
  return (progress, lcsCellsRemaining)

def addTokenCosts (maxTemplateBytes : Nat) : (estimated : Nat) → List String → Except String Nat
  | estimated, [] => .ok estimated
  | estimated, token :: rest =>
      let cost := maxTemplateBytes + 6 * token.utf8ByteSize + 256
      if cost > maxAnnotationPageBytes - estimated then
        .error ("token edit would exceed " ++ Nat.repr maxAnnotationPageBytes ++ " encoded bytes")
      else addTokenCosts maxTemplateBytes (estimated + cost) rest

def encodedSize (located : Located) : Nat := (Json.obj located.anno).encodedBytes

def estimateReconciledTokenBytes (current : Nat) (line : Located) (replaced : List Located)
    (tokens : List String) : Except String Nat :=
  let replacedBytes := (replaced.map fun word => encodedSize word + 1).sum
  let maxTemplateBytes := ((line :: replaced).map encodedSize).foldl max 0
  addTokenCosts maxTemplateBytes (current - replacedBytes) tokens

/-! ## Moved lines -/

def scaleCoordinate (value oldOrigin oldExtent newOrigin newExtent : Int) : Int :=
  let numerator := (value - oldOrigin) * newExtent
  let rounded := if numerator ≥ 0 then numerator + oldExtent.tdiv 2 else numerator - oldExtent.tdiv 2
  newOrigin + rounded.tdiv oldExtent

/-- The scaled interval, kept inside the new one and at least one wide. -/
def scaleInterval (low high oldLow oldHigh newLow newHigh : Nat) : Nat × Nat :=
  let scale (value : Nat) :=
    scaleCoordinate value oldLow ((oldHigh : Int) - oldLow) newLow ((newHigh : Int) - newLow)
  let start := max (newLow : Int) (min (scale low) ((newHigh : Int) - 1))
  let stop := max (start + 1) (min (scale high) newHigh)
  (start.toNat, stop.toNat)

def proportionalWordBox (baseLine proposedLine baseWord : Box) : Except String Box :=
  if baseLine.x2 ≤ baseLine.x1 ∨ baseLine.y2 ≤ baseLine.y1 ∨
      proposedLine.x2 ≤ proposedLine.x1 ∨ proposedLine.y2 ≤ proposedLine.y1 then
    .error "line geometry must have positive extent"
  else
    let (x1, x2) :=
      scaleInterval baseWord.x1 baseWord.x2 baseLine.x1 baseLine.x2 proposedLine.x1 proposedLine.x2
    let (y1, y2) :=
      scaleInterval baseWord.y1 baseWord.y2 baseLine.y1 baseLine.y2 proposedLine.y1 proposedLine.y2
    .ok ⟨x1, y1, x2, y2⟩

/-! ## Ownership carried from the committed page -/

structure PageIndex where
  baseLines : List (String × Located)
  baseWords : List (String × Located)
  proposedLines : List (String × Located)
  proposedWords : List (String × Located)

def withContext {α : Type} (context : String) : Except String α → Except String α
  | .ok value => .ok value
  | .error message => .error (context ++ message)

def indexPages (baseItems proposedItems : List Json) : Except String PageIndex := do
  let baseLines ← withContext "index committed lines: " (reconciliationAnnotations baseItems "line")
  let baseWords ← withContext "index committed words: " (reconciliationAnnotations baseItems "word")
  let proposedLines ← withContext "index proposed lines: "
    (reconciliationAnnotations proposedItems "line")
  let proposedWords ← withContext "index proposed words: "
    (reconciliationAnnotations proposedItems "word")
  return { baseLines, baseWords, proposedLines, proposedWords }

def PageIndex.existingLineIDs (index : PageIndex) : List String :=
  (Assoc.keys index.proposedLines).filter (· ∈ Assoc.keys index.baseLines)

def PageIndex.newLineIDs (index : PageIndex) : List String :=
  (Assoc.keys index.proposedLines).filter (· ∉ Assoc.keys index.baseLines)

def PageIndex.removedLineIDs (index : PageIndex) : List String :=
  (Assoc.keys index.baseLines).filter (· ∉ Assoc.keys index.proposedLines)

/-- The last visited line that owns a word. -/
def baseWordOwner (order : IterationOrder) (assigned : List (String × List PositionedWord))
    (wordID : String) : Option String :=
  ((order.visit .committedOwners (Assoc.keys assigned)).reverse).find? fun lineID =>
    wordID ∈ (wordsOfLine assigned lineID).map (·.id)

structure NewLineClaims where
  synchronized : String → Bool
  /-- The last visited new line that covers a word. -/
  lineForWord : String → Option String
  /-- Words that did not exist before and lie in a synchronized new line. -/
  claimed : List String

def newLineClaims (order : IterationOrder) (index : PageIndex)
    (assigned : List (String × List PositionedWord)) : Except String NewLineClaims := do
  let visited := order.visit .newLines index.newLineIDs
  let words lineID := wordsOfLine assigned lineID
  let synchronized lineID :=
    lineAndWordsSynchronized (lookup index.proposedLines lineID) (words lineID)
  let fresh lineID := ((words lineID).map (·.id)).filter (· ∉ Assoc.keys index.baseWords)
  match visited.find? fun lineID => fresh lineID ≠ [] ∧ !synchronized lineID with
  | some lineID =>
      throw ("new line " ++ Go.quote lineID ++ " and its word annotations must be synchronized")
  | none =>
      return {
        synchronized
        lineForWord := fun wordID => visited.reverse.find? fun lineID =>
          wordID ∈ (words lineID).map (·.id)
        claimed := (visited.filter fun lineID => synchronized lineID).flatMap fresh }

/-- The committed words of removed lines that a save takes off the page. A removed
line keeps its words only if new synchronized lines take over all of them, and take
over no word of a line that stays. -/
def removedLineWords (order : IterationOrder) (index : PageIndex)
    (baseWordsByLine : String → List Located) (owner : String → Option String)
    (newAssigned : List (String × List PositionedWord)) (claims : NewLineClaims) :
    Except String (List String) := do
  let basicReplacement lineID : Bool :=
    baseWordsByLine lineID ≠ [] && (baseWordsByLine lineID).all fun word =>
      word.id ∈ Assoc.keys index.proposedWords &&
        match claims.lineForWord word.id with
        | some newOwner => claims.synchronized newOwner
        | none => false
  let allowedReplacementLine lineID : Bool :=
    lineID ∈ index.newLineIDs && claims.synchronized lineID &&
    (wordsOfLine newAssigned lineID).all fun word =>
      match owner word.id with
      | some owner => owner ∈ index.removedLineIDs && basicReplacement owner
      | none => true
  let protectedRemovedLine lineID : Bool :=
    basicReplacement lineID && (baseWordsByLine lineID).all fun word =>
      match claims.lineForWord word.id with
      | some newOwner => allowedReplacementLine newOwner
      | none => false
  let cascading := (order.visit .removedLines index.removedLineIDs).filter fun lineID =>
    !protectedRemovedLine lineID
  match cascading.find? fun lineID =>
      (baseWordsByLine lineID).any fun word => (claims.lineForWord word.id).isSome with
  | some lineID =>
      throw ("removed line " ++ Go.quote lineID ++
        " has an incomplete or conflicting structural word replacement")
  | none => return cascading.flatMap fun lineID => (baseWordsByLine lineID).map (·.id)

def isUnclaimedNewWord (index : PageIndex) (claims : NewLineClaims) (wordID : String) : Bool :=
  wordID ∉ Assoc.keys index.baseWords && wordID ∉ claims.claimed

/-- New words whose identifiers derive from an existing line and their ordinal. -/
def structuralWords (ext : Externals) (pageID : String) (index : PageIndex) (claims : NewLineClaims)
    (lineID : String) : Except String (List (String × Located)) := do
  let count := (Go.fields (lookup index.proposedLines lineID).text).length
  let found ← (List.range count).mapM fun wordIndex =>
    match structuralWordID ext pageID lineID wordIndex with
    | .ok wordID =>
        match Assoc.get index.proposedWords wordID with
        | some word =>
            if isUnclaimedNewWord index claims wordID then pure (some (wordID, word)) else pure none
        | none => pure none
    | .error message =>
        throw ("derive structural word ownership for line " ++ Go.quote lineID ++ ": " ++ message)
  return found.filterMap id

/-- New words by the existing line they join: first by identifier, then by place. -/
def newWordsByExistingLine (ext : Externals) (order : IterationOrder) (pageID : String)
    (index : PageIndex) (claims : NewLineClaims) (proposedItems : List Json) :
    Except String (String → List Located) := do
  let visited := order.visit .structuralOwners index.existingLineIDs
  let structural ← visited.mapM fun lineID => do
    let words ← structuralWords ext pageID index claims lineID
    return (lineID, words)
  let deterministicNewWordIDs := structural.flatMap fun entry => entry.2.map (·.1)
  let assigned := assignSpatialWordsToLines proposedItems (some index.existingLineIDs)
  return fun lineID =>
    ((Assoc.get structural lineID).getD []).map (·.2) ++
      (wordsOfLine assigned lineID).filter fun word =>
        isUnclaimedNewWord index claims word.id && word.id ∉ deterministicNewWordIDs

/-! ## One existing line -/

/-- What the loop over the existing lines reads and never changes. -/
structure ReconcileInput where
  ext : Externals
  identity : PageIdentity
  pageID : String
  expectedRevision : Nat
  index : PageIndex
  proposedCount : Nat
  baseWordsByLine : String → List Located
  newWords : String → List Located

structure ReconcileState where
  items : List Json
  usedIDs : List String
  lcsCellsRemaining : Nat
  estimatedPageBytes : Nat
  removeWordIDs : List String
  generatedByLine : List (String × List Object)

inductive LineDecision where
  | conflict
  | explicitWords
  | tokenEdit
  | rewriteText
  | keep
  | rescale
  deriving DecidableEq, Repr

def decideLine (baseLine proposedLine : Located) (baseWords proposedWords : List Located) :
    LineDecision :=
  if baseLine.text ≠ proposedLine.text ∧ baseWords ≠ [] then
    if sameWordIDMembership baseWords proposedWords then .tokenEdit
    else if lineAndWordsSynchronized proposedLine proposedWords then .explicitWords
    else .conflict
  else if wordIdentityTextSequence baseWords ≠ wordIdentityTextSequence proposedWords then .rewriteText
  else if sameBox baseLine proposedLine ∨ baseWords = [] then .keep
  else if !sameWordsIncludingGeometry baseWords proposedWords then .keep
  else if unionMatchesLine proposedWords proposedLine then .keep
  else .rescale

def writeAt (items : List Json) (located : Located) (anno : Object) : List Json :=
  items.set located.index (.obj anno)

/-- The words of a line in the proposed page: the committed ones that remain and the new ones. -/
def ReconcileInput.ownedProposedWords (input : ReconcileInput) (items : List Json) (lineID : String) :
    List Located :=
  sortReconciliationWords
    ((proposedOwnedWords (input.baseWordsByLine lineID) input.index.proposedWords ++
      input.newWords lineID).map
      (Located.refresh items))

def ReconcileInput.refreshedWords (input : ReconcileInput) (items : List Json) :
    List (String × Located) :=
  input.index.proposedWords.map fun entry => (entry.1, entry.2.refresh items)

def editTokens (input : ReconcileInput) (lineID : String) (proposedLine : Located)
    (baseWords proposedWords : List Located) (state : ReconcileState) :
    Except String ReconcileState := do
  let tokens := Go.fields proposedLine.text
  if input.proposedCount + tokens.length > maxAnnotationsPerPage + baseWords.length then
    throw ("line " ++ Go.quote lineID ++ " token edit would exceed " ++
      Nat.repr maxAnnotationsPerPage ++
      " annotations")
  let context := "reconcile line " ++ Go.quote lineID ++ ": "
  let estimated ← withContext context
    (estimateReconciledTokenBytes state.estimatedPageBytes proposedLine proposedWords tokens)
  let edit : TokenEdit :=
    { ext := input.ext, pageID := input.pageID, canvasURI := input.identity.canvasURI
      expectedRevision := input.expectedRevision, line := proposedLine, baseWords
      proposedWords := input.refreshedWords state.items, count := tokens.length }
  let (progress, cells) ← withContext context
    (reconcileLineTokens edit tokens state.usedIDs state.lcsCellsRemaining)
  return { state with
    items := writeAt state.items proposedLine (setAnnotationText proposedLine.anno (Go.join tokens))
    usedIDs := progress.usedIDs
    lcsCellsRemaining := cells
    estimatedPageBytes := estimated
    removeWordIDs := state.removeWordIDs ++ baseWords.map (·.id) ++ progress.removed
    generatedByLine := Assoc.set state.generatedByLine lineID progress.generated }

def rescaleWord (input : ReconcileInput) (lineID : String) (baseLine proposedLine : Located)
    (items : List Json) (word : Located) : Except String (List Json) := do
  let baseWord := lookup input.index.baseWords word.id
  let box ← withContext ("resize words for line " ++ Go.quote lineID ++ ": ")
    (proportionalWordBox baseLine.box proposedLine.box baseWord.box)
  let anno ← withContext ("resize word " ++ Go.quote word.id ++ ": ")
    (retargetExistingWord input.ext (annotationAt items word.index) input.identity.canvasURI box)
  return writeAt items word anno

def reconcileLine (input : ReconcileInput) (state : ReconcileState) (lineID : String) :
    Except String ReconcileState := do
  let baseLine := lookup input.index.baseLines lineID
  let proposedLine := (lookup input.index.proposedLines lineID).refresh state.items
  let baseWords := input.baseWordsByLine lineID
  let proposedWords := input.ownedProposedWords state.items lineID
  let decision := decideLine baseLine proposedLine baseWords proposedWords
  -- A line whose box changed must not keep the identity of its old target.
  let proposedLine :=
    if sameBox baseLine proposedLine then proposedLine
    else { proposedLine with anno := clearMutableTargetResourceIDs proposedLine.anno }
  let state := { state with items := writeAt state.items proposedLine proposedLine.anno }
  match decision with
  | .conflict =>
      throw ("line " ++ Go.quote lineID ++
        " changes both line text and its word membership without a complete synchronized word view")
  | .explicitWords => return state
  | .tokenEdit => editTokens input lineID proposedLine baseWords proposedWords state
  | .rewriteText =>
      return { state with
        items := writeAt state.items proposedLine
          (setAnnotationText proposedLine.anno (normalizedAnnotationTexts proposedWords)) }
  | .keep => return state
  | .rescale => do
      let items ← proposedWords.foldlM (rescaleWord input lineID baseLine proposedLine) state.items
      return { state with items }

/-! ## The saved page -/

def assembleItem (state : ReconcileState) (item : Json) : List Json :=
  let anno := item.toObject
  let id := Go.trimSpace (annStringValue anno "id")
  if id ∈ state.removeWordIDs ∧ isGranularity anno "word" then []
  else if isGranularity anno "line" then
    item :: ((Assoc.get state.generatedByLine id).getD []).map Json.obj
  else [item]

def isLineItem : Json → Bool
  | .obj anno => isGranularity anno "line"
  | _ => false

def isCommittedLine (baseLines : List (String × Located)) (item : Json) : Bool :=
  annStringValue item.toObject "id" ∈ Assoc.keys baseLines

def fillLineSlots : (items lines : List Json) → List Json
  | [], _ => []
  | item :: rest, lines =>
      if isLineItem item then match lines with
        | line :: lines => line :: fillLineSlots rest lines
        | [] => item :: fillLineSlots rest []
      else item :: fillLineSlots rest lines

/-- Committed lines take the earlier line slots, so that new lines do not become
the apparent owners of committed words. -/
def preserveCommittedLineOwnershipOrder (items : List Json)
    (baseLines : List (String × Located)) : List Json :=
  let lines := items.filter isLineItem
  let existing := lines.filter (isCommittedLine baseLines)
  let created := lines.filter fun line => !isCommittedLine baseLines line
  if existing = [] ∨ created = [] then items else fillLineSlots items (existing ++ created)

def initialUsedIDs (items : List Json) : List String :=
  (items.map fun item => Go.trimSpace (annStringValue item.toObject "id")).filter (· ≠ "")

def prepare (ext : Externals) (order : IterationOrder) (baseItems proposedItems : List Json)
    (identity : PageIdentity) (expectedRevision : Nat) :
    Except String (ReconcileInput × ReconcileState) := do
  let pageID ← annotationPageID ext identity.publicBaseURL identity.itemImageID
  let index ← indexPages baseItems proposedItems
  let baseAssigned := assignSpatialWordsToLines baseItems none
  let baseWordsByLine := wordsOfLine baseAssigned
  let newAssigned := assignSpatialWordsToLines proposedItems (some index.newLineIDs)
  let claims ← newLineClaims order index newAssigned
  let removeWordIDs ← removedLineWords order index baseWordsByLine (baseWordOwner order baseAssigned)
    newAssigned claims
  let newWords ← newWordsByExistingLine ext order pageID index claims proposedItems
  return (
    { ext, identity, pageID, expectedRevision, index, proposedCount := proposedItems.length
      baseWordsByLine, newWords },
    { items := proposedItems
      usedIDs := initialUsedIDs proposedItems
      lcsCellsRemaining := maxWordReconciliationLCSCells
      estimatedPageBytes := (Json.arr proposedItems).encodedBytes + 256
      removeWordIDs
      generatedByLine := [] })

def assemble (baseLines : List (String × Located)) (state : ReconcileState) :
    Except String (List Json) :=
  let result := state.items.flatMap (assembleItem state)
  if result.length > maxAnnotationsPerPage then
    .error ("reconciled page would exceed " ++ Nat.repr maxAnnotationsPerPage ++ " annotations")
  else .ok (preserveCommittedLineOwnershipOrder result baseLines)

def reconcileEditedLineWords (ext : Externals) (order : IterationOrder)
    (baseItems proposedItems : List Json) (identity : PageIdentity) (expectedRevision : Nat) :
    Except String (List Json) := do
  let (input, state) ← prepare ext order baseItems proposedItems identity expectedRevision
  let state ← (order.visit .existingLines input.index.existingLineIDs).foldlM
    (reconcileLine input) state
  assemble input.index.baseLines state

end Scribe.Server
