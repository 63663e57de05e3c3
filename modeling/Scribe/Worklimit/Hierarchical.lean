import Scribe.Data.GoText
import Scribe.Data.Tally

/-! The limiter of expensive work.

A caller takes a slot of the process, of its workspace and of its provider in one
critical section, or reads the broadcast channel there and waits on it. A release
gives the three slots back, closes the channel and puts a new one in its place. The
steps of all callers interleave; the mutex is held across two steps only between a
refused test and the read of the channel.
-/

set_option autoImplicit false

namespace Scribe.Worklimit

open List

structure HierarchicalLimiter where
  globalLimit : Int
  workspaceLimit : Int
  providerLimit : Int
  active : Int
  activeByWorkspace : List (Nat × Int)
  activeByProvider : List (String × Int)
  /-- The channel that the next release closes. -/
  changed : Nat

/-- A new limiter, with the first channel that is made. -/
def newHierarchical (globalLimit workspaceLimit providerLimit : Int) :
    Except String HierarchicalLimiter :=
  if globalLimit < 1 ∨ workspaceLimit < 1 ∨ providerLimit < 1 then
    throw "work concurrency limits must be positive"
  else if globalLimit < workspaceLimit then
    throw "workspace work concurrency cannot exceed global concurrency"
  else if globalLimit < providerLimit then
    throw "provider work concurrency cannot exceed global concurrency"
  else pure ⟨globalLimit, workspaceLimit, providerLimit, 0, [], [], 0⟩

variable {limiter : HierarchicalLimiter}

namespace HierarchicalLimiter

/-- The admission test: a slot is free at all three levels. -/
def admits (limiter : HierarchicalLimiter) (workspaceID : Nat) (provider : String) : Prop :=
  limiter.active < limiter.globalLimit ∧
  Tally.count limiter.activeByWorkspace workspaceID < limiter.workspaceLimit ∧
  Tally.count limiter.activeByProvider provider < limiter.providerLimit

instance (limiter : HierarchicalLimiter) (workspaceID : Nat) (provider : String) :
    Decidable (limiter.admits workspaceID provider) :=
  inferInstanceAs (Decidable (_ ∧ _))

def take (limiter : HierarchicalLimiter) (workspaceID : Nat) (provider : String) :
    HierarchicalLimiter :=
  { limiter with
    active := limiter.active + 1
    activeByWorkspace := Tally.raise limiter.activeByWorkspace workspaceID
    activeByProvider := Tally.raise limiter.activeByProvider provider }

def Exhausted (limiter : HierarchicalLimiter) (workspaceID : Nat) (provider : String) : Prop :=
  limiter.globalLimit ≤ limiter.active ∨
  limiter.workspaceLimit ≤ Tally.count limiter.activeByWorkspace workspaceID ∨
  limiter.providerLimit ≤ Tally.count limiter.activeByProvider provider

theorem exhausted_iff {workspaceID : Nat} {provider : String} :
    limiter.Exhausted workspaceID provider ↔ ¬limiter.admits workspaceID provider := by
  simp only [Exhausted, admits, not_and_or, not_lt]

theorem Exhausted.take {workspaceID : Nat} {provider : String}
    (exhausted : limiter.Exhausted workspaceID provider) (workspaceID' : Nat) (provider' : String) :
    (limiter.take workspaceID' provider').Exhausted workspaceID provider := by
  have byWorkspace := Tally.count_raise limiter.activeByWorkspace workspaceID' workspaceID
  have byProvider := Tally.count_raise limiter.activeByProvider provider' provider
  rcases exhausted with full | full | full
  · exact .inl (by simp only [HierarchicalLimiter.take]; omega)
  · refine .inr (.inl ?_)
    simp only [HierarchicalLimiter.take, byWorkspace]
    split <;> omega
  · refine .inr (.inr ?_)
    simp only [HierarchicalLimiter.take, byProvider]
    split <;> omega

end HierarchicalLimiter

/-! ### Callers and their steps -/

inductive Phase where
  /-- About to lock the mutex and test. -/
  | testing
  /-- The test failed; the mutex is still held. -/
  | refused
  /-- The channel is read and the mutex released. -/
  | captured (channel : Nat)
  /-- In the select over the channel and the context. -/
  | waiting (channel : Nat)
  /-- Holds its slots. -/
  | acquired
  /-- The release function has run once. -/
  | released
  | canceled
  | rejected (cause : String)
  deriving DecidableEq, Repr

structure Caller where
  workspaceID : Nat
  provider : String
  phase : Phase
  deriving DecidableEq

structure System where
  limiter : HierarchicalLimiter
  /-- The number of channels made so far. -/
  made : Nat
  closed : List Nat
  /-- The caller that holds the mutex between two of its steps. -/
  holder : Option Nat
  callers : List Caller

def System.start (limiter : HierarchicalLimiter) : System :=
  ⟨limiter, limiter.changed + 1, [], none, []⟩

def enter (hasContext : Bool) (workspaceID : Nat) (provider : String) : Caller :=
  let phase : Phase :=
    if hasContext = false then .rejected "work limit context is required"
    else if workspaceID = 0 then .rejected "work limit workspace is required"
    else .testing
  ⟨workspaceID, if Go.trimSpace provider = "" then "unknown" else Go.trimSpace provider, phase⟩

namespace System

def move (system : System) (index : Nat) (caller : Caller) (phase : Phase) : System :=
  { system with callers := system.callers.set index { caller with phase } }

/-- `release` under the mutex. -/
def release (system : System) (workspaceID : Nat) (provider : String) : System :=
  let limiter := system.limiter
  if limiter.active ≤ 0 ∨ Tally.count limiter.activeByWorkspace workspaceID ≤ 0 ∨
      Tally.count limiter.activeByProvider provider ≤ 0 then system
  else { system with
    limiter := { limiter with
      active := limiter.active - 1
      activeByWorkspace := Tally.lower limiter.activeByWorkspace workspaceID
      activeByProvider := Tally.lower limiter.activeByProvider provider
      changed := system.made }
    made := system.made + 1
    closed := limiter.changed :: system.closed }

end System

inductive Event where
  | call (hasContext : Bool) (workspaceID : Nat) (provider : String)
  | test (index : Nat)
  | capture (index : Nat)
  | wait (index : Nat)
  | wake (index : Nat)
  | cancel (index : Nat)
  | release (index : Nat)
  deriving DecidableEq, Repr

def stepOf (system : System) (event : Event) (index : Nat) (caller : Caller) : Option System :=
  match event, caller.phase with
  | .test _, .testing =>
    if system.holder ≠ none then none
    else if system.limiter.admits caller.workspaceID caller.provider then
      some ({ system with limiter := system.limiter.take caller.workspaceID caller.provider }.move
        index caller .acquired)
    else some ({ system with holder := some index }.move index caller .refused)
  | .capture _, .refused =>
    some ({ system with holder := none }.move index caller (.captured system.limiter.changed))
  | .wait _, .captured channel => some (system.move index caller (.waiting channel))
  | .wake _, .waiting channel => if channel ∈ system.closed then
      some (system.move index caller .testing) else none
  | .cancel _, .waiting _ => some (system.move index caller .canceled)
  | .release _, .acquired =>
    if system.holder ≠ none then none
    else some ((system.release caller.workspaceID caller.provider).move index caller .released)
  -- every further call of the release function does nothing
  | .release _, .released => some system
  | _, _ => none

def step (system : System) (event : Event) : Option System :=
  match event with
  | .call hasContext workspaceID provider =>
    some { system with callers := system.callers ++ [enter hasContext workspaceID provider] }
  | .test index | .capture index | .wait index | .wake index | .cancel index | .release index =>
    system.callers[index]?.bind (stepOf system event index)

def run (system : System) : List Event → Option System
  | [] => some system
  | event :: rest => (step system event).bind fun next => run next rest

/-! ### What a step can do -/

/-- The steps of one caller, each with what must hold for it. -/
inductive Steps (system : System) (index : Nat) (caller : Caller) : System → Prop where
  | grant : caller.phase = .testing → system.holder = none →
      system.limiter.admits caller.workspaceID caller.provider →
      Steps system index caller
        ({ system with limiter := system.limiter.take caller.workspaceID caller.provider }.move
          index caller .acquired)
  | refuse : caller.phase = .testing → system.holder = none →
      system.limiter.Exhausted caller.workspaceID caller.provider →
      Steps system index caller ({ system with holder := some index }.move index caller .refused)
  | capture : caller.phase = .refused →
      Steps system index caller
        ({ system with holder := none }.move index caller (.captured system.limiter.changed))
  | wait {channel : Nat} : caller.phase = .captured channel →
      Steps system index caller (system.move index caller (.waiting channel))
  | leave {channel : Nat} {phase : Phase} : caller.phase = .waiting channel → phase = .testing ∨
      phase = .canceled →
      Steps system index caller (system.move index caller phase)
  | release : caller.phase = .acquired → system.holder = none →
      Steps system index caller ((system.release caller.workspaceID caller.provider).move index
        caller .released)
  | again : Steps system index caller system

theorem stepOf_steps {system next : System} {event : Event} {index : Nat} {caller : Caller}
    (taken : stepOf system event index caller = some next) : Steps system index caller next := by
  unfold stepOf at taken
  split at taken
  case h_1 _ _ _ testing =>
    split at taken
    · cases taken
    · rename_i free
      have free : system.holder = none := not_not.mp free
      split at taken
      · rename_i admits
        exact Option.some.inj taken ▸ .grant testing free admits
      · rename_i refused
        exact Option.some.inj taken ▸ .refuse testing free
          (HierarchicalLimiter.exhausted_iff.mpr refused)
  case h_2 _ _ _ refused => exact Option.some.inj taken ▸ .capture refused
  case h_3 _ _ _ channel captured => exact Option.some.inj taken ▸ .wait captured
  case h_4 _ _ _ channel waiting =>
    split at taken
    · exact Option.some.inj taken ▸ .leave waiting (.inl rfl)
    · cases taken
  case h_5 _ _ _ channel waiting => exact Option.some.inj taken ▸ .leave waiting (.inr rfl)
  case h_6 _ _ _ acquired =>
    split at taken
    · cases taken
    · rename_i free
      exact Option.some.inj taken ▸ .release acquired (not_not.mp free)
  case h_7 => exact Option.some.inj taken ▸ .again
  case h_8 => cases taken

/-- A step is a call that enters, or a step of one caller. -/
theorem step_cases {system next : System} {event : Event} (taken : step system event = some next) :
    (∃ hasContext workspaceID provider,
      next = { system with callers := system.callers ++ [enter hasContext workspaceID provider] }) ∨
    ∃ index caller, system.callers[index]? = some caller ∧ Steps system index caller next := by
  cases event with
  | call hasContext workspaceID provider =>
    exact .inl ⟨hasContext, workspaceID, provider, (Option.some.inj taken).symm⟩
  | test index | capture index | wait index | wake index | cancel index | release index =>
    obtain ⟨caller, found, stepped⟩ := Option.bind_eq_some_iff.mp taken
    exact .inr ⟨index, caller, found, stepOf_steps stepped⟩

/-! ### The counters -/

def holders (selected : Caller → Bool) (callers : List Caller) : Int :=
  callers.countP fun caller => caller.phase = .acquired && selected caller

theorem holders_set (selected : Caller → Bool) {callers : List Caller} {index : Nat} {caller : Caller}
    (found : callers[index]? = some caller) (phase : Phase)
    (same : selected { caller with phase } = selected caller) :
    holders selected (callers.set index { caller with phase }) =
      holders selected callers - (if caller.phase = .acquired ∧ selected caller = true then 1 else 0) +
        (if phase = .acquired ∧ selected caller = true then 1 else 0) := by
  obtain ⟨within, isCaller⟩ := List.getElem?_eq_some_iff.mp found
  simp only [holders, countP_set within, isCaller, same, Bool.and_eq_true, decide_eq_true_eq]
  by_cases before : caller.phase = .acquired ∧ selected caller = true
  · have present : 0 < callers.countP fun other => other.phase = .acquired && selected other :=
      countP_pos_iff.mpr ⟨caller, mem_of_getElem? found, by simp [before.1, before.2]⟩
    rw [if_pos before, if_pos before]
    generalize (callers.countP fun other => other.phase = .acquired && selected other) =
      count at present ⊢
    split <;> omega
  · rw [if_neg before, if_neg before]
    split <;> omega

theorem holders_concat (selected : Caller → Bool) (callers : List Caller) {caller : Caller}
    (idle : caller.phase ≠ .acquired) :
    holders selected (callers ++ [caller]) = holders selected callers := by
  simp [holders, idle]

theorem enter_idle (hasContext : Bool) (workspaceID : Nat) (provider : String) :
    (enter hasContext workspaceID provider).phase = .testing ∨
      ∃ cause, (enter hasContext workspaceID provider).phase = .rejected cause := by
  simp only [enter]
  split
  · exact .inr ⟨_, rfl⟩
  · split
    · exact .inr ⟨_, rfl⟩
    · exact .inl rfl

/-- The counters count the callers that hold slots, and stay within the limits. -/
structure Counted (limits : Int × Int × Int) (system : System) : Prop where
  configured : (system.limiter.globalLimit, system.limiter.workspaceLimit,
    system.limiter.providerLimit) = limits
  workspaces : Tally.Positive system.limiter.activeByWorkspace
  providers : Tally.Positive system.limiter.activeByProvider
  active : system.limiter.active = holders (fun _ => true) system.callers
  byWorkspace : ∀ workspaceID, Tally.count system.limiter.activeByWorkspace workspaceID =
    holders (fun caller => caller.workspaceID = workspaceID) system.callers
  byProvider : ∀ provider, Tally.count system.limiter.activeByProvider provider =
    holders (fun caller => caller.provider = provider) system.callers
  workspaceTotal : Tally.total system.limiter.activeByWorkspace = system.limiter.active
  providerTotal : Tally.total system.limiter.activeByProvider = system.limiter.active
  globalWithin : system.limiter.active ≤ limits.1
  workspaceWithin : ∀ workspaceID, Tally.count system.limiter.activeByWorkspace
    workspaceID ≤ limits.2.1
  providerWithin : ∀ provider, Tally.count system.limiter.activeByProvider provider ≤ limits.2.2

section Steps

variable {limits : Int × Int × Int} {system next : System} {index : Nat} {caller : Caller}

theorem Counted.of_same (counted : Counted limits system) (limiter : next.limiter = system.limiter)
    (callers : ∀ selected, (∀ (caller : Caller) (phase : Phase),
      selected { caller with phase } = selected caller) →
      holders selected next.callers = holders selected system.callers) : Counted limits next := by
  obtain ⟨_, made, closed, holder, after⟩ := next
  obtain rfl : _ = system.limiter := limiter
  exact { counted with
    active := counted.active.trans (callers _ fun _ _ => rfl).symm
    byWorkspace :=
      fun workspaceID => (counted.byWorkspace workspaceID).trans (callers _ fun _ _ => rfl).symm
    byProvider := fun provider => (counted.byProvider provider).trans (callers _ fun _ _ => rfl).symm }

theorem holders_move_idle (found : system.callers[index]? = some caller) {phase : Phase}
    (before : caller.phase ≠ .acquired) (after : phase ≠ .acquired) (selected : Caller → Bool)
    (same : ∀ (caller : Caller) (phase : Phase), selected { caller with phase } = selected caller) :
    holders selected (system.callers.set index { caller with phase }) =
      holders selected system.callers := by
  rw [holders_set selected found phase (same caller phase)]
  simp [before, after]

section
variable (counted : Counted limits system) (found : system.callers[index]? = some caller)
include counted found

theorem Counted.grant
    (testing : caller.phase = .testing)
    (admits : system.limiter.admits caller.workspaceID caller.provider) : Counted limits
      ({ system with limiter := system.limiter.take caller.workspaceID caller.provider }.move index
        caller .acquired) := by
  -- At each level the caller is one holder more, if the level is about it.
  have gains : ∀ selected : Caller → Bool,
      (∀ (caller : Caller) (phase : Phase), selected { caller with phase } = selected caller) →
      holders selected (system.callers.set index { caller with phase := .acquired }) =
        holders selected system.callers + if selected caller = true then 1 else 0 := by
    intro selected same
    rw [holders_set selected found _ (same caller _)]
    simp [testing]
  obtain ⟨isGlobal, isWorkspace, isProvider⟩ : system.limiter.globalLimit = limits.1 ∧
      system.limiter.workspaceLimit = limits.2.1 ∧ system.limiter.providerLimit = limits.2.2 := by
    simp [← counted.configured]
  obtain ⟨globalFree, workspaceFree, providerFree⟩ := admits
  constructor <;> simp only [System.move, HierarchicalLimiter.take]
  case configured => exact counted.configured
  case workspaces => exact counted.workspaces.raise _
  case providers => exact counted.providers.raise _
  case active => rw [gains _ fun _ _ => rfl, counted.active]; rfl
  case byWorkspace =>
    intro workspaceID
    rw [gains _ fun _ _ => rfl, Tally.count_raise, counted.byWorkspace]
    simp only [decide_eq_true_eq]
  case byProvider =>
    intro provider
    rw [gains _ fun _ _ => rfl, Tally.count_raise, counted.byProvider]
    simp only [decide_eq_true_eq]
  case workspaceTotal => rw [Tally.total_raise, counted.workspaceTotal]
  case providerTotal => rw [Tally.total_raise, counted.providerTotal]
  case globalWithin => omega
  case workspaceWithin =>
    intro workspaceID
    have within := counted.workspaceWithin workspaceID
    rw [Tally.count_raise]
    split
    case isTrue same => rw [← same]; omega
    case isFalse => omega
  case providerWithin =>
    intro provider
    have within := counted.providerWithin provider
    rw [Tally.count_raise]
    split
    case isTrue same => rw [← same]; omega
    case isFalse => omega

theorem Counted.release_eq (acquired : caller.phase = .acquired) :
    0 < Tally.count system.limiter.activeByWorkspace caller.workspaceID ∧
    0 < Tally.count system.limiter.activeByProvider caller.provider ∧
    system.release caller.workspaceID caller.provider = { system with
      limiter := { system.limiter with
        active := system.limiter.active - 1
        activeByWorkspace := Tally.lower system.limiter.activeByWorkspace caller.workspaceID
        activeByProvider := Tally.lower system.limiter.activeByProvider caller.provider
        changed := system.made }
      made := system.made + 1
      closed := system.limiter.changed :: system.closed } := by
  have held : ∀ selected : Caller → Bool, selected caller = true →
      0 < holders selected system.callers := by
    intro selected chosen
    exact Int.natCast_pos.mpr (countP_pos_iff.mpr ⟨caller, mem_of_getElem? found,
      by simp [acquired, chosen]⟩)
  have active : 0 < system.limiter.active := counted.active ▸ held _ rfl
  have byWorkspace : 0 < Tally.count system.limiter.activeByWorkspace caller.workspaceID :=
    counted.byWorkspace _ ▸ held _ (decide_eq_true rfl)
  have byProvider : 0 < Tally.count system.limiter.activeByProvider caller.provider :=
    counted.byProvider _ ▸ held _ (decide_eq_true rfl)
  refine ⟨byWorkspace, byProvider, ?_⟩
  rw [System.release, if_neg (by omega)]

theorem Counted.release (acquired : caller.phase = .acquired) :
    Counted limits ((system.release caller.workspaceID caller.provider).move index caller
      .released) := by
  obtain ⟨byWorkspace, byProvider, isRelease⟩ := counted.release_eq found acquired
  -- The caller was a holder wherever it is selected, so the subtraction is exact.
  have loses : ∀ selected : Caller → Bool,
      (∀ (caller : Caller) (phase : Phase), selected { caller with phase } = selected caller) →
      holders selected (system.callers.set index { caller with phase := .released }) =
        holders selected system.callers - if selected caller = true then 1 else 0 := by
    intro selected same
    rw [holders_set selected found _ (same caller _)]
    simp [acquired]
  rw [isRelease]
  constructor <;> simp only [System.move]
  case configured => exact counted.configured
  case workspaces => exact counted.workspaces.lower byWorkspace
  case providers => exact counted.providers.lower byProvider
  case active => rw [loses _ fun _ _ => rfl, counted.active]; rfl
  case byWorkspace =>
    intro workspaceID
    rw [loses _ fun _ _ => rfl, Tally.count_lower, counted.byWorkspace]
    simp only [decide_eq_true_eq]
  case byProvider =>
    intro provider
    rw [loses _ fun _ _ => rfl, Tally.count_lower, counted.byProvider]
    simp only [decide_eq_true_eq]
  case workspaceTotal => rw [Tally.total_lower counted.workspaces, counted.workspaceTotal]
  case providerTotal => rw [Tally.total_lower counted.providers, counted.providerTotal]
  case globalWithin =>
    have := counted.globalWithin
    omega
  case workspaceWithin =>
    intro workspaceID
    have := counted.workspaceWithin workspaceID
    rw [Tally.count_lower]
    split <;> omega
  case providerWithin =>
    intro provider
    have := counted.providerWithin provider
    rw [Tally.count_lower]
    split <;> omega

theorem Counted.steps (stepped : Steps system index caller next) : Counted limits next := by
  cases stepped with
  | grant testing _ admits => exact counted.grant found testing admits
  | refuse testing _ _ =>
    exact counted.of_same rfl (holders_move_idle found (by simp [testing]) (by simp))
  | capture refused =>
    exact counted.of_same rfl (holders_move_idle found (by simp [refused]) (by simp))
  | wait captured => exact counted.of_same rfl (holders_move_idle found (by simp [captured]) (by simp))
  | leave waiting left =>
    refine counted.of_same rfl (holders_move_idle found (by simp [waiting]) ?_)
    rcases left with rfl | rfl <;> simp
  | release acquired _ => exact counted.release found acquired
  | again => exact counted

end

end Steps

/-! ### Wake-ups -/

def Phase.channel? : Phase → Option Nat
  | .captured channel | .waiting channel => some channel
  | _ => none

/-- Only the current channel is open, and whoever has it or is about to read it finds no slot. -/
structure Alert (system : System) : Prop where
  fresh : system.limiter.changed < system.made
  opened : system.limiter.changed ∉ system.closed
  issued : ∀ channel ∈ system.closed, channel < system.made
  held : ∀ index caller, system.callers[index]? = some caller → caller.phase = .refused →
    system.holder = some index ∧ system.limiter.Exhausted caller.workspaceID caller.provider
  waits : ∀ caller ∈ system.callers, ∀ channel, caller.phase.channel? = some channel →
    channel ∈ system.closed ∨
      (channel = system.limiter.changed ∧ system.limiter.Exhausted caller.workspaceID caller.provider)

section Steps

variable {limits : Int × Int × Int} {system next : System} {index : Nat} {caller : Caller}

theorem getElem?_move {callers : List Caller} {index other : Nat} {moved found : Caller}
    (here : (callers.set index moved)[other]? = some found) :
    (other = index ∧ found = moved) ∨ (other ≠ index ∧ callers[other]? = some found) := by
  rw [getElem?_set] at here
  split at here
  case isTrue same =>
    split at here
    · exact .inl ⟨same.symm, (Option.some.inj here).symm⟩
    · cases here
  case isFalse other => exact .inr ⟨Ne.symm other, here⟩

theorem Alert.of_move (alert : Alert system) {phase : Phase} {holder : Option Nat}
    (changed : limiter.changed = system.limiter.changed)
    (keeps : ∀ workspaceID provider, system.limiter.Exhausted workspaceID provider →
      limiter.Exhausted workspaceID provider)
    (others : ∀ other, other ≠ index → system.holder = some other → holder = some other)
    (refused : phase = .refused → holder = some index ∧
      limiter.Exhausted caller.workspaceID caller.provider)
    (captured : ∀ channel, phase.channel? = some channel → channel ∈ system.closed ∨
      (channel = system.limiter.changed ∧ limiter.Exhausted caller.workspaceID caller.provider)) :
    Alert ({ system with limiter, holder }.move index caller phase) := by
  constructor <;> simp only [System.move, changed]
  case fresh => exact alert.fresh
  case opened => exact alert.opened
  case issued => exact alert.issued
  case held =>
    intro other found here isRefused
    rcases getElem?_move here with ⟨rfl, rfl⟩ | ⟨apart, there⟩
    · exact refused isRefused
    · obtain ⟨holds, exhausted⟩ := alert.held other found there isRefused
      exact ⟨others other apart holds, keeps _ _ exhausted⟩
  case waits =>
    intro found member channel has
    obtain ⟨other, here⟩ := mem_iff_getElem?.mp member
    rcases getElem?_move here with ⟨rfl, rfl⟩ | ⟨_, there⟩
    · exact captured channel has
    · exact (alert.waits found (mem_of_getElem? there) channel has).imp_right fun waits =>
        ⟨waits.1, keeps _ _ waits.2⟩

/-- A release closes the only open channel, and no caller is between its test and its read. -/
theorem Alert.release (alert : Alert system) (free : system.holder = none)
    (changed : limiter.changed = system.made) : Alert ({ system with
      limiter := limiter
      made := system.made + 1
      closed := system.limiter.changed :: system.closed }.move index caller .released) := by
  constructor <;> simp only [System.move, changed]
  case fresh => exact Nat.lt_succ_self _
  case opened =>
    intro member
    rcases mem_cons.mp member with same | old
    · exact absurd alert.fresh (by omega)
    · exact absurd (alert.issued _ old) (Nat.lt_irrefl _)
  case issued =>
    intro channel member
    rcases mem_cons.mp member with rfl | old
    · exact Nat.lt_succ_of_lt alert.fresh
    · exact Nat.lt_succ_of_lt (alert.issued _ old)
  case held =>
    intro other found here isRefused
    rcases getElem?_move here with ⟨rfl, rfl⟩ | ⟨_, there⟩
    · cases isRefused
    · have holds := (alert.held other found there isRefused).1
      rw [free] at holds
      cases holds
  case waits =>
    intro found member channel has
    obtain ⟨other, here⟩ := mem_iff_getElem?.mp member
    rcases getElem?_move here with ⟨rfl, rfl⟩ | ⟨_, there⟩
    · cases has
    · rcases alert.waits found (mem_of_getElem? there) channel has with shut | ⟨current, _⟩
      · exact .inl (mem_cons_of_mem _ shut)
      · exact .inl (current ▸ mem_cons_self)

theorem Alert.steps (alert : Alert system) (counted : Counted limits system)
    (found : system.callers[index]? = some caller) (stepped : Steps system index caller next) :
    Alert next := by
  have member := mem_of_getElem? found
  cases stepped with
  | grant _ _ _ =>
    exact alert.of_move rfl (fun _ _ exhausted => exhausted.take _ _)
      (fun _ _ holds => holds) (by simp)
      (by simp [Phase.channel?])
  | refuse _ free exhausted =>
    refine alert.of_move rfl (fun _ _ exhausted => exhausted) (fun other _ holds => ?_)
      (fun _ => ⟨rfl, exhausted⟩)
      (by simp [Phase.channel?])
    rw [free] at holds
    cases holds
  | capture refused =>
    obtain ⟨holds, exhausted⟩ := alert.held index caller found refused
    refine alert.of_move rfl (fun _ _ exhausted => exhausted) (fun other apart owner => ?_) (by simp)
      (fun channel has => .inr ⟨(Option.some.inj has).symm, exhausted⟩)
    rw [holds] at owner
    exact absurd (Option.some.inj owner).symm apart
  | wait captured =>
    exact alert.of_move rfl (fun _ _ exhausted => exhausted) (fun _ _ holds => holds) (by simp)
      (fun channel has => alert.waits caller member channel (by rw [captured]; exact has))
  | leave _ left =>
    refine alert.of_move rfl (fun _ _ exhausted => exhausted) (fun _ _ holds => holds) ?_ ?_
    · rcases left with rfl | rfl <;> simp
    · rcases left with rfl | rfl <;> simp [Phase.channel?]
  | release acquired free =>
    rw [(counted.release_eq found acquired).2.2]
    exact alert.release free rfl
  | again => exact alert

end Steps

/-! ### Runs -/

section
variable {globalLimit workspaceLimit providerLimit : Int}
  (built : newHierarchical globalLimit workspaceLimit providerLimit = .ok limiter)
include built

theorem newHierarchical_ok :
    limiter = ⟨globalLimit, workspaceLimit, providerLimit, 0, [], [], 0⟩ ∧
      0 < globalLimit ∧ 0 < workspaceLimit ∧ 0 < providerLimit := by
  rw [newHierarchical] at built
  split at built
  · cases built
  · split at built
    · cases built
    · split at built
      · cases built
      · exact ⟨(Except.ok.inj built).symm, by omega⟩

theorem start_counted :
    Counted (globalLimit, workspaceLimit, providerLimit)
    (System.start limiter) ∧ Alert (System.start limiter) := by
  obtain ⟨rfl, positive⟩ := newHierarchical_ok built
  constructor
  · constructor <;> simp [System.start, holders, Tally.count, Tally.total, Assoc.values,
      Tally.Positive.empty] <;> omega
  · constructor <;> simp [System.start]

end

theorem step_keeps {limits : Int × Int × Int} {system next : System} {event : Event}
    (counted : Counted limits system) (alert : Alert system) (taken : step system event =
      some next) : Counted limits next ∧ Alert next := by
  rcases step_cases taken with
      ⟨hasContext, workspaceID, provider, rfl⟩ | ⟨index, caller, found, stepped⟩
  · have idle := enter_idle hasContext workspaceID provider
    constructor
    · refine counted.of_same rfl fun selected _ => holders_concat selected _ ?_
      rcases idle with testing | ⟨cause, rejected⟩
      · simp [testing]
      · simp [rejected]
    · refine { alert with
        held := fun index caller here refused => ?_, waits := fun caller member channel has => ?_ }
      · rcases mem_append.mp (mem_of_getElem? here) with old | new
        · rw [getElem?_append] at here
          split at here
          · exact alert.held index caller here refused
          · have isNew := mem_singleton.mp (mem_of_getElem? here)
            rcases idle with testing | ⟨cause, rejected⟩ <;> simp_all
        · rw [mem_singleton.mp new] at refused
          rcases idle with testing | ⟨cause, rejected⟩ <;> simp_all
      · rcases mem_append.mp member with old | new
        · exact alert.waits caller old channel has
        · rw [mem_singleton.mp new] at has
          rcases idle with testing | ⟨cause, rejected⟩ <;> simp_all [Phase.channel?]
  · exact ⟨counted.steps found stepped, alert.steps counted found stepped⟩

theorem run_keeps {limits : Int × Int × Int} (events : List Event) {system last : System}
    (counted : Counted limits system) (alert : Alert system) (ran : run system events = some last) :
    Counted limits last ∧ Alert last := by
  induction events generalizing system with
  | nil => exact Option.some.inj ran ▸ ⟨counted, alert⟩
  | cons event rest ih =>
    obtain ⟨next, taken, ran⟩ := Option.bind_eq_some_iff.mp ran
    obtain ⟨counted, alert⟩ := step_keeps counted alert taken
    exact ih counted alert ran

/-- The counters agree with each other and with the callers that hold slots, the limits hold, and a
caller that waits on an open channel could not be admitted. -/
theorem limiter_safe_and_alert {globalLimit workspaceLimit providerLimit : Int}
    {limiter : HierarchicalLimiter}
    (built : newHierarchical globalLimit workspaceLimit providerLimit = .ok limiter)
    {events : List Event} {system : System} (ran : run (System.start limiter) events = some system) :
    (system.limiter.active = Tally.total system.limiter.activeByWorkspace ∧
      system.limiter.active = Tally.total system.limiter.activeByProvider ∧
      system.limiter.active = system.callers.countP fun caller => caller.phase = .acquired) ∧
    (system.limiter.active ≤ globalLimit ∧
      (∀ entry ∈ system.limiter.activeByWorkspace, entry.2 ≤ workspaceLimit) ∧
      ∀ entry ∈ system.limiter.activeByProvider, entry.2 ≤ providerLimit) ∧
    ((∀ entry ∈ system.limiter.activeByWorkspace, 0 < entry.2) ∧
      ∀ entry ∈ system.limiter.activeByProvider, 0 < entry.2) ∧
    ∀ caller ∈ system.callers, ∀ channel, caller.phase = .waiting channel → channel ∉ system.closed →
      globalLimit ≤ system.limiter.active ∨
      workspaceLimit ≤ Tally.count system.limiter.activeByWorkspace caller.workspaceID ∨
      providerLimit ≤ Tally.count system.limiter.activeByProvider caller.provider := by
  obtain ⟨counted, alert⟩ := start_counted built
  obtain ⟨counted, alert⟩ := run_keeps events counted alert ran
  refine ⟨⟨counted.workspaceTotal.symm, counted.providerTotal.symm, ?_⟩,
    ⟨counted.globalWithin, ?_, ?_⟩, ⟨counted.workspaces.entries, counted.providers.entries⟩, ?_⟩
  · simpa [holders] using counted.active
  · intro entry member
    exact Tally.count_of_mem counted.workspaces member ▸ counted.workspaceWithin entry.1
  · intro entry member
    exact Tally.count_of_mem counted.providers member ▸ counted.providerWithin entry.1
  · intro caller member channel waiting shut
    have limits := counted.configured
    simp only [Prod.mk.injEq] at limits
    obtain ⟨rfl, rfl, rfl⟩ := limits
    rcases alert.waits caller member channel (by rw [waiting]; rfl) with closed | ⟨_, exhausted⟩
    · exact absurd closed shut
    · exact exhausted

/-- Two callers of one workspace, which has one slot: the second waits while the first works. -/
theorem limiter_safe_under_contention :
    ∃ limiter system, newHierarchical 4 1 2 = .ok limiter ∧
      run (System.start limiter) [.call true 7 "ocr", .call true 7 " ocr ", .test 0, .test 1,
        .capture 1, .wait 1] =
        some system ∧
      system.limiter.active ≤ 4 ∧
      (system.limiter.active = system.callers.countP fun caller => caller.phase = .acquired) ∧
      system.callers[1]? = some ⟨7, "ocr", .waiting 0⟩ ∧ 0 ∉ system.closed ∧
      (4 ≤ system.limiter.active ∨ 1 ≤ Tally.count system.limiter.activeByWorkspace 7 ∨
        2 ≤ Tally.count system.limiter.activeByProvider "ocr") := by
  have ran : run (System.start ⟨4, 1, 2, 0, [], [], 0⟩)
      [.call true 7 "ocr", .call true 7 " ocr ", .test 0, .test 1, .capture 1, .wait 1] =
        some ⟨⟨4, 1, 2, 1, [(7, 1)], [("ocr", 1)], 0⟩, 1, [], none,
          [⟨7, "ocr", .acquired⟩, ⟨7, "ocr", .waiting 0⟩]⟩ := rfl
  have safe :=
    limiter_safe_and_alert (show newHierarchical 4 1 2 = .ok ⟨4, 1, 2, 0, [], [], 0⟩ from rfl) ran
  exact ⟨_, _, rfl, ran, safe.2.1.1, safe.1.2.2, rfl, not_mem_nil,
    safe.2.2.2 ⟨7, "ocr", .waiting 0⟩ (by simp) 0 rfl not_mem_nil⟩

/-- A caller that still waits has a competitor that holds slots, and whose release wakes it. -/
theorem waits_for_a_holder {globalLimit workspaceLimit providerLimit : Int}
    {limiter : HierarchicalLimiter}
    (built : newHierarchical globalLimit workspaceLimit providerLimit = .ok limiter)
    {events : List Event} {system : System} (ran : run (System.start limiter) events = some system) :
    ∀ caller ∈ system.callers, ∀ channel, caller.phase = .waiting channel → channel ∉ system.closed →
      ∃ (index : Nat) (holder : Caller), system.callers[index]? = some holder ∧
        holder.phase = .acquired ∧
        (system.limiter.active = globalLimit ∨ holder.workspaceID = caller.workspaceID ∨
          holder.provider = caller.provider) ∧
        (system.holder = none → ∃ next, step system (.release index) = some next ∧
          channel ∈ next.closed) := by
  obtain ⟨counted, alert⟩ := start_counted built
  obtain ⟨counted, alert⟩ := run_keeps events counted alert ran
  obtain ⟨_, oneGlobal, oneWorkspace, oneProvider⟩ := newHierarchical_ok built
  intro caller member channel waiting shut
  obtain ⟨rfl, exhausted⟩ :=
    (alert.waits caller member channel (by rw [waiting]; rfl)).resolve_left shut
  have limits := counted.configured
  simp only [Prod.mk.injEq] at limits
  obtain ⟨rfl, rfl, rfl⟩ := limits
  -- Whichever quota is used up, the callers that hold its slots are counted.
  obtain ⟨selected, some, shares⟩ : ∃ selected, 0 < holders selected system.callers ∧
      ∀ holder, selected holder = true → system.limiter.active = system.limiter.globalLimit ∨
        holder.workspaceID = caller.workspaceID ∨ holder.provider = caller.provider := by
    rcases exhausted with full | full | full
    · exact ⟨_, counted.active ▸ oneGlobal.trans_le full, fun _ _ =>
        .inl (le_antisymm counted.globalWithin full)⟩
    · exact ⟨_, counted.byWorkspace _ ▸ oneWorkspace.trans_le full, fun _ same =>
        .inr (.inl (of_decide_eq_true same))⟩
    · exact ⟨_, counted.byProvider _ ▸ oneProvider.trans_le full, fun _ same =>
        .inr (.inr (of_decide_eq_true same))⟩
  obtain ⟨holder, member, holds⟩ := countP_pos_iff.mp (Int.natCast_pos.mp some)
  rw [Bool.and_eq_true, decide_eq_true_eq] at holds
  obtain ⟨index, found⟩ := getElem?_of_mem member
  refine ⟨index, holder, found, holds.1, shares holder holds.2, fun free => ?_⟩
  have released := (counted.release_eq found holds.1).2.2
  simp [step, found, stepOf, holds.1, free, released, System.move]

theorem second_waits_for_first :
    ∃ (index : Nat) (holder : Caller),
      [⟨7, "ocr", .acquired⟩, ⟨7, "ocr", .waiting 0⟩][index]? = some holder ∧
        holder.phase = .acquired := by
  have ran : run (System.start ⟨1, 1, 1, 0, [], [], 0⟩)
      [.call true 7 "ocr", .call true 7 "ocr", .test 0, .test 1, .capture 1, .wait 1] =
        some ⟨⟨1, 1, 1, 1, [(7, 1)], [("ocr", 1)], 0⟩, 1, [], none,
          [⟨7, "ocr", .acquired⟩, ⟨7, "ocr", .waiting 0⟩]⟩ := rfl
  obtain ⟨index, holder, found, acquired, _⟩ :=
    waits_for_a_holder (show newHierarchical 1 1 1 = _ from rfl) ran ⟨7, "ocr", .waiting 0⟩
      (by simp) 0 rfl (by simp)
  exact ⟨index, holder, found, acquired⟩

end Scribe.Worklimit
