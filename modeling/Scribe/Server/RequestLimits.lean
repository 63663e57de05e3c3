import Mathlib.Algebra.Order.Field.Rat
import Mathlib.Tactic.Linarith
import Mathlib.Tactic.Ring
import Scribe.Data.Assoc

/-! The request limiter.

Each key has a bucket of tokens that fills at a constant rate up to the burst. When
the map is full, buckets that were idle for ten minutes are dropped to make room for
a new key, and a key that still finds no room is refused without a bucket. The level
of a key is what its bucket would hold now, and the burst if it has none: a dropped
bucket is full again, so dropping it changes no level.
-/

set_option autoImplicit false

namespace Scribe.Server

open List

/-- A rate and a burst that fills up within ten minutes. -/
structure LimiterPolicy where
  rate : ℚ
  burst : ℚ
  positive : 1 ≤ burst
  full : burst ≤ rate * 600

structure RequestBucket where
  tokens : ℚ
  lastSeen : ℚ

def maxRateLimitKeys : Nat := 10000

variable (policy : LimiterPolicy)

def refill (now : ℚ) (bucket : RequestBucket) : ℚ :=
  let elapsed := now - bucket.lastSeen
  let elapsed := if elapsed < 0 then 0 else elapsed
  let tokens := bucket.tokens + elapsed * policy.rate
  if tokens > policy.burst then policy.burst else tokens

def charge (now : ℚ) (key : String) (bucket : RequestBucket)
    (buckets : List (String × RequestBucket)) : Bool × List (String × RequestBucket) :=
  let tokens := refill policy now bucket
  if 1 ≤ tokens then (true, Assoc.set buckets key ⟨tokens - 1, now⟩)
  else (false, Assoc.set buckets key ⟨tokens, now⟩)

/-- A full map loses the buckets that were not seen for ten minutes. -/
def dropStale (now : ℚ) (buckets : List (String × RequestBucket)) : List (String × RequestBucket) :=
  if maxRateLimitKeys ≤ buckets.length then buckets.filter fun entry =>
    ¬ entry.2.lastSeen < now - 600 else buckets

def allow (now : ℚ) (key : String) (buckets : List (String × RequestBucket)) :
    Bool × List (String × RequestBucket) :=
  match Assoc.get buckets key with
  | some bucket => charge policy now key bucket buckets
  | none =>
      let buckets := dropStale now buckets
      if maxRateLimitKeys ≤ buckets.length then (false, buckets)
      else charge policy now key ⟨policy.burst, now⟩ buckets

/-- A limiter whose map is never full and loses nothing. -/
def allowForever (now : ℚ) (key : String) (buckets : List (String × RequestBucket)) :
    Bool × List (String × RequestBucket) :=
  charge policy now key ((Assoc.get buckets key).getD ⟨policy.burst, now⟩) buckets

/-! ## Levels -/

/-- What a key could spend now. -/
def level (now : ℚ) (key : String) (buckets : List (String × RequestBucket)) : ℚ :=
  ((Assoc.get buckets key).map (refill policy now)).getD policy.burst

/-- The state of a limiter after calls up to some time. -/
structure LimiterSound (now : ℚ) (buckets : List (String × RequestBucket)) : Prop where
  distinct : (Assoc.keys buckets).Nodup
  tokens : ∀ entry ∈ buckets, 0 ≤ entry.2.tokens
  seen : ∀ entry ∈ buckets, entry.2.lastSeen ≤ now

section
variable {policy} {now later : ℚ} {bucket : RequestBucket}

theorem LimiterPolicy.rate_pos (policy : LimiterPolicy) : 0 < policy.rate := by
  have positive := policy.positive
  have full := policy.full
  linarith

theorem refill_eq (seen : bucket.lastSeen ≤ now) :
    refill policy now bucket = min policy.burst
      (bucket.tokens + (now - bucket.lastSeen) * policy.rate) := by
  have elapsed : ¬ now - bucket.lastSeen < 0 := by linarith
  simp only [refill, elapsed, if_false]
  split
  · rename_i more
    exact (min_eq_left more.le).symm
  · rename_i fits
    exact (min_eq_right (not_lt.mp fits)).symm

theorem refill_nonneg (seen : bucket.lastSeen ≤ now) (tokens : 0 ≤ bucket.tokens) :
    0 ≤ refill policy now bucket := by
  rw [refill_eq seen]
  have rate := policy.rate_pos
  refine le_min (le_trans zero_le_one policy.positive) (add_nonneg tokens (mul_nonneg ?_ rate.le))
  linarith

theorem refill_now (tokens : ℚ) (fits : tokens ≤ policy.burst) :
    refill policy now ⟨tokens, now⟩ = tokens := by
  rw [refill_eq (le_refl now)]
  simpa using fits

theorem refill_stale (tokens : 0 ≤ bucket.tokens) (stale : bucket.lastSeen < now - 600) :
    refill policy now bucket = policy.burst := by
  have seen : bucket.lastSeen ≤ now := by linarith
  have enough : 600 * policy.rate ≤ (now - bucket.lastSeen) * policy.rate :=
    mul_le_mul_of_nonneg_right (by linarith) policy.rate_pos.le
  have full := policy.full
  rw [refill_eq seen]
  exact min_eq_left (by linarith)

/-- A later level depends on the level now alone. -/
theorem refill_later (seen : bucket.lastSeen ≤ now) (after : now ≤ later) :
    refill policy later bucket = min policy.burst
      (refill policy now bucket + policy.rate * (later - now)) := by
  have gained : 0 ≤ policy.rate * (later - now) := mul_nonneg policy.rate_pos.le (by linarith)
  rw [refill_eq seen, refill_eq (le_trans seen after), ← min_add_add_right, ← min_assoc,
    min_eq_left (by linarith : policy.burst ≤ policy.burst + policy.rate * (later - now))]
  congr 1
  ring

theorem refill_le_burst (seen : bucket.lastSeen ≤ now) : refill policy now bucket ≤ policy.burst := by
  rw [refill_eq seen]
  exact min_le_left _ _

variable {buckets : List (String × RequestBucket)}

section
variable (sound : LimiterSound now buckets)
include sound

theorem LimiterSound.mono (after : now ≤ later) : LimiterSound later buckets :=
  ⟨sound.distinct, sound.tokens, fun entry among => le_trans (sound.seen entry among) after⟩

theorem LimiterSound.level_le_burst (key : String) : level policy now key buckets ≤ policy.burst := by
  rw [level]
  cases found : Assoc.get buckets key with
  | none => exact le_refl _
  | some bucket => exact refill_le_burst (sound.seen _ (Assoc.mem_of_get found))

theorem LimiterSound.level_nonneg (key : String) : 0 ≤ level policy now key buckets := by
  rw [level]
  cases found : Assoc.get buckets key with
  | none => exact le_trans zero_le_one policy.positive
  | some bucket =>
      have among := Assoc.mem_of_get found
      exact refill_nonneg (sound.seen _ among) (sound.tokens _ among)

theorem LimiterSound.level_later (key : String) (after : now ≤ later) :
    level policy later key buckets =
      min policy.burst (level policy now key buckets + policy.rate * (later - now)) := by
  have gained : 0 ≤ policy.rate * (later - now) := mul_nonneg policy.rate_pos.le (by linarith)
  rw [level, level]
  cases found : Assoc.get buckets key with
  | none => exact (min_eq_left (le_add_of_nonneg_right gained)).symm
  | some bucket => exact refill_later (sound.seen _ (Assoc.mem_of_get found)) after

/-! ## One call -/

/-- A call takes one token of its own key if it is allowed, and nothing else. -/
def spent (call key : String) (allowed : Bool) : ℚ := if allowed = true ∧ call = key then 1 else 0

structure Charged (policy : LimiterPolicy) (now : ℚ) (key : String) (allowed : Bool)
    (buckets next : List (String × RequestBucket)) : Prop where
  sound : LimiterSound now next
  level : ∀ other, level policy now other next = level policy now other buckets - spent
    key other allowed

theorem LimiterSound.set (key : String) {tokens : ℚ} (nonneg : 0 ≤ tokens) :
    LimiterSound now (Assoc.set buckets key ⟨tokens, now⟩) := by
  have entries : ∀ entry ∈ Assoc.set buckets key ⟨tokens, now⟩, entry = (key, ⟨tokens, now⟩) ∨
      entry ∈ buckets := by
    intro entry among
    have distinct := Assoc.nodup_keys_set sound.distinct key (⟨tokens, now⟩ : RequestBucket)
    have found := Assoc.get_of_mem distinct among
    by_cases own : key = entry.1
    · left
      rw [own, Assoc.get_set_self] at found
      rw [own, Option.some.inj found]
    · right
      rw [Assoc.get_set_of_ne buckets _ own] at found
      exact Assoc.mem_of_get found
  refine ⟨Assoc.nodup_keys_set sound.distinct key _, fun entry among => ?_, fun entry among => ?_⟩
  · rcases entries entry among with stored | old
    · rw [stored]
      exact nonneg
    · exact sound.tokens entry old
  · rcases entries entry among with stored | old
    · rw [stored]
    · exact sound.seen entry old

theorem charge_spec (key : String) (seen : bucket.lastSeen ≤ now)
    (tokens : 0 ≤ bucket.tokens) (same : refill policy now bucket = level policy now key buckets) :
    (charge policy now key bucket buckets).1 = decide (1 ≤ level policy now key buckets) ∧
      Charged policy now key (charge policy now key bucket buckets).1 buckets
        (charge policy now key bucket buckets).2 := by
  have most : refill policy now bucket ≤ policy.burst := refill_le_burst seen
  have stored : ∀ rest : ℚ, rest ≤ policy.burst → ∀ other,
      level policy now other (Assoc.set buckets key ⟨rest, now⟩) =
      if key = other then rest else level policy now other buckets := by
    intro rest fits other
    rw [level, Assoc.get_set]
    split
    · rw [Option.map_some, Option.getD_some, refill_now rest fits]
    · rfl
  by_cases enough : 1 ≤ refill policy now bucket
  · rw [charge, if_pos enough]
    refine ⟨(decide_eq_true (same ▸ enough)).symm, sound.set key (by linarith), fun other => ?_⟩
    rw [stored _ (by linarith) other, spent, same]
    by_cases own : key = other
    · simp [own]
    · simp [own]
  · rw [charge, if_neg enough]
    refine ⟨(decide_eq_false (same ▸ enough)).symm, sound.set key (refill_nonneg seen tokens),
      fun other => ?_⟩
    rw [stored _ most other, spent, same]
    by_cases own : key = other
    · simp [own]
    · simp [own]

theorem allowForever_spec (key : String) :
    (allowForever policy now key buckets).1 = decide (1 ≤ level policy now key buckets) ∧
      Charged policy now key (allowForever policy now key buckets).1 buckets
        (allowForever policy now key buckets).2 := by
  have burst : (0 : ℚ) ≤ policy.burst := le_trans zero_le_one policy.positive
  rw [allowForever]
  cases found : Assoc.get buckets key with
  | none =>
      refine charge_spec sound key (le_refl now) burst ?_
      rw [level, found, Option.map_none, Option.getD_none]
      exact refill_now _ (le_refl _)
  | some held =>
      have among := Assoc.mem_of_get found
      refine charge_spec sound key (sound.seen _ among) (sound.tokens _ among) ?_
      rw [level, found]
      rfl

theorem dropStale_spec :
    LimiterSound now (dropStale now buckets) ∧
      ∀ key, level policy now key (dropStale now buckets) = level policy now key buckets := by
  rw [dropStale]
  split
  · have kept : ∀ entry ∈ buckets.filter fun entry => ¬ entry.2.lastSeen < now - 600,
        entry ∈ buckets :=
      fun entry among => (mem_filter.mp among).1
    have distinct : (Assoc.keys (buckets.filter fun entry => ¬ entry.2.lastSeen < now - 600)).Nodup :=
      sound.distinct.sublist (filter_sublist.map Prod.fst)
    refine ⟨⟨distinct, fun entry among => sound.tokens entry (kept entry among),
      fun entry among => sound.seen entry (kept entry among)⟩, fun key => ?_⟩
    rw [level, level]
    cases found : Assoc.get buckets key with
    | none =>
        have absent : Assoc.get (buckets.filter fun entry => ¬ entry.2.lastSeen < now - 600)
            key = none := by
          rw [Assoc.get_eq_none_iff] at found ⊢
          exact fun among => found ((filter_sublist.map Prod.fst).mem among)
        rw [absent]
    | some bucket =>
        have among := Assoc.mem_of_get found
        by_cases stale : bucket.lastSeen < now - 600
        · have absent : Assoc.get (buckets.filter fun entry => ¬ entry.2.lastSeen < now - 600)
              key = none := by
            cases left : Assoc.get (buckets.filter fun entry =>
              ¬ entry.2.lastSeen < now - 600) key with
            | none => rfl
            | some other =>
                -- The keys are distinct, so this is the stale bucket itself.
                have still := mem_filter.mp (Assoc.mem_of_get left)
                have one := Assoc.get_of_mem sound.distinct still.1
                rw [found, Option.some.injEq] at one
                subst one
                exact absurd stale (of_decide_eq_true still.2)
          rw [absent, Option.map_some, Option.getD_some, refill_stale (sound.tokens _ among) stale]
          rfl
        · rw [Assoc.get_of_mem distinct (mem_filter.mpr ⟨among, decide_eq_true stale⟩)]
  · exact ⟨sound, fun key => rfl⟩

end

/-- The key found neither a bucket nor room for one. -/
def NoRoom (now : ℚ) (key : String) (buckets : List (String × RequestBucket)) : Prop :=
  Assoc.get buckets key = none ∧ maxRateLimitKeys ≤ (dropStale now buckets).length

instance (now : ℚ) (key : String) (buckets : List (String × RequestBucket)) :
    Decidable (NoRoom now key buckets) :=
  inferInstanceAs (Decidable (_ ∧ _))

theorem allow_spec (sound : LimiterSound now buckets) (key : String) :
    (allow policy now key buckets).1 = (decide (1 ≤ level policy now key buckets) &&
      !decide (NoRoom now key buckets)) ∧
      Charged policy now key (allow policy now key buckets).1 buckets
        (allow policy now key buckets).2 := by
  rw [allow]
  cases found : Assoc.get buckets key with
  | some held =>
      have among := Assoc.mem_of_get found
      have room : ¬ NoRoom now key buckets := fun noRoom => by simp [noRoom.1] at found
      rw [decide_eq_false room, Bool.not_false, Bool.and_true]
      refine charge_spec sound key (sound.seen _ among) (sound.tokens _ among) ?_
      rw [level, found]
      rfl
  | none =>
      obtain ⟨soundLeft, levels⟩ := @dropStale_spec policy now buckets sound
      by_cases full : maxRateLimitKeys ≤ (dropStale now buckets).length
      · have noRoom : NoRoom now key buckets := ⟨found, full⟩
        simp only [full, if_true, noRoom, decide_true, Bool.not_true, Bool.and_false, true_and]
        exact ⟨soundLeft, fun other => by simp [levels other, spent]⟩
      · have room : ¬ NoRoom now key buckets := fun noRoom => full noRoom.2
        simp only [full, if_false, room, decide_false, Bool.not_false, Bool.and_true]
        have full : refill policy now ⟨policy.burst, now⟩ =
            level policy now key (dropStale now buckets) := by
          rw [levels, level, found, Option.map_none, Option.getD_none]
          exact refill_now _ (le_refl _)
        obtain ⟨answer, charged⟩ :=
          charge_spec soundLeft key (le_refl now) (le_trans zero_le_one policy.positive) full
        rw [levels] at answer
        exact ⟨answer, charged.sound, fun other => (charged.level other).trans (by rw [levels])⟩

theorem allow_length (key : String) (fits : buckets.length ≤ maxRateLimitKeys) :
    (allow policy now key buckets).2.length ≤ maxRateLimitKeys := by
  have sizes : ∀ (held : RequestBucket) (entries : List (String × RequestBucket)),
      (charge policy now key held entries).2.length ≤ entries.length + if key ∈ Assoc.keys
          entries then 0 else 1 := by
    intro held entries
    have size : ∀ value : RequestBucket,
        (Assoc.set entries key value).length ≤ entries.length + if key ∈ Assoc.keys entries then
            0 else 1 := by
      intro value
      have keys := congrArg List.length (Assoc.keys_set entries key value)
      rw [Assoc.keys, length_map] at keys
      rw [keys]
      split <;> simp [Assoc.keys]
    rw [charge]
    split
    · exact size _
    · exact size _
  rw [allow]
  cases found : Assoc.get buckets key with
  | some held =>
      have known : key ∈ Assoc.keys buckets := (Assoc.get_isSome_iff buckets key).mp (by simp [found])
      have size := sizes held buckets
      rw [if_pos known] at size
      exact le_trans size fits
  | none =>
      have smaller : (dropStale now buckets).length ≤ buckets.length := by
        rw [dropStale]
        split
        · exact length_filter_le _ _
        · exact le_refl _
      simp only
      split
      · exact le_trans smaller fits
      · have size := sizes ⟨policy.burst, now⟩ (dropStale now buckets)
        have one : (if key ∈ Assoc.keys (dropStale now buckets) then 0 else 1) ≤ 1 := by
          split <;> decide
        omega

end

/-! ## Runs -/

structure LimiterCall where
  time : ℚ
  key : String

def NonDecreasing (calls : List LimiterCall) : Prop :=
  calls.Pairwise fun earlier later => earlier.time ≤ later.time

def bucketsAfter (buckets : List (String × RequestBucket)) (calls : List LimiterCall) :
    List (String × RequestBucket) :=
  calls.foldl (fun buckets call => (allow policy call.time call.key buckets).2) buckets

def allowedCalls : List (String × RequestBucket) → List LimiterCall → List LimiterCall
  | _, [] => []
  | buckets, call :: rest =>
      let (allowed, next) := allow policy call.time call.key buckets
      if allowed then call :: allowedCalls next rest else allowedCalls next rest

/-- The calls that found a bucket or room for one. -/
def roomyCalls : List (String × RequestBucket) → List LimiterCall → List LimiterCall
  | _, [] => []
  | buckets, call :: rest =>
      let next := (allow policy call.time call.key buckets).2
      if NoRoom call.time call.key buckets then roomyCalls next rest else call :: roomyCalls next rest

def bucketsForever (buckets : List (String × RequestBucket)) (calls : List LimiterCall) :
    List (String × RequestBucket) :=
  calls.foldl (fun buckets call => (allowForever policy call.time call.key buckets).2) buckets

def callsWithin (calls : List LimiterCall) (key : String) (start stop : ℚ) : Nat :=
  calls.countP fun call => call.key = key ∧ start ≤ call.time ∧ call.time ≤ stop

section
variable {policy} {now start stop : ℚ} {buckets : List (String × RequestBucket)}
  {calls : List LimiterCall}

theorem mem_allowedCalls {call : LimiterCall} (among : call ∈ allowedCalls policy buckets calls) :
    call ∈ calls := by
  induction calls generalizing buckets with
  | nil => exact among
  | cons first rest ih =>
      simp only [allowedCalls] at among
      split at among
      · rcases mem_cons.mp among with own | later
        · exact own ▸ mem_cons_self
        · exact mem_cons_of_mem _ (ih later)
      · exact mem_cons_of_mem _ (ih among)

theorem callsWithin_cons (call : LimiterCall) (rest : List LimiterCall) (key : String) :
    callsWithin (call :: rest) key start stop =
      callsWithin rest key start stop + if call.key = key ∧ start ≤ call.time ∧
        call.time ≤ stop then 1 else 0 := by
  simp [callsWithin, countP_cons]

section
variable (sound : LimiterSound now buckets) (clock : NonDecreasing calls)
  (after : ∀ call ∈ calls, now ≤ call.time)
include sound clock after

/-- From a sound state on, the calls allowed for a key spend its level and what it gains. -/
theorem allowed_le_level (window : now ≤ stop) (key : String) :
    (callsWithin (allowedCalls policy buckets calls) key start stop : ℚ) ≤
      level policy now key buckets + policy.rate * (stop - now) := by
  have rate := policy.rate_pos.le
  induction calls generalizing now buckets with
  | nil =>
    simpa [allowedCalls, callsWithin] using add_nonneg (sound.level_nonneg key)
      (mul_nonneg rate (sub_nonneg.mpr window))
  | cons call rest ih =>
      obtain ⟨laterCalls, clockRest⟩ := pairwise_cons.mp clock
      have reached := after call mem_cons_self
      by_cases inside : call.time ≤ stop
      · obtain ⟨-, charged⟩ := @allow_spec policy call.time buckets (sound.mono reached) call.key
        have counted := ih charged.sound clockRest laterCalls inside
        have levels := charged.level key
        have grown := @LimiterSound.level_later policy _ _ _ sound key reached
        have most :=
          min_le_right policy.burst (level policy now key buckets + policy.rate * (call.time - now))
        -- The head spends one token exactly when it is counted.
        have head : (callsWithin (allowedCalls policy buckets (call :: rest)) key start stop : ℚ) ≤
            callsWithin (allowedCalls policy (allow policy call.time call.key buckets).2 rest)
              key start stop +
              spent call.key key (allow policy call.time call.key buckets).1 := by
          simp only [allowedCalls, spent]
          cases (allow policy call.time call.key buckets).1 with
          | false => simp
          | true =>
              simp only [if_true, callsWithin_cons, true_and]
              by_cases own : call.key = key
              · split <;> simp
              · simp [own]
        linarith
      · -- Nothing is counted after the window.
        have nothing : callsWithin (allowedCalls policy buckets (call :: rest)) key start
            stop = 0 := by
          refine countP_eq_zero.mpr fun later among counted => ?_
          have within := (of_decide_eq_true counted).2.2
          rcases mem_cons.mp (mem_allowedCalls among) with own | among
          · exact inside (own ▸ within)
          · exact inside (le_trans (laterCalls later among) within)
        rw [nothing, Nat.cast_zero]
        exact add_nonneg (sound.level_nonneg key) (mul_nonneg rate (sub_nonneg.mpr window))

theorem allowed_within (before : now ≤ start) (window : start ≤ stop) (key : String) :
    (callsWithin (allowedCalls policy buckets calls) key start stop : ℚ) ≤
      policy.burst + policy.rate * (stop - start) := by
  induction calls generalizing now buckets with
  | nil =>
      have counted :=
        @allowed_le_level policy start start stop buckets [] (sound.mono before) List.Pairwise.nil
        (by simp) window key
      have most := @LimiterSound.level_le_burst policy _ _ (sound.mono before) key
      linarith
  | cons call rest ih =>
      by_cases inside : start ≤ call.time
      · have later : ∀ other ∈ call :: rest, start ≤ other.time := by
          intro other among
          rcases mem_cons.mp among with own | among
          · exact own ▸ inside
          · exact le_trans inside ((pairwise_cons.mp clock).1 other among)
        have counted := @allowed_le_level policy start start stop buckets (call :: rest)
          (sound.mono before) clock later
          window key
        have most := @LimiterSound.level_le_burst policy _ _ (sound.mono before) key
        linarith
      · obtain ⟨laterCalls, clockRest⟩ := pairwise_cons.mp clock
        obtain ⟨-, charged⟩ :=
          @allow_spec policy call.time buckets (sound.mono (after call mem_cons_self)) call.key
        have counted := ih charged.sound clockRest laterCalls (not_le.mp inside).le
        have same : callsWithin (allowedCalls policy buckets (call :: rest)) key start stop =
            callsWithin (allowedCalls policy (allow policy call.time call.key buckets).2 rest) key
                start stop := by
          simp only [allowedCalls]
          split
          · simp [callsWithin_cons, inside]
          · rfl
        rw [same]
        exact counted

end

theorem bucketsAfter_length (calls : List LimiterCall) (fits : buckets.length ≤ maxRateLimitKeys) :
    (bucketsAfter policy buckets calls).length ≤ maxRateLimitKeys := by
  induction calls generalizing buckets with
  | nil => exact fits
  | cons call rest ih => exact ih (allow_length call.key fits)

structure LevelsAgree (policy : LimiterPolicy) (now : ℚ)
    (buckets forever : List (String × RequestBucket)) : Prop where
  sound : LimiterSound now buckets
  soundForever : LimiterSound now forever
  levels : ∀ key, level policy now key buckets = level policy now key forever

section
variable {forever : List (String × RequestBucket)} (agree : LevelsAgree policy now buckets forever)
include agree

theorem LevelsAgree.mono {later : ℚ} (after : now ≤ later) :
    LevelsAgree policy later buckets forever where
  sound := agree.sound.mono after
  soundForever := agree.soundForever.mono after
  levels key := by
    rw [agree.sound.level_later key after, agree.soundForever.level_later key after, agree.levels key]

/-- One call keeps the levels of the two limiters the same, if the other one is not asked without
room. -/
theorem LevelsAgree.step (key : String) :
    LevelsAgree policy now (allow policy now key buckets).2
      (if NoRoom now key buckets then forever else (allowForever policy now key forever).2) := by
  obtain ⟨answer, charged⟩ := @allow_spec policy now buckets agree.sound key
  obtain ⟨answerForever, chargedForever⟩ :=
    @allowForever_spec policy now forever agree.soundForever key
  by_cases noRoom : NoRoom now key buckets
  · rw [if_pos noRoom]
    refine ⟨charged.sound, agree.soundForever, fun other => ?_⟩
    have refused : (allow policy now key buckets).1 = false := by simp [answer, noRoom]
    rw [charged.level other, refused, agree.levels other]
    simp [spent]
  · rw [if_neg noRoom]
    refine ⟨charged.sound, chargedForever.sound, fun other => ?_⟩
    have same : (allow policy now key buckets).1 = (allowForever policy now key forever).1 := by
      rw [answer, answerForever, agree.levels key]
      simp [noRoom]
    rw [charged.level other, chargedForever.level other, same, agree.levels other]

theorem LevelsAgree.run {later : ℚ} (clock : NonDecreasing calls)
    (after : ∀ call ∈ calls, now ≤ call.time) (order : now ≤ later)
    (upTo : ∀ call ∈ calls, call.time ≤ later) :
    LevelsAgree policy later (bucketsAfter policy buckets calls)
      (bucketsForever policy forever (roomyCalls policy buckets calls)) := by
  induction calls generalizing now buckets forever with
  | nil => exact agree.mono order
  | cons call rest ih =>
      obtain ⟨laterCalls, clockRest⟩ := pairwise_cons.mp clock
      have stepped := (agree.mono (after call mem_cons_self)).step call.key
      have rested := ih stepped clockRest laterCalls (upTo call mem_cons_self)
        fun other among => upTo other (mem_cons_of_mem _ among)
      simp only [roomyCalls]
      split
      · rename_i noRoom
        rw [if_pos noRoom] at rested
        exact rested
      · rename_i room
        rw [if_neg room] at rested
        exact rested

end

end

theorem limiterSound_nil (now : ℚ) : LimiterSound now [] :=
  ⟨nodup_nil, by simp, by simp⟩

theorem exists_before_all (calls : List LimiterCall) (clock : NonDecreasing calls) (start : ℚ) :
    ∃ now, now ≤ start ∧ ∀ call ∈ calls, now ≤ call.time := by
  cases calls with
  | nil => exact ⟨start, le_refl _, by simp⟩
  | cons first rest =>
      refine ⟨min start first.time, min_le_left _ _, fun call among => ?_⟩
      rcases mem_cons.mp among with own | later
      · exact own ▸ min_le_right _ _
      · exact le_trans (min_le_right _ _) ((pairwise_cons.mp clock).1 call later)

/-- Over any calls, every window bounds the calls allowed for a key, the map stays within its bound,
and a key that has a bucket gets the answer of a limiter that drops nothing and is not asked the
calls that found no room. -/
theorem limiter_enforces_rate (calls : List LimiterCall) (clock : NonDecreasing calls) :
    (∀ key start stop, start ≤ stop →
      (callsWithin (allowedCalls policy [] calls) key start stop : ℚ) ≤
        policy.burst + policy.rate * (stop - start)) ∧
    ∀ before after, calls = before ++ after →
      (bucketsAfter policy [] before).length ≤ maxRateLimitKeys ∧
      ∀ call ∈ after.head?, (Assoc.get (bucketsAfter policy [] before) call.key).isSome →
        (allow policy call.time call.key (bucketsAfter policy [] before)).1 =
          (allowForever policy call.time call.key
            (bucketsForever policy [] (roomyCalls policy [] before))).1 := by
  refine ⟨fun key start stop window => ?_, fun before after split =>
    ⟨bucketsAfter_length before (by simp), ?_⟩⟩
  · obtain ⟨now, earlier, all⟩ := exists_before_all calls clock start
    exact allowed_within (limiterSound_nil now) clock all earlier window key
  · intro call next held
    obtain ⟨rest, rfl⟩ := head?_eq_some_iff.mp next
    subst split
    obtain ⟨now, earlier, all⟩ := exists_before_all _ clock call.time
    obtain ⟨clockBefore, -, apart⟩ := pairwise_append.mp clock
    have agree : LevelsAgree policy now [] [] :=
      ⟨limiterSound_nil now, limiterSound_nil now, fun _ => rfl⟩
    have reached :=
      agree.run clockBefore (fun other among => all other (mem_append_left _ among)) earlier
      fun other among => apart other among call mem_cons_self
    have room : ¬ NoRoom call.time call.key (bucketsAfter policy [] before) := fun noRoom => by
      simp [noRoom.1] at held
    rw [(@allow_spec policy _ _ reached.sound call.key).1,
      (@allowForever_spec policy _ _ reached.soundForever call.key).1, reached.levels call.key]
    simp [room]

def pairPolicy : LimiterPolicy := ⟨1 / 300, 2, by norm_num, by norm_num⟩

theorem limiter_enforces_rate_pair :
    (callsWithin (allowedCalls pairPolicy [] [⟨0, "a"⟩, ⟨0, "b"⟩, ⟨1, "a"⟩, ⟨1, "a"⟩]) "a" 0
      1 : ℚ) ≤ 2 + 1 / 300 * (1 - 0) :=
  (limiter_enforces_rate pairPolicy [⟨0, "a"⟩, ⟨0, "b"⟩, ⟨1, "a"⟩, ⟨1, "a"⟩]
    (by norm_num [NonDecreasing])).1 "a" 0 1
    (by norm_num)

/-! ## A key that finds no room -/

section
variable {policy}

theorem bucketsAfter_newKeys (time : ℚ) (keys : List String) (buckets : List (String × RequestBucket))
    (distinct : (Assoc.keys buckets ++ keys).Nodup)
    (fits : buckets.length + keys.length ≤ maxRateLimitKeys) :
    bucketsAfter policy buckets (keys.map (⟨time, ·⟩)) =
      buckets ++ keys.map fun key => (key, ⟨policy.burst - 1, time⟩) := by
  induction keys generalizing buckets with
  | nil => simp [bucketsAfter]
  | cons key rest ih =>
      have absent : key ∉ Assoc.keys buckets := fun among =>
        (nodup_append.mp distinct).2.2 key among key mem_cons_self rfl
      have room : ¬ maxRateLimitKeys ≤ buckets.length := by
        rw [length_cons] at fits
        omega
      have stored : (allow policy time key buckets).2 =
          buckets ++ [(key, ⟨policy.burst - 1, time⟩)] := by
        have refilled : refill policy time ⟨policy.burst, time⟩ = policy.burst :=
          refill_now _ (le_refl _)
        rw [allow, (Assoc.get_eq_none_iff buckets key).mpr absent]
        simp only [dropStale, room, if_false, charge, refilled, policy.positive, if_true]
        exact Assoc.set_of_not_mem absent _
      have rested := ih (buckets ++ [(key, ⟨policy.burst - 1, time⟩)])
        (by simpa [Assoc.keys, append_assoc] using distinct) (by simp at fits ⊢; omega)
      calc bucketsAfter policy buckets ((key :: rest).map (⟨time, ·⟩))
          = bucketsAfter policy (allow policy time key buckets).2 (rest.map (⟨time, ·⟩)) := rfl
        _ = buckets ++ (key :: rest).map fun key => (key, ⟨policy.burst - 1, time⟩) := by
            rw [stored, rested, append_assoc]
            rfl

end

theorem pairPolicy_rest : pairPolicy.burst - 1 = 1 := by norm_num [pairPolicy]

/-- One early call, a crowd a second later, and two calls that find the map full and then not. -/
def crowdedCalls (crowd : List String) : List LimiterCall :=
  ([⟨0, "early"⟩] ++ crowd.map (⟨1, ·⟩)) ++ [⟨600, "late"⟩, ⟨601, "late"⟩]

theorem exists_crowd (size : Nat) : ∃ crowd : List String, crowd.length = size ∧
      (["early", "late"] ++ crowd).Nodup := by
  have apart : ∀ text : String, 'k' ∉ text.toList → text ≠ "" → ∀ count,
      text ≠ String.ofList (List.replicate count 'k') := by
    intro text without nonempty count same
    subst same
    rw [String.toList_ofList] at without
    cases count with
    | zero => exact nonempty rfl
    | succ count => exact without mem_cons_self
  refine ⟨(List.range size).map fun count => String.ofList (List.replicate count 'k'), by simp, ?_⟩
  refine nodup_append.mpr
    ⟨by decide, nodup_range.map fun one other same => ?_, fun text among other made => ?_⟩
  · have lengths := congrArg (fun text => text.toList.length) same
    simpa only [String.toList_ofList, length_replicate] using lengths
  · obtain ⟨count, -, rfl⟩ := mem_map.mp made
    have known : 'k' ∉ text.toList ∧ text ≠ "" := by
      rcases mem_cons.mp among with rfl | late
      · decide
      · rw [mem_singleton.mp late]
        decide
    exact apart text known.1 known.2 count

section
variable {crowd : List String} (size : crowd.length + 1 = maxRateLimitKeys)
  (distinct : (["early", "late"] ++ crowd).Nodup)

theorem late_not_mem_crowd (distinct : (["early", "late"] ++ crowd).Nodup) : "late" ∉ crowd :=
  fun among => (nodup_append.mp distinct).2.2 "late" (by decide) "late" among rfl

theorem late_not_mem_keys (distinct : (["early", "late"] ++ crowd).Nodup) :
    "late" ∉ Assoc.keys (crowd.map fun key => (key, (⟨1, 1⟩ : RequestBucket))) := by
  rw [Assoc.keys, map_map]
  intro among
  obtain ⟨key, known, same⟩ := mem_map.mp among
  exact late_not_mem_crowd distinct (same ▸ known)

theorem crowd_kept (crowd : List String) {time : ℚ} (recent : time ≤ 1) :
    (crowd.map fun key => (key, (⟨1, 1⟩ : RequestBucket))).filter
      (fun entry => ¬ entry.2.lastSeen < time) =
      crowd.map fun key => (key, ⟨1, 1⟩) := by
  refine filter_eq_self.mpr fun entry among => ?_
  obtain ⟨key, -, rfl⟩ := mem_map.mp among
  exact decide_eq_true (not_lt.mpr recent)

theorem bucketsAfter_append (policy : LimiterPolicy) (buckets : List (String × RequestBucket))
    (before after : List LimiterCall) :
    bucketsAfter policy buckets (before ++ after) =
      bucketsAfter policy (bucketsAfter policy buckets before) after :=
  foldl_append

include size distinct in
theorem bucketsAfter_crowdedCalls :
    bucketsAfter pairPolicy [] (crowdedCalls crowd) = (crowd.map fun key => (key, ⟨1, 1⟩)) ++
      [("late", ⟨1, 601⟩)] := by
  have first := @bucketsAfter_newKeys pairPolicy 0 ["early"] [] (by decide) (by decide)
  have others := @bucketsAfter_newKeys pairPolicy 1 crowd [("early", ⟨1, 0⟩)]
    (distinct.sublist (by simp [Assoc.keys])) (by simp; omega)
  have missing := late_not_mem_keys distinct
  rw [pairPolicy_rest] at first others
  generalize stored : crowd.map (fun key => (key, (⟨1, 1⟩ : RequestBucket))) =
    entries at others missing
  have count : entries.length + 1 = maxRateLimitKeys := by simpa [← stored] using size
  have kept : ∀ {time : ℚ}, time ≤ 1 →
      entries.filter (fun entry => ¬ entry.2.lastSeen < time) = entries := by
    intro time recent
    rw [← stored]
    exact crowd_kept crowd recent
  have absent : Assoc.get (("early", ⟨1, 0⟩) :: entries) "late" = none := by
    rw [Assoc.get_eq_none_iff]
    exact fun among => (mem_cons.mp among).elim (by decide) missing
  have full : maxRateLimitKeys ≤ (("early", (⟨1, 0⟩ : RequestBucket)) :: entries).length := count.ge
  -- At 600 the first bucket is not stale yet and the map is full.
  have refused : (allow pairPolicy 600 "late" (("early", ⟨1, 0⟩) :: entries)).2 =
      ("early", ⟨1, 0⟩) :: entries := by
    have all : dropStale 600 (("early", ⟨1, 0⟩) :: entries) = ("early", ⟨1, 0⟩) :: entries := by
      rw [dropStale, if_pos full, filter_cons, kept (by norm_num)]
      norm_num
    simp only [allow, absent, all, full, if_true]
  -- At 601 it is, and its place is free.
  have charged : (allow pairPolicy 601 "late" (("early", ⟨1, 0⟩) :: entries)).2 =
      entries ++ [("late", ⟨1, 601⟩)] := by
    have rest : dropStale 601 (("early", ⟨1, 0⟩) :: entries) = entries := by
      rw [dropStale, if_pos full, filter_cons, kept (by norm_num)]
      norm_num
    have room : ¬ maxRateLimitKeys ≤ entries.length := by omega
    have refilled : refill pairPolicy 601 ⟨pairPolicy.burst, 601⟩ = pairPolicy.burst :=
      refill_now _ (le_refl _)
    simp only [allow, absent, rest, room, if_false, charge, refilled, pairPolicy.positive, if_true,
      pairPolicy_rest]
    exact Assoc.set_of_not_mem missing _
  have filled : bucketsAfter pairPolicy [] ([⟨0, "early"⟩] ++ crowd.map (⟨1, ·⟩)) =
      ("early", ⟨1, 0⟩) :: entries :=
    (bucketsAfter_append ..).trans ((congrArg (bucketsAfter pairPolicy · _) first).trans others)
  rw [crowdedCalls, bucketsAfter_append, filled]
  simp only [bucketsAfter, foldl_cons, foldl_nil, refused, charged]

theorem get_bucketsForever_of_ne (policy : LimiterPolicy) (key : String) (calls : List LimiterCall)
    (others : ∀ call ∈ calls, call.key ≠ key) (buckets : List (String × RequestBucket)) :
    Assoc.get (bucketsForever policy buckets calls) key = Assoc.get buckets key := by
  induction calls generalizing buckets with
  | nil => rfl
  | cons call rest ih =>
      have same : Assoc.get (allowForever policy call.time call.key buckets).2 key =
          Assoc.get buckets key := by
        have other := others call mem_cons_self
        rw [allowForever, charge]
        split
        · exact Assoc.get_set_of_ne buckets _ other
        · exact Assoc.get_set_of_ne buckets _ other
      exact (ih (fun call among => others call (mem_cons_of_mem _ among)) _).trans same

include distinct in
theorem get_bucketsForever_crowdedCalls :
    Assoc.get (bucketsForever pairPolicy [] (crowdedCalls crowd)) "late" = some ⟨1 / 300, 601⟩ := by
  have absent := get_bucketsForever_of_ne pairPolicy "late" ([⟨0, "early"⟩] ++ crowd.map (⟨1, ·⟩)) (by
    intro call among same
    rcases mem_append.mp among with early | crowded
    · rw [mem_singleton.mp early] at same
      exact absurd same (by decide)
    · obtain ⟨key, known, rfl⟩ := mem_map.mp crowded
      exact late_not_mem_crowd distinct (same ▸ known)) []
  have split : bucketsForever pairPolicy [] (crowdedCalls crowd) =
      bucketsForever pairPolicy (bucketsForever pairPolicy []
      ([⟨0, "early"⟩] ++ crowd.map (⟨1, ·⟩))) [⟨600, "late"⟩, ⟨601, "late"⟩] := foldl_append
  rw [split]
  generalize bucketsForever pairPolicy [] ([⟨0, "early"⟩] ++ crowd.map (⟨1, ·⟩)) = others at absent
  have first : (allowForever pairPolicy 600 "late" others).2 = Assoc.set others "late" ⟨1, 600⟩ := by
    rw [allowForever, absent]
    norm_num [charge, refill, pairPolicy]
  have second : (allowForever pairPolicy 601 "late" (Assoc.set others "late" ⟨1, 600⟩)).2 =
      Assoc.set (Assoc.set others "late" ⟨1, 600⟩) "late" ⟨1 / 300, 601⟩ := by
    rw [allowForever, Assoc.get_set_self]
    norm_num [charge, refill, pairPolicy]
  simp only [bucketsForever, foldl_cons, foldl_nil, first, second, Assoc.get_set_self]

theorem crowdedCalls_nonDecreasing (crowd : List String) :
    NonDecreasing (crowdedCalls crowd ++ [⟨601, "late"⟩]) := by
  have crowded : NonDecreasing (crowd.map (⟨1, ·⟩)) :=
    pairwise_map.mpr (pairwise_of_forall fun _ _ => le_refl _)
  rw [crowdedCalls, NonDecreasing, append_assoc, append_assoc, singleton_append, pairwise_cons,
    pairwise_append]
  refine ⟨fun call among => ?_, crowded, by norm_num, fun call among last lastly => ?_⟩
  · rcases mem_append.mp among with among | among
    · obtain ⟨key, -, rfl⟩ := mem_map.mp among
      norm_num
    · norm_num at among
      rcases among with rfl | rfl <;> norm_num
  · obtain ⟨key, -, rfl⟩ := mem_map.mp among
    norm_num at lastly
    rcases lastly with rfl | rfl <;> norm_num

end

/-- A call that found no room leaves no trace: the late key has a bucket and is allowed, and a
limiter that drops nothing and saw the same calls refuses it. -/
theorem room_refusal_forgotten :
    ∃ before : List LimiterCall, NonDecreasing (before ++ [⟨601, "late"⟩]) ∧
      (Assoc.get (bucketsAfter pairPolicy [] before) "late").isSome ∧
      (allow pairPolicy 601 "late" (bucketsAfter pairPolicy [] before)).1 = true ∧
      (allowForever pairPolicy 601 "late" (bucketsForever pairPolicy [] before)).1 = false := by
  obtain ⟨crowd, size, distinct⟩ := exists_crowd (maxRateLimitKeys - 1)
  have full : crowd.length + 1 = maxRateLimitKeys := by rw [size]; rfl
  have held : Assoc.get (bucketsAfter pairPolicy [] (crowdedCalls crowd)) "late" = some ⟨1, 601⟩ := by
    rw [bucketsAfter_crowdedCalls full distinct, ← Assoc.set_of_not_mem (late_not_mem_keys distinct),
      Assoc.get_set_self]
  refine ⟨crowdedCalls crowd, crowdedCalls_nonDecreasing crowd, by rw [held]; rfl, ?_, ?_⟩
  · rw [allow, held]
    norm_num [charge, refill, pairPolicy]
  · rw [allowForever, get_bucketsForever_crowdedCalls distinct]
    norm_num [charge, refill, pairPolicy]

end Scribe.Server
