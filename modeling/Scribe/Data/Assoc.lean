import Mathlib.Data.List.Nodup
import Mathlib.Data.List.Basic

/-! Finite maps as ordered association lists.

Setting a present key keeps its position and setting an absent one appends, so
the entries are listed in order of first insertion. A consumer that ignores the
order sees an ordinary finite map.
-/

set_option autoImplicit false

namespace Scribe.Assoc

open List

variable {κ α : Type} [DecidableEq κ]

def get : List (κ × α) → κ → Option α
  | [], _ => none
  | (k, v) :: rest, key => if k = key then some v else get rest key

def set : List (κ × α) → κ → α → List (κ × α)
  | [], key, value => [(key, value)]
  | (k, v) :: rest, key, value =>
      if k = key then (k, value) :: rest else (k, v) :: set rest key value

def erase (entries : List (κ × α)) (key : κ) : List (κ × α) :=
  entries.filter fun entry => entry.1 ≠ key

def keys (entries : List (κ × α)) : List κ := entries.map Prod.fst

def values (entries : List (κ × α)) : List α := entries.map Prod.snd

/-- Insert entries from left to right; a later entry replaces an earlier value. -/
def ofEntries (entries : List (κ × α)) : List (κ × α) :=
  entries.foldl (fun acc entry => set acc entry.1 entry.2) []

@[simp] theorem get_nil (key : κ) : get ([] : List (κ × α)) key = none := rfl

theorem get_set (entries : List (κ × α)) (key other : κ) (value : α) :
    get (set entries key value) other = if key = other then some value else get entries other := by
  induction entries with
  | nil => rfl
  | cons entry rest ih =>
    obtain ⟨k, v⟩ := entry
    by_cases same : k = key
    · subst same
      by_cases found : k = other <;> simp [set, get, found]
    · by_cases found : k = other
      · subst found
        simp [set, get, same, Ne.symm same]
      · simp [set, get, same, found, ih]

@[simp] theorem get_set_self (entries : List (κ × α)) (key : κ) (value : α) :
    get (set entries key value) key = some value := by
  simp [get_set]

theorem get_set_of_ne (entries : List (κ × α)) {key other : κ} (value : α) (apart : key ≠ other) :
    get (set entries key value) other = get entries other := by
  simp [get_set, apart]

theorem set_set (entries : List (κ × α)) (key : κ) (first second : α) :
    set (set entries key first) key second = set entries key second := by
  induction entries with
  | nil => simp [set]
  | cons entry rest ih =>
    obtain ⟨k, v⟩ := entry
    by_cases same : k = key
    · simp [set, same]
    · simp [set, same, ih]

theorem set_of_get {entries : List (κ × α)} {key : κ} {value : α}
    (found : get entries key = some value) : set entries key value = entries := by
  induction entries with
  | nil => cases found
  | cons entry rest ih =>
    obtain ⟨k, v⟩ := entry
    by_cases same : k = key
    · simp_all [set, get]
    · simp_all [set, get]

theorem get_append_cons_of_ne (before after : List (κ × α)) {key other : κ} (old new : α)
    (apart : key ≠ other) :
    get (before ++ (key, old) :: after) other = get (before ++ (key, new) :: after) other := by
  induction before with
  | nil => simp [get, apart]
  | cons entry rest ih => simp only [cons_append, get, ih]

theorem get_erase (entries : List (κ × α)) (key other : κ) :
    get (erase entries key) other = if key = other then none else get entries other := by
  induction entries with
  | nil => simp [erase, get]
  | cons entry rest ih =>
    obtain ⟨k, v⟩ := entry
    have step : erase ((k, v) :: rest) key =
        if k = key then erase rest key else (k, v) :: erase rest key := by
      by_cases same : k = key <;> simp [erase, same]
    rw [step]
    by_cases same : k = key
    · subst same
      rw [if_pos rfl, ih]
      by_cases found : k = other <;> simp [get, found]
    · by_cases found : k = other
      · subst found
        simp [get, same, Ne.symm same]
      · simp [get, same, found, ih]

theorem get_eq_none_iff (entries : List (κ × α)) (key : κ) : get entries key = none ↔
      key ∉ keys entries := by
  induction entries with
  | nil => simp [keys, get]
  | cons entry rest ih =>
    obtain ⟨k, v⟩ := entry
    by_cases same : k = key
    · simp [get, keys, same]
    · simp only [keys] at ih
      simp [get, keys, same, ih, Ne.symm same]

theorem get_isSome_iff (entries : List (κ × α)) (key : κ) : (get entries key).isSome = true ↔
      key ∈ keys entries := by
  have absent := get_eq_none_iff entries key
  cases found : get entries key with
  | none => simpa using absent.mp found
  | some value =>
    refine ⟨fun _ => ?_, fun _ => rfl⟩
    by_contra missing
    rw [absent.mpr missing] at found
    cases found

theorem mem_of_get {entries : List (κ × α)} {key : κ} {value : α}
    (found : get entries key = some value) : (key, value) ∈ entries := by
  induction entries with
  | nil => simp at found
  | cons entry rest ih =>
    obtain ⟨k, v⟩ := entry
    by_cases same : k = key
    · subst same
      simp only [get, if_true, Option.some.injEq] at found
      simp [found]
    · simp only [get, same, if_false] at found
      exact mem_cons_of_mem _ (ih found)

theorem get_of_mem {entries : List (κ × α)} (distinct : (keys entries).Nodup) {key : κ} {value : α}
    (member : (key, value) ∈ entries) : get entries key = some value := by
  induction entries with
  | nil => simp at member
  | cons entry rest ih =>
    obtain ⟨k, v⟩ := entry
    simp only [keys, map_cons, nodup_cons] at distinct
    rcases mem_cons.mp member with same | member
    · obtain ⟨rfl, rfl⟩ := Prod.mk.inj same
      simp [get]
    · have apart : k ≠ key := by
        rintro rfl
        exact distinct.1 (mem_map.mpr ⟨_, member, rfl⟩)
      simp only [get, apart, if_false]
      exact ih distinct.2 member

theorem mem_set {entries : List (κ × α)} {key : κ} {value : α} {entry : κ × α}
    (member : entry ∈ set entries key value) : entry = (key, value) ∨ entry ∈ entries := by
  induction entries with
  | nil => exact .inl (mem_singleton.mp member)
  | cons first rest ih =>
    obtain ⟨k, v⟩ := first
    by_cases same : k = key
    · simp only [set, same, if_true, mem_cons] at member
      exact member.imp_right (mem_cons_of_mem _)
    · simp only [set, same, if_false, mem_cons] at member
      rcases member with here | there
      · exact .inr (here ▸ mem_cons_self)
      · exact (ih there).imp_right (mem_cons_of_mem _)

theorem keys_set (entries : List (κ × α)) (key : κ) (value : α) :
    keys (set entries key value) = if key ∈ keys entries then keys entries
      else keys entries ++ [key] := by
  induction entries with
  | nil => simp [set, keys]
  | cons entry rest ih =>
    obtain ⟨k, v⟩ := entry
    by_cases same : k = key
    · simp [set, keys, same]
    · simp only [keys] at ih
      by_cases member : key ∈ rest.map Prod.fst
      · simp [set, keys, same, ih, member]
      · simp [set, keys, same, ih, member, Ne.symm same]

theorem mem_keys_set (entries : List (κ × α)) (key other : κ) (value : α) :
    other ∈ keys (set entries key value) ↔ other ∈ keys entries ∨ other = key := by
  rw [keys_set]
  by_cases member : key ∈ keys entries
  · simp only [member, if_true]
    exact ⟨Or.inl, fun found => found.elim id (fun same => same ▸ member)⟩
  · simp [member]

theorem nodup_keys_set {entries : List (κ × α)} (distinct : (keys entries).Nodup)
    (key : κ) (value : α) : (keys (set entries key value)).Nodup := by
  rw [keys_set]
  by_cases member : key ∈ keys entries
  · simpa [member] using distinct
  · rw [if_neg member, nodup_append]
    refine ⟨distinct, nodup_singleton key, ?_⟩
    intro a present b single same
    rw [mem_singleton] at single
    exact member (single ▸ same ▸ present)

theorem set_of_not_mem {entries : List (κ × α)} {key : κ} (absent : key ∉ keys entries) (value : α) :
    set entries key value = entries ++ [(key, value)] := by
  induction entries with
  | nil => rfl
  | cons entry rest ih =>
    obtain ⟨k, v⟩ := entry
    simp only [keys, map_cons, mem_cons, not_or] at absent
    simp [set, Ne.symm absent.1, ih absent.2]

theorem foldl_set_of_nodup (entries acc : List (κ × α)) (distinct : (keys (acc ++ entries)).Nodup) :
    entries.foldl (fun acc entry => set acc entry.1 entry.2) acc = acc ++ entries := by
  induction entries generalizing acc with
  | nil => simp
  | cons entry rest ih =>
    have absent : entry.1 ∉ keys acc := by
      simp only [keys, map_append, map_cons, nodup_append, mem_cons] at distinct
      exact fun member => distinct.2.2 _ member _ (Or.inl rfl) rfl
    rw [foldl_cons, set_of_not_mem absent, ih]
    · simp
    · simpa using distinct

theorem ofEntries_of_nodup {entries : List (κ × α)} (distinct : (keys entries).Nodup) :
    ofEntries entries = entries := by
  simpa [ofEntries] using foldl_set_of_nodup entries [] (by simpa using distinct)

theorem nodup_keys_ofEntries (entries : List (κ × α)) : (keys (ofEntries entries)).Nodup := by
  suffices general : ∀ acc : List (κ × α), (keys acc).Nodup →
      (keys (entries.foldl (fun acc entry => set acc entry.1 entry.2) acc)).Nodup from
    general [] (by simp [keys])
  induction entries with
  | nil => exact fun _ distinct => distinct
  | cons entry rest ih => exact fun acc distinct => ih _ (nodup_keys_set distinct _ _)

end Scribe.Assoc
