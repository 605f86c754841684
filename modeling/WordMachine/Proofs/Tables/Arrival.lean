import Mathlib.Data.List.Induction
import WordMachine.Proofs.Tables

/-!
# Histories of tables

A table is written to and cleared, in any order.  What was written since the
last clearing is its history, and a table is what its history makes of the empty
table, because clearing forgets everything before it.

Two facts about the history of a roster carry what its tables answer.  The keys
stand in the order in which they first arrived, which `FirstArrivals` says
without an algorithm, and the value of a key is the one that was written last.
-/

namespace WordMachine

/-! ## Calls -/

/-- What can be done with a table: write an entry, or clear the table. -/
inductive TableCall (ε : Type) where
  | write (entry : ε)
  | clear

namespace TableCall

variable {ε τ : Type}

/-- The entries written since a clearing, after one more call. -/
def extendHistory (history : List ε) : TableCall ε → List ε
  | .write entry => history ++ [entry]
  | .clear => []

/-- The entries written since the last clearing, in order. -/
def history (calls : List (TableCall ε)) : List ε :=
  calls.foldl extendHistory []

theorem history_concat (calls : List (TableCall ε)) (call : TableCall ε) :
    history (calls ++ [call]) = call.extendHistory (history calls) := by
  rw [history, List.foldl_append]
  rfl

/-- The entries are those written behind the last clearing, or all if there was none. -/
def SinceClear (calls : List (TableCall ε)) (written : List ε) : Prop :=
  calls = written.map .write ∨ ∃ earlier, calls = earlier ++ .clear :: written.map .write

theorem SinceClear.concat
    {calls : List (TableCall ε)} {written : List ε} (since : SinceClear calls written)
    (call : TableCall ε) :
    SinceClear (calls ++ [call]) (call.extendHistory written) := by
  cases call with
  | clear => exact .inr ⟨calls, rfl⟩
  | write entry =>
      rcases since with rfl | ⟨earlier, rfl⟩
      · exact .inl (by simp [extendHistory])
      · exact .inr ⟨earlier, by simp [extendHistory]⟩

theorem sinceClear_history (calls : List (TableCall ε)) : SinceClear calls (history calls) := by
  induction calls using List.reverseRecOn with
  | nil => exact .inl rfl
  | append_singleton earlier call since =>
      rw [history_concat]
      exact since.concat call

/-- The table after a call. -/
def after (write : τ → ε → τ) (empty table : τ) : TableCall ε → τ
  | .write entry => write table entry
  | .clear => empty

/-- The table after calls on an empty table. -/
def afterAll (write : τ → ε → τ) (empty : τ) (calls : List (TableCall ε)) : τ :=
  calls.foldl (after write empty) empty

/-- A call does to a table what it does to the history of the table. -/
theorem after_foldl (write : τ → ε → τ) (empty : τ) (written : List ε) (call : TableCall ε) :
    call.after write empty (written.foldl write empty) =
      (call.extendHistory written).foldl write empty := by
  cases call with
  | write entry =>
      rw [extendHistory, List.foldl_append]
      rfl
  | clear => rfl

/-- A table is what its history makes of the empty table. -/
theorem afterAll_eq_foldl_history
    (write : τ → ε → τ) (empty : τ) (calls : List (TableCall ε)) :
    afterAll write empty calls = (history calls).foldl write empty := by
  induction calls using List.reverseRecOn with
  | nil => rfl
  | append_singleton earlier call earlierHolds =>
      rw [history_concat, ← after_foldl, ← earlierHolds, afterAll, List.foldl_append]
      rfl

end TableCall

/-! ## Order of arrival -/

/-- The elements of a sequence, each listed once, in the order of their first occurrences. -/
structure FirstArrivals {α : Type} [DecidableEq α] (listed sequence : List α) : Prop where
  mem_iff : ∀ element, element ∈ listed ↔ element ∈ sequence
  ascending : listed.Pairwise (fun left right => sequence.idxOf left < sequence.idxOf right)

namespace FirstArrivals

variable {α : Type} [DecidableEq α] {listed sequence : List α}

theorem nodup (arrivals : FirstArrivals listed sequence) : listed.Nodup := by
  apply arrivals.ascending.imp
  rintro left right before rfl
  exact Nat.lt_irrefl _ before

theorem nil : FirstArrivals ([] : List α) [] :=
  ⟨fun _ => Iff.rfl, List.Pairwise.nil⟩

/-- What follows in a sequence does not change where its elements first occur. -/
theorem idxOf_append
    (arrivals : FirstArrivals listed sequence) {element : α} (known : element ∈ listed)
    (more : List α) :
    (sequence ++ more).idxOf element = sequence.idxOf element := by
  rw [List.idxOf_append, if_pos ((arrivals.mem_iff element).mp known)]

theorem ascending_append
    (arrivals : FirstArrivals listed sequence) (more : List α) :
    listed.Pairwise
      (fun left right => (sequence ++ more).idxOf left < (sequence ++ more).idxOf right) := by
  apply arrivals.ascending.imp_of_mem
  intro left right leftListed rightListed before
  rw [arrivals.idxOf_append leftListed, arrivals.idxOf_append rightListed]
  exact before

theorem concat_of_mem
    (arrivals : FirstArrivals listed sequence) {element : α} (known : element ∈ listed) :
    FirstArrivals listed (sequence ++ [element]) where
  mem_iff := by
    intro other
    rw [arrivals.mem_iff, List.mem_append, List.mem_singleton]
    constructor
    · exact .inl
    · rintro (old | rfl)
      · exact old
      · exact (arrivals.mem_iff other).mp known
  ascending := arrivals.ascending_append [element]

theorem concat_of_not_mem
    (arrivals : FirstArrivals listed sequence) {element : α} (fresh : element ∉ listed) :
    FirstArrivals (listed ++ [element]) (sequence ++ [element]) where
  mem_iff := by
    intro other
    rw [List.mem_append, List.mem_append, arrivals.mem_iff]
  ascending := by
    rw [List.pairwise_append]
    refine ⟨arrivals.ascending_append [element], List.pairwise_singleton _ _, ?_⟩
    intro old oldListed new newListed
    rw [List.mem_singleton] at newListed
    subst newListed
    have unseen : new ∉ sequence := fun member => fresh ((arrivals.mem_iff new).mpr member)
    -- The new element first occurs behind the sequence, all others inside it.
    calc (sequence ++ [new]).idxOf old
        = sequence.idxOf old := arrivals.idxOf_append oldListed [new]
      _ < sequence.length := List.idxOf_lt_length_of_mem ((arrivals.mem_iff old).mp oldListed)
      _ ≤ (sequence ++ [new]).idxOf new := by
          rw [List.idxOf_append, if_neg unseen]
          exact Nat.le_add_left _ _

end FirstArrivals

namespace Roster

variable {κ ν : Type} [DecidableEq κ]

/-- An update of a key is one more arrival of the key. -/
theorem firstArrivals_update
    {roster : Roster κ ν} {arrived : List κ} (arrivals : FirstArrivals roster.keys arrived)
    (key : κ) (initial : ν) (change : ν → ν) :
    FirstArrivals (roster.update key initial change).keys (arrived ++ [key]) := by
  by_cases known : key ∈ roster.keys
  · rw [keys_update_of_mem known]
    exact arrivals.concat_of_mem known
  · rw [keys_update_of_not_mem known]
    exact arrivals.concat_of_not_mem known

/-- A roster lists its keys in the order in which the updates first named them. -/
theorem firstArrivals_foldl_update
    {ε : Type} (keyOf : ε → κ) (initial : ε → ν) (change : ε → ν → ν) (history : List ε) :
    FirstArrivals
      (history.foldl
        (fun roster entry => roster.update (keyOf entry) (initial entry) (change entry)) empty).keys
      (history.map keyOf) := by
  induction history using List.reverseRecOn with
  | nil => exact .nil
  | append_singleton earlier entry arrivals =>
      rw [List.foldl_append, List.map_append]
      exact firstArrivals_update arrivals (keyOf entry) (initial entry) (change entry)

/-- The value of a key is the one that was written last. -/
theorem get?_foldl_insert
    {ε : Type} (keyOf : ε → κ) (valueOf : ε → ν) (history : List ε) (key : κ) :
    (history.foldl (fun roster entry => roster.insert (keyOf entry) (valueOf entry))
        empty).get? key =
      (history.filter (fun entry => keyOf entry = key)).getLast?.map valueOf := by
  induction history using List.reverseRecOn with
  | nil => rfl
  | append_singleton earlier entry earlierHolds =>
      rw [List.foldl_append, List.foldl_cons, List.foldl_nil, get?_insert, List.filter_append]
      by_cases same : keyOf entry = key
      · simp [same]
      · rw [if_neg (Ne.symm same), earlierHolds]
        simp [same]

end Roster

end WordMachine
