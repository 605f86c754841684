/-!
# Tables in order of arrival

A roster maps keys to values and lists its keys in the order in which they
first arrived.  Writing to a key that is present keeps its place; a new key
goes to the end.  Keys are distinct by construction, so a roster is the same
value as the list of its entries.
-/

namespace WordMachine

/-- A finite map whose entries stand in the order in which their keys first arrived. -/
structure Roster (κ ν : Type) where
  entries : List (κ × ν)
  distinct : (entries.map Prod.fst).Nodup

namespace Roster

variable {κ ν : Type}

@[ext]
theorem ext {left right : Roster κ ν} (same : left.entries = right.entries) : left = right := by
  cases left
  cases right
  cases same
  rfl

/-- The roster without entries. -/
def empty : Roster κ ν := ⟨[], List.nodup_nil⟩

/-- The keys in order of arrival. -/
def keys (roster : Roster κ ν) : List κ := roster.entries.map Prod.fst

/-- The number of keys. -/
def size (roster : Roster κ ν) : Nat := roster.entries.length

variable [DecidableEq κ]

/-- The value of a key, if the key is present. -/
def get? (roster : Roster κ ν) (key : κ) : Option ν := roster.entries.lookup key

/-- Whether a key is present. -/
def contains (roster : Roster κ ν) (key : κ) : Bool :=
  roster.entries.any (fun entry => entry.1 == key)

theorem contains_eq_true_iff (roster : Roster κ ν) (key : κ) :
    roster.contains key = true ↔ key ∈ roster.keys := by
  simp [contains, keys]

/-- The entries after the value of a present key was changed. -/
def changeEntries (entries : List (κ × ν)) (key : κ) (change : ν → ν) : List (κ × ν) :=
  entries.map (fun entry => if entry.1 = key then (entry.1, change entry.2) else entry)

omit [DecidableEq κ] in
theorem nodup_keys_append
    {entries more : List (κ × ν)}
    (distinct : (entries.map Prod.fst).Nodup)
    (moreDistinct : (more.map Prod.fst).Nodup)
    (fresh : ∀ entry ∈ more, entry.1 ∉ entries.map Prod.fst) :
    ((entries ++ more).map Prod.fst).Nodup := by
  rw [List.map_append, List.nodup_append]
  refine ⟨distinct, moreDistinct, ?_⟩
  intro key inEntries other inMore equal
  obtain ⟨entry, member, rfl⟩ := List.mem_map.mp inMore
  exact fresh entry member (equal ▸ inEntries)

theorem map_fst_changeEntries (entries : List (κ × ν)) (key : κ) (change : ν → ν) :
    (changeEntries entries key change).map Prod.fst = entries.map Prod.fst := by
  simp only [changeEntries, List.map_map]
  apply List.map_congr_left
  intro entry _
  simp only [Function.comp_apply]
  split <;> rfl

/-- Append entries whose keys are new and different from each other. -/
def append (roster : Roster κ ν) (more : List (κ × ν))
    (moreDistinct : (more.map Prod.fst).Nodup)
    (fresh : ∀ entry ∈ more, entry.1 ∉ roster.keys) : Roster κ ν where
  entries := roster.entries ++ more
  distinct := nodup_keys_append roster.distinct moreDistinct fresh

/--
Give `key` the value `change old` if it is present with the value `old`, and
otherwise enter it at the end with the value `initial`.
-/
def update (roster : Roster κ ν) (key : κ) (initial : ν) (change : ν → ν) : Roster κ ν :=
  if present : roster.contains key = true then
    { entries := changeEntries roster.entries key change
      distinct := by
        rw [map_fst_changeEntries]
        exact roster.distinct }
  else
    roster.append [(key, initial)] (by simp)
      (by
        intro entry member
        rw [List.mem_singleton] at member
        subst member
        exact fun inKeys => present ((roster.contains_eq_true_iff key).mpr inKeys))

/-- Give a key a value, whatever it had before. -/
def insert (roster : Roster κ ν) (key : κ) (value : ν) : Roster κ ν :=
  roster.update key value (fun _ => value)

theorem keys_update_of_mem
    {roster : Roster κ ν} {key : κ} (present : key ∈ roster.keys)
    (initial : ν) (change : ν → ν) :
    (roster.update key initial change).keys = roster.keys := by
  have found := (roster.contains_eq_true_iff key).mpr present
  simp [update, found, keys, map_fst_changeEntries]

theorem keys_update_of_not_mem
    {roster : Roster κ ν} {key : κ} (absent : key ∉ roster.keys)
    (initial : ν) (change : ν → ν) :
    (roster.update key initial change).keys = roster.keys ++ [key] := by
  have notFound : ¬ roster.contains key = true :=
    fun found => absent ((roster.contains_eq_true_iff key).mp found)
  simp [update, notFound, keys, append]

end Roster

end WordMachine
