/-!
# Bindings of keys

A finite map from keys, each bound at most once.  Binding a key again replaces its value.  A
registry of rules (`with`, `get`), a context and the files of a workspace are such maps.

Principal result: `get?_insert` — the last value bound to a key is the one found.
-/

namespace PureContracts

/-- A finite map from keys. -/
structure Bindings (κ α : Type) where
  entries : List (κ × α)
  /-- No key is bound twice. -/
  distinct : (entries.map Prod.fst).Nodup

namespace Bindings

variable {κ α : Type} [DecidableEq κ]

/-- No key is bound. -/
def empty : Bindings κ α := ⟨[], List.nodup_nil⟩

/-- The entries of other keys. -/
def others (bindings : Bindings κ α) (key : κ) : List (κ × α) :=
  bindings.entries.filter fun entry => entry.1 != key

/-- Binds a key, in place of what it was bound to before. -/
def insert (bindings : Bindings κ α) (key : κ) (value : α) : Bindings κ α where
  entries := (key, value) :: bindings.others key
  distinct := by
    have hsub : ((bindings.others key).map Prod.fst).Sublist
        (bindings.entries.map Prod.fst) := List.filter_sublist.map _
    refine List.nodup_cons.mpr ⟨?_, bindings.distinct.sublist hsub⟩
    simp [others]

/-- The value of a key. -/
def get? (bindings : Bindings κ α) (key : κ) : Option α := bindings.entries.lookup key

/-- The number of bound keys. -/
def size (bindings : Bindings κ α) : Nat := bindings.entries.length

/-- Whether no key is bound. -/
def isEmpty (bindings : Bindings κ α) : Bool := bindings.entries.isEmpty

/-- Binds keys one after the other. -/
def insertAll (bindings : Bindings κ α) (pairs : List (κ × α)) : Bindings κ α :=
  pairs.foldl (fun bindings pair => bindings.insert pair.1 pair.2) bindings

/-- The map that a list of pairs describes; of two pairs with one key the later counts. -/
def ofList (pairs : List (κ × α)) : Bindings κ α := empty.insertAll pairs

@[simp] theorem get?_empty (key : κ) : (empty : Bindings κ α).get? key = none := rfl

theorem mem_of_get? {bindings : Bindings κ α} {key : κ} {value : α}
    (h : bindings.get? key = some value) : (key, value) ∈ bindings.entries := by
  obtain ⟨before, after, hentries, -⟩ := List.lookup_eq_some_iff.mp h
  rw [hentries]
  simp

theorem get?_of_mem {bindings : Bindings κ α} {key : κ} {value : α}
    (h : (key, value) ∈ bindings.entries) : bindings.get? key = some value := by
  obtain ⟨before, after, hentries⟩ := List.append_of_mem h
  have hdistinct := bindings.distinct
  rw [hentries, List.map_append, List.map_cons, List.nodup_append] at hdistinct
  refine List.lookup_eq_some_iff.mpr ⟨before, after, hentries, fun entry hentry => ?_⟩
  have hne : entry.1 ≠ key :=
    hdistinct.2.2 entry.1 (List.mem_map_of_mem hentry) key List.mem_cons_self
  simpa using Ne.symm hne

theorem lookup_filter_of_ne {key other : κ} (h : other ≠ key) (entries : List (κ × α)) :
    (entries.filter fun entry => entry.1 != key).lookup other = entries.lookup other := by
  induction entries with
  | nil => rfl
  | cons entry rest ih =>
    obtain ⟨first, value⟩ := entry
    by_cases hfirst : first = key
    · subst hfirst
      have hother : (other == first) = false := by simpa using h
      simp [List.lookup_cons, hother, ih]
    · simp only [List.filter_cons, bne_iff_ne, ne_eq, hfirst, not_false_eq_true, if_true,
        List.lookup_cons, ih]

/-- The last value bound to a key is the one found. -/
theorem get?_insert (bindings : Bindings κ α) (key other : κ) (value : α) :
    (bindings.insert key value).get? other =
      if other = key then some value else bindings.get? other := by
  by_cases h : other = key
  · subst h
    simp [get?, insert]
  · have hother : (other == key) = false := by simpa using h
    simp [get?, insert, others, List.lookup_cons, hother, h, lookup_filter_of_ne h]

end Bindings

end PureContracts
