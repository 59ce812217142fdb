/-
# Ordered entries under names

Memberships by set, inputs by variable and the members of a record are all lists of values under
names, in the order in which the names first came.  A name has one value: writing it again keeps
its place and replaces the value.
-/

namespace Graded

/-- Values under names, in order. -/
abbrev Keyed (β : Type) := List (String × β)

namespace Keyed

variable {β : Type}

/-- Writes a value under a name: in place if the name is there, else at the end. -/
def put (key : String) (value : β) : Keyed β → Keyed β
  | [] => [(key, value)]
  | (k, v) :: rest => if k = key then (k, value) :: rest else (k, v) :: put key value rest

/-- The entries of a list of pairs, written one after the other. -/
def ofPairs (pairs : List (String × β)) : Keyed β :=
  pairs.foldl (fun entries p => put p.1 p.2 entries) []

/-- The names, in order. -/
def keys (entries : Keyed β) : List String := entries.map (·.1)

/-- The name has a value. -/
def has (entries : Keyed β) (key : String) : Bool := (entries.lookup key).isSome

@[simp] theorem lookup_put_self (key : String) (value : β) (entries : Keyed β) :
    (put key value entries).lookup key = some value := by
  induction entries with
  | nil => simp [put]
  | cons e rest ih =>
    obtain ⟨k, v⟩ := e
    by_cases h : k = key
    · simp [put, h]
    · have hk : (key == k) = false := by simpa using fun h' => h h'.symm
      simp [put, h, List.lookup_cons, hk, ih]

theorem lookup_put_of_ne {key other : String} (value : β) (entries : Keyed β)
    (h : other ≠ key) : (put key value entries).lookup other = entries.lookup other := by
  induction entries with
  | nil => simp [put, List.lookup_cons, beq_eq_false_iff_ne.mpr h]
  | cons e rest ih =>
    obtain ⟨k, v⟩ := e
    by_cases hk : k = key
    · simp [put, hk, List.lookup_cons, beq_eq_false_iff_ne.mpr h]
    · simp [put, hk, List.lookup_cons, ih]

/-- Writing under a name that is there changes no name. -/
theorem keys_put_of_mem {key : String} (value : β) {entries : Keyed β}
    (h : key ∈ keys entries) : keys (put key value entries) = keys entries := by
  induction entries with
  | nil => simp [keys] at h
  | cons e rest ih =>
    by_cases hk : e.1 = key
    · simp [put, hk, keys]
    · have hr : key ∈ keys rest := by
        have := h
        simp only [keys, List.map_cons, List.mem_cons] at this
        exact this.resolve_left fun h' => hk h'.symm
      have := ih hr
      simp only [keys] at this
      simp [put, hk, keys, this]

/-- Where every name has one value, looking up is membership. -/
theorem lookup_eq_some_iff {entries : Keyed β} (h : entries.keys.Nodup) {key : String}
    {value : β} : entries.lookup key = some value ↔ (key, value) ∈ entries := by
  induction entries with
  | nil => simp
  | cons e rest ih =>
    obtain ⟨k, v⟩ := e
    obtain ⟨hk, hrest⟩ := List.nodup_cons.mp h
    by_cases hkey : key = k
    · subst hkey
      have hnone : (key, value) ∉ rest := fun hmem => hk (List.mem_map.mpr ⟨_, hmem, rfl⟩)
      simp [hnone, eq_comm]
    · rw [List.lookup_cons, beq_eq_false_iff_ne.mpr hkey, ih hrest]
      simp [hkey]

/-- So looking up does not depend on the order of the entries. -/
theorem lookup_perm {entries others : Keyed β} (h : entries.keys.Nodup)
    (hp : entries.Perm others) (key : String) : entries.lookup key = others.lookup key := by
  have hothers : others.keys.Nodup := (hp.map _).nodup_iff.mp h
  refine Option.ext fun value => ?_
  rw [lookup_eq_some_iff h, lookup_eq_some_iff hothers, hp.mem_iff]

end Keyed
end Graded
