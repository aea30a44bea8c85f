import Mathlib.Data.List.Nodup

/-! # Association lists

A list of keys with their values. A lookup takes the first entry of its key, which is the
only one where the keys are distinct.
-/

namespace Oasi

/-- Where the keys are distinct a lookup finds each entry. -/
theorem lookup_eq_some_iff_mem {α β : Type} [BEq α] [LawfulBEq α] {entries : List (α × β)}
    {key : α} {value : β} (hnodup : (entries.map Prod.fst).Nodup) :
    entries.lookup key = some value ↔ (key, value) ∈ entries := by
  induction entries with
  | nil => simp
  | cons entry entries ih =>
      obtain ⟨name, found⟩ := entry
      rw [List.map_cons, List.nodup_cons] at hnodup
      rw [List.lookup_cons, List.mem_cons, Prod.mk.injEq]
      by_cases hkey : key = name
      · subst hkey
        have hfresh : (key, value) ∉ entries := fun hmem =>
          hnodup.1 (List.mem_map.mpr ⟨_, hmem, rfl⟩)
        simp [hfresh, eq_comm]
      · simp [hkey, beq_eq_false_iff_ne.mpr hkey, ih hnodup.2]

/-- A key is there when a lookup finds it. -/
theorem mem_map_fst_iff {α β : Type} [BEq α] [LawfulBEq α] {entries : List (α × β)} {key : α} :
    key ∈ entries.map Prod.fst ↔ ∃ value, entries.lookup key = some value := by
  rw [← Option.isSome_iff_exists, List.lookup_isSome_iff, List.mem_map]
  simp only [beq_iff_eq, @eq_comm _ key]

end Oasi
