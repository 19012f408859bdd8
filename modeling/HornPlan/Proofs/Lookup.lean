/-
  HornPlan/Proofs/Lookup.lean
  ===========================
  **Values that are listed with keys.**

  Registries, stores, indexes and the memory of a search are lists of keys with values, in
  which the first entry with a key counts.  These are the facts about `List.lookup` that
  they share.
-/
namespace HornPlan

variable {α β : Type} [DecidableEq α] {l : List (α × β)} {key a : α} {b : β}

theorem lookup_insert : List.lookup a ((key, b) :: l) = if a = key then some b else l.lookup a := by
  by_cases h : a = key
  · subst h
    rw [List.lookup_cons_self, if_pos rfl]
  · have hne : (a == key) = false := beq_eq_false_iff_ne.2 h
    rw [List.lookup_cons, hne, if_neg h]

theorem isSome_lookup : (l.lookup a).isSome ↔ a ∈ l.map Prod.fst := by
  simp only [List.lookup_isSome_iff, List.mem_map, beq_iff_eq, eq_comm (a := a)]

theorem mem_of_lookup (h : l.lookup a = some b) : (a, b) ∈ l := by
  obtain ⟨before, after, hsplit, -⟩ := List.lookup_eq_some_iff.1 h
  rw [hsplit]
  exact List.mem_append_right _ List.mem_cons_self

/-- What is listed under a key is found if nothing else is. -/
theorem lookup_of_mem (h : (a, b) ∈ l) (hunique : ∀ b', (a, b') ∈ l → b' = b) :
    l.lookup a = some b := by
  have hsome : (l.lookup a).isSome := isSome_lookup.2 (List.mem_map_of_mem h)
  obtain ⟨b', hb'⟩ := Option.isSome_iff_exists.1 hsome
  rw [hb', hunique b' (mem_of_lookup hb')]

end HornPlan
