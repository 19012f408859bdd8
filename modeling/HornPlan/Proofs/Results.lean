/-
  HornPlan/Proofs/Results.lean
  ============================
  **Results, one after the other.**

  A computation either has a result or an error, and the first error ends a sequence of
  them.  These are the facts about sequences that reading documents, checking tasks and
  running plans share.  That all items of a list have results is written as an equation,
  `as.map f = bs.map .ok`.
-/
import HornPlan.Error

namespace HornPlan

variable {ε α β γ : Type}

/-! ### Two in sequence -/

theorem isOk_iff {x : Except ε α} : x.isOk = true ↔ ∃ a, x = .ok a := by
  cases x with
  | error e => exact ⟨fun h => (nomatch h), fun ⟨_, h⟩ => nomatch h⟩
  | ok a => exact ⟨fun _ => ⟨a, rfl⟩, fun _ => rfl⟩

theorem toOption_eq_some_iff {x : Except ε α} {a : α} : x.toOption = some a ↔ x = .ok a := by
  cases x with
  | error e => exact ⟨nofun, nofun⟩
  | ok b =>
    exact ⟨fun h => congrArg Except.ok (Option.some.inj h), fun h => congrArg some (Except.ok.inj h)⟩

/-- A result of which something is true is a result. -/
theorem any_toOption_iff {x : Except ε α} {p : α → Bool} :
    x.toOption.any p = true ↔ ∃ a, x = .ok a ∧ p a = true := by
  simp only [Option.any_eq_true, toOption_eq_some_iff]

theorem bind_eq_ok {x : Except ε α} {f : α → Except ε β} {b : β} :
    (x >>= f) = .ok b ↔ ∃ a, x = .ok a ∧ f a = .ok b := by
  cases x with
  | error e =>
    constructor
    · exact fun h => nomatch h
    · rintro ⟨a, ha, -⟩
      cases ha
  | ok a =>
    constructor
    · exact fun h => ⟨a, rfl, h⟩
    · rintro ⟨a', ha, h⟩
      cases ha
      exact h

theorem bind_eq_error {x : Except ε α} {f : α → Except ε β} {e : ε} :
    (x >>= f) = .error e ↔ x = .error e ∨ ∃ a, x = .ok a ∧ f a = .error e := by
  cases x with
  | error e' =>
    constructor
    · rintro ⟨⟩
      exact Or.inl rfl
    · rintro (⟨⟨⟩⟩ | ⟨a, ha, -⟩)
      · rfl
      · cases ha
  | ok a =>
    constructor
    · exact fun h => Or.inr ⟨a, rfl, h⟩
    · rintro (h | ⟨a', ha, h⟩)
      · cases h
      · cases ha
        exact h

theorem Registration.result_eq_ok {σ : Type} {r : Registration σ} {s : σ} :
    r.result = .ok s ↔ r.1 = .ok () ∧ r.2 = s := by
  obtain ⟨e | ⟨⟩, s'⟩ := r
  · exact ⟨nofun, nofun⟩
  · exact ⟨fun h => ⟨rfl, Except.ok.inj h⟩, fun h => congrArg Except.ok h.2⟩

/-! ### The results of a list -/

section Items

variable {f : α → Except ε β} {as : List α} {bs : List β}

theorem mapM_eq_ok : as.mapM f = .ok bs ↔ as.map f = bs.map .ok := by
  induction as generalizing bs with
  | nil =>
    rw [List.mapM_nil, List.map_nil]
    cases bs with
    | nil => exact ⟨fun _ => rfl, fun _ => rfl⟩
    | cons b bs => exact ⟨fun h => (by cases h), fun h => (by cases h)⟩
  | cons a rest ih =>
    rw [List.mapM_cons, bind_eq_ok, List.map_cons]
    constructor
    · rintro ⟨b, ha, h⟩
      obtain ⟨bs', hrest, h⟩ := bind_eq_ok.1 h
      cases h
      rw [ha, ih.1 hrest, List.map_cons]
    · intro h
      cases bs with
      | nil => cases h
      | cons b bs =>
        simp only [List.map_cons, List.cons.injEq] at h
        exact ⟨b, h.1, bind_eq_ok.2 ⟨bs, ih.2 h.2, rfl⟩⟩

/-- Every result comes from an item. -/
theorem exists_of_map_eq (h : as.map f = bs.map .ok) {b : β} (hb : b ∈ bs) :
    ∃ a ∈ as, f a = .ok b := by
  have hmem : Except.ok b ∈ as.map f := h ▸ List.mem_map_of_mem hb
  obtain ⟨a, ha, hfa⟩ := List.mem_map.1 hmem
  exact ⟨a, ha, hfa⟩

/-- Every item has a result. -/
theorem exists_result_of_map_eq (h : as.map f = bs.map .ok) {a : α} (ha : a ∈ as) :
    ∃ b ∈ bs, f a = .ok b := by
  have hmem : f a ∈ bs.map .ok := h ▸ List.mem_map_of_mem ha
  obtain ⟨b, hb, hfa⟩ := List.mem_map.1 hmem
  exact ⟨b, hb, hfa.symm⟩

/-- What each item determines of its result, the items determine of the results. -/
theorem map_eq_of_map_eq {g : β → γ} {k : α → γ} (h : as.map f = bs.map .ok)
    (hstep : ∀ a b, f a = .ok b → g b = k a) : bs.map g = as.map k := by
  induction as generalizing bs with
  | nil =>
    cases bs with
    | nil => rfl
    | cons b bs => cases h
  | cons a as ih =>
    cases bs with
    | nil => cases h
    | cons b bs =>
      simp only [List.map_cons, List.cons.injEq] at h
      rw [List.map_cons, List.map_cons, hstep a b h.1, ih h.2]

/-- Results in another order are those of the items in another order. -/
theorem exists_results_of_perm {as' : List α} (hperm : as.Perm as') (h : as.map f = bs.map .ok) :
    ∃ bs', as'.map f = bs'.map .ok ∧ bs.Perm bs' := by
  induction hperm generalizing bs with
  | nil => exact ⟨bs, h, .refl bs⟩
  | cons a _ ih =>
    cases bs with
    | nil => cases h
    | cons b bs =>
      simp only [List.map_cons, List.cons.injEq] at h
      obtain ⟨bs', hbs', hperm⟩ := ih h.2
      exact ⟨b :: bs', by rw [List.map_cons, h.1, hbs', List.map_cons], hperm.cons b⟩
  | swap a a' as =>
    rcases bs with _ | ⟨b, _ | ⟨b', bs⟩⟩
    · cases h
    · simp at h
    · simp only [List.map_cons, List.cons.injEq] at h
      obtain ⟨hb, hb', hbs⟩ := h
      exact ⟨b' :: b :: bs, by simp only [List.map_cons, hb, hb', hbs], .swap b' b bs⟩
  | trans _ _ ih ih' =>
    obtain ⟨bs', h', hperm⟩ := ih h
    obtain ⟨bs'', h'', hperm'⟩ := ih' h'
    exact ⟨bs'', h'', hperm.trans hperm'⟩

end Items

/-! ### The checks of a list -/

section Checks

variable {f : α → Except ε Unit}

theorem forM_eq_ok {as : List α} : as.forM f = .ok () ↔ ∀ a ∈ as, f a = .ok () := by
  induction as with
  | nil => exact ⟨fun _ a ha => (nomatch ha), fun _ => rfl⟩
  | cons a rest ih =>
    have hcons : (a :: rest).forM f = (f a >>= fun _ => rest.forM f) := rfl
    rw [hcons, bind_eq_ok, List.forall_mem_cons]
    constructor
    · rintro ⟨_, ha, hrest⟩
      exact ⟨ha, ih.1 hrest⟩
    · rintro ⟨ha, hrest⟩
      exact ⟨(), ha, ih.2 hrest⟩

/-- The first check that fails is the one that is reported. -/
theorem forM_eq_error {before after : List α} {a : α} {e : ε}
    (hbefore : ∀ b ∈ before, f b = .ok ()) (ha : f a = .error e) :
    (before ++ a :: after).forM f = .error e := by
  induction before with
  | nil =>
    change (f a >>= fun _ => after.forM f) = .error e
    rw [ha]
    rfl
  | cons b rest ih =>
    obtain ⟨hb, hrest⟩ := List.forall_mem_cons.1 hbefore
    change (f b >>= fun _ => (rest ++ a :: after).forM f) = .error e
    rw [hb]
    exact ih hrest

end Checks

end HornPlan
