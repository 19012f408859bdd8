/-
  HornPlan/Proofs/Plan/Verification.lean
  ======================================
  **What it takes for a plan to verify.**

  `verifySteps` runs through the steps with a growing list of slots.  What the list
  holds at a step is what was filled at the start or is the output of an earlier step
  (`Filled`).  So a plan verifies exactly if every step finds its input filled by what
  comes before it, and its output slot is filled by the whole plan
  (`verifyFrom_eq_ok`).
-/
import HornPlan.Plan

namespace HornPlan.Plan

/-- Is the slot filled at the start, or by one of some steps? -/
def Filled (start : List Tuple) (steps : List Step) (t : Tuple) : Prop :=
  t ∈ start ∨ ∃ s ∈ steps, s.output = t

theorem mem_hold {held : List Tuple} {t u : Tuple} : t ∈ hold held u ↔ t ∈ held ∨ t = u := by
  unfold hold
  split
  · rename_i hmem
    exact ⟨Or.inl, fun h => h.elim id fun h => h ▸ hmem⟩
  · rw [List.mem_append, List.mem_singleton]

theorem filled_cons {start : List Tuple} {s : Step} {steps : List Step} {t : Tuple} :
    Filled start (s :: steps) t ↔ Filled (hold start s.output) steps t := by
  simp only [Filled, mem_hold, List.mem_cons, or_and_right, exists_or, exists_eq_left, or_assoc,
    eq_comm (a := t)]

theorem mem_foldl_hold {ts held : List Tuple} {t : Tuple} :
    t ∈ ts.foldl hold held ↔ t ∈ held ∨ t ∈ ts := by
  induction ts generalizing held with
  | nil => exact ⟨Or.inl, fun h => h.elim id fun h => nomatch h⟩
  | cons u rest ih => rw [List.foldl_cons, ih, mem_hold, List.mem_cons, or_assoc]

/-- The steps can be run through exactly if each finds its input filled, and then the
    slots that are held at the end are the filled ones. -/
theorem verifySteps_eq_ok {steps : List Step} : ∀ {i : Nat} {held held' : List Tuple},
    verifySteps i steps held = .ok held' →
      (∀ before s after, steps = before ++ s :: after → Filled held before s.input) ∧
        ∀ t, t ∈ held' ↔ Filled held steps t := by
  induction steps with
  | nil =>
    intro i held held' h
    cases h
    refine ⟨?_, fun t => ⟨Or.inl, ?_⟩⟩
    · intro before s after h
      simp at h
    · rintro (h | ⟨s, hs, -⟩)
      · exact h
      · cases hs
  | cons s rest ih =>
    intro i held held' h
    unfold verifySteps at h
    split at h
    · rename_i hin
      obtain ⟨hsplit, hheld⟩ := ih h
      refine ⟨?_, fun t => (hheld t).trans filled_cons.symm⟩
      intro before s' after hb
      cases before with
      | nil =>
        injection hb with hs _
        exact Or.inl (hs ▸ hin)
      | cons b before =>
        injection hb with hb hrest
        subst hb
        exact filled_cons.2 (hsplit before s' after hrest)
    · cases h

theorem exists_verifySteps {steps : List Step} : ∀ {i : Nat} {held : List Tuple},
    (∀ before s after, steps = before ++ s :: after → Filled held before s.input) →
      ∃ held', verifySteps i steps held = .ok held' := by
  induction steps with
  | nil => exact fun _ => ⟨_, rfl⟩
  | cons s rest ih =>
    intro i held h
    have hin : s.input ∈ held := by
      rcases h [] s rest rfl with hin | ⟨_, hmem, -⟩
      · exact hin
      · cases hmem
    rw [verifySteps, if_pos hin]
    refine ih fun before s' after hrest => filled_cons.1 ?_
    exact h (s :: before) s' after (by rw [hrest, List.cons_append])

/-- **A plan verifies exactly if every step finds its input filled, and the output slot
    is filled at the end.** -/
theorem verifyFrom_eq_ok {p : Plan} {start : List Tuple} :
    p.verifyFrom start = .ok () ↔
      (∀ before s after, p.steps = before ++ s :: after → Filled start before s.input) ∧
        Filled start p.steps p.output := by
  have hstart : ∀ t, t ∈ start.foldl hold [] ↔ t ∈ start := by
    intro t
    rw [mem_foldl_hold]
    exact ⟨fun h => h.resolve_left fun h => (nomatch h), Or.inr⟩
  have hfilled : ∀ steps t, Filled (start.foldl hold []) steps t ↔ Filled start steps t :=
    fun steps t => or_congr (hstart t) Iff.rfl
  unfold verifyFrom
  constructor
  · intro h
    split at h
    · cases h
    · rename_i held hheld
      obtain ⟨hsplit, hend⟩ := verifySteps_eq_ok hheld
      split at h
      · rename_i hout
        exact ⟨fun before s after hb => (hfilled _ _).1 (hsplit before s after hb),
          (hfilled _ _).1 ((hend _).1 hout)⟩
      · cases h
  · rintro ⟨hsplit, hout⟩
    obtain ⟨held, hheld⟩ := exists_verifySteps (i := 0) fun before s after hb =>
      (hfilled _ _).2 (hsplit before s after hb)
    rw [hheld]
    exact if_pos (((verifySteps_eq_ok hheld).2 _).2 ((hfilled _ _).2 hout))

/-- Verification depends on which slots are filled only. -/
theorem verifyFrom_congr {p : Plan} {start start' : List Tuple} (h : ∀ t, t ∈ start ↔ t ∈ start') :
    p.verifyFrom start = .ok () ↔ p.verifyFrom start' = .ok () := by
  simp only [verifyFrom_eq_ok, Filled, h]

end HornPlan.Plan
