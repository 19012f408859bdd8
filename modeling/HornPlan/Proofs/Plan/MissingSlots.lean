/-
  HornPlan/Proofs/Plan/MissingSlots.lean
  ======================================
  **Which slot a plan misses first, and what is held by then.**

  A plan asks for slots one after the other: each step for its input, and at the end the
  output slot is asked for (`AsksFor`).  A slot is missing if it is neither filled at the
  start nor the output of an earlier step (`MissesAt`).  Verification fails exactly if
  some slot is missing, and reports the first one with the slots that are held
  (`verifyFrom_eq_error_iff`): those that are filled at the start, and then those that
  steps have filled, each of them once, in the order in which they were filled
  (`heldAt`).

  What is missing with more slots filled is missing with fewer.  So filling more of them
  cannot do harm, and a failure can only move towards the end.

  Specification, section E.7, of the first violation that `verify_from` reports.
-/
import HornPlan.Proofs.Plan.Verification
import Mathlib.Data.List.Nodup

namespace HornPlan.Plan

variable {p : Plan} {start start' : List Tuple} {i : Nat} {name : String} {slot : Tuple}

/-! ### Slots in the order in which they are filled -/

theorem nodup_hold {held : List Tuple} (h : held.Nodup) (t : Tuple) : (hold held t).Nodup := by
  unfold hold
  split
  · exact h
  · rename_i hnew
    rw [← List.concat_eq_append]
    exact h.concat hnew

theorem nodup_foldl_hold {ts held : List Tuple} (h : held.Nodup) : (ts.foldl hold held).Nodup := by
  induction ts generalizing held with
  | nil => exact h
  | cons t rest ih => exact ih (nodup_hold h t)

/-- What is filled is held behind what has been held before, unless it has been held. -/
theorem foldl_hold_eq (ts : List Tuple) : ∀ held : List Tuple,
    ts.foldl hold held = held ++ (ts.filter (· ∉ held)).eraseDups := by
  induction ts with
  | nil => exact fun held => (List.append_nil held).symm
  | cons t rest ih =>
    intro held
    rw [List.foldl_cons, ih]
    unfold hold
    split
    · rename_i hmem
      rw [List.filter_cons_of_neg (by simpa using hmem)]
    · rename_i hnew
      have hlater : rest.filter (· ∉ held ++ [t]) =
          (rest.filter (· ∉ held)).filter fun u => !(u == t) := by
        rw [List.filter_filter]
        exact List.filter_congr fun u _ => by rw [Bool.eq_iff_iff]; simp [and_comm]
      rw [List.filter_cons_of_pos (by simpa using hnew), List.eraseDups_cons, hlater,
        List.append_assoc, List.singleton_append]

/-- The slots that are held before a step: those that are filled at the start, and then
    the others that the steps before it fill, in the order in which they are filled. -/
def heldAt (p : Plan) (start : List Tuple) (i : Nat) : List Tuple :=
  start.eraseDups ++ (((p.steps.take i).map Step.output).filter (· ∉ start)).eraseDups

theorem foldl_hold_steps (p : Plan) (start : List Tuple) (i : Nat) :
    ((p.steps.take i).map Step.output).foldl hold (start.foldl hold []) = p.heldAt start i := by
  have hstart : start.foldl hold [] = start.eraseDups := by
    rw [foldl_hold_eq, List.nil_append, List.filter_eq_self.2 (by simp)]
  rw [hstart, foldl_hold_eq, heldAt]
  simp only [List.mem_eraseDups]

theorem nodup_heldAt (p : Plan) (start : List Tuple) (i : Nat) : (p.heldAt start i).Nodup := by
  rw [← foldl_hold_steps]
  exact nodup_foldl_hold (nodup_foldl_hold (by simp))

theorem mem_heldAt {t : Tuple} : t ∈ p.heldAt start i ↔ Filled start (p.steps.take i) t := by
  rw [← foldl_hold_steps, mem_foldl_hold, mem_foldl_hold, Filled]
  simp only [List.not_mem_nil, false_or, List.mem_map]

/-! ### Running through the steps -/

/-- Steps are run through to the end, or to the first one that finds its input missing. -/
theorem verifySteps_cases (steps : List Step) : ∀ (k : Nat) (held : List Tuple),
    (∀ i s, steps[i]? = some s → Filled held (steps.take i) s.input) ∧
        verifySteps k steps held = .ok ((steps.map Step.output).foldl hold held) ∨
      ∃ i s, steps[i]? = some s ∧ ¬ Filled held (steps.take i) s.input ∧
        (∀ j < i, ∀ s', steps[j]? = some s' → Filled held (steps.take j) s'.input) ∧
          verifySteps k steps held = .error (missingSlot (k + i) s.name s.input
            (((steps.take i).map Step.output).foldl hold held)) := by
  induction steps with
  | nil => exact fun k held => Or.inl ⟨by simp, rfl⟩
  | cons s rest ih =>
    intro k held
    -- what is filled further on is filled by this step too
    have hshift : ∀ {j t}, Filled held ((s :: rest).take (j + 1)) t ↔
        Filled (hold held s.output) (rest.take j) t := filled_cons
    by_cases hin : s.input ∈ held
    · rw [verifySteps, if_pos hin]
      rcases ih (k + 1) (hold held s.output) with ⟨hall, hrun⟩ | ⟨i, s', hi, hmissing, hfirst, hrun⟩
      · refine Or.inl ⟨?_, hrun⟩
        rintro (_ | i) t ht
        · cases ht
          exact Or.inl hin
        · exact hshift.2 (hall i t ht)
      · refine Or.inr ⟨i + 1, s', hi, fun h => hmissing (hshift.1 h), ?_, ?_⟩
        · rintro (_ | j) hj t ht
          · cases ht
            exact Or.inl hin
          · exact hshift.2 (hfirst j (by omega) t ht)
        · rw [hrun, Nat.add_right_comm, Nat.add_assoc]
          rfl
    · rw [verifySteps, if_neg hin]
      refine Or.inr ⟨0, s, rfl, ?_, fun j hj => absurd hj (Nat.not_lt_zero j), rfl⟩
      rintro (h | ⟨_, hs, -⟩)
      · exact hin h
      · cases hs

/-! ### What a plan asks for -/

/-- The slot that is asked for at an index, and who asks for it. -/
inductive AsksFor (p : Plan) : Nat → String → Tuple → Prop
  | input {i : Nat} {s : Step} (hs : p.steps[i]? = some s) : AsksFor p i s.name s.input
  | output : AsksFor p p.size outputName p.output

/-- Is the slot missing that is asked for at an index? -/
def MissesAt (p : Plan) (start : List Tuple) (i : Nat) (name : String) (slot : Tuple) : Prop :=
  p.AsksFor i name slot ∧ ¬ Filled start (p.steps.take i) slot

/-- Is it the first one? -/
def MissesFirst (p : Plan) (start : List Tuple) (i : Nat) (name : String) (slot : Tuple) : Prop :=
  p.MissesAt start i name slot ∧ ∀ j < i, ∀ other t, ¬ p.MissesAt start j other t

theorem MissesAt.mono (hsub : start ⊆ start') (h : p.MissesAt start' i name slot) :
    p.MissesAt start i name slot :=
  ⟨h.1, fun hfilled => h.2 (hfilled.imp_left fun hmem => hsub hmem)⟩

theorem verifyFrom_cases (p : Plan) (start : List Tuple) :
    (∀ i name slot, ¬ p.MissesAt start i name slot) ∧ p.verifyFrom start = .ok () ∨
      ∃ i name slot, p.MissesFirst start i name slot ∧
        p.verifyFrom start = .error (missingSlot i name slot (p.heldAt start i)) := by
  have hfilled : ∀ steps t, Filled (start.foldl hold []) steps t ↔ Filled start steps t := by
    intro steps t
    simp only [Filled, mem_foldl_hold, List.not_mem_nil, false_or]
  have hall : (p.steps.map Step.output).foldl hold (start.foldl hold []) = p.heldAt start p.size := by
    rw [← foldl_hold_steps, size, List.take_length]
  rcases verifySteps_cases p.steps 0 (start.foldl hold []) with
    ⟨hin, hrun⟩ | ⟨i, s, hs, hmissing, hfirst, hrun⟩
  · -- no input is missing, so only the output slot can be
    have hinputs : ∀ i name slot, p.MissesAt start i name slot →
        i = p.size ∧ name = outputName ∧ slot = p.output := by
      rintro i name slot ⟨hasks, hmissing⟩
      cases hasks with
      | input hs => exact absurd ((hfilled _ _).1 (hin _ _ hs)) hmissing
      | output => exact ⟨rfl, rfl, rfl⟩
    rw [hall] at hrun
    by_cases hout : p.output ∈ p.heldAt start p.size
    · refine Or.inl ⟨?_, by rw [verifyFrom, hrun]; exact if_pos hout⟩
      intro i name slot h
      obtain ⟨rfl, -, rfl⟩ := hinputs i name slot h
      exact h.2 (mem_heldAt.1 hout)
    · refine Or.inr ⟨p.size, outputName, p.output, ⟨⟨.output, fun h => hout (mem_heldAt.2 h)⟩, ?_⟩,
        by rw [verifyFrom, hrun]; exact if_neg hout⟩
      intro j hj other t h
      obtain ⟨rfl, -⟩ := hinputs j other t h
      exact Nat.lt_irrefl _ hj
  · refine Or.inr ⟨i, s.name, s.input, ⟨⟨.input hs, fun h => hmissing ((hfilled _ _).2 h)⟩, ?_⟩, ?_⟩
    · rintro j hj other t ⟨hasks, hnot⟩
      cases hasks with
      | input hs' => exact hnot ((hfilled _ _).1 (hfirst j hj _ hs'))
      | output =>
        have hlt : i < p.steps.length := (List.getElem?_eq_some_iff.1 hs).1
        exact absurd hj (Nat.lt_asymm hlt)
    · rw [verifyFrom, hrun, foldl_hold_steps, Nat.zero_add]

/-! ### What verification finds -/

theorem AsksFor.unique {name' : String} {slot' : Tuple} (h : p.AsksFor i name slot)
    (h' : p.AsksFor i name' slot') : name = name' ∧ slot = slot' := by
  cases h with
  | input hs =>
    cases h' with
    | input hs' =>
      cases hs.symm.trans hs'
      exact ⟨rfl, rfl⟩
    | output => exact absurd (List.getElem?_eq_some_iff.1 hs).1 (Nat.lt_irrefl _)
  | output =>
    cases h' with
    | input hs' => exact absurd (List.getElem?_eq_some_iff.1 hs').1 (Nat.lt_irrefl _)
    | output => exact ⟨rfl, rfl⟩

theorem MissesFirst.unique {i' : Nat} {name' : String} {slot' : Tuple}
    (h : p.MissesFirst start i name slot) (h' : p.MissesFirst start i' name' slot') :
    i = i' ∧ name = name' ∧ slot = slot' := by
  obtain rfl : i = i' := Nat.le_antisymm
    (Nat.not_lt.1 fun hlt => h.2 i' hlt _ _ h'.1) (Nat.not_lt.1 fun hlt => h'.2 i hlt _ _ h.1)
  exact ⟨rfl, h.1.1.unique h'.1.1⟩

theorem verifyFrom_eq_ok_iff :
    p.verifyFrom start = .ok () ↔ ∀ i name slot, ¬ p.MissesAt start i name slot := by
  rcases p.verifyFrom_cases start with ⟨hnone, hok⟩ | ⟨i, name, slot, hfirst, herror⟩
  · exact ⟨fun _ => hnone, fun _ => hok⟩
  · rw [herror]
    exact ⟨nofun, fun hnone => absurd hfirst.1 (hnone i name slot)⟩

/-- **Verification fails with the first slot that is missing.** -/
theorem verifyFrom_eq_error_iff {e : Error} :
    p.verifyFrom start = .error e ↔ ∃ i name slot, p.MissesFirst start i name slot ∧
      e = missingSlot i name slot (p.heldAt start i) := by
  rcases p.verifyFrom_cases start with ⟨hnone, hok⟩ | ⟨i, name, slot, hfirst, herror⟩
  · rw [hok]
    refine ⟨nofun, ?_⟩
    rintro ⟨i, name, slot, hfirst, -⟩
    exact absurd hfirst.1 (hnone i name slot)
  · rw [herror]
    constructor
    · rintro ⟨⟩
      exact ⟨i, name, slot, hfirst, rfl⟩
    · rintro ⟨i', name', slot', hfirst', rfl⟩
      obtain ⟨rfl, rfl, rfl⟩ := hfirst.unique hfirst'
      rfl

theorem not_misses_iff : (∀ i name slot, ¬ p.MissesAt start i name slot) ↔
    (∀ i s, p.steps[i]? = some s → Filled start (p.steps.take i) s.input) ∧
      Filled start p.steps p.output := by
  constructor
  · intro hnone
    constructor
    · intro i s hs
      exact Classical.byContradiction fun hmissing => hnone _ _ _ ⟨.input hs, hmissing⟩
    · refine Classical.byContradiction fun hmissing => hnone _ _ _ ⟨.output, ?_⟩
      rwa [size, List.take_length]
  · rintro ⟨hinputs, houtput⟩ i name slot ⟨hasks, hmissing⟩
    cases hasks with
    | input hs => exact hmissing (hinputs _ _ hs)
    | output =>
      rw [size, List.take_length] at hmissing
      exact hmissing houtput

theorem missesFirst_congr (h : ∀ t, t ∈ start ↔ t ∈ start') :
    p.MissesFirst start i name slot ↔ p.MissesFirst start' i name slot := by
  simp only [MissesFirst, MissesAt, Filled, h]

/-- With more slots filled, nothing is missing before what was missing first. -/
theorem MissesFirst.le {i' : Nat} {name' : String} {slot' : Tuple} (hsub : start ⊆ start')
    (h : p.MissesFirst start i name slot) (h' : p.MissesFirst start' i' name' slot') : i ≤ i' :=
  Nat.not_lt.1 fun hlt => h.2 i' hlt _ _ (h'.1.mono hsub)

/-- **Verification is exact and monotone.**  A plan verifies exactly if no slot is
    missing; otherwise the first missing one is reported with the slots that are held, each
    of them once.  Neither the order nor the repetition of what is filled at the start
    matters, and filling more neither makes a plan fail nor makes it fail earlier. -/
theorem verifyFrom_exact (p : Plan) (start : List Tuple) :
    (p.verifyFrom start = .ok () ↔
      (∀ i s, p.steps[i]? = some s → Filled start (p.steps.take i) s.input) ∧
        Filled start p.steps p.output) ∧
    (∀ e, p.verifyFrom start = .error e ↔ ∃ i name slot, p.MissesFirst start i name slot ∧
      e = .planTypeMismatch i name slot.text (describeHeld (p.heldAt start i))) ∧
    (∀ i, (p.heldAt start i).Nodup) ∧
    (∀ start', (∀ t, t ∈ start ↔ t ∈ start') →
      (p.verifyFrom start = .ok () ↔ p.verifyFrom start' = .ok ()) ∧
        ∀ i name slot, p.MissesFirst start i name slot ↔ p.MissesFirst start' i name slot) ∧
    ∀ start', start ⊆ start' →
      (p.verifyFrom start = .ok () → p.verifyFrom start' = .ok ()) ∧
        ∀ i name slot found i' name' slot' found',
          p.verifyFrom start = .error (.planTypeMismatch i name slot found) →
            p.verifyFrom start' = .error (.planTypeMismatch i' name' slot' found') → i ≤ i' := by
  refine ⟨verifyFrom_eq_ok_iff.trans not_misses_iff, fun e => verifyFrom_eq_error_iff,
    p.nodup_heldAt start, fun start' hsame => ⟨verifyFrom_congr hsame, fun i name slot => ?_⟩,
    fun start' hsub => ⟨fun hok => ?_, ?_⟩⟩
  · exact missesFirst_congr hsame
  · rw [verifyFrom_eq_ok_iff] at hok ⊢
    exact fun i name slot hmisses => hok i name slot (hmisses.mono hsub)
  · intro i name slot found i' name' slot' found' herror herror'
    obtain ⟨_, _, _, hfirst, heq⟩ := verifyFrom_eq_error_iff.1 herror
    obtain ⟨_, _, _, hfirst', heq'⟩ := verifyFrom_eq_error_iff.1 herror'
    cases heq
    cases heq'
    exact hfirst.le hsub hfirst'

/-- A stew is named after `topic_1`, and annotated with notes on `topic_2`. -/
def stew : Plan :=
  let stew : Tuple := ⟨"recipe", InstanceId.ofNumber? 3⟩
  let describe (name : String) (topic : UInt32) : Step :=
    let work : Task := ⟨name, "", "topic", "recipe", fun _ => .ok (.ofType "recipe")⟩
    .ofDescriptor ⟨name, work⟩ ⟨"topic", InstanceId.ofNumber? topic⟩ stew
  ⟨[describe "title" 1, describe "notes" 2], ⟨"topic", InstanceId.ofNumber? 1⟩, stew⟩

/-- With `topic_1` alone, however often, the notes miss their input, and the stew is held
    by then; with both topics, and anything else, nothing is missing. -/
theorem verifyFrom_exact_stew :
    let topic (id : UInt32) : Tuple := ⟨"topic", InstanceId.ofNumber? id⟩
    (∃ slot, stew.MissesFirst [topic 1, topic 1] 1 "notes" slot ∧ slot.text = "topic_2" ∧
      describeHeld (stew.heldAt [topic 1, topic 1] 1) = "topic_1, recipe_3" ∧
        stew.MissesFirst [topic 1] 1 "notes" slot) ∧
    [topic 1, topic 2] ⊆ [topic 5, topic 2, topic 1, topic 2] ∧
      stew.verifyFrom [topic 1, topic 2] = .ok () ∧
        stew.verifyFrom [topic 5, topic 2, topic 1, topic 2] = .ok () := by
  intro topic
  constructor
  · have hfail : stew.verifyFrom [topic 1, topic 1] =
        .error (.planTypeMismatch 1 "notes" "topic_2" "topic_1, recipe_3") := by cbv
    have hsame : ∀ t, t ∈ [topic 1, topic 1] ↔ t ∈ [topic 1] := by simp
    obtain ⟨-, herror, -, hcongr, -⟩ := stew.verifyFrom_exact [topic 1, topic 1]
    obtain ⟨i, name, slot, hfirst, heq⟩ := (herror _).1 hfail
    injection heq with hi hname hslot hheld
    subst hi hname
    exact ⟨slot, hfirst, hslot.symm, hheld.symm, ((hcongr _ hsame).2 _ _ _).1 hfirst⟩
  · have hok : stew.verifyFrom [topic 1, topic 2] = .ok () := rfl
    have hsub : [topic 1, topic 2] ⊆ [topic 5, topic 2, topic 1, topic 2] := by simp
    obtain ⟨-, -, -, -, hmono⟩ := stew.verifyFrom_exact [topic 1, topic 2]
    exact ⟨hsub, hok, (hmono _ hsub).1 hok⟩

end HornPlan.Plan
