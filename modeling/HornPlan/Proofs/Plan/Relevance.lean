/-
  HornPlan/Proofs/Plan/Relevance.lean
  ===================================
  **The values that a run depends on.**

  A step looks at the value in its input slot.  A descriptor looks at its output slot as
  well, since it lays its result over what is there; a task only overwrites it.  At the
  end the output slot is looked at (`Looks`).

  Two seeds that fill the same slots in the same order may hold different values in slots
  that nobody looks at.  They lead to the same outcome, and the same attempts are told of
  on the way (`observe_congr`).  The stores of the two runs differ all along, so what is
  carried through the run is that they agree on the slots that are looked at
  (`Store.AgreeOn`); every step preserves it.

  The work of a task may have effects, and being told of an attempt may as well.  Then
  two runs are to have the same effects in the same order, and `Alike` says so: whatever
  is done next is the same for both, as far as it cannot tell agreeing stores apart.
-/
import HornPlan.Demo
import HornPlan.Proofs.Plan.Course
import Mathlib.Data.List.Forall2

namespace HornPlan

/-! ### Stores that agree on some slots -/

/-- The stores hold values in the same slots, in the same order.  In the slots in
    question the values are the same. -/
def Store.AgreeOn (slots : Tuple → Prop) (a b : Store) : Prop :=
  List.Forall₂ (fun x y => x.1 = y.1 ∧ (slots x.1 → x.2 = y.2)) a b

namespace Store.AgreeOn

variable {slots : Tuple → Prop} {a b : Store}

theorem map_fst (h : AgreeOn slots a b) : a.map Prod.fst = b.map Prod.fst := by
  induction h with
  | nil => rfl
  | cons hxy _ ih => rw [List.map_cons, List.map_cons, hxy.1, ih]

theorem slots_eq (h : AgreeOn slots a b) : a.slots = b.slots := by
  rw [Store.slots, Store.slots, h.map_fst]

theorem lookup (h : AgreeOn slots a b) {t : Tuple} (ht : slots t) : a.lookup t = b.lookup t := by
  induction h with
  | nil => rfl
  | @cons x y _ _ hxy _ ih =>
    obtain ⟨s, v⟩ := x
    obtain ⟨s', w⟩ := y
    obtain ⟨rfl, hvalue⟩ := hxy
    rw [lookup_insert, lookup_insert, ih]
    by_cases hts : t = s
    · subst hts
      rw [if_pos rfl, if_pos rfl]
      exact congrArg some (hvalue ht)
    · rw [if_neg hts, if_neg hts]

theorem put (h : AgreeOn slots a b) (t : Tuple) (value : Resource) :
    AgreeOn slots (a.put t value) (b.put t value) :=
  .cons ⟨rfl, fun _ => rfl⟩ h

end Store.AgreeOn

/-! ### One step -/

namespace Step

def isDescriptor (s : Step) : Bool :=
  match s.kind with
  | .task => false
  | .descriptor _ => true

/-- The slots that a step looks at. -/
def Looks (s : Step) (t : Tuple) : Prop := t = s.input ∨ s.isDescriptor = true ∧ t = s.output

instance (s : Step) (t : Tuple) : Decidable (s.Looks t) :=
  inferInstanceAs (Decidable (_ ∨ _))

theorem keep_agree {s : Step} {slots : Tuple → Prop} (hslots : ∀ t, s.Looks t → slots t)
    {a b : Store} (h : a.AgreeOn slots b) (result : Resource) :
    (s.keep result a).AgreeOn slots (s.keep result b) := by
  unfold keep
  rcases hkind : s.kind with _ | name
  · exact h.put _ _
  · -- whether there is a value to describe is the same for both, and so is the value
    have hlooks : s.Looks s.output := Or.inr ⟨by rw [isDescriptor, hkind], rfl⟩
    rw [h.lookup (hslots _ hlooks)]
    rcases b.lookup s.output with _ | value
    · exact h.put _ _
    · exact h.put _ _

end Step

namespace Plan

/-! ### Runs that cannot be told apart -/

section Effects

variable {m : Type → Type} [Monad m] {slots : Tuple → Prop}

/-- Two computations of stores go on alike, whatever is done with an error or with stores
    that agree. -/
def Alike (slots : Tuple → Prop) (x y : m (Except Error Store)) : Prop :=
  ∀ (β : Type) (f g : Except Error Store → m β), (∀ e, f (.error e) = g (.error e)) →
    (∀ a b, a.AgreeOn slots b → f (.ok a) = g (.ok b)) → x >>= f = y >>= g

variable (invoke : Task → Resource → m (Except Error Resource)) (tell : Event → m Unit)
variable [LawfulMonad m]

theorem alike_error (e : Error) : Alike slots (pure (.error e) : m _) (pure (.error e)) := by
  intro β f g herror _
  rw [pure_bind, pure_bind, herror]

theorem alike_ok {a b : Store} (h : a.AgreeOn slots b) :
    Alike slots (pure (.ok a) : m _) (pure (.ok b)) := by
  intro β f g _ hok
  rw [pure_bind, pure_bind, hok a b h]

theorem alike_bind_right {α : Type} (x : m α) {f g : α → m (Except Error Store)}
    (h : ∀ v, Alike slots (f v) (g v)) : Alike slots (x >>= f) (x >>= g) := by
  intro β k l herror hok
  rw [bind_assoc, bind_assoc]
  exact bind_congr fun v => h v β k l herror hok

/-- What comes after computations that are alike. -/
theorem Alike.bind {x y : m (Except Error Store)} (h : Alike slots x y)
    {f g : Except Error Store → m (Except Error Store)}
    (herror : ∀ e, Alike slots (f (.error e)) (g (.error e)))
    (hok : ∀ a b, a.AgreeOn slots b → Alike slots (f (.ok a)) (g (.ok b))) :
    Alike slots (x >>= f) (y >>= g) := by
  intro β k l hk hl
  rw [bind_assoc, bind_assoc]
  apply h
  · intro e
    exact herror e β k l hk hl
  · intro a b hab
    exact hok a b hab β k l hk hl

theorem stepIn_alike {s : Step} (hslots : ∀ t, s.Looks t → slots t) {a b : Store}
    (h : a.AgreeOn slots b) (i : Nat) : Alike slots (stepIn invoke i s a) (stepIn invoke i s b) := by
  unfold stepIn
  rw [h.lookup (hslots _ (Or.inl rfl))]
  rcases b.lookup s.input with _ | value
  · exact alike_error _
  · by_cases htype : value.type = s.task.input
    · simp only [if_pos htype]
      apply alike_bind_right
      rintro (e | result)
      · exact alike_error e
      · exact alike_ok (Step.keep_agree hslots h result)
    · simp only [if_neg htype]
      exact alike_error _

theorem stepsIn_alike {steps : List Step} : ∀ (i : Nat) {a b : Store},
    (∀ s ∈ steps, ∀ t, s.Looks t → slots t) → a.AgreeOn slots b →
      Alike slots (stepsIn invoke tell i steps a) (stepsIn invoke tell i steps b) := by
  induction steps with
  | nil => exact fun i a b _ h => alike_ok h
  | cons s rest ih =>
    intro i a b hslots h
    obtain ⟨hs, hrest⟩ := List.forall_mem_cons.1 hslots
    rw [stepsIn, stepsIn]
    apply (stepIn_alike invoke hs h i).bind
    · intro e
      exact alike_bind_right _ fun _ => alike_error e
    · intro a' b' h'
      exact alike_bind_right _ fun _ => ih (i + 1) hrest h'

end Effects

/-! ### Whole runs -/

/-- The slots that a run looks at. -/
def Looks (p : Plan) (t : Tuple) : Prop := t = p.output ∨ ∃ s ∈ p.steps, s.Looks t

instance (p : Plan) (t : Tuple) : Decidable (p.Looks t) :=
  inferInstanceAs (Decidable (_ ∨ _))

theorem observeIn_congr {m : Type → Type} [Monad m] [LawfulMonad m]
    (invoke : Task → Resource → m (Except Error Resource)) (tell : Event → m Unit) (p : Plan)
    {seed seed' : Store} (h : seed.AgreeOn p.Looks seed') :
    p.observeIn invoke tell seed = p.observeIn invoke tell seed' := by
  unfold observeIn
  rw [h.map_fst]
  have hslots : ∀ s ∈ p.steps, ∀ t, s.Looks t → p.Looks t :=
    fun s hs t ht => Or.inr ⟨s, hs, ht⟩
  split
  · rfl
  · rcases p.verifyFrom (seed'.map Prod.fst) with e | ⟨⟩
    · rfl
    · apply stepsIn_alike invoke tell 0 hslots h
      · exact fun e => rfl
      · intro a b hab
        dsimp only
        rw [hab.lookup (Or.inl rfl), hab.slots_eq]

/-- **A run depends on the values that it looks at.**  From seeds that differ elsewhere
    only it has the same outcome, and the same attempts are watched.  If there are
    effects, they are the same. -/
theorem observe_congr (p : Plan) {seed seed' : Store} (h : seed.AgreeOn p.Looks seed') :
    p.observe seed = p.observe seed' ∧
      ∀ (m : Type → Type) [Monad m] [LawfulMonad m]
        (invoke : Task → Resource → m (Except Error Resource)) (tell : Event → m Unit),
        p.observeIn invoke tell seed = p.observeIn invoke tell seed' := by
  refine ⟨?_, fun m _ _ invoke tell => p.observeIn_congr invoke tell h⟩
  have hwritten := congrFun (p.observeIn_congr (fun t v => pure (t.invoke v)) writeDown h) []
  rw [observeIn_writeDown, observeIn_writeDown, List.nil_append, List.nil_append] at hwritten
  exact Prod.ext (congrArg Prod.snd hwritten) (congrArg Prod.fst hwritten)

/-- Writes a sentence about any topic, and titles `recipe_3` after `topic_2`. -/
def menu : Plan :=
  let recipe := Query.instanceOf "recipe" 3
  ⟨[.generic Demo.writeSentence,
    .ofDescriptor ⟨"title", Demo.nameDish⟩ (Query.instanceOf "topic" 2) recipe], recipe, recipe⟩

def menuSeed (first sentence : Resource) : Store :=
  [(.wildcard "topic", (Resource.ofType "topic").set "topic" (.text "bread")),
    (Query.instanceOf "topic" 1, first), (.wildcard "sentence", sentence),
    (Query.instanceOf "topic" 2, (Resource.ofType "topic").set "topic" (.text "leek"))]

/-- Nobody looks at `topic_1`, and the sentence is overwritten.  They may be of any type. -/
theorem observe_congr_menu :
    menu.observe (menuSeed (.ofType "topic") (.ofType "sentence")) =
        menu.observe (menuSeed (.ofType "image") (.ofType "recipe")) ∧
      ((menu.observe (menuSeed (.ofType "image") (.ofType "recipe"))).1.map (·.error)) =
        [none, none] := by
  have hfirst : ¬ menu.Looks (Query.instanceOf "topic" 1) := by decide
  have hsentence : ¬ menu.Looks (.wildcard "sentence") := by decide
  constructor
  · refine (menu.observe_congr ?_).1
    exact .cons ⟨rfl, fun _ => rfl⟩ <| .cons ⟨rfl, fun h => absurd h hfirst⟩ <|
      .cons ⟨rfl, fun h => absurd h hsentence⟩ <| .cons ⟨rfl, fun _ => rfl⟩ .nil
  · decide +kernel

end Plan

end HornPlan
