/-
  HornPlan/Proofs/Search/Room.lean
  ================================
  **The room of a search is nothing but a guard.**

  A search that does not run out of room does not notice how much of it there is: with
  more room it takes the same steps, keeps the same proofs and ends in the same way
  (`search_refines`).  This holds of failures too, since running out of room ends the
  whole search and is never mistaken for a failure that leaves other rules to be tried.

  The goals of a path are different heads of rules.  So a search with more room than
  there are such heads never runs out of it (`search_ne_tooDeep`), on cyclic databases
  as on others, and every database has one outcome that the guard can only withhold
  (`derive_guarded`).

  Specification, section D, of `max_depth` and `DepthLimitExceeded`.
-/
import HornPlan.Proofs.Search.Completeness

namespace HornPlan

namespace Derivation

/-! ### More room -/

section Refines

variable {σ α : Type}

/-- The first attempt runs out of room, or else the second is the same. -/
def Refines (x y : Attempt σ α) : Prop := (∃ a kept, x = (.error (.tooDeep a), kept)) ∨ y = x

theorem Refines.eq {x y : Attempt σ α} (h : Refines x y) (hroom : ∀ a, x.1 ≠ .error (.tooDeep a)) :
    y = x :=
  h.resolve_left fun ⟨a, _, ha⟩ => hroom a (congrArg Prod.fst ha)

variable {f g : Atom → σ → Attempt σ Derivation} (h : ∀ a kept, Refines (f a kept) (g a kept))
include h

theorem proveAll_refines (as : List Atom) :
    ∀ kept, Refines (proveAll f as kept) (proveAll g as kept) := by
  induction as with
  | nil => exact fun _ => Or.inr rfl
  | cons a rest ih =>
    intro kept
    unfold proveAll
    rcases h a kept with ⟨b, kept', hdeep⟩ | heq
    · rw [hdeep]
      exact Or.inl ⟨b, kept', rfl⟩
    · rw [heq]
      rcases f a kept with ⟨failure | d, kept'⟩
      · exact Or.inr rfl
      · dsimp only
        rcases ih kept' with ⟨b, kept'', hdeep⟩ | heq
        · rw [hdeep]
          exact Or.inl ⟨b, kept'', rfl⟩
        · rw [heq]
          exact Or.inr rfl

theorem tryRules_refines (goal : Atom) (rules : List (Nat × Clause)) : ∀ setbacks kept,
    Refines (tryRules f goal rules setbacks kept) (tryRules g goal rules setbacks kept) := by
  induction rules with
  | nil => exact fun _ _ => Or.inr rfl
  | cons rule rest ih =>
    obtain ⟨i, c⟩ := rule
    intro setbacks kept
    unfold tryRules
    rcases proveAll_refines h c.body kept with ⟨b, kept', hdeep⟩ | heq
    · -- running out of room is not a failure that leaves the other rules
      rw [hdeep]
      exact Or.inl ⟨b, kept', rfl⟩
    · rw [heq]
      rcases proveAll f c.body kept with ⟨(a | path | a) | children, kept'⟩
      · exact ih _ kept'
      · exact ih _ kept'
      · exact Or.inr rfl
      · dsimp only
        split
        · exact ih _ kept'
        · exact Or.inr rfl

end Refines

/-- **A search with more room takes the same course**, unless the first runs out of
    it. -/
theorem search_refines (db : Database) : ∀ {room room' : Nat}, room ≤ room' → ∀ path goal proven,
    Refines (search db room path goal proven) (search db room' path goal proven) := by
  intro room
  -- on the smaller room; without any, only a goal that would be entered differs
  induction room with
  | zero =>
    intro room' _ path goal proven
    unfold search
    rcases proven.lookup goal with _ | d
    · rcases db.fact? goal with _ | i
      · by_cases hmem : goal ∈ path
        · simp only [if_pos hmem]
          exact Or.inr rfl
        · simp only [if_neg hmem]
          exact Or.inl ⟨goal, proven, rfl⟩
      · exact Or.inr rfl
    · exact Or.inr rfl
  | succ room ih =>
    intro room' hle path goal proven
    obtain ⟨room', rfl⟩ : ∃ k, room' = k + 1 := ⟨room' - 1, by omega⟩
    unfold search
    rcases proven.lookup goal with _ | d
    · rcases db.fact? goal with _ | i
      · by_cases hmem : goal ∈ path
        · simp only [if_pos hmem]
          exact Or.inr rfl
        · simp only [if_neg hmem]
          have hrules := tryRules_refines
            (ih (Nat.le_of_succ_le_succ hle) (goal :: path)) goal (db.rulesFor goal) .none proven
          rcases hrules with ⟨b, proven', hdeep⟩ | heq
          · rw [hdeep]
            exact Or.inl ⟨b, proven', rfl⟩
          · rw [heq]
            exact Or.inr rfl
      · exact Or.inr rfl
    · exact Or.inr rfl

/-! ### Room for all heads -/

/-- A search of which nothing is expected. -/
def Guide.idle : Guide where
  allowed _ := False
  made _ := False
  reached _ _ := True

theorem Guide.idle_valid (db : Database) : Guide.idle.Valid db where
  step _ _ _ _ _ _ _ _ _ := trivial
  asks _ _ hallowed := hallowed.elim
  makes _ hmade := hmade.elim

/-- **There is always room enough for a path of different heads.** -/
theorem search_ne_tooDeep {db : Database} {room : Nat} (hroom : db.ruleHeads.card < room)
    {proven : Proven} (hproven : Coherent db proven) (goal a : Atom) :
    (search db room [] goal proven).1 ≠ .error (.tooDeep a) := by
  have hopen : Open db [] proven := ⟨hproven, fun g hg => nomatch hg⟩
  obtain ⟨-, hend, -⟩ := search_finds (Guide.idle_valid db) room [] (by simp) List.nodup_nil
    (by simp) (by simpa using hroom) goal trivial proven _ _ ⟨hopen, fun _ _ h => h.elim⟩ rfl
  exact hend a

end Derivation

/-! ### Sessions -/

namespace Session

open HornPlan.Derivation

def withLimit (s : Session) (n : Nat) : Session := { s with maxDepth := n }

theorem Settled.withLimit {s : Session} (hs : s.Settled) (n : Nat) : (s.withLimit n).Settled :=
  ⟨hs.path, hs.onPath, hs.coherent⟩

theorem Settled.prove_withLimit {s : Session} (hs : s.Settled) {n : Nat} (hle : s.maxDepth ≤ n)
    (goal : Atom) (hroom : ∀ a, (s.prove goal).1 ≠ .error (.tooDeep a)) :
    (s.withLimit n).prove goal = ((s.prove goal).1, (s.prove goal).2.withLimit n) := by
  rcases hr : search s.database s.maxDepth [] goal s.memory.proven with ⟨r, q⟩
  have hprove := hs.prove_eq hr
  rw [hprove] at hroom ⊢
  have heq := (search_refines s.database hle [] goal s.memory.proven).eq (by
    rw [hr]
    exact hroom)
  exact (hs.withLimit n).prove_eq (heq.trans hr)

theorem Settled.prove_ne_tooDeep {s : Session} (hs : s.Settled)
    (hroom : s.database.ruleHeads.card < s.maxDepth) (goal a : Atom) :
    (s.prove goal).1 ≠ .error (.tooDeep a) := by
  have hend := search_ne_tooDeep hroom hs.coherent goal a
  rcases hr : search s.database s.maxDepth [] goal s.memory.proven with ⟨r, q⟩
  rw [hr] at hend
  rw [hs.prove_eq hr]
  exact hend

theorem surface_eq_depthLimit {s : Session} {subject : Tuple} {f : Failure} {a : String} {n : Nat}
    (h : s.surface subject f = .depthLimitExceeded a n) : ∃ b, f = .tooDeep b := by
  cases f with
  | underivable b => cases h
  | cycle path => cases h
  | tooDeep b => exact ⟨b, rfl⟩

/-- With a higher limit tuples are proved, or refused, in the same way, unless the
    lower one is exceeded. -/
theorem deriveAll_withLimit (ts : List Tuple) : ∀ {s : Session}, s.Settled → ∀ {n},
    s.maxDepth ≤ n → (∃ a u, deriveAll ts s = (.error (.depthLimitExceeded a s.maxDepth), u)) ∨
      deriveAll ts (s.withLimit n) = ((deriveAll ts s).1, (deriveAll ts s).2.withLimit n) := by
  induction ts with
  | nil => exact fun _ _ _ => Or.inr rfl
  | cons t rest ih =>
    intro s hs n hle
    obtain ⟨hnext, -⟩ := prove_succeeds hs (.resource t)
    have hsame := hs.prove_withLimit hle (.resource t)
    unfold deriveAll
    rcases hp : s.prove (.resource t) with ⟨f | d, s'⟩
    · rw [hp] at hsame hnext
      rcases f with a | path | a
      · rw [hsame (by simp)]
        exact Or.inr rfl
      · rw [hsame (by simp)]
        exact Or.inr rfl
      · exact Or.inl ⟨a.text, s', congrArg
          (fun n => (Except.error (Error.depthLimitExceeded a.text n), s')) hnext.maxDepth⟩
    · rw [hp] at hsame hnext
      rw [hsame (by simp)]
      dsimp only
      have hdepth : s'.maxDepth = s.maxDepth := hnext.maxDepth
      rcases ih hnext.settled (hdepth.trans_le hle) with ⟨a, u, hdeep⟩ | heq
      · rw [hdeep, hdepth]
        exact Or.inl ⟨a, u, rfl⟩
      · rw [heq]
        rcases deriveAll rest s' with ⟨e | ds, u⟩
        · exact Or.inr rfl
        · exact Or.inr rfl

theorem deriveAll_ne_depthLimit (ts : List Tuple) : ∀ {s : Session}, s.Settled →
    s.database.ruleHeads.card < s.maxDepth →
      ∀ a n, (deriveAll ts s).1 ≠ .error (.depthLimitExceeded a n) := by
  induction ts with
  | nil =>
    intro _ _ _ _ _ h
    cases h
  | cons t rest ih =>
    intro s hs hroom a n
    obtain ⟨hnext, -⟩ := prove_succeeds hs (.resource t)
    have hend := hs.prove_ne_tooDeep hroom (.resource t)
    unfold deriveAll
    rcases hp : s.prove (.resource t) with ⟨f | d, s'⟩
    · rw [hp] at hend
      intro h
      injection h with h
      obtain ⟨b, rfl⟩ := surface_eq_depthLimit h
      exact hend b rfl
    · rw [hp] at hnext
      rw [← hnext.database, ← hnext.maxDepth] at hroom
      have hrest := ih hnext.settled hroom a n
      dsimp only
      rcases hr : deriveAll rest s' with ⟨e | ds, s''⟩
      · rw [hr] at hrest
        exact hrest
      · intro h
        cases h

/-- **Every database has one outcome, and the guard can only withhold it.**  With any
    limit above the number of heads of rules the search takes one and the same course,
    so goals nest no deeper than there are heads, whatever the limit. -/
theorem derive_guarded (db : Database) :
    ∃ (outcome : Except Error (List (Tuple × Derivation))) (memory : Memory),
      (∀ a n, outcome ≠ .error (.depthLimitExceeded a n)) ∧
      (∀ n, (start db n).derive.1 = outcome ∨
        ∃ a, (start db n).derive.1 = .error (.depthLimitExceeded a n)) ∧
      (∀ n n', (start db n).derive.1 = outcome → n ≤ n' → (start db n').derive.1 = outcome) ∧
      ∀ n, db.ruleHeads.card < n → (start db n).derive = (outcome, ⟨db, n, memory⟩) := by
  have hmore : ∀ {n n' : Nat}, n ≤ n' →
      (∃ a u, (start db n).derive = (.error (.depthLimitExceeded a n), u)) ∨
        (start db n').derive = ((start db n).derive.1, (start db n).derive.2.withLimit n') :=
    fun hle => deriveAll_withLimit db.outputs (settled_start db _) hle
  have hend : ∀ a n, (start db (db.ruleHeads.card + 1)).derive.1 ≠
      .error (.depthLimitExceeded a n) :=
    deriveAll_ne_depthLimit db.outputs (settled_start db _) (Nat.lt_succ_self _)
  obtain ⟨hnext, -⟩ := deriveAll_succeeds db.outputs (settled_start db (db.ruleHeads.card + 1))
  have hdb : (start db (db.ruleHeads.card + 1)).derive.2.database = db := hnext.database
  rcases hr : (start db (db.ruleHeads.card + 1)).derive with ⟨outcome, last⟩
  rw [hr] at hend hdb
  have hlast : ∀ n, db.ruleHeads.card < n →
      (start db n).derive = (outcome, ⟨db, n, last.memory⟩) := by
    intro n hn
    rcases hmore hn with ⟨a, u, hdeep⟩ | heq
    · exact absurd (congrArg Prod.fst (hr.symm.trans hdeep)) (hend a _)
    · rw [heq, hr, withLimit, hdb]
  refine ⟨outcome, last.memory, hend, ?_, ?_, hlast⟩
  · intro n
    rcases Nat.lt_or_ge db.ruleHeads.card n with hn | hn
    · exact Or.inl (congrArg Prod.fst (hlast n hn))
    · rcases hmore (Nat.le_succ_of_le hn) with ⟨a, u, hdeep⟩ | heq
      · exact Or.inr ⟨a, congrArg Prod.fst hdeep⟩
      · exact Or.inl (congrArg Prod.fst (heq.symm.trans hr))
  · -- what has been found is found with any more room
    intro n n' hn hle
    rcases hmore hle with ⟨a, u, hdeep⟩ | heq
    · exact absurd (hn.symm.trans (congrArg Prod.fst hdeep)) (hend a n)
    · rw [heq]
      exact hn

end Session

end HornPlan
