/-
  HornPlan/Proofs/Database/Clauses.lean
  =====================================
  **What a database holds, and what looking it up yields.**

  A clause is made in one of seven ways (`Clause.Formed`).  A database holds the clauses
  that were pushed, each head with a body once (`mem_pushAll`, `exists_key_pushAll`,
  `Distinct.pushAll`).  Selecting clauses by head and body commutes with pushing them
  (`clauses_pushAll_filter`).

  `fact?` finds the first fact for an atom (`fact?_eq_some`), and nothing only when
  there is none (`fact?_eq_none`).  `rulesFor` finds exactly the other clauses for
  it, with their positions (`mem_rulesFor`), by rank and then by position
  (`rulesFor_sorted`).
-/
import HornPlan.Database

namespace HornPlan.Clause

/-! ### How clauses are made -/

inductive Formed : Clause → Prop
  | inputFact (t : Tuple) : Formed (.inputFact t)
  | task (t : Task) : Formed (.ofTask t)
  | assignment (t : Tuple) : Formed (.assignment t)
  | generalization (t : Tuple) : Formed (.generalization t)
  | dependentDescriptor (s : Step) (predicate : String) (extra : List Atom) :
    Formed (.dependentDescriptor s predicate extra)
  | allDependencies (subject : Tuple) (requirements : List Atom) :
    Formed (.allDependencies subject requirements)
  | completion (subject : Tuple) (needsProducer : Bool) : Formed (.completion subject needsProducer)

theorem Formed.readsFirst {c : Clause} (h : c.Formed) {s : Step} (hs : c.step = some s) :
    c.kind ≠ .inputFact ∧ c.body.head? = some (.resource s.input) := by
  cases h <;> cases hs <;> exact ⟨nofun, rfl⟩

/-- A clause that passes a value on passes it to a tuple of the same type. -/
theorem Formed.type_eq {c : Clause} (h : c.Formed)
    (hkind : c.kind = .generalization ∨ c.kind = .assignment ∨ c.kind = .completion) {t u : Tuple}
    (ht : c.head = .resource t) (hu : c.body.head? = some (.resource u)) : u.type = t.type := by
  cases h with
  | assignment | generalization =>
    cases ht
    cases hu
    rfl
  | completion subject needsProducer =>
    cases ht
    cases needsProducer <;> cases hu
    rfl
  | _ => rcases hkind with hk | hk | hk <;> cases hk

end HornPlan.Clause

namespace HornPlan.Database

variable {db : Database} {a : Atom} {i : Nat} {c : Clause}

/-! ### Pushing clauses -/

theorem mem_push {d : Clause} (h : d ∈ (db.push c).clauses) : d ∈ db.clauses ∨ d = c := by
  unfold push at h
  split at h
  · exact Or.inl h
  · rcases List.mem_append.1 h with h | h
    · exact Or.inl h
    · exact Or.inr (List.mem_singleton.1 h)

theorem mem_push_of_mem {d : Clause} (h : d ∈ db.clauses) : d ∈ (db.push c).clauses := by
  unfold push
  split
  · exact h
  · exact List.mem_append_left _ h

/-- A clause that is pushed is there afterwards, or the same clause is. -/
theorem exists_key_push (db : Database) (c : Clause) :
    ∃ d ∈ (db.push c).clauses, d.key = c.key := by
  unfold push
  split
  · rename_i h
    simpa [contains] using h
  · exact ⟨c, List.mem_append_right _ List.mem_cons_self, rfl⟩

theorem pushAll_cons (db : Database) (c : Clause) (cs : List Clause) :
    db.pushAll (c :: cs) = (db.push c).pushAll cs := rfl

theorem mem_pushAll {cs : List Clause} {d : Clause} (h : d ∈ (db.pushAll cs).clauses) :
    d ∈ db.clauses ∨ d ∈ cs := by
  induction cs generalizing db with
  | nil => exact Or.inl h
  | cons c rest ih =>
    rw [pushAll_cons] at h
    rcases ih h with h | h
    · rcases mem_push h with h | rfl
      · exact Or.inl h
      · exact Or.inr List.mem_cons_self
    · exact Or.inr (List.mem_cons_of_mem _ h)

def Formed (db : Database) : Prop := ∀ c ∈ db.clauses, c.Formed

theorem Formed.pushAll {cs : List Clause} (h : db.Formed) (hcs : ∀ c ∈ cs, c.Formed) :
    (db.pushAll cs).Formed := by
  intro c hc
  rcases mem_pushAll hc with hc | hc
  · exact h c hc
  · exact hcs c hc

theorem mem_pushAll_of_mem {cs : List Clause} {d : Clause} (h : d ∈ db.clauses) :
    d ∈ (db.pushAll cs).clauses := by
  induction cs generalizing db with
  | nil => exact h
  | cons c rest ih => exact ih (mem_push_of_mem h)

/-- Of every clause that is pushed the head with the body is there afterwards. -/
theorem exists_key_pushAll {cs : List Clause} (h : c ∈ cs) :
    ∃ d ∈ (db.pushAll cs).clauses, d.key = c.key := by
  induction cs generalizing db with
  | nil => cases h
  | cons c' rest ih =>
    rcases List.mem_cons.1 h with rfl | h
    · obtain ⟨d, hd, hkey⟩ := exists_key_push db c
      rw [pushAll_cons]
      exact ⟨d, mem_pushAll_of_mem hd, hkey⟩
    · exact ih h

/-- No two clauses have the same head and body. -/
def Distinct (db : Database) : Prop := (db.clauses.map Clause.key).Nodup

theorem Distinct.push (h : db.Distinct) (c : Clause) : (db.push c).Distinct := by
  unfold Database.push
  split
  · exact h
  · rename_i hnew
    have hkey : ∀ d ∈ db.clauses, d.key ≠ c.key := by simpa [contains] using hnew
    rw [Distinct, List.map_append, List.nodup_append]
    exact ⟨h, by simp, by simpa using hkey⟩

theorem Distinct.pushAll (cs : List Clause) (h : db.Distinct) : (db.pushAll cs).Distinct := by
  induction cs generalizing db with
  | nil => exact h
  | cons c rest ih => exact ih (h.push c)

theorem distinct_pushAll_empty (cs : List Clause) : (empty.pushAll cs).Distinct :=
  Distinct.pushAll cs List.nodup_nil

theorem mem_of_mem_pushAll_empty {cs : List Clause} (h : c ∈ (empty.pushAll cs).clauses) :
    c ∈ cs :=
  (mem_pushAll h).resolve_left List.not_mem_nil

theorem mem_keys_pushAll {cs : List Clause} {k : Atom × List Atom} :
    k ∈ (empty.pushAll cs).clauses.map Clause.key ↔ k ∈ cs.map Clause.key := by
  rw [List.mem_map, List.mem_map]
  constructor
  · rintro ⟨c, hc, rfl⟩
    exact ⟨c, mem_of_mem_pushAll_empty hc, rfl⟩
  · rintro ⟨c, hc, rfl⟩
    exact exists_key_pushAll hc

/-- Clauses with different heads or bodies are all kept, in their order. -/
theorem clauses_pushAll_of_nodup {cs : List Clause}
    (h : ((db.clauses ++ cs).map Clause.key).Nodup) :
    (db.pushAll cs).clauses = db.clauses ++ cs := by
  induction cs generalizing db with
  | nil => exact (List.append_nil _).symm
  | cons c rest ih =>
    have hnew : db.contains c = false := by
      rw [List.map_append, List.nodup_append] at h
      simpa [contains] using fun d hd heq =>
        h.2.2 _ (List.mem_map_of_mem hd) c.key List.mem_cons_self heq
    have hpush : (db.push c).clauses = db.clauses ++ [c] := by rw [push, hnew]; rfl
    rw [pushAll_cons, ih, hpush, List.append_assoc, List.singleton_append]
    rwa [hpush, List.append_assoc, List.singleton_append]

/-- What is pushed onto the empty database is in it afterwards, if head and body determine
    what is pushed. -/
theorem mem_pushAll_empty {cs : List Clause} (hkey : ∀ c ∈ cs, ∀ d ∈ cs, c.key = d.key → c = d) :
    c ∈ (empty.pushAll cs).clauses ↔ c ∈ cs := by
  refine ⟨mem_of_mem_pushAll_empty, fun hc => ?_⟩
  obtain ⟨d, hd, hdc⟩ : ∃ d ∈ (empty.pushAll cs).clauses, d.key = c.key := exists_key_pushAll hc
  exact hkey d (mem_of_mem_pushAll_empty hd) c hc hdc ▸ hd

/-! ### Selecting clauses by head and body -/

/-- Pushing selected clauses comes to selecting from what is pushed. -/
theorem clauses_pushAll_filter (keep : Atom × List Atom → Bool) (cs : List Clause) :
    ∀ {db db' : Database}, db'.clauses = db.clauses.filter (fun c => keep c.key) →
      (db'.pushAll (cs.filter fun c => keep c.key)).clauses =
        (db.pushAll cs).clauses.filter fun c => keep c.key := by
  induction cs with
  | nil => exact fun h => h
  | cons c rest ih =>
    intro db db' h
    rw [pushAll_cons]
    by_cases hkeep : keep c.key = true
    · rw [List.filter_cons, if_pos hkeep, pushAll_cons]
      apply ih
      -- what has the same head and body is selected too
      have hcontains : db'.contains c = db.contains c := by
        rw [contains, contains, h, List.any_filter]
        congr 1
        funext d
        by_cases hd : d.key = c.key
        · simp [hd, hkeep]
        · simp [hd]
      unfold push
      rw [hcontains]
      split
      · exact h
      · simp [h, hkeep]
    · rw [List.filter_cons, if_neg hkeep]
      apply ih
      rw [h]
      unfold push
      split
      · rfl
      · simp [hkeep]

/-! ### Facts -/

/-- Is the clause a fact that states the atom? -/
def States (c : Clause) (a : Atom) : Prop := c.kind = .inputFact ∧ c.head = a

theorem fact?_eq_some (h : db.fact? a = some i) :
    (∃ c, db.clauses[i]? = some c ∧ States c a) ∧
      ∀ j c, db.clauses[j]? = some c → States c a → i ≤ j := by
  obtain ⟨hi, hstates, hfirst⟩ := List.findIdx?_eq_some_iff_getElem.1 h
  refine ⟨⟨db.clauses[i], List.getElem?_eq_getElem hi, by simpa [States] using hstates⟩, ?_⟩
  intro j c hj hc
  apply Nat.not_lt.1
  intro hlt
  have hget : db.clauses[j] = c := (List.getElem?_eq_some_iff.1 hj).2
  exact hfirst j hlt (by simpa [hget, States] using hc)

theorem fact?_eq_none : db.fact? a = none ↔ ∀ c ∈ db.clauses, ¬ States c a := by
  simp only [fact?, List.findIdx?_eq_none_iff, decide_eq_false_iff_not, States]

/-- A stated atom is found to be one. -/
theorem fact?_ne_none (hc : c ∈ db.clauses) (h : States c a) : db.fact? a ≠ none := fun hnone =>
  fact?_eq_none.1 hnone c hc h

/-! ### Rules -/

theorem mem_rulesAmong {k : Nat} {cs : List Clause} :
    (i, c) ∈ rulesAmong a k cs ↔
      ∃ j, i = k + j ∧ cs[j]? = some c ∧ c.kind ≠ .inputFact ∧ c.head = a := by
  induction cs generalizing k with
  | nil => simp [rulesAmong]
  | cons d rest ih =>
    -- the first clause is at offset 0, the others one further than in the tail
    have hsplit : (∃ j, i = k + j ∧ (d :: rest)[j]? = some c ∧ c.kind ≠ .inputFact ∧ c.head = a) ↔
        (i = k ∧ d = c ∧ c.kind ≠ .inputFact ∧ c.head = a) ∨
          ∃ j, i = k + 1 + j ∧ rest[j]? = some c ∧ c.kind ≠ .inputFact ∧ c.head = a := by
      constructor
      · rintro ⟨_ | j, hi, hget, hc⟩
        · exact Or.inl ⟨hi, by simpa using hget, hc⟩
        · exact Or.inr ⟨j, by omega, by simpa using hget, hc⟩
      · rintro (⟨hi, rfl, hc⟩ | ⟨j, hi, hget, hc⟩)
        · exact ⟨0, hi, by simp, hc⟩
        · exact ⟨j + 1, by omega, by simpa using hget, hc⟩
    rw [hsplit, rulesAmong]
    split
    · rename_i hd
      rw [List.mem_cons, ih, Prod.mk.injEq]
      refine or_congr ⟨?_, ?_⟩ Iff.rfl
      · rintro ⟨hi, rfl⟩
        exact ⟨hi, rfl, hd⟩
      · rintro ⟨hi, rfl, -⟩
        exact ⟨hi, rfl⟩
    · rename_i hd
      rw [ih]
      refine ⟨Or.inr, ?_⟩
      rintro (⟨-, rfl, hc⟩ | h)
      · exact absurd hc hd
      · exact h

theorem rank_lt (k : ClauseKind) : k.rank < 5 := by cases k <;> decide

/-- The rules for an atom are the clauses with that head that are no facts. -/
theorem mem_rulesFor :
    (i, c) ∈ db.rulesFor a ↔ db.clauses[i]? = some c ∧ c.kind ≠ .inputFact ∧ c.head = a := by
  simp only [rulesFor, List.mem_flatMap, List.mem_range, List.mem_filter, decide_eq_true_eq]
  constructor
  · rintro ⟨_, -, hmem, -⟩
    obtain ⟨j, hi, h⟩ := mem_rulesAmong.1 hmem
    rw [Nat.zero_add] at hi
    exact hi ▸ h
  · intro h
    exact ⟨c.kind.rank, rank_lt c.kind, mem_rulesAmong.2 ⟨i, (Nat.zero_add i).symm, h⟩, rfl⟩

theorem exists_mem_rulesFor (hc : c ∈ db.clauses) (hkind : c.kind ≠ .inputFact)
    (hhead : c.head = a) : ∃ i, (i, c) ∈ db.rulesFor a := by
  obtain ⟨i, hi⟩ := List.getElem?_of_mem hc
  exact ⟨i, mem_rulesFor.2 ⟨hi, hkind, hhead⟩⟩

/-- The first rule is of lower rank than the second, or of its rank and not behind it. -/
def Preferred (r s : Nat × Clause) : Prop :=
  r.2.kind.rank < s.2.kind.rank ∨ r.2.kind.rank = s.2.kind.rank ∧ r.1 ≤ s.1

theorem Preferred.refl (r : Nat × Clause) : Preferred r r := Or.inr ⟨rfl, Nat.le_refl _⟩

theorem Preferred.rank_le {r s : Nat × Clause} (h : Preferred r s) :
    r.2.kind.rank ≤ s.2.kind.rank := by
  rcases h with h | h <;> omega

theorem rulesAmong_sorted {k : Nat} {cs : List Clause} :
    (rulesAmong a k cs).Pairwise fun r s => r.1 ≤ s.1 := by
  induction cs generalizing k with
  | nil => exact .nil
  | cons c rest ih =>
    rw [rulesAmong]
    split
    · refine List.pairwise_cons.2 ⟨?_, ih⟩
      rintro ⟨i, d⟩ hd
      obtain ⟨j, rfl, -⟩ := mem_rulesAmong.1 hd
      dsimp only
      omega
    · exact ih

/-- **Rules are tried by rank, and those of one rank by position.** -/
theorem rulesFor_sorted (db : Database) (a : Atom) : (db.rulesFor a).Pairwise Preferred := by
  rw [rulesFor, List.pairwise_flatMap]
  constructor
  · intro n _
    refine List.Pairwise.imp_of_mem ?_ (rulesAmong_sorted.filter _)
    intro r s hr hs hle
    have hr := of_decide_eq_true (List.mem_filter.1 hr).2
    have hs := of_decide_eq_true (List.mem_filter.1 hs).2
    exact Or.inr ⟨hr.trans hs.symm, hle⟩
  · apply List.pairwise_lt_range.imp
    intro m n hmn r hr s hs
    have hr := of_decide_eq_true (List.mem_filter.1 hr).2
    have hs := of_decide_eq_true (List.mem_filter.1 hs).2
    apply Or.inl
    omega

end HornPlan.Database
