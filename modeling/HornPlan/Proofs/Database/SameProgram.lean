/-
  HornPlan/Proofs/Database/SameProgram.lean
  =========================================
  **Databases that differ in the order of their clauses.**

  The texts of the clauses are inserted one by one into a sorted list.  What comes
  out is sorted without repetitions (`sorted_clauseSet`) and holds those texts and no
  others (`mem_clauseSet`).  A sorted list is determined by its members, so the clause
  set does not depend on the order of the clauses (`clauseSet_congr`).

  The order in which clauses are pushed decides which of several clauses with the same
  head and body is kept.  Where head and body determine the clause, it decides no more
  than the order in which clauses come out (`pushAll_perm`).
-/
import HornPlan.Proofs.Database.Clauses
import Mathlib.Data.List.Sort
import Mathlib.Data.String.Basic

namespace HornPlan.Database

variable {s x : String} {texts : List String}

/-! ### Inserting a text -/

theorem mem_insertSorted : x ∈ insertSorted s texts ↔ x = s ∨ x ∈ texts := by
  induction texts with
  | nil => simp [insertSorted]
  | cons t rest ih =>
    unfold insertSorted
    split
    · rename_i heq
      simp [heq]
    · split
      · exact List.mem_cons
      · rw [List.mem_cons, ih, List.mem_cons]
        exact or_left_comm

theorem sorted_insertSorted (h : texts.Pairwise (· < ·)) :
    (insertSorted s texts).Pairwise (· < ·) := by
  induction texts with
  | nil => exact List.pairwise_singleton _ _
  | cons t rest ih =>
    obtain ⟨hfirst, hrest⟩ := List.pairwise_cons.1 h
    unfold insertSorted
    split
    · exact h
    · rename_i hne
      split
      · rename_i hlt
        refine List.pairwise_cons.2 ⟨fun u hu => ?_, h⟩
        rcases List.mem_cons.1 hu with rfl | hu
        · exact hlt
        · exact hlt.trans (hfirst u hu)
      · rename_i hlt
        refine List.pairwise_cons.2 ⟨fun u hu => ?_, ih hrest⟩
        rcases mem_insertSorted.1 hu with rfl | hu
        · exact lt_of_le_of_ne (not_lt.1 hlt) (Ne.symm hne)
        · exact hfirst u hu

/-! ### All texts of a database -/

theorem mem_clauseSet {db : Database} : x ∈ db.clauseSet ↔ ∃ c ∈ db.clauses, c.text = x := by
  unfold clauseSet
  induction db.clauses with
  | nil => simp
  | cons c rest ih =>
    rw [List.foldr_cons, mem_insertSorted, ih, eq_comm]
    simp only [List.mem_cons, exists_eq_or_imp]

theorem sorted_clauseSet (db : Database) : db.clauseSet.Pairwise (· < ·) := by
  unfold clauseSet
  induction db.clauses with
  | nil => exact List.Pairwise.nil
  | cons c rest ih => exact sorted_insertSorted ih

/-- **Databases with the same clauses have the same clause set.** -/
theorem clauseSet_congr {db db' : Database} (h : ∀ c, c ∈ db.clauses ↔ c ∈ db'.clauses) :
    db.clauseSet = db'.clauseSet := by
  apply (sorted_clauseSet db).eq_of_mem_iff (sorted_clauseSet db')
  intro text
  simp only [mem_clauseSet, h]

/-! ### Clauses in another order -/

/-- Databases that differ at most in the order of what they hold. -/
structure SameProgram (db db' : Database) : Prop where
  clauses : db.clauses.Perm db'.clauses
  /-- They say the same, for the same reasons. -/
  program : ∀ head body kind,
    (∃ cl ∈ db.clauses, cl.head = head ∧ cl.body = body ∧ cl.kind = kind) ↔
      ∃ cl ∈ db'.clauses, cl.head = head ∧ cl.body = body ∧ cl.kind = kind
  clauseSet : db.clauseSet = db'.clauseSet
  count : ∀ kind, db.count kind = db'.count kind
  inputs : db.inputs.Perm db'.inputs
  outputs : db.outputs.Perm db'.outputs

theorem SameProgram.of_perm {db db' : Database} (hclauses : db.clauses.Perm db'.clauses)
    (hinputs : db.inputs.Perm db'.inputs) (houtputs : db.outputs.Perm db'.outputs) :
    db.SameProgram db' where
  clauses := hclauses
  program _ _ _ := by simp only [hclauses.mem_iff]
  clauseSet := clauseSet_congr fun _ => hclauses.mem_iff
  count _ := hclauses.countP_eq _
  inputs := hinputs
  outputs := houtputs

/-- The order in which clauses are pushed does not matter if head and body determine them. -/
theorem pushAll_perm {cs cs' : List Clause} (hperm : cs.Perm cs')
    (hkey : ∀ c ∈ cs, ∀ d ∈ cs, c.key = d.key → c = d) :
    (empty.pushAll cs).clauses.Perm (empty.pushAll cs').clauses := by
  have hnodup : ∀ cs, (empty.pushAll cs).clauses.Nodup := fun cs =>
    (distinct_pushAll_empty cs).of_map
  have hkey' : ∀ c ∈ cs', ∀ d ∈ cs', c.key = d.key → c = d := fun c hc d hd =>
    hkey c (hperm.mem_iff.2 hc) d (hperm.mem_iff.2 hd)
  -- without repetitions, having the same members is enough
  apply (List.perm_ext_iff_of_nodup (hnodup cs) (hnodup cs')).2
  intro c
  rw [mem_pushAll_empty hkey, mem_pushAll_empty hkey', hperm.mem_iff]

/-- Clauses told apart by head and body can be pushed onto separate databases. -/
theorem pushAll_append_perm {keep : Atom × List Atom → Bool} {cs ts : List Clause}
    (hcs : ∀ c ∈ cs, keep c.key = true) (hts : ∀ t ∈ ts, keep t.key = false) :
    (empty.pushAll (cs ++ ts)).clauses.Perm
      ((empty.pushAll cs).clauses ++ (empty.pushAll ts).clauses) := by
  have hselect : ∀ p : Atom × List Atom → Bool,
      (empty.pushAll ((cs ++ ts).filter fun c => p c.key)).clauses =
        (empty.pushAll (cs ++ ts)).clauses.filter fun c => p c.key :=
    fun p => clauses_pushAll_filter p (cs ++ ts) rfl
  -- what is selected is one of the two lists, and what is not is the other
  have hleft := hselect keep
  rw [List.filter_append, List.filter_eq_self.2 hcs,
    List.filter_eq_nil_iff.2 fun t ht => by simp [hts t ht], List.append_nil] at hleft
  have hright := hselect fun k => !keep k
  rw [List.filter_append, List.filter_eq_nil_iff.2 fun c hc => by simp [hcs c hc],
    List.filter_eq_self.2 fun t ht => by simp [hts t ht], List.nil_append] at hright
  rw [hleft, hright]
  exact (List.filter_append_perm _ _).symm

end HornPlan.Database
