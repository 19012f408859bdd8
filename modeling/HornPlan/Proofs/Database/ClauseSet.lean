/-
  HornPlan/Proofs/Database/ClauseSet.lean
  =======================================
  **What a clause set tells about the database.**

  A database keeps clauses apart by head and body, and the clause set holds their texts.
  If all names are words, the text of a clause can be cut into the texts of its atoms
  again: neither the arrow nor a comma nor the full stop is made of characters that occur
  in these (`Clause.text_eq_iff`).  So two clauses look the same only if one of them says
  of a property called `all_dependencies` what the other says of the aggregate.

  The clause set counts the clauses that look different, and tells two databases apart as
  far as their clauses look different (`clauseSet_faithful_iff`).  Where no property has the
  name of the aggregate, this is as far as their heads and bodies are different.
  `Demo.aggregateQuery_not_faithful` compiles a document in which one has.

  Specification, section E.3, of `clause_set`.
-/
import HornPlan.Demo
import HornPlan.Proofs.Atom.Text
import HornPlan.Proofs.Database.SameProgram
import HornPlan.Proofs.Query.Form

namespace HornPlan

/-! ### The text of a clause -/

namespace Clause

variable {c d : Clause} {as bs : List Atom} {x : Char} {sep : List Char}

/-- Are all names in the clause words? -/
def isWorded (c : Clause) : Bool := (c.head :: c.body).all Atom.isWorded

/-- What a head and a body look like. -/
def look (k : Atom × List Atom) : Atom × List Atom := (k.1.asWritten, k.2.map Atom.asWritten)

/-- What follows an atom of a clause, if further atoms stand behind a separator. -/
def following : List Char → List Atom → List Char
  | _, [] => ['.']
  | sep, a :: rest => sep ++ (a.text.toList ++ following [',', ' '] rest)

theorem toList_intercalate_body (a : Atom) (rest : List Atom) :
    (", ".intercalate ((a :: rest).map Atom.text)).toList ++ ['.'] =
      a.text.toList ++ following [',', ' '] rest := by
  induction rest generalizing a with
  | nil => simp [following]
  | cons b rest ih =>
    rw [List.map_cons, List.map_cons, String.intercalate_cons_cons, ← List.map_cons,
      String.toList_append, List.append_assoc, ih b, String.toList_append, List.append_assoc]
    rfl

theorem toList_text (c : Clause) :
    c.text.toList = c.head.text.toList ++ following [' ', ':', '-', ' '] c.body := by
  unfold text
  cases c.body with
  | nil => simp [following]
  | cons a rest => simp [following, ← toList_intercalate_body]

/-- What follows an atom begins with a character that no text of an atom has. -/
theorem head_following (hx : Atom.isTextChar x = false) :
    ∀ y ∈ (following (x :: sep) as).head?, ¬ Atom.isTextChar y = true := by
  cases as with
  | nil => simpa [following] using (by decide : Atom.isTextChar '.' = false)
  | cons a rest => simpa [following] using hx

theorem map_text_of_following (hx : Atom.isTextChar x = false) (hdot : x ≠ '.')
    (has : ∀ a ∈ as, a.isWorded = true) (hbs : ∀ b ∈ bs, b.isWorded = true)
    (h : following (x :: sep) as = following (x :: sep) bs) :
    as.map Atom.text = bs.map Atom.text := by
  induction as generalizing bs x sep with
  | nil =>
    cases bs with
    | nil => rfl
    | cons b bs => exact absurd (List.cons.inj h).1.symm hdot
  | cons a as ih =>
    cases bs with
    | nil => exact absurd (List.cons.inj h).1 hdot
    | cons b bs =>
      rw [List.forall_mem_cons] at has hbs
      have hcomma : Atom.isTextChar ',' = false := by decide
      obtain ⟨hhead, hrest⟩ := eq_of_append (Atom.isTextChar_of_mem_text has.1)
        (Atom.isTextChar_of_mem_text hbs.1) (head_following hcomma) (head_following hcomma)
        (List.append_cancel_left h)
      rw [List.map_cons, List.map_cons, String.toList_inj.1 hhead,
        ih hcomma (by decide) has.2 hbs.2 hrest]

theorem map_text_eq_iff (has : ∀ a ∈ as, a.isWorded = true) (hbs : ∀ b ∈ bs, b.isWorded = true) :
    as.map Atom.text = bs.map Atom.text ↔ as.map Atom.asWritten = bs.map Atom.asWritten := by
  induction as generalizing bs with
  | nil => cases bs <;> simp
  | cons a as ih =>
    cases bs with
    | nil => simp
    | cons b bs =>
      rw [List.forall_mem_cons] at has hbs
      simp only [List.map_cons, List.cons.injEq, Atom.text_eq_iff has.1 hbs.1, ih has.2 hbs.2]

/-- **Clauses have the same text if their heads and bodies look the same.** -/
theorem text_eq_iff (hc : c.isWorded = true) (hd : d.isWorded = true) :
    c.text = d.text ↔ look c.key = look d.key := by
  simp only [isWorded, List.all_eq_true, List.forall_mem_cons] at hc hd
  have harrow : Atom.isTextChar ' ' = false := by decide
  calc c.text = d.text
    _ ↔ c.head.text = d.head.text ∧ c.body.map Atom.text = d.body.map Atom.text := by
      constructor
      · intro h
        have hlist := congrArg String.toList h
        rw [toList_text, toList_text] at hlist
        obtain ⟨hhead, hbody⟩ := eq_of_append (Atom.isTextChar_of_mem_text hc.1)
          (Atom.isTextChar_of_mem_text hd.1) (head_following harrow) (head_following harrow) hlist
        exact ⟨String.toList_inj.1 hhead,
          map_text_of_following harrow (by decide) hc.2 hd.2 hbody⟩
      · rintro ⟨hhead, hbody⟩
        have hempty : c.body.isEmpty = d.body.isEmpty := by
          simpa using congrArg List.isEmpty hbody
        rw [text, text, hhead, hbody, hempty]
    _ ↔ look c.key = look d.key := by
      rw [Atom.text_eq_iff hc.1 hd.1, map_text_eq_iff hc.2 hd.2, look, look, Prod.mk.injEq]
      rfl

/-- No property has the name of the aggregate. -/
def Plain (c : Clause) : Prop := ∀ a ∈ c.head :: c.body, ∀ t, a ≠ .property "all_dependencies" t

theorem Plain.look_key (h : c.Plain) : look c.key = c.key := by
  have hatom : ∀ a ∈ c.head :: c.body, a.asWritten = a := fun a ha =>
    Atom.asWritten_eq_self (h a ha)
  rw [List.forall_mem_cons] at hatom
  rw [look, key, hatom.1, List.map_congr_left hatom.2, List.map_id']

end Clause

open Clause

namespace Database

variable {db db' : Database} {cs ds : List Clause}

/-! ### The texts of a database -/

/-- What the clauses of a database look like. -/
def looks (db : Database) : List (Atom × List Atom) := (db.clauses.map Clause.key).map look

theorem nodup_texts_iff (h : ∀ c ∈ db.clauses, c.isWorded = true) :
    (db.clauses.map Clause.text).Nodup ↔ db.looks.Nodup := by
  rw [looks, List.map_map, List.Nodup, List.Nodup, List.pairwise_map, List.pairwise_map]
  exact List.Pairwise.iff_of_mem fun hc hd => not_congr (text_eq_iff (h _ hc) (h _ hd))

/-- **The clause set has as many elements as there are clauses if they all look different.** -/
theorem length_clauseSet_eq_iff (h : ∀ c ∈ db.clauses, c.isWorded = true) :
    db.clauseSet.length = db.size ↔ db.looks.Nodup := by
  rw [← nodup_texts_iff h, size, ← List.length_map Clause.text]
  have hnodup : db.clauseSet.Nodup := (sorted_clauseSet db).imp ne_of_lt
  have hmem : ∀ x, x ∈ db.clauseSet ↔ x ∈ db.clauses.map Clause.text := fun x => by
    rw [mem_clauseSet, List.mem_map]
  constructor
  · intro hlength
    have hperm := (List.subperm_of_subset hnodup fun x => (hmem x).1).perm_of_length_le hlength.ge
    exact hperm.nodup_iff.1 hnodup
  · exact fun htexts => ((List.perm_ext_iff_of_nodup hnodup htexts).2 hmem).length_eq

theorem clauseSet_subset_iff (h : ∀ c ∈ db.clauses, c.isWorded = true)
    (h' : ∀ c ∈ db'.clauses, c.isWorded = true) :
    db.clauseSet ⊆ db'.clauseSet ↔ db.looks ⊆ db'.looks := by
  have hlooks : ∀ c ∈ db.clauses, c.text ∈ db'.clauseSet ↔ look c.key ∈ db'.looks := by
    intro c hc
    rw [mem_clauseSet, looks, List.map_map, List.mem_map]
    exact exists_congr fun d => and_congr_right fun hd => text_eq_iff (h' d hd) (h c hc)
  calc db.clauseSet ⊆ db'.clauseSet
    _ ↔ ∀ c ∈ db.clauses, c.text ∈ db'.clauseSet := by
      constructor
      · exact fun hsub c hc => hsub (mem_clauseSet.2 ⟨c, hc, rfl⟩)
      · intro hall x hx
        obtain ⟨c, hc, rfl⟩ := mem_clauseSet.1 hx
        exact hall c hc
    _ ↔ ∀ c ∈ db.clauses, look c.key ∈ db'.looks := forall₂_congr hlooks
    _ ↔ ∀ k ∈ db.looks, k ∈ db'.looks := by simp only [looks, List.forall_mem_map]
    _ ↔ db.looks ⊆ db'.looks := Iff.rfl

/-- **Clause sets are equal if the clauses of both databases look the same.** -/
theorem clauseSet_eq_iff (h : ∀ c ∈ db.clauses, c.isWorded = true)
    (h' : ∀ c ∈ db'.clauses, c.isWorded = true) :
    db.clauseSet = db'.clauseSet ↔ ∀ k, k ∈ db.looks ↔ k ∈ db'.looks := by
  constructor
  · intro heq k
    have hsub : db.clauseSet ⊆ db'.clauseSet := fun x hx => heq ▸ hx
    have hsub' : db'.clauseSet ⊆ db.clauseSet := fun x hx => heq ▸ hx
    exact ⟨fun hk => (clauseSet_subset_iff h h').1 hsub hk,
      fun hk => (clauseSet_subset_iff h' h).1 hsub' hk⟩
  · intro hk
    apply (sorted_clauseSet db).eq_of_mem_iff (sorted_clauseSet db')
    intro x
    exact ⟨fun hx => (clauseSet_subset_iff h h').2 (fun k => (hk k).1) hx,
      fun hx => (clauseSet_subset_iff h' h).2 (fun k => (hk k).2) hx⟩

/-! ### Databases of pushed clauses -/

theorem mem_looks_pushAll {k : Atom × List Atom} :
    k ∈ (empty.pushAll cs).looks ↔ k ∈ (cs.map Clause.key).map look := by
  rw [looks, List.mem_map, List.mem_map]
  exact exists_congr fun _ => and_congr_left fun _ => mem_keys_pushAll

/-- Clauses that look the same are the same. -/
def Legible (cs : List Clause) : Prop :=
  ∀ c ∈ cs, ∀ d ∈ cs, look c.key = look d.key → c.key = d.key

theorem nodup_looks_pushAll : (empty.pushAll cs).looks.Nodup ↔ Legible cs := by
  rw [looks, List.nodup_map_iff_inj_on (distinct_pushAll_empty cs)]
  simp only [mem_keys_pushAll, List.forall_mem_map, Legible]

theorem legible_of_plain (h : ∀ c ∈ cs, c.Plain) : Legible cs := by
  intro c hc d hd hlook
  rwa [(h c hc).look_key, (h d hd).look_key] at hlook

theorem map_look_of_plain (h : ∀ c ∈ cs, c.Plain) :
    (cs.map Clause.key).map look = cs.map Clause.key := by
  rw [List.map_map]
  exact List.map_congr_left fun c hc => (h c hc).look_key

theorem isWorded_of_mem_pushAll (h : ∀ c ∈ cs, c.isWorded = true) :
    ∀ c ∈ (empty.pushAll cs).clauses, c.isWorded = true := fun c hc =>
  h c (mem_of_mem_pushAll_empty hc)

/-! ### What clause sets tell -/

/-- The clause sets have as many elements as there are clauses, and they tell the two
    databases apart. -/
structure Faithful (db db' : Database) : Prop where
  length_eq : db.clauseSet.length = db.size
  length_eq' : db'.clauseSet.length = db'.size
  eq_iff : db.clauseSet = db'.clauseSet ↔
    ∀ k, k ∈ db.clauses.map Clause.key ↔ k ∈ db'.clauses.map Clause.key

theorem faithful_iff (h : ∀ c ∈ db.clauses, c.isWorded = true)
    (h' : ∀ c ∈ db'.clauses, c.isWorded = true) :
    Faithful db db' ↔ db.looks.Nodup ∧ db'.looks.Nodup ∧
      ((∀ k, k ∈ db.looks ↔ k ∈ db'.looks) →
        ∀ k, k ∈ db.clauses.map Clause.key ↔ k ∈ db'.clauses.map Clause.key) := by
  constructor
  · rintro ⟨hlength, hlength', heq⟩
    exact ⟨(length_clauseSet_eq_iff h).1 hlength, (length_clauseSet_eq_iff h').1 hlength',
      fun hlooks => heq.1 ((clauseSet_eq_iff h h').2 hlooks)⟩
  · rintro ⟨hnodup, hnodup', hkeys⟩
    refine ⟨(length_clauseSet_eq_iff h).2 hnodup, (length_clauseSet_eq_iff h').2 hnodup', ?_⟩
    rw [clauseSet_eq_iff h h']
    refine ⟨hkeys, fun hsame k => ?_⟩
    -- what clauses look like depends on head and body only
    rw [looks, looks, List.mem_map, List.mem_map]
    exact exists_congr fun _ => and_congr_left fun _ => hsame _

/-- **Clause sets are faithful exactly if what looks the same is the same.**  It is unless a
    property has the name of the aggregate. -/
theorem clauseSet_faithful_iff (hcs : ∀ c ∈ cs, c.isWorded = true)
    (hds : ∀ d ∈ ds, d.isWorded = true) :
    (Faithful (empty.pushAll cs) (empty.pushAll ds) ↔ Legible cs ∧ Legible ds ∧
      ((∀ k, k ∈ (cs.map Clause.key).map look ↔ k ∈ (ds.map Clause.key).map look) →
        ∀ k, k ∈ cs.map Clause.key ↔ k ∈ ds.map Clause.key)) ∧
      ((∀ c ∈ cs ++ ds, c.Plain) → Faithful (empty.pushAll cs) (empty.pushAll ds)) := by
  have hiff : Faithful (empty.pushAll cs) (empty.pushAll ds) ↔ Legible cs ∧ Legible ds ∧
      ((∀ k, k ∈ (cs.map Clause.key).map look ↔ k ∈ (ds.map Clause.key).map look) →
        ∀ k, k ∈ cs.map Clause.key ↔ k ∈ ds.map Clause.key) := by
    rw [faithful_iff (isWorded_of_mem_pushAll hcs) (isWorded_of_mem_pushAll hds)]
    simp only [nodup_looks_pushAll, mem_looks_pushAll, mem_keys_pushAll]
  refine ⟨hiff, fun hplain => hiff.2 ?_⟩
  obtain ⟨hplain, hplain'⟩ := List.forall_mem_append.1 hplain
  refine ⟨legible_of_plain hplain, legible_of_plain hplain', ?_⟩
  rw [map_look_of_plain hplain, map_look_of_plain hplain']
  exact id

end Database

/-! ### Names that are easily confused, and a name that is -/

namespace Demo

open Query Database

/-- Sauces of two types; an alias may look like another one with an id. -/
def sauces : List Clause :=
  [.inputFact (instanceOf "sauce_1" 2), .inputFact (instanceOf "sauce" 12),
    .generalization (instanceOf "sauce" 12),
    .allDependencies (instanceOf "sauce" 1)
      [.property "sauce_1" (instanceOf "sauce" 1), .resource (instanceOf "sauce_1" 2)],
    .completion (instanceOf "sauce" 1) true]

theorem clauseSet_faithful_sauces :
    (∀ c ∈ sauces, c.isWorded = true) ∧ (∀ c ∈ sauces.reverse ++ sauces, c.isWorded = true) ∧
      Faithful (empty.pushAll sauces) (empty.pushAll (sauces.reverse ++ sauces)) := by
  have hworded : ∀ c ∈ sauces, c.isWorded = true := by decide
  have hworded' : ∀ c ∈ sauces.reverse ++ sauces, c.isWorded = true := by decide
  have hplain : ∀ c ∈ sauces ++ (sauces.reverse ++ sauces), c.Plain := by
    simp [sauces, Plain, inputFact, generalization, Clause.allDependencies, completion]
  exact ⟨hworded, hworded', (clauseSet_faithful_iff hworded hworded').2 hplain⟩

/-- The demonstration with a descriptor that has the name of the aggregate. -/
def aggregateCatalog : Except Error Catalog := do
  (← catalog).registerDescriptor "all_dependencies" nameDish

/-- A recipe that is declared with that descriptor, and once more with a topic that it
    depends on. -/
def aggregateQuery : Query :=
  ((Query.empty.withInput "topic" 1 [("topic", .text "leek")]).withResource "recipe"
      ((ResourceSpec.ofId 2).describe "all_dependencies" [("of", "topic", 1)])).withResource
      "recipe" ((ResourceSpec.ofId 2).dependsOn "topic" 1)
    |>.withOutput "recipe" 2

def aggregateDatabase : Except Error Database := do
  aggregateQuery.compile (← registry) (← aggregateCatalog)

/-- Its property and the aggregate both look like `all_dependencies(recipe_2) :- topic_1.` -/
theorem aggregateQuery_not_faithful :
    ∃ r c db, registry = .ok r ∧ aggregateCatalog = .ok c ∧ aggregateQuery.compile r c = .ok db ∧
      (∀ cl ∈ db.clauses, cl.Formed ∧ cl.isWorded = true) ∧
      (empty.pushAll db.clauses).size = 7 ∧ (empty.pushAll db.clauses).clauseSet.length = 6 ∧
      ¬ Faithful (empty.pushAll db.clauses) (empty.pushAll db.clauses) := by
  have hall : (aggregateDatabase.toOption.any fun db => db.clauses.all isWorded &&
      decide (db.clauses.map Clause.key).Nodup && decide (db.size = 7) &&
        decide (db.clauseSet.length = 6)) = true := by decide +kernel
  obtain ⟨db, hdb, hall⟩ := any_toOption_iff.1 hall
  simp only [Bool.and_eq_true, List.all_eq_true, decide_eq_true_eq] at hall
  obtain ⟨⟨⟨hworded, hnodup⟩, hsize⟩, hlength⟩ := hall
  obtain ⟨r, hr, hdb⟩ := bind_eq_ok.1 hdb
  obtain ⟨c, hc, hdb⟩ := bind_eq_ok.1 hdb
  have hpush : (empty.pushAll db.clauses).clauses = db.clauses := clauses_pushAll_of_nodup hnodup
  have hsize' : (empty.pushAll db.clauses).size = 7 := by rw [size, hpush]; exact hsize
  have hlength' : (empty.pushAll db.clauses).clauseSet.length = 6 := by
    rw [clauseSet, hpush]
    exact hlength
  refine ⟨r, c, db, hr, hc, hdb, fun cl hcl => ⟨(compiled hdb).formed cl hcl, hworded cl hcl⟩,
    hsize', hlength', fun hfaithful => ?_⟩
  have heq := hfaithful.length_eq
  rw [hsize', hlength'] at heq
  cases heq

end Demo

end HornPlan
