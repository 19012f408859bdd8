/-
  HornPlan/Proofs/Query/Acyclic.lean
  ==================================
  **What is derived from documents without cycles.**

  An instance that has to be made is not derived from another one that is held.  So the
  outputs of a document are not what follows from its clauses: a clause that asks for a
  made instance may only be used if some task makes one (`Supplies`).  The search looks
  no further than the proof that it has found first, and keeps.  On a database whose
  clauses do not lead from an atom back to it that is enough.  Tasks come before held
  instances, and no goal of the path can be in their way; so whenever a task makes an
  instance, the first proof found is by a task.

  `derive_iff_supplied` says that the outputs are derived exactly if the least model
  under this rule holds them.

  Specification, section 4.4, of `derive` on databases without cycles.
-/
import HornPlan.Demo
import HornPlan.Proofs.Query.Entanglement
import HornPlan.Proofs.Search.LeastModel

namespace HornPlan

open HornPlan.Derivation Relation

/-! ### Cycles of clauses -/

namespace Database

/-- Does a clause for the first atom ask for the second? -/
def LeadsTo (db : Database) (a b : Atom) : Prop := ∃ cl ∈ db.clauses, cl.head = a ∧ b ∈ cl.body

def Acyclic (db : Database) : Prop := ∀ a, ¬ TransGen db.LeadsTo a a

/-- An order of the atoms in which bodies come before heads rules cycles out. -/
theorem acyclic_of_order {db : Database} (order : List Atom)
    (horder : ∀ cl ∈ db.clauses, ∀ b ∈ cl.body, order.idxOf b < order.idxOf cl.head) :
    db.Acyclic := by
  have hlt : ∀ a b, TransGen db.LeadsTo a b → order.idxOf b < order.idxOf a := by
    intro a b h
    induction h with
    | single hstep =>
      obtain ⟨cl, hcl, rfl, hb⟩ := hstep
      exact horder cl hcl _ hb
    | tail _ hstep ih =>
      obtain ⟨cl, hcl, rfl, hb⟩ := hstep
      exact Nat.lt_trans (horder cl hcl _ hb) ih
  exact fun a h => Nat.lt_irrefl _ (hlt a a h)

end Database

/-- Without cycles, what follows does so off any path that leads to it. -/
theorem Follows.avoiding_of_acyclic {db : Database} (hacyclic : db.Acyclic)
    {allowed : Clause → Prop} {path : List Atom} {b : Atom} (h : Follows db allowed b) :
    (∀ a ∈ path, TransGen db.LeadsTo a b) → Follows db (Avoiding allowed path) b := by
  -- the path goes on leading to what is proved, so it never comes up as a head
  induction h with
  | fact hfact => exact fun _ => .fact hfact
  | @rule cl hcl hkind hallowed _ ih =>
    intro hpath
    refine .rule hcl hkind ⟨hallowed, fun hmem => hacyclic _ (hpath _ hmem)⟩ ?_
    intro b hb
    exact ih b hb fun a ha => (hpath a ha).tail ⟨cl, hcl, rfl, hb⟩

/-! ### What clauses ask to be made -/

/-- Is what a clause asks to be made made by a task, from what a set of atoms holds? -/
def Database.Supplies (db : Database) (m : Set Atom) (cl : Clause) : Prop :=
  cl.kind = .assignment ∨ cl.kind = .completion → ∀ x, cl.body.head? = some (.any x) →
    ∃ t ∈ db.clauses, t.kind = .task ∧ t.head = .any x ∧ ∀ b ∈ t.body, b ∈ m

theorem Database.supplies_mono (db : Database) : Monotone db.Supplies := by
  intro m m' hsub cl h hkind x hfirst
  obtain ⟨t, ht, htask, hhead, hbody⟩ := h hkind x hfirst
  exact ⟨t, ht, htask, hhead, fun b hb => hsub (hbody b hb)⟩

/-- The rules that the least model supplies, and the goals that the path leads to. -/
def Derivation.Guide.supplied (db : Database) : Guide where
  allowed := db.Supplies (db.leastModel db.Supplies)
  made a := ∃ cl ∈ db.clauses, db.Supplies (db.leastModel db.Supplies) cl ∧
    (cl.kind = .assignment ∨ cl.kind = .completion) ∧ cl.body.head? = some a
  reached path goal := ∀ a ∈ path, TransGen db.LeadsTo a goal

namespace Query

variable {r : Registry} {c : Catalog} {q : Query} {db : Database}

section Compiled

variable (hcomp : Compiled r c q db)
include hcomp

theorem head_of_generalization {cl : Clause} (hcl : cl ∈ db.clauses)
    (hkind : cl.kind = .generalization) : ∃ x, cl.head = .any x := by
  cases hcomp.shape cl hcl with
  | @generalization t _ _ => exact ⟨t.type, rfl⟩
  | _ => cases hkind

/-- **Without cycles the search meets what is expected of it**: a task that makes an
    instance is found to. -/
theorem supplied_valid (hacyclic : db.Acyclic) : (Guide.supplied db).Valid db where
  step := by
    intro path goal hreached _ _ cl hcl _ hhead b hb a ha
    have hstep : db.LeadsTo goal b := ⟨cl, hcl, hhead, hb⟩
    rcases List.mem_cons.1 ha with rfl | ha
    · exact TransGen.single hstep
    · exact (hreached a ha).tail hstep
  asks cl hcl hsupplied hkind a ha := ⟨cl, hcl, hsupplied, hkind, ha⟩
  makes := by
    rintro path goal hreached ⟨cl, hcl, hsupplied, hkind, hfirst⟩ - -
    rcases head?_of_asks hcomp hcl hkind hfirst with ⟨x, rfl⟩ | ⟨t, rfl⟩
    · obtain ⟨t, ht, htask, hhead, hbody⟩ := hsupplied hkind x hfirst
      refine Or.inr ⟨t, ht, ?_, ?_, ?_, hhead, ?_⟩
      · rw [htask]
        exact nofun
      · rw [htask]
        decide
      · intro hk
        rw [htask] at hk
        simp at hk
      · intro b hb
        have hfollows := (Database.mem_leastModel db.supplies_mono).1 (hbody b hb)
        apply hfollows.avoiding_of_acyclic hacyclic
        have hstep : db.LeadsTo (.any x) b := ⟨t, ht, hhead, hb⟩
        intro a ha
        rcases List.mem_cons.1 ha with rfl | ha
        · exact TransGen.single hstep
        · exact (hreached a ha).tail hstep
    · apply Or.inl
      intro cl' hcl' hhead hgen
      obtain ⟨x, hx⟩ := head_of_generalization hcomp hcl' hgen
      cases hhead.symm.trans hx

/-- What is proved is held by every model that closes under supplied rules. -/
theorem mem_of_genuine {ds : List Derivation} (hds : Genuine db ds) {m : Set Atom}
    (hm : db.IsModel db.Supplies m) {d : Derivation} (hd : d ∈ nodesAll ds) :
    ∀ n ∈ d.nodes, n.atom ∈ m := by
  induction d with
  | node atom clause kind children ih =>
    have hchild : ∀ k ∈ children, ∀ n ∈ k.nodes, n.atom ∈ m := by
      intro k hk
      exact ih k hk (mem_nodesAll_of_mem_nodes hd (below_of_mem_children hk).mem_nodes)
    intro n hn
    rcases mem_nodes.1 hn with rfl | ⟨k, hk, hn⟩
    · obtain ⟨cl, hget, rfl, rfl, hbody⟩ := (hds.justified _ hd).clause
      have hcl := List.mem_of_getElem? hget
      by_cases hfact : cl.kind = .inputFact
      · exact hm.fact cl hcl hfact
      · have hbody := hbody hfact
        refine hm.rule cl hcl hfact ?_ ?_
        · intro hkind x hfirst
          -- the first child proves any instance, and not by a held one
          rw [← hbody] at hfirst
          rcases children with _ | ⟨first, rest⟩
          · cases hfirst
          · have hatom : first.atom = .any x := Option.some.inj hfirst
            have hnode : first ∈ nodesAll ds := mem_nodesAll_of_mem_nodes hd
              (below_of_mem_children List.mem_cons_self).mem_nodes
            have hmade := (hds.justified _ hd).made hkind first rfl
            have htask := hcomp.task_of_wildcard (hds.justified first hnode)
              (t := .wildcard x) hatom hmade
            obtain ⟨t, hget', hhead', hkind', hbody'⟩ := (hds.justified first hnode).clause
            refine ⟨t, List.mem_of_getElem? hget', hkind'.trans htask, hhead'.trans hatom, ?_⟩
            intro b hb
            rw [← hbody' (by rw [htask]; exact nofun)] at hb
            obtain ⟨k, hk, rfl⟩ := List.mem_map.1 hb
            exact hchild first List.mem_cons_self k (below_of_mem_children hk).mem_nodes
        · intro b hb
          rw [← hbody] at hb
          obtain ⟨k, hk, rfl⟩ := List.mem_map.1 hb
          exact hchild k hk k k.self_mem_nodes
    · exact hchild k hk n hn

end Compiled

/-- **The outputs of a document without cycles are derived exactly if they are in the
    least model of its clauses**, in which a clause that asks for a made instance may
    only be used if a task makes one. -/
theorem derive_iff_supplied {maxDepth : Nat} (h : q.compile r c = .ok db)
    (hacyclic : db.Acyclic) (hroom : db.heads.card < maxDepth) :
    IsLeast {m | db.IsModel db.Supplies m} (db.leastModel db.Supplies) ∧
      ((∃ ds, (Session.start db maxDepth).derive.1 = .ok ds) ↔
        ∀ o ∈ db.outputs, .resource o ∈ db.leastModel db.Supplies) := by
  have hcomp := compiled h
  have hleast : IsLeast {m | db.IsModel db.Supplies m} (db.leastModel db.Supplies) :=
    Database.isLeast_leastModel db.supplies_mono
  refine ⟨hleast, ?_, ?_⟩
  · rintro ⟨ds, hds⟩ o ho
    obtain ⟨hgenuine, houtputs, hatoms⟩ := Session.derive_genuine hds
    obtain ⟨td, htd, rfl⟩ := List.mem_map.1 (houtputs ▸ ho : o ∈ ds.map Prod.fst)
    have hnode : td.2 ∈ nodesAll (ds.map Prod.snd) :=
      mem_nodesAll.2 ⟨td.2, List.mem_map_of_mem htd, self_mem_nodes _⟩
    rw [← hatoms td htd]
    exact mem_of_genuine hcomp hgenuine hleast.1 hnode td.2 (self_mem_nodes _)
  · intro hall
    have hroom' : db.ruleHeads.card < maxDepth := Nat.lt_of_le_of_lt db.card_ruleHeads_le hroom
    apply Session.deriveAll_finds db.outputs (supplied_valid hcomp hacyclic)
      (Session.settled_start db maxDepth) (fun _ _ _ h => nomatch h) hroom'
    intro o ho
    exact ⟨fun a ha => (nomatch ha), (Database.mem_leastModel db.supplies_mono).1 (hall o ho)⟩

end Query

/-! ### A kitchen without cycles -/

namespace Demo

def kitchen : Planner where
  registry :=
    { types := [("recipe", ⟨"Recipe", []⟩), ("image", ⟨"Image", []⟩),
        ("sentence", ⟨"Sentence", []⟩), ("topic", ⟨"Topic", ["topic"]⟩)]
      order := ["topic", "sentence", "image", "recipe"] }
  catalog := ⟨.ofList [illustrate, writeSentence], .ofList [⟨"ingredients", listIngredients⟩]⟩
  maxDepth := 12

/-- A recipe with ingredients for a topic that is held, and with an image. -/
def supperQuery : Query :=
  (Query.empty.withInput "topic" 1 [("topic", .text "leek")]).withResource "recipe"
      (((ResourceSpec.ofId 2).describe "ingredients" [("of", "topic", 1)]).dependsOn "image" 3)
    |>.withOutput "recipe" 2

/-- The atoms of its clauses, bodies before heads. -/
def supperOrder : List Atom :=
  [.resource (Query.instanceOf "topic" 1), .any "topic", .resource (Query.instanceOf "topic" 4),
    .any "sentence", .any "image", .resource (Query.instanceOf "image" 3),
    .property "ingredients" (Query.instanceOf "recipe" 2),
    .allDependencies (Query.instanceOf "recipe" 2)]

/-- What has to be computed for `derive_iff_supplied` to apply. -/
def serves (q : Query) (derived : Bool) : Bool :=
  (q.compile kitchen.registry kitchen.catalog).toOption.any fun db =>
    decide (∀ cl ∈ db.clauses, ∀ b ∈ cl.body, supperOrder.idxOf b < supperOrder.idxOf cl.head) &&
      decide (db.heads.card < kitchen.maxDepth) &&
      (Session.start db kitchen.maxDepth).derive.1.isOk == derived

theorem serves_eq_true {q : Query} {derived : Bool} (h : serves q derived = true) :
    ∃ db, q.compile kitchen.registry kitchen.catalog = .ok db ∧ db.Acyclic ∧
      db.heads.card < kitchen.maxDepth ∧
        (Session.start db kitchen.maxDepth).derive.1.isOk = derived := by
  obtain ⟨db, hdb, h⟩ := any_toOption_iff.1 h
  simp only [Bool.and_eq_true, decide_eq_true_eq, beq_iff_eq] at h
  exact ⟨db, hdb, Database.acyclic_of_order supperOrder h.1.1, h.1.2, h.2⟩

end Demo

/-- The recipe is derived, since all it needs is made or held; another topic is not,
    although one is held. -/
theorem derive_iff_supplied_supper :
    (∃ db, Demo.supperQuery.compile Demo.kitchen.registry Demo.kitchen.catalog = .ok db ∧
      db.Acyclic ∧ db.heads.card < Demo.kitchen.maxDepth ∧
        ∀ o ∈ db.outputs, .resource o ∈ db.leastModel db.Supplies) ∧
    ∃ db, (Demo.supperQuery.withOutput "topic" 4).compile Demo.kitchen.registry
        Demo.kitchen.catalog = .ok db ∧
      db.Acyclic ∧ db.heads.card < Demo.kitchen.maxDepth ∧
        ¬ ∀ o ∈ db.outputs, .resource o ∈ db.leastModel db.Supplies := by
  have hrecipe : Demo.serves Demo.supperQuery true = true := by decide +kernel
  have htopic : Demo.serves (Demo.supperQuery.withOutput "topic" 4) false = true := by
    decide +kernel
  obtain ⟨db, hdb, hacyclic, hroom, hsolved⟩ := Demo.serves_eq_true hrecipe
  obtain ⟨db', hdb', hacyclic', hroom', hrefused⟩ := Demo.serves_eq_true htopic
  refine ⟨⟨db, hdb, hacyclic, hroom, ?_⟩, db', hdb', hacyclic', hroom', ?_⟩
  · exact (Query.derive_iff_supplied hdb hacyclic hroom).2.1 (isOk_iff.1 hsolved)
  · intro hall
    have hok := isOk_iff.2
      ((Query.derive_iff_supplied hdb' hacyclic' hroom').2.2 hall)
    exact absurd hok (Bool.eq_false_iff.1 hrefused)

end HornPlan
