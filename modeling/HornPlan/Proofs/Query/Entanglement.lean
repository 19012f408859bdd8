/-
  HornPlan/Proofs/Query/Entanglement.lean
  =======================================
  **When the outputs of a document are independent of one another.**

  A session keeps the proofs that it finds, so what it is asked first decides how it
  proves what it is asked next.  One kind of proof matters: `x_0 :- x_k`, which stands
  for any `x` unless a made one is asked for.  While another type on a cycle of tasks
  through `x` is being proved, the tasks that make an `x` may lead back to it, and the
  held `x_k` is all that is left.  The proof is kept, and an output `x_j` that asks for
  a made `x` is refused from then on, although on its own it would have been proved.

  A type is `Entangled` if it is held, asked for, and on a cycle of tasks through
  another type.  Without such a type the outputs are independent
  (`independent_of_not_entangled`).
-/
import HornPlan.Proofs.Catalog.Reachability
import HornPlan.Proofs.Query.Form
import HornPlan.Proofs.Search.Completeness

namespace HornPlan

open HornPlan.Derivation Relation

/-- Are the outputs proved together exactly if each of them is proved on its own? -/
def Database.Independent (db : Database) (maxDepth : Nat) : Prop :=
  (∃ ds, (Session.start db maxDepth).derive.1 = .ok ds) ↔
    ∀ o ∈ db.outputs, ∃ d, ((Session.start db maxDepth).proveAtom (.resource o)).1 = .ok d

/-- Any instance of a type. -/
def Atom.any (type : String) : Atom := .resource (.wildcard type)

namespace Query

variable {r : Registry} {c : Catalog} {q : Query} {db : Database}

/-! ### Entangled types -/

/-- Does a held instance stand for any instance of the type? -/
def Held (db : Database) (x : String) : Prop :=
  ∃ cl ∈ db.clauses, cl.kind = .generalization ∧ cl.head = .any x

/-- Does some clause ask for a made instance of the type? -/
def Asked (db : Database) (x : String) : Prop :=
  ∃ cl ∈ db.clauses, (cl.kind = .assignment ∨ cl.kind = .completion) ∧
    cl.body.head? = some (.any x)

/-- Is some type held, asked for, and on a cycle of tasks through another type? -/
def Entangled (c : Catalog) (db : Database) : Prop :=
  ∃ x y, y ≠ x ∧ Held db x ∧ Asked db x ∧ TransGen (Catalog.Feeds c.tasks) x y ∧
    TransGen (Catalog.Feeds c.tasks) y x

/-! ### What is made -/

/-- Is the clause about any instance? -/
def Generic (cl : Clause) : Prop := cl.kind = .task ∨ cl.kind = .generalization

/-- Does a task make an instance of the type, from something that follows without one? -/
def Made (db : Database) (x : String) : Prop :=
  ∃ cl ∈ db.clauses, cl.kind = .task ∧ cl.head = .any x ∧
    ∀ b ∈ cl.body, Follows db (Avoiding Generic [.any x]) b

/-- Is what a clause asks to be made made? -/
def Granted (db : Database) (cl : Clause) : Prop :=
  cl.kind = .assignment ∨ cl.kind = .completion →
    ∀ x, cl.body.head? = some (.any x) → Made db x

theorem Named.any_ne {t : Tuple} (h : Named r t) (x : String) : Atom.resource t ≠ .any x := by
  intro heq
  injection heq with heq
  exact h.ne_generalize (.wildcard x) heq

section Genuine

variable {ds : List Derivation} (hcomp : Compiled r c q db) (hds : Genuine db ds)
include hcomp hds

/-- A proof of any instance consists of tasks and generalizations, up to a fact. -/
theorem kind_of_any {d : Derivation} {x : String} (hd : d ∈ nodesAll ds) (hatom : d.atom = .any x) :
    ∀ m ∈ d.nodes, m.kind ≠ .inputFact → m.kind = .task ∨ m.kind = .generalization := by
  induction d generalizing x with
  | node atom clause kind children ih =>
    intro m hm hrule
    have hform := (hcomp.form_of_mem hds hd).of_wildcard hatom
    rcases mem_nodes.1 hm with rfl | ⟨k, hk, hm⟩
    · rcases hform with ⟨hkind, -⟩ | ⟨hkind, -⟩
      · exact Or.inl hkind
      · exact Or.inr hkind
    · have hchild := mem_nodesAll_of_mem_nodes hd (below_of_mem_children hk).mem_nodes
      rcases hform with ⟨-, t, -, -, first, hchildren, hfirst⟩ | ⟨-, t, -, -, i, hchildren⟩
      · obtain rfl : k = first := List.mem_singleton.1 (hchildren ▸ hk)
        exact ih k hk hchild hfirst m hm hrule
      · obtain rfl := List.mem_singleton.1 (hchildren ▸ hk)
        rcases mem_nodes.1 hm with rfl | ⟨_, hnone, -⟩
        · exact absurd rfl hrule
        · cases hnone

/-- A node of kind `task` shows that an instance of its type is made. -/
theorem made_of_task {n : Derivation} {x : String} (hn : n ∈ nodesAll ds) (hkind : n.kind = .task)
    (hatom : n.atom = .any x) : Made db x := by
  obtain ⟨cl, hget, hhead, hclkind, hbody⟩ := (hds.justified n hn).clause
  refine ⟨cl, List.mem_of_getElem? hget, hclkind.trans hkind, hhead.trans hatom, ?_⟩
  intro b hb
  rw [← hbody (by rw [hkind]; exact nofun)] at hb
  obtain ⟨child, hchild, rfl⟩ := List.mem_map.1 hb
  have hany : ∃ y, child.atom = .any y := by
    obtain ⟨t, first, hchildren, hfirst, -⟩ := (hcomp.form_of_mem hds hn).of_task hkind
    obtain rfl : child = first := List.mem_singleton.1 (hchildren ▸ hchild)
    exact ⟨t.input, hfirst⟩
  obtain ⟨y, hy⟩ := hany
  have hnode := mem_nodesAll_of_mem_nodes hn (below_of_mem_children hchild).mem_nodes
  apply follows_of_justified (fun m hm => hds.justified m (mem_nodesAll_of_mem_nodes hnode hm))
  intro m hm hrule cl' hget'
  obtain ⟨cl'', hget'', hhead', hkind', -⟩ :=
    (hds.justified m (mem_nodesAll_of_mem_nodes hnode hm)).clause
  cases hget'.symm.trans hget''
  constructor
  · rw [Generic, hkind']
    exact kind_of_any hcomp hds hnode hy m hm hrule
  · intro hmem
    -- what is below the node does not prove the same again
    refine hds.acyclic n hn m ⟨child, hchild, hm⟩ ?_
    rw [← hhead', List.mem_singleton.1 hmem, hatom]

/-- The clauses of a proof are granted what they ask for. -/
theorem granted_of_node {n : Derivation} (hn : n ∈ nodesAll ds) (hrule : n.kind ≠ .inputFact)
    {cl : Clause} (hget : db.clauses[n.clause]? = some cl) : Granted db cl := by
  obtain ⟨cl', hget', -, hclkind, hbody⟩ := (hds.justified n hn).clause
  cases hget.symm.trans hget'
  intro hk x hfirst
  rw [hclkind] at hk
  rw [← hbody hrule] at hfirst
  have hmade : ∀ first ∈ n.children, first.kind = .task → first.atom = .any x → Made db x := by
    intro first hmem hkind hatom
    exact made_of_task hcomp hds
      (mem_nodesAll_of_mem_nodes hn (below_of_mem_children hmem).mem_nodes) hkind hatom
  cases hcomp.form_of_mem hds hn with
  | assignment _ _ _ hkind _ => exact hmade _ List.mem_cons_self hkind (Option.some.inj hfirst)
  | produced _ _ _ _ hkind _ _ _ => exact hmade _ List.mem_cons_self hkind (Option.some.inj hfirst)
  | described _ _ _ haggregate _ _ => cases haggregate.symm.trans (Option.some.inj hfirst)
  | fact _ _ _ => exact absurd rfl hrule
  | task _ _ _ => simp at hk
  | generalization _ _ => simp at hk
  | allDependencies _ _ _ _ _ _ => simp at hk
  | descriptor _ _ _ _ _ _ _ _ _ => simp at hk

/-- What is proved follows by clauses that are granted what they ask for. -/
theorem follows_of_genuine {d : Derivation} (hd : d ∈ nodesAll ds) :
    Follows db (Granted db) d.atom :=
  follows_of_justified (fun m hm => hds.justified m (mem_nodesAll_of_mem_nodes hd hm))
    fun _ hm hrule _ hget => granted_of_node hcomp hds (mem_nodesAll_of_mem_nodes hd hm) hrule hget

end Genuine

/-! ### The guide of a compiled database -/

/-- Does a rule for the first atom, which no fact states, ask for the second? -/
def Needs (db : Database) (a b : Atom) : Prop :=
  db.fact? a = none ∧ ∃ cl ∈ db.clauses, cl.kind ≠ .inputFact ∧ cl.head = a ∧ b ∈ cl.body

/-- The rules that are granted what they ask for, and the goals that the path needs. -/
def guide (db : Database) : Guide where
  allowed := Granted db
  made a := ∃ cl ∈ db.clauses, Granted db cl ∧ (cl.kind = .assignment ∨ cl.kind = .completion) ∧
    cl.body.head? = some a
  reached path goal := ∀ a ∈ path, TransGen (Needs db) a goal

section Compiled

variable (hcomp : Compiled r c q db)
include hcomp

/-- A rule for any instance asks for any instance of a type that feeds it, or for a
    held one. -/
theorem rule_of_any {cl : Clause} (hcl : cl ∈ db.clauses) {x : String} (hhead : cl.head = .any x) :
    (∃ y, cl.kind = .task ∧ cl.body = [.any y] ∧ Catalog.Feeds c.tasks y x) ∨
      ∃ t ∈ q.inputTuples, cl.kind = .generalization ∧ t.type = x ∧ cl.body = [.resource t] := by
  cases hcomp.shape cl hcl with
  | @task t ht _ =>
    cases hhead
    exact Or.inl ⟨t.input, rfl, rfl, t, ht, rfl, rfl⟩
  | @generalization t ht _ =>
    cases hhead
    exact Or.inr ⟨t, ht, rfl, rfl, rfl⟩
  | inputFact _ hname => exact absurd hhead (hname.any_ne x)
  | assignment hname => exact absurd hhead (hname.any_ne x)
  | completion _ hname => exact absurd hhead (hname.any_ne x)
  | allDependencies _ _ _ _ => cases hhead
  | descriptor _ _ _ _ _ _ _ _ => cases hhead

theorem fact?_any (x : String) : db.fact? (.any x) = none := by
  by_contra h
  obtain ⟨t, ht, heq⟩ := hcomp.of_fact? h
  exact (hcomp.held t ht).any_ne x heq.symm

/-- Between two atoms about any instance a need is a chain of tasks. -/
theorem feeds_of_needs {a : Atom} {x : String} (h : TransGen (Needs db) a (.any x)) :
    ∀ y, a = .any y → TransGen (Catalog.Feeds c.tasks) x y := by
  induction h using TransGen.head_induction_on with
  | @single a hneeds =>
    rintro y rfl
    obtain ⟨-, cl, hcl, -, hhead, hbody⟩ := hneeds
    rcases rule_of_any hcomp hcl hhead with ⟨z, -, hz, hfeeds⟩ | ⟨t, ht, -, -, hz⟩
    · rw [hz, List.mem_singleton] at hbody
      cases hbody
      exact TransGen.single hfeeds
    · rw [hz, List.mem_singleton] at hbody
      exact absurd hbody.symm ((hcomp.held t ht).any_ne x)
  | @head a b hneeds hrest ih =>
    rintro y rfl
    obtain ⟨-, cl, hcl, -, hhead, hbody⟩ := hneeds
    rcases rule_of_any hcomp hcl hhead with ⟨z, -, hz, hfeeds⟩ | ⟨t, ht, -, -, hz⟩
    · rw [hz, List.mem_singleton] at hbody
      exact (ih z hbody).tail hfeeds
    · -- a held instance is stated by a fact, and needs nothing
      rw [hz, List.mem_singleton] at hbody
      subst hbody
      obtain ⟨b, hb, -⟩ := TransGen.head'_iff.1 hrest
      exact absurd hb.1 (hcomp.fact?_ne_none ht)

/-- The clauses that ask for what is to be made ask for any instance of a type, or for
    all that an instance depends on. -/
theorem head?_of_asks {cl : Clause} (hcl : cl ∈ db.clauses)
    (hkind : cl.kind = .assignment ∨ cl.kind = .completion) {a : Atom}
    (ha : cl.body.head? = some a) : (∃ x, a = .any x) ∨ ∃ t, a = .allDependencies t := by
  cases hcomp.shape cl hcl with
  | assignment _ =>
    cases ha
    exact Or.inl ⟨_, rfl⟩
  | @completion e _ _ =>
    cases hprops : e.properties with
    | nil =>
      rw [Clause.completion, hprops] at ha
      cases ha
      exact Or.inl ⟨_, rfl⟩
    | cons _ _ =>
      rw [Clause.completion, hprops] at ha
      cases ha
      exact Or.inr ⟨_, rfl⟩
  | inputFact _ _ => simp [Clause.inputFact] at hkind
  | generalization _ _ => simp [Clause.generalization] at hkind
  | allDependencies _ _ _ _ => simp [Clause.allDependencies] at hkind
  | descriptor _ _ _ _ _ _ _ _ => simp [Clause.dependentDescriptor] at hkind
  | task _ _ => simp [Clause.ofTask] at hkind

variable (hfree : ¬ Entangled c db)
include hfree

/-- What an instance is made from follows without what the path needs it for. -/
theorem follows_avoiding_path {x : String} (hheld : Held db x) (hasked : Asked db x)
    {path : List Atom} (hpath : ∀ a ∈ path, TransGen (Needs db) a (.any x)) {b : Atom}
    (hb : Follows db (Avoiding Generic [.any x]) b) :
    ∀ y, b = .any y → TransGen (Catalog.Feeds c.tasks) y x →
      Follows db (Avoiding (Granted db) (.any x :: path)) b := by
  induction hb with
  | fact h => exact fun _ _ _ => .fact h
  | @rule cl hcl hkind hallowed _ ih =>
    intro y hy hfeeds
    have hgranted : Granted db cl := by
      intro hk
      rcases hallowed.1 with h | h
      · rw [h] at hk
        simp at hk
      · rw [h] at hk
        simp at hk
    refine .rule hcl hkind ⟨hgranted, ?_⟩ fun b hb => ?_
    · intro hmem
      have hne : cl.head ≠ .any x := by
        intro h
        exact hallowed.2 (List.mem_singleton.2 h)
      rcases List.mem_cons.1 hmem with h | h
      · exact hne h
      · -- a goal on the path would close a cycle through the type
        refine hfree ⟨x, y, fun hyx => hne (hyx ▸ hy), hheld, hasked, ?_, hfeeds⟩
        exact feeds_of_needs hcomp (hpath _ h) y hy
    · rcases rule_of_any hcomp hcl hy with ⟨z, -, hz, hstep⟩ | ⟨t, ht, -, -, hz⟩
      · rw [hz, List.mem_singleton] at hb
        exact ih b (by rw [hz, List.mem_singleton]; exact hb) z hb (hfeeds.head hstep)
      · rw [hz, List.mem_singleton] at hb
        exact hb ▸ .fact (hcomp.fact?_ne_none ht)

/-- **The search meets what the guide expects**, if no type is entangled. -/
theorem guide_valid : (guide db).Valid db where
  step hreached hfact _ cl hcl hkind hhead b hb a ha := by
    have hneeds : Needs db cl.head b := ⟨hhead ▸ hfact, cl, hcl, hkind, rfl, hb⟩
    rw [hhead] at hneeds
    rcases List.mem_cons.1 ha with rfl | ha
    · exact TransGen.single hneeds
    · exact (hreached a ha).tail hneeds
  asks cl hcl hgranted hkind a ha := ⟨cl, hcl, hgranted, hkind, ha⟩
  makes := by
    rintro path goal hreached ⟨cl, hcl, hgranted, hkind, hfirst⟩ - -
    rcases head?_of_asks hcomp hcl hkind hfirst with ⟨x, rfl⟩ | ⟨t, rfl⟩
    · by_cases hheld : Held db x
      · obtain ⟨cl', hcl', hkind', hhead', hbody⟩ := hgranted hkind x hfirst
        have htask : cl'.kind ≠ .inputFact := by
          rw [hkind']
          exact nofun
        refine Or.inr ⟨cl', hcl', htask, ?_, ?_, hhead', ?_⟩
        · rw [hkind']
          decide
        · intro hk
          rw [hkind'] at hk
          simp at hk
        · intro b hb
          rcases rule_of_any hcomp hcl' hhead' with ⟨y, -, hy, hfeeds⟩ | ⟨_, _, hgen, -⟩
          · have hby := hb
            rw [hy, List.mem_singleton] at hby
            exact follows_avoiding_path hcomp hfree hheld ⟨cl, hcl, hkind, hfirst⟩ hreached
              (hbody b hb) y hby (TransGen.single hfeeds)
          · cases hkind'.symm.trans hgen
      · exact Or.inl fun cl' hcl' hhead' hgen => hheld ⟨cl', hcl', hgen, hhead'⟩
    · apply Or.inl
      intro cl' hcl' hhead' hgen
      cases hcomp.shape cl' hcl' with
      | generalization _ _ => cases hhead'
      | _ => cases hgen

end Compiled

/-! ### Independent outputs -/

/-- A proof that is found at once is genuine. -/
theorem genuine_of_proveAtom {maxDepth : Nat} {goal : Atom} {d : Derivation}
    (h : ((Session.start db maxDepth).proveAtom goal).1 = .ok d) :
    Genuine db [d] ∧ d.atom = goal := by
  obtain ⟨hnext, hfound⟩ := Session.prove_succeeds (Session.settled_start db maxDepth) goal
  obtain ⟨hkeeps, hatom⟩ := hfound d (Session.proveAtom_eq_ok.1 h)
  have hcoh := hnext.settled.coherent
  rw [hnext.database] at hcoh
  refine ⟨hcoh.genuine fun e he => ?_, hatom⟩
  rw [List.mem_singleton.1 he]
  exact hkeeps

/-- **Outputs are independent if no type is entangled**: both on their own and one
    after the other they are proved if they follow. -/
theorem independent_of_not_entangled {maxDepth : Nat} (h : q.compile r c = .ok db)
    (hfree : ¬ Entangled c db) (hroom : db.heads.card < maxDepth) :
    db.Independent maxDepth := by
  have hcomp := compiled h
  have hvalid := guide_valid hcomp hfree
  have hsettled := Session.settled_start db maxDepth
  have hkept : (guide db).Kept (Session.start db maxDepth).memory.proven := by
    intro _ _ _ h
    cases h
  have hroom' : db.ruleHeads.card < maxDepth := Nat.lt_of_le_of_lt db.card_ruleHeads_le hroom
  have hreached : ∀ goal, (guide db).reached [] goal := by
    intro _ a ha
    cases ha
  constructor
  · rintro ⟨ds, hds⟩ o ho
    obtain ⟨hgenuine, houtputs, hatoms⟩ := Session.derive_genuine hds
    rw [← houtputs] at ho
    obtain ⟨td, htd, rfl⟩ := List.mem_map.1 ho
    have hnode : td.2 ∈ nodesAll (ds.map Prod.snd) :=
      mem_nodesAll.2 ⟨td.2, List.mem_map_of_mem htd, self_mem_nodes _⟩
    have hfollows := follows_of_genuine hcomp hgenuine hnode
    rw [hatoms td htd] at hfollows
    obtain ⟨-, hfind⟩ := Session.prove_finds hvalid hsettled hkept hroom' (hreached _)
    obtain ⟨d, hd⟩ := hfind hfollows
    exact ⟨d, Session.proveAtom_eq_ok.2 hd⟩
  · intro hall
    apply Session.deriveAll_finds db.outputs hvalid hsettled hkept hroom'
    intro o ho
    obtain ⟨d, hd⟩ := hall o ho
    obtain ⟨hgenuine, hatom⟩ := genuine_of_proveAtom hd
    have hnode : d ∈ nodesAll [d] := mem_nodesAll.2 ⟨d, List.mem_cons_self, self_mem_nodes d⟩
    exact ⟨hreached _, hatom ▸ follows_of_genuine hcomp hgenuine hnode⟩

end Query

end HornPlan
