/-
  HornPlan/Proofs/Plan/Execution.lean
  ===================================
  **Running the plan of some proofs computes what they denote.**

  After the steps of some nodes have been run, every slot holds what the document
  gives for it, or the values of the nodes that have written it, laid over each other
  (`slotValue`).  A slot that is the home of a proved tuple holds the value of the
  proof as soon as all that is below the proof has been run (`slotValue_home`), and
  since nothing else writes to it, from then on.

  `runSteps_spec` is the induction over the steps: the run ends well exactly if every
  step has been invoked with success, and then the slots are as said.

  Specification, sections 4.5 and E.7: what `execute_seeded` yields.
-/
import HornPlan.Plan.Execution
import HornPlan.Proofs.Plan.Denotation
import HornPlan.Proofs.Plan.Properties
import HornPlan.Proofs.Results

namespace HornPlan

open Query HornPlan.Derivation

variable {r : Registry} {c : Catalog} {q : Query} {db : Database}

/-! ### Seeds -/

namespace Query.Compiled

variable (hcomp : Compiled r c q db)
include hcomp

theorem isSome_seed_iff {t : Tuple} : (db.seed.lookup t).isSome ↔ t ∈ q.inputTuples := by
  rw [isSome_lookup, Database.seed, hcomp.inputs]

theorem seed_eq_none {t : Tuple} (ht : t ∉ q.inputTuples) : db.seed.lookup t = none :=
  Option.not_isSome_iff_eq_none.1 (mt hcomp.isSome_seed_iff.1 ht)

theorem wildcard_not_input {t : Tuple} (ht : t.isWildcard = true) : t ∉ q.inputTuples := by
  intro hmem
  rw [(hcomp.held t hmem).2] at ht
  cases ht

end Query.Compiled

/-- The result of a step goes into the slot that it writes only. -/
theorem Step.lookup_keep_of_ne (s : Step) (result : Resource) (store : Store) {t : Tuple}
    (ht : t ≠ s.output) : (s.keep result store).lookup t = store.lookup t := by
  unfold Step.keep
  split <;> rw [Store.put, lookup_insert, if_neg ht]

/-! ### What is in a slot -/

namespace Derivation

/-- Does the step of a node write the slot? -/
def writes (db : Database) (t : Tuple) (n : Derivation) : Bool :=
  (step? db n).any fun s => s.output = t

/-- What a slot holds after the steps of some nodes. -/
def slotValue (db : Database) (done : List Derivation) (t : Tuple) : Option Resource :=
  (db.seed.lookup t).or (Resource.overlay ((done.filter (writes db t)).map (value db)))

theorem writes_iff {t : Tuple} {n : Derivation} :
    n.writes db t = true ↔ ∃ s, step? db n = some s ∧ s.output = t := by
  simp only [writes, Option.any_eq_true, decide_eq_true_eq]

theorem slotValue_of_not_writes {done : List Derivation} {n : Derivation} {t : Tuple}
    (h : ¬ n.writes db t = true) : slotValue db (done ++ [n]) t = slotValue db done t := by
  rw [slotValue, slotValue, List.filter_append, List.filter_cons_of_neg h, List.filter_nil,
    List.append_nil]

/-- A list without repetitions contains one node of a kind at most. -/
theorem filter_eq_singleton {l : List Derivation} (hl : (l.map atom).Nodup) {m : Derivation}
    (hm : m ∈ l) {p : Derivation → Bool} (hp : p m = true)
    (hother : ∀ n ∈ l, p n = true → n.atom = m.atom) : l.filter p = [m] := by
  obtain ⟨before, after, rfl⟩ := List.append_of_mem hm
  rw [List.map_append, List.map_cons, List.nodup_append] at hl
  obtain ⟨-, hafter, hdisjoint⟩ := hl
  have hbefore : before.filter p = [] := by
    rw [List.filter_eq_nil_iff]
    intro n hn hpn
    exact hdisjoint _ (List.mem_map_of_mem hn) _ List.mem_cons_self
      (hother n (List.mem_append_left _ hn) hpn)
  have hafter : after.filter p = [] := by
    rw [List.filter_eq_nil_iff]
    intro n hn hpn
    have hatom := hother n (List.mem_append_right _ (List.mem_cons_of_mem _ hn)) hpn
    exact (List.nodup_cons.1 hafter).1 (hatom ▸ List.mem_map_of_mem hn)
  rw [List.filter_append, List.filter_cons_of_pos hp, hbefore, hafter, List.nil_append]

section Genuine

variable {ds : List Derivation} (hcomp : Compiled r c q db) (hds : Genuine db ds)
  (hroots : ∀ d ∈ ds, ∃ u, d.atom = .resource u)
include hcomp hds

/-- The slot of an instance is written by its properties. -/
theorem writes_eq_describes {n : Derivation} (hn : n ∈ nodesAll ds) {t : Tuple}
    (ht : t.isWildcard = false) : n.writes db t = n.describes t := by
  rw [Bool.eq_iff_iff, writes_iff, describes_iff]
  constructor
  · rintro ⟨s, hs, rfl⟩
    rcases ((hcomp.form_of_mem hds hn).of_step hs).2.2 with ⟨-, -, -, hwild⟩ | ⟨-, -, hp, -⟩
    · rw [ht] at hwild
      cases hwild
    · exact hp
  · rintro ⟨p, hp⟩
    obtain ⟨_, _, _, _, _, _, _, _, _, hstep⟩ := (hcomp.form_of_mem hds hn).of_property hp
    exact ⟨_, hstep, rfl⟩

/-- The slot of any instance is written by the task that proves it. -/
theorem atom_of_writes {n : Derivation} (hn : n ∈ nodesAll ds) {t : Tuple}
    (ht : t.isWildcard = true) (hw : n.writes db t = true) : n.atom = .resource t := by
  obtain ⟨s, hs, rfl⟩ := writes_iff.1 hw
  rcases ((hcomp.form_of_mem hds hn).of_step hs).2.2 with ⟨-, -, hatom, -⟩ | ⟨-, -, -, hconcrete⟩
  · exact hatom
  · rw [hconcrete] at ht
    cases ht

include hroots

/-- No step writes an input. -/
theorem output_not_input {n : Derivation} (hn : n ∈ nodesAll ds) {s : Step}
    (hs : step? db n = some s) : s.output ∉ q.inputTuples := by
  rcases ((hcomp.form_of_mem hds hn).of_step hs).2.2 with ⟨-, -, -, hwild⟩ | ⟨-, -, ⟨p, hp⟩, -⟩
  · exact hcomp.wildcard_not_input hwild
  · -- above the property is the aggregate of the instance, and above that the instance
    have hroot : ∀ k : Derivation, (∀ u, k.atom ≠ .resource u) → k ∉ ds := by
      intro k hk hmem
      obtain ⟨u, hu⟩ := hroots k hmem
      exact hk u hu
    obtain ⟨m, hm, hchild⟩ := exists_parent_of_mem hn (hroot n fun u hu => nomatch hp.symm.trans hu)
    have ha := (hcomp.form_of_mem hds hm).aggregate_of_property hchild hp
    obtain ⟨k, hk, hchild⟩ := exists_parent_of_mem hm (hroot m fun u hu => nomatch ha.symm.trans hu)
    exact ((hcomp.form_of_mem hds hk).resource_of_aggregate hchild ha).2

section Done

variable {done rest : List Derivation} (hsplit : firsts ds = done ++ rest)
include hsplit

omit hcomp hroots in
theorem mem_of_mem_done {n : Derivation} (hn : n ∈ done) : n ∈ nodesAll ds :=
  hds.mem_firsts.1 (hsplit ▸ List.mem_append_left _ hn)

/-- Once all properties of an instance are done, there are no others to come. -/
theorem filter_describes_done {aggregate : Derivation} {t : Tuple}
    (hmem : aggregate ∈ nodesAll ds) (ha : aggregate.atom = .allDependencies t)
    (hdone : ∀ m ∈ aggregate.children, m ∈ done) :
    done.filter (describes t) = distinct [] (aggregate.children.filter (describes t)) := by
  have hall := firsts_filter_describes hcomp hds hmem ha hroots
  rw [← hall, hsplit, List.filter_append]
  have hrest : rest.filter (describes t) = [] := by
    rw [List.filter_eq_nil_iff]
    intro m hm hd
    have hin : m ∈ (firsts ds).filter (describes t) :=
      List.mem_filter.2 ⟨hsplit ▸ List.mem_append_right _ hm, hd⟩
    rw [hall] at hin
    have hchild := (List.mem_filter.1 (mem_of_mem_distinct hin).1).1
    have hnodup := nodup_firsts ds
    rw [hsplit, List.map_append, List.nodup_append] at hnodup
    exact hnodup.2.2 _ (List.mem_map_of_mem (hdone m hchild)) _ (List.mem_map_of_mem hm) rfl
  rw [hrest, List.append_nil]

/-- **Where a proved tuple is found there is the value of its proof**, once all that is
    below the proof is done. -/
theorem slotValue_home {n : Derivation} (hn : n ∈ nodesAll ds) (hdone : ∀ m ∈ n.nodes, m ∈ done)
    {t : Tuple} (ht : n.atom = .resource t) : slotValue db done n.home = n.value db := by
  rw [← value_source, home]
  obtain ⟨hmem, hcases⟩ := source_cases hcomp hds hn ht
  have hnode := mem_nodesAll_of_mem_nodes hn hmem
  rcases hcases with ⟨s, hs, hkind, hatom, -, -⟩ | ⟨hkind, hatom⟩ |
    ⟨e, i, aggregate, hsource, -, -, hnot, hname, haggregate, -⟩
  · have hvalue : n.source.value db = db.seed.lookup s := by
      generalize n.source = m at hkind hatom
      obtain ⟨atom, clause, kind, children⟩ := m
      subst hkind hatom
      rw [value]
      rfl
    obtain ⟨v, hv⟩ := Option.isSome_iff_exists.1 (hcomp.isSome_seed_iff.2 hs)
    rw [hatom, hvalue, Atom.subject, slotValue, hv, Option.some_or]
  · have hwild : t.generalize.isWildcard = true := rfl
    obtain ⟨task, first, -, -, hout, hstep⟩ := (hcomp.form_of_mem hds hnode).of_task hkind
    have hwrites : n.source.writes db t.generalize = true := by
      rw [hatom] at hout
      injection hout with hout
      exact writes_iff.2 ⟨_, hstep, hout.symm⟩
    have hnodup := nodup_firsts ds
    rw [hsplit, List.map_append, List.nodup_append] at hnodup
    have hfilter : done.filter (writes db t.generalize) = [n.source] := by
      apply filter_eq_singleton hnodup.1 (hdone _ hmem) hwrites
      intro m hm hw
      rw [hatom]
      exact atom_of_writes hcomp hds (mem_of_mem_done hds hsplit hm) hwild hw
    rw [hatom, Atom.subject, slotValue, hcomp.seed_eq_none (hcomp.wildcard_not_input hwild),
      Option.none_or, hfilter]
    rfl
  · have hchild : aggregate ∈ n.source.children := by
      rw [hsource]
      exact List.mem_cons_self
    have haggr := mem_nodes_of_mem_children hchild hmem
    have hform := hcomp.form_of_mem hds (mem_nodesAll_of_mem_nodes hn haggr)
    have hfilter : done.filter (writes db e.subject) =
        distinct [] (aggregate.children.filter isProperty) := by
      rw [List.filter_congr fun m hm => writes_eq_describes hcomp hds
          (mem_of_mem_done hds hsplit hm) hname.2,
        filter_describes_done hcomp hds hroots hsplit (mem_nodesAll_of_mem_nodes hn haggr)
          haggregate fun m hm => hdone m (mem_nodes_of_mem_children hm haggr)]
      -- a property below the aggregate is one of the instance
      refine congrArg _ (List.filter_congr fun m hm => ?_)
      rw [Bool.eq_iff_iff, describes_iff, isProperty_iff]
      constructor
      · rintro ⟨p, hp⟩
        exact ⟨p, _, hp⟩
      · rintro ⟨p, u, hp⟩
        cases haggregate.symm.trans (hform.aggregate_of_property hm hp)
        exact ⟨p, hp⟩
    rw [hsource, Atom.subject, slotValue, hcomp.seed_eq_none hnot, Option.none_or, hfilter, value,
      firstValue, value_of_aggregate (hform.of_aggregate haggregate).1]

end Done

/-! ### One step -/

omit hroots in
/-- The slot of a task has not been written before. -/
theorem not_writes_of_task {done rest : List Derivation} {n : Derivation}
    (hsplit : firsts ds = done ++ n :: rest) {s : Step} (hs : step? db n = some s)
    (hkind : s.kind = .task) : done.filter (writes db s.output) = [] := by
  have hn : n ∈ nodesAll ds :=
    hds.mem_firsts.1 (hsplit ▸ List.mem_append_right _ List.mem_cons_self)
  rcases ((hcomp.form_of_mem hds hn).of_step hs).2.2 with ⟨-, -, hatom, hwild⟩ | ⟨-, ⟨d, hd⟩, -⟩
  · rw [List.filter_eq_nil_iff]
    intro m hm hw
    have hmatom := atom_of_writes hcomp hds (mem_of_mem_done hds hsplit hm) hwild hw
    have hnodup := nodup_firsts ds
    rw [hsplit, List.map_append, List.nodup_append] at hnodup
    exact hnodup.2.2 _ (List.mem_map_of_mem hm) _ (List.mem_map_of_mem List.mem_cons_self)
      (hmatom.trans hatom.symm)
  · rw [hkind] at hd
    cases hd

/-- What the step of a node keeps is what its slot then has to hold. -/
theorem slotValue_keep {done rest : List Derivation} {n : Derivation}
    (hsplit : firsts ds = done ++ n :: rest) {s : Step} (hs : step? db n = some s)
    {store : Store} (hstore : ∀ t, store.lookup t = slotValue db done t)
    (hdone : ∀ m ∈ done, (step? db m).isSome → (m.value db).isSome) {w : Resource}
    (hw : n.value db = some w) (t : Tuple) :
    (s.keep w store).lookup t = slotValue db (done ++ [n]) t := by
  have hn : n ∈ nodesAll ds :=
    hds.mem_firsts.1 (hsplit ▸ List.mem_append_right _ List.mem_cons_self)
  by_cases ht : t = s.output
  · subst ht
    have hwrites : n.writes db s.output = true := writes_iff.2 ⟨s, hs, rfl⟩
    have hseed := hcomp.seed_eq_none (output_not_input hcomp hds hroots hn hs)
    have hbefore := hstore s.output
    rw [slotValue, hseed, Option.none_or] at hbefore
    rw [slotValue, hseed, Option.none_or, List.filter_append, List.filter_cons_of_pos hwrites,
      List.filter_nil, List.map_append, List.map_cons, List.map_nil, hw]
    have htask := not_writes_of_task hcomp hds hsplit hs
    generalize hvs : (done.filter (writes db s.output)).map (value db) = vs at hbefore ⊢
    unfold Step.keep
    cases vs with
    | nil =>
      -- nothing is in the slot yet
      rw [hbefore]
      rcases s.kind with _ | _ <;> exact List.lookup_cons_self
    | cons v vs =>
      have hsome : (Resource.overlay (v :: vs)).isSome := by
        apply Resource.isSome_overlay (List.cons_ne_nil v vs)
        intro u hu
        obtain ⟨m, hm, rfl⟩ := List.mem_map.1 (hvs ▸ hu)
        obtain ⟨hm, hmw⟩ := List.mem_filter.1 hm
        obtain ⟨s', hs', -⟩ := writes_iff.1 hmw
        exact hdone m hm (by rw [hs']; rfl)
      obtain ⟨u, hu⟩ := Option.isSome_iff_exists.1 hsome
      rcases hkind : s.kind with _ | name
      · rw [htask hkind] at hvs
        cases hvs
      · rw [Resource.overlay_concat (List.cons_ne_nil v vs), hbefore, hu]
        exact List.lookup_cons_self
  · have hwrites : ¬ n.writes db t = true := by
      intro hwt
      obtain ⟨s', hs', hout⟩ := writes_iff.1 hwt
      cases hs.symm.trans hs'
      exact ht hout.symm
    rw [s.lookup_keep_of_ne w store ht, hstore, slotValue_of_not_writes hwrites]

/-! ### All steps -/

omit hds hroots in
/-- A filled slot holds a value, once the steps that fill it have succeeded. -/
theorem isSome_slotValue {done : List Derivation} {t : Tuple}
    (hfilled : Plan.Filled q.inputTuples (done.filterMap (step? db)) t)
    (hdone : ∀ m ∈ done, (step? db m).isSome → (m.value db).isSome) :
    (slotValue db done t).isSome := by
  rw [slotValue, Option.isSome_or, Bool.or_eq_true]
  rcases hfilled with ht | ⟨s, hs, rfl⟩
  · exact Or.inl (hcomp.isSome_seed_iff.2 ht)
  · obtain ⟨m, hm, hs⟩ := List.mem_filterMap.1 hs
    refine Or.inr (Resource.isSome_overlay (fun hnil => ?_) fun v hv => ?_)
    · have hmem : m ∈ done.filter (writes db s.output) :=
        List.mem_filter.2 ⟨hm, writes_iff.2 ⟨s, hs, rfl⟩⟩
      rw [List.map_eq_nil_iff.1 hnil] at hmem
      cases hmem
    · obtain ⟨k, hk, rfl⟩ := List.mem_map.1 hv
      obtain ⟨hk, hkw⟩ := List.mem_filter.1 hk
      obtain ⟨s', hs', -⟩ := writes_iff.1 hkw
      exact hdone k hk (by rw [hs']; rfl)

/-- A step finds the value of the first child of its node. -/
theorem lookup_input {done rest : List Derivation} {n : Derivation}
    (hsplit : firsts ds = done ++ n :: rest) {s : Step} (hs : step? db n = some s)
    (hfilled : Plan.Filled q.inputTuples (done.filterMap (step? db)) s.input)
    {store : Store} (hstore : ∀ t, store.lookup t = slotValue db done t)
    (hdone : ∀ m ∈ done, (step? db m).isSome → (m.value db).isSome) :
    ∃ first v, n.children.head? = some first ∧ first.value db = some v ∧
      store.lookup s.input = some v ∧ v.type = s.task.input ∧
      n.value db = (s.task.invoke v).toOption := by
  have hn : n ∈ nodesAll ds :=
    hds.mem_firsts.1 (hsplit ▸ List.mem_append_right _ List.mem_cons_self)
  obtain ⟨⟨first, children, t, hchildren, ht, htype, hin⟩, -⟩ :=
    (hcomp.form_of_mem hds hn).of_step hs
  have hfirst : first ∈ n.children := hchildren ▸ List.mem_cons_self
  have hfirstNode := mem_nodesAll_of_mem_nodes hn (below_of_mem_children hfirst).mem_nodes
  have hvalue : store.lookup s.input = first.value db := by
    rw [hstore, hin]
    exact slotValue_home hcomp hds hroots hsplit hfirstNode
      (fun m hm => hds.below_firsts hsplit ⟨first, hfirst, hm⟩) ht
  have hsome := isSome_slotValue hcomp hfilled hdone
  rw [← hstore, hvalue] at hsome
  obtain ⟨v, hv⟩ := Option.isSome_iff_exists.1 hsome
  refine ⟨first, v, by rw [hchildren, List.head?_cons], hv, hvalue.trans hv,
    (value_type hcomp hds hfirstNode ht hv).trans htype, ?_⟩
  rw [value_eq_invoke hcomp hds hn hs hchildren, hv, Option.bind_some]

/-- Is the step of a node, if it has one, invoked with success on the value of the
    first child? -/
def Invoked (db : Database) (n : Derivation) : Prop :=
  ∀ s, step? db n = some s → ∃ first v w, n.children.head? = some first ∧
    first.value db = some v ∧ s.task.invoke v = .ok w

omit hroots in
theorem Invoked.isSome_value {n : Derivation} (h : n.Invoked db) (hn : n ∈ nodesAll ds)
    (hs : (step? db n).isSome) : (n.value db).isSome := by
  obtain ⟨s, hs⟩ := Option.isSome_iff_exists.1 hs
  obtain ⟨first, v, w, hfirst, hv, hw⟩ := h s hs
  obtain ⟨rest, hchildren⟩ := List.head?_eq_some_iff.1 hfirst
  rw [value_eq_invoke hcomp hds hn hs hchildren, hv, Option.bind_some, hw]
  rfl

/-- **The steps can be run to the end exactly if each is invoked with success, and then
    every slot holds what the nodes that write it denote.** -/
theorem runSteps_spec
    (hfilled : ∀ before s after, (firsts ds).filterMap (step? db) = before ++ s :: after →
      Plan.Filled q.inputTuples before s.input) :
    ∀ (rest done : List Derivation) (i : Nat) (store : Store), firsts ds = done ++ rest →
      (∀ t, store.lookup t = slotValue db done t) → (∀ m ∈ done, m.Invoked db) →
        ((∃ store', (Plan.runSteps i (rest.filterMap (step? db)) store).2 = .ok store') ↔
          ∀ m ∈ rest, m.Invoked db) ∧
        ∀ store', (Plan.runSteps i (rest.filterMap (step? db)) store).2 = .ok store' →
          ∀ t, store'.lookup t = slotValue db (firsts ds) t := by
  intro rest
  induction rest with
  | nil =>
    intro done i store hsplit hstore hdone
    refine ⟨⟨fun _ m hm => (nomatch hm), fun _ => ⟨store, rfl⟩⟩, ?_⟩
    intro store' h t
    cases h
    rw [hstore, hsplit, List.append_nil]
  | cons n rest ih =>
    intro done i store hsplit hstore hdone
    have hnext : firsts ds = (done ++ [n]) ++ rest := by
      rw [hsplit, List.append_assoc, List.singleton_append]
    have hinvoked : n.Invoked db → ∀ m ∈ done ++ [n], m.Invoked db := by
      intro hn m hm
      rcases List.mem_append.1 hm with hm | hm
      · exact hdone m hm
      · exact List.mem_singleton.1 hm ▸ hn
    rcases hs : step? db n with _ | s
    · -- nothing is to be done at the node
      have hn : n.Invoked db := by
        intro s hs'
        cases hs.symm.trans hs'
      have hwrites : ∀ t, ¬ n.writes db t = true := by
        intro t hw
        obtain ⟨s, hs', -⟩ := writes_iff.1 hw
        cases hs.symm.trans hs'
      obtain ⟨hiff, hend⟩ := ih (done ++ [n]) i store hnext
        (fun t => by rw [slotValue_of_not_writes (hwrites t), hstore]) (hinvoked hn)
      rw [List.filterMap_cons_none hs, List.forall_mem_cons]
      exact ⟨hiff.trans ⟨fun h => ⟨hn, h⟩, fun h => h.2⟩, hend⟩
    · have hvalues : ∀ m ∈ done, (step? db m).isSome → (m.value db).isSome := by
        intro m hm
        exact (hdone m hm).isSome_value hcomp hds (mem_of_mem_done hds hsplit hm)
      have hin : Plan.Filled q.inputTuples (done.filterMap (step? db)) s.input := by
        apply hfilled _ s (rest.filterMap (step? db))
        rw [hsplit, List.filterMap_append, List.filterMap_cons_some hs]
      obtain ⟨first, v, hfirst, hv, hlookup, htype, hvalue⟩ :=
        lookup_input hcomp hds hroots hsplit hs hin hstore hvalues
      rw [List.filterMap_cons_some hs, List.forall_mem_cons, Plan.runSteps, Step.run, hlookup]
      dsimp only
      rw [if_pos htype]
      rcases hw : s.task.invoke v with e | w
      · -- the step fails, and so does the run
        have hn : ¬ n.Invoked db := by
          intro hn
          obtain ⟨first', v', w, hfirst', hv', hw'⟩ := hn s hs
          cases hfirst.symm.trans hfirst'
          cases hv.symm.trans hv'
          cases hw.symm.trans hw'
        exact ⟨⟨fun ⟨store', h⟩ => (nomatch h), fun h => absurd h.1 hn⟩, fun store' h => nomatch h⟩
      · have hn : n.Invoked db := by
          intro s' hs'
          cases hs.symm.trans hs'
          exact ⟨first, v, w, hfirst, hv, hw⟩
        rw [hw] at hvalue
        obtain ⟨hiff, hend⟩ := ih (done ++ [n]) (i + 1) (s.keep w store) hnext
          (slotValue_keep hcomp hds hroots hsplit hs hstore hvalues hvalue) (hinvoked hn)
        exact ⟨hiff.trans ⟨fun h => ⟨hn, h⟩, fun h => h.2⟩, hend⟩

end Genuine

end Derivation

/-! ### Whole plans -/

/-- A plan with steps that verifies is run to the end and its output slot read. -/
theorem executeSeeded_eq {p : Plan} {seed : Store} (hsteps : p.steps ≠ [])
    (hverify : p.verifyFrom (seed.map Prod.fst) = .ok ()) :
    p.executeSeeded seed =
      match (Plan.runSteps 0 p.steps seed).2 with
      | .error e => .error e
      | .ok store =>
        match store.lookup p.output with
        | some v => .ok v
        | none => .error (Plan.missingSlot p.size Plan.outputName p.output store.slots) := by
  have hempty : p.isEmpty = false := by
    rw [Plan.isEmpty, List.isEmpty_eq_false_iff]
    exact hsteps
  rw [Plan.executeSeeded, Plan.observe, hempty, hverify]
  rcases Plan.runSteps 0 p.steps seed with ⟨events, e | store⟩
  · rfl
  · dsimp only
    rcases store.lookup p.output with _ | v <;> rfl

/-- **Executing the plan of a solved query computes what the proofs denote.**  The plan
    has the steps of the nodes of the proofs, each once and after all below it.  Its
    execution from the inputs of the document succeeds exactly if every one of these
    steps is invoked with success, and then yields the value of the last output.  What an
    aggregate denotes has the type of the first of its properties, and every field as the
    last of them has it that has it. -/
theorem executeSeeded_eq_value (p : Planner) (q : Query) (sol : Solution)
    (h : p.solve q = .ok sol) (hsteps : sol.plan.steps ≠ [])
    (hverify : sol.plan.verifyFrom q.inputTuples = .ok ()) :
    let ds := sol.derivations.map Prod.snd
    sol.plan.steps = (firsts ds).filterMap (step? sol.database) ∧
      ((∃ v, sol.plan.executeSeeded sol.database.seed = .ok v) ↔
        ∀ n ∈ firsts ds, n.Invoked sol.database) ∧
      (∀ v, sol.plan.executeSeeded sol.database.seed = .ok v →
        ∃ last d, q.outputTuples.getLast? = some last ∧
          sol.derivations.getLast? = some (last, d) ∧ d.value sol.database = some v) ∧
      ∀ n ∈ nodesAll ds, n.kind = .allDependencies → ∀ u, n.value sol.database = some u →
        ∃ ws, (distinct [] (n.children.filter isProperty)).map (value sol.database) =
          ws.map some ∧ Resource.IsOverlay ws u := by
  intro ds
  obtain ⟨hcomp, hds, houtputs, hatoms, hplan⟩ := Planner.solve_eq_ok h
  obtain ⟨⟨last, d⟩, hlast, hplanSteps, houtput, -⟩ :=
    Plan.ofDerivations_eq_ok hds hcomp.readsFirst (fun td htd => (hatoms td htd).1) hplan
  obtain ⟨hatom, hnode⟩ := hatoms _ (List.mem_of_getLast? hlast)
  have hroots : ∀ d ∈ ds, ∃ u, d.atom = .resource u := by
    intro d hd
    obtain ⟨td, htd, rfl⟩ := List.mem_map.1 hd
    exact ⟨td.1, (hatoms td htd).1⟩
  obtain ⟨hfilled, hfilledOut⟩ := Plan.verifyFrom_eq_ok.1 hverify
  rw [hplanSteps] at hfilled hfilledOut
  obtain ⟨hiff, hend⟩ := runSteps_spec hcomp hds hroots hfilled (firsts ds) [] 0 sol.database.seed
    rfl (fun t => Option.or_none.symm) (fun m hm => nomatch hm)
  have hheld : sol.plan.verifyFrom (sol.database.seed.map Prod.fst) = .ok () := by
    rw [Database.seed, hcomp.inputs]
    exact hverify
  have hrun := executeSeeded_eq hsteps hheld
  rw [hplanSteps] at hrun
  -- the output slot is the home of the last output
  have hread : ∀ store : Store, (∀ t, store.lookup t = slotValue sol.database (firsts ds) t) →
      store.lookup sol.plan.output = d.value sol.database := by
    intro store hstore
    rw [hstore, houtput]
    exact slotValue_home hcomp hds hroots (List.append_nil _).symm hnode
      (fun m hm => hds.mem_firsts.2 (mem_nodesAll_of_mem_nodes hnode hm)) hatom
  refine ⟨hplanSteps, ⟨?_, ?_⟩, fun v hv => ⟨last, d, ?_, hlast, ?_⟩, fun n _ hkind u hu => ?_⟩
  · rintro ⟨v, hv⟩
    apply hiff.1
    rw [hrun] at hv
    rcases hresult : (Plan.runSteps 0 ((firsts ds).filterMap (step? sol.database))
      sol.database.seed).2 with e | store
    · rw [hresult] at hv
      cases hv
    · exact ⟨store, rfl⟩
  · intro hall
    obtain ⟨store, hstore⟩ := hiff.2 hall
    have hsome := isSome_slotValue hcomp hfilledOut fun m hm =>
      (hall m hm).isSome_value hcomp hds (hds.mem_firsts.1 hm)
    rw [← hend store hstore] at hsome
    obtain ⟨v, hv⟩ := Option.isSome_iff_exists.1 hsome
    exact ⟨v, by rw [hrun, hstore]; dsimp only; rw [hv]⟩
  · rw [← houtputs, List.getLast?_map, hlast, Option.map_some]
  · rw [hrun] at hv
    rcases hresult : (Plan.runSteps 0 ((firsts ds).filterMap (step? sol.database))
      sol.database.seed).2 with e | store
    · rw [hresult] at hv
      cases hv
    · rw [hresult] at hv
      dsimp only at hv
      rw [hread store (hend store hresult)] at hv
      split at hv
      · rename_i u hu
        cases hv
        exact hu
      · cases hv
  · exact Resource.isOverlay_of_overlay ((value_of_aggregate hkind).symm.trans hu)

/-! ### A recipe that two descriptors write -/

namespace Demo

/-- A recipe that is still to be named. -/
def draftRecipe : Task where
  name := "DraftRecipe"
  description := "Draft a recipe"
  input := "topic"
  output := "recipe"
  work r := do
    let topic ← need "topic" r
    return ((Resource.ofType "recipe").set "title" (.text "draft")).set "base" (.text topic)

def cookbook : Planner where
  registry :=
    { types := [("recipe", ⟨"Recipe", []⟩), ("topic", ⟨"Topic", ["topic"]⟩)]
      order := ["topic", "recipe"] }
  catalog := ⟨.empty, .ofList [⟨"draft", draftRecipe⟩, ⟨"title", nameDish⟩]⟩
  maxDepth := 8

/-- A recipe that is drafted for one topic, and then titled after another one. -/
def titledQuery : Query :=
  ((Query.empty.withInput "topic" 1 [("topic", .text "leek")]).withInput "topic" 2
      [("topic", .text "barley")]).withResource "recipe"
      (((ResourceSpec.ofId 3).describe "draft" [("of", "topic", 1)]).describe "title"
        [("of", "topic", 2)])
    |>.withOutput "recipe" 3

/-- The titles that the properties of an aggregate give. -/
def titles (db : Database) (n : Derivation) : List (Option String) :=
  (distinct [] (n.children.filter isProperty)).map fun m =>
    (m.value db).bind fun w => w.getText? "title"

/-- Is a recipe made of two titles, the later of which it has, and of the base of the first? -/
def isTitled (sol : Solution) : Bool :=
  !sol.plan.steps.isEmpty && decide (sol.plan.verifyFrom titledQuery.inputTuples = .ok ()) &&
    ((sol.plan.executeSeeded sol.database.seed).toOption.any fun v =>
      v.getText? "title" == some "Barley soup" && v.getText? "base" == some "leek") &&
    sol.derivations.getLast?.any fun td => decide (td.2.kind = .completion) &&
      td.2.children.head?.any fun n => decide (n.kind = .allDependencies) &&
        titles sol.database n == [some "draft", some "Barley soup"]

end Demo

/-- The recipe is titled by the later descriptor, and keeps what else the first one wrote. -/
theorem executeSeeded_eq_value_recipe : ∃ sol v, Demo.cookbook.solve Demo.titledQuery = .ok sol ∧
    sol.plan.steps ≠ [] ∧ sol.plan.verifyFrom Demo.titledQuery.inputTuples = .ok () ∧
    sol.plan.executeSeeded sol.database.seed = .ok v ∧
    v.getText? "title" = some "Barley soup" ∧ v.getText? "base" = some "leek" ∧
    ∃ last d, sol.derivations.getLast? = some (last, d) ∧ d.value sol.database = some v ∧
      ∃ ws, ws.map (fun w => w.getText? "title") = [some "draft", some "Barley soup"] ∧
        Resource.IsOverlay ws v := by
  have hall : (Demo.cookbook.solve Demo.titledQuery).toOption.any Demo.isTitled = true := by
    decide +kernel
  obtain ⟨sol, hs, hsol⟩ := any_toOption_iff.1 hall
  simp only [Demo.isTitled, Bool.and_eq_true, Bool.not_eq_true', List.isEmpty_eq_false_iff,
    decide_eq_true_eq, Option.any_eq_true, toOption_eq_some_iff, beq_iff_eq] at hsol
  obtain ⟨⟨⟨hsteps, hverify⟩, v, hv, htitle, hbase⟩, td, hlast, hkind, n, hn, haggregate, htitles⟩ :=
    hsol
  obtain ⟨-, -, hvalue, hoverlay⟩ :=
    executeSeeded_eq_value Demo.cookbook Demo.titledQuery sol hs hsteps hverify
  obtain ⟨last, d, -, hlast', hd⟩ := hvalue v hv
  cases hlast.symm.trans hlast'
  -- the aggregate stands below the last output
  obtain ⟨rest, hchildren⟩ := List.head?_eq_some_iff.1 hn
  have hmem : n ∈ nodesAll (sol.derivations.map Prod.snd) := mem_nodesAll.2
    ⟨d, List.mem_map_of_mem (List.mem_of_getLast? hlast),
      (below_of_mem_children (hchildren ▸ List.mem_cons_self)).mem_nodes⟩
  have hsame : d.value sol.database = n.value sol.database := value_of_completion hkind hchildren
  obtain ⟨ws, hws, hover⟩ := hoverlay n hmem haggregate v (hsame.symm.trans hd)
  have hmap := congrArg (List.map fun v => v.bind fun w => w.getText? "title") hws
  rw [List.map_map, List.map_map] at hmap
  exact ⟨sol, v, hs, hsteps, hverify, hv, htitle, hbase, last, d, hlast, hd, ws,
    hmap.symm.trans htitles, hover⟩

end HornPlan
