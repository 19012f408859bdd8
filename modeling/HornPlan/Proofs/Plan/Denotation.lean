/-
  HornPlan/Proofs/Plan/Denotation.lean
  ====================================
  **What a proof denotes.**

  A proof denotes a value, without any plan: a held instance the value that the
  document gives for it, a task or a descriptor what it makes of the value of the
  first child, and an instance that consists of its properties their values, laid over
  each other in the order in which they are asked for (`value`).

  Values that are laid over each other are of the type of the first of them, and a field
  is as the last of them has it that has it at all (`Resource.isOverlay_of_overlay`).

  The value of a node is that of its source (`value_source`), and is of the type of
  the tuple that the node proves (`value_type`).
-/
import HornPlan.Proofs.Plan.Soundness
import HornPlan.Proofs.Value.Fields

namespace HornPlan

open Query

/-! ### Overlays -/

/-- Lays a value over another one. -/
def Resource.layOver (below above : Option Resource) : Option Resource :=
  below.bind fun b => above.map b.annotate

/-- Lays values over each other, from the first to the last. -/
def Resource.overlay : List (Option Resource) → Option Resource
  | [] => none
  | v :: vs => vs.foldl Resource.layOver v

namespace Resource

theorem overlay_concat {vs : List (Option Resource)} (h : vs ≠ []) (v : Option Resource) :
    overlay (vs ++ [v]) = layOver (overlay vs) v := by
  cases vs with
  | nil => exact absurd rfl h
  | cons w ws =>
    rw [List.cons_append, overlay, overlay, List.foldl_append]
    rfl

/-- Values that are there can be laid over each other. -/
theorem isSome_overlay {vs : List (Option Resource)} (h : vs ≠ []) (hvs : ∀ v ∈ vs, v.isSome) :
    (overlay vs).isSome := by
  induction vs using List.reverseRecOn with
  | nil => exact absurd rfl h
  | append_singleton ws w ih =>
    have hw : w.isSome := hvs w (List.mem_append_right _ List.mem_cons_self)
    cases ws with
    | nil => exact hw
    | cons u us =>
      rw [overlay_concat (List.cons_ne_nil u us)]
      obtain ⟨b, hb⟩ := Option.isSome_iff_exists.1
        (ih (List.cons_ne_nil u us) fun v hv => hvs v (List.mem_append_left _ hv))
      obtain ⟨a, rfl⟩ := Option.isSome_iff_exists.1 hw
      rw [hb]
      rfl

/-- What values make up that are laid over each other: the type is that of the first, and a
    field is as the last of them has it that has it at all. -/
structure IsOverlay (ws : List Resource) (u : Resource) : Prop where
  type : ∃ w ∈ ws.head?, u.type = w.type
  get? : ∀ key, u.get? key = (ws.filterMap fun w => w.get? key).getLast?

theorem isOverlay_singleton (w : Resource) : IsOverlay [w] w where
  type := ⟨w, rfl, rfl⟩
  get? key := by cases h : w.get? key <;> simp [h]

theorem IsOverlay.concat {ws : List Resource} {u : Resource} (h : IsOverlay ws u) (w : Resource) :
    IsOverlay (ws ++ [w]) (u.annotate w) where
  type := by
    obtain ⟨first, hfirst, htype⟩ := h.type
    exact ⟨first, by rw [List.head?_append, hfirst]; rfl, htype⟩
  get? key := by
    rw [get?_annotate, h.get?, List.filterMap_append, List.getLast?_append]
    cases hw : w.get? key <;> simp [hw]

/-- **An overlay has all values that it is made of, and the later ones win.** -/
theorem isOverlay_of_overlay {vs : List (Option Resource)} {u : Resource}
    (h : overlay vs = some u) : ∃ ws, vs = ws.map some ∧ IsOverlay ws u := by
  induction vs using List.reverseRecOn generalizing u with
  | nil => cases h
  | append_singleton vs v ih =>
    cases vs with
    | nil =>
      cases (h : v = some u)
      exact ⟨[u], rfl, isOverlay_singleton u⟩
    | cons first rest =>
      rw [overlay_concat (List.cons_ne_nil first rest)] at h
      obtain ⟨b, hb, h⟩ := Option.bind_eq_some_iff.1 h
      obtain ⟨a, rfl, rfl⟩ := Option.map_eq_some_iff.1 h
      obtain ⟨ws, hws, hover⟩ := ih hb
      exact ⟨ws ++ [a], by rw [hws, List.map_append, List.map_singleton], hover.concat a⟩

/-- An overlay is of the type of what it lays over each other. -/
theorem overlay_type {vs : List (Option Resource)} {type : String}
    (hvs : ∀ v, some v ∈ vs → v.type = type) {u : Resource} (h : overlay vs = some u) :
    u.type = type := by
  induction vs using List.reverseRecOn generalizing u with
  | nil => cases h
  | append_singleton ws w ih =>
    cases ws with
    | nil => exact hvs u (h ▸ List.mem_cons_self)
    | cons v vs =>
      rw [overlay_concat (List.cons_ne_nil v vs)] at h
      obtain ⟨b, hb, h⟩ := Option.bind_eq_some_iff.1 h
      obtain ⟨a, -, rfl⟩ := Option.map_eq_some_iff.1 h
      exact ih (u := b) (fun x hx => hvs x (List.mem_append_left _ hx)) hb

end Resource

namespace Derivation

variable {r : Registry} {c : Catalog} {q : Query} {db : Database}

/-! ### Values -/

/-- Does a node prove a property? -/
def isProperty (n : Derivation) : Bool :=
  match n.atom with
  | .property _ _ => true
  | _ => false

/-- What the step of a clause makes of a value. -/
def result (db : Database) (clause : Nat) (value : Resource) : Option Resource :=
  match db.clauses[clause]?.bind Clause.step with
  | some s => (s.task.invoke value).toOption
  | none => none

mutual

/-- The value that a proof denotes.  What an aggregate denotes is what its properties
    make up. -/
def value (db : Database) : Derivation → Option Resource
  | ⟨atom, clause, kind, children⟩ =>
    match kind with
    | .inputFact => atom.asResource?.bind fun t => db.seed.lookup t
    | .task | .dependentDescriptor => (firstValue db children).bind (result db clause)
    | .generalization | .assignment | .completion => firstValue db children
    | .allDependencies => Resource.overlay (propertyValues db [] children)

/-- The value of the first of some proofs. -/
def firstValue (db : Database) : List Derivation → Option Resource
  | [] => none
  | d :: _ => d.value db

/-- The values of the properties among some proofs, each property once. -/
def propertyValues (db : Database) : (seen : List Atom) → List Derivation → List (Option Resource)
  | _, [] => []
  | seen, d :: rest =>
    if d.isProperty ∧ d.atom ∉ seen then d.value db :: propertyValues db (d.atom :: seen) rest
    else propertyValues db seen rest

end

theorem propertyValues_eq (db : Database) (ds : List Derivation) : ∀ seen,
    propertyValues db seen ds = (distinct seen (ds.filter isProperty)).map (value db) := by
  induction ds with
  | nil => exact fun _ => rfl
  | cons d rest ih =>
    intro seen
    rw [propertyValues]
    by_cases hd : d.isProperty = true
    · rw [List.filter_cons_of_pos hd, distinct]
      by_cases hmem : d.atom ∈ seen
      · rw [if_neg fun h => h.2 hmem, if_pos hmem, ih]
      · rw [if_pos ⟨hd, hmem⟩, if_neg hmem, ih, List.map_cons]
    · rw [List.filter_cons_of_neg hd, if_neg fun h => hd h.1, ih]

theorem value_of_aggregate {n : Derivation} (hkind : n.kind = .allDependencies) :
    n.value db =
      Resource.overlay ((distinct [] (n.children.filter isProperty)).map (value db)) := by
  obtain ⟨atom, clause, kind, children⟩ := n
  subst hkind
  rw [value, propertyValues_eq]

/-- The value of an instance is that of what proves it. -/
theorem value_of_completion {n first : Derivation} {rest : List Derivation}
    (hkind : n.kind = .completion) (hfirst : n.children = first :: rest) :
    n.value db = first.value db := by
  obtain ⟨atom, clause, kind, children⟩ := n
  subst hkind hfirst
  rw [value, firstValue]

theorem isProperty_iff {n : Derivation} : n.isProperty = true ↔ ∃ p t, n.atom = .property p t := by
  unfold isProperty
  split
  · rename_i p t hatom
    exact ⟨fun _ => ⟨p, t, hatom⟩, fun _ => rfl⟩
  · rename_i hatom
    exact ⟨fun h => (nomatch h), fun ⟨p, t, h⟩ => absurd h (hatom p t)⟩

/-- The value of a node is that of its source. -/
theorem value_source (d : Derivation) : d.source.value db = d.value db := by
  induction d with
  | node atom clause kind children ih =>
    cases children with
    | nil => rfl
    | cons first rest =>
      rw [source]
      split
      · rename_i hborrows
        obtain ⟨hk, -⟩ := of_decide_eq_true hborrows
        rw [ih first List.mem_cons_self]
        rcases hk with rfl | rfl | rfl <;> rw [value, firstValue]
      · rfl

/-- The value of a node with a step is what the step makes of the value of the first
    child. -/
theorem value_of_step {n first : Derivation} {rest : List Derivation} {s : Step}
    (hkind : n.kind = .task ∨ n.kind = .dependentDescriptor) (hfirst : n.children = first :: rest)
    (hs : step? db n = some s) :
    n.value db = (first.value db).bind fun v => (s.task.invoke v).toOption := by
  obtain ⟨atom, clause, kind, children⟩ := n
  subst hfirst
  obtain ⟨s', hs', rfl⟩ := Option.map_eq_some_iff.1 hs
  have hresult : result db clause = fun v => (s'.task.invoke v).toOption := by
    funext v
    rw [result, hs']
  rcases hkind with rfl | rfl <;> rw [value, firstValue, hresult]

/-- A result is of the output type of its task. -/
theorem invoke_type {t : Task} {v w : Resource} (h : t.invoke v = .ok w) : w.type = t.output := by
  unfold Task.invoke at h
  split at h
  · cases h
  · split at h
    · rename_i htype
      cases h
      exact htype
    · cases h

section Genuine

variable {ds : List Derivation} (hcomp : Compiled r c q db) (hds : Genuine db ds)
include hcomp hds

/-- The value of a node with a step. -/
theorem value_eq_invoke {n first : Derivation} {rest : List Derivation} (hn : n ∈ nodesAll ds)
    {s : Step} (hs : step? db n = some s) (hchildren : n.children = first :: rest) :
    n.value db = (first.value db).bind fun v => (s.task.invoke v).toOption := by
  refine value_of_step ?_ hchildren hs
  rcases ((hcomp.form_of_mem hds hn).of_step hs).2.2 with ⟨hkind, -⟩ | ⟨hkind, -⟩
  · exact Or.inl hkind
  · exact Or.inr hkind

/-- The value of a node with a step is of the type of what it writes. -/
theorem value_type_of_step {n : Derivation} (hn : n ∈ nodesAll ds) {s : Step}
    (hs : step? db n = some s) {v : Resource} (hv : n.value db = some v) :
    v.type = s.output.type := by
  obtain ⟨⟨first, rest, t, hchildren, -⟩, htype, -⟩ := (hcomp.form_of_mem hds hn).of_step hs
  rw [value_eq_invoke hcomp hds hn hs hchildren] at hv
  obtain ⟨u, -, hv⟩ := Option.bind_eq_some_iff.1 hv
  rcases hw : s.task.invoke u with e | w
  · rw [hw] at hv
    cases hv
  · rw [hw] at hv
    cases hv
    exact (invoke_type hw).trans htype.symm

/-- **The value of a proof is of the type of the tuple that it proves.** -/
theorem value_type {n : Derivation} (hn : n ∈ nodesAll ds) {t : Tuple} (ht : n.atom = .resource t)
    {v : Resource} (hv : n.value db = some v) : v.type = t.type := by
  rw [← value_source] at hv
  obtain ⟨hmem, hcases⟩ := source_cases hcomp hds hn ht
  have hnode := mem_nodesAll_of_mem_nodes hn hmem
  rcases hcases with ⟨s, -, hkind, hatom, htype, -⟩ | ⟨hkind, hatom⟩ |
    ⟨e, i, aggregate, hsource, rfl, -, -, -, haggregate, -⟩
  · rw [← htype]
    generalize n.source = m at hkind hatom hv
    obtain ⟨atom, clause, kind, children⟩ := m
    subst hkind hatom
    rw [value] at hv
    exact hcomp.typed _ (mem_of_lookup hv)
  · obtain ⟨task, first, -, -, hout, hstep⟩ := (hcomp.form_of_mem hds hnode).of_task hkind
    rw [value_type_of_step hcomp hds hnode hstep hv]
    rw [hatom] at hout
    injection hout with hout
    exact (congrArg Tuple.type hout).symm
  · rw [hsource] at hv hnode
    have haggr : aggregate ∈ nodesAll ds :=
      mem_nodesAll_of_mem_nodes hnode (below_of_mem_children List.mem_cons_self).mem_nodes
    have hform := hcomp.form_of_mem hds haggr
    rw [value, firstValue, value_of_aggregate (hform.of_aggregate haggregate).1] at hv
    -- every property below the aggregate is of the type of the instance
    refine Resource.overlay_type (fun w hw => ?_) hv
    obtain ⟨m, hm, hw⟩ := List.mem_map.1 hw
    obtain ⟨hchild, hprop⟩ := List.mem_filter.1 (mem_of_mem_distinct hm).1
    obtain ⟨p, u, hp⟩ := isProperty_iff.1 hprop
    have hm := mem_nodesAll_of_mem_nodes haggr (below_of_mem_children hchild).mem_nodes
    obtain ⟨_, _, _, _, _, _, _, _, _, hstep⟩ := (hcomp.form_of_mem hds hm).of_property hp
    have hsubject := hform.aggregate_of_property hchild hp
    rw [haggregate] at hsubject
    cases hsubject
    exact value_type_of_step hcomp hds hm hstep hw

end Genuine

end Derivation

end HornPlan
