/-
  HornPlan/Proofs/Registry/History.lean
  =====================================
  **Registries with a history.**

  A registry has two collections, the types by alias and the aliases in the order of
  registration, and both are written to one after the other.  `Coherent` says that they are
  in step: the aliases in their order are those of the types, and none is there twice.  A
  registration that is refused leaves both as they are, and one that is granted adds to both
  (`add_cases`), so they are in step after any history (`coherent_after`).

  What is listed goes through both collections.  It is all that was granted, in that order
  (`entries_after`), and as many types as there are.

  Together with what the text of a tuple tells, this makes atoms identify instances: those
  of registered types have the same text exactly if the types have the same name and the ids
  are the same (`after_identifies`).

  Specification, section 4.1: `atom_for` is injective over types and ids.
-/
import HornPlan.Proofs.Atom.Text
import HornPlan.Proofs.Lookup
import HornPlan.Registry
import Mathlib.Data.List.Induction
import Mathlib.Data.List.Nodup

namespace HornPlan.Registry

variable {r : Registry} {key : String} {type : ResourceType}

/-! ### One registration -/

theorem contains_iff : r.contains key = true ↔ key ∈ r.types.map Prod.fst := isSome_lookup

/-- **What a registration comes to.** -/
theorem add_cases (r : Registry) (key : String) (type : ResourceType) :
    (r.contains key = true ∧ r.add key type = (.error (.duplicateAlias key), r)) ∨
    (r.contains key = false ∧ ∃ x ∈ r.types, x.2.name = type.name ∧
      r.add key type = (.error (.duplicateResourceType type.name x.1), r)) ∨
    (r.contains key = false ∧ (∀ x ∈ r.types, x.2.name ≠ type.name) ∧
      r.add key type = (.ok (), ⟨(key, type) :: r.types, r.order ++ [key]⟩)) := by
  unfold add
  cases hkey : r.contains key with
  | true => exact Or.inl ⟨rfl, rfl⟩
  | false =>
    cases hfind : r.types.find? fun x => x.2.name = type.name with
    | some x =>
      have hname := List.find?_some hfind
      exact Or.inr (Or.inl ⟨rfl, x, List.mem_of_find?_eq_some hfind, of_decide_eq_true hname, rfl⟩)
    | none =>
      have hnames := List.find?_eq_none.1 hfind
      exact Or.inr (Or.inr ⟨rfl, fun x hx hname => hnames x hx (decide_eq_true hname), rfl⟩)

/-! ### Two collections in step -/

/-- The aliases in their order are those of the types.  No alias is there twice, and no name
    of a type. -/
structure Coherent (r : Registry) : Prop where
  inStep : (r.types.map Prod.fst).Perm r.order
  aliases : r.order.Nodup
  names : (r.types.map fun x => x.2.name).Nodup

theorem coherent_empty : empty.Coherent := ⟨.nil, List.nodup_nil, List.nodup_nil⟩

/-- **Whatever is registered, the collections stay in step.** -/
theorem Coherent.add (h : r.Coherent) (key : String) (type : ResourceType) :
    (r.add key type).2.Coherent := by
  rcases r.add_cases key type with ⟨-, hadd⟩ | ⟨-, x, -, -, hadd⟩ | ⟨hkey, hnames, hadd⟩
  · rw [hadd]
    exact h
  · rw [hadd]
    exact h
  · rw [hadd]
    have hfresh : key ∉ r.order := by
      rw [← h.inStep.mem_iff, ← contains_iff, hkey]
      exact Bool.false_ne_true
    have hfreshName : type.name ∉ r.types.map fun x => x.2.name := by
      intro hmem
      obtain ⟨x, hx, hname⟩ := List.mem_map.1 hmem
      exact hnames x hx hname
    constructor
    · exact (h.inStep.cons key).trans (List.perm_append_singleton key r.order).symm
    · rw [← List.concat_eq_append]
      exact h.aliases.concat hfresh
    · exact List.nodup_cons.2 ⟨hfreshName, h.names⟩

section Coherent

variable (h : r.Coherent)
include h

theorem Coherent.mem_order : key ∈ r.order ↔ r.contains key = true := by
  rw [contains_iff, h.inStep.mem_iff]

theorem Coherent.mem_types_iff : (key, type) ∈ r.types ↔ r.type? key = some type := by
  refine ⟨fun hmem => lookup_of_mem hmem fun type' hmem' => ?_, mem_of_lookup⟩
  have hsame := List.inj_on_of_nodup_map (h.inStep.nodup_iff.2 h.aliases) hmem' hmem rfl
  exact (Prod.mk.inj hsame).2

/-- Types of the same name are registered under the same alias. -/
theorem Coherent.eq_of_name {key' : String} {type' : ResourceType}
    (htype : r.type? key = some type) (htype' : r.type? key' = some type')
    (hname : type.name = type'.name) : key = key' := by
  have hsame := List.inj_on_of_nodup_map h.names (h.mem_types_iff.2 htype)
    (h.mem_types_iff.2 htype') hname
  exact congrArg Prod.fst hsame

/-! ### What is listed -/

/-- What is listed is what is found. -/
theorem Coherent.mem_entries_iff : (key, type) ∈ r.entries ↔ r.type? key = some type := by
  unfold entries
  rw [List.mem_filterMap]
  constructor
  · rintro ⟨key', -, hmap⟩
    obtain ⟨type', htype, hpair⟩ := Option.map_eq_some_iff.1 hmap
    cases hpair
    exact htype
  · intro htype
    have hkey : r.contains key = true := Option.isSome_iff_exists.2 ⟨type, htype⟩
    exact ⟨key, h.mem_order.2 hkey, by rw [htype]; rfl⟩

theorem Coherent.mem_types_iff_mem_entries {x : String × ResourceType} :
    x ∈ r.types ↔ x ∈ r.entries :=
  h.mem_types_iff.trans h.mem_entries_iff.symm

/-- No alias is left out of a listing. -/
theorem Coherent.map_fst_entries : r.entries.map Prod.fst = r.order := by
  have hall : ∀ key ∈ r.order,
      ((r.type? key).map fun type => (key, type)).map Prod.fst = some key := by
    intro key hkey
    obtain ⟨type, htype⟩ := Option.isSome_iff_exists.1 (h.mem_order.1 hkey)
    rw [htype]
    rfl
  rw [entries, List.map_filterMap, List.filterMap_congr hall, List.filterMap_some]

theorem Coherent.length_entries : r.entries.length = r.size := by
  rw [← List.length_map Prod.fst, h.map_fst_entries, ← h.inStep.length_eq, List.length_map, size]

theorem Coherent.count_alias (key : String) :
    (r.entries.map Prod.fst).count key = if r.contains key then 1 else 0 := by
  rw [h.map_fst_entries, h.aliases.count]
  simp only [h.mem_order]

/-- What is newly registered comes last, and the rest is listed as before. -/
theorem Coherent.entries_cons_concat (hkey : r.contains key = false) :
    entries ⟨(key, type) :: r.types, r.order ++ [key]⟩ = r.entries ++ [(key, type)] := by
  have hbefore : ∀ a ∈ r.order, List.lookup a ((key, type) :: r.types) = r.type? a := by
    intro a ha
    rw [lookup_insert, if_neg]
    · rfl
    · rintro rfl
      rw [h.mem_order.1 ha] at hkey
      cases hkey
  rw [entries, List.filterMap_append]
  congr 1
  · exact List.filterMap_congr fun a ha => by rw [type?, hbefore a ha]
  · rw [List.filterMap_cons, type?, lookup_insert, if_pos rfl]
    rfl

/-- **One more registration**, and what is listed after it. -/
theorem Coherent.add_cases (key : String) (type : ResourceType) :
    (r.contains key = true ∧ r.add key type = (.error (.duplicateAlias key), r)) ∨
    (r.contains key = false ∧ ∃ x ∈ r.entries, x.2.name = type.name ∧
      r.add key type = (.error (.duplicateResourceType type.name x.1), r)) ∨
    (r.contains key = false ∧ (∀ x ∈ r.entries, x.2.name ≠ type.name) ∧
      ∃ r', r.add key type = (.ok (), r') ∧ r'.entries = r.entries ++ [(key, type)]) := by
  rcases Registry.add_cases r key type with hadd | ⟨hkey, x, hx, hadd⟩ | ⟨hkey, hnames, hadd⟩
  · exact Or.inl hadd
  · exact Or.inr (Or.inl ⟨hkey, x, h.mem_types_iff_mem_entries.1 hx, hadd⟩)
  · exact Or.inr (Or.inr ⟨hkey, fun x hx => hnames x (h.mem_types_iff_mem_entries.2 hx), _, hadd,
      h.entries_cons_concat hkey⟩)

end Coherent

/-- The texts of two tuples of registered types are equal exactly if the types have the same
    name and the ids are the same. -/
theorem Coherent.text_eq_iff (h : r.Coherent) {s t : Tuple} {type' : ResourceType}
    (htype : r.type? s.type = some type) (htype' : r.type? t.type = some type') :
    r.atomFor s = r.atomFor t ↔ type.name = type'.name ∧ s.id = t.id := by
  rw [atomFor, atomFor, Tuple.text_inj]
  constructor
  · rintro rfl
    cases htype.symm.trans htype'
    exact ⟨rfl, rfl⟩
  · rintro ⟨hname, hid⟩
    have halias := h.eq_of_name htype htype' hname
    obtain ⟨_, _⟩ := s
    obtain ⟨_, _⟩ := t
    cases halias
    cases hid
    rfl

/-! ### Histories -/

/-- A type, with the alias that it is to be registered under. -/
abbrev Request := String × ResourceType

/-- The registry after a history of requests, some of which are refused. -/
def after (qs : List Request) : Registry := qs.foldl (fun r q => (r.add q.1 q.2).2) empty

/-- The requests of a history that are granted. -/
def granted : Registry → List Request → List Request
  | _, [] => []
  | r, q :: rest =>
    match r.add q.1 q.2 with
    | (.ok (), r') => q :: granted r' rest
    | (.error _, r') => granted r' rest

theorem after_concat (qs : List Request) (q : Request) :
    after (qs ++ [q]) = ((after qs).add q.1 q.2).2 :=
  List.foldl_concat ..

theorem coherent_after (qs : List Request) : (after qs).Coherent := by
  induction qs using List.reverseRecOn with
  | nil => exact coherent_empty
  | append_singleton qs q ih =>
    rw [after_concat]
    exact ih.add q.1 q.2

theorem Coherent.entries_foldl (h : r.Coherent) (qs : List Request) :
    (qs.foldl (fun r q => (r.add q.1 q.2).2) r).entries = r.entries ++ granted r qs := by
  induction qs generalizing r with
  | nil => exact (List.append_nil _).symm
  | cons q rest ih =>
    rw [List.foldl_cons, ih (h.add q.1 q.2), granted]
    rcases h.add_cases q.1 q.2 with ⟨-, hadd⟩ | ⟨-, x, -, -, hadd⟩ | ⟨-, -, r', hadd, hentries⟩
    · rw [hadd]
    · rw [hadd]
    · rw [hadd]
      dsimp only
      rw [hentries, List.append_assoc]
      rfl

/-- **What is listed is what was granted, in that order.** -/
theorem entries_after (qs : List Request) : (after qs).entries = granted empty qs :=
  coherent_empty.entries_foldl qs

example : (after [("topic", ⟨"Topic", []⟩), ("topic_1", ⟨"Subtopic", []⟩), ("topic", ⟨"Theme", []⟩),
    ("theme", ⟨"Topic", []⟩), ("topic_", ⟨"Note", []⟩)]).entries.map Prod.fst =
      ["topic", "topic_1", "topic_"] := by decide

/-- Every registered alias is listed once, in order and with its type, and identifies the
    type; the texts of tuples identify types and instances. -/
structure Identifies (r : Registry) : Prop where
  map_fst_entries : r.entries.map Prod.fst = r.order
  mem_entries_iff : ∀ key type, (key, type) ∈ r.entries ↔ r.type? key = some type
  count_alias : ∀ key, (r.entries.map Prod.fst).count key = if r.contains key then 1 else 0
  length_entries : r.entries.length = r.size
  eq_of_name : ∀ key key' type type', r.type? key = some type → r.type? key' = some type' →
    type.name = type'.name → key = key'
  atomFor_eq_iff : ∀ s t type type', r.type? s.type = some type → r.type? t.type = some type' →
    (r.atomFor s = r.atomFor t ↔ s = t) ∧
      (r.atomFor s = r.atomFor t ↔ type.name = type'.name ∧ s.id = t.id)

theorem Coherent.identifies (h : r.Coherent) : r.Identifies where
  map_fst_entries := h.map_fst_entries
  mem_entries_iff _ _ := h.mem_entries_iff
  count_alias := h.count_alias
  length_entries := h.length_entries
  eq_of_name _ _ _ _ := h.eq_of_name
  atomFor_eq_iff _ _ _ _ htype htype' := ⟨Tuple.text_inj, h.text_eq_iff htype htype'⟩

/-- **After any history, the two collections are in step, the entries are the requests that
    were granted, and they identify types and instances.**  One more request is refused for
    the one alias or the one name that is in use, and neither collection changes then. -/
theorem after_identifies (qs : List Request) :
    (after qs).Coherent ∧ (after qs).entries = granted empty qs ∧ (after qs).Identifies ∧
    ∀ q : Request,
      ((after qs).contains q.1 = true ∧
        (after qs).add q.1 q.2 = (.error (.duplicateAlias q.1), after qs)) ∨
      ((after qs).contains q.1 = false ∧ ∃ x ∈ (after qs).entries, x.2.name = q.2.name ∧
        (after qs).add q.1 q.2 = (.error (.duplicateResourceType q.2.name x.1), after qs)) ∨
      ((after qs).contains q.1 = false ∧ (∀ x ∈ (after qs).entries, x.2.name ≠ q.2.name) ∧
        (after qs).add q.1 q.2 = (.ok (), after (qs ++ [q])) ∧
          (after (qs ++ [q])).entries = (after qs).entries ++ [q]) := by
  have hcoherent := coherent_after qs
  refine ⟨hcoherent, entries_after qs, hcoherent.identifies, fun q => ?_⟩
  rw [after_concat]
  rcases hcoherent.add_cases q.1 q.2 with hadd | hadd | ⟨hkey, hnames, r', hadd, hentries⟩
  · exact Or.inl hadd
  · exact Or.inr (Or.inl hadd)
  · rw [hadd]
    exact Or.inr (Or.inr ⟨hkey, hnames, rfl, hentries⟩)

end HornPlan.Registry
