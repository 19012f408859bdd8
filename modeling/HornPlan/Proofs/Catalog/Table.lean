/-
  HornPlan/Proofs/Catalog/Table.lean
  ==================================
  **What a table finds.**

  A table is `Coherent` if its items have names of their own and its index holds exactly
  their positions.  Nothing but adding items leads to a table, and adding keeps up coherence
  whether the item is taken in or refused (`Coherent.add`).  In a coherent table a name is
  found as if one went through the items (`Coherent.get?_eq_find?`).

  A name stays with the item that was the first to have it.  So the table of some items finds
  what one would find by going through all of them, the refused ones included
  (`get?_ofList`), and it refuses one more exactly if its name has come up (`add_ofList`).
-/
import HornPlan.Catalog.Table
import HornPlan.Proofs.Lookup
import Mathlib.Data.List.Nodup

namespace HornPlan.Table

variable {α : Type} {nameOf : α → String} {tb : Table nameOf} {x : α} {name : String} {i : Nat}

/-! ### Coherence -/

/-- Items have names of their own, and the index holds their positions and nothing else. -/
structure Coherent (tb : Table nameOf) : Prop where
  mem_index_iff : ∀ name i, (name, i) ∈ tb.index ↔ (tb.items.map nameOf)[i]? = some name
  nodup : (tb.items.map nameOf).Nodup

theorem coherent_empty : (empty : Table nameOf).Coherent :=
  ⟨fun _ _ => by simp [empty], List.nodup_nil⟩

/-- No position in the index is outside the list. -/
def InRange (tb : Table nameOf) : Prop := ∀ entry ∈ tb.index, entry.2 < tb.items.length

theorem Coherent.inRange (h : tb.Coherent) : tb.InRange := by
  rintro ⟨name, i⟩ hi
  have hat := (h.mem_index_iff name i).1 hi
  rw [← List.length_map nameOf]
  exact (List.getElem?_eq_some_iff.1 hat).1

theorem Coherent.position?_eq_some_iff (h : tb.Coherent) :
    tb.position? name = some i ↔ (tb.items.map nameOf)[i]? = some name := by
  rw [← h.mem_index_iff]
  refine ⟨mem_of_lookup, fun hi => lookup_of_mem hi fun j hj => ?_⟩
  -- no name has two positions
  have hati := (h.mem_index_iff name i).1 hi
  have hatj := (h.mem_index_iff name j).1 hj
  have hlt := (List.getElem?_eq_some_iff.1 hatj).1
  exact (List.getElem?_inj hlt h.nodup).1 (hatj.trans hati.symm)

theorem Coherent.isSome_position?_iff (h : tb.Coherent) :
    (tb.position? name).isSome ↔ name ∈ tb.items.map nameOf := by
  simp only [Option.isSome_iff_exists, h.position?_eq_some_iff, List.mem_iff_getElem?]

theorem Coherent.position?_eq_none_iff (h : tb.Coherent) :
    tb.position? name = none ↔ name ∉ tb.items.map nameOf := by
  rw [← h.isSome_position?_iff, Option.not_isSome_iff_eq_none]

theorem exists_find?_of_mem {xs : List α} (hx : x ∈ xs) (hname : nameOf x = name) :
    ∃ y ∈ xs, (xs.find? fun y => nameOf y = name) = some y ∧ nameOf y = name := by
  have hsome : (xs.find? fun y => nameOf y = name).isSome := by
    rw [List.find?_isSome]
    exact ⟨x, hx, decide_eq_true hname⟩
  obtain ⟨y, hy⟩ := Option.isSome_iff_exists.1 hsome
  have hyname := List.find?_some hy
  exact ⟨y, List.mem_of_find?_eq_some hy, hy, of_decide_eq_true hyname⟩

/-- **A name is found through the index as if one went through the items.** -/
theorem Coherent.get?_eq_find? (h : tb.Coherent) (name : String) :
    tb.get? name = tb.items.find? fun x => nameOf x = name := by
  unfold get?
  cases hpos : tb.position? name with
  | none =>
    have hnone := h.position?_eq_none_iff.1 hpos
    refine (List.find?_eq_none.2 fun x hx hname => hnone ?_).symm
    rw [← of_decide_eq_true hname]
    exact List.mem_map_of_mem hx
  | some i =>
    have hat := h.position?_eq_some_iff.1 hpos
    rw [List.getElem?_map] at hat
    obtain ⟨x, hx, hname⟩ := Option.map_eq_some_iff.1 hat
    have hmem := List.mem_of_getElem? hx
    obtain ⟨y, hy, hfind, hyname⟩ := exists_find?_of_mem hmem hname
    have hsame := List.inj_on_of_nodup_map h.nodup hmem hy (hname.trans hyname.symm)
    rw [Option.bind_some, hx, hfind, hsame]

/-! ### One more item -/

theorem getElem?_concat_eq_some_iff {names : List String} {last : String} :
    (names ++ [last])[i]? = some name ↔ last = name ∧ i = names.length ∨ names[i]? = some name := by
  rcases Nat.lt_or_ge i names.length with hlt | hge
  · rw [List.getElem?_append_left hlt]
    simp [Nat.ne_of_lt hlt]
  · have hzero : i - names.length = 0 ↔ i = names.length := by omega
    rw [List.getElem?_append_right hge, List.getElem?_eq_none hge, List.getElem?_singleton]
    simp [hzero, and_comm]

theorem add_eq_or (tb : Table nameOf) (x : α) :
    tb.add x = (false, tb) ∨ ∃ tb', tb.add x = (true, tb') ∧ tb'.items = tb.items ++ [x] := by
  unfold add
  split
  · exact Or.inl rfl
  · exact Or.inr ⟨_, rfl, rfl⟩

/-- **What adding an item comes to.** -/
theorem Coherent.add_cases (h : tb.Coherent) (x : α) :
    (nameOf x ∈ tb.items.map nameOf ∧ tb.add x = (false, tb)) ∨
    (nameOf x ∉ tb.items.map nameOf ∧
      tb.add x = (true, ⟨tb.items ++ [x], (nameOf x, tb.items.length) :: tb.index⟩)) := by
  unfold Table.add
  by_cases hmem : nameOf x ∈ tb.items.map nameOf
  · rw [if_pos (h.isSome_position?_iff.2 hmem)]
    exact Or.inl ⟨hmem, rfl⟩
  · rw [if_neg (mt h.isSome_position?_iff.1 hmem)]
    exact Or.inr ⟨hmem, rfl⟩

theorem Coherent.add (h : tb.Coherent) (x : α) : (tb.add x).2.Coherent := by
  rcases h.add_cases x with ⟨-, hadd⟩ | ⟨hnew, hadd⟩
  · rw [hadd]
    exact h
  · rw [hadd]
    constructor
    · intro name i
      rw [List.mem_cons, Prod.mk.injEq, h.mem_index_iff, List.map_append, List.map_singleton,
        getElem?_concat_eq_some_iff, List.length_map, eq_comm (a := name)]
    · rw [List.map_append, List.map_singleton, ← List.concat_eq_append]
      exact h.nodup.concat hnew

/-- Going through the items that are in the table, then through others, finds the same after
    the first of the others has been added. -/
theorem Coherent.find?_add (h : tb.Coherent) (x : α) (rest : List α) (name : String) :
    ((tb.add x).2.items ++ rest).find? (fun y => nameOf y = name) =
      (tb.items ++ x :: rest).find? fun y => nameOf y = name := by
  rcases h.add_cases x with ⟨hold, hadd⟩ | ⟨-, hadd⟩
  · rw [hadd, List.find?_append, List.find?_append]
    by_cases hname : nameOf x = name
    · -- the item that has the name comes first
      obtain ⟨y, hy, hsame⟩ := List.mem_map.1 hold
      obtain ⟨z, -, hfind, -⟩ := exists_find?_of_mem hy (hsame.trans hname)
      rw [hfind, Option.some_or, Option.some_or]
    · rw [List.find?_cons_of_neg (by simpa using hname)]
  · rw [hadd, List.append_assoc]
    rfl

/-! ### Item after item -/

theorem Coherent.foldl_add (h : tb.Coherent) (xs : List α) :
    (xs.foldl (fun tb x => (tb.add x).2) tb).Coherent := by
  induction xs generalizing tb with
  | nil => exact h
  | cons x rest ih => exact ih (h.add x)

theorem coherent_ofList (xs : List α) : (ofList xs : Table nameOf).Coherent :=
  coherent_empty.foldl_add xs

theorem Coherent.find?_foldl_add (h : tb.Coherent) (xs : List α) (name : String) :
    (xs.foldl (fun tb x => (tb.add x).2) tb).items.find? (fun y => nameOf y = name) =
      (tb.items ++ xs).find? fun y => nameOf y = name := by
  induction xs generalizing tb with
  | nil => rw [List.append_nil, List.foldl_nil]
  | cons x rest ih => rw [List.foldl_cons, ih (h.add x), h.find?_add]

/-- **A table finds the first of its items that has a name.** -/
theorem get?_ofList (xs : List α) (name : String) :
    (ofList xs : Table nameOf).get? name = xs.find? fun x => nameOf x = name := by
  rw [(coherent_ofList xs).get?_eq_find?]
  exact coherent_empty.find?_foldl_add xs name

theorem mem_names_ofList {xs : List α} :
    name ∈ (ofList xs : Table nameOf).items.map nameOf ↔ name ∈ xs.map nameOf := by
  have hfind : (ofList xs : Table nameOf).get? name = _ := get?_ofList xs name
  rw [(coherent_ofList xs).get?_eq_find?] at hfind
  have hiff := congrArg Option.isSome hfind
  rw [Bool.eq_iff_iff, List.find?_isSome, List.find?_isSome] at hiff
  simpa only [List.mem_map, decide_eq_true_eq] using hiff

theorem ofList_concat (xs : List α) (x : α) :
    (ofList (xs ++ [x]) : Table nameOf) = ((ofList xs : Table nameOf).add x).2 :=
  List.foldl_concat ..

/-- **A table refuses an item exactly if its name has come up, and stays as it is then.** -/
theorem add_ofList (xs : List α) (x : α) : (ofList xs : Table nameOf).add x =
    if nameOf x ∈ xs.map nameOf then (false, ofList xs) else (true, ofList (xs ++ [x])) := by
  rw [ofList_concat]
  rcases (coherent_ofList xs).add_cases x with ⟨hold, hadd⟩ | ⟨hnew, hadd⟩
  · rw [if_pos (mem_names_ofList.1 hold), hadd]
  · rw [if_neg (mt mem_names_ofList.2 hnew), hadd]

end HornPlan.Table
