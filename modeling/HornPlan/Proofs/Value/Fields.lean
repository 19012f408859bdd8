/-
  HornPlan/Proofs/Value/Fields.lean
  =================================
  **What a field map holds, and in which order.**

  Setting a field changes what is found under its key, and nothing else (`get?_insert`).
  So a map that is laid over another one hides its fields, key by key (`get?_overlay`), and
  with the fields of a resource goes what is found in it (`Resource.get?_annotate`).

  A list of pairs stands for a map.  Of the lists that stand for one map a single one is
  sorted by key without repetitions, and that is the one that setting fields keeps to
  (`sorted_insert`).  So a list of pairs that is sorted is its own field map
  (`ofList_eq_self`).
-/
import HornPlan.Resource
import Mathlib.Data.List.Induction
import Mathlib.Data.String.Basic

namespace HornPlan

namespace Fields

variable {fs : Fields} {key : String} {v : Value}

/-! ### Looking fields up -/

theorem get?_cons (key k : String) (v : Value) (fs : Fields) :
    get? key ((k, v) :: fs) = if key = k then some v else fs.get? key := rfl

@[simp]
theorem get?_insert (key k : String) (v : Value) (fs : Fields) :
    (fs.insert k v).get? key = if key = k then some v else fs.get? key := by
  induction fs with
  | nil => rfl
  | cons entry rest ih =>
    obtain ⟨k', v'⟩ := entry
    unfold insert
    by_cases hk : k = k'
    · rw [if_pos hk]
      subst hk
      simp only [get?_cons]
      split <;> rfl
    · rw [if_neg hk]
      split
      · rfl
      · simp only [get?_cons, ih]
        by_cases hkey : key = k'
        · rw [if_pos hkey, if_pos hkey, if_neg fun h => hk (h.symm.trans hkey)]
        · rw [if_neg hkey, if_neg hkey]

/-- **Where a map that is laid over another one has a field, that is the one that is found.** -/
@[simp]
theorem get?_overlay (key : String) (lower upper : Fields) :
    (lower.overlay upper).get? key = (upper.get? key).or (lower.get? key) := by
  induction upper with
  | nil => rfl
  | cons entry rest ih =>
    obtain ⟨k, v⟩ := entry
    change ((lower.overlay rest).insert k v).get? key = _
    rw [get?_insert, ih, get?_cons]
    split <;> rfl

/-- Of two pairs with one key the later is found. -/
theorem get?_ofList (key : String) (es : List (String × Value)) :
    (ofList es).get? key = get? key es.reverse := by
  have hoverlay : ofList es = overlay [] es.reverse := List.foldl_eq_foldr_reverse ..
  rw [hoverlay, get?_overlay]
  exact Option.or_none

theorem contains_iff : fs.contains key = true ↔ key ∈ fs.map Prod.fst := by
  unfold contains
  induction fs with
  | nil => simp [get?]
  | cons entry rest ih =>
    obtain ⟨k, v⟩ := entry
    rw [get?_cons, List.map_cons, List.mem_cons, ← ih]
    by_cases h : key = k <;> simp [h]

theorem contains_ofList {es : List (String × Value)} :
    (ofList es).contains key = true ↔ key ∈ es.map Prod.fst := by
  have hreverse : key ∈ es.reverse.map Prod.fst ↔ key ∈ es.map Prod.fst := by simp
  rw [← hreverse, ← contains_iff, contains, contains, get?_ofList]

/-! ### The order of fields -/

def Sorted (fs : Fields) : Prop := fs.Pairwise fun e f => e.1 < f.1

theorem mem_insert {e : String × Value} (h : e ∈ insert key v fs) : e = (key, v) ∨ e ∈ fs := by
  induction fs with
  | nil => exact Or.inl (List.mem_singleton.1 h)
  | cons entry rest ih =>
    obtain ⟨k, w⟩ := entry
    unfold insert at h
    split at h
    · rcases List.mem_cons.1 h with h | h
      · exact Or.inl h
      · exact Or.inr (List.mem_cons_of_mem _ h)
    · split at h
      · exact List.mem_cons.1 h
      · rcases List.mem_cons.1 h with h | h
        · exact Or.inr (h ▸ List.mem_cons_self)
        · exact (ih h).imp_right (List.mem_cons_of_mem _)

/-- Setting a field keeps a field map sorted. -/
theorem sorted_insert (h : Sorted fs) : Sorted (insert key v fs) := by
  induction fs with
  | nil => exact List.pairwise_singleton _ _
  | cons entry rest ih =>
    obtain ⟨k, w⟩ := entry
    obtain ⟨hfirst, hrest⟩ := List.pairwise_cons.1 h
    unfold insert
    split
    · rename_i heq
      subst heq
      exact List.pairwise_cons.2 ⟨hfirst, hrest⟩
    · rename_i hne
      split
      · rename_i hlt
        refine List.pairwise_cons.2 ⟨fun e he => ?_, h⟩
        rcases List.mem_cons.1 he with rfl | he
        · exact hlt
        · exact hlt.trans (hfirst e he)
      · rename_i hlt
        refine List.pairwise_cons.2 ⟨fun e he => ?_, ih hrest⟩
        rcases mem_insert he with rfl | he
        · exact lt_of_le_of_ne (not_lt.1 hlt) (Ne.symm hne)
        · exact hfirst e he

/-- A field behind all others is set behind them. -/
theorem insert_eq_concat (h : ∀ e ∈ fs, e.1 < key) : insert key v fs = fs ++ [(key, v)] := by
  induction fs with
  | nil => rfl
  | cons entry rest ih =>
    obtain ⟨k, w⟩ := entry
    have hlt : k < key := h (k, w) List.mem_cons_self
    rw [insert, if_neg hlt.ne', if_neg hlt.not_gt, ih fun e he => h e (List.mem_cons_of_mem _ he)]
    rfl

theorem ofList_concat (es : List (String × Value)) (e : String × Value) :
    ofList (es ++ [e]) = (ofList es).insert e.1 e.2 := List.foldl_concat ..

theorem sorted_ofList (es : List (String × Value)) : Sorted (ofList es) := by
  induction es using List.reverseRecOn with
  | nil => exact List.Pairwise.nil
  | append_singleton es e ih =>
    rw [ofList_concat]
    exact sorted_insert ih

theorem mem_of_mem_ofList {es : List (String × Value)} {e : String × Value} (h : e ∈ ofList es) :
    e ∈ es := by
  induction es using List.reverseRecOn with
  | nil => exact h
  | append_singleton es f ih =>
    rw [ofList_concat] at h
    rcases mem_insert h with rfl | h
    · exact List.mem_append_right _ List.mem_cons_self
    · exact List.mem_append_left _ (ih h)

/-- **A sorted list of pairs is its own field map.** -/
theorem ofList_eq_self (h : Sorted fs) : ofList fs = fs := by
  induction fs using List.reverseRecOn with
  | nil => rfl
  | append_singleton fs e ih =>
    obtain ⟨hfs, -, hbefore⟩ := List.pairwise_append.1 h
    rw [ofList_concat, ih hfs]
    exact insert_eq_concat fun f hf => hbefore f hf e List.mem_cons_self

end Fields

/-! ### The fields of resources -/

namespace Resource

@[simp]
theorem type_annotate (r other : Resource) : (r.annotate other).type = r.type := rfl

/-- **The fields that a resource is annotated with come before its own.** -/
@[simp]
theorem get?_annotate (r other : Resource) (key : String) :
    (r.annotate other).get? key = (other.get? key).or (r.get? key) :=
  Fields.get?_overlay key r.fields other.fields

end Resource

end HornPlan
