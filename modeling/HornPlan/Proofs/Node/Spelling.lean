/-
  HornPlan/Proofs/Node/Spelling.lean
  ==================================
  **What a node spells is read back.**

  A node `spells` a value tree if it has the shape of the tree, entry by entry, without
  aliases or tags, and gives each scalar to whoever may ask for it.  How a format writes a
  scalar makes no difference: a number that would also pass for a text is still that
  number.

  A decoder `Reads` a tree as a value if it yields the value from every node that spells
  the tree, wherever there is room for it.  Each of the decoders that typed readings are
  made of has one lemma, about the tree that an encoder makes of a list, a map or a record.
  A tree without expectations is read as itself if it is canonical (`reads_value`), since
  the reader puts maps in field order.
-/
import HornPlan.Proofs.Value.Canonical
import HornPlan.Query.Decoding
import HornPlan.Query.Encoding
import Mathlib.Data.List.Forall2

namespace HornPlan

/-! ### Spellings -/

/-- Is a scalar a value, also to a reader that asks for a text or for a natural number? -/
def Scalar.spells (s : Scalar) (v : Value) : Bool :=
  !s.tagged &&
    match s.reading, v with
    | .null, .null => true
    | .bool b, .bool c => b = c
    | .int n, .number (.int m) => n = m && (n < 0 || s.asInteger = some n)
    | .real x, .number (.real y) => x = y
    | .text t, .text u => t = u && s.asText = some t
    | _, _ => false

namespace Scalar

variable {s : Scalar}

theorem spells_null : s.spells .null ↔ s.tagged = false ∧ s.reading = .null := by
  cases h : s.reading <;> simp [spells, h]

theorem spells_bool {b : Bool} :
    s.spells (.bool b) ↔ s.tagged = false ∧ s.reading = .bool b := by
  cases h : s.reading <;> simp [spells, h]

theorem spells_int {n : Int} : s.spells (.number (.int n)) ↔
    s.tagged = false ∧ s.reading = .int n ∧ (n < 0 ∨ s.asInteger = some n) := by
  cases h : s.reading <;> simp [spells, h]
  grind

theorem spells_real {x : Binary} :
    s.spells (.number (.real x)) ↔ s.tagged = false ∧ s.reading = .real x := by
  cases h : s.reading <;> simp [spells, h]

theorem spells_text {t : String} : s.spells (.text t) ↔
    s.tagged = false ∧ s.reading = .text t ∧ s.asText = some t := by
  cases h : s.reading <;> simp [spells, h]
  grind

end Scalar

namespace Node

mutual

/-- Does a node stand for a value tree, entry by entry? -/
def spells : Node → Value → Bool
  | .scalar s, v => s.spells v
  | .sequence tagged ns, .list vs => !tagged && spellsItems ns vs
  | .mapping tagged es, .map fs => !tagged && spellsEntries es fs
  | _, _ => false

def spellsItems : List Node → List Value → Bool
  | [], [] => true
  | n :: ns, v :: vs => n.spells v && spellsItems ns vs
  | _, _ => false

def spellsEntries : List (Node × Node) → List (String × Value) → Bool
  | [], [] => true
  | (k, n) :: es, (key, v) :: fs => k.spells (.text key) && n.spells v && spellsEntries es fs
  | _, _ => false

end

theorem spells_ofText (t : String) : (ofText t).spells (.text t) := by
  simp [ofText, spells, Scalar.spells_text, Scalar.ofReading]

mutual

/-- Every value tree is spelled. -/
theorem spells_ofValue : ∀ v, (ofValue v).spells v
  | .null => rfl
  | .bool b => by simp [ofValue, spells, Scalar.spells_bool, Scalar.ofReading]
  | .number (.int n) => by simp [ofValue, spells, Scalar.spells_int, Scalar.ofReading]
  | .number (.real x) => by simp [ofValue, spells, Scalar.spells_real, Scalar.ofReading]
  | .text t => spells_ofText t
  | .list vs => spellsItems_ofItems vs
  | .map fs => spellsEntries_ofEntries fs

theorem spellsItems_ofItems : ∀ vs, spellsItems (ofItems vs) vs
  | [] => rfl
  | v :: vs => by simp [ofItems, spellsItems, spells_ofValue v, spellsItems_ofItems vs]

theorem spellsEntries_ofEntries : ∀ fs, spellsEntries (ofEntries fs) fs
  | [] => rfl
  | (key, v) :: fs => by
    simp [ofEntries, spellsEntries, spells_ofText, spells_ofValue v, spellsEntries_ofEntries fs]

end

/-- An entry of a mapping, and what it stands for. -/
def SpellsPair (e : Node × Node) (f : String × Value) : Prop :=
  e.1.spells (.text f.1) ∧ e.2.spells f.2

variable {n : Node}

theorem forall₂_of_spellsItems {ns : List Node} {vs : List Value} (h : spellsItems ns vs) :
    List.Forall₂ (fun n v => n.spells v) ns vs := by
  induction ns generalizing vs with
  | nil =>
    cases vs with
    | nil => exact .nil
    | cons v vs => simp [spellsItems] at h
  | cons n ns ih =>
    cases vs with
    | nil => simp [spellsItems] at h
    | cons v vs =>
      rw [spellsItems, Bool.and_eq_true] at h
      exact .cons h.1 (ih h.2)

theorem forall₂_of_spellsEntries {es : List (Node × Node)} {fs : List (String × Value)}
    (h : spellsEntries es fs) : List.Forall₂ SpellsPair es fs := by
  induction es generalizing fs with
  | nil =>
    cases fs with
    | nil => exact .nil
    | cons f fs => simp [spellsEntries] at h
  | cons e es ih =>
    cases fs with
    | nil => simp [spellsEntries] at h
    | cons f fs =>
      rw [spellsEntries, Bool.and_eq_true, Bool.and_eq_true] at h
      exact .cons h.1 (ih h.2)

theorem exists_sequence_of_spells {vs : List Value} (h : n.spells (.list vs)) :
    ∃ ns, n = .sequence false ns ∧ List.Forall₂ (fun n v => n.spells v) ns vs := by
  cases n with
  | sequence tagged ns =>
    simp only [spells, Bool.and_eq_true, Bool.not_eq_true'] at h
    exact ⟨ns, by rw [h.1], forall₂_of_spellsItems h.2⟩
  | scalar s => simp [spells, Scalar.spells] at h
  | mapping _ _ => simp [spells] at h
  | link _ => simp [spells] at h
  | fault => simp [spells] at h

theorem exists_mapping_of_spells {fs : List (String × Value)} (h : n.spells (.map fs)) :
    ∃ es, n = .mapping false es ∧ List.Forall₂ SpellsPair es fs := by
  cases n with
  | mapping tagged es =>
    simp only [spells, Bool.and_eq_true, Bool.not_eq_true'] at h
    exact ⟨es, by rw [h.1], forall₂_of_spellsEntries h.2⟩
  | scalar s => simp [spells, Scalar.spells] at h
  | sequence _ _ => simp [spells] at h
  | link _ => simp [spells] at h
  | fault => simp [spells] at h

theorem exists_scalar_of_spells {v : Value} (hlist : ∀ vs, v ≠ .list vs) (hmap : ∀ fs, v ≠ .map fs)
    (h : n.spells v) : ∃ s, n = .scalar s ∧ s.spells v := by
  cases n with
  | scalar s => exact ⟨s, rfl, h⟩
  | sequence _ _ => cases v <;> simp_all [spells]
  | mapping _ _ => cases v <;> simp_all [spells]
  | link _ => simp [spells] at h
  | fault => simp [spells] at h

end Node

namespace Decoder

variable {α β : Type} {src : Source} {n : Node}

/-- Is a tree read as a value wherever there is room for it? -/
def Reads (decode : Nat → Node → Decoder α) (a : α) (v : Value) : Prop :=
  ∀ ⦃room n⦄, n.spells v → v.depth ≤ room → decode room n = pure a

/-! ### Single nodes -/

theorem follow_of_spells {v : Value} (h : n.spells v) : follow src n = pure n := by
  cases n with
  | link _ => simp [Node.spells] at h
  | scalar _ => rfl
  | sequence _ _ => rfl
  | mapping _ _ => rfl
  | fault => rfl

theorem text_of_spells {expected t : String} (h : n.spells (.text t)) :
    text src expected n = pure t := by
  obtain ⟨s, rfl, hs⟩ := Node.exists_scalar_of_spells (by simp) (by simp) h
  rw [text, follow_of_spells h, pure_bind]
  simp [(Scalar.spells_text.1 hs).2.2]

theorem uint32_of_spells {id : UInt32} (h : n.spells (idValue id)) : uint32 src n = pure id := by
  obtain ⟨s, rfl, hs⟩ := Node.exists_scalar_of_spells (by simp [idValue, Value.ofNat])
    (by simp [idValue, Value.ofNat]) h
  have hinteger : s.asInteger = some (id.toNat : Int) :=
    (Scalar.spells_int.1 hs).2.2.resolve_left (by simp)
  have hlt : (id.toNat : Int) < (twoTo 32 : Int) := Int.ofNat_lt.2 id.toNat_lt
  rw [uint32, follow_of_spells h, pure_bind]
  simp [hinteger, hlt]

theorem scalarValue_of_spells {s : Scalar} {v : Value} (h : s.spells v) :
    scalarValue src s = pure v := by
  unfold scalarValue
  cases v with
  | null => simp [Scalar.spells_null.1 h]
  | bool b => simp [Scalar.spells_bool.1 h]
  | number n =>
    cases n with
    | int n =>
      obtain ⟨htagged, hreading, _⟩ := Scalar.spells_int.1 h
      simp [htagged, hreading]
    | real x => simp [Scalar.spells_real.1 h]
  | text t =>
    obtain ⟨htagged, hreading, _⟩ := Scalar.spells_text.1 h
    simp [htagged, hreading]
  | list vs => simp [Scalar.spells] at h
  | map fs => simp [Scalar.spells] at h

/-! ### Collections -/

/-- A list is read inside its brackets. -/
theorem Reads.ofList {decode : Nat → Node → Decoder α} {a : α} {vs : List Value}
    (h : ∀ {room : Nat} {ns : List Node}, List.Forall₂ (fun n v => n.spells v) ns vs →
      (∀ v ∈ vs, v.depth ≤ room) → decode (room + 1) (.sequence false ns) = pure a) :
    Reads decode a (.list vs) := by
  intro room n hn hroom
  obtain _ | room := room
  · exact absurd hroom (by simp [Value.depth])
  · obtain ⟨ns, rfl, hns⟩ := Node.exists_sequence_of_spells hn
    exact h hns (Value.depth_list_le.1 hroom)

/-- A map is read inside its braces. -/
theorem Reads.ofMap {decode : Nat → Node → Decoder α} {a : α} {fs : List (String × Value)}
    (h : ∀ {room : Nat} {es : List (Node × Node)}, List.Forall₂ Node.SpellsPair es fs →
      (∀ f ∈ fs, f.2.depth ≤ room) → decode (room + 1) (.mapping false es) = pure a) :
    Reads decode a (.map fs) := by
  intro room n hn hroom
  obtain _ | room := room
  · exact absurd hroom (by simp [Value.depth])
  · obtain ⟨es, rfl, hes⟩ := Node.exists_mapping_of_spells hn
    exact h hes (Value.depth_map_le.1 hroom)

theorem mapM_of_spells {f : Node → Decoder α} {encode : α → Value} {ns : List Node} {as : List α}
    (hns : List.Forall₂ (fun n a => n.spells (encode a)) ns as)
    (h : ∀ a ∈ as, ∀ n : Node, n.spells (encode a) → f n = pure a) : ns.mapM f = pure as := by
  induction hns with
  | nil => rfl
  | cons hn _ ih =>
    obtain ⟨ha, has⟩ := List.forall_mem_cons.1 h
    rw [List.mapM_cons, ha _ hn, pure_bind, ih has, pure_bind]

theorem Reads.list {item : Nat → Node → Decoder α} {as : List α} {encode : α → Value}
    (h : ∀ a ∈ as, Reads item a (encode a)) :
    Reads (Decoder.list src item) as (.list (as.map encode)) := by
  refine .ofList fun {room ns} hns hroom => ?_
  rw [List.forall₂_map_right_iff] at hns
  change ns.mapM (item room) = pure as
  exact mapM_of_spells hns fun a ha n hn => h a ha hn (hroom _ (List.mem_map_of_mem ha))

/-! ### Value trees -/

theorem pairs_of_spells {f : Node → Decoder Value} {es : List (Node × Node)} {fs : Fields}
    (hes : List.Forall₂ Node.SpellsPair es fs)
    (h : ∀ e ∈ fs, ∀ n : Node, n.spells e.2 → f n = pure e.2) :
    ∀ keyName, pairs src f keyName es = pure fs := by
  induction hes with
  | nil => exact fun _ => rfl
  | cons he _ ih =>
    intro keyName
    obtain ⟨hv, hrest⟩ := List.forall_mem_cons.1 h
    rw [pairs, text_of_spells he.1, pure_bind, hv _ he.2, pure_bind, ih hrest, pure_bind]

theorem reads_scalar {v : Value} (hlist : ∀ vs, v ≠ .list vs) (hmap : ∀ fs, v ≠ .map fs) :
    Reads (value src) v v := by
  intro room n hn _
  obtain ⟨s, rfl, hs⟩ := Node.exists_scalar_of_spells hlist hmap hn
  rw [value, follow_of_spells hn]
  exact scalarValue_of_spells hs

/-- **A canonical tree is read as itself.** -/
theorem reads_value {v : Value} (h : v.Canonical) : Reads (value src) v v := by
  induction h with
  | null => exact reads_scalar (by simp) (by simp)
  | bool b => exact reads_scalar (by simp) (by simp)
  | number n => exact reads_scalar (by simp) (by simp)
  | text t => exact reads_scalar (by simp) (by simp)
  | @list vs _ ih =>
    refine .ofList fun {room ns} hns hroom => ?_
    have hitems : ns.mapM (value src room) = pure vs :=
      mapM_of_spells hns fun v hv n hn => ih v hv hn (hroom v hv)
    simp [value, follow, hitems]
  | @map fs hsorted _ ih =>
    refine .ofMap fun {room es} hes hroom => ?_
    have hentries : ∀ keyName, pairs src (value src room) keyName es = pure fs :=
      pairs_of_spells hes fun e he n hn => ih e he hn (hroom e he)
    simp [value, follow, hentries, Fields.ofList_eq_self hsorted]

theorem reads_fields {fs : Fields} (h : (Value.map fs).Canonical) :
    Reads (fields src) fs (.map fs) := by
  cases h with
  | map hsorted hcanonical =>
    refine .ofMap fun {room es} hes hroom => ?_
    have hentries : ∀ keyName, pairs src (value src room) keyName es = pure fs :=
      pairs_of_spells hes fun e he n hn => reads_value (hcanonical e he) hn (hroom e he)
    simp [fields, entries, follow, enter, hentries, Fields.ofList_eq_self hsorted]

/-- A map is not taken for the absence of an optional part. -/
theorem Reads.optional {part : Nat → Node → Decoder α} {a : α} {fs : List (String × Value)}
    (h : Reads part a (.map fs)) :
    Reads (fun room => Decoder.optional src (part room)) (some a) (.map fs) := by
  intro room n hn hroom
  have hpart := h hn hroom
  obtain ⟨es, rfl, _⟩ := Node.exists_mapping_of_spells hn
  simp [Decoder.optional, follow, hpart]

/-! ### Records -/

/-- Different fields are read one after the other, `fill` saying what becomes of each. -/
theorem recordEntries_of_spells {σ : Type} {known : List String}
    {field : String → Node → σ → Decoder σ} {fill : String → σ → σ}
    {es : List (Node × Node)} {fs : List (String × Value)}
    (hes : List.Forall₂ Node.SpellsPair es fs) (hnodup : (fs.map Prod.fst).Nodup)
    (hfield : ∀ f ∈ fs, f.1 ∈ known ∧
      ∀ (n : Node) acc, n.spells f.2 → field f.1 n acc = pure (fill f.1 acc)) :
    ∀ seen acc, (∀ f ∈ fs, f.1 ∉ seen) →
      recordEntries src known field es seen acc =
        pure (fs.foldl (fun acc f => fill f.1 acc) acc) := by
  induction hes with
  | nil => exact fun _ _ _ => rfl
  | @cons e f es fs he _ ih =>
    intro seen acc hseen
    obtain ⟨⟨hknown, hf⟩, hrest⟩ := List.forall_mem_cons.1 hfield
    obtain ⟨hnew, hseen⟩ := List.forall_mem_cons.1 hseen
    obtain ⟨hother, hnodup⟩ := List.nodup_cons.1 hnodup
    rw [recordEntries, text_of_spells he.1, pure_bind, if_pos hknown, if_neg hnew,
      hf _ _ he.2, pure_bind, ih hnodup hrest, List.foldl_cons]
    -- the fields to come are none of those seen, and not this one either
    intro f' hf' hmem
    rcases List.mem_cons.1 hmem with heq | hmem
    · exact hother (heq ▸ List.mem_map_of_mem hf')
    · exact hseen f' hf' hmem

/-- **A record is read if all its fields are.** -/
theorem Reads.record {σ : Type} {expected : String} {known : List String}
    {field : Nat → String → Node → σ → Decoder σ} {acc : σ} {finish : σ → Except Fault α}
    {fs : List (String × Value)} {a : α} (fill : String → σ → σ) (hnodup : (fs.map Prod.fst).Nodup)
    (hfield : ∀ f ∈ fs, f.1 ∈ known ∧
      ∀ acc, Reads (fun room n => field room f.1 n acc) (fill f.1 acc) f.2)
    (hfinish : finish (fs.foldl (fun acc f => fill f.1 acc) acc) = .ok a) :
    Reads (Decoder.record src expected known field acc finish) a (.map fs) := by
  refine .ofMap fun {room es} hes hroom => ?_
  have hread : recordEntries src known (field room) es [] acc = _ :=
    recordEntries_of_spells hes hnodup
      (fun f hf => ⟨(hfield f hf).1, fun n acc hn => (hfield f hf).2 acc hn (hroom f hf)⟩)
      [] acc (by simp)
  simp [Decoder.record, follow, enter, hread, hfinish]

end Decoder

/-! ### Entries and maps whose order counts -/

open Decoder

variable {α : Type} {src : Source}

theorem Entry.reads_decode {spec : Nat → Node → Decoder α} {encode : α → Value} {e : Entry α}
    (h : Reads spec e.spec (encode e.spec)) :
    Reads (Entry.decode src spec) e (e.toValue encode) := by
  refine .ofMap fun {room es} hes hroom => ?_
  cases hes with
  | cons hfirst hrest =>
    cases hrest
    have hspec := h hfirst.2 (hroom _ List.mem_cons_self)
    simp [Entry.decode, entries, follow, enter, text_of_spells hfirst.1, hspec]

theorem reads_entries {spec : Nat → Node → Decoder α} {encode : α → Value} {es : List (Entry α)}
    (h : ∀ e ∈ es, Reads spec e.spec (encode e.spec)) :
    Reads (Decoder.list src (Entry.decode src spec)) es
      (.list (es.map (Entry.toValue encode))) :=
  .list fun e he => Entry.reads_decode (h e he)

theorem distinctPairs_of_spells {f : Node → Decoder α} {encode : α → Value}
    {es : List (Node × Node)} {as : List (String × α)}
    (hes : List.Forall₂ (fun e a => Node.SpellsPair e (a.1, encode a.2)) es as)
    (h : ∀ a ∈ as, ∀ n : Node, n.spells (encode a.2) → f n = pure a.2) : ∀ seen,
      (seen ++ as.map Prod.fst).Nodup → distinctPairs src f es seen = pure as := by
  induction hes with
  | nil => exact fun _ _ => rfl
  | @cons e a es as he _ ih =>
    intro seen hnodup
    obtain ⟨ha, has⟩ := List.forall_mem_cons.1 h
    -- the keys so far and those to come are all different
    have hnew : a.1 ∉ seen := fun hmem =>
      (List.nodup_append.1 hnodup).2.2 a.1 hmem a.1 List.mem_cons_self rfl
    have hrest : (seen ++ [a.1] ++ as.map Prod.fst).Nodup := by
      rwa [List.append_assoc]
    rw [distinctPairs, text_of_spells he.1, pure_bind, ha _ he.2, pure_bind, if_neg hnew,
      ih has _ hrest, pure_bind]

theorem reads_orderedMap {value : Nat → Node → Decoder α} {encode : α → Value}
    {as : List (String × α)} (hnodup : (as.map Prod.fst).Nodup)
    (h : ∀ a ∈ as, Reads value a.2 (encode a.2)) :
    Reads (orderedMap src value) as (.map (as.map fun a => (a.1, encode a.2))) := by
  refine .ofMap fun {room es} hes hroom => ?_
  rw [List.forall₂_map_right_iff] at hes
  change distinctPairs src (value room) es [] = pure as
  exact distinctPairs_of_spells hes
    (fun a ha n hn => h a ha hn (hroom _ (List.mem_map_of_mem ha))) [] hnodup

end HornPlan
