/-
  HornPlan/Proofs/Node/Acceptance.lean
  ====================================
  **What a decoder can yield, whatever it is given.**

  A source may hold any nodes: aliases, tags, repeated keys, blanks, faults.  What comes
  of it is limited by the decoder (`Yields`).  The trees that are read without
  expectations are canonical and no deeper than there was room (`yields_value`), and in a
  map whose order counts no key comes twice (`yields_orderedMap`).
-/
import HornPlan.Proofs.Value.Canonical
import HornPlan.Query.Decoding

namespace HornPlan

namespace Decoder

variable {α β : Type} {src : Source} {P : α → Prop} {Q : β → Prop}

/-- Does all that a decoder can yield have a property? -/
def Yields (x : Decoder α) (P : α → Prop) : Prop :=
  ∀ followed a followed', x followed = .ok (a, followed') → P a

theorem Yields.trivial (x : Decoder α) : Yields x fun _ => True := fun _ _ _ _ => True.intro

theorem Yields.mono {P' : α → Prop} {x : Decoder α} (h : Yields x P) (hP : ∀ a, P a → P' a) :
    Yields x P' := fun _ _ _ hx => hP _ (h _ _ _ hx)

theorem Yields.pure {a : α} (h : P a) : Yields (Pure.pure a) P := by
  intro followed b followed' hb
  cases hb
  exact h

theorem Yields.refuse (f : Fault) : Yields (Decoder.refuse f) P := fun _ _ _ h => nomatch h

theorem Yields.bind {x : Decoder β} {f : β → Decoder α} (hx : Yields x Q)
    (hf : ∀ b, Q b → Yields (f b) P) : Yields (x >>= f) P := by
  intro followed a followed' h
  change (x followed >>= fun p => f p.1 p.2) = .ok (a, followed') at h
  rcases hb : x followed with e | ⟨b, between⟩
  · rw [hb] at h
    cases h
  · rw [hb] at h
    exact hf b (hx _ _ _ hb) _ _ _ h

/-- What comes after something that may be anything. -/
theorem Yields.after {x : Decoder β} {f : β → Decoder α} (hf : ∀ b, Yields (f b) P) :
    Yields (x >>= f) P :=
  (Yields.trivial x).bind fun b _ => hf b

theorem Yields.mapM {f : β → Decoder α} (h : ∀ b, Yields (f b) P) (bs : List β) :
    Yields (bs.mapM f) fun as => ∀ a ∈ as, P a := by
  induction bs with
  | nil => exact .pure (by simp)
  | cons b rest ih =>
    rw [List.mapM_cons]
    refine (h b).bind fun a ha => ih.bind fun as has => .pure ?_
    exact List.forall_mem_cons.2 ⟨ha, has⟩

/-! ### Collections -/

theorem yields_enter (room : Nat) : Yields (enter room) fun left => room = left + 1 := by
  cases room with
  | zero => exact .refuse _
  | succ room => exact .pure rfl

/-- What is read entry by entry comes from a mapping that there was room for, or from
    nothing. -/
theorem yields_entries {expected : String} {room : Nat} (n : Node) :
    Yields (entries src expected room n) fun es => es.2 = [] ∨ room = es.1 + 1 := by
  refine .after fun n => ?_
  cases n with
  | mapping _ es => exact (yields_enter room).bind fun left hleft => .pure (Or.inr hleft)
  | scalar s =>
    dsimp only
    split
    · exact .pure (Or.inl rfl)
    · exact .refuse _
  | sequence _ _ => exact .refuse _
  | link _ => exact .refuse _
  | fault => exact .refuse _

theorem yields_items {room : Nat} (n : Node) :
    Yields (items src room n) fun ns => ns.2 = [] ∨ room = ns.1 + 1 := by
  refine .after fun n => ?_
  cases n with
  | sequence _ ns => exact (yields_enter room).bind fun left hleft => .pure (Or.inr hleft)
  | scalar s =>
    dsimp only
    split
    · exact .pure (Or.inl rfl)
    · exact .refuse _
  | mapping _ _ => exact .refuse _
  | link _ => exact .refuse _
  | fault => exact .refuse _

/-- The items of a list are read with one unit of room less. -/
theorem yields_list {item : Nat → Node → Decoder α} {room : Nat}
    (h : ∀ left n, room = left + 1 → Yields (item left n) P) (n : Node) :
    Yields (list src item room n) fun as => ∀ a ∈ as, P a := by
  refine (yields_items n).bind fun ns hns => ?_
  obtain ⟨left, ns⟩ := ns
  rcases hns with rfl | hroom
  · exact .pure (by simp)
  · exact .mapM (fun n => h left n hroom) ns

/-! ### Value trees -/

theorem yields_pairs {f : Node → Decoder α} (h : ∀ n, Yields (f n) P) (es : List (Node × Node)) :
    ∀ keyName, Yields (pairs src f keyName es) fun as => ∀ a ∈ as, P a.2 := by
  induction es with
  | nil => exact fun _ => .pure (by simp)
  | cons e rest ih =>
    intro keyName
    refine .after fun key => (h e.2).bind fun a ha => (ih _).bind fun as has => .pure ?_
    exact List.forall_mem_cons.2 ⟨ha, has⟩

theorem yields_scalarValue (s : Scalar) :
    Yields (scalarValue src s) fun v => v.Canonical ∧ v.depth = 0 := by
  unfold scalarValue
  split
  · exact .refuse _
  · split
    · exact .pure ⟨.null, rfl⟩
    · exact .pure ⟨.null, rfl⟩
    · exact .pure ⟨.bool _, rfl⟩
    · exact .pure ⟨.number _, rfl⟩
    · exact .pure ⟨.number _, rfl⟩
    · exact .pure ⟨.text _, rfl⟩
    all_goals exact .refuse _

theorem canonical_ofList {es : List (String × Value)} {room : Nat}
    (h : ∀ e ∈ es, e.2.Canonical ∧ e.2.depth ≤ room) :
    (Value.map (Fields.ofList es)).Canonical ∧ (Value.map (Fields.ofList es)).depth ≤ room + 1 :=
  ⟨.map (Fields.sorted_ofList es) fun e he => (h e (Fields.mem_of_mem_ofList he)).1,
    Value.depth_map_le.2 fun e he => (h e (Fields.mem_of_mem_ofList he)).2⟩

/-- **Trees that are read without expectations are canonical**, and there was room for
    them. -/
theorem yields_value (room : Nat) : ∀ n,
    Yields (value src room n) fun v => v.Canonical ∧ v.depth ≤ room := by
  induction room with
  | zero =>
    intro n
    rw [value]
    refine .after fun n => ?_
    cases n with
    | scalar s => exact (yields_scalarValue s).mono fun v hv => ⟨hv.1, hv.2.le⟩
    | sequence tagged ns => cases tagged <;> exact .refuse _
    | mapping tagged es => cases tagged <;> exact .refuse _
    | link _ => exact .refuse _
    | fault => exact .refuse _
  | succ room ih =>
    intro n
    rw [value]
    refine .after fun n => ?_
    cases n with
    | scalar s => exact (yields_scalarValue s).mono fun v hv => ⟨hv.1, by omega⟩
    | sequence tagged ns =>
      cases tagged with
      | true => exact .refuse _
      | false =>
        refine (Yields.mapM ih ns).bind fun vs hvs => .pure ⟨?_, ?_⟩
        · exact .list fun v hv => (hvs v hv).1
        · exact Value.depth_list_le.2 fun v hv => (hvs v hv).2
    | mapping tagged es =>
      cases tagged with
      | true => exact .refuse _
      | false => exact (yields_pairs ih es _).bind fun vs hvs => .pure (canonical_ofList hvs)
    | link _ => exact .refuse _
    | fault => exact .refuse _

/-- **Field maps that are read are canonical.** -/
theorem yields_fields {room : Nat} (n : Node) : Yields (fields src room n) fun fs =>
    (Value.map fs).Canonical ∧ (Value.map fs).depth ≤ max 1 room := by
  refine (yields_entries n).bind fun es hes => ?_
  obtain ⟨left, es⟩ := es
  rcases hes with rfl | rfl
  · exact .pure ⟨.map .nil (by simp [Fields.ofList]), le_max_left 1 room⟩
  · refine (yields_pairs (yields_value left) es _).bind fun vs hvs => .pure ?_
    obtain ⟨hcanonical, hdepth⟩ := canonical_ofList hvs
    exact ⟨hcanonical, hdepth.trans (le_max_right 1 (left + 1))⟩

theorem yields_optional {part : Node → Decoder α} (h : ∀ n, Yields (part n) P) (n : Node) :
    Yields (optional src part n) fun o => ∀ a, o = some a → P a := by
  have hsome : ∀ n, Yields (some <$> part n) fun o => ∀ a, o = some a → P a := by
    intro n
    rw [map_eq_pure_bind]
    refine (h n).bind fun a ha => .pure ?_
    rintro _ ⟨⟩
    exact ha
  refine .after fun n => ?_
  cases n with
  | scalar s =>
    dsimp only
    split
    · exact .pure (by simp)
    · split
      · exact .refuse _
      · exact hsome _
  | sequence _ _ => exact hsome _
  | mapping _ _ => exact hsome _
  | link _ => exact hsome _
  | fault => exact hsome _

/-! ### Records -/

/-- What the fields of a record preserve holds of what is read of them. -/
theorem yields_recordEntries {σ : Type} {known : List String} {I : σ → Prop}
    {field : String → Node → σ → Decoder σ} (h : ∀ name n acc, I acc → Yields (field name n acc) I)
    (es : List (Node × Node)) : ∀ seen acc, I acc →
      Yields (recordEntries src known field es seen acc) I := by
  induction es with
  | nil => exact fun _ _ hacc => .pure hacc
  | cons e rest ih =>
    intro seen acc hacc
    rw [recordEntries]
    refine .after fun name => ?_
    split
    · split
      · exact .refuse _
      · exact (h _ _ _ hacc).bind fun acc hacc => ih _ _ hacc
    · exact .after fun _ => ih _ _ hacc

theorem yields_recordItems {σ : Type} {I : σ → Prop} {field : String → Node → σ → Decoder σ}
    (h : ∀ name n acc, I acc → Yields (field name n acc) I) (ns : List Node) : ∀ known acc, I acc →
      Yields (recordItems field known ns acc) I := by
  induction ns with
  | nil =>
    intro known acc hacc
    rw [recordItems]
    exact .pure hacc
  | cons n rest ih =>
    intro known acc hacc
    cases known with
    | nil => exact .refuse _
    | cons name known =>
      rw [recordItems]
      exact (h _ _ _ hacc).bind fun acc hacc => ih _ _ hacc

/-- **What holds at first and is preserved by every field holds at the end.**  The fields
    are read with one unit of room less. -/
theorem yields_record {σ : Type} {expected : String} {known : List String} {I : σ → Prop}
    {field : Nat → String → Node → σ → Decoder σ} {acc : σ} {finish : σ → Except Fault α}
    {room : Nat} (hacc : I acc)
    (hfield : ∀ left name n acc, room = left + 1 → I acc → Yields (field left name n acc) I)
    (hfinish : ∀ acc a, I acc → finish acc = .ok a → P a) (n : Node) :
    Yields (record src expected known field acc finish room n) P := by
  refine .after fun n => ?_
  cases n with
  | mapping _ es =>
    refine (yields_enter room).bind fun left hleft => ?_
    refine (yields_recordEntries (hfield left · · · hleft) es [] acc hacc).bind fun acc hacc => ?_
    rcases hend : finish acc with f | a
    · exact .refuse f
    · exact .pure (hfinish acc a hacc hend)
  | sequence _ ns =>
    dsimp only
    split
    · refine (yields_enter room).bind fun left hleft => ?_
      refine (yields_recordItems (hfield left · · · hleft) ns known acc hacc).bind
        fun acc hacc => ?_
      rcases hend : finish acc with f | a
      · exact .refuse _
      · exact .pure (hfinish acc a hacc hend)
    · exact .refuse _
  | scalar s =>
    dsimp only
    split
    · rcases hend : finish acc with f | a
      · exact .refuse f
      · exact .pure (hfinish acc a hacc hend)
    · exact .refuse _
  | link _ => exact .refuse _
  | fault => exact .refuse _

end Decoder

/-! ### Entries and maps whose order counts -/

open Decoder

variable {α : Type} {src : Source} {P : α → Prop}

theorem Entry.yields_decode {spec : Nat → Node → Decoder α} {room : Nat}
    (h : ∀ left n, room = left + 1 → Yields (spec left n) P) (n : Node) :
    Yields (Entry.decode src spec room n) fun e => P e.spec := by
  refine (yields_entries n).bind fun es hes => ?_
  obtain ⟨left, _ | ⟨⟨k, v⟩, rest⟩⟩ := es
  · exact .refuse _
  · -- there are entries, so the mapping has been entered
    have hroom := hes.resolve_left (List.cons_ne_nil _ _)
    refine .after fun type => (h left v hroom).bind fun spec hspec => ?_
    cases rest with
    | nil => exact .pure hspec
    | cons e rest => exact .after fun _ => .refuse _

/-- The specs in a list of entries are read with two units of room less. -/
theorem yields_entryList {spec : Nat → Node → Decoder α} {room : Nat}
    (h : ∀ left n, room = left + 2 → Yields (spec left n) P) (n : Node) :
    Yields (Decoder.list src (Entry.decode src spec) room n) fun es => ∀ e ∈ es, P e.spec := by
  refine yields_list (fun left n hleft => ?_) n
  exact Entry.yields_decode (fun left' n hleft' => h left' n (by omega)) n

theorem yields_distinctPairs {f : Node → Decoder α} (h : ∀ n, Yields (f n) P)
    (es : List (Node × Node)) : ∀ seen, Yields (distinctPairs src f es seen) fun as =>
      (as.map Prod.fst).Nodup ∧ (∀ a ∈ as, a.1 ∉ seen) ∧ ∀ a ∈ as, P a.2 := by
  induction es with
  | nil => exact fun _ => .pure (by simp)
  | cons e rest ih =>
    intro seen
    refine .after fun key => (h e.2).bind fun a ha => ?_
    split
    · exact .refuse _
    · rename_i hnew
      refine (ih _).bind fun as has => .pure ⟨?_, ?_, ?_⟩
      · refine List.nodup_cons.2 ⟨fun hmem => ?_, has.1⟩
        obtain ⟨b, hb, hkey⟩ := List.mem_map.1 hmem
        exact has.2.1 b hb (by simp [hkey])
      · refine List.forall_mem_cons.2 ⟨hnew, fun b hb hmem => ?_⟩
        exact has.2.1 b hb (List.mem_append_left _ hmem)
      · exact List.forall_mem_cons.2 ⟨ha, has.2.2⟩

/-- **No key comes twice in a map whose order counts.** -/
theorem yields_orderedMap {value : Nat → Node → Decoder α} {room : Nat}
    (h : ∀ left n, Yields (value left n) P) (n : Node) :
    Yields (orderedMap src value room n) fun as =>
      (as.map Prod.fst).Nodup ∧ ∀ a ∈ as, P a.2 := by
  refine .after fun n => ?_
  cases n with
  | mapping tagged es =>
    dsimp only
    split
    · exact .refuse _
    · exact .after fun left =>
        (yields_distinctPairs (h left) es []).mono fun as has => ⟨has.1, has.2.2⟩
  | sequence tagged ns =>
    dsimp only
    split <;> exact .refuse _
  | scalar s =>
    dsimp only
    split
    · exact .refuse _
    · split
      · exact .pure (by simp)
      · exact .refuse _
  | link _ => exact .refuse _
  | fault => exact .refuse _

end HornPlan
