/-
  HornPlan/Proofs/Query/RoundTrip.lean
  ====================================
  **A document that is written is read back.**

  Each part of a document has a reader and an encoder, and the reader makes of a node that
  spells the encoded part that part again, if no descriptor of a resource and no role of a
  descriptor comes twice (`Query.reads_decode`).  What a reader yields, from whatever
  source, has this form (`Query.yields_decode`).  So a document that has been read once is
  not changed by writing and reading it again (`Query.ofSource_toValue`).

  The texts that carry the trees may nest only so deep.  The parts of a document are nine
  collections deep at most; only arguments may be deeper, and those that were read fitted
  into the room that there was.  Arguments are field maps, which are sorted whichever way
  they are built (`Fields.sorted_ofList`); `Query.Canonical` says so of all maps in them.

  Specification, section E.10: documents are read as they are written.
-/
import HornPlan.Proofs.Node.Acceptance
import HornPlan.Proofs.Node.Spelling
import HornPlan.Json.Reader
import HornPlan.Json.Text
import HornPlan.Yaml.Reader

namespace HornPlan

open Decoder

variable {src : Source} {room : Nat}

/-! ### The form of a document -/

/-- Are the descriptors of a resource named differently, and the roles in each? -/
structure ResourceSpec.Distinct (s : ResourceSpec) : Prop where
  names : (s.descriptors.map Prod.fst).Nodup
  roles : ∀ d ∈ s.descriptors, (d.2.params.map Prod.fst).Nodup

/-- Are the arguments, if there are any, field maps throughout? -/
def InputSpec.Canonical (s : InputSpec) : Prop :=
  ∀ args, s.args = some args → (Value.map args).Canonical

namespace Query

def Distinct (q : Query) : Prop := ∀ e ∈ q.resources, e.spec.Distinct

def Canonical (q : Query) : Prop := ∀ e ∈ q.input, e.spec.Canonical

end Query

/-! ### Reading what was written -/

theorem Reference.reads_decode (r : Reference) :
    Reads (Reference.decode src) r r.toValue := by
  refine .record (fun _ _ => some r.id) (by simp) ?_ rfl
  refine List.forall_mem_singleton.2 ⟨by simp, fun acc room n hn _ => ?_⟩
  simp [uint32_of_spells hn]

theorem InputSpec.reads_decode {s : InputSpec} (h : s.Canonical) :
    Reads (InputSpec.decode src) s s.toValue := by
  obtain ⟨id, args⟩ := s
  refine .record
    (fun name acc => if name = "id" then (some id, acc.2) else (acc.1, args)) ?_ ?_ ?_
  · cases args <;> simp
  · refine List.forall_mem_cons.2 ⟨⟨by simp, fun acc room n hn _ => ?_⟩, ?_⟩
    · simp [uint32_of_spells hn]
    · cases args with
      | none => simp
      | some args =>
        refine List.forall_mem_singleton.2 ⟨by simp, fun acc room n hn hroom => ?_⟩
        simp [(reads_fields (h args rfl)).optional hn hroom]
  · cases args <;> simp [required]

theorem DescriptorSpec.reads_decode {s : DescriptorSpec} (h : (s.params.map Prod.fst).Nodup) :
    Reads (DescriptorSpec.decode src) s s.toValue := by
  refine .record (fun _ _ => s.params) (by simp) ?_ rfl
  refine List.forall_mem_singleton.2 ⟨by simp, fun acc => ?_⟩
  exact reads_orderedMap h fun p _ => Entry.reads_decode p.2.spec.reads_decode

theorem ResourceSpec.reads_decode {s : ResourceSpec} (h : s.Distinct) :
    Reads (ResourceSpec.decode src) s s.toValue := by
  have hdescriptors : Reads (orderedMap src (DescriptorSpec.decode src)) s.descriptors _ :=
    reads_orderedMap h.names fun d hd => DescriptorSpec.reads_decode (h.roles d hd)
  have hdependencies : Reads (Decoder.list src (Entry.decode src (Reference.decode src)))
      s.dependencies _ := reads_entries fun e _ => e.spec.reads_decode
  obtain ⟨id, descriptors, dependencies⟩ := s
  refine .record (fun name acc => if name = "id" then (some id, acc.2)
    else if name = "descriptors" then (acc.1, descriptors, acc.2.2)
    else (acc.1, acc.2.1, dependencies)) ?_ ?_ ?_
  · cases descriptors <;> cases dependencies <;> simp
  · refine List.forall_mem_cons.2 ⟨⟨by simp, fun acc room n hn _ => ?_⟩, ?_⟩
    · simp [uint32_of_spells hn]
    · refine List.forall_mem_append.2 ⟨?_, ?_⟩
      · split
        · simp
        · refine List.forall_mem_singleton.2 ⟨by simp, fun acc room n hn hroom => ?_⟩
          simp [hdescriptors hn hroom]
      · split
        · simp
        · refine List.forall_mem_singleton.2 ⟨by simp, fun acc room n hn hroom => ?_⟩
          simp [hdependencies hn hroom]
  · cases descriptors <;> cases dependencies <;> simp [required]

/-- **A document is read back from whatever spells it**, if no name comes twice where it
    must not and there is room. -/
theorem Query.reads_decode {q : Query} (hdistinct : q.Distinct) (hcanonical : q.Canonical) :
    Reads (Query.decode src) q q.toValue := by
  have hinput : Reads (Decoder.list src (Entry.decode src (InputSpec.decode src))) q.input _ :=
    reads_entries fun e he => InputSpec.reads_decode (hcanonical e he)
  have hresources :
      Reads (Decoder.list src (Entry.decode src (ResourceSpec.decode src))) q.resources _ :=
    reads_entries fun e he => ResourceSpec.reads_decode (hdistinct e he)
  have houtput : Reads (Decoder.list src (Entry.decode src (Reference.decode src))) q.output _ :=
    reads_entries fun e _ => e.spec.reads_decode
  refine .record (fun name acc =>
    if name = "input" then { acc with input := q.input }
    else if name = "resources" then { acc with resources := q.resources }
    else { acc with output := q.output }) (by simp) ?_ (by simp)
  refine List.forall_mem_cons.2 ⟨⟨by simp, fun acc room n hn hroom => ?_⟩,
    List.forall_mem_cons.2 ⟨⟨by simp, fun acc room n hn hroom => ?_⟩,
      List.forall_mem_singleton.2 ⟨by simp, fun acc room n hn hroom => ?_⟩⟩⟩
  · simp [hinput hn hroom]
  · simp [hresources hn hroom]
  · simp [houtput hn hroom]

/-! ### How deep a document is -/

theorem depth_idValue (id : UInt32) : (idValue id).depth = 0 := rfl

theorem Entry.depth_toValue_le {α : Type} {encode : α → Value} {e : Entry α}
    (h : (encode e.spec).depth ≤ room) : (e.toValue encode).depth ≤ room + 1 :=
  Value.depth_map_le.2 (List.forall_mem_singleton.2 h)

theorem depth_entries_le {α : Type} {encode : α → Value} {es : List (Entry α)}
    (h : ∀ e ∈ es, (encode e.spec).depth ≤ room) :
    (Value.list (es.map (Entry.toValue encode))).depth ≤ room + 2 :=
  Value.depth_list_le.2 (List.forall_mem_map.2 fun e he => Entry.depth_toValue_le (h e he))

theorem Reference.depth_toValue_le (r : Reference) : r.toValue.depth ≤ 1 :=
  Value.depth_map_le.2 (List.forall_mem_singleton.2 (depth_idValue r.id).le)

theorem InputSpec.depth_toValue_le {s : InputSpec}
    (h : ∀ args, s.args = some args → (Value.map args).depth ≤ room) :
    s.toValue.depth ≤ room + 1 := by
  refine Value.depth_map_le.2 (List.forall_mem_cons.2 ⟨Nat.zero_le _, ?_⟩)
  cases hargs : s.args with
  | none => simp
  | some args => exact List.forall_mem_singleton.2 (h args hargs)

theorem DescriptorSpec.depth_toValue_le (s : DescriptorSpec) : s.toValue.depth ≤ 4 :=
  Value.depth_map_le.2 <| List.forall_mem_singleton.2 <| Value.depth_map_le.2 <|
    List.forall_mem_map.2 fun p _ => Entry.depth_toValue_le p.2.spec.depth_toValue_le

theorem ResourceSpec.depth_toValue_le (s : ResourceSpec) : s.toValue.depth ≤ 6 := by
  refine Value.depth_map_le.2 (List.forall_mem_cons.2 ⟨Nat.zero_le _, ?_⟩)
  refine List.forall_mem_append.2 ⟨?_, ?_⟩
  · split
    · simp
    · refine List.forall_mem_singleton.2 (Value.depth_map_le.2 (List.forall_mem_map.2 ?_))
      exact fun d _ => d.2.depth_toValue_le
  · split
    · simp
    · refine List.forall_mem_singleton.2 ((depth_entries_le fun e _ => ?_).trans (by simp : 3 ≤ 5))
      exact e.spec.depth_toValue_le

/-- A document is nine collections deep, unless arguments make it deeper. -/
theorem Query.depth_toValue_le {q : Query} (hroom : 6 ≤ room)
    (h : ∀ e ∈ q.input, e.spec.toValue.depth ≤ room) : q.toValue.depth ≤ room + 3 := by
  refine Value.depth_map_le.2 (List.forall_mem_cons.2 ⟨depth_entries_le h,
    List.forall_mem_cons.2 ⟨depth_entries_le fun e _ => ?_,
      List.forall_mem_singleton.2 (depth_entries_le fun e _ => ?_)⟩⟩)
  · exact e.spec.depth_toValue_le.trans hroom
  · exact e.spec.depth_toValue_le.trans (by omega)

/-! ### What is read -/

theorem InputSpec.yields_decode (n : Node) : Yields (InputSpec.decode src room n) fun s =>
    s.Canonical ∧ s.toValue.depth ≤ max 2 room := by
  have hargs : ∀ left n, room = left + 1 → Yields (optional src (fields src left) n) fun o =>
      ∀ args, o = some args →
        (Value.map args).Canonical ∧ (Value.map args).depth ≤ max 2 room - 1 := by
    intro left n hleft
    refine yields_optional (fun n => (yields_fields n).mono fun fs hfs => ⟨hfs.1, ?_⟩) n
    omega
  refine yields_record (I := fun acc => ∀ args, acc.2 = some args →
    (Value.map args).Canonical ∧ (Value.map args).depth ≤ max 2 room - 1) ?_ ?_ ?_ n
  · simp
  · intro left name n acc hleft hacc
    split
    · exact .after fun id => .pure hacc
    · exact (hargs left n hleft).bind fun o ho => .pure ho
  · rintro ⟨_ | id, args⟩ s hacc hs
    · cases hs
    · cases hs
      refine ⟨fun args hargs => (hacc args hargs).1, ?_⟩
      have hdepth : (InputSpec.toValue ⟨id, args⟩).depth ≤ max 2 room - 1 + 1 :=
        InputSpec.depth_toValue_le fun args hargs => (hacc args hargs).2
      exact hdepth.trans (by omega)

theorem DescriptorSpec.yields_decode (n : Node) :
    Yields (DescriptorSpec.decode src room n) fun s => (s.params.map Prod.fst).Nodup := by
  refine yields_record (I := fun params => (params.map Prod.fst).Nodup) .nil ?_ ?_ n
  · intro left _ n _ _ _
    exact (yields_orderedMap (fun left n => .trivial _) n).mono fun params h => h.1
  · rintro params s hparams ⟨⟩
    exact hparams

theorem ResourceSpec.yields_decode (n : Node) :
    Yields (ResourceSpec.decode src room n) ResourceSpec.Distinct := by
  refine yields_record (I := fun acc => (acc.2.1.map Prod.fst).Nodup ∧
    ∀ d ∈ acc.2.1, (d.2.params.map Prod.fst).Nodup) ?_ ?_ ?_ n
  · simp
  · intro left name n acc _ hacc
    split
    · exact .after fun id => .pure hacc
    · split
      · exact (yields_orderedMap (fun _ n => DescriptorSpec.yields_decode n) n).bind
          fun ds hds => .pure hds
      · exact .after fun es => .pure hacc
  · rintro ⟨_ | id, ds, es⟩ s hacc hs
    · cases hs
    · cases hs
      exact ⟨hacc.1, hacc.2⟩

/-- **Whatever is read has the form of a document**, and its arguments fitted in. -/
theorem Query.yields_decode (n : Node) : Yields (Query.decode src room n) fun q =>
    q.Distinct ∧ q.Canonical ∧ ∀ e ∈ q.input, e.spec.toValue.depth ≤ max 2 (room - 3) := by
  refine yields_record (I := fun q : Query => q.Distinct ∧ ∀ e ∈ q.input,
    e.spec.Canonical ∧ e.spec.toValue.depth ≤ max 2 (room - 3)) ?_ ?_ ?_ n
  · simp [Query.empty, Query.Distinct]
  · intro left name n acc hleft hacc
    have hinput : ∀ left' n, left = left' + 2 → Yields (InputSpec.decode src left' n) fun s =>
        s.Canonical ∧ s.toValue.depth ≤ max 2 (room - 3) := by
      intro left' n hleft'
      exact (InputSpec.yields_decode n).mono fun s hs => ⟨hs.1, by omega⟩
    split
    · exact (yields_entryList hinput n).bind fun es hes => .pure ⟨hacc.1, hes⟩
    · split
      · exact (yields_entryList (fun _ n _ => ResourceSpec.yields_decode n) n).bind
          fun es hes => .pure ⟨hes, hacc.2⟩
      · exact .after fun es => .pure hacc
  · rintro q _ hq ⟨⟩
    exact ⟨hq.1, fun e he => (hq.2 e he).1, fun e he => (hq.2 e he).2⟩

/-! ### Round trips -/

namespace Query

variable {q : Query}

theorem ofSource_eq_ok (hdistinct : q.Distinct) (hcanonical : q.Canonical)
    (hroot : src.root.spells q.toValue) (hcomplete : src.complete)
    (hroom : q.toValue.depth ≤ src.dialect.depth) : ofSource src = .ok q := by
  unfold ofSource run
  rw [reads_decode hdistinct hcanonical hroot hroom]
  exact if_pos hcomplete

theorem form_of_ofSource (h : ofSource src = .ok q) : q.Distinct ∧ q.Canonical ∧
    ∀ e ∈ q.input, e.spec.toValue.depth ≤ max 2 (src.dialect.depth - 3) := by
  unfold ofSource run at h
  rcases hread : decode src src.dialect.depth src.root 0 with f | ⟨q', followed⟩
  · rw [hread] at h
    cases h
  · rw [hread] at h
    dsimp only at h
    split at h
    · cases h
      exact yields_decode src.root _ _ _ hread
    · cases h

/-- **Documents survive being written.**  A text that carries the tree of a document is
    read as the document, if no descriptor of a resource and no role of a descriptor comes
    twice.  A document that was read, from whatever text, is like that; so it is read again
    from a text that carries its tree and may nest as deep as the first. -/
theorem ofSource_toValue :
    (∀ (q : Query) (src : Source), q.Distinct → q.Canonical → src.root.spells q.toValue →
      src.complete → q.toValue.depth ≤ src.dialect.depth → ofSource src = .ok q) ∧
    ∀ (src : Source) (q : Query), ofSource src = .ok q → q.Distinct ∧ q.Canonical ∧
      ∀ src' : Source, src'.root.spells q.toValue → src'.complete →
        max 9 src.dialect.depth ≤ src'.dialect.depth → ofSource src' = .ok q := by
  refine ⟨fun q src => ofSource_eq_ok, fun src q h => ?_⟩
  obtain ⟨hdistinct, hcanonical, hinput⟩ := form_of_ofSource h
  refine ⟨hdistinct, hcanonical, fun src' hroot hcomplete hdepth => ?_⟩
  -- the spec of an input stands three collections deep
  have hroom : q.toValue.depth ≤ max 6 (src.dialect.depth - 3) + 3 :=
    depth_toValue_le (le_max_left _ _) fun e he => (hinput e he).trans (by omega)
  exact ofSource_eq_ok hdistinct hcanonical hroot hcomplete (hroom.trans (by omega))

end Query

/-! ### A menu -/

/-- Arguments that are absent or nested, descriptors and roles in an order of their own, and
    dependencies that are left out. -/
def Demo.menuQuery : Query where
  input := [⟨"dish", ⟨1, none⟩⟩, ⟨"dish", ⟨2, some [("of", .list [.number (.int (-2)), .null])]⟩⟩]
  resources := [⟨"menu", ⟨3, [("title", ⟨[("to", ⟨"dish", ⟨2⟩⟩), ("by", ⟨"dish", ⟨1⟩⟩)]⟩),
    ("price", ⟨[]⟩)], []⟩⟩]
  output := [⟨"menu", ⟨3⟩⟩]

theorem Json.read_dialect (text : String) : (Json.read text).dialect = Json.dialect := rfl

/-- The menu is read from a JSON text, and again from its tree where YAML texts are read. -/
theorem Query.ofSource_toValue_menu :
    ofSource (Json.read (Json.compact Demo.menuQuery.toValue)) = .ok Demo.menuQuery ∧
      ofSource ⟨Yaml.dialect, .ofValue Demo.menuQuery.toValue, [], 0, true⟩ =
        .ok Demo.menuQuery := by
  have hdistinct : Demo.menuQuery.Distinct :=
    List.forall_mem_singleton.2 ⟨by decide, by decide⟩
  have hcanonical : Demo.menuQuery.Canonical := by
    refine List.forall_mem_cons.2 ⟨by simp [InputSpec.Canonical], List.forall_mem_singleton.2 ?_⟩
    rintro args ⟨⟩
    refine .map (List.pairwise_singleton _ _) (List.forall_mem_singleton.2 (.list ?_))
    simp [Value.Canonical.number, Value.Canonical.null]
  have hcarried : (Json.read (Json.compact Demo.menuQuery.toValue)).root.spells
      Demo.menuQuery.toValue ∧ (Json.read (Json.compact Demo.menuQuery.toValue)).complete := by
    decide +kernel
  have hjson : ofSource (Json.read (Json.compact Demo.menuQuery.toValue)) = .ok Demo.menuQuery := by
    refine ofSource_toValue.1 _ _ hdistinct hcanonical hcarried.1 hcarried.2 ?_
    rw [Json.read_dialect]
    decide
  refine ⟨hjson, (ofSource_toValue.2 _ _ hjson).2.2 _ (Node.spells_ofValue _) rfl ?_⟩
  rw [Json.read_dialect]
  decide

end HornPlan
