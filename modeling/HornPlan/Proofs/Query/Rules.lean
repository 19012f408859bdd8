/-
  HornPlan/Proofs/Query/Rules.lean
  ================================
  **Rules, and the first of them that is broken.**

  What is read step by step goes by a list of rules: the result is there exactly if all
  of them hold, and otherwise the error is that of the first one that does not
  (`Decides`).  Each rule says on its own what has to hold, whatever came before it.

  Steps in sequence go by the rules of each in turn (`Decides.bind`), and so does a step
  that is repeated for the items of a list (`Decides.mapM`, `Decides.forM_filter`).
-/
import HornPlan.Proofs.Query.Reading

namespace HornPlan

/-- What has to hold, and the error that is reported if it does not. -/
structure Rule where
  holds : Prop
  error : Error

namespace Rule

/-- Is the error that of the first rule that does not hold? -/
inductive FirstBroken : List Rule → Error → Prop
  | here {k : Rule} {ks : List Rule} (hk : ¬ k.holds) : FirstBroken (k :: ks) k.error
  | later {k : Rule} {ks : List Rule} {e : Error} (hk : k.holds) (hks : FirstBroken ks e) :
    FirstBroken (k :: ks) e

namespace FirstBroken

variable {ks ks' : List Rule} {e e' : Error}

theorem append_left (h : FirstBroken ks e) (ks' : List Rule) : FirstBroken (ks ++ ks') e := by
  induction h with
  | here hk => exact .here hk
  | later hk _ ih => exact .later hk ih

theorem append_right (hks : ∀ k ∈ ks, k.holds) (h : FirstBroken ks' e) :
    FirstBroken (ks ++ ks') e := by
  induction ks with
  | nil => exact h
  | cons k ks ih =>
    obtain ⟨hk, hks⟩ := List.forall_mem_cons.1 hks
    exact .later hk (ih hks)

theorem not_all (h : FirstBroken ks e) : ¬ ∀ k ∈ ks, k.holds := by
  induction h with
  | here hk => exact fun hall => hk (hall _ List.mem_cons_self)
  | later _ _ ih => exact fun hall => ih fun k hk => hall k (List.mem_cons_of_mem _ hk)

theorem unique (h : FirstBroken ks e) (h' : FirstBroken ks e') : e = e' := by
  induction h with
  | here hk =>
    cases h' with
    | here _ => rfl
    | later hk' _ => exact absurd hk' hk
  | later hk _ ih =>
    cases h' with
    | here hk' => exact absurd hk hk'
    | later _ hks' => exact ih hks'

end FirstBroken

/-- Is a result there if all rules hold, and the error of the first broken one if not? -/
def Decides {α : Type} (ks : List Rule) : Except Error α → Prop
  | .ok _ => ∀ k ∈ ks, k.holds
  | .error e => FirstBroken ks e

namespace Decides

variable {α β : Type} {ks ks' : List Rule} {x : Except Error α}

theorem exists_ok_iff (h : Decides ks x) : (∃ a, x = .ok a) ↔ ∀ k ∈ ks, k.holds := by
  cases x with
  | ok a => exact ⟨fun _ => h, fun _ => ⟨a, rfl⟩⟩
  | error e => exact ⟨fun ⟨_, ha⟩ => (nomatch ha), fun hall => absurd hall h.not_all⟩

theorem eq_error_iff (h : Decides ks x) {e : Error} : x = .error e ↔ FirstBroken ks e := by
  cases x with
  | ok a => exact ⟨nofun, fun hbroken => absurd h hbroken.not_all⟩
  | error e' =>
    constructor
    · rintro ⟨⟩
      exact h
    · exact fun hbroken => congrArg _ (FirstBroken.unique h hbroken)

theorem cons {k : Rule} (hk : k.holds) (h : Decides ks x) : Decides (k :: ks) x := by
  cases x with
  | ok a => exact List.forall_mem_cons.2 ⟨hk, h⟩
  | error e => exact .later hk h

/-- Steps in sequence go by the rules of the first and then by those of the second. -/
theorem bind {f : α → Except Error β} (hx : Decides ks x)
    (hf : ∀ a, x = .ok a → Decides ks' (f a)) : Decides (ks ++ ks') (x >>= f) := by
  cases x with
  | error e => exact FirstBroken.append_left hx ks'
  | ok a =>
    change Decides (ks ++ ks') (f a)
    have hfa := hf a rfl
    cases hresult : f a with
    | ok b =>
      rw [hresult] at hfa
      exact List.forall_mem_append.2 ⟨hx, hfa⟩
    | error e =>
      rw [hresult] at hfa
      exact FirstBroken.append_right hx hfa

/-- A step that cannot fail adds no rule. -/
theorem bind_ok {f : α → Except Error β} (hx : Decides ks x) (hf : ∀ a, ∃ b, f a = .ok b) :
    Decides ks (x >>= f) := by
  rw [← List.append_nil ks]
  refine hx.bind fun a _ => ?_
  obtain ⟨b, hb⟩ := hf a
  rw [hb]
  exact nofun

theorem mapM {f : α → Except Error β} {rules : α → List Rule} {as : List α}
    (h : ∀ a ∈ as, Decides (rules a) (f a)) : Decides (as.flatMap rules) (as.mapM f) := by
  induction as with
  | nil => exact nofun
  | cons a as ih =>
    obtain ⟨ha, has⟩ := List.forall_mem_cons.1 h
    rw [List.mapM_cons, List.flatMap_cons]
    exact ha.bind fun b _ => (ih has).bind_ok fun bs => ⟨b :: bs, rfl⟩

/-- Items that are left out have rules that hold. -/
theorem forM_filter {f : α → Except Error Unit} {p : α → Bool} {rules : α → List Rule} {as : List α}
    (hin : ∀ a ∈ as, p a = true → Decides (rules a) (f a))
    (hout : ∀ a ∈ as, p a = false → ∀ k ∈ rules a, k.holds) :
    Decides (as.flatMap rules) ((as.filter p).forM f) := by
  induction as with
  | nil => exact nofun
  | cons a as ih =>
    obtain ⟨hina, hin⟩ := List.forall_mem_cons.1 hin
    obtain ⟨houta, hout⟩ := List.forall_mem_cons.1 hout
    rw [List.flatMap_cons]
    by_cases hp : p a = true
    · rw [List.filter_cons_of_pos hp]
      exact (hina hp).bind fun _ _ => ih hin hout
    · rw [List.filter_cons_of_neg hp]
      -- the rules of the item hold, and nothing is run for it
      have hskip : Decides (rules a) (.ok () : Except Error Unit) := houta (by simpa using hp)
      exact hskip.bind fun _ _ => ih hin hout

/-- Whatever is reported of the first item without a property is the first broken rule. -/
theorem of_find? {p : α → Bool} {error : α → Error} {x : Except Error β} {as : List α}
    (hnone : (as.find? fun a => !p a) = none → ∃ b, x = .ok b)
    (hsome : ∀ a, (as.find? fun a => !p a) = some a → x = .error (error a)) :
    Decides (as.map fun a => ⟨p a = true, error a⟩) x := by
  induction as with
  | nil =>
    obtain ⟨b, rfl⟩ := hnone rfl
    exact nofun
  | cons a as ih =>
    cases hp : p a with
    | true =>
      have hskip : ((a :: as).find? fun a => !p a) = as.find? fun a => !p a :=
        List.find?_cons_of_neg (by simp [hp])
      rw [hskip] at hnone hsome
      exact (ih hnone hsome).cons hp
    | false =>
      rw [hsome a (List.find?_cons_of_pos (by simp [hp]))]
      exact .here (by simp [hp])

end Decides

end Rule

end HornPlan
