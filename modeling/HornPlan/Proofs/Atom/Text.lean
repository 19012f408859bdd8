/-
  HornPlan/Proofs/Atom/Text.lean
  ==============================
  **What the texts of tuples and atoms tell.**

  Digits hold no underscore, so the last underscore in the text of a tuple is the one in
  front of the id.  The text determines the tuple, whatever its alias is made of
  (`Tuple.text_inj`).

  The text of an atom can be told apart from what stands around it only if its names are
  words: ASCII letters, digits and underscores (`Atom.isWorded`).  Then it determines the
  atom, with one exception.  Nothing keeps a property from being called `all_dependencies`,
  and it is written like the aggregate then (`Atom.text_eq_iff`).
-/
import HornPlan.Atom

namespace HornPlan

/-! ### Cutting a text -/

/-- A text is cut in one way in front of the first character of another kind. -/
theorem eq_of_append {P : Char → Prop} {xs ys us vs : List Char} (hxs : ∀ x ∈ xs, P x)
    (hys : ∀ y ∈ ys, P y) (hus : ∀ u ∈ us.head?, ¬ P u) (hvs : ∀ v ∈ vs.head?, ¬ P v)
    (h : xs ++ us = ys ++ vs) : xs = ys ∧ us = vs := by
  induction xs generalizing ys with
  | nil =>
    cases ys with
    | nil => exact ⟨rfl, h⟩
    | cons y ys =>
      subst h
      exact absurd (hys y List.mem_cons_self) (hus y rfl)
  | cons x xs ih =>
    cases ys with
    | nil =>
      subst h
      exact absurd (hxs x List.mem_cons_self) (hvs x rfl)
    | cons y ys =>
      obtain ⟨rfl, htail⟩ := List.cons.inj h
      rw [List.forall_mem_cons] at hxs hys
      obtain ⟨rfl, hrest⟩ := ih hxs.2 hys.2 htail
      exact ⟨rfl, hrest⟩

/-! ### Tuples -/

namespace InstanceId

theorem toNat_inj {m n : InstanceId} : m.value.toNat = n.value.toNat ↔ m = n := by
  cases m
  cases n
  simp [UInt32.toNat_inj]

theorem toNat_ne_zero (n : InstanceId) : n.value.toNat ≠ 0 := fun h =>
  n.value_ne_zero (UInt32.toNat_inj.1 h)

end InstanceId

namespace Tuple

variable {s t : Tuple}

/-- No instance has the id that the wildcard is written with. -/
theorem eq_of_rawId (htype : s.type = t.type) (hid : s.rawId = t.rawId) : s = t := by
  obtain ⟨type, m⟩ := s
  obtain ⟨_, n⟩ := t
  cases htype
  cases m with
  | none =>
    cases n with
    | none => rfl
    | some n => exact absurd hid.symm n.toNat_ne_zero
  | some m =>
    cases n with
    | none => exact absurd hid m.toNat_ne_zero
    | some n => rw [InstanceId.toNat_inj.1 hid]

theorem toList_text (t : Tuple) :
    t.text.toList = t.type.toList ++ '_' :: Nat.toDigits 10 t.rawId := by
  simp [text]

/-- **The text of a tuple determines it.** -/
theorem text_inj : s.text = t.text ↔ s = t := by
  refine ⟨fun h => ?_, congrArg text⟩
  have hlist := congrArg String.toList h
  rw [toList_text, toList_text] at hlist
  -- read from the end, the first underscore is the one in front of the id
  have hrev := congrArg List.reverse hlist
  simp only [List.reverse_append, List.reverse_cons, List.append_assoc,
    List.singleton_append] at hrev
  have hdigits : ∀ n, ∀ c ∈ (Nat.toDigits 10 n).reverse, c ≠ '_' := by
    rintro n c hc rfl
    exact Nat.underscore_not_in_toDigits (List.mem_reverse.1 hc)
  obtain ⟨hid, htype⟩ := eq_of_append (hdigits _) (hdigits _) (by simp) (by simp) hrev
  apply eq_of_rawId (String.toList_inj.1 (List.reverse_inj.1 (List.cons.inj htype).2))
  calc s.rawId
    _ = Nat.ofDigitChars 10 (Nat.toDigits 10 s.rawId) 0 := Nat.ofDigitChars_ten_toDigits.symm
    _ = Nat.ofDigitChars 10 (Nat.toDigits 10 t.rawId) 0 := by rw [List.reverse_inj.1 hid]
    _ = t.rawId := Nat.ofDigitChars_ten_toDigits

end Tuple

/-! ### Words -/

/-- Is the character an ASCII letter, a digit or an underscore? -/
def isWordChar (c : Char) : Bool := c.isAlphanum || c = '_'

/-- Is the text made of such characters only?  The empty one is. -/
def isWord (s : String) : Bool := s.toList.all isWordChar

theorem isWord_iff {s : String} : isWord s = true ↔ ∀ c ∈ s.toList, isWordChar c = true :=
  List.all_eq_true

theorem isWordChar_paren : isWordChar '(' = false := by decide

theorem Tuple.isWordChar_of_mem_text {t : Tuple} (h : isWord t.type = true) :
    ∀ c ∈ t.text.toList, isWordChar c = true := by
  rw [toList_text, List.forall_mem_append, List.forall_mem_cons]
  refine ⟨isWord_iff.1 h, rfl, fun c hc => ?_⟩
  have hdigit : c.isDigit = true := Nat.isDigit_of_mem_toDigits (by decide) (by decide) hc
  simp [isWordChar, Char.isAlphanum, hdigit]

/-! ### Atoms -/

namespace Atom

variable {a b : Atom} {p : String}

/-- The name that is written in front of the subject. -/
def predicate? : Atom → Option String
  | resource _ => none
  | property p _ => some p
  | allDependencies _ => some "all_dependencies"

/-- Are the names in the atom words? -/
def isWorded (a : Atom) : Bool := a.predicate?.all isWord && isWord a.subject.type

/-- What the text of an atom looks like: a property called `all_dependencies` looks like the
    aggregate. -/
def asWritten : Atom → Atom
  | property p t => if p = "all_dependencies" then allDependencies t else property p t
  | a => a

theorem asWritten_eq_iff :
    a.asWritten = b.asWritten ↔ a.predicate? = b.predicate? ∧ a.subject = b.subject := by
  cases a <;> cases b <;> grind [asWritten, predicate?, subject]

theorem asWritten_eq_self (h : ∀ t, a ≠ .property "all_dependencies" t) : a.asWritten = a := by
  cases a with
  | property p t => exact if_neg fun hp => h t (by rw [hp])
  | _ => rfl

theorem text_of_resource (h : a.predicate? = none) : a.text = a.subject.text := by
  cases a <;> cases h
  rfl

theorem text_allDependencies (t : Tuple) :
    (allDependencies t).text = "all_dependencies" ++ "(" ++ t.text ++ ")" :=
  congrArg (· ++ t.text ++ ")") (by decide : "all_dependencies(" = "all_dependencies" ++ "(")

theorem text_of_predicate (h : a.predicate? = some p) :
    a.text = p ++ "(" ++ a.subject.text ++ ")" := by
  cases a with
  | resource t => cases h
  | property q t =>
    cases h
    rfl
  | allDependencies t =>
    obtain rfl : "all_dependencies" = p := Option.some.inj h
    exact text_allDependencies t

theorem toList_text_of_predicate (h : a.predicate? = some p) :
    a.text.toList = p.toList ++ '(' :: (a.subject.text.toList ++ [')']) := by
  simp [text_of_predicate h]

theorem isWordChar_of_mem_subject (ha : a.isWorded = true) :
    ∀ c ∈ a.subject.text.toList, isWordChar c = true :=
  Tuple.isWordChar_of_mem_text (Bool.and_eq_true_iff.1 ha).2

theorem isWordChar_of_mem_predicate (ha : a.isWorded = true) (h : a.predicate? = some p) :
    ∀ c ∈ p.toList, isWordChar c = true := by
  have hall := (Bool.and_eq_true_iff.1 ha).1
  rw [h] at hall
  exact isWord_iff.1 hall

theorem text_ne_of_predicate (ha : a.isWorded = true) (hnone : a.predicate? = none)
    (hsome : b.predicate? = some p) : a.text ≠ b.text := by
  intro h
  have hmem : '(' ∈ b.text.toList := by
    rw [toList_text_of_predicate hsome]
    simp
  rw [← h, text_of_resource hnone] at hmem
  exact absurd (isWordChar_of_mem_subject ha _ hmem) (by simp [isWordChar_paren])

/-- **The text of an atom determines it, but for the name of the aggregate.** -/
theorem text_eq_iff (ha : a.isWorded = true) (hb : b.isWorded = true) :
    a.text = b.text ↔ a.asWritten = b.asWritten := by
  rw [asWritten_eq_iff]
  cases hp : a.predicate? with
  | none =>
    cases hq : b.predicate? with
    | none => rw [text_of_resource hp, text_of_resource hq, Tuple.text_inj]; simp
    | some q => simp [text_ne_of_predicate ha hp hq]
  | some p =>
    cases hq : b.predicate? with
    | none => simp [(text_ne_of_predicate hb hq hp).symm]
    | some q =>
      rw [← String.toList_inj, toList_text_of_predicate hp, toList_text_of_predicate hq]
      constructor
      · intro h
        -- a predicate ends at the opening parenthesis
        obtain ⟨hname, hrest⟩ := eq_of_append (isWordChar_of_mem_predicate ha hp)
          (isWordChar_of_mem_predicate hb hq) (by simp [isWordChar_paren])
          (by simp [isWordChar_paren]) h
        have hsubject := List.append_cancel_right (List.cons.inj hrest).2
        exact ⟨congrArg some (String.toList_inj.1 hname),
          Tuple.text_inj.1 (String.toList_inj.1 hsubject)⟩
      · rintro ⟨⟨⟩, hsubject⟩
        rw [hsubject]

/-- Is the character one that texts of atoms are made of? -/
def isTextChar (c : Char) : Bool := isWordChar c || c = '(' || c = ')'

theorem isTextChar_of_mem_text (ha : a.isWorded = true) :
    ∀ c ∈ a.text.toList, isTextChar c = true := by
  have hword : ∀ c, isWordChar c = true → isTextChar c = true := by
    intro c hc
    simp [isTextChar, hc]
  cases hp : a.predicate? with
  | none =>
    rw [text_of_resource hp]
    exact fun c hc => hword c (isWordChar_of_mem_subject ha c hc)
  | some p =>
    simp only [toList_text_of_predicate hp, List.forall_mem_append, List.forall_mem_cons]
    refine ⟨fun c hc => ?_, rfl, fun c hc => ?_, rfl, nofun⟩
    · exact hword c (isWordChar_of_mem_predicate ha hp c hc)
    · exact hword c (isWordChar_of_mem_subject ha c hc)

end Atom

end HornPlan
