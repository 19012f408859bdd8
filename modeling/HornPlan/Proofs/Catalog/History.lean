/-
  HornPlan/Proofs/Catalog/History.lean
  ====================================
  **Catalogs with a history.**

  Requests to register tasks and requests to register descriptors come in any order, and
  some are refused.  The two tables of a catalog take no notice of one another: each of them
  is the table of what was asked for of its own kind (`after_eq`).  So what a name stands for
  is settled by the first request of the kind that had it, and a descriptor never gets in the
  way of a task.

  `after_faithful` puts together what a history comes to: which requests are refused, what
  is found under a name, where the indexes lead, and that the lists are the requests that
  were granted.

  Specification, section 4.2, of any course of `register_task` and
  `register_descriptor`.
-/
import HornPlan.Catalog
import HornPlan.Proofs.Catalog.Table
import Mathlib.Data.List.Induction

namespace HornPlan.Catalog

/-- Something to be registered. -/
inductive Request where
  | task (t : Task)
  | descriptor (name : String) (t : Task)

namespace Request

@[simp]
def task? : Request → Option Task
  | .task t => some t
  | .descriptor _ _ => none

@[simp]
def descriptor? : Request → Option Descriptor
  | .task _ => none
  | .descriptor name t => some ⟨name, t⟩

end Request

/-! ### One request -/

def submit (c : Catalog) : Request → Registration Catalog
  | .task t => c.addTask t
  | .descriptor name t => c.addDescriptor name t

/-- **A request is refused, and all stays as it is, or what it asks for is put at the end.** -/
theorem submit_cases (c : Catalog) (q : Request) :
    (∃ e, c.submit q = (.error e, c)) ∨
    ∃ c', c.submit q = (.ok (), c') ∧ c'.tasks = c.tasks ++ q.task?.toList ∧
      c'.descriptors = c.descriptors ++ q.descriptor?.toList := by
  cases q with
  | task t =>
    rcases c.taskTable.add_eq_or t with hadd | ⟨tb, hadd, hitems⟩
    · exact Or.inl ⟨.duplicateTask t.name, by simp [submit, addTask, hadd]⟩
    · exact Or.inr ⟨{ c with taskTable := tb }, by simp [submit, addTask, hadd], hitems,
        (List.append_nil _).symm⟩
  | descriptor name t =>
    rcases c.descriptorTable.add_eq_or ⟨name, t⟩ with hadd | ⟨tb, hadd, hitems⟩
    · exact Or.inl ⟨.duplicateDescriptor name, by simp [submit, addDescriptor, hadd]⟩
    · exact Or.inr ⟨{ c with descriptorTable := tb }, by simp [submit, addDescriptor, hadd],
        (List.append_nil _).symm, hitems⟩

/-! ### Histories -/

/-- The catalog that a history of requests leads to. -/
def after (qs : List Request) : Catalog := qs.foldl (fun c q => (c.submit q).2) empty

/-- The requests of a history that succeed. -/
def granted : Catalog → List Request → List Request
  | _, [] => []
  | c, q :: rest =>
    match c.submit q with
    | (.ok (), c') => q :: granted c' rest
    | (.error _, c') => granted c' rest

/-- All tasks that are to be registered in the course of a history. -/
def tasksAsked (qs : List Request) : List Task := qs.filterMap Request.task?

/-- All descriptors that are to be registered in the course of a history. -/
def descriptorsAsked (qs : List Request) : List Descriptor := qs.filterMap Request.descriptor?

theorem after_concat (qs : List Request) (q : Request) :
    after (qs ++ [q]) = ((after qs).submit q).2 :=
  List.foldl_concat ..

/-- **The tables take no notice of one another.** -/
theorem after_eq (qs : List Request) :
    after qs = ⟨.ofList (tasksAsked qs), .ofList (descriptorsAsked qs)⟩ := by
  induction qs using List.reverseRecOn with
  | nil => rfl
  | append_singleton qs q ih =>
    rw [after_concat, ih]
    cases q with
    | task t =>
      simp [submit, addTask, tasksAsked, descriptorsAsked, List.filterMap_cons, Table.ofList_concat]
    | descriptor name t =>
      simp [submit, addDescriptor, tasksAsked, descriptorsAsked, List.filterMap_cons,
        Table.ofList_concat]

theorem coherent_after (qs : List Request) :
    (after qs).taskTable.Coherent ∧ (after qs).descriptorTable.Coherent := by
  rw [after_eq]
  exact ⟨Table.coherent_ofList _, Table.coherent_ofList _⟩

theorem task?_after (qs : List Request) (name : String) :
    (after qs).task? name = (tasksAsked qs).find? fun t => t.name = name := by
  rw [after_eq]
  exact Table.get?_ofList _ name

theorem descriptor?_after (qs : List Request) (name : String) :
    (after qs).descriptor? name = (descriptorsAsked qs).find? fun d => d.name = name := by
  rw [after_eq]
  exact Table.get?_ofList _ name

theorem addTask_after (qs : List Request) (t : Task) : (after qs).addTask t =
    if t.name ∈ (tasksAsked qs).map Task.name then (.error (.duplicateTask t.name), after qs)
    else (.ok (), after (qs ++ [.task t])) := by
  have hnext : after (qs ++ [.task t]) = ((after qs).addTask t).2 := after_concat ..
  rw [hnext, after_eq, addTask, Table.add_ofList]
  by_cases hasked : t.name ∈ (tasksAsked qs).map Task.name
  · rw [if_pos hasked, if_pos hasked]
    rfl
  · rw [if_neg hasked, if_neg hasked]
    rfl

theorem addDescriptor_after (qs : List Request) (name : String) (t : Task) :
    (after qs).addDescriptor name t =
      if name ∈ (descriptorsAsked qs).map Descriptor.name then
        (.error (.duplicateDescriptor name), after qs)
      else (.ok (), after (qs ++ [.descriptor name t])) := by
  have hnext : after (qs ++ [.descriptor name t]) = ((after qs).addDescriptor name t).2 :=
    after_concat ..
  rw [hnext, after_eq, addDescriptor, Table.add_ofList]
  by_cases hasked : name ∈ (descriptorsAsked qs).map Descriptor.name
  · rw [if_pos hasked, if_pos hasked]
    rfl
  · rw [if_neg hasked, if_neg hasked]
    rfl

/-! ### What has been granted -/

theorem listed_foldl_submit (c : Catalog) (qs : List Request) :
    (qs.foldl (fun c q => (c.submit q).2) c).tasks =
      c.tasks ++ (granted c qs).filterMap Request.task? ∧
    (qs.foldl (fun c q => (c.submit q).2) c).descriptors =
      c.descriptors ++ (granted c qs).filterMap Request.descriptor? := by
  induction qs generalizing c with
  | nil => exact ⟨(List.append_nil _).symm, (List.append_nil _).symm⟩
  | cons q rest ih =>
    rw [List.foldl_cons, granted]
    rcases c.submit_cases q with ⟨e, hq⟩ | ⟨c', hq, htasks, hdescriptors⟩
    · rw [hq]
      exact ih c
    · rw [hq]
      obtain ⟨ihtasks, ihdescriptors⟩ := ih c'
      rw [ihtasks, ihdescriptors, htasks, hdescriptors, List.append_assoc, List.append_assoc]
      cases q <;> exact ⟨rfl, rfl⟩

/-- The catalog lists what some requests ask for, in their order and under names of their
    own. -/
structure Lists (c : Catalog) (qs : List Request) : Prop where
  tasks : c.tasks = tasksAsked qs
  descriptors : c.descriptors = descriptorsAsked qs
  producersOf : ∀ type, c.producersOf type = (tasksAsked qs).filter fun t => t.output = type
  task_names : (c.tasks.map Task.name).Nodup
  descriptor_names : (c.descriptors.map Descriptor.name).Nodup
  producer_names : ∀ type, ((c.producersOf type).map Task.name).Nodup

theorem lists_granted (qs : List Request) : (after qs).Lists (granted empty qs) := by
  obtain ⟨htasks, hdescriptors⟩ := listed_foldl_submit empty qs
  obtain ⟨hcoherent, hcoherent'⟩ := coherent_after qs
  refine ⟨htasks, hdescriptors, fun type => ?_, hcoherent.nodup, hcoherent'.nodup, fun type => ?_⟩
  · exact congrArg (List.filter _) htasks
  · exact hcoherent.nodup.sublist (List.filter_sublist.map Task.name)

/-- **What a history of requests comes to.**  A task or a descriptor is refused exactly if
    its name has been asked for before, and then nothing changes.  A name stands for what was
    first asked for under it.  The indexes lead to all that is listed and nowhere else, and
    what is listed are the requests that were granted. -/
theorem after_faithful (qs : List Request) :
    (∀ t, (after qs).addTask t =
      if t.name ∈ (tasksAsked qs).map Task.name then (.error (.duplicateTask t.name), after qs)
      else (.ok (), after (qs ++ [.task t]))) ∧
    (∀ name t, (after qs).addDescriptor name t =
      if name ∈ (descriptorsAsked qs).map Descriptor.name then
        (.error (.duplicateDescriptor name), after qs)
      else (.ok (), after (qs ++ [.descriptor name t]))) ∧
    (∀ name, (after qs).task? name = (tasksAsked qs).find? fun t => t.name = name) ∧
    (∀ name, (after qs).descriptor? name = (descriptorsAsked qs).find? fun d => d.name = name) ∧
    (after qs).taskTable.Coherent ∧ (after qs).taskTable.InRange ∧
    (after qs).descriptorTable.Coherent ∧ (after qs).descriptorTable.InRange ∧
    (after qs).Lists (granted empty qs) := by
  obtain ⟨hcoherent, hcoherent'⟩ := coherent_after qs
  exact ⟨addTask_after qs, addDescriptor_after qs, task?_after qs, descriptor?_after qs,
    hcoherent, hcoherent.inRange, hcoherent', hcoherent'.inRange, lists_granted qs⟩

example :
    let c := after [.task ⟨"Shout", "", "topic", "sentence", .ok⟩,
      .descriptor "Shout" ⟨"Whisper", "", "topic", "recipe", .ok⟩,
      .task ⟨"Shout", "", "recipe", "sentence", .ok⟩,
      .task ⟨"Echo", "", "topic", "sentence", .ok⟩]
    (c.task? "Shout").map Task.input = some "topic" ∧
      (c.descriptor? "Shout").map (·.task.name) = some "Whisper" ∧
      (c.producersOf "sentence").map Task.name = ["Shout", "Echo"] := by decide

end HornPlan.Catalog
