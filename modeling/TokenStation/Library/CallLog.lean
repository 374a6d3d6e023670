import Mathlib.Data.List.Basic
import Mathlib.Data.List.Nodup
import Mathlib.Tactic.Common

/-!
# Calls and their answers

A log of calls and answers, in the order in which they were made. A call gets an id when it does not
bring one. An answer names the call that it answers by its id, or else by the name of the function;
then it answers the first call of that name that has no answer yet.

In a lawful log no two calls have the same id, and every answer answers one earlier call, which no
other answer does.
-/

namespace Library

variable {ι ν : Type*}

/-- An entry of a log, as it was written: the id may be left out. -/
inductive LogEvent (ι ν : Type*) where
  | call (given : Option ι) (name : ν)
  | answer (given : Option ι) (name : ν)

namespace CallLog

/-- The calls of a log whose ids are filled in. -/
def calls (log : List (LogEvent ι ν × ι)) : List (ι × ν) :=
  log.filterMap fun entry ↦
    match entry.1 with
    | .call _ name => some (entry.2, name)
    | .answer .. => none

def answers (log : List (LogEvent ι ν × ι)) : List (ι × ν) :=
  log.filterMap fun entry ↦
    match entry.1 with
    | .call .. => none
    | .answer _ name => some (entry.2, name)

/-- How many calls bring no id. -/
def idless (events : List (LogEvent ι ν)) : ℕ :=
  events.countP fun event ↦
    match event with
    | .call none _ => true
    | _ => false

/-- How many ids were filled in. -/
def generated (log : List (LogEvent ι ν × ι)) : ℕ := idless (log.map Prod.fst)

/-- The ids of the calls, when the first `n` fresh ids are taken. -/
def assignedIds (fresh : ℕ → ι) (n : ℕ) : List (LogEvent ι ν) → List ι
  | [] => []
  | .call (some id) _ :: rest => id :: assignedIds fresh n rest
  | .call none _ :: rest => fresh n :: assignedIds fresh (n + 1) rest
  | .answer .. :: rest => assignedIds fresh n rest

variable {log log' : List (LogEvent ι ν × ι)} {given : Option ι} {name : ν} {id : ι}

@[simp] theorem calls_append : calls (log ++ log') = calls log ++ calls log' :=
  List.filterMap_append

@[simp] theorem answers_append : answers (log ++ log') = answers log ++ answers log' :=
  List.filterMap_append

@[simp] theorem calls_call : calls [(.call given name, id)] = [(id, name)] := rfl

@[simp] theorem calls_answer : calls [(.answer given name, id)] = [] := rfl

@[simp] theorem answers_call : answers [(.call given name, id)] = [] := rfl

@[simp] theorem answers_answer : answers [(.answer given name, id)] = [(id, name)] := rfl

@[simp] theorem generated_append : generated (log ++ log') = generated log + generated log' := by
  rw [generated, List.map_append, idless, List.countP_append]
  rfl

theorem assignedIds_append {fresh : ℕ → ι} (n : ℕ) (events later : List (LogEvent ι ν)) :
    assignedIds fresh n (events ++ later) =
      assignedIds fresh n events ++ assignedIds fresh (n + idless events) later := by
  induction events generalizing n with
  | nil => rfl
  | cons event events ih =>
    cases event with
    | call given name =>
      cases given with
      | none =>
        have hcount : idless (.call none name :: events) = idless events + 1 :=
          List.countP_cons_of_pos rfl
        rw [List.cons_append, assignedIds, assignedIds, ih, hcount, List.cons_append, Nat.add_assoc,
          Nat.add_comm 1]
      | some id =>
        have hcount : idless (.call (some id) name :: events) = idless events :=
          List.countP_cons_of_neg Bool.false_ne_true
        rw [List.cons_append, assignedIds, assignedIds, ih, hcount, List.cons_append]
    | answer given name =>
      have hcount : idless (.answer given name :: events) = idless events :=
        List.countP_cons_of_neg Bool.false_ne_true
      rw [List.cons_append, assignedIds, assignedIds, ih, hcount]

theorem nodup_concat {l : List ι} {a : ι} (h : l.Nodup) (ha : a ∉ l) : (l ++ [a]).Nodup := by
  refine List.nodup_append.mpr ⟨h, List.nodup_singleton a, fun b hb c hc hbc ↦ ha ?_⟩
  rw [← List.mem_singleton.mp hc, ← hbc]
  exact hb

variable [DecidableEq ι]

def unanswered (log : List (LogEvent ι ν × ι)) : List (ι × ν) :=
  (calls log).filter fun call ↦ decide (call.1 ∉ (answers log).map Prod.fst)

theorem mem_unanswered {call : ι × ν} :
    call ∈ unanswered log ↔ call ∈ calls log ∧ call.1 ∉ (answers log).map Prod.fst := by
  rw [unanswered, List.mem_filter, decide_eq_true_iff]

variable [DecidableEq ν]

/-- Whether an answer is for a call. -/
def isFor (given : Option ι) (name : ν) (call : ι × ν) : Bool :=
  match given with
  | some id => decide (call.1 = id)
  | none => decide (call.2 = name)

/-- The ids are filled in by the rules; `fresh` numbers the ids that were left out. -/
inductive Lawful (fresh : ℕ → ι) : List (LogEvent ι ν × ι) → Prop where
  | nil : Lawful fresh []
  | call {log : List (LogEvent ι ν × ι)} {given : Option ι} {name : ν} {id : ι} :
      Lawful fresh log → id = given.getD (fresh (generated log)) →
        id ∉ (calls log).map Prod.fst → Lawful fresh (log ++ [(.call given name, id)])
  | answer {log : List (LogEvent ι ν × ι)} {given : Option ι} {name : ν} {id : ι} :
      Lawful fresh log →
      (unanswered log).find? (isFor given name) = some (id, name) →
        Lawful fresh (log ++ [(.answer given name, id)])

namespace Lawful

variable {fresh : ℕ → ι}

theorem calls_nodup (h : Lawful fresh log) : ((calls log).map Prod.fst).Nodup := by
  induction h with
  | nil => exact List.nodup_nil
  | @call log given name id _ _ hfresh ih =>
    rw [calls_append, calls_call, List.map_append]
    exact nodup_concat ih hfresh
  | answer _ _ ih =>
    rw [calls_append, calls_answer, List.append_nil]
    exact ih

theorem answers_subset (h : Lawful fresh log) : answers log ⊆ calls log := by
  induction h with
  | nil => exact List.Subset.refl _
  | call _ _ _ ih =>
    rw [calls_append, answers_append, answers_call, List.append_nil]
    exact List.Subset.trans ih (List.subset_append_left _ _)
  | answer _ hfind ih =>
    rw [calls_append, answers_append, calls_answer, answers_answer, List.append_nil]
    have hmem := (mem_unanswered.mp (List.mem_of_find?_eq_some hfind)).1
    exact List.append_subset.mpr ⟨ih, List.cons_subset.mpr ⟨hmem, List.nil_subset _⟩⟩

theorem answers_nodup (h : Lawful fresh log) : ((answers log).map Prod.fst).Nodup := by
  induction h with
  | nil => exact List.nodup_nil
  | call _ _ _ ih =>
    rw [answers_append, answers_call, List.append_nil]
    exact ih
  | answer _ hfind ih =>
    rw [answers_append, answers_answer, List.map_append]
    exact nodup_concat ih (mem_unanswered.mp (List.mem_of_find?_eq_some hfind)).2

/-- The ids of a lawful log depend on what was written only. -/
theorem calls_ids (h : Lawful fresh log) :
    (calls log).map Prod.fst = assignedIds fresh 0 (log.map Prod.fst) := by
  induction h with
  | nil => rfl
  | @call log given name id _ hid _ ih =>
    rw [calls_append, calls_call, List.map_append, List.map_append, ih, assignedIds_append, hid,
      Nat.zero_add]
    cases given <;> rfl
  | answer _ _ ih =>
    rw [calls_append, calls_answer, List.append_nil, List.map_append, ih, assignedIds_append]
    exact (List.append_nil _).symm

end Lawful

end CallLog

end Library
