import Mathlib.Tactic

/-!
# Programs as trees of calls

A program that runs beside others is cut at the calls whose effects the others
can see.  It is a tree: a call, and for each answer the program that goes on
from it.  Nothing is said here about what the calls do, so that the same
program can be run alone or one call at a time between the calls of others.
-/

namespace MessageBus

/-- A program that makes the calls `Op` and ends with a value. -/
inductive Program (Op : Type) (Answer : Op → Type) (α : Type) : Type where
  | done (value : α)
  | call (op : Op) (next : Answer op → Program Op Answer α)

namespace Program

variable {Op : Type} {Answer : Op → Type} {α β : Type}

protected def bind :
    Program Op Answer α → (α → Program Op Answer β) → Program Op Answer β
  | .done value, later => later value
  | .call op next, later => .call op fun answer => (next answer).bind later

instance : Monad (Program Op Answer) where
  pure := .done
  bind := Program.bind

/-- Make one call and hand on its answer. -/
def perform (op : Op) : Program Op Answer (Answer op) := .call op .done

@[simp] theorem pure_eq (value : α) :
    (pure value : Program Op Answer α) = .done value := rfl

@[simp] theorem done_bind (value : α) (later : α → Program Op Answer β) :
    (Program.done value >>= later) = later value := rfl

@[simp] theorem call_bind
    (op : Op) (next : Answer op → Program Op Answer α)
    (later : α → Program Op Answer β) :
    (Program.call op next >>= later) =
      .call op fun answer => next answer >>= later := rfl

@[simp] theorem perform_bind
    (op : Op) (later : Answer op → Program Op Answer β) :
    (perform op >>= later) = .call op later := rfl

/-- Whatever the answers are, every call is good and the value at the end
meets `post`. -/
def Every (good : Op → Prop) (post : α → Prop) :
    Program Op Answer α → Prop
  | .done value => post value
  | .call op next => good op ∧ ∀ answer, (next answer).Every good post

section Every

variable {good : Op → Prop} {post : α → Prop} {finish : β → Prop}

@[simp] theorem every_done {value : α} :
    (Program.done value : Program Op Answer α).Every good post ↔
      post value := Iff.rfl

@[simp] theorem every_call
    {op : Op} {next : Answer op → Program Op Answer α} :
    (Program.call op next).Every good post ↔
      good op ∧ ∀ answer, (next answer).Every good post := Iff.rfl

@[simp] theorem every_perform {op : Op} {post : Answer op → Prop} :
    (perform op : Program Op Answer (Answer op)).Every good post ↔
      good op ∧ ∀ answer, post answer := Iff.rfl

@[simp] theorem every_bind
    {program : Program Op Answer α} {later : α → Program Op Answer β} :
    (program >>= later).Every good finish ↔
      program.Every good fun value => (later value).Every good finish := by
  induction program with
  | done value => exact Iff.rfl
  | call op next ih =>
      simp only [call_bind, every_call]
      exact and_congr_right fun _ => forall_congr' ih

theorem Every.mono
    {program : Program Op Answer α} {weaker : α → Prop}
    (hprogram : program.Every good post)
    (hweaker : ∀ value, post value → weaker value) :
    program.Every good weaker := by
  induction program with
  | done value => exact hweaker value hprogram
  | call op next ih =>
      exact ⟨hprogram.1, fun answer => ih answer (hprogram.2 answer)⟩

theorem Every.imp
    {program : Program Op Answer α} {weaker : Op → Prop}
    (hprogram : program.Every good post)
    (hweaker : ∀ op, good op → weaker op) :
    program.Every weaker post := by
  induction program with
  | done value => exact hprogram
  | call op next ih =>
      exact ⟨hweaker op hprogram.1,
        fun answer => ih answer (hprogram.2 answer)⟩

theorem Every.ite
    {condition : Prop} [Decidable condition]
    {first second : Program Op Answer α}
    (hfirst : condition → first.Every good post)
    (hsecond : ¬ condition → second.Every good post) :
    (if condition then first else second).Every good post := by
  split_ifs with hcondition
  · exact hfirst hcondition
  · exact hsecond hcondition

end Every

/-- Some answers lead the program to the call. -/
def MayCall (op : Op) : Program Op Answer α → Prop
  | .done _ => False
  | .call first next => first = op ∨ ∃ answer, (next answer).MayCall op

theorem Every.of_mayCall
    {good : Op → Prop} {post : α → Prop} {op : Op}
    {program : Program Op Answer α} (hprogram : program.Every good post)
    (hcall : program.MayCall op) : good op := by
  induction program with
  | done value => exact hcall.elim
  | call first next ih =>
      rcases hcall with rfl | ⟨answer, hanswer⟩
      · exact hprogram.1
      · exact ih answer (hprogram.2 answer) hanswer

end Program

end MessageBus
