import Aegis.Lib.Transducer
import Mathlib.Data.List.ReduceOption
import Mathlib.Logic.Function.Basic

/-! Families of equal components, one for each key. An event is addressed to one
key or sent to all; the family as a whole runs every component on its own events. -/
namespace Keyed

/-- An input for one key, or a broadcast. -/
inductive Event (κ ι β : Type*) where
  | at (k : κ) (i : ι)
  | all (b : β)

/-- One component: it answers its own inputs and reacts silently to broadcasts. -/
structure Component (σ ι β ο : Type*) where
  init : σ
  input : σ → ι → σ × ο
  broadcast : σ → β → σ

variable {κ σ ι β ο : Type*}

def Component.machine (C : Component σ ι β ο) : Transducer σ (ι ⊕ β) (Option ο) where
  init := C.init
  step
    | s, .inl i => ((C.input s i).1, some (C.input s i).2)
    | s, .inr b => (C.broadcast s b, none)

variable [DecidableEq κ]

/-- All components side by side. -/
def Component.family (κ : Type*) [DecidableEq κ] (C : Component σ ι β ο) :
    Transducer (κ → σ) (Event κ ι β) (Option ο) where
  init := fun _ => C.init
  step
    | f, .at k i => (Function.update f k (C.input (f k) i).1, some (C.input (f k) i).2)
    | f, .all b => (fun k => C.broadcast (f k) b, none)

def Event.seenBy (k : κ) : Event κ ι β → Option (ι ⊕ β)
  | .at k' i => if k' = k then some (.inl i) else none
  | .all b => some (.inr b)

/-- What one key sees of a sequence of events. -/
def project (k : κ) (es : List (Event κ ι β)) : List (ι ⊕ β) := es.filterMap (Event.seenBy k)

/-- The answer to an event, if the event is addressed to the key. -/
def answerAt (k : κ) : Event κ ι β × Option ο → Option ο
  | (.at k' _, o) => if k' = k then o else none
  | (.all _, _) => none

/-- The answers that the events of one key received. -/
def answersAt (k : κ) (es : List (Event κ ι β)) (os : List (Option ο)) : List ο :=
  (es.zip os).filterMap (answerAt k)

variable (C : Component σ ι β ο)

omit [DecidableEq κ] in
@[simp] theorem machine_step_inl (s : σ) (i : ι) :
    C.machine.step s (.inl i) = ((C.input s i).1, some (C.input s i).2) := rfl

@[simp] theorem family_step_at (f : κ → σ) (k : κ) (i : ι) :
    (C.family κ).step f (.at k i) =
      (Function.update f k (C.input (f k) i).1, some (C.input (f k) i).2) := rfl

@[simp] theorem project_at (k k' : κ) (i : ι) (es : List (Event κ ι β)) :
    project k (.at k' i :: es) = if k' = k then .inl i :: project k es else project k es := by
  by_cases hk : k' = k <;> simp [project, Event.seenBy, hk]

@[simp] theorem project_all (k : κ) (b : β) (es : List (Event κ ι β)) :
    project k (.all b :: es) = .inr b :: project k es := rfl

@[simp] theorem answersAt_nil (k : κ) (os : List (Option ο)) :
    answersAt k ([] : List (Event κ ι β)) os = [] := rfl

@[simp] theorem answersAt_at (k k' : κ) (i : ι) (es : List (Event κ ι β)) (o : Option ο)
    (os : List (Option ο)) :
    answersAt k (.at k' i :: es) (o :: os) =
      if k' = k then o.toList ++ answersAt k es os else answersAt k es os := by
  by_cases hk : k' = k <;> cases o <;> simp [answersAt, answerAt, hk]

@[simp] theorem answersAt_all (k : κ) (b : β) (es : List (Event κ ι β)) (o : Option ο)
    (os : List (Option ο)) : answersAt k (.all b :: es) (o :: os) = answersAt k es os := rfl

/-- Inside the family every component is where its own machine is after the
events the key saw. -/
theorem family_after (k : κ) (f : κ → σ) (es : List (Event κ ι β)) :
    (C.family κ).after f es k = C.machine.after (f k) (project k es) := by
  induction es generalizing f with
  | nil => rfl
  | cons e es ih =>
    cases e with
    | «at» k' i =>
      simp only [Transducer.after_cons, ih, family_step_at, project_at]
      by_cases hk : k' = k
      · subst hk
        simp only [if_true, Function.update_self, Transducer.after_cons, machine_step_inl]
      · rw [if_neg hk, Function.update_of_ne (Ne.symm hk)]
    | all b => rw [Transducer.after_cons, ih, project_all]; rfl

/-- The answers the events of one key receive are those of its own machine. -/
theorem family_outputs (k : κ) (f : κ → σ) (es : List (Event κ ι β)) :
    answersAt k es ((C.family κ).outputs f es) =
      (C.machine.outputs (f k) (project k es)).reduceOption := by
  induction es generalizing f with
  | nil => rfl
  | cons e es ih =>
    cases e with
    | «at» k' i =>
      simp only [Transducer.outputs_cons, answersAt_at, ih, family_step_at, project_at]
      by_cases hk : k' = k
      · subst hk
        simp only [if_true, Function.update_self, Transducer.outputs_cons, machine_step_inl]
        rfl
      · rw [if_neg hk, if_neg hk, Function.update_of_ne (Ne.symm hk)]
    | all b =>
      rw [Transducer.outputs_cons, answersAt_all, ih, project_all]
      rfl

end Keyed
