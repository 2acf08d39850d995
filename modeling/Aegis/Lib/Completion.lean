import Mathlib.Logic.Basic

/-! How a computation ends in a language with exceptions and undefined behaviour, and
computations that also change a state and write to a log. -/

inductive Completion (ε α : Type) where
  | undefined
  | throws (e : ε)
  | returns (a : α)

namespace Completion
variable {ε ε' α β : Type}

def bind (x : Completion ε α) (f : α → Completion ε β) : Completion ε β :=
  match x with
  | undefined => undefined
  | throws e => throws e
  | returns a => f a

instance : Monad (Completion ε) where
  pure := returns
  bind := bind

def ofExcept : Except ε α → Completion ε α
  | .error e => throws e
  | .ok a => returns a

def mapError (f : ε → ε') : Completion ε α → Completion ε' α
  | undefined => undefined
  | throws e => throws (f e)
  | returns a => returns a

/-- A `try` block and a clause that catches everything. -/
def recover (handler : ε → α) : Completion ε α → Completion ε' α
  | undefined => undefined
  | throws e => returns (handler e)
  | returns a => returns a

/-- Not undefined, and what is returned satisfies `P`. -/
def Safe (P : α → Prop) : Completion ε α → Prop
  | undefined => False
  | throws _ => True
  | returns a => P a

@[simp]
theorem returns_bind (a : α) (f : α → Completion ε β) : returns a >>= f = f a := rfl

@[simp]
theorem safe_undefined (P : α → Prop) : ¬ Safe P (undefined : Completion ε α) := id

@[simp]
theorem safe_throws (P : α → Prop) (e : ε) : Safe P (throws e) := trivial

@[simp]
theorem safe_returns (P : α → Prop) (a : α) : Safe P (returns a : Completion ε α) ↔ P a := Iff.rfl

theorem safe_bind_iff (P : β → Prop) (x : Completion ε α) (f : α → Completion ε β) :
    Safe P (x >>= f) ↔ Safe (fun a => Safe P (f a)) x := by
  cases x <;> rfl

theorem safe_mapError_iff (P : α → Prop) (f : ε → ε') (x : Completion ε α) :
    Safe P (x.mapError f) ↔ Safe P x := by
  cases x <;> rfl

theorem safe_ofExcept (P : α → Prop) (x : Except ε α) :
    Safe P (ofExcept x) ↔ ∀ a, x = .ok a → P a := by
  cases x <;> simp [ofExcept]

theorem safe_iff (P : α → Prop) (x : Completion ε α) :
    Safe P x ↔ (∃ a, x = returns a ∧ P a) ∨ ∃ e, x = throws e := by
  cases x <;> simp

/-- Not undefined; what is thrown satisfies `E` and what is returned satisfies `P`. -/
def Settles (E : ε → Prop) (P : α → Prop) : Completion ε α → Prop
  | undefined => False
  | throws e => E e
  | returns a => P a

section Settles
variable {E : ε → Prop} {E' : ε' → Prop} {P : α → Prop} {Q : β → Prop}

theorem Settles.bind {x : Completion ε α} (hx : x.Settles E P) {f : α → Completion ε β}
    (hf : ∀ a, P a → (f a).Settles E Q) : (x >>= f).Settles E Q := by
  cases x with
  | undefined => exact hx
  | throws e => exact hx
  | returns a => exact hf a hx

theorem Settles.mapError {x : Completion ε α} (hx : x.Settles E P) {f : ε → ε'}
    (hf : ∀ e, E e → E' (f e)) : (x.mapError f).Settles E' P := by
  cases x with
  | undefined => exact hx
  | throws e => exact hf e hx
  | returns a => exact hx

theorem Settles.recover {x : Completion ε α} (hx : x.Settles E P) {handler : ε → α}
    (hh : ∀ e, E e → P (handler e)) : (x.recover handler : Completion ε' α).Settles E' P := by
  cases x with
  | undefined => exact hx
  | throws e => exact hh e hx
  | returns a => exact hx

theorem Settles.mono {x : Completion ε α} (hx : x.Settles E P) {P' : α → Prop}
    (h : ∀ a, P a → P' a) : x.Settles E P' := by
  cases x with
  | undefined => exact hx
  | throws e => exact hx
  | returns a => exact h a hx

theorem Settles.imp {x : Completion ε α} (hx : x.Settles E P) {F : ε → Prop} (h : ∀ e, E e → F e) :
    x.Settles F P := by
  cases x with
  | undefined => exact hx
  | throws e => exact h e hx
  | returns a => exact hx

theorem Settles.returned {x : Completion ε α} (hx : x.Settles E P) :
    x.Settles E fun a => P a ∧ x = returns a := by
  cases x with
  | undefined => exact hx
  | throws e => exact hx
  | returns a => exact ⟨hx, rfl⟩

theorem settles_false_iff {x : Completion ε α} :
    x.Settles (fun _ => False) P ↔ ∃ a, x = returns a ∧ P a := by
  cases x <;> simp [Settles]

end Settles

end Completion

structure Ending (σ ω ε α : Type) where
  state : σ
  log : List ω
  completion : Completion ε α

def Routine (σ ω ε α : Type) := σ → Ending σ ω ε α

namespace Routine
variable {σ ω ε ε' α β : Type}

/-- A computation that leaves the state and the log alone. -/
def lift (c : Completion ε α) : Routine σ ω ε α := fun s => ⟨s, [], c⟩

/-- An exception does not undo what was done before it. -/
def bind (x : Routine σ ω ε α) (f : α → Routine σ ω ε β) : Routine σ ω ε β := fun s =>
  match x s with
  | ⟨s', log, .undefined⟩ => ⟨s', log, .undefined⟩
  | ⟨s', log, .throws e⟩ => ⟨s', log, .throws e⟩
  | ⟨s', log, .returns a⟩ => ⟨(f a s').state, log ++ (f a s').log, (f a s').completion⟩

instance : Monad (Routine σ ω ε) where
  pure a := lift (.returns a)
  bind := bind

def mapCompletion (g : Completion ε α → Completion ε' β) (x : Routine σ ω ε α) : Routine σ ω ε' β :=
  fun s => ⟨(x s).state, (x s).log, g (x s).completion⟩

@[simp]
theorem lift_apply (c : Completion ε α) (s : σ) : (lift c : Routine σ ω ε α) s = ⟨s, [], c⟩ := rfl

@[simp]
theorem mapCompletion_apply (g : Completion ε α → Completion ε' β) (x : Routine σ ω ε α) (s : σ) :
    mapCompletion g x s = ⟨(x s).state, (x s).log, g (x s).completion⟩ := rfl

theorem completion_bind (x : Routine σ ω ε α) (f : α → Routine σ ω ε β) (s : σ) :
    ((x >>= f) s).completion = (x s).completion >>= fun a => (f a (x s).state).completion := by
  show (bind x f s).completion = _
  unfold bind
  rcases x s with ⟨s', log, _ | _ | _⟩ <;> rfl

theorem pure_eq (a : α) : (pure a : Routine σ ω ε α) = lift (.returns a) := rfl

@[simp]
theorem mapCompletion_lift (g : Completion ε α → Completion ε' β) (c : Completion ε α) :
    mapCompletion g (lift c : Routine σ ω ε α) = lift (g c) := rfl

theorem lift_returns_bind (a : α) (f : α → Routine σ ω ε β) : lift (.returns a) >>= f = f a := rfl

/-- From every state the computation settles, and what it logs satisfies `L`. -/
def Settles (L : List ω → Prop) (E : ε → Prop) (P : α → Prop) (x : Routine σ ω ε α) : Prop :=
  ∀ s, L (x s).log ∧ (x s).completion.Settles E P

section Settles
variable {L : List ω → Prop} {E : ε → Prop} {E' : ε' → Prop} {P : α → Prop} {Q : β → Prop}

theorem settles_lift (hnil : L []) {c : Completion ε α} (hc : c.Settles E P) :
    (lift c : Routine σ ω ε α).Settles L E P := fun _ => ⟨hnil, hc⟩

theorem Settles.bind (happend : ∀ a b, L a → L b → L (a ++ b)) {x : Routine σ ω ε α}
    (hx : x.Settles L E P) {f : α → Routine σ ω ε β} (hf : ∀ a, P a → (f a).Settles L E Q) :
    (x >>= f).Settles L E Q := by
  intro s
  have h := hx s
  show L (Routine.bind x f s).log ∧ (Routine.bind x f s).completion.Settles E Q
  unfold Routine.bind
  cases hxs : x s with
  | mk s' log c =>
    rw [hxs] at h
    obtain ⟨hlog, hc⟩ := h
    cases c with
    | undefined => exact hc.elim
    | throws e => exact ⟨hlog, hc⟩
    | returns a =>
      obtain ⟨hlog', hc'⟩ := hf a hc s'
      exact ⟨happend _ _ hlog hlog', hc'⟩

theorem Settles.mapCompletion {x : Routine σ ω ε α} (hx : x.Settles L E P)
    {g : Completion ε α → Completion ε' β} (hg : ∀ c, c.Settles E P → (g c).Settles E' Q) :
    (x.mapCompletion g).Settles L E' Q := fun s => ⟨(hx s).1, hg _ (hx s).2⟩

/-- What is returned was returned from some state. -/
theorem Settles.returned {x : Routine σ ω ε α} (hx : x.Settles L E P) :
    x.Settles L E fun a => P a ∧ ∃ s, (x s).completion = .returns a := by
  intro s
  obtain ⟨hlog, hc⟩ := hx s
  refine ⟨hlog, ?_⟩
  cases hxs : (x s).completion with
  | undefined => rw [hxs] at hc; exact hc
  | throws e => rw [hxs] at hc; exact hc
  | returns a =>
    rw [hxs] at hc
    exact ⟨hc, s, hxs⟩

end Settles

end Routine
