import Mathlib.Algebra.BigOperators.Group.Finset.Basic
import Mathlib.Algebra.Order.Group.Multiset
import Mathlib.Data.Fintype.Basic
import Mathlib.Data.List.Perm.Basic
import Mathlib.Tactic.Abel

/-! Messages that are sent to boxes. A box stands at a site under an address; it has a queue of
bounded length, and what finds the queue full waits beside it. A message may be put into a
box at once or travel to the site first. -/
namespace Mailbox

/-- A box: its queue, and the messages that wait for room. -/
structure Box (μ : Type*) where
  queue : List μ := []
  waiting : List μ := []

/-- A message on its way to a site. -/
structure Parcel (κ α μ : Type*) where
  site : κ
  address : α
  message : μ

/-- The boxes, the messages on their way, what was taken from the boxes of an address, in
order, and what was lost. -/
structure Network (κ α μ : Type*) where
  boxes : κ → α → Option (Box μ) := fun _ _ => none
  inFlight : List (Parcel κ α μ) := []
  taken : α → List μ := fun _ => []
  lost : α → Multiset μ := fun _ => 0

inductive Op (κ α μ : Type*) where
  | create (k : κ) (a : α)
  | put (p : Parcel κ α μ)
  | launch (p : Parcel κ α μ)
  | arrive (i : ℕ)
  | take (k : κ) (a : α)
  | accept (k : κ) (a : α) (i : ℕ)
  | abandon (k : κ) (a : α) (i : ℕ)
  | close (k : κ) (a : α)
  | closeAll (k : κ)

variable {κ α μ : Type*} [DecidableEq κ] [DecidableEq α]

def Box.put (capacity : ℕ) (b : Box μ) (m : μ) : Box μ :=
  if b.queue.length < capacity then { b with queue := b.queue ++ [m] }
  else { b with waiting := b.waiting ++ [m] }

def contents : Option (Box μ) → Multiset μ
  | none => 0
  | some b => (b.queue : Multiset μ) + b.waiting

namespace Network
variable (n : Network κ α μ)

def setBox (k : κ) (a : α) (b : Option (Box μ)) : Network κ α μ :=
  { n with boxes := Function.update n.boxes k (Function.update (n.boxes k) a b) }

def lose (a : α) (ms : Multiset μ) : Network κ α μ :=
  { n with lost := Function.update n.lost a (n.lost a + ms) }

/-- A message for a box that is not there is lost. -/
def put (capacity : ℕ) (p : Parcel κ α μ) : Network κ α μ :=
  match n.boxes p.site p.address with
  | none => n.lose p.address {p.message}
  | some b => n.setBox p.site p.address (some (b.put capacity p.message))

def arrive (capacity i : ℕ) : Network κ α μ :=
  match n.inFlight[i]? with
  | none => n
  | some p => put { n with inFlight := n.inFlight.eraseIdx i } capacity p

def take (k : κ) (a : α) : Network κ α μ :=
  match n.boxes k a with
  | some ⟨m :: queue, waiting⟩ =>
    { n.setBox k a (some ⟨queue, waiting⟩) with
      taken := Function.update n.taken a (n.taken a ++ [m]) }
  | _ => n

def accept (capacity : ℕ) (k : κ) (a : α) (i : ℕ) : Network κ α μ :=
  match n.boxes k a with
  | none => n
  | some b =>
    match b.waiting[i]? with
    | none => n
    | some m =>
      if b.queue.length < capacity then n.setBox k a (some ⟨b.queue ++ [m], b.waiting.eraseIdx i⟩)
      else n

def abandon (k : κ) (a : α) (i : ℕ) : Network κ α μ :=
  match n.boxes k a with
  | none => n
  | some b =>
    match b.waiting[i]? with
    | none => n
    | some m => (n.setBox k a (some ⟨b.queue, b.waiting.eraseIdx i⟩)).lose a {m}

def close (k : κ) (a : α) : Network κ α μ := (n.setBox k a none).lose a (contents (n.boxes k a))

def closeAll (k : κ) : Network κ α μ :=
  { n with
    boxes := Function.update n.boxes k fun _ => none
    lost := fun a => n.lost a + contents (n.boxes k a) }

def step (capacity : ℕ) : Op κ α μ → Network κ α μ
  | .create k a => n.setBox k a (some {})
  | .put p => n.put capacity p
  | .launch p => { n with inFlight := n.inFlight ++ [p] }
  | .arrive i => n.arrive capacity i
  | .take k a => n.take k a
  | .accept k a i => n.accept capacity k a i
  | .abandon k a i => n.abandon k a i
  | .close k a => n.close k a
  | .closeAll k => n.closeAll k

end Network

namespace Network
variable {n : Network κ α μ} {k k' : κ} {a a' : α}

theorem boxes_setBox (n : Network κ α μ) (k k' : κ) (a a' : α) (b : Option (Box μ)) :
    (n.setBox k a b).boxes k' a' = if k' = k ∧ a' = a then b else n.boxes k' a' := by
  unfold setBox
  dsimp only
  by_cases hk : k' = k
  · subst hk
    rw [Function.update_self, Function.update_apply]
    by_cases ha : a' = a <;> simp [ha]
  · rw [Function.update_of_ne hk]
    simp [hk]

theorem isSome_boxes_setBox {b : Option (Box μ)} (hb : b.isSome → (n.boxes k' a').isSome)
    (h : ((n.setBox k' a' b).boxes k a).isSome) : (n.boxes k a).isSome := by
  rw [boxes_setBox] at h
  split_ifs at h with heq
  · rw [heq.1, heq.2]
    exact hb h
  · exact h

theorem isSome_boxes_put {capacity : ℕ} {p : Parcel κ α μ}
    (h : ((n.put capacity p).boxes k a).isSome) : (n.boxes k a).isSome := by
  unfold put at h
  cases hbox : n.boxes p.site p.address with
  | none =>
    rw [hbox] at h
    exact h
  | some b =>
    rw [hbox] at h
    exact isSome_boxes_setBox (fun _ => Option.isSome_of_eq_some hbox) h

/-- A box is there only if it was there before or is created. -/
theorem isSome_boxes_step {capacity : ℕ} {op : Op κ α μ}
    (h : ((n.step capacity op).boxes k a).isSome) : (n.boxes k a).isSome ∨ op = .create k a := by
  cases op with
  | create k' a' =>
    replace h : ((n.setBox k' a' (some {})).boxes k a).isSome := h
    rw [boxes_setBox] at h
    split_ifs at h with heq
    · exact Or.inr (by rw [heq.1, heq.2])
    · exact Or.inl h
  | put p => exact Or.inl (isSome_boxes_put h)
  | launch p => exact Or.inl h
  | arrive i =>
    replace h : ((n.arrive capacity i).boxes k a).isSome := h
    unfold arrive at h
    split at h
    · exact Or.inl h
    · have hput := isSome_boxes_put h
      exact Or.inl hput
  | take k' a' =>
    replace h : ((n.take k' a').boxes k a).isSome := h
    unfold take at h
    split at h
    · next hbox => exact Or.inl (isSome_boxes_setBox (fun _ => Option.isSome_of_eq_some hbox) h)
    · exact Or.inl h
  | accept k' a' i =>
    replace h : ((n.accept capacity k' a' i).boxes k a).isSome := h
    unfold accept at h
    split at h
    · exact Or.inl h
    · next hbox =>
      split at h
      · exact Or.inl h
      · split_ifs at h
        · exact Or.inl (isSome_boxes_setBox (fun _ => Option.isSome_of_eq_some hbox) h)
        · exact Or.inl h
  | abandon k' a' i =>
    replace h : ((n.abandon k' a' i).boxes k a).isSome := h
    unfold abandon at h
    split at h
    · exact Or.inl h
    · next hbox =>
      split at h
      · exact Or.inl h
      · exact Or.inl (isSome_boxes_setBox (fun _ => Option.isSome_of_eq_some hbox) h)
  | close k' a' => exact Or.inl (isSome_boxes_setBox (b := none) (fun h => by cases h) h)
  | closeAll k' =>
    replace h : (Function.update n.boxes k' (fun _ => none) k a).isSome := h
    rw [Function.update_apply] at h
    split_ifs at h
    · cases h
    · exact Or.inl h

end Network

/-! Nothing is duplicated, and nothing disappears without being counted as lost. -/

/-- The messages an operation sends to an address. -/
def Op.sent (a : α) : Op κ α μ → Multiset μ
  | .put p | .launch p => if a = p.address then {p.message} else 0
  | _ => 0

/-- The messages for an address among those on their way. -/
def travelling (a : α) (ps : List (Parcel κ α μ)) : Multiset μ :=
  ((ps.filter fun p => a = p.address).map Parcel.message : List μ)

namespace Network
variable [Fintype κ] (n : Network κ α μ)

/-- Where the messages for an address are. -/
def account (a : α) : Multiset μ :=
  (n.taken a : Multiset μ) + ∑ k, contents (n.boxes k a) + travelling a n.inFlight + n.lost a

theorem sum_setBox (k : κ) (a a' : α) (b : Option (Box μ)) :
    (∑ j, contents ((n.setBox k a b).boxes j a')) + (if a' = a then contents (n.boxes k a) else 0) =
      (∑ j, contents (n.boxes j a')) + (if a' = a then contents b else 0) := by
  by_cases ha : a' = a
  · subst ha
    rw [if_pos rfl, if_pos rfl, ← Finset.add_sum_erase _ _ (Finset.mem_univ k),
      ← Finset.add_sum_erase _ (fun j => contents (n.boxes j a')) (Finset.mem_univ k)]
    have hrest : ∀ j ∈ Finset.univ.erase k,
        contents ((n.setBox k a' b).boxes j a') = contents (n.boxes j a') := by
      intro j hj
      rw [boxes_setBox, if_neg fun h => Finset.ne_of_mem_erase hj h.1]
    rw [Finset.sum_congr rfl hrest, boxes_setBox, if_pos ⟨rfl, rfl⟩]
    abel
  · rw [if_neg ha, if_neg ha]
    have hsame : ∀ j ∈ Finset.univ,
        contents ((n.setBox k a b).boxes j a') = contents (n.boxes j a') := by
      intro j _
      rw [boxes_setBox, if_neg fun h => ha h.2]
    rw [Finset.sum_congr rfl hsame]

theorem account_setBox (k : κ) (a a' : α) (b : Option (Box μ)) :
    (n.setBox k a b).account a' + (if a' = a then contents (n.boxes k a) else 0) =
      n.account a' + (if a' = a then contents b else 0) := by
  have hsum := n.sum_setBox k a a' b
  have htaken : (n.setBox k a b).taken = n.taken := rfl
  have hflight : (n.setBox k a b).inFlight = n.inFlight := rfl
  have hlost : (n.setBox k a b).lost = n.lost := rfl
  unfold account
  rw [htaken, hflight, hlost, add_right_comm, add_right_comm _ _ (ite _ _ _), add_assoc _ (∑ _, _),
    hsum]
  abel

omit [DecidableEq κ] in
theorem account_lose (a a' : α) (ms : Multiset μ) :
    (n.lose a ms).account a' = n.account a' + if a' = a then ms else 0 := by
  unfold account lose
  dsimp only
  rw [Function.update_apply]
  split_ifs with ha
  · rw [ha, add_assoc _ (n.lost a)]
  · rw [add_zero]

end Network

omit [DecidableEq κ] in
theorem travelling_append (a : α) (ps : List (Parcel κ α μ)) (p : Parcel κ α μ) :
    travelling a (ps ++ [p]) = travelling a ps + if a = p.address then {p.message} else 0 := by
  unfold travelling
  by_cases ha : a = p.address
  · rw [List.filter_append, List.map_append, ← Multiset.coe_add, if_pos ha]
    simp [ha]
  · simp [ha]

omit [DecidableEq κ] in
theorem travelling_eraseIdx (a : α) {ps : List (Parcel κ α μ)} {i : ℕ} {p : Parcel κ α μ}
    (h : ps[i]? = some p) :
    travelling a (ps.eraseIdx i) + (if a = p.address then {p.message} else 0) = travelling a ps := by
  obtain ⟨hi, rfl⟩ := List.getElem?_eq_some_iff.mp h
  have hperm := List.getElem_cons_eraseIdx_perm hi
  unfold travelling
  rw [← Multiset.coe_eq_coe.mpr ((hperm.filter fun p => a = p.address).map Parcel.message)]
  by_cases ha : a = ps[i].address
  · rw [if_pos ha, List.filter_cons_of_pos (by simpa using ha), List.map_cons, ← Multiset.cons_coe,
      ← Multiset.singleton_add, add_comm]
  · simp [ha]

namespace Network
variable [Fintype κ] (n : Network κ α μ)

theorem contents_put (capacity : ℕ) (b : Box μ) (m : μ) :
    contents (some (b.put capacity m)) = contents (some b) + {m} := by
  unfold Box.put contents
  split_ifs
  · dsimp only
    rw [← Multiset.coe_add, add_right_comm]
    rfl
  · dsimp only
    rw [← Multiset.coe_add, add_assoc]
    rfl

theorem account_put (capacity : ℕ) (p : Parcel κ α μ) (a : α) :
    (n.put capacity p).account a = n.account a + if a = p.address then {p.message} else 0 := by
  unfold put
  cases hbox : n.boxes p.site p.address with
  | none => exact n.account_lose _ _ _
  | some b =>
    have h := n.account_setBox p.site p.address a (some (b.put capacity p.message))
    rw [hbox, contents_put] at h
    dsimp only
    split_ifs at h ⊢ with ha
    · rw [← add_assoc, add_right_comm] at h
      exact add_right_cancel h
    · exact (add_right_cancel h).trans (add_zero _).symm

theorem account_arrive (capacity i : ℕ) (a : α) : (n.arrive capacity i).account a = n.account a := by
  unfold arrive
  cases hget : n.inFlight[i]? with
  | none => rfl
  | some p =>
    dsimp only
    rw [account_put]
    unfold account
    dsimp only
    rw [← travelling_eraseIdx a hget]
    abel

theorem account_take (k : κ) (a a' : α) : (n.take k a).account a' = n.account a' := by
  unfold take
  rcases hbox : n.boxes k a with _ | ⟨_ | ⟨m, queue⟩, waiting⟩
  · rfl
  · rfl
  · have h := n.account_setBox k a a' (some ⟨queue, waiting⟩)
    have htaken : (n.setBox k a (some ⟨queue, waiting⟩)).taken = n.taken := rfl
    rw [hbox] at h
    unfold account at h ⊢
    dsimp only at h ⊢
    rw [htaken] at h
    split_ifs at h with ha
    · subst ha
      rw [Function.update_self, ← Multiset.coe_add]
      have hcons : contents (some (⟨m :: queue, waiting⟩ : Box μ)) =
          {m} + contents (some ⟨queue, waiting⟩) := by
        unfold contents
        dsimp only
        rw [← Multiset.cons_coe, ← Multiset.singleton_add, add_assoc]
      rw [hcons, ← add_assoc] at h
      have h' := add_right_cancel h
      rw [← h', Multiset.coe_singleton]
      abel
    · rw [Function.update_of_ne ha]
      exact add_right_cancel h

/-- A message that leaves the waiting ones. -/
theorem contents_eraseIdx {queue waiting : List μ} {i : ℕ} {m : μ} (h : waiting[i]? = some m) :
    contents (some ⟨queue, waiting.eraseIdx i⟩) + {m} = contents (some ⟨queue, waiting⟩) := by
  obtain ⟨hi, rfl⟩ := List.getElem?_eq_some_iff.mp h
  unfold contents
  dsimp only
  rw [← Multiset.coe_eq_coe.mpr (List.getElem_cons_eraseIdx_perm hi), ← Multiset.cons_coe,
    ← Multiset.singleton_add]
  abel

theorem account_accept (capacity : ℕ) (k : κ) (a : α) (i : ℕ) (a' : α) :
    (n.accept capacity k a i).account a' = n.account a' := by
  unfold accept
  cases hbox : n.boxes k a with
  | none => rfl
  | some b =>
    dsimp only
    cases hget : b.waiting[i]? with
    | none => rfl
    | some m =>
      dsimp only
      split_ifs
      · have h := n.account_setBox k a a' (some ⟨b.queue ++ [m], b.waiting.eraseIdx i⟩)
        have hcontents : contents (some ⟨b.queue ++ [m], b.waiting.eraseIdx i⟩) =
            contents (n.boxes k a) := by
          rw [hbox, ← contents_eraseIdx hget]
          unfold contents
          dsimp only
          rw [← Multiset.coe_add, Multiset.coe_singleton]
          abel
        rw [hcontents] at h
        exact add_right_cancel h
      · rfl

theorem account_abandon (k : κ) (a : α) (i : ℕ) (a' : α) :
    (n.abandon k a i).account a' = n.account a' := by
  unfold abandon
  cases hbox : n.boxes k a with
  | none => rfl
  | some b =>
    dsimp only
    cases hget : b.waiting[i]? with
    | none => rfl
    | some m =>
      have h := n.account_setBox k a a' (some ⟨b.queue, b.waiting.eraseIdx i⟩)
      rw [hbox, ← contents_eraseIdx hget] at h
      dsimp only
      rw [account_lose]
      split_ifs at h ⊢ with ha
      · rw [← add_assoc, add_right_comm] at h
        exact add_right_cancel h
      · rw [add_zero]
        exact add_right_cancel h

theorem account_close (k : κ) (a a' : α) : (n.close k a).account a' = n.account a' := by
  have h := n.account_setBox k a a' none
  unfold close
  rw [account_lose, h]
  split_ifs
  · exact add_zero _
  · exact add_zero _

theorem account_closeAll (k : κ) (a : α) : (n.closeAll k).account a = n.account a := by
  have hrest : ∀ j ∈ Finset.univ.erase k,
      contents (Function.update n.boxes k (fun _ => none) j a) = contents (n.boxes j a) := by
    intro j hj
    rw [Function.update_of_ne (Finset.ne_of_mem_erase hj)]
  unfold account closeAll
  dsimp only
  rw [← Finset.add_sum_erase _ _ (Finset.mem_univ k), Finset.sum_congr rfl hrest,
    ← Finset.add_sum_erase _ (fun j => contents (n.boxes j a)) (Finset.mem_univ k),
    Function.update_self]
  show _ + (0 + _) + _ + _ = _
  abel

omit [DecidableEq κ] in
theorem mem_account_of_mem_box {k : κ} {a : α} {b : Box μ} (hbox : n.boxes k a = some b) {m : μ}
    (hm : m ∈ b.queue) : m ∈ n.account a := by
  have hsum : m ∈ ∑ k, contents (n.boxes k a) := by
    refine Multiset.mem_sum.mpr ⟨k, Finset.mem_univ k, ?_⟩
    rw [hbox]
    exact Multiset.mem_add.mpr (Or.inl hm)
  unfold account
  simp only [Multiset.mem_add]
  exact Or.inl (Or.inl (Or.inr hsum))

omit [DecidableEq κ] in
/-- Of an address to which nothing was ever sent, nothing is anywhere. -/
theorem eq_zero_of_account {a : α} (h : n.account a = 0) :
    n.taken a = [] ∧ (∀ p ∈ n.inFlight, p.address ≠ a) ∧ n.lost a = 0 := by
  have hlost : n.lost a ≤ n.account a := Multiset.le_add_left _ _
  have htravelling : travelling a n.inFlight ≤ n.account a :=
    (Multiset.le_add_left _ _).trans (Multiset.le_add_right _ _)
  have htaken : (n.taken a : Multiset μ) ≤ n.account a :=
    ((Multiset.le_add_right _ _).trans (Multiset.le_add_right _ _)).trans (Multiset.le_add_right _ _)
  rw [h, Multiset.le_zero] at hlost htravelling htaken
  refine ⟨(Multiset.coe_eq_zero _).mp htaken, fun p hp ha => ?_, hlost⟩
  have hmem : p.message ∈ travelling a n.inFlight :=
    List.mem_map_of_mem (List.mem_filter.mpr ⟨hp, by simpa using ha.symm⟩)
  rw [htravelling] at hmem
  exact Multiset.notMem_zero _ hmem

/-- An operation adds what it sends; a box is created where there is none. -/
theorem account_step (capacity : ℕ) (op : Op κ α μ)
    (hcreate : ∀ k a, op = .create k a → n.boxes k a = none) (a : α) :
    (n.step capacity op).account a = n.account a + op.sent a := by
  cases op with
  | create k a' =>
    have h := n.account_setBox k a' a (some {})
    rw [hcreate k a' rfl] at h
    have hempty : contents (some ({} : Box μ)) = contents none := rfl
    rw [hempty] at h
    exact (add_right_cancel h).trans (add_zero _).symm
  | put p => exact n.account_put capacity p a
  | launch p =>
    show account { n with inFlight := n.inFlight ++ [p] } a = _
    unfold account
    dsimp only
    rw [travelling_append]
    show _ = _ + ite _ _ _
    abel
  | arrive i => exact (n.account_arrive capacity i a).trans (add_zero _).symm
  | take k a' => exact (n.account_take k a' a).trans (add_zero _).symm
  | accept k a' i => exact (n.account_accept capacity k a' i a).trans (add_zero _).symm
  | abandon k a' i => exact (n.account_abandon k a' i a).trans (add_zero _).symm
  | close k a' => exact (n.account_close k a' a).trans (add_zero _).symm
  | closeAll k => exact (n.account_closeAll k a).trans (add_zero _).symm

end Network

/-! A box that stays open loses nothing. -/

/-- The operation leaves the box open, throws nothing of it away, and sends what it sends to
its address to its site. -/
def Op.Keeps (k : κ) (a : α) : Op κ α μ → Prop
  | .create _ a' => a' ≠ a
  | .put p | .launch p => p.address = a → p.site = k
  | .abandon k' a' _ | .close k' a' => a' = a → k' ≠ k
  | .closeAll k' => k' ≠ k
  | _ => True

namespace Network
variable (n : Network κ α μ)

/-- The box is open, it is the only one of its address, and what is on its way to the
address is on its way to it. -/
structure Live (k : κ) (a : α) : Prop where
  box : (n.boxes k a).isSome
  alone : ∀ k', k' ≠ k → n.boxes k' a = none
  routed : ∀ p ∈ n.inFlight, p.address = a → p.site = k

variable {n} {k : κ} {a : α}

theorem Live.setBox (h : n.Live k a) {k' : κ} {a' : α} {b : Option (Box μ)}
    (hsome : a' = a → k' = k → b.isSome) (hnone : a' = a → k' ≠ k → b = none) :
    (n.setBox k' a' b).Live k a where
  box := by
    rw [boxes_setBox]
    split_ifs with heq
    · exact hsome heq.2.symm heq.1.symm
    · exact h.box
  alone j hj := by
    rw [boxes_setBox]
    split_ifs with heq
    · exact hnone heq.2.symm (heq.1 ▸ hj)
    · exact h.alone j hj
  routed := h.routed

omit [DecidableEq κ] in
theorem Live.lose (h : n.Live k a) (a' : α) (ms : Multiset μ) : (n.lose a' ms).Live k a :=
  ⟨h.box, h.alone, h.routed⟩

omit [DecidableEq κ] in
theorem lost_lose_of_ne {a' : α} (ha : a' ≠ a) (ms : Multiset μ) : (n.lose a' ms).lost a = n.lost a :=
  Function.update_of_ne ha.symm _ _

omit [DecidableEq κ] [DecidableEq α] in
/-- A box of the address is the box itself. -/
theorem Live.site_eq (h : n.Live k a) {k' : κ} {b : Box μ} (hbox : n.boxes k' a = some b) : k' = k := by
  by_contra hk
  rw [h.alone k' hk] at hbox
  cases hbox

theorem Live.setOwn (h : n.Live k a) {k' : κ} {a' : α} {b : Box μ}
    (hbox : n.boxes k' a' = some b) (b' : Box μ) : (n.setBox k' a' (some b')).Live k a := by
  apply h.setBox
  · exact fun _ _ => rfl
  · rintro rfl hk
    exact absurd (h.site_eq hbox) hk

theorem Live.put (h : n.Live k a) (capacity : ℕ) {p : Parcel κ α μ}
    (hp : p.address = a → p.site = k) :
    (n.put capacity p).Live k a ∧ (n.put capacity p).lost a = n.lost a := by
  unfold Network.put
  cases hbox : n.boxes p.site p.address with
  | some b => exact ⟨h.setOwn hbox _, rfl⟩
  | none =>
    have ha : p.address ≠ a := by
      intro ha
      have hsome := h.box
      rw [← hp ha, ← ha, hbox] at hsome
      cases hsome
    exact ⟨h.lose _ _, lost_lose_of_ne ha _⟩

/-- What keeps the box keeps it live, and what is lost of its address does not grow. -/
theorem Live.step (h : n.Live k a) (capacity : ℕ) {op : Op κ α μ} (hop : op.Keeps k a) :
    (n.step capacity op).Live k a ∧ (n.step capacity op).lost a = n.lost a := by
  cases op with
  | create k' a' => exact ⟨h.setBox (fun ha => absurd ha hop) fun ha => absurd ha hop, rfl⟩
  | put p => exact h.put capacity hop
  | launch p =>
    refine ⟨⟨h.box, h.alone, ?_⟩, rfl⟩
    intro q hq
    rcases List.mem_append.mp hq with hq | hq
    · exact h.routed q hq
    · rw [List.mem_singleton.mp hq]
      exact hop
  | arrive i =>
    show (n.arrive capacity i).Live k a ∧ (n.arrive capacity i).lost a = n.lost a
    unfold arrive
    cases hget : n.inFlight[i]? with
    | none => exact ⟨h, rfl⟩
    | some p =>
      have hrest : Live { n with inFlight := n.inFlight.eraseIdx i } k a :=
        ⟨h.box, h.alone, fun q hq => h.routed q (List.mem_of_mem_eraseIdx hq)⟩
      exact hrest.put capacity (h.routed p (List.mem_of_getElem? hget))
  | take k' a' =>
    show (n.take k' a').Live k a ∧ (n.take k' a').lost a = n.lost a
    unfold take
    rcases hbox : n.boxes k' a' with _ | ⟨_ | ⟨m, queue⟩, waiting⟩
    · exact ⟨h, rfl⟩
    · exact ⟨h, rfl⟩
    · obtain ⟨hopen, halone, hrouted⟩ := h.setOwn hbox ⟨queue, waiting⟩
      exact ⟨⟨hopen, halone, hrouted⟩, rfl⟩
  | accept k' a' i =>
    show (n.accept capacity k' a' i).Live k a ∧ (n.accept capacity k' a' i).lost a = n.lost a
    unfold accept
    cases hbox : n.boxes k' a' with
    | none => exact ⟨h, rfl⟩
    | some b =>
      dsimp only
      cases b.waiting[i]? with
      | none => exact ⟨h, rfl⟩
      | some m =>
        dsimp only
        split_ifs
        · exact ⟨h.setOwn hbox _, rfl⟩
        · exact ⟨h, rfl⟩
  | abandon k' a' i =>
    show (n.abandon k' a' i).Live k a ∧ (n.abandon k' a' i).lost a = n.lost a
    unfold abandon
    cases hbox : n.boxes k' a' with
    | none => exact ⟨h, rfl⟩
    | some b =>
      dsimp only
      cases b.waiting[i]? with
      | none => exact ⟨h, rfl⟩
      | some m =>
        have ha : a' ≠ a := by
          rintro rfl
          exact hop rfl (h.site_eq hbox)
        exact ⟨(h.setOwn hbox _).lose _ _, lost_lose_of_ne ha _⟩
  | close k' a' =>
    show (n.close k' a').Live k a ∧ (n.close k' a').lost a = n.lost a
    unfold close
    constructor
    · exact (h.setBox (fun ha hk => absurd hk (hop ha)) fun _ _ => rfl).lose _ _
    · by_cases ha : a' = a
      · rw [ha, h.alone k' (hop ha)]
        show Function.update n.lost a (n.lost a + 0) a = n.lost a
        rw [Function.update_self, add_zero]
      · exact lost_lose_of_ne ha _
  | closeAll k' =>
    show (n.closeAll k').Live k a ∧ (n.closeAll k').lost a = n.lost a
    have hk : k' ≠ k := hop
    unfold closeAll
    refine ⟨⟨?_, fun j hj => ?_, h.routed⟩, ?_⟩
    · show (Function.update n.boxes k' _ k a).isSome
      rw [Function.update_of_ne hk.symm]
      exact h.box
    · show Function.update n.boxes k' _ j a = none
      rw [Function.update_apply]
      split_ifs
      · rfl
      · exact h.alone j hj
    · show n.lost a + contents (n.boxes k' a) = n.lost a
      rw [h.alone k' hk]
      exact add_zero _

end Network

omit [DecidableEq κ] in
/-- All messages of the address are popped, in the box, travelling or lost. -/
theorem Network.Live.account_eq [Fintype κ] {n : Network κ α μ} {k : κ} {a : α} (h : n.Live k a) :
    n.account a = (n.taken a : Multiset μ) + contents (n.boxes k a) + travelling a n.inFlight + n.lost a := by
  have hsum : ∑ k', contents (n.boxes k' a) = contents (n.boxes k a) := by
    apply Finset.sum_eq_single k
    · intro k' _ hk
      rw [h.alone k' hk]
      rfl
    · exact fun hk => absurd (Finset.mem_univ k) hk
  unfold account
  rw [hsum]

/-! A box that nothing travels to and that never fills up is emptied in the order in which it
was filled. -/

/-- What an operation puts into the boxes of an address at once. -/
def Op.handed (a : α) : Op κ α μ → List μ
  | .put p => if p.address = a then [p.message] else []
  | _ => []

namespace Network
variable (n : Network κ α μ)

structure InOrder (k : κ) (a : α) (ms : List μ) : Prop where
  live : n.Live k a
  direct : ∀ p ∈ n.inFlight, p.address ≠ a
  queued : ∃ queue, n.boxes k a = some ⟨queue, []⟩ ∧ n.taken a ++ queue = ms

variable {n} {k : κ} {a : α} {ms : List μ}

theorem boxes_setBox_of_ne {k' : κ} {a' : α} (h : a' = a → k' ≠ k) (b : Option (Box μ)) :
    (n.setBox k' a' b).boxes k a = n.boxes k a := by
  rw [boxes_setBox, if_neg fun heq => h heq.2.symm heq.1.symm]

theorem put_of_ne (capacity : ℕ) {p : Parcel κ α μ} (ha : p.address ≠ a) :
    (n.put capacity p).boxes k a = n.boxes k a ∧ (n.put capacity p).taken = n.taken := by
  unfold put
  cases n.boxes p.site p.address with
  | none => exact ⟨rfl, rfl⟩
  | some b => exact ⟨boxes_setBox_of_ne (fun h => absurd h ha) _, rfl⟩

theorem put_of_eq {capacity : ℕ} {p : Parcel κ α μ} {queue : List μ}
    (hbox : n.boxes p.site p.address = some ⟨queue, []⟩) (hroom : queue.length < capacity) :
    n.put capacity p = n.setBox p.site p.address (some ⟨queue ++ [p.message], []⟩) := by
  unfold put Box.put
  rw [hbox]
  dsimp only
  rw [if_pos hroom]

variable (n) in
theorem inFlight_put (capacity : ℕ) (p : Parcel κ α μ) : (n.put capacity p).inFlight = n.inFlight := by
  unfold put
  cases n.boxes p.site p.address <;> rfl

/-- The queue and what was taken, after an operation that sends nothing on a journey. -/
theorem InOrder.queued_step (h : n.InOrder k a ms) (capacity : ℕ) {op : Op κ α μ}
    (hop : op.Keeps k a)
    (hroom : ∀ p b, op = .put p → p.address = a → n.boxes k a = some b → b.queue.length < capacity) :
    ∃ queue, (n.step capacity op).boxes k a = some ⟨queue, []⟩ ∧
      (n.step capacity op).taken a ++ queue = ms ++ op.handed a := by
  obtain ⟨queue, hbox, htaken⟩ := h.queued
  have hsame : ∃ queue, n.boxes k a = some ⟨queue, []⟩ ∧ n.taken a ++ queue = ms ++ [] :=
    ⟨queue, hbox, by rw [htaken, List.append_nil]⟩
  cases op with
  | create k' a' =>
    show ∃ queue, (n.setBox k' a' (some {})).boxes k a = some ⟨queue, []⟩ ∧ _
    rw [boxes_setBox_of_ne fun ha => absurd ha hop]
    exact hsame
  | put p =>
    show ∃ queue, (n.put capacity p).boxes k a = some ⟨queue, []⟩ ∧
      (n.put capacity p).taken a ++ queue = ms ++ ite _ _ _
    split_ifs with ha
    · obtain ⟨site, address, m⟩ := p
      obtain rfl : address = a := ha
      obtain rfl : site = k := hop rfl
      rw [put_of_eq hbox (hroom _ _ rfl rfl hbox), boxes_setBox, if_pos ⟨rfl, rfl⟩]
      refine ⟨_, rfl, ?_⟩
      rw [← htaken, ← List.append_assoc]
      rfl
    · obtain ⟨hboxes, htakes⟩ := put_of_ne (n := n) (k := k) capacity ha
      rw [hboxes, htakes]
      exact hsame
  | launch p => exact hsame
  | arrive i =>
    show ∃ queue, (n.arrive capacity i).boxes k a = some ⟨queue, []⟩ ∧
      (n.arrive capacity i).taken a ++ queue = ms ++ []
    unfold arrive
    cases hget : n.inFlight[i]? with
    | none => exact hsame
    | some p =>
      have ha : p.address ≠ a := h.direct p (List.mem_of_getElem? hget)
      obtain ⟨hboxes, htakes⟩ := put_of_ne (n := { n with inFlight := n.inFlight.eraseIdx i })
        (k := k) capacity ha
      dsimp only
      rw [hboxes, htakes]
      exact hsame
  | take k' a' =>
    show ∃ queue, (n.take k' a').boxes k a = some ⟨queue, []⟩ ∧
      (n.take k' a').taken a ++ queue = ms ++ []
    unfold take
    rcases hother : n.boxes k' a' with _ | ⟨_ | ⟨m, rest⟩, waiting⟩
    · exact hsame
    · exact hsame
    · by_cases ha : a' = a
      · subst ha
        obtain rfl := h.live.site_eq hother
        rw [hbox] at hother
        obtain ⟨rfl, rfl⟩ := Box.mk.inj (Option.some.inj hother)
        refine ⟨rest, ?_, ?_⟩
        · show (n.setBox k' a' _).boxes k' a' = _
          rw [boxes_setBox, if_pos ⟨rfl, rfl⟩]
        · show Function.update n.taken a' _ a' ++ rest = ms ++ []
          rw [Function.update_self, List.append_assoc, List.singleton_append, htaken, List.append_nil]
      · refine ⟨queue, ?_, ?_⟩
        · show (n.setBox k' a' _).boxes k a = _
          rw [boxes_setBox_of_ne fun h => absurd h ha, hbox]
        · show Function.update n.taken a' _ a ++ queue = ms ++ []
          rw [Function.update_of_ne (Ne.symm ha), htaken, List.append_nil]
  | accept k' a' i =>
    show ∃ queue, (n.accept capacity k' a' i).boxes k a = some ⟨queue, []⟩ ∧
      (n.accept capacity k' a' i).taken a ++ queue = ms ++ []
    unfold accept
    cases hother : n.boxes k' a' with
    | none => exact hsame
    | some b =>
      dsimp only
      cases hget : b.waiting[i]? with
      | none => exact hsame
      | some m =>
        have ha : a' = a → k' ≠ k := by
          rintro rfl rfl
          rw [hbox] at hother
          rw [← Option.some.inj hother] at hget
          cases hget
        dsimp only
        split_ifs
        · rw [boxes_setBox_of_ne ha]
          exact hsame
        · exact hsame
  | abandon k' a' i =>
    show ∃ queue, (n.abandon k' a' i).boxes k a = some ⟨queue, []⟩ ∧
      (n.abandon k' a' i).taken a ++ queue = ms ++ []
    unfold abandon
    cases n.boxes k' a' with
    | none => exact hsame
    | some b =>
      dsimp only
      cases b.waiting[i]? with
      | none => exact hsame
      | some m =>
        show ∃ queue, (n.setBox k' a' _).boxes k a = some ⟨queue, []⟩ ∧ _
        rw [boxes_setBox_of_ne hop]
        exact hsame
  | close k' a' =>
    show ∃ queue, (n.setBox k' a' none).boxes k a = some ⟨queue, []⟩ ∧ _
    rw [boxes_setBox_of_ne hop]
    exact hsame
  | closeAll k' =>
    have hk : k' ≠ k := hop
    show ∃ queue, Function.update n.boxes k' _ k a = some ⟨queue, []⟩ ∧ _
    rw [Function.update_of_ne hk.symm]
    exact hsame

theorem mem_inFlight_step {capacity : ℕ} {op : Op κ α μ} {q : Parcel κ α μ}
    (hq : q ∈ (n.step capacity op).inFlight) : q ∈ n.inFlight ∨ op = .launch q := by
  cases op with
  | launch p =>
    rcases List.mem_append.mp hq with hq | hq
    · exact Or.inl hq
    · exact Or.inr (congrArg _ (List.mem_singleton.mp hq).symm)
  | put p =>
    refine Or.inl ?_
    rwa [← n.inFlight_put capacity p]
  | arrive i =>
    replace hq : q ∈ (n.arrive capacity i).inFlight := hq
    unfold arrive at hq
    cases hget : n.inFlight[i]? with
    | none =>
      rw [hget] at hq
      exact Or.inl hq
    | some p =>
      rw [hget] at hq
      dsimp only at hq
      rw [inFlight_put] at hq
      exact Or.inl (List.mem_of_mem_eraseIdx hq)
  | take k a =>
    replace hq : q ∈ (n.take k a).inFlight := hq
    unfold take at hq
    split at hq
    · exact Or.inl hq
    · exact Or.inl hq
  | accept k a i =>
    replace hq : q ∈ (n.accept capacity k a i).inFlight := hq
    unfold accept at hq
    split at hq
    · exact Or.inl hq
    · split at hq
      · exact Or.inl hq
      · split_ifs at hq
        · exact Or.inl hq
        · exact Or.inl hq
  | abandon k a i =>
    replace hq : q ∈ (n.abandon k a i).inFlight := hq
    unfold abandon at hq
    split at hq
    · exact Or.inl hq
    · split at hq
      · exact Or.inl hq
      · exact Or.inl hq
  | create | close | closeAll => exact Or.inl hq

/-- One more operation, which puts into the box only what it has room for. -/
theorem InOrder.step (h : n.InOrder k a ms) (capacity : ℕ) {op : Op κ α μ} (hop : op.Keeps k a)
    (hlaunch : ∀ p, op = .launch p → p.address ≠ a)
    (hroom : ∀ p b, op = .put p → p.address = a → n.boxes k a = some b → b.queue.length < capacity) :
    (n.step capacity op).InOrder k a (ms ++ op.handed a) := by
  refine ⟨(h.live.step capacity hop).1, ?_, h.queued_step capacity hop hroom⟩
  intro q hq
  rcases mem_inFlight_step hq with hq | hq
  · exact h.direct q hq
  · exact hlaunch q hq

end Network

end Mailbox
