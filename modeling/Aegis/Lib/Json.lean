import Aegis.Lib.FloatVal
import Aegis.Lib.Printf
import Mathlib.Data.List.Sort

/-! JSON values over a type of strings, and the compact text of a value. -/

inductive Json (S : Type) where
  | null
  | bool (b : Bool)
  | int (z : ℤ)
  | float (x : FloatVal)
  | str (s : S)
  | arr (elems : List (Json S))
  | obj (fields : List (S × Json S))

namespace Json

/-- The value of an object under a key; other values have none. -/
def field {S : Type} [DecidableEq S] (v : Json S) (key : S) : Option (Json S) :=
  match v with
  | obj fields => fields.lookup key
  | _ => none

/-- An object of a map ordered by its keys. -/
def object (fields : List (Bytes × Json Bytes)) : Json Bytes :=
  obj (fields.insertionSort (fun a b => a.1 ≤ b.1))

theorem lookup_orderedInsert {κ υ : Type} [DecidableEq κ] {r : κ × υ → κ × υ → Prop}
    [DecidableRel r] (hr : ∀ a b, a.1 = b.1 → r a b) (p : κ × υ) (fields : List (κ × υ)) (key : κ) :
    (fields.orderedInsert r p).lookup key = (p :: fields).lookup key := by
  induction fields with
  | nil => rfl
  | cons q fields ih =>
    rw [List.orderedInsert_cons]
    split_ifs with hle
    · rfl
    · have hne : q.1 ≠ p.1 := fun h => hle (hr p q h.symm)
      rw [List.lookup_cons, ih, List.lookup_cons, List.lookup_cons, List.lookup_cons]
      by_cases hkey : key = q.1
      · have hp : (key == p.1) = false := beq_false_of_ne (hkey ▸ hne)
        rw [hp]
      · rw [beq_false_of_ne hkey]

theorem lookup_insertionSort {κ υ : Type} [DecidableEq κ] {r : κ × υ → κ × υ → Prop}
    [DecidableRel r] (hr : ∀ a b, a.1 = b.1 → r a b) (fields : List (κ × υ)) (key : κ) :
    (fields.insertionSort r).lookup key = fields.lookup key := by
  induction fields with
  | nil => rfl
  | cons p fields ih =>
    rw [List.insertionSort_cons, lookup_orderedInsert hr, List.lookup_cons, ih, List.lookup_cons]

/-- The order of the map does not show in its lookups. -/
@[simp]
theorem field_object (fields : List (Bytes × Json Bytes)) (key : Bytes) :
    (object fields).field key = (obj fields).field key :=
  lookup_insertionSort (fun a _ h => h ▸ List.le_refl a.1) fields key

theorem mem_of_field {S : Type} [DecidableEq S] {fields : List (S × Json S)} {key : S} {w : Json S}
    (h : (obj fields).field key = some w) : (key, w) ∈ fields := by
  obtain ⟨pre, post, rfl, -⟩ := List.lookup_eq_some_iff.mp h
  exact List.mem_append_cons_self

theorem field_cons_self {S : Type} [DecidableEq S] (fields : List (S × Json S)) (key : S)
    (w : Json S) : (obj ((key, w) :: fields)).field key = some w := List.lookup_cons_self

theorem field_cons_ne {S : Type} [DecidableEq S] (fields : List (S × Json S)) {key key' : S}
    (h : key' ≠ key) (w : Json S) :
    (obj ((key, w) :: fields)).field key' = (obj fields).field key' := by
  unfold field
  dsimp only
  rw [List.lookup_cons, beq_false_of_ne h]

/-- `v[key] = w` on an object, for uses in which the order of the keys does not show. -/
def setField {S : Type} [DecidableEq S] (fields : List (S × Json S)) (key : S) (w : Json S) :
    List (S × Json S) := (key, w) :: fields.filter (fun f => f.1 ≠ key)

theorem field_setField_ne {S : Type} [DecidableEq S] (fields : List (S × Json S)) {key key' : S}
    (h : key' ≠ key) (w : Json S) :
    (obj (setField fields key w)).field key' = (obj fields).field key' := by
  unfold field setField
  dsimp only
  rw [List.lookup_cons, beq_false_of_ne h]
  dsimp only
  induction fields with
  | nil => rfl
  | cons f fields ih =>
    by_cases hf : f.1 = key
    · rw [List.filter_cons_of_neg (by simp [hf]), ih, List.lookup_cons, hf, beq_false_of_ne h]
    · rw [List.filter_cons_of_pos (by simp [hf]), List.lookup_cons, List.lookup_cons, ih]

theorem field_elim_setField_ne {S α : Type} [DecidableEq S] (fields : List (S × Json S))
    {key key' : S} (h : key' ≠ key) (o : Option α) (f : α → Json S) :
    (obj (o.elim fields fun a => setField fields key (f a))).field key' =
      (obj fields).field key' := by
  cases o with
  | none => rfl
  | some a => exact field_setField_ne _ h _

/-- One byte of a string that is quoted. -/
def escapeByte (b : UInt8) : Bytes :=
  if b = 0x08 then ascii "\\b"
  else if b = 0x09 then ascii "\\t"
  else if b = 0x0A then ascii "\\n"
  else if b = 0x0C then ascii "\\f"
  else if b = 0x0D then ascii "\\r"
  else if b = 0x22 then ascii "\\\""
  else if b = 0x5C then ascii "\\\\"
  else if b < 0x20 then ascii "\\u00" ++ (if b < 0x10 then ascii "0" else ascii "1") ++
    ascii (String.ofList [Nat.digitChar (b.toNat % 16)])
  else [b]

def quote (s : Bytes) : Bytes := ascii "\"" ++ s.flatMap escapeByte ++ ascii "\""

/-- A string that is not UTF-8 has no text. -/
def dumpStr (s : Bytes) : Option Bytes := if Text.isUtf8 s then some (quote s) else none

section Dump
variable (floatText : FloatVal → Bytes)

mutual

/-- The compact text, if every string in the value has one. -/
def dump : Json Bytes → Option Bytes
  | null => some (ascii "null")
  | bool b => some (if b then ascii "true" else ascii "false")
  | int z => some (Printf.signed z)
  | float x => some (floatText x)
  | str s => dumpStr s
  | arr elems => do
    let text ← dumpElems elems
    return ascii "[" ++ text ++ ascii "]"
  | obj fields => do
    let text ← dumpFields fields
    return ascii "\x7b" ++ text ++ ascii "\x7d"

def dumpElems : List (Json Bytes) → Option Bytes
  | [] => some []
  | [v] => dump v
  | v :: w :: rest => do
    let head ← dump v
    let tail ← dumpElems (w :: rest)
    return head ++ ascii "," ++ tail

def dumpFields : List (Bytes × Json Bytes) → Option Bytes
  | [] => some []
  | [(k, v)] => do
    let head ← dumpStr k
    let value ← dump v
    return head ++ ascii ":" ++ value
  | (k, v) :: w :: rest => do
    let head ← dumpStr k
    let value ← dump v
    let tail ← dumpFields (w :: rest)
    return head ++ ascii ":" ++ value ++ ascii "," ++ tail

end

end Dump

/-! What has a text. -/

section HasText
variable {floatText : FloatVal → Bytes}

theorem isSome_dumpStr (s : Bytes) : (dumpStr s).isSome ↔ Text.isUtf8 s := by
  unfold dumpStr
  split_ifs with h <;> simp [h]

theorem isSome_dump_str (s : Bytes) : (dump floatText (str s)).isSome ↔ Text.isUtf8 s := by
  rw [dump, isSome_dumpStr]

theorem isSome_dump_bool (b : Bool) : (dump floatText (bool b)).isSome := by
  rw [dump]
  rfl

theorem isSome_dump_null : (dump floatText null).isSome := by
  rw [dump]
  rfl

theorem isSome_dump_int (z : ℤ) : (dump floatText (int z)).isSome := by
  rw [dump]
  rfl

theorem isSome_dumpElems (elems : List (Json Bytes)) :
    (dumpElems floatText elems).isSome ↔ ∀ v ∈ elems, (dump floatText v).isSome := by
  induction elems with
  | nil => simp [dumpElems]
  | cons v elems ih =>
    rw [List.forall_mem_cons, ← ih]
    cases elems with
    | nil =>
      rw [dumpElems, dumpElems]
      cases dump floatText v <;> simp
    | cons w rest =>
      rw [dumpElems]
      cases dump floatText v <;> cases dumpElems floatText (w :: rest) <;> simp

theorem isSome_dump_arr (elems : List (Json Bytes)) :
    (dump floatText (arr elems)).isSome ↔ ∀ v ∈ elems, (dump floatText v).isSome := by
  rw [← isSome_dumpElems, dump]
  cases dumpElems floatText elems <;> simp

theorem isSome_dumpFields (fields : List (Bytes × Json Bytes)) :
    (dumpFields floatText fields).isSome ↔
      ∀ p ∈ fields, Text.isUtf8 p.1 ∧ (dump floatText p.2).isSome := by
  induction fields with
  | nil => simp [dumpFields]
  | cons p fields ih =>
    rw [List.forall_mem_cons, ← ih, ← isSome_dumpStr]
    cases fields with
    | nil =>
      rw [dumpFields, dumpFields]
      cases dumpStr p.1 <;> cases dump floatText p.2 <;> simp
    | cons w rest =>
      rw [dumpFields]
      cases dumpStr p.1 <;> cases dump floatText p.2 <;> cases dumpFields floatText (w :: rest) <;> simp

theorem isSome_dump_obj (fields : List (Bytes × Json Bytes)) :
    (dump floatText (obj fields)).isSome ↔
      ∀ p ∈ fields, Text.isUtf8 p.1 ∧ (dump floatText p.2).isSome := by
  rw [← isSome_dumpFields, dump]
  cases dumpFields floatText fields <;> simp

theorem isSome_dump_object (fields : List (Bytes × Json Bytes)) :
    (dump floatText (object fields)).isSome ↔
      ∀ p ∈ fields, Text.isUtf8 p.1 ∧ (dump floatText p.2).isSome := by
  unfold object
  rw [isSome_dump_obj]
  simp only [List.mem_insertionSort]

theorem isSome_dump_field {v w : Json Bytes} {key : Bytes} (hw : v.field key = some w)
    (hv : (dump floatText v).isSome) : (dump floatText w).isSome := by
  cases v with
  | obj fields =>
    exact ((isSome_dump_obj fields).mp hv _ (mem_of_field hw)).2
  | null | bool | int | float | str | arr => cases hw
end HasText

/-- The text of an object begins with its first key. -/
theorem prefix_of_dump_obj {floatText : FloatVal → Bytes} {k text : Bytes} {v : Json Bytes}
    {fields : List (Bytes × Json Bytes)} (h : dump floatText (obj ((k, v) :: fields)) = some text) :
    ascii "\x7b" ++ quote k ++ ascii ":" <+: text := by
  rw [dump] at h
  obtain ⟨inner, hinner, heq⟩ := Option.bind_eq_some_iff.mp h
  have hkey : ∀ head, dumpStr k = some head → head = quote k := by
    intro head hhead
    unfold dumpStr at hhead
    split_ifs at hhead
    exact (Option.some.inj hhead).symm
  have hstart : quote k ++ ascii ":" <+: inner := by
    cases fields with
    | nil =>
      rw [dumpFields] at hinner
      obtain ⟨head, hhead, hinner⟩ := Option.bind_eq_some_iff.mp hinner
      obtain ⟨value, -, hinner⟩ := Option.bind_eq_some_iff.mp hinner
      rw [← Option.some.inj hinner, hkey head hhead]
      exact List.prefix_append _ _
    | cons f fields =>
      rw [dumpFields] at hinner
      obtain ⟨head, hhead, hinner⟩ := Option.bind_eq_some_iff.mp hinner
      obtain ⟨value, -, hinner⟩ := Option.bind_eq_some_iff.mp hinner
      obtain ⟨tail, -, hinner⟩ := Option.bind_eq_some_iff.mp hinner
      rw [← Option.some.inj hinner, hkey head hhead]
      simp only [List.append_assoc]
      exact ⟨_, List.append_assoc _ _ _⟩
  obtain ⟨rest, rfl⟩ := hstart
  rw [← Option.some.inj heq]
  exact ⟨rest ++ ascii "\x7d", by simp only [List.append_assoc]⟩

/-! What holds of the pieces of a text and is kept by joining them holds of the text. -/

section Pieces

/-- A property of byte strings that concatenation keeps, and that printable ASCII and quoted
strings have. -/
structure OfPieces (P : Bytes → Prop) : Prop where
  printable : ∀ s : Bytes, s.all (fun b => 0x20 ≤ b && b < 0x80) = true → P s
  quoted : ∀ s text, dumpStr s = some text → P text
  append : ∀ a b, P a → P b → P (a ++ b)

variable {P : Bytes → Prop}

theorem OfPieces.signed (hP : OfPieces P) (z : ℤ) : P (Printf.signed z) := by
  have hdecimal : P (Printf.decimal z.natAbs) := by
    apply hP.printable
    rw [List.all_eq_true]
    intro b hb
    obtain ⟨hlow, hhigh⟩ := Printf.decimal_digits _ b hb
    rw [Bool.and_eq_true, decide_eq_true_iff, decide_eq_true_iff]
    exact ⟨UInt8.le_trans (by decide) hlow, UInt8.lt_of_le_of_lt hhigh (by decide)⟩
  unfold Printf.signed
  split_ifs
  · exact hP.append _ _ (hP.printable _ (by decide)) hdecimal
  · exact hdecimal

variable {floatText : FloatVal → Bytes}

mutual

theorem OfPieces.dump (hP : OfPieces P) (hfloat : ∀ x, P (floatText x)) : ∀ (v : Json Bytes)
    (text : Bytes), dump floatText v = some text → P text
  | null, text, h => by
    rw [Json.dump, Option.some.injEq] at h
    rw [← h]
    exact hP.printable _ (by decide)
  | bool b, text, h => by
    rw [Json.dump, Option.some.injEq] at h
    rw [← h]
    cases b <;> exact hP.printable _ (by decide)
  | int z, text, h => by
    rw [Json.dump, Option.some.injEq] at h
    rw [← h]
    exact hP.signed z
  | float x, text, h => by
    rw [Json.dump, Option.some.injEq] at h
    rw [← h]
    exact hfloat x
  | str s, text, h => by
    rw [Json.dump] at h
    exact hP.quoted s text h
  | arr elems, text, h => by
    rw [Json.dump] at h
    obtain ⟨inner, hinner, heq⟩ := Option.bind_eq_some_iff.mp h
    have hrest := OfPieces.dumpElems hP hfloat elems inner hinner
    rw [← Option.some.inj heq]
    exact hP.append _ _ (hP.append _ _ (hP.printable _ (by decide)) hrest) (hP.printable _ (by decide))
  | obj fields, text, h => by
    rw [Json.dump] at h
    obtain ⟨inner, hinner, heq⟩ := Option.bind_eq_some_iff.mp h
    have hrest := OfPieces.dumpFields hP hfloat fields inner hinner
    rw [← Option.some.inj heq]
    exact hP.append _ _ (hP.append _ _ (hP.printable _ (by decide)) hrest) (hP.printable _ (by decide))

theorem OfPieces.dumpElems (hP : OfPieces P) (hfloat : ∀ x, P (floatText x)) :
    ∀ (elems : List (Json Bytes)) (text : Bytes), dumpElems floatText elems = some text → P text
  | [], text, h => by
    rw [Json.dumpElems, Option.some.injEq] at h
    rw [← h]
    exact hP.printable _ rfl
  | [v], text, h => by
    rw [Json.dumpElems] at h
    exact OfPieces.dump hP hfloat v text h
  | v :: w :: rest, text, h => by
    rw [Json.dumpElems] at h
    obtain ⟨head, hhead, h⟩ := Option.bind_eq_some_iff.mp h
    obtain ⟨tail, htail, heq⟩ := Option.bind_eq_some_iff.mp h
    have h₁ := OfPieces.dump hP hfloat v head hhead
    have h₂ := OfPieces.dumpElems hP hfloat (w :: rest) tail htail
    rw [← Option.some.inj heq]
    exact hP.append _ _ (hP.append _ _ h₁ (hP.printable _ (by decide))) h₂

theorem OfPieces.dumpFields (hP : OfPieces P) (hfloat : ∀ x, P (floatText x)) :
    ∀ (fields : List (Bytes × Json Bytes)) (text : Bytes),
      dumpFields floatText fields = some text → P text
  | [], text, h => by
    rw [Json.dumpFields, Option.some.injEq] at h
    rw [← h]
    exact hP.printable _ rfl
  | [(k, v)], text, h => by
    rw [Json.dumpFields] at h
    obtain ⟨head, hhead, h⟩ := Option.bind_eq_some_iff.mp h
    obtain ⟨value, hvalue, heq⟩ := Option.bind_eq_some_iff.mp h
    have h₁ := hP.quoted k head hhead
    have h₂ := OfPieces.dump hP hfloat v value hvalue
    rw [← Option.some.inj heq]
    exact hP.append _ _ (hP.append _ _ h₁ (hP.printable _ (by decide))) h₂
  | (k, v) :: w :: rest, text, h => by
    rw [Json.dumpFields] at h
    obtain ⟨head, hhead, h⟩ := Option.bind_eq_some_iff.mp h
    obtain ⟨value, hvalue, h⟩ := Option.bind_eq_some_iff.mp h
    obtain ⟨tail, htail, heq⟩ := Option.bind_eq_some_iff.mp h
    have h₁ := hP.quoted k head hhead
    have h₂ := OfPieces.dump hP hfloat v value hvalue
    have h₃ := OfPieces.dumpFields hP hfloat (w :: rest) tail htail
    have hfirst := hP.append _ _ (hP.append head (ascii ":") h₁ (hP.printable _ (by decide))) h₂
    rw [← Option.some.inj heq]
    exact hP.append _ _ (hP.append _ _ hfirst (hP.printable _ (by decide))) h₃

end

/-- No control character is left in a quoted string, so a text is one line. -/
theorem control_ofPieces {c : UInt8} (hc : c < 0x20) : OfPieces (c ∉ ·) where
  printable s h hmem := by
    have hb := List.all_eq_true.mp h c hmem
    rw [Bool.and_eq_true, decide_eq_true_iff] at hb
    exact absurd hc (UInt8.not_lt.mpr hb.1)
  quoted s text h := by
    have hbyte : ∀ b : UInt8, (escapeByte b).all (0x20 ≤ ·) = true := forall_byte (by decide +kernel)
    have hnot : ∀ s : Bytes, s.all (0x20 ≤ ·) = true → c ∉ s := fun s hs hmem =>
      absurd hc (UInt8.not_lt.mpr (of_decide_eq_true (List.all_eq_true.mp hs c hmem)))
    unfold dumpStr quote at h
    split_ifs at h
    rw [← Option.some.inj h]
    simp only [List.mem_append, List.mem_flatMap, not_or, not_exists, not_and]
    exact ⟨⟨hnot _ (by decide), fun b _ => hnot _ (hbyte b)⟩, hnot _ (by decide)⟩
  append a b ha hb := by
    rw [List.mem_append, not_or]
    exact ⟨ha, hb⟩

theorem utf8_ofPieces : OfPieces (Text.isUtf8 ·) where
  printable s h := by
    apply Text.isUtf8_of_ascii
    intro b hb
    have hprint := List.all_eq_true.mp h b hb
    rw [Bool.and_eq_true, decide_eq_true_iff, decide_eq_true_iff] at hprint
    exact hprint.2
  quoted s text h := by
    have hascii : ∀ b : UInt8, b < 0x80 → (escapeByte b).all (· < 0x80) = true :=
      forall_byte (by decide +kernel)
    have hother : ∀ b : UInt8, ¬ b < 0x80 → escapeByte b = [b] := forall_byte (by decide +kernel)
    unfold dumpStr quote at h
    split_ifs at h with hs
    have hbody : Text.isUtf8 (s.flatMap escapeByte) := (Text.utf8_of_isUtf8 hs).flatMap
      (fun b hb b' hb' => of_decide_eq_true (List.all_eq_true.mp (hascii b hb) b' hb')) hother
    rw [← Option.some.inj h, List.append_assoc, Text.isUtf8_append (by decide +kernel),
      Text.isUtf8_append hbody]
    decide +kernel
  append a b ha hb := by
    rw [Text.isUtf8_append ha]
    exact hb

theorem control_notMem_dump {c : UInt8} (hc : c < 0x20) (hfloat : ∀ x, c ∉ floatText x) (v : Json Bytes)
    (text : Bytes) (h : Json.dump floatText v = some text) : c ∉ text :=
  (control_ofPieces hc).dump hfloat v text h

theorem newline_notMem_dump (hfloat : ∀ x, 10 ∉ floatText x) (v : Json Bytes) (text : Bytes)
    (h : Json.dump floatText v = some text) : 10 ∉ text :=
  control_notMem_dump (by decide) hfloat v text h

end Pieces

/-! The value that the text of a value is read as, on the side of Unicode strings. A float
that is not finite has been written as `null`. -/

def decodedFloat : FloatVal → Json Text
  | .fin q => float (.fin q)
  | _ => null

mutual

def decoded : Json Bytes → Json Text
  | null => null
  | bool b => bool b
  | int z => int z
  | float x => decodedFloat x
  | str s => str (Text.decodeIgnore s)
  | arr elems => arr (decodedElems elems)
  | obj fields => obj (decodedFields fields)

def decodedElems : List (Json Bytes) → List (Json Text)
  | [] => []
  | v :: rest => decoded v :: decodedElems rest

def decodedFields : List (Bytes × Json Bytes) → List (Text × Json Text)
  | [] => []
  | (k, v) :: rest => (Text.decodeIgnore k, decoded v) :: decodedFields rest

end

theorem decodedElems_eq (elems : List (Json Bytes)) : decodedElems elems = elems.map decoded := by
  induction elems with
  | nil => rfl
  | cons v elems ih => rw [decodedElems, ih, List.map_cons]

end Json
