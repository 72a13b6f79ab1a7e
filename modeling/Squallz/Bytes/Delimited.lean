/-
Encodings whose end can be told from what follows them: of numbers in a width, of byte strings behind their length, of
optional values behind a tag, and of lists whose length is known. What is put together from such encodings is read back in
one way only.
-/
import Mathlib.Data.List.Basic
import Squallz.Bytes.LittleEndian

namespace Squallz.Bytes

/-- Two valid values whose encodings begin a byte string alike are equal, and so is what follows. -/
def Delimited {α : Type} (valid : α → Prop) (encode : α → List UInt8) : Prop :=
  ∀ a b x y, valid a → valid b → encode a ++ x = encode b ++ y → a = b ∧ x = y

section Rules

variable {α β : Type} {valid : α → Prop} {encode : α → List UInt8}

theorem Delimited.comap (h : Delimited valid encode) {f : β → α} (hf : ∀ a b, f a = f b → a = b) :
    Delimited (fun b => valid (f b)) (fun b => encode (f b)) := by
  intro a b x y ha hb heq
  obtain ⟨hab, hxy⟩ := h (f a) (f b) x y ha hb heq
  exact ⟨hf a b hab, hxy⟩

theorem Delimited.mono {valid' : α → Prop} (h : Delimited valid encode) (hvalid : ∀ a, valid' a → valid a) :
    Delimited valid' encode := fun a b x y ha hb => h a b x y (hvalid a ha) (hvalid b hb)

/-- Encodings of one length are delimited by it. -/
theorem delimited_of_length {n : Nat} (hlength : ∀ a, (encode a).length = n)
    (hinj : ∀ a b, valid a → valid b → encode a = encode b → a = b) : Delimited valid encode := by
  intro a b x y ha hb heq
  obtain ⟨hab, hxy⟩ := List.append_inj heq (by rw [hlength, hlength])
  exact ⟨hinj a b ha hb hab, hxy⟩

theorem delimited_leBytes (width : Nat) : Delimited (· < 256 ^ width) (leBytes width) := by
  refine delimited_of_length (length_leBytes width) fun a b ha hb h => ?_
  rw [← leNat_leBytes_of_lt ha, ← leNat_leBytes_of_lt hb, h]

/-- Byte strings of one length follow each other. -/
theorem delimited_fixed (n : Nat) : Delimited (fun bytes : List UInt8 => bytes.length = n) id := by
  intro a b x y ha hb heq
  exact List.append_inj heq (ha.trans hb.symm)

/-! ## Composite values -/

/-- A byte string behind its length. -/
def bytesField (bytes : List UInt8) : List UInt8 := leBytes 8 bytes.length ++ bytes

theorem delimited_bytesField : Delimited (fun bytes => bytes.length < 256 ^ 8) bytesField := by
  intro a b x y ha hb heq
  rw [bytesField, bytesField, List.append_assoc, List.append_assoc] at heq
  obtain ⟨hlength, heq⟩ := delimited_leBytes 8 _ _ _ _ ha hb heq
  exact List.append_inj heq hlength

/-- An optional value behind a tag. -/
def optionField (encode : α → List UInt8) : Option α → List UInt8
  | some a => 1 :: encode a
  | none => [0]

theorem Delimited.option (h : Delimited valid encode) :
    Delimited (fun value => ∀ a ∈ value, valid a) (optionField encode) := by
  intro a b x y ha hb heq
  cases a with
  | none =>
    cases b with
    | none => exact ⟨rfl, (List.cons.inj heq).2⟩
    | some b => exact absurd (List.cons.inj heq).1 (by decide)
  | some a =>
    cases b with
    | none => exact absurd (List.cons.inj heq).1 (by decide)
    | some b =>
      obtain ⟨rfl, hxy⟩ := h a b x y (ha a rfl) (hb b rfl) (List.cons.inj heq).2
      exact ⟨rfl, hxy⟩

/-- Lists of one length are told apart element by element. -/
theorem Delimited.list (h : Delimited valid encode) {l m : List α} {x y : List UInt8} (hlength : l.length = m.length)
    (hl : ∀ a ∈ l, valid a) (hm : ∀ a ∈ m, valid a) (heq : l.flatMap encode ++ x = m.flatMap encode ++ y) :
    l = m ∧ x = y := by
  induction l generalizing m with
  | nil =>
    cases m with
    | nil => exact ⟨rfl, heq⟩
    | cons b m => cases hlength
  | cons a l ih =>
    cases m with
    | nil => cases hlength
    | cons b m =>
      rw [List.flatMap_cons, List.flatMap_cons, List.append_assoc, List.append_assoc] at heq
      obtain ⟨rfl, hrest⟩ := h _ _ _ _ (hl a List.mem_cons_self) (hm b List.mem_cons_self) heq
      obtain ⟨rfl, hxy⟩ := ih (Nat.succ.inj hlength) (fun a ha => hl a (List.mem_cons_of_mem _ ha))
        (fun a ha => hm a (List.mem_cons_of_mem _ ha)) hrest
      exact ⟨rfl, hxy⟩

end Rules

end Squallz.Bytes
