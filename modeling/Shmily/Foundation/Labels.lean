import Mathlib.Data.List.Basic
import Mathlib.Data.BitVec
import Mathlib.Tactic.Common

/-! # Names as sequences of labels

In a message a name is the sequence of its labels, each with its length in front of it, and a
zero byte at the end. A length of more than 63 is no length. As a text the labels stand between
separators.
-/

namespace Shmily.Foundation

namespace Labels

/-- A label with its length. -/
def encodeLabel (label : List (BitVec 8)) : List (BitVec 8) :=
  BitVec.ofNat 8 label.length :: label

/-- The labels and the end of the name. -/
def encode (labels : List (List (BitVec 8))) : List (BitVec 8) :=
  labels.flatMap encodeLabel ++ [0]

/-- Read at most so many labels; the result is the labels and what is behind the name. -/
def decode : Nat → List (BitVec 8) → Option (List (List (BitVec 8)) × List (BitVec 8))
  | 0, _ => none
  | _, [] => none
  | limit + 1, len :: rest =>
      if len = 0 then some ([], rest)
      else if 63 < len.toNat ∨ rest.length < len.toNat then none
      else (decode limit (rest.drop len.toNat)).map fun decoded =>
        (rest.take len.toNat :: decoded.1, decoded.2)

/-- Read the name at the start of a message. -/
def decodeName (message : List (BitVec 8)) :
    Option (List (List (BitVec 8)) × List (BitVec 8)) :=
  decode message.length message

/-- A text that can be a label. -/
structure IsLabel (sep : BitVec 8) (label : List (BitVec 8)) : Prop where
  nonempty : label ≠ []
  short : label.length ≤ 63
  noSep : sep ∉ label

instance (sep : BitVec 8) (label : List (BitVec 8)) : Decidable (IsLabel sep label) :=
  decidable_of_iff (label ≠ [] ∧ label.length ≤ 63 ∧ sep ∉ label)
    ⟨fun h => ⟨h.1, h.2.1, h.2.2⟩, fun h => ⟨h.nonempty, h.short, h.noSep⟩⟩

/-- The text of a name. -/
def text (sep : BitVec 8) (labels : List (List (BitVec 8))) : List (BitVec 8) :=
  [sep].intercalate labels

variable {sep : BitVec 8} {label : List (BitVec 8)} {labels : List (List (BitVec 8))}

theorem text_singleton : text sep [label] = label := by simp [text]

theorem text_cons (hne : labels ≠ []) :
    text sep (label :: labels) = label ++ sep :: text sep labels := by
  cases labels with
  | nil => exact absurd rfl hne
  | cons second rest => simp [text]

theorem length_encodeLabel : (encodeLabel label).length = label.length + 1 := rfl

theorem encode_cons : encode (label :: labels) = encodeLabel label ++ encode labels := by
  rw [encode, encode, List.flatMap_cons, List.append_assoc]

/-- A byte in front, and one at the end. -/
theorem length_encode (hne : labels ≠ []) :
    (encode labels).length = (text sep labels).length + 2 := by
  induction labels with
  | nil => exact absurd rfl hne
  | cons label rest ih =>
      rw [encode_cons, List.length_append, length_encodeLabel]
      by_cases hrest : rest = []
      · rw [hrest, text_singleton]
        rfl
      · rw [ih hrest, text_cons hrest, List.length_append, List.length_cons]
        omega

theorem decode_encodeLabel (hlabel : IsLabel sep label) (limit : Nat) (rest : List (BitVec 8)) :
    decode (limit + 1) (encodeLabel label ++ rest) =
      (decode limit rest).map fun decoded => (label :: decoded.1, decoded.2) := by
  have hshort := hlabel.short
  have hlen : (BitVec.ofNat 8 label.length).toNat = label.length := by
    rw [BitVec.toNat_ofNat, Nat.mod_eq_of_lt (by omega)]
  have hpos : 0 < label.length := List.length_pos_of_ne_nil hlabel.nonempty
  have hne : BitVec.ofNat 8 label.length ≠ 0 := by
    intro heq
    rw [heq] at hlen
    exact Nat.ne_of_gt hpos hlen.symm
  have hbound : ¬ (63 < label.length ∨ (label ++ rest).length < label.length) := by
    rw [List.length_append]
    omega
  rw [encodeLabel, List.cons_append, decode, if_neg hne, hlen, if_neg hbound, List.drop_left,
    List.take_left]

theorem decode_encode {limit : Nat} (hlabels : ∀ label ∈ labels, IsLabel sep label)
    (hlimit : labels.length < limit) (rest : List (BitVec 8)) :
    decode limit (encode labels ++ rest) = some (labels, rest) := by
  obtain ⟨limit, rfl⟩ := Nat.exists_eq_add_of_lt hlimit
  clear hlimit
  induction labels with
  | nil => simp [encode, decode]
  | cons label labels ih =>
      have hrest : ∀ other ∈ labels, IsLabel sep other := fun other hmem =>
        hlabels other (List.mem_cons_of_mem _ hmem)
      have hlimit : (label :: labels).length + limit + 1 = labels.length + limit + 1 + 1 := by
        rw [List.length_cons]
        omega
      rw [hlimit, encode_cons, List.append_assoc,
        decode_encodeLabel (hlabels label List.mem_cons_self), ih hrest, Option.map_some]

/-- Every label takes at least one byte. -/
theorem length_lt_encode (labels : List (List (BitVec 8))) : labels.length < (encode labels).length := by
  induction labels with
  | nil => exact Nat.one_pos
  | cons label labels ih =>
      rw [encode_cons, List.length_append, length_encodeLabel, List.length_cons]
      omega

/-- A name is read back, and what is behind it. -/
theorem decodeName_encode (hlabels : ∀ label ∈ labels, IsLabel sep label) (rest : List (BitVec 8)) :
    decodeName (encode labels ++ rest) = some (labels, rest) := by
  refine decode_encode hlabels (Nat.lt_of_lt_of_le (length_lt_encode labels) ?_) rest
  rw [List.length_append]
  exact Nat.le_add_right _ _

end Labels

end Shmily.Foundation
