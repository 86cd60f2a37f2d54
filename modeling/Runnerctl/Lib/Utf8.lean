import Mathlib

/-!
# Texts as bytes

The bytes of a text in UTF-8 as a list, and the text of a list of bytes.  A byte below 128
stands for one character, wherever it occurs.  Where bytes are not valid, `lossy` puts one
replacement character for the longest part that could have begun a character, so that it
reads the same up to a byte below 128 and from there on.
-/

namespace Utf8

/-- The bytes of a text. -/
def encode (text : String) : List UInt8 := text.toByteArray.data.toList

/-- The text of bytes that are valid UTF-8. -/
def decode (bytes : List UInt8) : Option String := String.fromUTF8? bytes.toByteArray

@[simp] theorem length_encode (text : String) : (encode text).length = text.utf8ByteSize := by
  rw [encode, Array.length_toList]
  exact String.size_toByteArray

@[simp] theorem encode_append (left right : String) :
    encode (left ++ right) = encode left ++ encode right := by
  simp [encode]

@[simp] theorem decode_encode (text : String) : decode (encode text) = some text := by
  have same : (encode text).toByteArray = text.toByteArray :=
    ByteArray.ext (by rw [List.data_toByteArray, encode, Array.toArray_toList])
  rw [decode, same, String.fromUTF8?, dif_pos text.isValidUTF8]
  rfl

theorem encode_of_decode {bytes : List UInt8} {text : String}
    (read : decode bytes = some text) : encode text = bytes := by
  rw [decode, String.fromUTF8?] at read
  split at read
  · cases read
    exact List.toList_data_toByteArray
  · cases read

theorem encode_ofList (text : List Char) :
    encode (String.ofList text) = text.flatMap String.utf8EncodeChar := by
  rw [encode, String.toByteArray_ofList]
  exact List.toList_data_toByteArray

/-- The bytes of the characters that take more than one are 128 or larger. -/
theorem mem_utf8EncodeChar {c ascii : Char} (small : ascii.toNat < 128) :
    UInt8.ofNat ascii.toNat ∈ String.utf8EncodeChar c ↔ c = ascii := by
  have byte : ascii.toNat < UInt8.size := Nat.lt_trans small (by decide)
  have other : ∀ n, 128 ≤ n → n < 256 → UInt8.ofNat ascii.toNat ≠ UInt8.ofNat n := by
    intro n large within same
    have values := congrArg UInt8.toNat same
    rw [UInt8.toNat_ofNat_of_lt' byte, UInt8.toNat_ofNat_of_lt' within] at values
    omega
  constructor
  · intro member
    unfold String.utf8EncodeChar at member
    dsimp only at member
    split at member
    · next single =>
      have values := congrArg UInt8.toNat (List.mem_singleton.mp member)
      have single : c.toNat ≤ 0x7f := single
      have value : c.val.toNat = c.toNat := rfl
      have within : c.toNat < UInt8.size := Nat.lt_of_le_of_lt single (by decide)
      rw [UInt8.toNat_ofNat_of_lt' byte, value, UInt8.toNat_ofNat_of_lt' within] at values
      exact (Char.toNat_inj.mp values).symm
    · exfalso
      split at member
      · simp only [List.mem_cons, List.not_mem_nil, or_false] at member
        obtain same | same := member
        all_goals exact other _ (by omega) (by omega) same
      · split at member
        · simp only [List.mem_cons, List.not_mem_nil, or_false] at member
          obtain same | same | same := member
          all_goals exact other _ (by omega) (by omega) same
        · simp only [List.mem_cons, List.not_mem_nil, or_false] at member
          obtain same | same | same | same := member
          all_goals exact other _ (by omega) (by omega) same
  · rintro rfl
    have single : c.val.toNat ≤ 0x7f := Nat.le_of_lt_succ small
    unfold String.utf8EncodeChar
    dsimp only
    rw [if_pos single]
    exact List.mem_singleton_self _

theorem mem_encode {text : String} {ascii : Char} (small : ascii.toNat < 128) :
    UInt8.ofNat ascii.toNat ∈ encode text ↔ ascii ∈ text.toList := by
  have listed := encode_ofList text.toList
  rw [String.ofList_toList] at listed
  rw [listed, List.mem_flatMap]
  simp only [mem_utf8EncodeChar small, exists_eq_right]

/-! ## Bytes that need not be valid -/

/-- The ranges of the bytes that can follow the first byte of a character. -/
def ranges (first : UInt8) : List (UInt8 × UInt8) :=
  let tail : UInt8 × UInt8 := (0x80, 0xBF)
  if 0xC2 ≤ first ∧ first ≤ 0xDF then [tail]
  else if first = 0xE0 then [(0xA0, 0xBF), tail]
  else if first = 0xED then [(0x80, 0x9F), tail]
  else if 0xE1 ≤ first ∧ first ≤ 0xEF then [tail, tail]
  else if first = 0xF0 then [(0x90, 0xBF), tail, tail]
  else if 0xF1 ≤ first ∧ first ≤ 0xF3 then [tail, tail, tail]
  else if first = 0xF4 then [(0x80, 0x8F), tail, tail]
  else []

/-- The bytes as long as they are in the ranges, one after the other. -/
def fitting : List (UInt8 × UInt8) → List UInt8 → List UInt8
  | (low, high) :: rest, byte :: bytes =>
      if low ≤ byte ∧ byte ≤ high then byte :: fitting rest bytes else []
  | _, _ => []

/-- What the bytes stand for: one character, or a replacement of what is not one. -/
def piece (bytes : List UInt8) : List Char :=
  match decode bytes with
  | some text => text.toList
  | none => [Char.ofNat 0xFFFD]

/-- The text of bytes, with replacements for what is not valid. -/
def lossy : List UInt8 → List Char
  | [] => []
  | first :: bytes =>
      let more := fitting (ranges first) bytes
      piece (first :: more) ++ lossy (bytes.drop more.length)
termination_by bytes => bytes.length
decreasing_by
  rw [List.length_drop]
  exact Nat.lt_succ_of_le (Nat.sub_le _ _)

@[simp] theorem lossy_nil : lossy [] = [] := by
  rw [lossy]

theorem lossy_cons (first : UInt8) (bytes : List UInt8) :
    lossy (first :: bytes) = piece (first :: fitting (ranges first) bytes) ++
      lossy (bytes.drop (fitting (ranges first) bytes).length) := by
  rw [lossy]

theorem fitting_begins (allowed : List (UInt8 × UInt8)) (bytes : List UInt8) :
    fitting allowed bytes <+: bytes := by
  induction allowed generalizing bytes with
  | nil => exact List.nil_prefix
  | cons range rest inductionHypothesis =>
      cases bytes with
      | nil => exact List.nil_prefix
      | cons byte bytes =>
          rw [fitting]
          split
          · exact List.cons_prefix_cons.mpr ⟨rfl, inductionHypothesis bytes⟩
          · exact List.nil_prefix

/-- A byte below all ranges ends what fits. -/
theorem fitting_append {allowed : List (UInt8 × UInt8)} {byte : UInt8}
    (below : ∀ range ∈ allowed, byte < range.1) (bytes more : List UInt8) :
    fitting allowed (bytes ++ byte :: more) = fitting allowed bytes := by
  induction allowed generalizing bytes with
  | nil => cases bytes <;> rfl
  | cons range rest inductionHypothesis =>
      obtain ⟨low, high⟩ := range
      cases bytes with
      | nil =>
          have small : byte < low := below (low, high) (List.mem_cons_self ..)
          rw [List.nil_append, fitting, if_neg fun within => UInt8.not_lt.mpr within.1 small]
          rfl
      | cons head bytes =>
          rw [List.cons_append, fitting, fitting,
            inductionHypothesis fun range member => below range (List.mem_cons_of_mem _ member)]

/-- The bytes that follow the first one of a character are 128 or larger. -/
theorem le_ranges (first : UInt8) : ∀ range ∈ ranges first, 128 ≤ range.1 := by
  unfold ranges
  dsimp only
  repeat' split
  all_goals
    simp only [List.forall_mem_cons, List.not_mem_nil, false_imp_iff, implies_true, and_true]
  all_goals decide

theorem ranges_ascii {first : UInt8} (small : first < 128) : ranges first = [] := by
  unfold ranges
  dsimp only
  repeat' split
  all_goals grind

theorem piece_ascii {ascii : Char} (small : ascii.toNat < 128) :
    piece [UInt8.ofNat ascii.toNat] = [ascii] := by
  have single : ascii.val.toNat ≤ 0x7f := Nat.le_of_lt_succ small
  have encoded : encode (String.ofList [ascii]) = [UInt8.ofNat ascii.toNat] := by
    rw [encode_ofList, List.flatMap_singleton]
    unfold String.utf8EncodeChar
    exact if_pos single
  rw [piece, ← encoded, decode_encode]
  exact String.toList_ofList

/-- A character of one byte is not part of what stands before it. -/
theorem lossy_append {ascii : Char} (small : ascii.toNat < 128) (bytes more : List UInt8) :
    lossy (bytes ++ UInt8.ofNat ascii.toNat :: more) = lossy bytes ++ ascii :: lossy more := by
  have byte : UInt8.ofNat ascii.toNat < 128 := by
    rw [UInt8.lt_iff_toNat_lt, UInt8.toNat_ofNat_of_lt' (Nat.lt_trans small (by decide))]
    exact small
  induction bytes using lossy.induct with
  | case1 =>
      rw [List.nil_append, lossy_cons, ranges_ascii byte, lossy_nil]
      exact congrArg (· ++ lossy more) (piece_ascii small)
  | case2 first bytes fits inductionHypothesis =>
      have same := fitting_append (fun range member =>
        UInt8.lt_of_lt_of_le byte (le_ranges first range member)) bytes more
      have within := (fitting_begins (ranges first) bytes).length_le
      rw [List.cons_append, lossy_cons, lossy_cons, same,
        List.drop_append_of_le_length within, inductionHypothesis, List.append_assoc]

/-- A character of one byte stands for itself only. -/
theorem mem_lossy {ascii : Char} (small : ascii.toNat < 128) {bytes : List UInt8}
    (absent : UInt8.ofNat ascii.toNat ∉ bytes) : ascii ∉ lossy bytes := by
  induction bytes using lossy.induct with
  | case1 =>
      rw [lossy_nil]
      exact List.not_mem_nil
  | case2 first bytes fits inductionHypothesis =>
      have within := fitting_begins (ranges first) bytes
      rw [List.mem_cons, not_or] at absent
      rw [lossy_cons, List.mem_append, not_or]
      refine ⟨fun member => ?_, inductionHypothesis fun member =>
        absent.2 (List.mem_of_mem_drop member)⟩
      rw [piece] at member
      split at member
      · next text read =>
          have encoded := (mem_encode small).mpr member
          rw [encode_of_decode read, List.mem_cons] at encoded
          rcases encoded with same | later
          · exact absent.1 same
          · exact absent.2 (within.subset later)
      · obtain rfl := List.mem_singleton.mp member
        exact absurd small (by decide)

end Utf8
