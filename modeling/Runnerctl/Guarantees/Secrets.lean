import Runnerctl.Metatheory.Configuration
import Runnerctl.Model.Secret

/-!
# Secrets are used whole

The file of a secret is read up to one byte more than the limit, so that a longer one can be
told from one that fits.  The text is trimmed before its length is looked at, and a cut that
leaves white space at either end goes unnoticed.
-/

namespace Runnerctl

open Trimming (Bare)

namespace Secrets

variable {secrets : Secrets} {content first rest : String} {maxBytes : UInt64}

/-! ## The cut -/

theorem fromUTF8_toByteArray : String.fromUTF8? content.toByteArray = some content := by
  rw [String.fromUTF8?, dif_pos content.isValidUTF8]
  rfl

/-- A cut that splits no character leaves the text before it. -/
theorem fromUTF8_extract_append (first rest : String) :
    String.fromUTF8? ((first ++ rest).toByteArray.extract 0 first.utf8ByteSize) =
      some first := by
  rw [String.toByteArray_append,
    ByteArray.extract_append_eq_left (String.size_toByteArray (s := first)).symm,
    fromUTF8_toByteArray]

/-- A cut that leaves a text splits no character. -/
theorem exists_append_of_fromUTF8 {n : Nat} (within : n ≤ content.utf8ByteSize)
    (read : String.fromUTF8? (content.toByteArray.extract 0 n) = some first) :
    ∃ rest, content = first ++ rest ∧ first.utf8ByteSize = n := by
  rw [String.fromUTF8?] at read
  split at read
  · next valid =>
    have position : (⟨n⟩ : String.Pos.Raw).IsValid content :=
      String.Pos.Raw.isValid_iff_isValidUTF8_extract_zero.mpr ⟨within, valid⟩
    obtain ⟨before, rest, rfl, same⟩ := String.Pos.Raw.isValid_iff_exists_append.mp position
    have size : n = before.utf8ByteSize := congrArg String.Pos.Raw.byteIdx same
    subst size
    have left := fromUTF8_extract_append before rest
    rw [String.fromUTF8?, dif_pos valid, read] at left
    cases left
    exact ⟨rest, rfl, rfl⟩
  · cases read

/-- A cut behind the end leaves everything. -/
theorem fromUTF8_extract_all {n : Nat} (beyond : content.utf8ByteSize ≤ n) :
    String.fromUTF8? (content.toByteArray.extract 0 n) = some content := by
  have all : content.toByteArray.extract 0 n = content.toByteArray := by
    rw [← String.size_toByteArray] at beyond
    rw [← Nat.max_eq_left beyond, ByteArray.extract_zero_max_size]
  rw [all, fromUTF8_toByteArray]

/-- What is read of a text with a limit: all of it, or as much as the limit allows. -/
theorem readToString_eq_ok_iff {limit : UInt64} {value : String} :
    readToString content.toByteArray limit = .ok value ↔
      content.utf8ByteSize ≤ limit.toNat ∧ value = content ∨
      ∃ rest, content = value ++ rest ∧ value.utf8ByteSize = limit.toNat := by
  have same : readToString content.toByteArray limit = .ok value ↔
      String.fromUTF8? (content.toByteArray.extract 0 limit.toNat) = some value := by
    rw [readToString]
    cases String.fromUTF8? (content.toByteArray.extract 0 limit.toNat) with
    | none => simp
    | some text => simp
  rw [same]
  constructor
  · intro read
    by_cases beyond : content.utf8ByteSize ≤ limit.toNat
    · rw [fromUTF8_extract_all beyond] at read
      exact .inl ⟨beyond, (Option.some.inj read).symm⟩
    · exact .inr (exists_append_of_fromUTF8 (Nat.le_of_not_le beyond) read)
  · rintro (⟨beyond, rfl⟩ | ⟨rest, rfl, size⟩)
    · exact fromUTF8_extract_all beyond
    · rw [← size, fromUTF8_extract_append]

/-! ## What is accepted -/

/-- The reference names a private file with the content. -/
structure Reads (secrets : Secrets) (reference content : String) : Prop where
  named : ∃ path file, reference = "file:" ++ path ∧ secrets.file path = some file ∧
    file.isFile = true ∧ file.mode &&& 0o077 = 0 ∧ file.content = content.toByteArray

theorem stripPrefix_append (lead path : String) :
    stripPrefix (lead ++ path) lead = some path.toList := by
  rw [stripPrefix, String.toList_append, if_pos (by simp), List.drop_left]

theorem Reads.secret_eq {reference : String} (reads : Reads secrets reference content) :
    secret secrets reference maxBytes = (do
      let value ← readToString content.toByteArray (maxBytes + 1)
      check (!(trim value).isEmpty && decide ((trim value).utf8ByteSize ≤ maxBytes.toNat))
        "invalid credential contents"
      return trim value) := by
  obtain ⟨path, file, rfl, found, isFile, mode, bytes⟩ := reads.named
  have opened : openPrivate secrets path = .ok content.toByteArray := by
    simp [openPrivate, found, isFile, mode, bytes, check, Program.ok_bind]
  simp [secret, stripPrefix_append, opened, Program.ok_bind]

theorem trim_isEmpty (text : String) : (trim text).isEmpty = isBlank text := by
  rw [Bool.eq_iff_iff, String.isEmpty_iff, trim, String.ofList_eq_empty_iff,
    Trimming.trim_eq_nil_iff]
  rfl

theorem Reads.secret_eq_ok_iff {reference : String} (reads : Reads secrets reference content)
    {x : String} :
    secret secrets reference maxBytes = .ok x ↔
      ∃ value, readToString content.toByteArray (maxBytes + 1) = .ok value ∧
        isBlank value = false ∧ (trim value).utf8ByteSize ≤ maxBytes.toNat ∧
        x = trim value := by
  rw [reads.secret_eq, Program.bind_eq_ok_iff]
  refine exists_congr fun value => and_congr_right fun _ => ?_
  rw [Program.bind_eq_ok_iff]
  simp only [check_eq_ok_iff, trim_isEmpty, Bool.and_eq_true, Bool.not_eq_true',
    decide_eq_true_eq, exists_const, and_assoc]
  refine and_congr_right fun _ => and_congr_right fun _ => ?_
  exact ⟨fun returned => (Except.ok.inj returned).symm, fun same => same ▸ rfl⟩

/-! ## Whole or not at all -/

/-- The text is returned trimmed and within the limit, and it is returned if it fits. -/
def Whole (content : String) (maxBytes : UInt64) (outcome : Except Error String) : Prop :=
  (∀ x, outcome = .ok x →
    x = trim content ∧ x ≠ "" ∧ x.utf8ByteSize ≤ maxBytes.toNat) ∧
  (isBlank content = false → content.utf8ByteSize ≤ maxBytes.toNat → ∃ x, outcome = .ok x)

/-- A cut of the read is noticed: what is cut off is white space, or the cut splits a
character, or what is left is white space, or has none at its ends.  With the limit that
wraps around nothing is read, which is noticed if the text is white space or too long. -/
def Noticed (content : String) (maxBytes : UInt64) : Prop :=
  if maxBytes.toNat + 1 < 2 ^ 64 then
    ∀ first rest, content = first ++ rest → first.utf8ByteSize = maxBytes.toNat + 1 →
      isBlank rest = true ∨ isBlank first = true ∨ trim first = first
  else isBlank content = true ∨ maxBytes.toNat < content.utf8ByteSize

theorem trim_append_of_blank (blank : isBlank rest = true) :
    trim (first ++ rest) = trim first := by
  rw [trim, trim, String.toList_append, Trimming.trim_append_right blank]

theorem trim_append_ne (visible : isBlank first = false) (more : isBlank rest = false) :
    trim (first ++ rest) ≠ trim first := by
  intro same
  have lists := congrArg String.toList same
  simp only [trim, String.toList_ofList, String.toList_append] at lists
  exact Trimming.trim_append_ne visible more lists

theorem exists_ends (text : String) : ∃ lead trail, text = lead ++ trim text ++ trail := by
  obtain ⟨left, right, same⟩ := Trimming.exists_ends isWhitespace text.toList
  refine ⟨String.ofList left, String.ofList right, String.toList_injective ?_⟩
  simpa [trim] using same

theorem size_trim_le (text : String) : (trim text).utf8ByteSize ≤ text.utf8ByteSize := by
  obtain ⟨lead, trail, same⟩ := exists_ends text
  have size := congrArg String.utf8ByteSize same
  simp only [String.utf8ByteSize_append] at size
  omega

/-- Trimming that removes something makes a text shorter. -/
theorem size_trim_lt {text : String} (shorter : trim text ≠ text) :
    (trim text).utf8ByteSize < text.utf8ByteSize := by
  obtain ⟨lead, trail, same⟩ := exists_ends text
  have size := congrArg String.utf8ByteSize same
  simp only [String.utf8ByteSize_append] at size
  by_contra notLess
  have noLead : lead = "" := String.utf8ByteSize_eq_zero_iff.mp (by omega)
  have noTrail : trail = "" := String.utf8ByteSize_eq_zero_iff.mp (by omega)
  subst noLead noTrail
  exact shorter (by simpa using same.symm)

section Limit

variable {reference : String}

/-- The limit of the read, when it does not wrap around. -/
theorem toNat_succ (small : maxBytes.toNat + 1 < 2 ^ 64) :
    (maxBytes + 1).toNat = maxBytes.toNat + 1 := by
  rw [UInt64.toNat_add]
  exact Nat.mod_eq_of_lt small

/-- The limit that wraps around lets nothing be read. -/
theorem Reads.never (reads : Reads secrets reference content)
    (large : ¬maxBytes.toNat + 1 < 2 ^ 64) (x : String) :
    secret secrets reference maxBytes ≠ .ok x := by
  have wrapped : (maxBytes + 1).toNat = 0 := by
    have := maxBytes.toNat_lt
    rw [UInt64.toNat_add, show maxBytes.toNat = 2 ^ 64 - 1 by omega]
    rfl
  intro returned
  obtain ⟨value, read, visible, -⟩ := reads.secret_eq_ok_iff.mp returned
  have nothing : value.utf8ByteSize = 0 := by
    obtain ⟨size, rfl⟩ | ⟨rest, -, size⟩ := readToString_eq_ok_iff.mp read
    · omega
    · omega
  rw [String.utf8ByteSize_eq_zero_iff.mp nothing] at visible
  cases visible

/-- What is returned when a cut is noticed. -/
theorem Reads.returned (reads : Reads secrets reference content)
    (small : maxBytes.toNat + 1 < 2 ^ 64) (noticed : Noticed content maxBytes) {x : String}
    (returned : secret secrets reference maxBytes = .ok x) :
    x = trim content ∧ x ≠ "" ∧ x.utf8ByteSize ≤ maxBytes.toNat := by
  obtain ⟨value, read, visible, fits, rfl⟩ := reads.secret_eq_ok_iff.mp returned
  have some : trim value ≠ "" := by
    intro nothing
    rw [← trim_isEmpty, nothing] at visible
    cases visible
  refine ⟨?_, some, fits⟩
  obtain ⟨-, rfl⟩ | ⟨rest, rfl, size⟩ := readToString_eq_ok_iff.mp read
  · rfl
  · rw [toNat_succ small] at size
    rw [Noticed, if_pos small] at noticed
    obtain blank | blank | whole := noticed value rest rfl size
    · exact (trim_append_of_blank blank).symm
    · rw [visible] at blank
      cases blank
    · rw [whole, size] at fits
      exact (Nat.not_succ_le_self _ fits).elim

/-- A text that fits is returned. -/
theorem Reads.fits (reads : Reads secrets reference content)
    (small : maxBytes.toNat + 1 < 2 ^ 64) (visible : isBlank content = false)
    (fits : content.utf8ByteSize ≤ maxBytes.toNat) :
    secret secrets reference maxBytes = .ok (trim content) := by
  refine reads.secret_eq_ok_iff.mpr ⟨content, readToString_eq_ok_iff.mpr (.inl ⟨?_, rfl⟩),
    visible, (size_trim_le content).trans fits, rfl⟩
  rw [toNat_succ small]
  exact Nat.le_succ_of_le fits

/-- The first bytes of a text whose cut leaves white space at an end are returned. -/
theorem Reads.truncated (reads : Reads secrets reference (first ++ rest))
    (small : maxBytes.toNat + 1 < 2 ^ 64) (size : first.utf8ByteSize = maxBytes.toNat + 1)
    (visible : isBlank first = false) (shorter : trim first ≠ first) :
    secret secrets reference maxBytes = .ok (trim first) := by
  refine reads.secret_eq_ok_iff.mpr ⟨first, readToString_eq_ok_iff.mpr (.inr ⟨rest, rfl, ?_⟩),
    visible, ?_, rfl⟩
  · rw [toNat_succ small, size]
  · have less := size_trim_lt shorter
    omega

end Limit

theorem credential_eq_ok {auth : Auth} {x : String}
    (returned : credential secrets auth = .ok x) :
    secret secrets auth.credential 16384 = .ok x ∧ x.toList.any isWhitespace = false := by
  obtain ⟨value, read, checked⟩ := Program.bind_eq_ok_iff.mp returned
  obtain ⟨_, plain, same⟩ := Program.bind_eq_ok_iff.mp checked
  cases same
  exact ⟨read, by simpa using check_eq_ok_iff.mp plain⟩

/-- A secret is used whole or not at all exactly if a cut of its file is noticed, and then a
credential is accepted only if its trimmed file has no white space. -/
theorem secret_whole {auth : Auth} (reads : Reads secrets auth.credential content)
    (maxBytes : UInt64) :
    Whole content maxBytes (secret secrets auth.credential maxBytes) ∧
        (maxBytes = 16384 → ∀ x, credential secrets auth = .ok x →
          (trim content).toList.any isWhitespace = false) ↔
      Noticed content maxBytes := by
  by_cases small : maxBytes.toNat + 1 < 2 ^ 64
  · constructor
    · rintro ⟨⟨used, -⟩, -⟩
      rw [Noticed, if_pos small]
      rintro first rest rfl size
      cases visible : isBlank first with
      | true => exact .inr (.inl rfl)
      | false =>
          cases more : isBlank rest with
          | true => exact .inl rfl
          | false =>
              by_contra unnoticed
              simp only [Bool.false_eq_true, false_or] at unnoticed
              have returned := reads.truncated small size visible unnoticed
              exact trim_append_ne visible more (used _ returned).1.symm
    · intro noticed
      refine ⟨⟨fun x => reads.returned small noticed, fun visible fits =>
        ⟨_, reads.fits small visible fits⟩⟩, ?_⟩
      rintro rfl x accepted
      obtain ⟨returned, plain⟩ := credential_eq_ok accepted
      rwa [← (reads.returned small noticed returned).1]
  · have never := reads.never small
    rw [Noticed, if_neg small]
    constructor
    · rintro ⟨⟨-, fits⟩, -⟩
      cases visible : isBlank content with
      | true => exact .inl rfl
      | false =>
          right
          by_contra short
          obtain ⟨x, returned⟩ := fits visible (Nat.le_of_not_lt short)
          exact never x returned
    · intro noticed
      refine ⟨⟨fun x returned => (never x returned).elim, fun visible fits => ?_⟩, ?_⟩
      · obtain blank | long := noticed
        · rw [visible] at blank
          cases blank
        · exact (Nat.not_lt_of_le fits long).elim
      · rintro rfl
        exact (small (by decide)).elim

/-- A file with the content, in the place of every reference. -/
def holding (content : String) : Secrets where
  file _ := some ⟨true, 0o600, content.toByteArray⟩
  env _ := none

/-- The profile whose credential is the file. -/
def tokenAuth : Auth := ⟨"file:" ++ "/token", none⟩

theorem reads_holding (content : String) :
    Reads (holding content) tokenAuth.credential content :=
  ⟨"/token", ⟨true, 0o600, content.toByteArray⟩, rfl, rfl, rfl, by simp, rfl⟩

theorem secret_whole_token :
    Whole "example-secret\n" 16384
          (secret (holding "example-secret\n") tokenAuth.credential 16384) ∧
        ((16384 : UInt64) = 16384 → ∀ x,
          credential (holding "example-secret\n") tokenAuth = .ok x →
            (trim "example-secret\n").toList.any isWhitespace = false) ↔
      Noticed "example-secret\n" 16384 :=
  secret_whole (reads_holding _) 16384

/-- A space and as many letters as the limit. -/
def paddedToken : List Char := ' ' :: List.replicate 16384 'a'

/-- Trimming the padding of letters, and of what follows them. -/
theorem trim_padded {n : Nat} (some : 0 < n) (tail : List Char) (final : Char)
    (last : ('a' :: tail).getLast? = final) (visible : isWhitespace final = false) :
    Trimming.trim isWhitespace (' ' :: List.replicate n 'a' ++ tail) =
      List.replicate n 'a' ++ tail := by
  obtain ⟨n, rfl⟩ := Nat.exists_eq_add_one_of_ne_zero some.ne'
  have bare : Trimming.Bare isWhitespace (List.replicate (n + 1) 'a' ++ tail) := by
    refine ⟨⟨'a', List.replicate n 'a' ++ tail, rfl, rfl⟩, ?_⟩
    have ends := List.getLast?_eq_some_iff.mp last
    obtain ⟨before, same⟩ := ends
    refine ⟨List.replicate n 'a' ++ before, final, ?_, visible⟩
    rw [List.replicate_succ', List.append_assoc, List.append_assoc, ← same]
    rfl
  have trimmed : Trimming.trim isWhitespace
      ([' '] ++ (List.replicate (n + 1) 'a' ++ tail) ++ []) =
        List.replicate (n + 1) 'a' ++ tail := bare.trim_eq rfl rfl
  rwa [List.append_nil] at trimmed

theorem size_replicate (n : Nat) : (String.ofList (List.replicate n 'a')).utf8ByteSize = n := by
  induction n with
  | zero => rfl
  | succ n ih =>
      rw [List.replicate_succ, ← List.singleton_append, String.ofList_append,
        String.utf8ByteSize_append, ih]
      exact Nat.add_comm 1 n

theorem trim_paddedToken :
    trim (String.ofList paddedToken) = String.ofList (List.replicate 16384 'a') := by
  have core := trim_padded (by decide : 0 < 16384) [] 'a' rfl rfl
  rw [List.append_nil, List.append_nil] at core
  rw [trim, String.toList_ofList, paddedToken, core]

theorem size_paddedToken : (String.ofList paddedToken).utf8ByteSize = 16384 + 1 := by
  rw [paddedToken, ← List.singleton_append, String.ofList_append, String.utf8ByteSize_append,
    size_replicate]
  rfl

/-- A file whose trimmed content is longer than the limit and has a space in it is accepted
as a credential, cut off before the space. -/
theorem secret_truncated :
    Reads (holding (String.ofList paddedToken ++ " b")) tokenAuth.credential
        (String.ofList paddedToken ++ " b") ∧
      credential (holding (String.ofList paddedToken ++ " b")) tokenAuth =
        .ok (String.ofList (List.replicate 16384 'a')) ∧
      (trim (String.ofList paddedToken ++ " b")).toList =
        List.replicate 16384 'a' ++ [' ', 'b'] ∧
      ¬(Whole (String.ofList paddedToken ++ " b") 16384
          (secret (holding (String.ofList paddedToken ++ " b")) tokenAuth.credential 16384) ∧
        ((16384 : UInt64) = 16384 → ∀ x,
          credential (holding (String.ofList paddedToken ++ " b")) tokenAuth = .ok x →
            (trim (String.ofList paddedToken ++ " b")).toList.any isWhitespace = false)) := by
  have reads := reads_holding (String.ofList paddedToken ++ " b")
  have visible : isBlank (String.ofList paddedToken) = false := by
    rw [isBlank, String.toList_ofList, paddedToken, List.replicate_succ]
    rfl
  have shorter : trim (String.ofList paddedToken) ≠ String.ofList paddedToken := by
    intro same
    have size := congrArg String.utf8ByteSize same
    rw [trim_paddedToken, size_replicate, size_paddedToken] at size
    omega
  have returned : secret _ tokenAuth.credential 16384 = _ :=
    reads.truncated (by decide) size_paddedToken visible shorter
  rw [trim_paddedToken] at returned
  have plain : (List.replicate 16384 'a').any isWhitespace = false := by
    rw [List.any_eq_false]
    intro c member
    rw [List.eq_of_mem_replicate member]
    decide
  have accepted : credential (holding (String.ofList paddedToken ++ " b")) tokenAuth =
      .ok (String.ofList (List.replicate 16384 'a')) := by
    rw [credential, returned, Program.ok_bind, String.toList_ofList, plain]
    rfl
  have whole : (trim (String.ofList paddedToken ++ " b")).toList =
      List.replicate 16384 'a' ++ [' ', 'b'] := by
    have core := trim_padded (by decide : 0 < 16384) [' ', 'b'] 'b' rfl rfl
    rw [trim, String.toList_ofList, String.toList_append, String.toList_ofList, paddedToken]
    exact core
  refine ⟨reads, accepted, whole, fun ⟨_, noSpace⟩ => ?_⟩
  have absent := noSpace rfl _ accepted
  rw [whole, List.any_append, plain] at absent
  cases absent

end Secrets

end Runnerctl
