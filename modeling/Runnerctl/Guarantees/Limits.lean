import Runnerctl.Metatheory.Configuration
import Runnerctl.Model.Scanner

/-!
# Memory limits

The scanner never cuts a character in two and never overflows, it computes what the checks
of a configuration compute, and it accepts exactly the grammar of memory limits.
-/

namespace Runnerctl.Scanner

/-! ## Cutting at the first character that is not a digit -/

/-- The cut falls between the characters before the first wanted one and the rest. -/
theorem splitAt_find (wanted : Char → Bool) (text : List Char) :
    splitAt ((find wanted text).getD (size text)) text =
      some (text.takeWhile (fun c => !wanted c), text.dropWhile (fun c => !wanted c)) := by
  induction text with
  | nil => rfl
  | cons c text ih =>
      cases found : wanted c with
      | true => simp [find, found, splitAt]
      | false =>
          have offset : (find wanted (c :: text)).getD (size (c :: text)) =
              c.utf8Size + (find wanted text).getD (size text) := by
            simp only [find, found, Bool.false_eq_true, if_false, size, List.map_cons,
              List.sum_cons]
            cases find wanted text <;> rfl
          obtain ⟨n, positive⟩ := Nat.exists_eq_succ_of_ne_zero (Nat.ne_of_gt c.utf8Size_pos)
          rw [offset, List.takeWhile_cons_of_pos (by simp [found]),
            List.dropWhile_cons_of_pos (by simp [found])]
          have step : splitAt (c.utf8Size + (find wanted text).getD (size text)) (c :: text) =
              (splitAt ((find wanted text).getD (size text)) text).map
                fun parts => (c :: parts.1, parts.2) := by
            rw [positive, Nat.succ_add, splitAt, positive]
            simp [show n + 1 ≤ n + (find wanted text).getD (size text) + 1 by omega]
          rw [step, ih, Option.map_some]

/-! ## Digits -/

/-- The value of digits after others. -/
def decimalFrom (value : Nat) (digits : List Char) : Nat :=
  digits.foldl (fun value c => value * 10 + (c.toNat - '0'.toNat)) value

theorem le_decimalFrom (value : Nat) (digits : List Char) :
    value ≤ decimalFrom value digits := by
  induction digits generalizing value with
  | nil => exact Nat.le_refl _
  | cons c digits ih =>
      have more := ih (value * 10 + (c.toNat - '0'.toNat))
      rw [decimalFrom, List.foldl_cons]
      exact Nat.le_trans (by omega) more

/-- A result that has to fit into 64 bits. -/
def fits (n : Nat) : Option Nat := if n < 2 ^ 64 then some n else none

theorem map_eq_fits_iff {result : Option UInt64} {n : Nat} {value : UInt64}
    (computed : result.map UInt64.toNat = fits n) :
    result = some value ↔ n < 2 ^ 64 ∧ value.toNat = n := by
  rw [fits] at computed
  split at computed
  · next small =>
    obtain ⟨actual, rfl, rfl⟩ := Option.map_eq_some_iff.mp computed
    simp only [Option.some.injEq, small, true_and, ← UInt64.toNat_inj, eq_comm]
  · next large =>
    rw [Option.map_eq_none_iff.mp computed]
    exact ⟨nofun, fun within => (large within.1).elim⟩

theorem checkedMul_fits (a b : UInt64) :
    (checkedMul a b).map UInt64.toNat = fits (a.toNat * b.toNat) := by
  rw [checkedMul, fits]
  split
  · next small => rw [Option.map_some, UInt64.toNat_mul, Nat.mod_eq_of_lt small]
  · rfl

theorem checkedAdd_fits (a b : UInt64) :
    (checkedAdd a b).map UInt64.toNat = fits (a.toNat + b.toNat) := by
  rw [checkedAdd, fits]
  split
  · next small => rw [Option.map_some, UInt64.toNat_add, Nat.mod_eq_of_lt small]
  · rfl

theorem digit_lt {c : Char} (digit : c.isDigit = true) : c.toNat - '0'.toNat < 10 := by
  simp only [Char.isDigit, Bool.and_eq_true, decide_eq_true_eq] at digit
  have high : c.toNat ≤ '9'.toNat := digit.2
  have nine : '9'.toNat = 57 := rfl
  have zero : '0'.toNat = 48 := rfl
  omega

theorem parseDigit_fits {c : Char} (digit : c.isDigit = true) (value : UInt64) :
    (parseDigit value c).map UInt64.toNat =
      fits (value.toNat * 10 + (c.toNat - '0'.toNat)) := by
  have small : (UInt64.ofNat (c.toNat - '0'.toNat)).toNat = c.toNat - '0'.toNat :=
    UInt64.toNat_ofNat_of_lt' (Nat.lt_trans (digit_lt digit) (by decide))
  have multiplied := checkedMul_fits value 10
  rw [parseDigit, if_pos digit]
  cases product : checkedMul value 10 with
  | none =>
      rw [product, fits] at multiplied
      split at multiplied
      · cases multiplied
      · next large =>
        have large : ¬value.toNat * 10 < 2 ^ 64 := large
        rw [fits, if_neg (by omega)]
        rfl
  | some shifted =>
      rw [product, fits] at multiplied
      split at multiplied
      · have exactly : shifted.toNat = value.toNat * 10 := Option.some.inj multiplied
        have added := checkedAdd_fits shifted (UInt64.ofNat (c.toNat - '0'.toNat))
        rwa [exactly, small] at added
      · cases multiplied

/-- Reading digits after others overflows exactly when the whole number does. -/
theorem foldlM_fits {digits : List Char} (all : digits.all Char.isDigit = true)
    (value : UInt64) :
    (digits.foldlM parseDigit value).map UInt64.toNat =
      fits (decimalFrom value.toNat digits) := by
  induction digits generalizing value with
  | nil => exact (if_pos value.toNat_lt).symm
  | cons c digits ih =>
      rw [List.all_cons, Bool.and_eq_true] at all
      have first := parseDigit_fits all.1 value
      rw [List.foldlM_cons]
      have more : value.toNat * 10 + (c.toNat - '0'.toNat) ≤
          decimalFrom value.toNat (c :: digits) :=
        le_decimalFrom (value.toNat * 10 + (c.toNat - '0'.toNat)) digits
      cases read : parseDigit value c with
      | none =>
          rw [read, fits] at first
          split at first
          · cases first
          · rw [fits, if_neg (by omega)]
            rfl
      | some next =>
          rw [read, fits] at first
          split at first
          · have exactly := Option.some.inj first
            refine (ih all.2 next).trans ?_
            rw [exactly]
            rfl
          · cases first

/-- What `u64::from_str` makes of digits alone. -/
theorem parse_fits {digits : List Char} (all : digits.all Char.isDigit = true) :
    (parse digits).map UInt64.toNat =
      if digits = [] then none else fits (decimal digits) := by
  cases digits with
  | nil => rfl
  | cons c digits =>
      have digit : c.isDigit = true := (Bool.and_eq_true_iff.mp all).1
      have unsigned : parse (c :: digits) = (c :: digits).foldlM parseDigit 0 := by
        unfold parse
        split
        · next same => cases same
        · next same =>
          cases same
          cases digit
        · next same =>
          cases same
          cases digit
        · next same =>
          cases same
          cases digit
        · rfl
      rw [unsigned, foldlM_fits all, if_neg (by simp)]
      rfl

/-! ## The suffix -/

theorem toNat_toLower {c : Char} (upper : c.isUpper = true) :
    c.toLower.toNat = c.toNat + 32 := by
  have within : c.val ≥ 'A'.val ∧ c.val ≤ 'Z'.val := by simpa [Char.isUpper] using upper
  have small : c.val.toNat ≤ 90 := within.2
  rw [Char.toLower, dif_pos within]
  change (c.val + ('a'.val - 'A'.val)).toNat = c.val.toNat + 32
  rw [UInt32.toNat_add]
  change (c.val.toNat + 32) % 2 ^ 32 = c.val.toNat + 32
  omega

theorem toLower_eq_self {c : Char} (lower : c.isUpper = false) : c.toLower = c := by
  rw [Char.toLower, dif_neg]
  intro within
  have upper : c.isUpper = true := by simpa [Char.isUpper] using within
  rw [lower] at upper
  cases upper

/-- Two characters are lowered to a letter: the letter and its capital. -/
theorem toLower_eq_iff {c letter capital : Char} (lower : letter.isUpper = false)
    (upper : capital.isUpper = true) (pair : capital.toLower = letter) :
    c.toLower = letter ↔ c = letter ∨ c = capital := by
  constructor
  · rintro rfl
    cases isUpper : c.isUpper with
    | true =>
        have same : c.toLower.toNat = capital.toLower.toNat := by rw [pair]
        rw [toNat_toLower isUpper, toNat_toLower upper] at same
        exact .inr (Char.toNat_inj.mp (Nat.add_right_cancel same))
    | false => exact .inl (toLower_eq_self isUpper).symm
  · rintro (rfl | rfl)
    · exact toLower_eq_self lower
    · exact pair

theorem map_toLower_eq {suffix : List Char} (letter capital : Char)
    (lower : letter.isUpper = false) (upper : capital.isUpper = true)
    (pair : capital.toLower = letter) :
    suffix.map Char.toLower = [letter] ↔ suffix = [letter] ∨ suffix = [capital] := by
  cases suffix with
  | nil => simp
  | cons c rest => simp [toLower_eq_iff lower upper pair, or_and_right]

/-- The suffixes of the grammar, with their factors. -/
def Multiplies (suffix : List Char) (factor : Nat) : Prop :=
  (suffix = [] ∨ suffix = ['b'] ∨ suffix = ['B']) ∧ factor = 1 ∨
  (suffix = ['k'] ∨ suffix = ['K']) ∧ factor = 2 ^ 10 ∨
  (suffix = ['m'] ∨ suffix = ['M']) ∧ factor = 2 ^ 20 ∨
  (suffix = ['g'] ∨ suffix = ['G']) ∧ factor = 2 ^ 30

/-- The suffix, once lowered. -/
theorem multiplies_iff {suffix : List Char} {factor : Nat} :
    Multiplies suffix factor ↔
      (suffix.map Char.toLower = [] ∨ suffix.map Char.toLower = ['b']) ∧ factor = 1 ∨
      suffix.map Char.toLower = ['k'] ∧ factor = 1024 ∨
      suffix.map Char.toLower = ['m'] ∧ factor = 1024 * 1024 ∨
      suffix.map Char.toLower = ['g'] ∧ factor = 1024 * 1024 * 1024 := by
  rw [map_toLower_eq 'b' 'B' rfl rfl rfl, map_toLower_eq 'k' 'K' rfl rfl rfl,
    map_toLower_eq 'm' 'M' rfl rfl rfl, map_toLower_eq 'g' 'G' rfl rfl rfl,
    List.map_eq_nil_iff]
  rfl

/-! ## The grammar -/

/-- The product is within the bounds.  Stated with a factor of which only its value is
known, since evaluating the product of an unknown number takes too long. -/
theorem product_eq_ok_iff {value multiplier bytes : UInt64} {denotes : UInt64 → Prop}
    (only : ∀ factor, denotes factor ↔ factor = multiplier) :
    (do
      let bytes ← (checkedMul value multiplier).elim
        (.error (.msg "memory limit too large")) .ok
      check (decide (6 * 1024 * 1024 ≤ bytes)) "memory must be at least 6 MiB"
      return bytes) = (.ok bytes : Except Error UInt64) ↔
    ∃ v factor, some value = some v ∧ denotes factor ∧ checkedMul v factor = some bytes ∧
      6 * 1024 * 1024 ≤ bytes := by
  rw [Program.bind_eq_ok_iff]
  constructor
  · rintro ⟨product, multiplied, checked⟩
    obtain ⟨_, large, returned⟩ := Program.bind_eq_ok_iff.mp checked
    cases returned
    cases result : checkedMul value multiplier with
    | none =>
        rw [result] at multiplied
        cases multiplied
    | some _ =>
        rw [result] at multiplied
        cases multiplied
        exact ⟨value, multiplier, rfl, (only _).mpr rfl, result,
          of_decide_eq_true (check_eq_ok_iff.mp large)⟩
  · rintro ⟨_, factor, ⟨⟩, denoted, result, large⟩
    rw [(only factor).mp denoted] at result
    rw [result]
    exact ⟨bytes, rfl, Program.bind_eq_ok_iff.mpr
      ⟨(), check_eq_ok_iff.mpr (decide_eq_true large), rfl⟩⟩

theorem limit_eq_ok_iff {digits suffix : List Char} {bytes : UInt64} :
    limit digits suffix = .ok bytes ↔
      ∃ value multiplier, parse digits = some value ∧ Multiplies suffix multiplier.toNat ∧
        checkedMul value multiplier = some bytes ∧ 6 * 1024 * 1024 ≤ bytes := by
  simp only [multiplies_iff]
  unfold limit
  generalize suffix.map Char.toLower = suffix
  cases parse digits with
  | none => simp [Program.bind_eq_ok_iff]
  | some value =>
      simp only [Option.elim_some]
      split
      case h_6 notNone notB notK notM notG =>
        simp [show suffix ≠ [] from notNone, show suffix ≠ ['b'] from notB,
          show suffix ≠ ['k'] from notK, show suffix ≠ ['m'] from notM,
          show suffix ≠ ['g'] from notG, Program.bind_eq_ok_iff]
      all_goals
        rw [Program.ok_bind, Program.ok_bind]
        exact product_eq_ok_iff fun factor => by simp [← UInt64.toNat_inj]

/-- The product in the checks of a configuration. -/
theorem checked_eq_ok_iff {value multiplier n : Nat} {denotes : Nat → Prop}
    (only : ∀ factor, denotes factor ↔ factor = multiplier) :
    (do
      check (decide (value * multiplier < 2 ^ 64)) "memory limit too large"
      check (decide (6 * 1024 * 1024 ≤ value * multiplier)) "memory must be at least 6 MiB"
      return value * multiplier) = (.ok n : Except Error Nat) ↔
    ∃ factor, denotes factor ∧ value * factor < 2 ^ 64 ∧
      6 * 1024 * 1024 ≤ value * factor ∧ n = value * factor := by
  simp only [only, exists_eq_left, Program.bind_eq_ok_iff, check_eq_ok_iff,
    decide_eq_true_eq]
  constructor
  · rintro ⟨_, small, _, large, returned⟩
    cases returned
    exact ⟨small, large, rfl⟩
  · rintro ⟨small, large, rfl⟩
    exact ⟨(), small, (), large, rfl⟩

/-- What the checks of a configuration accept. -/
theorem memoryBytes_eq_ok_iff {s : String} {n : Nat} :
    Runnerctl.memoryBytes s = .ok n ↔
      s.toList.takeWhile Char.isDigit ≠ [] ∧
      decimal (s.toList.takeWhile Char.isDigit) < 2 ^ 64 ∧
      ∃ factor, Multiplies (s.toList.dropWhile Char.isDigit) factor ∧
        decimal (s.toList.takeWhile Char.isDigit) * factor < 2 ^ 64 ∧
        6 * 1024 * 1024 ≤ decimal (s.toList.takeWhile Char.isDigit) * factor ∧
        n = decimal (s.toList.takeWhile Char.isDigit) * factor := by
  simp only [multiplies_iff]
  unfold Runnerctl.memoryBytes
  dsimp only
  generalize s.toList.takeWhile Char.isDigit = digits
  generalize (s.toList.dropWhile Char.isDigit).map Char.toLower = suffix
  rw [Program.bind_eq_ok_iff]
  simp only [check_eq_ok_iff, Bool.and_eq_true, Bool.not_eq_true', List.isEmpty_eq_false_iff,
    decide_eq_true_eq, exists_const, and_assoc]
  refine and_congr_right fun _ => and_congr_right fun _ => ?_
  split
  case h_6 notNone notB notK notM notG =>
    simp [show suffix ≠ [] from notNone, show suffix ≠ ['b'] from notB,
      show suffix ≠ ['k'] from notK, show suffix ≠ ['m'] from notM,
      show suffix ≠ ['g'] from notG, Program.bind_eq_ok_iff]
  all_goals
    rw [Program.ok_bind]
    exact checked_eq_ok_iff fun factor => by simp

/-! ## The grammar -/

section Grammar

variable {digits suffix : List Char} {factor : Nat}

theorem Multiplies.pos (multiplies : Multiplies suffix factor) : 0 < factor := by
  obtain ⟨-, rfl⟩ | ⟨-, rfl⟩ | ⟨-, rfl⟩ | ⟨-, rfl⟩ := multiplies <;> decide

/-- A suffix of the grammar begins with no digit. -/
theorem Multiplies.cut (multiplies : Multiplies suffix factor) :
    suffix.takeWhile Char.isDigit = [] ∧ suffix.dropWhile Char.isDigit = suffix := by
  obtain ⟨rfl | rfl | rfl, -⟩ | ⟨rfl | rfl, -⟩ | ⟨rfl | rfl, -⟩ | ⟨rfl | rfl, -⟩ :=
    multiplies
  all_goals exact ⟨rfl, rfl⟩

/-- The scanner cuts a text of the grammar where its digits end. -/
theorem cut_eq {s : String} (all : ∀ c ∈ digits, c.isDigit = true)
    (multiplies : Multiplies suffix factor) (text : s.toList = digits ++ suffix) :
    s.toList.takeWhile Char.isDigit = digits ∧ s.toList.dropWhile Char.isDigit = suffix := by
  rw [text, List.takeWhile_append_of_pos all, List.dropWhile_append_of_pos all]
  exact ⟨by rw [multiplies.cut.1, List.append_nil], multiplies.cut.2⟩

theorem Multiplies.toNat (multiplies : Multiplies suffix factor) :
    (UInt64.ofNat factor).toNat = factor := by
  obtain ⟨-, rfl⟩ | ⟨-, rfl⟩ | ⟨-, rfl⟩ | ⟨-, rfl⟩ := multiplies <;> rfl

theorem parse_eq_some_iff (all : digits.all Char.isDigit = true) {value : UInt64} :
    parse digits = some value ↔
      digits ≠ [] ∧ decimal digits < 2 ^ 64 ∧ value.toNat = decimal digits := by
  have read := parse_fits all
  by_cases empty : digits = []
  · subst digits
    simp [parse]
  · rw [if_neg empty] at read
    rw [map_eq_fits_iff read]
    simp [empty]

/-- What the scanner makes of the two parts. -/
theorem limit_eq_ok_iff_grammar (all : digits.all Char.isDigit = true) {bytes : UInt64} :
    limit digits suffix = .ok bytes ↔
      digits ≠ [] ∧ decimal digits < 2 ^ 64 ∧ ∃ factor, Multiplies suffix factor ∧
        decimal digits * factor < 2 ^ 64 ∧ 6 * 1024 * 1024 ≤ decimal digits * factor ∧
        bytes.toNat = decimal digits * factor := by
  simp only [limit_eq_ok_iff, parse_eq_some_iff all, map_eq_fits_iff (checkedMul_fits _ _),
    UInt64.le_iff_toNat_le]
  constructor
  · rintro ⟨value, multiplier, ⟨some, small, exactly⟩, multiplies,
      ⟨fits, product⟩, large⟩
    rw [exactly] at fits product
    exact ⟨some, small, _, multiplies, fits, product ▸ large, product⟩
  · rintro ⟨some, small, factor, multiplies, fits, large, product⟩
    have value : (UInt64.ofNat (decimal digits)).toNat = decimal digits :=
      UInt64.toNat_ofNat_of_lt' small
    refine ⟨UInt64.ofNat (decimal digits), UInt64.ofNat factor, ⟨some, small, value⟩, ?_, ?_,
      product ▸ large⟩
    · rwa [multiplies.toNat]
    · rw [multiplies.toNat, value]
      exact ⟨fits, product⟩

end Grammar

/-- The scanner accepts the digits of a number and at most one letter for the factor, if the
product is at least 6 MiB and fits into 64 bits, and returns the product.  It never panics,
and it accepts what the checks of a configuration accept. -/
theorem memory_bytes_grammar (s : String) :
    ∃ outcome, memoryBytes s = some outcome ∧
      (∀ n, Runnerctl.memoryBytes s = .ok n ↔ ∃ bytes, outcome = .ok bytes ∧
        bytes.toNat = n) ∧
      ∀ bytes, outcome = .ok bytes ↔
        ∃ digits suffix factor, s.toList = digits ++ suffix ∧ digits ≠ [] ∧
          (∀ c ∈ digits, c.isDigit = true) ∧ Multiplies suffix factor ∧
          decimal digits * factor < 2 ^ 64 ∧ 6 * 2 ^ 20 ≤ decimal digits * factor ∧
          bytes.toNat = decimal digits * factor := by
  have cut := splitAt_find (fun c => !c.isDigit) s.toList
  simp only [Bool.not_not] at cut
  have all := List.all_takeWhile (l := s.toList) (p := Char.isDigit)
  refine ⟨limit (s.toList.takeWhile Char.isDigit) (s.toList.dropWhile Char.isDigit), ?_, ?_, ?_⟩
  · rw [memoryBytes, cut]
    rfl
  · intro n
    simp only [memoryBytes_eq_ok_iff, limit_eq_ok_iff_grammar all]
    constructor
    · rintro ⟨some, small, factor, multiplies, fits, large, rfl⟩
      have product := UInt64.toNat_ofNat_of_lt' fits
      exact ⟨_, ⟨some, small, factor, multiplies, fits, large, product⟩, product⟩
    · rintro ⟨bytes, ⟨some, small, factor, multiplies, fits, large, product⟩, rfl⟩
      exact ⟨some, small, factor, multiplies, fits, large, product⟩
  · intro bytes
    rw [limit_eq_ok_iff_grammar all]
    constructor
    · rintro ⟨some, -, factor, multiplies, fits, large, product⟩
      exact ⟨_, _, factor, List.takeWhile_append_dropWhile.symm, some,
        List.all_eq_true.mp all, multiplies, fits, large, product⟩
    · rintro ⟨digits, suffix, factor, text, some, digit, multiplies, fits, large, product⟩
      obtain ⟨first, rest⟩ := cut_eq digit multiplies text
      rw [first, rest]
      have small : decimal digits < 2 ^ 64 :=
        Nat.lt_of_le_of_lt (Nat.le_mul_of_pos_right _ multiplies.pos) fits
      exact ⟨some, small, factor, multiplies, fits, large, product⟩

end Runnerctl.Scanner
