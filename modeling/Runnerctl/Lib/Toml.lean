import Mathlib

/-!
# TOML values

Value trees of TOML documents, and the readers and writers from which derived
serialization of records is built: required, defaulted and optional fields, and the
rejection of unknown ones.  A table keeps its entries in the order of the document.
-/

namespace Toml

/-- Values with floats in `φ`. -/
inductive Value (φ : Type) where
  | string (text : String)
  | integer (value : Int)
  | float (value : φ)
  | boolean (value : Bool)
  | array (items : List (Value φ))
  | table (entries : List (String × Value φ))

variable {φ α : Type}

abbrev Entries (φ : Type) : Type := List (String × Value φ)

namespace Value

def asString : Value φ → Option String
  | .string text => some text
  | _ => none

def asBool : Value φ → Option Bool
  | .boolean value => some value
  | _ => none

/-- An unsigned integer of a width. -/
def asUnsigned (width : Nat) : Value φ → Option Nat
  | .integer (.ofNat value) => if value < 2 ^ width then some value else none
  | _ => none

/-- A float, or an integer in its place. -/
def asFloat (ofInteger : Int → φ) : Value φ → Option φ
  | .float value => some value
  | .integer value => some (ofInteger value)
  | _ => none

def asArray (read : Value φ → Option α) : Value φ → Option (List α)
  | .array items => items.mapM read
  | _ => none

def asTable : Value φ → Option (Entries φ)
  | .table entries => some entries
  | _ => none

end Value

/-! ## Fields of a record -/

/-- A field that must be there. -/
def required (key : String) (read : Value φ → Option α) (entries : Entries φ) : Option α :=
  (entries.lookup key).bind read

/-- A field with a default. -/
def defaulted (key : String) (value : α) (read : Value φ → Option α) (entries : Entries φ) :
    Option α :=
  match entries.lookup key with
  | some found => read found
  | none => some value

/-- A field that may be left out. -/
def optionally (key : String) (read : Value φ → Option α) (entries : Entries φ) :
    Option (Option α) :=
  match entries.lookup key with
  | some found => (read found).map some
  | none => some none

/-- Unknown fields are rejected. -/
def onlyKeys (keys : List String) (entries : Entries φ) : Option Unit :=
  if entries.all fun entry => keys.contains entry.1 then some () else none

/-- A field that is left out if it has no value. -/
def writeOptional (key : String) (write : α → Value φ) (value : Option α) : Entries φ :=
  value.toList.map fun value => (key, write value)

/-- A field that is left out on a condition. -/
def writeUnless (key : String) (skip : Bool) (value : Value φ) : Entries φ :=
  if skip then [] else [(key, value)]

/-! ## Reading back what was written -/

theorem asUnsigned_integer {width n : Nat} (small : n < 2 ^ width) :
    (Value.integer n : Value φ).asUnsigned width = some n :=
  if_pos small

theorem asUnsigned_lt {width n : Nat} {value : Value φ}
    (back : value.asUnsigned width = some n) : n < 2 ^ width := by
  unfold Value.asUnsigned at back
  split at back
  · split at back
    · next small =>
        cases back
        exact small
    · exact nomatch back
  · exact nomatch back

theorem asArray_map {read : Value φ → Option α} (write : α → Value φ) {items : List α}
    (back : ∀ item ∈ items, read (write item) = some item) :
    (Value.array (items.map write)).asArray read = some items := by
  rw [Value.asArray]
  induction items with
  | nil => rfl
  | cons item rest inductionHypothesis =>
      obtain ⟨first, others⟩ := List.forall_mem_cons.mp back
      rw [List.map_cons, List.mapM_cons, first, inductionHypothesis others]
      rfl

@[simp] theorem lookup_cons (key other : String) (value : Value φ) (rest : Entries φ) :
    List.lookup other ((key, value) :: rest) =
      if other = key then some value else rest.lookup other := by
  by_cases same : other = key
  · simp [same]
  · simp [List.lookup, same, beq_false_of_ne same]

@[simp] theorem lookup_append (key : String) (first second : Entries φ) :
    (first ++ second).lookup key = (first.lookup key).or (second.lookup key) :=
  List.lookup_append ..

@[simp] theorem lookup_writeOptional (key other : String) (write : α → Value φ)
    (value : Option α) :
    (writeOptional key write value).lookup other =
      if other = key then value.map write else none := by
  cases value with
  | none => simp [writeOptional]
  | some value =>
      by_cases same : other = key <;> simp [writeOptional, same]

@[simp] theorem lookup_writeUnless (key other : String) (skip : Bool) (value : Value φ) :
    (writeUnless key skip value).lookup other =
      if other = key ∧ skip = false then some value else none := by
  cases skip with
  | true => simp [writeUnless]
  | false =>
      by_cases same : other = key <;> simp [writeUnless, same]

section Fields

variable {key : String} {read : Value φ → Option α} {entries : Entries φ}

/-- What a field with a default has. -/
theorem defaulted_some {default value : α}
    (back : defaulted key default read entries = some value) :
    value = default ∨ ∃ found, read found = some value := by
  unfold defaulted at back
  split at back
  · exact .inr ⟨_, back⟩
  · exact .inl (Option.some.inj back).symm

/-- A field that is left out when it has its default. -/
theorem defaulted_of_lookup {default value : α} (written : Value φ) (skip : Bool)
    (found : entries.lookup key = if skip then none else some written)
    (skipped : skip = true → value = default) (back : read written = some value) :
    defaulted key default read entries = some value := by
  rw [defaulted, found]
  cases skip with
  | true => exact congrArg some (skipped rfl).symm
  | false => exact back

theorem optionally_of_lookup {value : Option α} (write : α → Value φ)
    (found : entries.lookup key = value.map write)
    (back : ∀ value, read (write value) = some value) :
    optionally key read entries = some value := by
  rw [optionally, found]
  cases value with
  | none => rfl
  | some value => exact congrArg (Option.map some) (back value)

end Fields

@[simp] theorem all_writeOptional (accept : String × Value φ → Bool) (key : String)
    (write : α → Value φ) (value : Option α) :
    (writeOptional key write value).all accept =
      value.all fun value => accept (key, write value) := by
  cases value <;> simp [writeOptional]

@[simp] theorem all_writeUnless (accept : String × Value φ → Bool) (key : String)
    (skip : Bool) (value : Value φ) :
    (writeUnless key skip value).all accept = (skip || accept (key, value)) := by
  cases skip <;> simp [writeUnless]

end Toml
