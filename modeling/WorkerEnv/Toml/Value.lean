/-
# WorkerEnv.Toml.Value -- TOML values

A document is a table: keys with values, in the order in which they were first written. Integers are
unbounded here; whoever takes a value up says how wide a word it has. A number that no word and no
float can hold is still a value, `unreadable`: it does no harm where nobody looks at it. A moment
that stands where a table is wanted counts as a table with one entry, its text under `momentKey`.
-/

import WorkerEnv.Toml.Moment
import WorkerEnv.Decimal.Double

namespace WorkerEnv.Toml

/-- A TOML value. Tables keep the order of their keys. -/
inductive Value where
  | string (s : String)
  | integer (i : Int)
  | float (x : Decimal.Double)
  | boolean (b : Bool)
  | moment (m : Moment)
  /-- A number whose digits are beyond all bounds or no digits at all. -/
  | unreadable
  | array (items : List Value)
  | table (entries : List (String × Value))
  deriving Inhabited, Repr

/-- The entries of a table. -/
abbrev Table := List (String × Value)

/-! ## Equality -/

mutual

/-- Whether two values are the same. -/
def Value.same : Value → Value → Bool
  | .string s, .string s' => s = s'
  | .integer i, .integer i' => i = i'
  | .float x, .float x' => x = x'
  | .boolean b, .boolean b' => b = b'
  | .moment m, .moment m' => m = m'
  | .unreadable, .unreadable => true
  | .array items, .array items' => itemsSame items items'
  | .table entries, .table entries' => entriesSame entries entries'
  | _, _ => false

/-- `Value.same` item by item. -/
def itemsSame : List Value → List Value → Bool
  | [], [] => true
  | v :: vs, v' :: vs' => v.same v' && itemsSame vs vs'
  | _, _ => false

/-- `Value.same` entry by entry, with the same keys. -/
def entriesSame : List (String × Value) → List (String × Value) → Bool
  | [], [] => true
  | (key, v) :: es, (key', v') :: es' => key = key' && v.same v' && entriesSame es es'
  | _, _ => false

end

mutual

theorem Value.same_iff : ∀ v w : Value, v.same w ↔ v = w
  | .array items, w => by
    cases w <;> simp [Value.same, itemsSame_iff items]
  | .table entries, w => by
    cases w <;> simp [Value.same, entriesSame_iff entries]
  | .string _, w => by cases w <;> simp [Value.same]
  | .integer _, w => by cases w <;> simp [Value.same]
  | .float _, w => by cases w <;> simp [Value.same]
  | .boolean _, w => by cases w <;> simp [Value.same]
  | .moment _, w => by cases w <;> simp [Value.same]
  | .unreadable, w => by cases w <;> simp [Value.same]

theorem itemsSame_iff : ∀ vs ws : List Value, itemsSame vs ws ↔ vs = ws
  | [], ws => by cases ws <;> simp [itemsSame]
  | v :: vs, ws => by
    cases ws <;> simp [itemsSame, Value.same_iff v, itemsSame_iff vs]

theorem entriesSame_iff : ∀ es fs : List (String × Value), entriesSame es fs ↔ es = fs
  | [], fs => by cases fs <;> simp [entriesSame]
  | (key, v) :: es, fs => by
    cases fs <;> simp [entriesSame, Value.same_iff v, entriesSame_iff es, Prod.ext_iff]

end

instance : DecidableEq Value := fun v w => decidable_of_iff _ (Value.same_iff v w)

/-! ## Tests of all parts -/

mutual

/-- Whether a test holds for the value, or for everything in it if it is an array or a table. -/
def Value.allLeaves (test : Value → Bool) : Value → Bool
  | .array items => itemsAll test items
  | .table entries => entriesAll test entries
  | v => test v

/-- `Value.allLeaves` for every item. -/
def itemsAll (test : Value → Bool) : List Value → Bool
  | [] => true
  | v :: vs => v.allLeaves test && itemsAll test vs

/-- `Value.allLeaves` for every entry. -/
def entriesAll (test : Value → Bool) : List (String × Value) → Bool
  | [] => true
  | (_, v) :: es => v.allLeaves test && entriesAll test es

end

/-- Whether a value can be looked at: it holds no number that is unreadable. -/
def Value.isReadable (v : Value) : Bool :=
  v.allLeaves fun
    | .unreadable => false
    | _ => true

/-- Whether a value can be held until it is known what it is for: it is readable, and each of its
integers fits a word of 64 bits, with a sign or without. -/
def Value.isHoldable (v : Value) : Bool :=
  v.allLeaves fun
    | .unreadable => false
    | .integer i => -Int.pow 2 63 ≤ i && i < Int.pow 2 64
    | _ => true

/-- Whether an integer fits a signed word of 64 bits. -/
def fitsWord (i : Int) : Bool := -Int.pow 2 63 ≤ i && i < Int.pow 2 63

/-! ## Values as tables -/

/-- The key under which the text of a moment stands when the moment is taken as a table. -/
def momentKey : String := "$__toml_private_datetime"

/-- The entries of a value that is, or counts as, a table. -/
def Value.asTable? : Value → Option Table
  | .table entries => some entries
  | .moment m => some [(momentKey, .string (String.ofList m.text))]
  | _ => none

end WorkerEnv.Toml
