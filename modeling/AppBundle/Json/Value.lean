import AppBundle.Json.Token

/-!
# JSON values

`Value.parse?` reads a text that is one JSON value.  It takes the tokens one by
one and keeps the arrays and objects that are still open, innermost first;
`State` is what it expects next.  Nothing bounds how deep values nest.

Objects keep all their fields, in order and with repetitions.  What repetitions
mean is for the reader of the value to say.
-/

namespace AppBundle.Json

/-- A value. -/
inductive Value where
  /-- Nothing. -/
  | null
  /-- A truth value. -/
  | boolean (value : Bool)
  /-- A number, with its value if it is written as an integer. -/
  | number (value : Option Int)
  /-- A string, with its text if it has one. -/
  | string (text : Option String)
  /-- An array. -/
  | array (items : List Value)
  /-- An object. -/
  | object (fields : List (Option String × Value))
deriving Repr

/-! ## Reading tokens -/

/-- An array or object that is still open, with its members so far, last first. -/
inductive Frame where
  /-- An array. -/
  | array (items : List Value)
  /-- An object, in which the value of a key comes next. -/
  | object (fields : List (Option String × Value)) (key : Option String)

/-- What is expected next. -/
inductive State where
  /-- A value. -/
  | value
  /-- The first item of an array, or its end. -/
  | item
  /-- The first key of an object, or its end. -/
  | firstKey
  /-- Another key of an object with these fields. -/
  | key (fields : List (Option String × Value))
  /-- The colon after a key of an object with these fields. -/
  | colon (fields : List (Option String × Value)) (key : Option String)
  /-- What may follow a value. -/
  | done (v : Value)

/-- What follows a value that a token is on its own. -/
def scalar? : Token → Option Value
  | .null => some .null
  | .boolean b => some (.boolean b)
  | .number n => some (.number n)
  | .string s => some (.string s)
  | _ => none

/-- The state and the open frames after a token that starts a value. -/
def start? (frames : List Frame) : Token → Option (State × List Frame)
  | .openArray => some (.item, .array [] :: frames)
  | .openObject => some (.firstKey, frames)
  | t => (scalar? t).map fun v => (.done v, frames)

/-- The state and the open frames after a token that follows a value. -/
def follow? (v : Value) : List Frame → Token → Option (State × List Frame)
  | .array items :: frames, .comma => some (.value, .array (v :: items) :: frames)
  | .array items :: frames, .closeArray => some (.done (.array (v :: items).reverse), frames)
  | .object fields key :: frames, .comma => some (.key ((key, v) :: fields), frames)
  | .object fields key :: frames, .closeObject =>
    some (.done (.object ((key, v) :: fields).reverse), frames)
  | _, _ => none

/-- The state and the open frames after a token. -/
def step? : State → List Frame → Token → Option (State × List Frame)
  | .value, frames, t => start? frames t
  | .item, .array [] :: frames, .closeArray => some (.done (.array []), frames)
  | .item, frames, t => start? frames t
  | .firstKey, frames, .closeObject => some (.done (.object []), frames)
  | .firstKey, frames, .string k => some (.colon [] k, frames)
  | .key fields, frames, .string k => some (.colon fields k, frames)
  | .colon fields k, frames, .colon => some (.value, .object fields k :: frames)
  | .done v, frames, t => follow? v frames t
  | _, _, _ => none

/-- The value that the tokens complete. -/
def complete? : State → List Frame → List Token → Option Value
  | .done v, [], [] => some v
  | _, _, [] => none
  | s, frames, t :: ts => do
    let (s, frames) ← step? s frames t
    complete? s frames ts

/-- The value that a text writes. -/
def Value.parse? (text : String) : Option Value := do
  complete? .value [] (← tokens? text.toList)

/-! ## Reading values -/

namespace Value

/-- The text of a string. -/
def text? : Value → Option String
  | string text => text
  | _ => none

/-- The truth value. -/
def boolean? : Value → Option Bool
  | boolean b => some b
  | _ => none

/-- The integer of a number. -/
def integer? : Value → Option Int
  | number n => n
  | _ => none

/-- The integer of a number, as a word. -/
def word? (v : Value) : Option UInt32 := do
  let n ← v.integer?
  if 0 ≤ n then Text.word32? n.toNat else none

/-- The integer of a number, as a signed word. -/
def signed? (v : Value) : Option Int32 := v.integer?.bind Text.signed32?

/-- The items of an array. -/
def items? : Value → Option (List Value)
  | array items => some items
  | _ => none

/-- The texts of an array of strings. -/
def texts? (v : Value) : Option (List String) := do (← v.items?).mapM text?

/-- A value that may be nothing. -/
def optional? {α : Type} (read : Value → Option α) : Value → Option (Option α)
  | null => some none
  | v => (read v).map some

/-- The fields of a record with these keys.  The record is an object, in which no
key of them stands twice and others do not count, or an array of the fields in
order, of which the last ones may be missing. -/
def record? (keys : List String) : Value → Option (List (String × Value))
  | object fields => do
    let fields ← fields.mapM fun (key, v) => key.map (·, v)
    let known := fields.filter fun (key, _) => keys.contains key
    if (known.map (·.1)).Nodup then some known else none
  | array items => if items.length ≤ keys.length then some (keys.zip items) else none
  | _ => none

/-- Reads a field of a record, or takes a default when it is missing. -/
def field? {α : Type} (fields : List (String × Value)) (key : String) (read : Value → Option α)
    (default : Option α) : Option α :=
  match fields.lookup key with
  | some v => read v
  | none => default

end Value

end AppBundle.Json
