import XfsVolume.Json.Number

/-!
# Values in JSON

Values are read as the kind that is wanted, and a value of another kind is an error that names what
was found. A record of two fields is read from an object, in which other fields are passed over, or
from a list of its values.
-/

namespace XfsVolume.JsonReader

/-! ## Values that are passed over -/

/-- Takes the colon after a key. -/
def colon : JsonReader Unit := do
  match ← peekToken with
  | some b => if b == asciiByte ':' then skip else failNext .expectedColon
  | none => failNext .endInObject

mutual

/-- Passes over a value, in at most `fuel` steps. -/
def skipValueFor : (fuel : Nat) → JsonReader Unit
  | 0 => failNext .endInValue
  | fuel + 1 => do
    match ← peekToken with
    | none => failNext .endInValue
    | some b =>
      if b == asciiByte 'n' then word "null".toUTF8.data.toList
      else if b == asciiByte 't' then word "true".toUTF8.data.toList
      else if b == asciiByte 'f' then word "false".toUTF8.data.toList
      else if b == asciiByte '-' then
        skip
        skipNumber
      else if isDigitByte b then skipNumber
      else if b == asciiByte '"' then
        skip
        skipText
      else if b == asciiByte '[' then
        skip
        if (← peekToken) == some (asciiByte ']') then skip
        else if (← peek).isNone then failNext .endInList
        else skipItemsFor fuel
      else if b == asciiByte '\x7b' then
        skip
        if (← peekToken) == some (asciiByte '\x7d') then skip
        else if (← peek).isNone then failNext .endInObject
        else skipFieldsFor fuel
      else failNext .expectedValue

/-- Passes over the members of a list and its end. -/
def skipItemsFor : (fuel : Nat) → JsonReader Unit
  | 0 => failNext .endInValue
  | fuel + 1 => do
    skipValueFor fuel
    match ← peekToken with
    | none => failNext .endInList
    | some b =>
      skip
      if b == asciiByte ',' then skipItemsFor fuel
      else if b != asciiByte ']' then failHere .expectedListEnd

/-- Passes over the fields of an object and its end. -/
def skipFieldsFor : (fuel : Nat) → JsonReader Unit
  | 0 => failNext .endInValue
  | fuel + 1 => do
    match ← peekToken with
    | none => failNext .endInObject
    | some b => if b == asciiByte '"' then skip else failNext .keyNotText
    skipText
    colon
    skipValueFor fuel
    match ← peekToken with
    | none => failNext .endInObject
    | some b =>
      skip
      if b == asciiByte ',' then skipFieldsFor fuel
      else if b != asciiByte '\x7d' then failHere .expectedObjectEnd

end

/-- Passes over a value. -/
def skipValue : JsonReader Unit := do skipValueFor (2 * (← get).length + 2)

/-! ## Values of a kind -/

/-- Fails because the value that comes next is not what was expected. -/
def wrongType {α : Type} (expected : String) : JsonReader α := do
  let fail (found : String) : JsonReader α := failHere (.wrongType found expected)
  match ← peek with
  | none => failNext .expectedValue
  | some b =>
    if b == asciiByte 'n' then
      word "null".toUTF8.data.toList
      fail "null"
    else if b == asciiByte 't' then
      word "true".toUTF8.data.toList
      fail "boolean `true`"
    else if b == asciiByte 'f' then
      word "false".toUTF8.data.toList
      fail "boolean `false`"
    else if b == asciiByte '-' then
      skip
      fail (← number false).shown
    else if isDigitByte b then fail (← number true).shown
    else if b == asciiByte '"' then
      skip
      fail s!"string {quoted (← text)}"
    else if b == asciiByte '[' then fail "sequence"
    else if b == asciiByte '\x7b' then fail "map"
    else failNext .expectedValue

/-- The first byte of the value that comes next. -/
def valueStart : JsonReader UInt8 := do
  match ← peekToken with
  | some b => return b
  | none => failNext .endInValue

/-- What a 64-bit unsigned number is called in errors. -/
def wordName : String := "usize"

/-- A whole number of 64 bits. -/
def wordValue : JsonReader Nat := do
  let b ← valueStart
  if b != asciiByte '-' && !isDigitByte b then wrongType wordName
  else
    if b == asciiByte '-' then skip
    match ← number (b != asciiByte '-') with
    | .whole n => return n
    | .negative n => failHere (.wrongValue (JsonNumber.negative n).shown wordName)
    | .real x => failHere (.wrongType (JsonNumber.real x).shown wordName)

/-- A text. -/
def textValue : JsonReader String := do
  if (← valueStart) == asciiByte '"' then
    skip
    text
  else wrongType "a string"

/-- True when another member of a list comes next; `first` before any was read. -/
def hasNextItem (first : Bool) : JsonReader Bool := do
  match ← peekToken with
  | none => failNext .endInList
  | some b =>
    if b == asciiByte ']' then return false
    else if first then return true
    else if b == asciiByte ',' then
      skip
      match ← peekToken with
      | none => failNext .endInValue
      | some b => if b == asciiByte ']' then failNext .trailingComma else return true
    else failNext .expectedListEnd

/-- True when another field of an object comes next; `first` before any was read. -/
def hasNextField (first : Bool) : JsonReader Bool := do
  match ← peekToken with
  | none => failNext .endInObject
  | some b =>
    if b == asciiByte '\x7d' then return false
    else if first then
      if b == asciiByte '"' then return true else failNext .keyNotText
    else if b == asciiByte ',' then
      skip
      match ← peekToken with
      | none => failNext .endInValue
      | some b =>
        if b == asciiByte '"' then return true
        else if b == asciiByte '\x7d' then failNext .trailingComma
        else failNext .keyNotText
    else failNext .expectedObjectEnd

/-- Takes the end of a list. -/
def listEnd : JsonReader Unit := do
  match ← peekToken with
  | none => failNext .endInList
  | some b =>
    if b == asciiByte ']' then skip
    else if b == asciiByte ',' then
      skip
      if (← peekToken) == some (asciiByte ']') then failNext .trailingComma
      else failNext .trailingText
    else failNext .trailingText

/-- Members of a list up to its end, read in at most `fuel` steps. -/
def itemsFor {α : Type} (item : JsonReader α) : (fuel : Nat) → Bool → JsonReader (List α)
  | 0, _ => failNext .endInList
  | fuel + 1, first => do
    if ← hasNextItem first then
      let a ← item
      return a :: (← itemsFor item fuel false)
    else return []

/-- A list. -/
def listValue {α : Type} (item : JsonReader α) : JsonReader (List α) := do
  if (← valueStart) == asciiByte '[' then
    skip
    let items ← itemsFor item ((← get).length + 1) true
    listEnd
    return items
  else wrongType "a sequence"

/-! ## Records of two fields -/

/-- A field of a record: its key and how its value is read. -/
structure JsonField (α : Type) where
  key : String
  value : JsonReader α

/-- Fails at the end of an object, if it comes next. -/
def failInObject {α : Type} (cause : JsonCause) : JsonReader α := do
  if (← peekToken) == some (asciiByte '\x7d') then skip
  failHere cause

/-- Fails at the end of a list, if it comes next. -/
def failInList {α : Type} (cause : JsonCause) : JsonReader α := do
  match ← peekToken with
  | some b =>
    if b == asciiByte ']' then skip
    else if b == asciiByte ',' then
      skip
      skipBlanks
  | none => return ← failHere cause
  failHere cause

/-- The two fields of an object, of which `a` and `b` were met, read in at most `fuel` steps. -/
def pairFieldsFor {α β : Type} (x : JsonField α) (y : JsonField β) :
    (fuel : Nat) → Bool → Option α → Option β → JsonReader (α × β)
  | 0, _, _, _ => failNext .endInObject
  | fuel + 1, first, a, b => do
    if ← hasNextField first then
      skip
      let key ← text
      if key = x.key then
        if a.isSome then failInObject (.duplicateField key)
        else
          colon
          let v ← x.value
          pairFieldsFor x y fuel false (some v) b
      else if key = y.key then
        if b.isSome then failInObject (.duplicateField key)
        else
          colon
          let v ← y.value
          pairFieldsFor x y fuel false a (some v)
      else
        colon
        skipValue
        pairFieldsFor x y fuel false a b
    else
      match a, b with
      | some a, some b =>
        skip
        return (a, b)
      | none, _ => failInObject (.missingField x.key)
      | _, none => failInObject (.missingField y.key)

/-- A record of two fields, called `name` in errors. -/
def pairValue {α β : Type} (name : String) (x : JsonField α) (y : JsonField β) :
    JsonReader (α × β) := do
  let b ← valueStart
  if b == asciiByte '\x7b' then
    skip
    pairFieldsFor x y ((← get).length + 1) true none none
  else if b == asciiByte '[' then
    skip
    let both := s!"struct {name} with 2 elements"
    if !(← hasNextItem true) then failInList (.wrongLength 0 both)
    else
      let v ← x.value
      if !(← hasNextItem false) then failInList (.wrongLength 1 both)
      else
        let w ← y.value
        listEnd
        return (v, w)
  else wrongType s!"struct {name}"

/-- Reads `value` from the whole of `input`. -/
def run {α : Type} (value : JsonReader α) (input : List UInt8) : Except JsonError α := do
  let whole : JsonReader α := do
    let a ← value
    if (← peekToken).isSome then failNext .trailingText
    return a
  return (← StateT.run whole input).1

end XfsVolume.JsonReader
