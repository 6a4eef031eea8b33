import LayerGraph.Json.Compound
import LayerGraph.Json.Skip

/-! # JSON records

A record is an object whose members are the fields of a structure, in any order, or an array that
lists the fields in their order.  Members with other names are skipped, a field may not be given
twice, and required fields must be there.

A choice between named variants is a string, or an object with the name as its only member and
`null` as the value of it. -/

namespace LayerGraph.Json

variable {α σ : Type}

/-- A field of a record that is being read: `read` yields the change that the value of the field
    makes to the record. -/
structure RecordField (σ : Type) where
  name : String
  needed : Bool
  read : Reader (σ → σ)

/-- A field that a record may leave out. -/
def RecordField.optional (name : String) (set : α → σ → σ) (read : Reader α) : RecordField σ :=
  ⟨name, false, read.map set⟩

/-- A field that a record must have. -/
def RecordField.required (name : String) (set : α → σ → σ) (read : Reader α) : RecordField σ :=
  ⟨name, true, read.map set⟩

/-- A record that is being read, with the names of the fields that it was given. -/
structure Draft (σ : Type) where
  record : σ
  given : List String

/-- Applies the value of a field. -/
def Draft.give (d : Draft σ) (name : String) (change : σ → σ) : Draft σ :=
  ⟨change d.record, name :: d.given⟩

/-- The record, if it was given all the fields that are required. -/
def Draft.finish? (fields : List (RecordField σ)) (d : Draft σ) : Option σ :=
  if fields.all fun f => !f.needed || d.given.contains f.name then some d.record else none

/-- The reader for the member with a name: a field, which may be given once, or any value at
    all. -/
def fieldMember (fields : List (RecordField σ)) (d : Draft σ) (name : String) :
    Except Fault (Reader (Draft σ)) :=
  match fields.find? fun f => f.name = name with
  | some f =>
    if d.given.contains name then .error .mismatched
    else .ok (f.read.map fun change => d.give name change)
  | none => .ok (skip.map fun _ => d)

/-- Reads fields as the elements of an array, and its closing bracket.  The last fields may be
    missing. -/
def fieldElements (fields : List (RecordField σ)) (first : Bool) (d : Draft σ) (cs : List Char) :
    Except Fault (Parsed (Draft σ) cs.length) :=
  match fields with
  | [] => ((mark ']').map fun _ => d) cs
  | f :: fields => do
    match ← next ']' first cs with
    | .closed rest h => return ⟨d, rest, h⟩
    | .item rest h =>
      let ⟨change, rest', h'⟩ ← f.read rest
      let ⟨d', rest'', h''⟩ ← fieldElements fields false (d.give f.name change) rest'
      return ⟨d', rest'', by omega⟩

/-- Reads fields in either form.  Without fields the record is nested too deeply. -/
def draft (fields : Option (List (RecordField σ))) (d : Draft σ) : Reader (Draft σ) :=
  Reader.afterBlanks fun
    | '{' :: rest => match fields with
      | some fields => do return (← members (fieldMember fields) true d rest).past '{'
      | none => .error .malformed
    | '[' :: rest => match fields with
      | some fields => do return (← fieldElements fields true d rest).past '['
      | none => .error .malformed
    | cs => .error (wrongType cs)

/-- Reads a record.  Fields that are not given have the value that they have in `blank`. -/
def record (fields : Option (List (RecordField σ))) (blank : σ) : Reader σ :=
  (draft fields ⟨blank, []⟩).check (Draft.finish? (fields.getD []))

/-- Reads the name of a variant. -/
def variantName (variants : List (String × α)) : Reader α :=
  quoted.check fun name => variants.lookup name

/-- Reads `null`. -/
def null : Reader Unit := Reader.afterBlanks fun
  | 'n' :: rest => word () "ull".toList 'n' rest
  | cs => .error (wrongType cs)

/-- Reads a variant as the only member of an object, after the opening bracket. -/
def variantMember (variants : List (String × α)) : Reader α := fun cs => do
  let ⟨v, rest₁, h₁⟩ ← variantName variants cs
  let ⟨_, rest₂, h₂⟩ ← mark ':' rest₁
  let ⟨_, rest₃, h₃⟩ ← null rest₂
  let ⟨_, rest₄, h₄⟩ ← mark '}' rest₃
  return ⟨v, rest₄, Nat.lt_trans h₄ (Nat.lt_trans h₃ (Nat.lt_trans h₂ h₁))⟩

/-- Reads one of several named variants.  The object form opens one bracket. -/
def variant (depth : Nat) (variants : List (String × α)) : Reader α := Reader.afterBlanks fun
  | [] => .error .truncated
  | c :: rest =>
    if c = '"' then variantName variants (c :: rest)
    else if c = '{' then
      match depth with
      | 0 => .error .malformed
      | _ + 1 => do return (← variantMember variants rest).past c
    else .error .malformed

end LayerGraph.Json
