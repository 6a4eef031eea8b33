import LayerGraph.Value

/-! # Literals

The text of a parameter value in a generated program.  A `LiteralStyle` holds the spellings of one
language.  Text values stand between single quotes as they are; nothing in them is escaped.

`LiteralStyle.text` defines the literal by recursion on the value.  `LiteralStyle.write` appends the
same literal to a buffer with an agenda of pieces in place of the recursion, so that the depth of
a value costs no stack. -/

namespace LayerGraph

namespace Value

mutual
/-- The number of steps that writing this value takes at most. -/
def weight : Value → Nat
  | .seq items => weightAll items + 2
  | _ => 1

/-- The weights of several values, each with one step for the separator after it. -/
def weightAll : List Value → Nat
  | [] => 0
  | v :: vs => v.weight + 1 + weightAll vs
end

end Value

/-- How a language spells sequences, the two truth values and the absence of a value. -/
structure LiteralStyle where
  /-- Opens a sequence. -/
  opening : String
  /-- Closes a sequence. -/
  closing : String
  /-- Stands between two elements of a sequence. -/
  separator : String
  /-- Whether a separator also follows the last element. -/
  trailing : Bool
  yes : String
  no : String
  absent : String
deriving DecidableEq, Repr

namespace LiteralStyle

/-- Python tuples: `(3,3,)`. -/
def python : LiteralStyle := ⟨"(", ")", ",", true, "True", "False", "None"⟩

/-- JavaScript arrays: `[3, 3]`. -/
def javascript : LiteralStyle := ⟨"[", "]", ", ", false, "true", "false", "null"⟩

variable (style : LiteralStyle)

/-- What follows the last element of a sequence. -/
def afterLast : String := if style.trailing then style.separator else ""

/-- The literal of a value that is not a sequence; a sequence has no text here. -/
def scalar : Value → String
  | .null => style.absent
  | .bool true => style.yes
  | .bool false => style.no
  | .number n => n.text
  | .text s => "'" ++ s ++ "'"
  | .seq _ => ""

mutual
/-- The literal of a value. -/
def text : Value → String
  | .seq items => style.opening ++ elements items ++ style.closing
  | .null => style.scalar .null
  | .bool b => style.scalar (.bool b)
  | .number n => style.scalar (.number n)
  | .text s => style.scalar (.text s)

/-- The literals of the elements of a sequence, with the separators. -/
def elements : List Value → String
  | [] => ""
  | [v] => text v ++ style.afterLast
  | v :: w :: rest => text v ++ style.separator ++ elements (w :: rest)
end

/-- A piece of a literal that is still to be written. -/
inductive Piece where
  | text (s : String)
  | value (v : Value)

/-- The number of steps that writing a piece takes at most. -/
def Piece.weight : Piece → Nat
  | .text _ => 1
  | .value v => v.weight

/-- The elements of a sequence as pieces, with the separators. -/
def pieces : List Value → List Piece
  | [] => []
  | [v] => [.value v, .text style.afterLast]
  | v :: w :: rest => .value v :: .text style.separator :: pieces (w :: rest)

/-- The weights of the pieces of an agenda. -/
def agendaWeight : List Piece → Nat
  | [] => 0
  | piece :: rest => piece.weight + agendaWeight rest

/-- The weight of an agenda is that of its parts. -/
private theorem agendaWeight_append (before after : List Piece) :
    agendaWeight (before ++ after) = agendaWeight before + agendaWeight after := by
  induction before with
  | nil => simp [agendaWeight]
  | cons piece before ih => simp [agendaWeight, ih]; omega

/-- Brackets and separators weigh nothing. -/
private theorem agendaWeight_pieces (items : List Value) :
    agendaWeight (style.pieces items) = Value.weightAll items := by
  fun_induction pieces style items with
  | case1 => simp [agendaWeight, Value.weightAll]
  | case2 v => simp [agendaWeight, Piece.weight, Value.weightAll]
  | case3 v w rest ih => simp [agendaWeight, Piece.weight, Value.weightAll, ih]; omega

/-- Writes the pieces of an agenda after `out`.  A sequence on top of the agenda is replaced by the
    pieces that it consists of. -/
def writePieces (out : String) : List Piece → String
  | [] => out
  | .text s :: rest => writePieces (out ++ s) rest
  | .value (.seq items) :: rest =>
    writePieces (out ++ style.opening) (style.pieces items ++ .text style.closing :: rest)
  | .value v :: rest => writePieces (out ++ style.scalar v) rest
termination_by agenda => agendaWeight agenda
decreasing_by
  · simp [agendaWeight, Piece.weight]
  · simp [agendaWeight, agendaWeight_append, agendaWeight_pieces, Piece.weight, Value.weight]
    omega
  · cases v <;> simp_all [agendaWeight, Piece.weight, Value.weight]

/-- Appends the literal of a value to `out`. -/
def write (out : String) (v : Value) : String := style.writePieces out [.value v]

/-- The literal of a value, as it is written to an empty buffer. -/
def literal (v : Value) : String := style.write "" v

end LiteralStyle

end LayerGraph
