import LayerGraph.Json.Numeral
import LayerGraph.Json.Text

/-! # The grammar of JSON

What a JSON text looks like, said without reading it.  The parts of the grammar that have a value
come with it: `NumeralText` relates a numeral to the ways of writing it, and `Spells` a string to
all its spellings, with or without escapes.  `IsValue` is the grammar alone.  There a number may
have any size, values may nest to any depth, and a `\u` escape may be any code unit, whether or not
the text means something. -/

namespace LayerGraph.Json

/-- Nothing but blanks. -/
def Blank (cs : List Char) : Prop := ∀ c ∈ cs, isBlank c = true

/-! ## Numbers -/

/-- One digit or more. -/
structure Digits (cs : List Char) : Prop where
  nonempty : cs ≠ []
  all : ∀ c ∈ cs, c.isDigit = true

/-- The digits after the point, with the point. -/
inductive FractionText : Option (List Char) → List Char → Prop
  | absent : FractionText none []
  | present {digits : List Char} (h : Digits digits) : FractionText (some digits) ('.' :: digits)

/-- The sign of an exponent, which is positive without one. -/
inductive SignText : Bool → List Char → Prop
  | absent : SignText false []
  | plus : SignText false ['+']
  | minus : SignText true ['-']

/-- An exponent with its mark and sign. -/
inductive ExponentText : Option (Bool × List Char) → List Char → Prop
  | absent : ExponentText none []
  | present {mark : Char} {negative : Bool} {sign digits : List Char}
    (hmark : mark = 'e' ∨ mark = 'E') (hsign : SignText negative sign) (h : Digits digits) :
    ExponentText (some (negative, digits)) (mark :: (sign ++ digits))

/-- A number as it is written.  Only zero itself starts with a zero. -/
inductive NumeralText : Numeral → List Char → Prop
  | mk {negative : Bool} {whole fractionText exponentText : List Char}
    {fraction : Option (List Char)} {exponent : Option (Bool × List Char)} (hwhole : Digits whole)
    (hzero : whole.head? = some '0' → whole = ['0'])
    (hfraction : FractionText fraction fractionText)
    (hexponent : ExponentText exponent exponentText) :
    NumeralText ⟨negative, whole, fraction, exponent⟩
      ((if negative then ['-'] else []) ++ (whole ++ (fractionText ++ exponentText)))

/-! ## Strings -/

/-- The four hexadecimal digits of a code unit. -/
inductive CodeUnit : List Char → Nat → Prop
  | mk {a b c d : Char} {w x y z : Nat} (ha : hexDigit? a = some w) (hb : hexDigit? b = some x)
    (hc : hexDigit? c = some y) (hd : hexDigit? d = some z) :
    CodeUnit [a, b, c, d] (((w * 16 + x) * 16 + y) * 16 + z)

/-- A character that stands for itself in a string. -/
structure Plain (c : Char) : Prop where
  notQuote : c ≠ '"'
  notBackslash : c ≠ '\\'
  notControl : 0x20 ≤ c.toNat

/-- A character of a string as it may be written: itself, a short escape, the escape of its code
    unit, or those of the two code units of a surrogate pair. -/
inductive SpellsChar : List Char → Char → Prop
  | plain {c : Char} (h : Plain c) : SpellsChar [c] c
  | short {e c : Char} (h : unescape? e = some c) : SpellsChar ['\\', e] c
  | unit {digits : List Char} {u : Nat} (h : CodeUnit digits u) (hlow : isLowSurrogate u = false)
    (hhigh : isHighSurrogate u = false) : SpellsChar ('\\' :: 'u' :: digits) (Char.ofNat u)
  | pair {digits digits' : List Char} {u u' : Nat} (h : CodeUnit digits u)
    (h' : CodeUnit digits' u') (hhigh : isHighSurrogate u = true)
    (hlow : isLowSurrogate u' = true) :
    SpellsChar ('\\' :: 'u' :: (digits ++ '\\' :: 'u' :: digits'))
      (Char.ofNat ((u - 0xD800) * 0x400 + (u' - 0xDC00) + 0x10000))

/-- The text between the quotes of a string, and the characters of the string. -/
inductive Spells : List Char → List Char → Prop
  | nil : Spells [] []
  | cons {piece text cs : List Char} {c : Char} (hc : SpellsChar piece c) (h : Spells text cs) :
    Spells (piece ++ text) (c :: cs)

/-- A piece of a string that need not mean a character. -/
inductive IsPiece : List Char → Prop
  | plain {c : Char} (h : Plain c) : IsPiece [c]
  | short {e : Char} (h : (unescape? e).isSome = true) : IsPiece ['\\', e]
  | unit {digits : List Char} {u : Nat} (h : CodeUnit digits u) : IsPiece ('\\' :: 'u' :: digits)

/-- The text between the quotes of a string that need not mean anything. -/
inductive IsString : List Char → Prop
  | nil : IsString []
  | cons {piece text : List Char} (hpiece : IsPiece piece) (h : IsString text) :
    IsString (piece ++ text)

/-! ## Values -/

/-- A word, number or string. -/
inductive IsScalar : List Char → Prop
  | nullWord : IsScalar "null".toList
  | trueWord : IsScalar "true".toList
  | falseWord : IsScalar "false".toList
  | number {n : Numeral} {cs : List Char} (h : NumeralText n cs) : IsScalar cs
  | string {cs : List Char} (h : IsString cs) : IsScalar ('"' :: (cs ++ ['"']))

mutual
/-- A JSON value, without blanks around it. -/
inductive IsValue : List Char → Prop
  | scalar {cs : List Char} (h : IsScalar cs) : IsValue cs
  | emptyArray {blanks : List Char} (h : Blank blanks) : IsValue ('[' :: (blanks ++ [']']))
  | array {cs : List Char} (h : IsElements cs) : IsValue ('[' :: (cs ++ [']']))
  | emptyObject {blanks : List Char} (h : Blank blanks) : IsValue ('{' :: (blanks ++ ['}']))
  | object {cs : List Char} (h : IsMembers cs) : IsValue ('{' :: (cs ++ ['}']))

/-- A JSON text: a value with blanks around it. -/
inductive IsText : List Char → Prop
  | mk {before v after : List Char} (hbefore : Blank before) (hv : IsValue v)
    (hafter : Blank after) : IsText (before ++ (v ++ after))

/-- The elements of an array, with commas between them. -/
inductive IsElements : List Char → Prop
  | last {v : List Char} (hv : IsText v) : IsElements v
  | more {v cs : List Char} (hv : IsText v) (h : IsElements cs) : IsElements (v ++ ',' :: cs)

/-- The members of an object: names with their values, with commas between them. -/
inductive IsMembers : List Char → Prop
  | last {before name gap v : List Char} (hbefore : Blank before) (hname : IsString name)
    (hgap : Blank gap) (hv : IsText v) :
    IsMembers (before ++ '"' :: (name ++ '"' :: (gap ++ ':' :: v)))
  | more {before name gap v cs : List Char} (hbefore : Blank before) (hname : IsString name)
    (hgap : Blank gap) (hv : IsText v) (h : IsMembers cs) :
    IsMembers (before ++ '"' :: (name ++ '"' :: (gap ++ ':' :: (v ++ ',' :: cs))))
end

end LayerGraph.Json
