import EnergyTables.Number.Decimal

namespace EnergyTables

structure Complex (format : BinaryFormat) where
  re : Binary format
  im : Binary format
deriving DecidableEq

namespace Complex

variable {format : BinaryFormat}

def ofReal (re : Binary format) : Complex format := ⟨re, .zero format⟩

def convert (target : BinaryFormat) (value : Complex format) : Complex target :=
  ⟨value.re.convert target, value.im.convert target⟩

def neg (value : Complex format) : Complex format := ⟨value.re.neg, value.im.neg⟩

def add (left right : Complex format) : Complex format := ⟨left.re.add right.re, left.im.add right.im⟩

def sub (left right : Complex format) : Complex format := ⟨left.re.sub right.re, left.im.sub right.im⟩

def mul (left right : Complex format) : Complex format :=
  ⟨(left.re.mul right.re).sub (left.im.mul right.im), (left.re.mul right.im).add (left.im.mul right.re)⟩

def equal (left right : Complex format) : Bool := left.re.equal right.re && left.im.equal right.im

def less (left right : Complex format) : Bool :=
  if left.re.equal right.re then left.im.less right.im else left.re.less right.re

def lessEqual (left right : Complex format) : Bool :=
  if left.re.equal right.re then left.im.lessEqual right.im else left.re.lessEqual right.re

def signedText (style : FloatStyle) (part : Binary format) : String :=
  let text := part.text style
  if text.startsWith "-" then text else "+" ++ text

def text (style : FloatStyle) (value : Complex format) : String :=
  if value.re = .zero format then value.im.text style.part ++ "j"
  else "(" ++ value.re.text style.part ++ signedText style.part value.im ++ "j)"

def lastSign (characters : List Char) : Option Nat :=
  let indexed := (' ' :: characters).zip characters |>.zipIdx
  (indexed.filter fun ((previous, character), _) =>
    (character = '+' || character = '-') && previous ≠ 'e' && previous ≠ 'E').getLast?.map (·.2)

def readImaginary? (characters : List Char) : Option (Binary .double) :=
  if characters = ['+'] || characters = [] then some (.one .double)
  else if characters = ['-'] then some (Binary.one .double).neg
  else readFloat? .double (String.ofList characters)

def read? (text : String) : Option (Complex .double) := do
  let outer := Numeral.characters text
  let inner := if outer.head? = some '(' && outer.getLast? = some ')' then
      Text.trimmed Text.isBlank (outer.drop 1).dropLast
    else outer
  let last ← inner.getLast?
  if inner.any Text.isBlank then none
  else if last = 'j' || last = 'J' then
    let body := inner.dropLast
    match lastSign body with
    | some position =>
      let im ← readImaginary? (body.drop position)
      let re ← if position = 0 then some (.zero .double)
        else readFloat? .double (String.ofList (body.take position))
      some ⟨re, im⟩
    | none => (readImaginary? body).map fun im => ⟨.zero .double, im⟩
  else (readFloat? .double (String.ofList inner)).map ofReal

end Complex

end EnergyTables
