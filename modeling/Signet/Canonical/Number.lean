import Signet.Decimal.Layout
import Signet.Decimal.Text
import Signet.Json.Printer

/-!
Numbers in canonical JSON.

* `Canonical.layout`: the shortest digits that read back, plain from a
  thousandth up to ten million, with a power of ten outside.
* `Canonical.renderNumber`: digits with an optional minus stand for
  themselves, whatever their length; other numbers are read as `binary64` and
  laid out; what overflows stands for itself.
* `Canonical.writeNumber` quotes what is then no JSON number.
-/

namespace Signet.Canonical

/-- Whole numbers have no fraction, a power of ten always follows one, its mark is `E`, and a
number halfway between two shortest decimals takes the greater one. -/
def layout : Layout where
  format := binary64
  tie := .up
  minPoint := -2
  maxPoint := 7
  wholeEnd := ""
  loneEnd := ".0"
  mark := 'E'
  plus := ""

/-- The canonical text of a number's text. -/
def renderNumber (text : List Char) : List Char :=
  if Json.Number.isInteger text then text
  else
    match binary64.ofText? text with
    | some x => layout.text x
    | none => text

/-- A number in canonical JSON: its canonical text, as a string if it is no JSON number. -/
def writeNumber (text : String) : List Char :=
  let rendered := renderNumber text.toList
  if Json.Number.isNumber rendered then rendered else Json.quote (String.ofList rendered)

end Signet.Canonical
