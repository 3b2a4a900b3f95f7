import KaidaDB.Lib.ByteIndex

/-!
# The window on a text input

A text input is drawn in a line with a number of columns: `input_cursor_spans` takes the piece of the
text that is shown, in three parts, of which the middle one is highlighted as the cursor. Texts are
the lists of their characters here.
-/

namespace KaidaDB

open ByteIndex

open String (utf8Len)

/-- What is before the cursor, the cursor, and the rest. -/
structure InputSpans where
  before : List Char
  cursorChar : List Char
  rest : List Char
deriving DecidableEq, Repr

/-- The cursor is on the first character behind it, or on a blank. -/
def InputSpans.split (before after : List Char) : Option InputSpans :=
  if after = [] then some ⟨before, [' '], []⟩
  else do
    let (cursorChar, rest) ← splitAt? after ((nthIndex after 1).getD (utf8Len after))
    return ⟨before, cursorChar, rest⟩

def inputCursorSpans (text : List Char) (cursor width : Nat) : Option InputSpans := do
  let cursor := min cursor (utf8Len text)
  let total := text.length
  let startChar ← if total ≤ width then some 0
    else (slice? text 0 cursor).map fun before => before.length + 1 - width
  let start := (nthIndex text startChar).getD 0
  let stop := if total ≤ width then utf8Len text
    else (nthIndex text (startChar + width)).getD (utf8Len text)
  let visible ← slice? text start stop
  let cur := min (cursor - start) (utf8Len visible)
  let (before, after) ← splitAt? visible cur
  InputSpans.split before after

/-- The spans show the cursor: they have no more characters than the window has columns, and are a piece
of the text in which `before` ends at the cursor; at the end of the text the cursor is on a blank. -/
structure InputSpans.ShowsCursor (text : List Char) (cursor width : Nat) (spans : InputSpans) : Prop where
  fits : (spans.before ++ spans.cursorChar ++ spans.rest).length ≤ width
  one : spans.cursorChar.length = 1
  piece : ∃ pre post, utf8Len (pre ++ spans.before) = cursor ∧ text = pre ++ spans.before ++
    (if cursor = utf8Len text then [] else spans.cursorChar ++ spans.rest) ++ post
  blank : cursor = utf8Len text → spans.cursorChar = [' '] ∧ spans.rest = []

/-- The cursor is at the end of a text that is exactly as long as the window, or of any text but the
empty one in a window of one column. -/
def Overflows (text : List Char) (cursor width : Nat) : Prop :=
  cursor = utf8Len text ∧ (text.length = width ∨ (width = 1 ∧ text ≠ []))

end KaidaDB
