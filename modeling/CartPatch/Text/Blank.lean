import CartPatch.Text.Basic

/-!
Blank characters, and what they separate: the words of a text and the text without blanks at its
ends. The blanks are the twenty-five characters with the property White_Space.
-/

namespace CartPatch.Text

/-- The characters with the property White_Space: the controls from tab to carriage return, space,
next line, the no-break space and the spaces and separators of general punctuation. The spaces
without width are no blanks. -/
def isBlank (c : Char) : Bool :=
  let n := c.toNat
  (0x09 ≤ n && n ≤ 0x0D) || n == 0x20 || n == 0x85 || n == 0xA0 || n == 0x1680
    || (0x2000 ≤ n && n ≤ 0x200A) || n == 0x2028 || n == 0x2029 || n == 0x202F || n == 0x205F
    || n == 0x3000

def trimStart (t : Text) : Text := t.dropWhile isBlank

def trimEnd (t : Text) : Text := (t.reverse.dropWhile isBlank).reverse

def trim (t : Text) : Text := trimEnd (trimStart t)

/-- The longest runs of characters that are not blank. -/
def words (t : Text) : List Text := (t.splitOnP isBlank).filter (!·.isEmpty)

/-- Whether a line of a listing says nothing: it is blank, or it is a remark, which begins with a
number sign or a semicolon. -/
def isRemark (line : Text) : Bool :=
  match trim line with
  | [] => true
  | c :: _ => c == '#' || c == ';'

@[simp] theorem trim_nil : trim [] = [] := rfl

@[simp] theorem words_nil : words [] = [] := rfl

end CartPatch.Text
