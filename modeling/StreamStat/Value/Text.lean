import StreamStat.Text.Quoted
import StreamStat.Value.Layout

/-!
# Texts of values

A text stands for itself at the top and is quoted inside a list. How an object looks
is for the owner of its handle to say. A whole number that is too long has no text, and
neither has what it is a part of.
-/

namespace StreamStat

/-- What the owner of the handles says of the objects behind them. -/
structure ObjectView where
  text : Nat → Except Fault String
  written : Nat → Except Fault String
  /-- What comparing two objects for equality gives. -/
  equal : Nat → Nat → Except Fault Value

namespace Value

mutual

/-- The form in which a value is shown inside of others. -/
def written (o : ObjectView) : Value → Except Fault String
  | none => .ok "None"
  | number n _ => n.written
  | text s _ => .ok (Text.quoted s)
  | list items _ => do return "[" ++ ", ".intercalate (← writtenAll o items) ++ "]"
  | array g _ => g.written
  | handle i => o.written i

def writtenAll (o : ObjectView) : List Value → Except Fault (List String)
  | [] => .ok []
  | v :: vs => do
    let s ← written o v
    let ss ← writtenAll o vs
    return s :: ss

end

/-- The plain text of a value. -/
def plainText (o : ObjectView) : Value → Except Fault String
  | number n _ => n.text
  | text s _ => .ok s
  | array g _ => g.text
  | handle i => o.text i
  | v => written o v

/-- The text of a value inside of a sentence. -/
def inlineText (o : ObjectView) : Value → Except Fault String
  | number n _ => n.inlineText
  | array g _ => g.inlineText
  | v => v.plainText o

end Value

end StreamStat
