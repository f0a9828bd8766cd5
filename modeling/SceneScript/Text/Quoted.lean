import SceneScript.Text.Unprintable
import SceneScript.Text.GraphemeExtend

/-! Text quoted for a message. A quote and a backslash are escaped, four control characters have a
letter, and every other character that would not show, or would merge with the one before it, is
given by its code point. -/

namespace SceneScript.Text

/-- Letters that stand for a letter left out. They have no form. -/
def fillers : Ranges := [(0x115F, 0x1160), (0x3164, 0x3164), (0xFFA0, 0xFFA0)]

/-- The halfwidth sound marks, which have a place of their own beside what they continue. -/
def soundMarks : Ranges := [(0xFF9E, 0xFF9F)]

/-- Whether a character would not show where it stands. -/
def isHidden (c : Char) : Bool := unprintable.contains c || fillers.contains c

/-- Whether a character would merge with the one before it. -/
def isMerging (c : Char) : Bool := graphemeExtend.contains c && !soundMarks.contains c

def codePoint (c : Char) : List Char :=
  '\\' :: 'u' :: '\x7b' :: Nat.toDigits 16 c.toNat ++ ['\x7d']

def quotedChar (c : Char) : List Char :=
  match c with
  | '\x00' => ['\\', '0']
  | '\t' => ['\\', 't']
  | '\r' => ['\\', 'r']
  | '\n' => ['\\', 'n']
  | '"' => ['\\', '"']
  | '\\' => ['\\', '\\']
  | c => if isMerging c || isHidden c then codePoint c else [c]

def quoted (s : String) : String :=
  .ofList ('"' :: s.toList.flatMap quotedChar ++ ['"'])

end SceneScript.Text
