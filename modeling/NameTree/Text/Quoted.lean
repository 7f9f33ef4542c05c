import NameTree.Text.Unprintable

/-!
The quoted form of a text in messages: between apostrophes, or between quotation marks when the text
holds an apostrophe and no quotation mark; backslash, the delimiter and unprintable characters
escaped.
-/

namespace NameTree.Text

def hexDigits (width code : Nat) : List Char :=
  (Nat.toDigits 16 code).leftpad width '0'

def delimiter (text : List Char) : Char :=
  if '\'' ∈ text ∧ '"' ∉ text then '"' else '\''

def escapeCode (code : Nat) : List Char :=
  if code < 0x100 then '\\' :: 'x' :: hexDigits 2 code
  else if code < 0x10000 then '\\' :: 'u' :: hexDigits 4 code
  else '\\' :: 'U' :: hexDigits 8 code

def escapeChar (mark c : Char) : List Char :=
  if c = '\\' ∨ c = mark then ['\\', c]
  else if c = '\n' then ['\\', 'n']
  else if c = '\r' then ['\\', 'r']
  else if c = '\t' then ['\\', 't']
  else if isUnprintable c then escapeCode c.toNat
  else [c]

def quotedChars (text : List Char) : List Char :=
  let mark := delimiter text
  mark :: text.flatMap (escapeChar mark) ++ [mark]

def quoted (text : String) : String := String.ofList (quotedChars text.toList)

def quotedOption : Option String → String
  | none => "None"
  | some text => quoted text

def quotedTuple : List String → String
  | [] => "()"
  | [text] => "(" ++ quoted text ++ ",)"
  | texts => "(" ++ ", ".intercalate (texts.map quoted) ++ ")"

def numberList (numbers : List Int) : String :=
  "[" ++ ", ".intercalate (numbers.map toString) ++ "]"

def numberTable (pairs : List (String × Int)) : String :=
  "\x7b" ++ ", ".intercalate (pairs.map fun pair => quoted pair.1 ++ ": " ++ toString pair.2) ++
    "\x7d"

example : quoted "it's" = "\"it's\"" := by decide +kernel
example : quoted "a'\"b\n" = "'a\\'\"b\\n'" := by decide +kernel
example : quoted "\x7f\u200b" = "'\\x7f\\u200b'" := by decide +kernel

end NameTree.Text
