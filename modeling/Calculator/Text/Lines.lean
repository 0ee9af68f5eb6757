import Calculator.Text.Basic

/-! The lines of input bytes. -/

namespace Calculator

/-- Bytes split after each line feed, without the line feed and a carriage return before it. The
bytes after the last line feed are a line if there are any. -/
def splitLines (bytes : List UInt8) : List (List UInt8) := go [] bytes
where
  go (line : List UInt8) : List UInt8 → List (List UInt8)
    | [] => if line.isEmpty then [] else [line.reverse]
    | b :: rest =>
      if b = 10 then
        let ended := match line with
          | 13 :: line => line
          | _ => line
        ended.reverse :: go [] rest
      else go (b :: line) rest

/-- The text that bytes encode in UTF-8, if they do. -/
def decodeText? (bytes : List UInt8) : Option Text :=
  (String.fromUTF8? ⟨bytes.toArray⟩).map String.toList

/-- The lines of input, each as text if it is. -/
def readLines (bytes : List UInt8) : List (Option Text) := (splitLines bytes).map decodeText?

end Calculator
