import PathCorpus.Gzip.Member
import PathCorpus.Sample.Basic
import PathCorpus.Text.Line

/-!
# Where lines come from

Text, bytes or a file, each as a list of lines. Bytes are cut at line feeds first and decoded line
by line, so a line that is no valid UTF-8 spoils none but itself. A file whose name ends in `.gz` is
unpacked first; as far as that fails, there is one fault in place of its lines.
-/

namespace PathCorpus

/-- The characters of a line, or why they cannot be had. -/
abbrev RawLine := Except ReadFault (List Char)

namespace RawLine

/-! ## §1: Text and bytes -/

/-- The lines of a text. -/
def ofText (s : String) : List RawLine := (Text.cut '\n' s.toList).map .ok

/-- The characters that bytes stand for in UTF-8. -/
def decode (bytes : List UInt8) : RawLine :=
  match String.fromUTF8? bytes.toByteArray with
  | some s => .ok s.toList
  | none => .error .invalidUtf8

/-- The lines of a byte sequence. -/
def ofBytes (bytes : List UInt8) : List RawLine := (Text.cut '\n'.toUInt8 bytes).map decode

end RawLine

/-! ## §2: Files -/

/-- The part of a file name after its last point. A name has none if it has no point, or only one
at its start. -/
def extension? (name : String) : Option String :=
  let after := (name.toList.reverse.takeWhile (· ≠ '.')).reverse
  let before := name.toList.take (name.length - after.length - 1)
  if name.toList.contains '.' && !before.isEmpty then some (String.ofList after) else none

/-- The lines of packed bytes. Where unpacking stops at a fault, the fault stands in place of the
line that it leaves unfinished, and is the last. -/
def RawLine.ofPacked (bytes : List UInt8) : List RawLine :=
  let contents := Gzip.unpack bytes
  match contents.fault? with
  | none => ofBytes contents.text
  | some fault =>
    ofBytes (Text.finished '\n'.toUInt8 contents.text) ++ [.error (.packing fault)]

/-- The lines of a file with a name. The name alone says whether a file is packed. -/
def RawLine.ofFile (name : String) (bytes : List UInt8) : List RawLine :=
  if extension? name = some "gz" then ofPacked bytes else ofBytes bytes

end PathCorpus
