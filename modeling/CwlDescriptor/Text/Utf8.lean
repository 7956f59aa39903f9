import CwlDescriptor.Text.Half
set_option autoImplicit false

/-!
# Texts and bytes

## Main definitions

* `Text.decodeUtf8?`: the text that a string of bytes encodes, if it encodes one.
* `Text.encodeUtf8?`: the bytes that encode a text, if there are any.
* `Text.unifyLineBreaks`: a text whose lines all end with a line feed.
-/

namespace CwlDescriptor.Text

/-- The text encoded by the bytes. Nothing but shortest encodings of characters is accepted. -/
def decodeUtf8? (bytes : List UInt8) : Option String :=
  (String.fromUTF8? (ByteArray.mk bytes.toArray)).map hold

/-- The bytes that encode the text. There are none for halves of characters. -/
def encodeUtf8? (s : String) : Option (List UInt8) :=
  (release? s).map (·.toUTF8.toList)

/-- The text with a line feed for each carriage return, a carriage return before a line feed being
dropped. -/
def unifyLineBreaks : List Char → List Char
  | [] => []
  | '\r' :: '\n' :: rest => '\n' :: unifyLineBreaks rest
  | '\r' :: rest => '\n' :: unifyLineBreaks rest
  | c :: rest => c :: unifyLineBreaks rest

end CwlDescriptor.Text
