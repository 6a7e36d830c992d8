/-!
# UTF-8

Texts meet bytes in two places. A text is checked or hashed through its bytes (`encode`), and a
message arrives as bytes that need not be a text at all (`symbols`). A malformed byte is not an
error by itself: it becomes a symbol of its own, so that the reader of the message decides where
it may stand.
-/

namespace Restaking

/-- Raw bytes: transactions, signatures, hashes, messages. -/
abbrev Bytes := List UInt8

namespace Utf8

/-- The UTF-8 bytes of a text. -/
def encode (text : String) : Bytes :=
  text.toList.flatMap String.utf8EncodeChar

/-- One symbol of a byte stream: a character, or `none` for a byte that starts no character. -/
abbrev Symbol := Option Char

/-- The character whose encoding starts the bytes. -/
def charAt? (bytes : Bytes) : Option Char :=
  ByteArray.utf8DecodeChar? (ByteArray.mk (bytes.take 4).toArray) 0

/-- The symbols of a byte stream after `pending` more bytes of the character just read. -/
def symbolsFrom : Nat → Bytes → List Symbol
  | _, [] => []
  | pending + 1, _ :: rest => symbolsFrom pending rest
  | 0, b :: rest =>
    match charAt? (b :: rest) with
    | some c => some c :: symbolsFrom (c.utf8Size - 1) rest
    | none => none :: symbolsFrom 0 rest

/-- The symbols of a byte stream. -/
def symbols (bytes : Bytes) : List Symbol :=
  symbolsFrom 0 bytes

end Utf8

end Restaking
