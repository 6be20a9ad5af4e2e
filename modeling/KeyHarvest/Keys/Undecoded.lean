import KeyHarvest.Batch

/-!
# Tags of undecoded bytes

What the tags of a file come to when its bytes are scanned as they are: the pieces of a tag are
decoded one by one, and lines are counted among the bytes of the file.
-/
namespace KeyHarvest
open CodeUnit

/-- A tag of some bytes as a tag of their text: its pieces are decoded, and its offset is the number
of bytes that the text before it takes. -/
def Tag.decode (content : List UInt8) (tag : Tag UInt8) : Tag Char where
  name := decodeLossy tag.name
  attributes := decodeLossy tag.attributes
  followingText := decodeLossy tag.followingText
  offset := size (decodeLossy (content.take tag.offset))

/-- The line of a byte: one more than the line feeds before it. -/
def lineOfByte (content : List UInt8) (offset : Nat) : Nat := 1 + (content.take offset).count 10

/-- What is harvested from the tags of some bytes, with the lines that these bytes have. -/
def extractBytes (markers : Markers) (content : List UInt8) : Extraction where
  records := (tags content).flatMap fun tag => (harvest markers (tag.decode content)).records
  warnings := (tags content).filterMap fun tag =>
    (harvest markers (tag.decode content)).problem.map fun problem =>
      ⟨lineOfByte content tag.offset, warningMessage (tag.decode content) problem⟩

end KeyHarvest
