import ZipArchive.Decode.Decoder

/-!
# The decoders of members

Deflated members are read with one decoder and members in the bzip2 format with another. Archives
and their streams are about any two decoders, as long as what these do does not depend on the pieces
that their input arrives in.
-/
namespace ZipArchive

/-- The decoders that members are read with. -/
class Decoders where
  /-- The states of the decoder of deflate data. -/
  Inflating : Type
  inflate : Decoder Inflating
  /-- The states of the decoder of bzip2 data. -/
  Bunzipping : Type
  bunzip : Decoder Bunzipping
  inflate_stable : inflate.Stable
  bunzip_stable : bunzip.Stable

end ZipArchive
