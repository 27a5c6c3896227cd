import ZipArchive.Decode.Bunzip
import ZipArchive.Decode.Decoders
import ZipArchive.Decode.Inflate

/-!
# The decoders of the program
-/
namespace ZipArchive

/-- The decoders that the program reads members with. -/
instance Decoders.standard : Decoders where
  Inflating := Inflate.State
  inflate := Inflate.decoder
  Bunzipping := Bunzip.State
  bunzip := Bunzip.decoder
  inflate_stable := Inflate.decoder_stable
  bunzip_stable := Bunzip.decoder_stable

end ZipArchive
