/-!
# Compression methods

A method is stored as a 16-bit tag. Every tag is some method, and `tag` is the inverse of `ofTag`
(`tag_ofTag`). Three ways of decoding cover the methods that can be read.
-/
namespace ZipArchive

inductive CompressionMethod where
  | stored | shrink | reduce1 | reduce2 | reduce3 | reduce4 | implode | deflate | deflate64
  | pkwareImplode | bzip2 | lzma | terse | lz77 | wavpack | ppmd
  | unknown (tag : UInt16)
  deriving DecidableEq, Repr

/-- How the bytes of a member are decoded. -/
inductive Stage where
  | identity | inflate | bunzip
  deriving DecidableEq, Repr

namespace CompressionMethod

def ofTag (tag : UInt16) : CompressionMethod :=
  match tag.toNat with
  | 0 => .stored
  | 1 => .shrink
  | 2 => .reduce1
  | 3 => .reduce2
  | 4 => .reduce3
  | 5 => .reduce4
  | 6 => .implode
  | 8 => .deflate
  | 9 => .deflate64
  | 10 => .pkwareImplode
  | 12 => .bzip2
  | 14 => .lzma
  | 18 => .terse
  | 19 => .lz77
  | 97 => .wavpack
  | 98 => .ppmd
  | _ => .unknown tag

def tag : CompressionMethod → UInt16
  | .stored => 0
  | .shrink => 1
  | .reduce1 => 2
  | .reduce2 => 3
  | .reduce3 => 4
  | .reduce4 => 5
  | .implode => 6
  | .deflate => 8
  | .deflate64 => 9
  | .pkwareImplode => 10
  | .bzip2 => 12
  | .lzma => 14
  | .terse => 18
  | .lz77 => 19
  | .wavpack => 97
  | .ppmd => 98
  | .unknown tag => tag

theorem tag_ofTag (t : UInt16) : (ofTag t).tag = t := by
  unfold ofTag
  split
  case h_17 => rfl
  all_goals
    rename_i h
    exact UInt16.toNat_inj.mp h.symm

/-- The name shown in listings and messages; an unknown method is shown by its tag. -/
def name : CompressionMethod → String
  | .stored => "store"
  | .shrink => "shrink"
  | .reduce1 => "reduce1"
  | .reduce2 => "reduce2"
  | .reduce3 => "reduce3"
  | .reduce4 => "reduce4"
  | .implode => "implode"
  | .deflate => "deflate"
  | .deflate64 => "deflate64"
  | .pkwareImplode => "pkwareImplode"
  | .bzip2 => "bzip2"
  | .lzma => "lzma"
  | .terse => "terse"
  | .lz77 => "lz77"
  | .wavpack => "wavpack"
  | .ppmd => "ppmd"
  | .unknown tag => toString tag

/-- The decoder of a method, if there is one. Deflate64 data that stays within a 32 KiB window is
plain deflate data. -/
def stage? : CompressionMethod → Option Stage
  | .stored => some .identity
  | .deflate | .deflate64 => some .inflate
  | .bzip2 => some .bunzip
  | _ => none

end CompressionMethod
end ZipArchive
