import AppBundle.Ordered.ByKey
import AppBundle.Text.Display

/-!
# Texture compression formats

The formats in which textures can be stored for a graphics processor.  A device
lists extensions of its graphics library, and some of them tell that it reads a
format.  Of several formats the one with the highest priority is preferred.
-/

namespace AppBundle

/-- A texture compression format. -/
inductive TextureFormat where
  /-- ETC1. -/
  | etc1Rgb8
  /-- Paletted textures. -/
  | paletted
  /-- 3DC. -/
  | threeDc
  /-- ATC. -/
  | atc
  /-- LATC. -/
  | latc
  /-- DXT1. -/
  | dxt1
  /-- S3TC. -/
  | s3tc
  /-- PVRTC. -/
  | pvrtc
  /-- ASTC. -/
  | astc
  /-- ETC2, for which no extension is known. -/
  | etc2
deriving DecidableEq, Repr

namespace TextureFormat

/-- All formats, in order. -/
def all : List TextureFormat :=
  [etc1Rgb8, paletted, threeDc, atc, latc, dxt1, s3tc, pvrtc, astc, etc2]

/-- How much a format is preferred. -/
def priority : TextureFormat → Nat
  | astc => 10
  | etc2 => 9
  | s3tc => 8
  | pvrtc => 7
  | atc => 6
  | latc => 5
  | dxt1 => 4
  | threeDc => 3
  | etc1Rgb8 => 2
  | paletted => 1

/-- The name of a format in the names of directories. -/
def name : TextureFormat → String
  | etc1Rgb8 => "etc1"
  | paletted => "paletted"
  | threeDc => "3dc"
  | atc => "atc"
  | latc => "latc"
  | dxt1 => "dxt1"
  | s3tc => "s3tc"
  | pvrtc => "pvrtc"
  | astc => "astc"
  | etc2 => "etc2"

instance : Text.Display TextureFormat := ⟨name⟩

/-- The extensions that tell of a format. -/
def extensions : List (String × TextureFormat) := [
  ("GL_OES_compressed_ETC1_RGB8_texture", etc1Rgb8),
  ("GL_OES_compressed_paletted_texture", paletted),
  ("GL_AMD_compressed_3DC_texture", threeDc),
  ("GL_AMD_compressed_ATC_texture", atc),
  ("GL_ATI_texture_compression_atitc", atc),
  ("GL_EXT_texture_compression_latc", latc),
  ("GL_EXT_texture_compression_dxt1", dxt1),
  ("GL_EXT_texture_compression_s3tc", s3tc),
  ("GL_IMG_texture_compression_pvrtc", pvrtc),
  ("GL_KHR_texture_compression_astc_ldr", astc)]

/-- The formats that extensions tell of. -/
def supported (names : List String) : List TextureFormat :=
  names.filterMap fun name => extensions.lookup name

/-! ## Order -/

/-- The place of a format in the list. -/
def rank : TextureFormat → Nat
  | etc1Rgb8 => 0
  | paletted => 1
  | threeDc => 2
  | atc => 3
  | latc => 4
  | dxt1 => 5
  | s3tc => 6
  | pvrtc => 7
  | astc => 8
  | etc2 => 9

/-- The format at a place of the list. -/
def ofRank? (n : Nat) : Option TextureFormat := all[n]?

theorem ofRank?_rank (f : TextureFormat) : ofRank? f.rank = some f := by
  cases f <;> rfl

theorem eq_of_rank_eq {f g : TextureFormat} (h : f.rank = g.rank) : f = g :=
  Option.some.inj (ofRank?_rank f ▸ ofRank?_rank g ▸ congrArg ofRank? h)

instance : LT TextureFormat := ⟨fun f g => f.rank < g.rank⟩

instance : LE TextureFormat := ⟨fun f g => ¬ g < f⟩

instance : DecidableLT TextureFormat := fun f g => inferInstanceAs (Decidable (f.rank < g.rank))

theorem ordered_rank : ByKey.Ordered rank where
  key_inj _ _ := eq_of_rank_eq
  lt_iff _ _ := Iff.rfl
  le_iff _ _ := Iff.rfl

instance : Std.IsLinearOrder TextureFormat :=
  ByKey.isLinearOrder ordered_rank (by omega) (by omega) (by omega)

instance : Std.LawfulOrderLT TextureFormat := ByKey.lawfulOrderLT ordered_rank (by omega)

end TextureFormat

end AppBundle
