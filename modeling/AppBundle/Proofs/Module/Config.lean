import AppBundle.Module.Config
import AppBundle.Proofs.Wire.Format

/-!
# Byte forms of configurations

The formats of the resource table and of the configurations are put together
from lawful parts, so they are lawful.
-/

namespace AppBundle

open Wire

/-! ## The resource table -/

namespace Resource

theorem FileKind.lawful_format : FileKind.format.Lawful :=
  (Format.lawful_number 4).via fun kind => by cases kind <;> rfl

/-- Each kind of value is read by the format that wrote it. -/
theorem Value.lawful_format : Value.format.Lawful := by
  refine (Format.lawful_number 4).choice ?_
  intro value F hF
  cases value with
  | file path kind =>
    cases hF
    exact (Format.lawful_text.pair FileKind.lawful_format (path, kind)).case rfl rfl
  | string text =>
    cases hF
    exact (Format.lawful_text text).case rfl rfl
  | reference word =>
    cases hF
    exact (Format.lawful_word word).case rfl rfl
  | boolean value =>
    cases hF
    exact (Format.lawful_boolean value).case rfl rfl
  | integer value =>
    cases hF
    exact (Format.lawful_signed value).case rfl rfl

theorem ConfigValue.lawful_format : ConfigValue.format.Lawful :=
  (Format.lawful_text.pair Value.lawful_format).via fun _ => rfl

theorem Entry.lawful_format : Entry.format.Lawful :=
  (Format.lawful_word.pair (Format.lawful_text.pair ConfigValue.lawful_format.list)).via
    fun _ => rfl

theorem EntryType.lawful_format : EntryType.format.Lawful :=
  (Format.lawful_word.pair (Format.lawful_text.pair Entry.lawful_format.list)).via fun _ => rfl

theorem Package.lawful_format : Package.format.Lawful :=
  (Format.lawful_word.pair (Format.lawful_text.pair EntryType.lawful_format.list)).via
    fun _ => rfl

theorem Table.lawful_format : Table.format.Lawful :=
  Package.lawful_format.list.via fun _ => rfl

end Resource

/-! ## Other configurations -/

theorem Abi.lawful_format : Abi.format.Lawful := (Format.lawful_number 4).via Abi.ofRank?_rank

theorem TextureFormat.lawful_format : TextureFormat.format.Lawful :=
  (Format.lawful_number 4).via TextureFormat.ofRank?_rank

theorem Targeting.lawful_format {α : Type} [LT α] [DecidableLT α] [LE α] [Std.IsLinearOrder α]
    [Std.LawfulOrderLT α] {F : Format α} (hF : F.Lawful) : (Targeting.format F).Lawful :=
  (hF.set.pair hF.set).via fun _ => rfl

theorem NativeDirectory.lawful_format : NativeDirectory.format.Lawful :=
  (Format.lawful_text.pair Abi.lawful_format).via fun _ => rfl

theorem NativeConfig.lawful_format : NativeConfig.format.Lawful :=
  NativeDirectory.lawful_format.list.via fun _ => rfl

theorem AssetsDirectory.lawful_format : AssetsDirectory.format.Lawful := by
  have htexts := (Targeting.lawful_format Format.lawful_text).optional
  have htextures := (Targeting.lawful_format TextureFormat.lawful_format).optional
  unfold AssetsDirectory.format
  exact (Format.lawful_text.pair (htexts.pair (htextures.pair htexts))).via fun _ => rfl

theorem AssetsConfig.lawful_format : AssetsConfig.format.Lawful :=
  AssetsDirectory.lawful_format.list.via fun _ => rfl

theorem ApexImage.lawful_format : ApexImage.format.Lawful :=
  (Format.lawful_text.pair Abi.lawful_format.list).via fun _ => rfl

theorem ApexConfig.lawful_format : ApexConfig.format.Lawful :=
  ApexImage.lawful_format.list.via fun _ => rfl

theorem RuntimeSdk.lawful_format : RuntimeSdk.format.Lawful :=
  (Format.lawful_text.pair (Format.lawful_signed.pair (Format.lawful_signed.pair
    (Format.lawful_text.pair Format.lawful_word)))).via fun _ => rfl

theorem SdkConfig.lawful_format : SdkConfig.format.Lawful :=
  RuntimeSdk.lawful_format.list.via fun _ => rfl

end AppBundle
