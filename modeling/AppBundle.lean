import AppBundle.Manifest.Edit
import AppBundle.Module.Install
import AppBundle.Module.Remap
import AppBundle.Proofs.Reading
import AppBundle.Proofs.Text.Utf16
import AppBundle.Proofs.Xml.Binary.Row
import AppBundle.Proofs.Xml.Binary.StringTable
import AppBundle.Resource.Allocation
import AppBundle.Targeting.Variant
import AppBundle.Xml.Markup.Write
import AppBundle.Proofs.Xml.Binary.StringPool
import AppBundle.Proofs.Xml.Binary.Element
import AppBundle.Proofs.Xml.Binary.RoundTrip
import AppBundle.Proofs.Xml.Binary.Decoded
import AppBundle.Proofs.Xml.Binary.Limits
import AppBundle.Proofs.Module.Content
import AppBundle.Proofs.Module.Built
import AppBundle.Proofs.Module.Move
import AppBundle.Proofs.Resource.Allocation
import AppBundle.Proofs.Resource.Failure
import AppBundle.Proofs.Resource.Numbering
import AppBundle.Proofs.Targeting.Family
import AppBundle.Proofs.Targeting.Sibling
import AppBundle.Proofs.Targeting.Fallback
import AppBundle.Proofs.Delivery.Structure
import AppBundle.Proofs.Delivery.Condition
import AppBundle.Proofs.Delivery.Stated
import AppBundle.Proofs.Targeting.Satisfied
import AppBundle.Proofs.Module.Targeting
import AppBundle.Proofs.Xml.Markup.Parsed
import AppBundle.Proofs.Xml.EditById
import AppBundle.Proofs.Xml.Edited
import AppBundle.Proofs.Manifest.Edited
import AppBundle.Proofs.Wire.Format
import AppBundle.Proofs.Module.Config
import AppBundle.Proofs.Module.Rebuild
import AppBundle.Proofs.Resource.Moved
import AppBundle.Proofs.Xml.References
import AppBundle.Proofs.Module.References
import AppBundle.Proofs.Module.Return
import AppBundle.Proofs.Text.Numeral
import AppBundle.Proofs.Xml.Literal
import AppBundle.Proofs.Xml.Markup.Scope
import AppBundle.Proofs.Xml.Markup.RoundTrip
import AppBundle.Proofs.Targeting.Aspects
import AppBundle.Proofs.Targeting.Malformed
import AppBundle.Proofs.Path
import AppBundle.Proofs.Module.History
import AppBundle.Proofs.Module.Order
import AppBundle.Proofs.Delivery.Gathered
import AppBundle.Proofs.Module.Views
import AppBundle.Proofs.Manifest.Slot
import AppBundle.Proofs.Manifest.Answer
import AppBundle.Proofs.Manifest.Sequence
import AppBundle.Proofs.Manifest.References
import AppBundle.Proofs.Manifest.Switches
import AppBundle.Proofs.Delivery.Accepted
import AppBundle.Proofs.Targeting.Choice
import AppBundle.Proofs.Targeting.Refused
import AppBundle.Proofs.Targeting.Requested
import AppBundle.Proofs.Xml.Equality
import AppBundle.Xml.Staging
import AppBundle.Proofs.Xml.Assembled
import AppBundle.Proofs.Xml.Binary.Bounds
import AppBundle.Proofs.Xml.Binary.Trailing
import AppBundle.Proofs.Xml.Binary.Size
import AppBundle.Proofs.Xml.Markup.Nesting
import AppBundle.Proofs.Xml.Markup.Source
import AppBundle.Proofs.Xml.Markup.Lexical
import AppBundle.Proofs.Xml.Markup.Grammar
import AppBundle.Proofs.Wire.Delimited
import AppBundle.Proofs.Resource.ByteForm
import AppBundle.Proofs.Resource.Lookup
import AppBundle.Proofs.Path.Affix
import AppBundle.Proofs.Module.Under
import AppBundle.Proofs.Resource.Packing
import AppBundle.Proofs.Xml.Binary.PoolLayout
import AppBundle.Proofs.Xml.Binary.PoolForms
import AppBundle.Proofs.Xml.Binary.Progress
