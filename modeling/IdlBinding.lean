import IdlBinding.Blank
import IdlBinding.Unprintable
import IdlBinding.Digits
import IdlBinding.Quoted
import IdlBinding.Binary64
import IdlBinding.Decimal
import IdlBinding.Error
import IdlBinding.Identifier
import IdlBinding.Specifier
import IdlBinding.PropertyKey
import IdlBinding.Shape
import IdlBinding.Layout
import IdlBinding.Event
import IdlBinding.Ledger
import IdlBinding.Statement
import IdlBinding.Json.Number
import IdlBinding.Json.Value
import IdlBinding.Json.Fault
import IdlBinding.Json.Record
import IdlBinding.Default
import IdlBinding.Descriptor
import IdlBinding.Toml.Value
import IdlBinding.Toml.Scalar
import IdlBinding.Toml.Document
import IdlBinding.Settings
import IdlBinding.PropertyTable
import IdlBinding.EnumerationModule
import IdlBinding.Reflection
import IdlBinding.Proofs.Bindings
import IdlBinding.Proofs.Entering
import IdlBinding.Proofs.Growth
import IdlBinding.Proofs.BoundNames
import IdlBinding.Proofs.Composition
import IdlBinding.Proofs.Agreement
import IdlBinding.Proofs.Journal
import IdlBinding.Proofs.Numerals
import IdlBinding.Proofs.WholeNumbers
import IdlBinding.Proofs.ReadBack
import IdlBinding.Proofs.QuotedText
import IdlBinding.Proofs.DefaultLiterals
import IdlBinding.Proofs.DecimalOrder
import IdlBinding.Proofs.ShortestDecimal
import IdlBinding.Proofs.DecimalLiteral
import IdlBinding.Proofs.PlaceNotation
import IdlBinding.Proofs.NumberText
import IdlBinding.Proofs.TwoNotations
import IdlBinding.Proofs.ScriptDigits
import IdlBinding.Proofs.ScriptValues
import IdlBinding.Proofs.SetterMeaning
import IdlBinding.Proofs.Additions
import IdlBinding.Proofs.KeyText
import IdlBinding.Proofs.KeyIdentity
import IdlBinding.Proofs.Emitting
import IdlBinding.Proofs.Rendering
import IdlBinding.Proofs.DefinitionKeys
import IdlBinding.Proofs.Constants
import IdlBinding.Proofs.Indentation
import IdlBinding.Proofs.Preamble
import IdlBinding.Proofs.TemplateLiteral
import IdlBinding.Proofs.EnumerationSource
import IdlBinding.Proofs.Clashes
import IdlBinding.Proofs.FaultText
import IdlBinding.Proofs.DefaultRoutes
import IdlBinding.Proofs.NumberDefaults
import IdlBinding.Proofs.Records
import IdlBinding.Proofs.DescriptorFields
import IdlBinding.Proofs.Reshaping
import IdlBinding.Proofs.RepeatedValues
import IdlBinding.Proofs.PatchText
import IdlBinding.Proofs.TableText
import IdlBinding.Proofs.RoundingError
import IdlBinding.Proofs.ScaledReading
import IdlBinding.Proofs.NumberTokens
import IdlBinding.Proofs.Outline
import IdlBinding.Proofs.SpecifierNames
import IdlBinding.Proofs.ParameterLists
import IdlBinding.Proofs.DistinctKeys
import IdlBinding.Proofs.SettingsForms
import IdlBinding.Proofs.AccessorText
