import SchemaModel.Schema.ToJson
import SchemaModel.Main
import SchemaModel.Proofs.NestingBounds
import SchemaModel.Proofs.Enumerations
import SchemaModel.Proofs.ByteOrder
import SchemaModel.Proofs.Directives
import SchemaModel.Proofs.PrevailingValues
import SchemaModel.Proofs.Emission
import SchemaModel.Proofs.AcceptedModels
import SchemaModel.Proofs.Pruning
import SchemaModel.Proofs.Reordering
import SchemaModel.Proofs.NodeCriteria
import SchemaModel.Proofs.WrittenForms
import SchemaModel.Proofs.Respelling
import SchemaModel.Proofs.Overriding
import SchemaModel.Proofs.DocumentGrammar
import SchemaModel.Proofs.BundledSchema
import SchemaModel.Proofs.NodeGrammar
import SchemaModel.Proofs.NestingMeasure
import SchemaModel.Proofs.FirstFaults
import SchemaModel.Proofs.KeptModels
import SchemaModel.Proofs.FieldLists
import SchemaModel.Proofs.Fields
import SchemaModel.Proofs.Flags
import SchemaModel.Proofs.Literals
import SchemaModel.Proofs.StructuralTypes
import SchemaModel.Proofs.FirstFailures
import SchemaModel.Proofs.SettingsTexts
