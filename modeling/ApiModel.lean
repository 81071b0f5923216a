import ApiModel.Main
import ApiModel.Building.Session
import ApiModel.Model.Reading
import ApiModel.Proofs.Building.Core
import ApiModel.Proofs.Building.DocumentOrder
import ApiModel.Proofs.Building.Growth
import ApiModel.Proofs.Building.Identifiers
import ApiModel.Proofs.Building.Links
import ApiModel.Proofs.Building.References
import ApiModel.Proofs.Building.Totality
import ApiModel.Proofs.Building.Session
import ApiModel.Proofs.Building.OwnNames
import ApiModel.Proofs.Building.OperationNames
import ApiModel.Proofs.Building.PathNames
import ApiModel.Proofs.Building.Correspondence
import ApiModel.Proofs.Building.WellFormed
import ApiModel.Proofs.Swagger.JsonFiles
import ApiModel.Proofs.Swagger.SameReading
import ApiModel.Proofs.Json.Completeness
import ApiModel.Proofs.Json.Data
import ApiModel.Proofs.Json.Writing
import ApiModel.Proofs.Json.Writable
import ApiModel.Proofs.Json.Printing
import ApiModel.Proofs.Model.RoundTrip
import ApiModel.Proofs.Swagger.Acceptance
import ApiModel.Proofs.Swagger.NodeFields
import ApiModel.Proofs.Swagger.Parts
import ApiModel.Proofs.Swagger.RoundTrip
import ApiModel.Proofs.Yaml.Quoting
import ApiModel.Proofs.Yaml.SingleQuoted
import ApiModel.Proofs.Yaml.PlainText
import ApiModel.Proofs.Yaml.BlockSteps
import ApiModel.Proofs.Yaml.BlockWords
import ApiModel.Proofs.Yaml.BlockScanning
import ApiModel.Proofs.Yaml.BlockComposing
import ApiModel.Proofs.Yaml.BlockReading
import ApiModel.Proofs.Model.YamlFile
import ApiModel.Proofs.Swagger.NodeTexts
import ApiModel.Proofs.Swagger.LoadFaults
import ApiModel.Proofs.Command.Files
import ApiModel.Proofs.Command.Writing
import ApiModel.Proofs.Command.Logging
import ApiModel.Proofs.Swagger.Extensions
import ApiModel.Proofs.Swagger.Problems
