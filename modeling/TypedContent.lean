import TypedContent.Command.Arguments
import TypedContent.Command.Generate
import TypedContent.Compile
import TypedContent.Digest.Sha256
import TypedContent.Distinct
import TypedContent.Error
import TypedContent.Files.Access
import TypedContent.Files.Tree
import TypedContent.Files.Workspace
import TypedContent.Fingerprint
import TypedContent.Json.Document
import TypedContent.Json.Numeral
import TypedContent.Json.Printer
import TypedContent.Json.Reader
import TypedContent.Json.Value
import TypedContent.Keyed
import TypedContent.Main
import TypedContent.Naming.Uid
import TypedContent.Naming.Words
import TypedContent.Output.ClientModule
import TypedContent.Output.EntityClass
import TypedContent.Output.EntityTypes
import TypedContent.Output.Names
import TypedContent.Output.PopulateTypes
import TypedContent.Output.Requests
import TypedContent.Output.RouteMethods
import TypedContent.Output.SharedTypes
import TypedContent.Output.Transport
import TypedContent.Output.TypesModule
import TypedContent.Proofs.Command.Runs
import TypedContent.Proofs.FaithfulFingerprint
import TypedContent.Proofs.Json.CanonicalForms
import TypedContent.Proofs.Maps
import TypedContent.Proofs.Naming.Characters
import TypedContent.Proofs.Naming.HyphenatedNames
import TypedContent.Proofs.Naming.KebabCase
import TypedContent.Proofs.Naming.RecoveredNames
import TypedContent.Proofs.Naming.Separators
import TypedContent.Proofs.Output.ClientMethods
import TypedContent.Proofs.Output.ClosedClient
import TypedContent.Proofs.Output.ClosedTypes
import TypedContent.Proofs.Output.DeclaredNames
import TypedContent.Proofs.Output.DocComments
import TypedContent.Proofs.Output.Identifiers
import TypedContent.Proofs.Output.Overloads
import TypedContent.Proofs.Output.OwnerTypes
import TypedContent.Proofs.Output.PathParameters
import TypedContent.Proofs.Output.PayloadHygiene
import TypedContent.Proofs.Output.PayloadNames
import TypedContent.Proofs.Output.Population
import TypedContent.Proofs.Output.RequestPaths
import TypedContent.Proofs.Output.RouteAliases
import TypedContent.Proofs.Output.TypeTexts
import TypedContent.Proofs.Route.ActionTypes
import TypedContent.Proofs.Route.CollectedTypes
import TypedContent.Proofs.Route.DeclaredTypes
import TypedContent.Proofs.Route.Elements
import TypedContent.Proofs.Route.ExtractedRoutes
import TypedContent.Proofs.Route.LiteralValues
import TypedContent.Proofs.Route.PathPieces
import TypedContent.Proofs.Schema.Assembly
import TypedContent.Proofs.Schema.ContentModel
import TypedContent.Proofs.Schema.DeclarationOrder
import TypedContent.Proofs.Schema.DeclaredFields
import TypedContent.Proofs.Schema.DeclaredInterfaces
import TypedContent.Proofs.Schema.ExposedFields
import TypedContent.Proofs.Schema.FieldIsolation
import TypedContent.Proofs.Schema.FrontEnds
import TypedContent.Proofs.Schema.Layout
import TypedContent.Proofs.Schema.MalformedFields
import TypedContent.Proofs.Schema.ModifierOrder
import TypedContent.Proofs.Schema.References
import TypedContent.Proofs.Selections
import TypedContent.Proofs.Source.ByteSafety
import TypedContent.Proofs.Source.Headers
import TypedContent.Proofs.Source.MatchingBrackets
import TypedContent.Proofs.Source.Objects
import TypedContent.Proofs.Source.SquashedLexemes
import TypedContent.Proofs.Source.SquashedTexts
import TypedContent.Proofs.Source.StringLists
import TypedContent.Proofs.Source.TopLevelCuts
import TypedContent.Proofs.Source.WrittenMembers
import TypedContent.Proofs.TypeScript.Evaluation
import TypedContent.Proofs.TypeScript.ParsedTypes
import TypedContent.Proofs.TypeScript.StringLiterals
import TypedContent.Proofs.TypeScript.TemplateLiterals
import TypedContent.Proofs.TypeScript.Tokens
import TypedContent.Proofs.TypeScript.TypeGrammar
import TypedContent.Proofs.TypeScript.TypeReading
import TypedContent.Proofs.TypeScript.TypeTokens
import TypedContent.Proofs.TypeScript.Words
import TypedContent.Route.Basic
import TypedContent.Route.Declaration
import TypedContent.Route.Document
import TypedContent.Route.EndpointTypes
import TypedContent.Route.Module
import TypedContent.Route.Path
import TypedContent.Schema.Assemble
import TypedContent.Schema.Declaration
import TypedContent.Schema.Declared
import TypedContent.Schema.Document
import TypedContent.Schema.Entity
import TypedContent.Schema.Kind
import TypedContent.Settings
import TypedContent.Source.Block
import TypedContent.Source.Mark
import TypedContent.Source.Member
import TypedContent.Source.Parts
import TypedContent.Source.Pattern
import TypedContent.Text.Basic
import TypedContent.Text.LetterCase
import TypedContent.Text.Word
import TypedContent.Toml.Reader
import TypedContent.TypeScript.Lexical
import TypedContent.TypeScript.Printer
import TypedContent.TypeScript.Syntax
