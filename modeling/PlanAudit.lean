import PlanAudit.Main
import PlanAudit.Pattern.Escape
import PlanAudit.Proofs.Catalog
import PlanAudit.Proofs.Catches.ReadBack
import PlanAudit.Proofs.Checker.Evidence
import PlanAudit.Proofs.Checker.Kinds
import PlanAudit.Proofs.Checker.Runs
import PlanAudit.Proofs.Checker.Suggestions
import PlanAudit.Proofs.Checker.WellFormed
import PlanAudit.Proofs.Fault
import PlanAudit.Proofs.Files.Append
import PlanAudit.Proofs.Files.IgnoreLines
import PlanAudit.Proofs.Files.Listing
import PlanAudit.Proofs.Json.Framing
import PlanAudit.Proofs.Packages.Cache
import PlanAudit.Proofs.Packages.ExportForms
import PlanAudit.Proofs.Packages.ExportTexts
import PlanAudit.Proofs.Packages.Exports
import PlanAudit.Proofs.Packages.ImportClauses
import PlanAudit.Proofs.Packages.ImportStatements
import PlanAudit.Proofs.Packages.Resolution
import PlanAudit.Proofs.Packages.Specifiers
import PlanAudit.Proofs.Paths.Classes
import PlanAudit.Proofs.Paths.Nearby
import PlanAudit.Proofs.Paths.Sections
import PlanAudit.Proofs.Paths.Shapes
import PlanAudit.Proofs.Paths.Verification
import PlanAudit.Proofs.Pattern.AnyCase
import PlanAudit.Proofs.Pattern.Captures
import PlanAudit.Proofs.Pattern.Choices
import PlanAudit.Proofs.Pattern.Leftmost
import PlanAudit.Proofs.Pattern.LineSearch
import PlanAudit.Proofs.Pattern.Positions
import PlanAudit.Proofs.Pattern.Quiet
import PlanAudit.Proofs.Pattern.Reading
import PlanAudit.Proofs.Pattern.Running
import PlanAudit.Proofs.Plan.Announcements
import PlanAudit.Proofs.Plan.Block
import PlanAudit.Proofs.Plan.Lines
import PlanAudit.Proofs.Prisma.Anchors
import PlanAudit.Proofs.Prisma.Arguments
import PlanAudit.Proofs.Prisma.Blocks
import PlanAudit.Proofs.Prisma.CallCode
import PlanAudit.Proofs.Prisma.Calls
import PlanAudit.Proofs.Prisma.Passes
import PlanAudit.Proofs.Prisma.QueryBlocks
import PlanAudit.Proofs.Prisma.ReadBack
import PlanAudit.Proofs.Prisma.Rearranged
import PlanAudit.Proofs.Prisma.Written
import PlanAudit.Proofs.Report.Agreement
import PlanAudit.Proofs.Report.Distinct
import PlanAudit.Proofs.Report.Sections
import PlanAudit.Proofs.Routes.Closest
import PlanAudit.Proofs.Routes.Conservation
import PlanAudit.Proofs.Routes.Instances
import PlanAudit.Proofs.Routes.Mounts
import PlanAudit.Proofs.Routes.Normalized
import PlanAudit.Proofs.Routes.ObjectCalls
import PlanAudit.Proofs.Routes.ObjectEntries
import PlanAudit.Proofs.Routes.Precedence
import PlanAudit.Proofs.Routes.Resolution
import PlanAudit.Proofs.Routes.Served
import PlanAudit.Proofs.Routes.Spelling
import PlanAudit.Proofs.Sql.Builders
import PlanAudit.Proofs.Sql.Calls
import PlanAudit.Proofs.Sql.Columns
import PlanAudit.Proofs.Sql.Definitions
import PlanAudit.Proofs.Sql.Keywords
import PlanAudit.Proofs.Sql.ModulePlans
import PlanAudit.Proofs.Sql.ModuleStatements
import PlanAudit.Proofs.Sql.Specifiers
import PlanAudit.Proofs.Sql.StatementText
import PlanAudit.Proofs.Sql.Statements
import PlanAudit.Proofs.Supabase.Attribution
import PlanAudit.Proofs.Supabase.Blocks
import PlanAudit.Proofs.Supabase.Embeds
import PlanAudit.Proofs.Supabase.Kinds
import PlanAudit.Proofs.Supabase.ReadBack
import PlanAudit.Proofs.Supabase.Sections
import PlanAudit.Proofs.Supabase.Selections
import PlanAudit.Proofs.Supabase.Written
import PlanAudit.Proofs.Text.Brackets
import PlanAudit.Proofs.Text.KeySpans
import PlanAudit.Proofs.Text.KeySpelling
import PlanAudit.Proofs.Text.ObjectKeys
import PlanAudit.Proofs.Text.Parts
import PlanAudit.Proofs.Text.Words
import PlanAudit.Proofs.Tools.Agreement
import PlanAudit.Proofs.Types.Bodies
import PlanAudit.Proofs.Types.Heads
import PlanAudit.Proofs.Types.Independence
import PlanAudit.Proofs.Types.Items
import PlanAudit.Proofs.Types.Kinds
import PlanAudit.Proofs.Types.Scanning
import PlanAudit.Proofs.Types.Written
import PlanAudit.Tools
