import Schemata.Choice
import Schemata.Cli.Arguments
import Schemata.Cli.Files
import Schemata.Cli.Run
import Schemata.Config.Basic
import Schemata.Config.File
import Schemata.Ddl.Conversion
import Schemata.Ddl.Mysql
import Schemata.Ddl.Postgres
import Schemata.Ddl.Statement
import Schemata.Dialect
import Schemata.Entity.Dataclass
import Schemata.Entity.Generation
import Schemata.Entity.Go
import Schemata.Entity.Identifier
import Schemata.Entity.Java
import Schemata.Entity.Language
import Schemata.Entity.MappedClass
import Schemata.Entity.Options
import Schemata.Entity.Python
import Schemata.Entity.TypeScript
import Schemata.Json
import Schemata.Main
import Schemata.Naming
import Schemata.Notice
import Schemata.Proofs.Columns.ArrayTypes
import Schemata.Proofs.Columns.Casts
import Schemata.Proofs.Columns.ClauseOrder
import Schemata.Proofs.Columns.Cursors
import Schemata.Proofs.Columns.DefaultEnds
import Schemata.Proofs.Columns.KeptTypes
import Schemata.Proofs.Columns.Operands
import Schemata.Proofs.Columns.Progress
import Schemata.Proofs.Ddl.Acceptance
import Schemata.Proofs.Ddl.BareNames
import Schemata.Proofs.Ddl.Clauses
import Schemata.Proofs.Ddl.Columns
import Schemata.Proofs.Ddl.Conversions
import Schemata.Proofs.Ddl.Cycles
import Schemata.Proofs.Ddl.Defaults
import Schemata.Proofs.Ddl.Definitions
import Schemata.Proofs.Ddl.Images
import Schemata.Proofs.Ddl.Keys
import Schemata.Proofs.Ddl.LiteralDefaults
import Schemata.Proofs.Ddl.Members
import Schemata.Proofs.Ddl.MysqlTables
import Schemata.Proofs.Ddl.Numbering
import Schemata.Proofs.Ddl.PostgresTables
import Schemata.Proofs.Ddl.Reading
import Schemata.Proofs.Ddl.SettledTypes
import Schemata.Proofs.Ddl.Statements
import Schemata.Proofs.Ddl.Tables
import Schemata.Proofs.Ddl.Tokens
import Schemata.Proofs.Ddl.TypeParts
import Schemata.Proofs.Ddl.Types
import Schemata.Proofs.Ddl.Values
import Schemata.Proofs.Entity.BlockComments
import Schemata.Proofs.Entity.FieldNames
import Schemata.Proofs.Entity.GoLiterals
import Schemata.Proofs.Entity.GoNames
import Schemata.Proofs.Entity.GoTags
import Schemata.Proofs.Entity.Imports
import Schemata.Proofs.Entity.JavaImports
import Schemata.Proofs.Entity.MappedColumns
import Schemata.Proofs.Entity.OneLine
import Schemata.Proofs.Entity.PythonAttributes
import Schemata.Proofs.Entity.PythonComments
import Schemata.Proofs.Entity.PythonFieldOrder
import Schemata.Proofs.Entity.PythonImports
import Schemata.Proofs.Entity.PythonLines
import Schemata.Proofs.Entity.SourceNames
import Schemata.Proofs.Entity.TypeImports
import Schemata.Proofs.Naming.LetterCase
import Schemata.Proofs.Naming.SnakeCase
import Schemata.Proofs.Naming.Words
import Schemata.Proofs.Sql.Additions
import Schemata.Proofs.Sql.AlikeTables
import Schemata.Proofs.Sql.Bodies
import Schemata.Proofs.Sql.CheckedDefinitions
import Schemata.Proofs.Sql.Comments
import Schemata.Proofs.Sql.Composition
import Schemata.Proofs.Sql.Copies
import Schemata.Proofs.Sql.Coverage
import Schemata.Proofs.Sql.Declarations
import Schemata.Proofs.Sql.Descriptors
import Schemata.Proofs.Sql.Excerpts
import Schemata.Proofs.Sql.Failures
import Schemata.Proofs.Sql.Gaps
import Schemata.Proofs.Sql.GuardedCuts
import Schemata.Proofs.Sql.GuardedDefinitions
import Schemata.Proofs.Sql.GuardedLexer
import Schemata.Proofs.Sql.GuardedParser
import Schemata.Proofs.Sql.KeyParts
import Schemata.Proofs.Sql.Layout
import Schemata.Proofs.Sql.Literals
import Schemata.Proofs.Sql.Locality
import Schemata.Proofs.Sql.Nesting
import Schemata.Proofs.Sql.Numeral
import Schemata.Proofs.Sql.Origins
import Schemata.Proofs.Sql.Outcomes
import Schemata.Proofs.Sql.Outline
import Schemata.Proofs.Sql.Parentheses
import Schemata.Proofs.Sql.Parsed
import Schemata.Proofs.Sql.Partners
import Schemata.Proofs.Sql.Places
import Schemata.Proofs.Sql.Quoting
import Schemata.Proofs.Sql.Reading
import Schemata.Proofs.Sql.Remarks
import Schemata.Proofs.Sql.Splitting
import Schemata.Proofs.Sql.Statements
import Schemata.Proofs.Sql.TypeEnds
import Schemata.Proofs.Sql.TypeNames
import Schemata.Proofs.Sql.Values
import Schemata.Proofs.Text.Locations
import Schemata.Report.Inspection
import Schemata.Report.Output
import Schemata.Report.Paint
import Schemata.Sql.Attribute
import Schemata.Sql.ColumnType
import Schemata.Sql.Default
import Schemata.Sql.Definition
import Schemata.Sql.Grouping
import Schemata.Sql.Lexer
import Schemata.Sql.ParseError
import Schemata.Sql.Quote
import Schemata.Sql.Rules
import Schemata.Sql.Script
import Schemata.Sql.Statement
import Schemata.Sql.Token
import Schemata.SqlType.Conversion
import Schemata.SqlType.Family
import Schemata.SqlType.Name
import Schemata.Table
import Schemata.Target
import Schemata.Text.Alphabetic
import Schemata.Text.Basic
import Schemata.Text.Blank
import Schemata.Text.CodeRun
import Schemata.Text.LetterCase
import Schemata.Text.Location
import Schemata.Text.Numeric
import Schemata.Yaml.Node
import Schemata.Yaml.Scalar
