import CodeCorpus.Action
import CodeCorpus.Changes
import CodeCorpus.Chunking
import CodeCorpus.Client
import CodeCorpus.CommandLine
import CodeCorpus.CommandLine.Help
import CodeCorpus.CommandLine.Request
import CodeCorpus.CommandLine.Shown
import CodeCorpus.CommandLine.Verb
import CodeCorpus.Config
import CodeCorpus.Config.Loading
import CodeCorpus.Config.Written
import CodeCorpus.Corpus.Decoding
import CodeCorpus.Counter
import CodeCorpus.Counter.Tokenizer
import CodeCorpus.Digest
import CodeCorpus.Directories
import CodeCorpus.Embedding
import CodeCorpus.Embedding.Model
import CodeCorpus.Embedding.Sample
import CodeCorpus.Fault
import CodeCorpus.FileTree
import CodeCorpus.Glob
import CodeCorpus.Glob.Reading
import CodeCorpus.Ignore
import CodeCorpus.Json
import CodeCorpus.Json.Reader
import CodeCorpus.Json.Writer
import CodeCorpus.Listing
import CodeCorpus.Main
import CodeCorpus.Numeral.Binary
import CodeCorpus.Numeral.Fixed
import CodeCorpus.Numeral.Reading
import CodeCorpus.Numeral.Shortest
import CodeCorpus.Outline
import CodeCorpus.Outline.Extraction
import CodeCorpus.Path
import CodeCorpus.Record
import CodeCorpus.Record.Written
import CodeCorpus.Search
import CodeCorpus.Session
import CodeCorpus.Snippet
import CodeCorpus.Store
import CodeCorpus.Store.Condition
import CodeCorpus.Store.Memory
import CodeCorpus.Store.Refusing
import CodeCorpus.Store.Similarity
import CodeCorpus.Store.Table
import CodeCorpus.Store.Table.Written
import CodeCorpus.Sync
import CodeCorpus.Sync.Directory
import CodeCorpus.Sync.Scripted
import CodeCorpus.Syntax.Node
import CodeCorpus.Syntax.Skip
import CodeCorpus.Syntax.Token
import CodeCorpus.Syntax.Tree
import CodeCorpus.Text.Blank
import CodeCorpus.Text.Decoding
import CodeCorpus.Text.Lines
import CodeCorpus.Text.LowerCase
import CodeCorpus.Text.Occurrence
import CodeCorpus.Text.WordCharacter
import CodeCorpus.Toml
import CodeCorpus.Toml.Reader
import CodeCorpus.Toml.Scalar
import CodeCorpus.Toml.Text
import CodeCorpus.Toml.Writer
import CodeCorpus.Uuid
import CodeCorpus.Window
import CodeCorpus.Proofs.Memory
import CodeCorpus.Proofs.Ledger
import CodeCorpus.Proofs.Course
import CodeCorpus.Proofs.Changes
import CodeCorpus.Proofs.Effect
import CodeCorpus.Proofs.Isolation
import CodeCorpus.Proofs.History
import CodeCorpus.Proofs.Integrity
import CodeCorpus.Proofs.Convergence
import CodeCorpus.Proofs.Leftovers
import CodeCorpus.Proofs.Faltering
import CodeCorpus.Proofs.Recovery
import CodeCorpus.Proofs.Cancellation
import CodeCorpus.Proofs.Idempotence
import CodeCorpus.Proofs.Windows
import CodeCorpus.Proofs.Packing
import CodeCorpus.Proofs.Fewest
import CodeCorpus.Proofs.Embedding
import CodeCorpus.Proofs.Quoting
import CodeCorpus.Proofs.Tables
import CodeCorpus.Proofs.Agreement
import CodeCorpus.Proofs.Surroundings
import CodeCorpus.Proofs.Settling
import CodeCorpus.Proofs.Iteration
import CodeCorpus.Proofs.Verdicts
import CodeCorpus.Proofs.Places
import CodeCorpus.Proofs.Outlines
import CodeCorpus.Proofs.Blanks
import CodeCorpus.Proofs.Snippets
import CodeCorpus.Proofs.Indentation
import CodeCorpus.Proofs.Comments
import CodeCorpus.Proofs.Bases
import CodeCorpus.Proofs.Fractions
import CodeCorpus.Proofs.Accounts
import CodeCorpus.Proofs.Scopes
import CodeCorpus.Proofs.Layers
import CodeCorpus.Proofs.Spans
import CodeCorpus.Proofs.Tokens
import CodeCorpus.Proofs.Parsing
import CodeCorpus.Proofs.Slices
import CodeCorpus.Proofs.Batches
import CodeCorpus.Proofs.Separators
import CodeCorpus.Proofs.Removal
import CodeCorpus.Proofs.Keys
import CodeCorpus.Proofs.Received
import CodeCorpus.Proofs.Statuses
import CodeCorpus.Proofs.Replacement
import CodeCorpus.Proofs.Spellings
import CodeCorpus.Proofs.Documents
import CodeCorpus.Proofs.Files
import CodeCorpus.Proofs.Reloading
import CodeCorpus.Proofs.Selections
import CodeCorpus.Proofs.Encodings
import CodeCorpus.Proofs.Marks
