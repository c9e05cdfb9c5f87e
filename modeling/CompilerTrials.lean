import CompilerTrials.Main
import CompilerTrials.Proofs.Lookups
import CompilerTrials.Proofs.Listing
import CompilerTrials.Proofs.Removal
import CompilerTrials.Proofs.Sessions
import CompilerTrials.Proofs.Fidelity
import CompilerTrials.Proofs.Masking
import CompilerTrials.Proofs.Lines
import CompilerTrials.Proofs.Indentation
import CompilerTrials.Proofs.Outcomes
import CompilerTrials.Proofs.Utf8
import CompilerTrials.Proofs.Grammar
import CompilerTrials.Proofs.Readings
import CompilerTrials.Proofs.Joining
import CompilerTrials.Proofs.Variables
import CompilerTrials.Proofs.Escapes
import CompilerTrials.Proofs.Xml
import CompilerTrials.Proofs.Markup
import CompilerTrials.Proofs.Documents
import CompilerTrials.Proofs.Decoding
import CompilerTrials.Proofs.Characters
import CompilerTrials.Proofs.ExitCodes
import CompilerTrials.Proofs.Previews
import CompilerTrials.Proofs.Naming
import CompilerTrials.Proofs.Terminals
import CompilerTrials.Proofs.Coloring
import CompilerTrials.Proofs.Legality
import CompilerTrials.Proofs.Crashes
import CompilerTrials.Proofs.Controls
import CompilerTrials.Proofs.Targets
import CompilerTrials.Proofs.Statuses
import CompilerTrials.Proofs.Logging
import CompilerTrials.Proofs.Overflows
import CompilerTrials.Proofs.Totals
import CompilerTrials.Proofs.Counts
import CompilerTrials.Proofs.Deliveries
import CompilerTrials.Proofs.Insertions
import CompilerTrials.Proofs.Filters
import CompilerTrials.Proofs.Verbosity
import CompilerTrials.Proofs.Warnings
import CompilerTrials.Proofs.Erasure
