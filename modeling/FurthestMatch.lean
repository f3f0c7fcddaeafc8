import FurthestMatch.Catalogue
import FurthestMatch.CommandLine
import FurthestMatch.Grammar.Equality
import FurthestMatch.Main
import FurthestMatch.Proofs.ArithmeticParsing
import FurthestMatch.Proofs.Comparison
import FurthestMatch.Proofs.Decision
import FurthestMatch.Proofs.Flattening
import FurthestMatch.Proofs.Framing
import FurthestMatch.Proofs.Furthest
import FurthestMatch.Proofs.Indentation
import FurthestMatch.Proofs.JsonParsing
import FurthestMatch.Proofs.Markers
import FurthestMatch.Proofs.Provenance
import FurthestMatch.Proofs.Repetition
import FurthestMatch.Proofs.Reports
import FurthestMatch.Proofs.Termination
import FurthestMatch.Report
import FurthestMatch.Proofs.Shifting
import FurthestMatch.Proofs.Highlights
import FurthestMatch.Proofs.Reduction
import FurthestMatch.Proofs.Separation
import FurthestMatch.Proofs.Excerpts
import FurthestMatch.Proofs.Munching
import FurthestMatch.Proofs.DigitRuns
import FurthestMatch.Proofs.DecimalLeaves
import FurthestMatch.Proofs.Escaping
import FurthestMatch.Proofs.Positions
import FurthestMatch.Proofs.Headlines
import FurthestMatch.Proofs.Anchoring
import FurthestMatch.Proofs.DocumentForms
import FurthestMatch.Proofs.Boxes
