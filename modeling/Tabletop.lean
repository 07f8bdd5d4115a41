import Tabletop.Notation.Evaluate
import Tabletop.Pool
import Tabletop.Registry
import Tabletop.Source.Seeded
import Tabletop.Proofs.Notation.Pattern
import Tabletop.Proofs.Notation.Longest
import Tabletop.Proofs.Notation.Numbers
import Tabletop.Proofs.Notation.Split
import Tabletop.Proofs.Notation.Grammar
import Tabletop.Proofs.Notation.Steps
import Tabletop.Proofs.Draws
import Tabletop.Proofs.Explosion
import Tabletop.Proofs.Worklist
import Tabletop.Proofs.Notation.Joined
import Tabletop.Proofs.Notation.Ending
import Tabletop.Proofs.Notation.Sequel
import Tabletop.Proofs.Notation.Places
import Tabletop.Proofs.Notation.Turns
import Tabletop.Proofs.Notation.DrawCount
import Tabletop.Proofs.Notation.Fallbacks
import Tabletop.Proofs.Notation.Faults
import Tabletop.Proofs.Bounds
import Tabletop.Proofs.Changes
import Tabletop.Proofs.Notation.Raised
import Tabletop.Proofs.Notation.Shapes
import Tabletop.Proofs.Notation.DiceText
import Tabletop.Proofs.Ranking
import Tabletop.Proofs.Notation.Respaced
import Tabletop.Proofs.Selections
import Tabletop.Proofs.Extremes
import Tabletop.Proofs.Totals
import Tabletop.Proofs.ValueSets
import Tabletop.Proofs.Notation.Listed
import Tabletop.Proofs.Notation.Records
import Tabletop.Proofs.Representation
import Tabletop.Proofs.Numbered
import Tabletop.Proofs.Notation.Scripts
import Tabletop.Proofs.Words
import Tabletop.Proofs.Spans
import Tabletop.Proofs.Visits
import Tabletop.Proofs.Chains
import Tabletop.Proofs.References
import Tabletop.Proofs.Reductions
import Tabletop.Proofs.Updates
import Tabletop.Proofs.Answers
import Tabletop.Proofs.Pools
