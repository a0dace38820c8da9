import Logo.Main
import Logo.Proofs.Lexing.Language
import Logo.Proofs.Lexing.MaximalMunch
import Logo.Proofs.Lexing.LineEnds
import Logo.Proofs.Lexing.Spelling
import Logo.Proofs.Lexing.RoundTrip
import Logo.Proofs.Lexing.Marks
import Logo.Proofs.Lexing.Places
import Logo.Proofs.Text.SmallLetters
import Logo.Proofs.Text.Keywords
import Logo.Proofs.Text.BasicLetters
import Logo.Proofs.Text.Bytes
import Logo.Proofs.Reading.Likeness
import Logo.Proofs.Reading.Progress
import Logo.Proofs.Reading.Contract
import Logo.Proofs.Reading.Simulation
import Logo.Proofs.Reading.Joining
import Logo.Proofs.Reading.Lists
import Logo.Proofs.Reading.Derivation
import Logo.Proofs.Reading.WellFormed
import Logo.Proofs.Reading.Nesting
import Logo.Proofs.Reading.Consumption
import Logo.Proofs.Reading.Parentheses
import Logo.Proofs.Reading.EndOfText
import Logo.Proofs.Reading.Headings
import Logo.Proofs.Reading.Declarations
import Logo.Proofs.Reading.Phrases
import Logo.Proofs.Reading.Expressiveness
import Logo.Proofs.Reading.LetterCase
import Logo.Proofs.Reading.Precedence
import Logo.Proofs.Reading.Instances
import Logo.Proofs.Reading.LineNumbers
import Logo.Proofs.Running.Complaints
import Logo.Proofs.Running.Readers
import Logo.Proofs.Running.Comparison
import Logo.Proofs.Running.Law
import Logo.Proofs.Running.Depth
import Logo.Proofs.Running.LineLaw
import Logo.Proofs.Running.Reentry
import Logo.Proofs.Running.Templates
import Logo.Proofs.Running.FlatLists
import Logo.Proofs.Running.Supervision
import Logo.Proofs.Running.Contract
import Logo.Proofs.Running.Signals
import Logo.Proofs.Running.BuiltinNames
import Logo.Proofs.Running.Arities
import Logo.Proofs.Running.Grounding
import Logo.Proofs.Running.Frames
import Logo.Proofs.Running.Bounds
import Logo.Proofs.Running.Limit
import Logo.Proofs.Running.Agreement
import Logo.Proofs.Running.Sink
import Logo.Proofs.Running.Accesses
import Logo.Proofs.Running.Faults
import Logo.Proofs.Running.Renumbering
import Logo.Proofs.Running.ErrorLines
import Logo.Proofs.Running.Instances
import Logo.Proofs.Running.Operands
import Logo.Proofs.Scoping
import Logo.Proofs.Dialogues
import Logo.Proofs.Values.Doubles
import Logo.Proofs.Values.Numerals
import Logo.Proofs.Values.Rounding
import Logo.Proofs.Values.Shortest
import Logo.Proofs.Values.Equality
import Logo.Proofs.Values.Keys
import Logo.Proofs.Values.WholeNumbers
import Logo.Proofs.Sequences.Duplicates
import Logo.Proofs.Sequences.Selectors
import Logo.Proofs.Bits.Shifts
import Logo.Proofs.Sequences.Searching
import Logo.Proofs.Bits.Results
import Logo.Proofs.Segments
