import PocketCalc.Main
import PocketCalc.Proofs.Grammar
import PocketCalc.Proofs.Readers
import PocketCalc.Proofs.Reading
import PocketCalc.Proofs.BufferFits
import PocketCalc.Proofs.Display
import PocketCalc.Proofs.NumberText
import PocketCalc.Proofs.BufferShape
import PocketCalc.Proofs.KeyPhrase
import PocketCalc.Proofs.KeyTyping
import PocketCalc.Proofs.Scanning
import PocketCalc.Proofs.KeyReading
import PocketCalc.Proofs.KeyResult
import PocketCalc.Proofs.Nearest
import PocketCalc.Proofs.Nesting
import PocketCalc.Proofs.Significant
import PocketCalc.Proofs.Encoding
import PocketCalc.Proofs.NumeralLayout
import PocketCalc.Proofs.ShownDecimal
import PocketCalc.Proofs.Literal
import PocketCalc.Proofs.ShownText
import PocketCalc.Proofs.ShownAgain
import PocketCalc.Proofs.SignedZero
import PocketCalc.Proofs.Blanks
import PocketCalc.Proofs.SignedNumeral
import PocketCalc.Proofs.NumberLines
import PocketCalc.Proofs.LineCut
import PocketCalc.Proofs.LineAgreement
import PocketCalc.Proofs.MemoryKeys
import PocketCalc.Proofs.FreshStart
import PocketCalc.Proofs.Chaining
import PocketCalc.Proofs.FloatOrder
import PocketCalc.Proofs.WiderSettings
import PocketCalc.Proofs.Concatenation
import PocketCalc.Proofs.Composition
import PocketCalc.Proofs.ResultClass
import PocketCalc.Proofs.Transcripts
import PocketCalc.Proofs.KeyInput
import PocketCalc.Proofs.FirstFault
import PocketCalc.Proofs.LongestMatch
import PocketCalc.Proofs.EvaluationErrors
import PocketCalc.Proofs.LeftNesting
import PocketCalc.Proofs.Respacing
import PocketCalc.Proofs.PowerWord
import PocketCalc.Proofs.Domains
import PocketCalc.Proofs.OperandText
import PocketCalc.Proofs.FullText
import PocketCalc.Proofs.Recall
import PocketCalc.Proofs.MarkCuts
import PocketCalc.Proofs.LineShapes
