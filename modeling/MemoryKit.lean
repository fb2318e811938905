import MemoryKit.Proofs.Listing
import MemoryKit.Proofs.Stability
import MemoryKit.Session
import MemoryKit.Value.Display
import MemoryKit.Value.Encoding
import MemoryKit.Value.Scalar
import MemoryKit.Proofs.Independence
import MemoryKit.Proofs.Braces
import MemoryKit.Proofs.ArgumentQueue
import MemoryKit.Proofs.FileOrder
import MemoryKit.Proofs.CharacterBoundary
import MemoryKit.Proofs.WrittenCommand
import MemoryKit.Proofs.LineEnds
import MemoryKit.Proofs.GivenOptions
import MemoryKit.Proofs.UniqueLexing
import MemoryKit.Proofs.ProgramEffects
import MemoryKit.Proofs.LogFlags
import MemoryKit.Proofs.FirstTable
import MemoryKit.Proofs.FirstRegion
import MemoryKit.Proofs.Splicing
import MemoryKit.Proofs.ArgumentOrder
import MemoryKit.Proofs.IntegerText
import MemoryKit.Proofs.AddedNames
import MemoryKit.Proofs.Checked
import MemoryKit.Proofs.CheckedNames
import MemoryKit.Proofs.CheckedRegeneration
import MemoryKit.Proofs.ValueBytes
import MemoryKit.Proofs.IntegerValue
import MemoryKit.Proofs.RationalValue
import MemoryKit.Proofs.Rounding
import MemoryKit.Proofs.ShortestDecimal
import MemoryKit.Proofs.PositionalText
import MemoryKit.Proofs.DisplayedFloat
import MemoryKit.Proofs.PartialOutput
