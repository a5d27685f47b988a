import SpinBlocks.Main
import SpinBlocks.Cursor
import SpinBlocks.Proofs.Tiling
import SpinBlocks.Proofs.Lexical.Quoted
import SpinBlocks.Proofs.Lexical.Rules
import SpinBlocks.Proofs.Numbers
import SpinBlocks.Proofs.Grammar
import SpinBlocks.Proofs.Rendering
import SpinBlocks.Proofs.Placing
import SpinBlocks.Proofs.Relexing
import SpinBlocks.Proofs.Replay
import SpinBlocks.Proofs.Balance
import SpinBlocks.Proofs.Regions
import SpinBlocks.Proofs.LayoutFree
import SpinBlocks.Proofs.Lexical.Faults
import SpinBlocks.Proofs.Scanning
import SpinBlocks.Proofs.Stairs
import SpinBlocks.Proofs.Lines
import SpinBlocks.Proofs.Nesting
import SpinBlocks.Proofs.Margins
import SpinBlocks.Proofs.Ending
import SpinBlocks.Proofs.IdleLines
import SpinBlocks.Proofs.FirstFault
import SpinBlocks.Proofs.Extents
import SpinBlocks.Proofs.Excerpt
import SpinBlocks.Proofs.Printing
import SpinBlocks.Proofs.Refusals
import SpinBlocks.Proofs.Strings
import SpinBlocks.Proofs.Values
import SpinBlocks.Proofs.LinePlaces
import SpinBlocks.Proofs.UpperCase
import SpinBlocks.Proofs.LetterCase
import SpinBlocks.Proofs.ViablePrefix
import SpinBlocks.Proofs.Completion
import SpinBlocks.Proofs.Underline
import SpinBlocks.Proofs.LineByLine
import SpinBlocks.Proofs.Offsets
import SpinBlocks.Proofs.Pushback
