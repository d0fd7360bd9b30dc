import CartPatch.Event.Registry
import CartPatch.CommandLine.Run
import CartPatch.Main
import CartPatch.Proofs.Mips.Line
import CartPatch.Proofs.Mips.Decoding
import CartPatch.Proofs.Mips.Operand
import CartPatch.Proofs.Mips.Machine
import CartPatch.Proofs.Hook.Frame
import CartPatch.Proofs.Cheat.Interpreter
import CartPatch.Proofs.Cheat.Listing
import CartPatch.Proofs.Cheat.Routine
import CartPatch.Proofs.Hook.Descriptor
import CartPatch.Proofs.Hook.Platform
import CartPatch.Proofs.Hook.Trampoline
import CartPatch.Proofs.Hook.Passage
import CartPatch.Proofs.Cheat.Session
import CartPatch.Proofs.Hook.Patch
import CartPatch.Proofs.Hook.StoredRoutine
import CartPatch.Proofs.Hook.Rehooking
import CartPatch.Proofs.Hook.InPlace
import CartPatch.Proofs.Hook.Phases
import CartPatch.Proofs.Assembly.Renaming
import CartPatch.Proofs.Text.Blank
import CartPatch.Proofs.Text.Cut
import CartPatch.Proofs.Text.Lines
import CartPatch.Proofs.Text.Names
import CartPatch.Proofs.Assembly.Lines
import CartPatch.Proofs.Assembly.Declaration
import CartPatch.Proofs.Assembly.Region
import CartPatch.Proofs.Assembly.Completeness
import CartPatch.Proofs.Assembly.Idempotence
import CartPatch.Proofs.Assembly.Comments
import CartPatch.Proofs.Event.EntryLabel
import CartPatch.Proofs.Event.TableWriter
import CartPatch.Proofs.Assembly.Atom
import CartPatch.Proofs.Assembly.Marking
import CartPatch.Proofs.Event.Registry
import CartPatch.Proofs.Event.Table
import CartPatch.Proofs.Assembly.MarkerLines
import CartPatch.Proofs.Assembly.Draft
import CartPatch.Proofs.Assembly.Reader
import CartPatch.Proofs.Event.Block
import CartPatch.Proofs.Storage.Tree
import CartPatch.Proofs.CommandLine.Embed
import CartPatch.Proofs.Event.TableReader
import CartPatch.Proofs.Hook.Obstacle
import CartPatch.Proofs.Text.Digits
import CartPatch.Proofs.Mips.Immediate
import CartPatch.Proofs.Mips.Statement
import CartPatch.Proofs.Mips.Encoding
import CartPatch.Proofs.Text.Words
import CartPatch.Proofs.Text.Places
import CartPatch.Proofs.Cheat.Grammar
import CartPatch.Proofs.Cheat.Printing
import CartPatch.Proofs.Assembly.MarkerOrder
import CartPatch.Proofs.Assembly.DeclaredNames
import CartPatch.Proofs.Lookup
import CartPatch.Proofs.Text.ByteOrder
import CartPatch.Proofs.Event.Offers
import CartPatch.Proofs.Text.Remarks
import CartPatch.Proofs.Hook.Settings
import CartPatch.Proofs.Hook.DescriptorFile
import CartPatch.Proofs.SymbolTable.Listing
import CartPatch.Proofs.SymbolTable.Loads
import CartPatch.Proofs.SymbolTable.Printing
import CartPatch.Proofs.Event.Header
import CartPatch.Proofs.Event.HeaderFile
import CartPatch.Proofs.Cheat.Calls
import CartPatch.Proofs.Storage.Paths
import CartPatch.Proofs.Storage.Refinement
import CartPatch.Proofs.Mips.Agreement
import CartPatch.Proofs.Hook.Interrupts
import CartPatch.Proofs.Event.Directives
import CartPatch.Proofs.HexDump
import CartPatch.Proofs.Assembly.Closed
import CartPatch.Proofs.Cheat.Layout
