import EarlyBoot.Text.Blank
import EarlyBoot.Text.Cut
import EarlyBoot.Text.Terminated
import EarlyBoot.Hex
import EarlyBoot.Address
import EarlyBoot.SymbolName
import EarlyBoot.Symbol
import EarlyBoot.Log
import EarlyBoot.Log.Router
import EarlyBoot.SpinLock
import EarlyBoot.Alias.Error
import EarlyBoot.Alias.Registry
import EarlyBoot.ImageVar
import EarlyBoot.Link.Unit
import EarlyBoot.Link.Contribution
import EarlyBoot.Link.Image
import EarlyBoot.Link.Error
import EarlyBoot.Link.Resolve
import EarlyBoot.Fragment.Render
import EarlyBoot.Fragment.Error
import EarlyBoot.Fragment.Piece
import EarlyBoot.Fragment.Statement
import EarlyBoot.Fragment.Read
import EarlyBoot.Layout
import EarlyBoot.Layout.Error
import EarlyBoot.Layout.Read
import EarlyBoot.Layout.Check
import EarlyBoot.Elf.Bytes
import EarlyBoot.Elf.Error
import EarlyBoot.Elf.Record
import EarlyBoot.Elf.SymbolTable
import EarlyBoot.Elf.Read
import EarlyBoot.Proofs.Outcome
import EarlyBoot.Proofs.Messages
import EarlyBoot.Proofs.Text
import EarlyBoot.Proofs.SymbolName
import EarlyBoot.Proofs.Hex
import EarlyBoot.Proofs.Address
import EarlyBoot.Proofs.Fragment.Reading
import EarlyBoot.Proofs.Alias.WellFormed
import EarlyBoot.Proofs.Link.Competition
import EarlyBoot.Proofs.Link.Resolution
import EarlyBoot.Proofs.Link.Verdict
import EarlyBoot.Proofs.Fragment.Scanning
import EarlyBoot.Proofs.Fragment.RoundTrip
import EarlyBoot.Proofs.Elf.Format
import EarlyBoot.Proofs.Elf.Decoding
import EarlyBoot.Proofs.Fragment.Characters
import EarlyBoot.Proofs.Link.Listing
import EarlyBoot.Proofs.Layout.EarlyView
import EarlyBoot.Proofs.Elf.Assembly
import EarlyBoot.Proofs.Elf.RoundTrip
import EarlyBoot.Proofs.Alias.History
import EarlyBoot.Proofs.Elf.Truncation
import EarlyBoot.Proofs.Link.FirstFault
import EarlyBoot.Proofs.Link.Reordering
import EarlyBoot.Proofs.Layout.Mappable
import EarlyBoot.Proofs.Elf.TableWalk
import EarlyBoot.Proofs.Fragment.Comparison
import EarlyBoot.Proofs.Fragment.Concatenation
import EarlyBoot.Proofs.Fragment.Grammar
import EarlyBoot.Proofs.Layout.Segments
import EarlyBoot.Proofs.Alias.Objections
import EarlyBoot.Proofs.Fragment.Capacity
import EarlyBoot.Proofs.Link.Naming
import EarlyBoot.Proofs.Link.Account
import EarlyBoot.Proofs.Layout.LoadAddress
import EarlyBoot.Proofs.Layout.Shift
import EarlyBoot.Proofs.Link.Relinking
import EarlyBoot.Proofs.Fragment.Shading
import EarlyBoot.Proofs.Fragment.FaultSite
import EarlyBoot.Proofs.Fragment.Directives
import EarlyBoot.Proofs.Layout.TableRoots
import EarlyBoot.Proofs.Link.UnitOrder
import EarlyBoot.Proofs.SpinLock.Exclusion
import EarlyBoot.Proofs.SpinLock.Counting
import EarlyBoot.Proofs.Log.Routing
import EarlyBoot.Proofs.Elf.StringTable
import EarlyBoot.Proofs.Fragment.Alignment
import EarlyBoot.Proofs.Hex
