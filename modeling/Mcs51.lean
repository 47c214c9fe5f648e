import Mcs51.Text.Blank
import Mcs51.Text.DecimalDigit
import Mcs51.Text.WordChar
import Mcs51.Text.UpperCase
import Mcs51.Text.Split
import Mcs51.Fault
import Mcs51.Digits
import Mcs51.Numeral
import Mcs51.SpecialRegister
import Mcs51.Shape
import Mcs51.Operand
import Mcs51.Mnemonic
import Mcs51.Instruction.Encoding
import Mcs51.Instruction.Boolean
import Mcs51.Instruction.Arithmetic
import Mcs51.Instruction.Transfer
import Mcs51.Instruction.Branch
import Mcs51.Instruction.Encode
import Mcs51.Source
import Mcs51.Statement
import Mcs51.Memory
import Mcs51.LabelTable
import Mcs51.Assembler
import Mcs51.Link
import Mcs51.HexRecord
import Mcs51.Program
import Mcs51.Main
import Mcs51.Proofs.ReadBack
import Mcs51.Proofs.SourceLines
import Mcs51.Proofs.EncodingForms
import Mcs51.Proofs.EncodingShape
import Mcs51.Proofs.OpcodeMap
import Mcs51.Proofs.Layout
import Mcs51.Proofs.AddressCells
import Mcs51.Proofs.Image
import Mcs51.Proofs.Scan
import Mcs51.Proofs.Resolution
import Mcs51.Proofs.HexListing
import Mcs51.Proofs.HandOut
import Mcs51.Proofs.Blocks
import Mcs51.Proofs.Growth
import Mcs51.Proofs.Targets
import Mcs51.Proofs.SourceLayout
import Mcs51.Proofs.OperandRange
import Mcs51.Proofs.ByteMemory
import Mcs51.Proofs.Moves
import Mcs51.Proofs.Reachable
import Mcs51.Proofs.Relocation
import Mcs51.Proofs.Renaming
import Mcs51.Proofs.TextLayout
import Mcs51.Proofs.LabelLines
import Mcs51.Proofs.BranchRange
import Mcs51.Proofs.AddressedJumps
import Mcs51.Proofs.Sweep
import Mcs51.Proofs.CheckSum
import Mcs51.Proofs.Emission
import Mcs51.Proofs.DirectOperands
import Mcs51.Proofs.OperationFamilies
import Mcs51.Proofs.RegisterOperands
import Mcs51.Proofs.Literals
import Mcs51.Proofs.Refusals
import Mcs51.Proofs.OperationEndings
import Mcs51.Proofs.FrontEnd
import Mcs51.Proofs.OperandKinds
import Mcs51.Proofs.TestOrder
