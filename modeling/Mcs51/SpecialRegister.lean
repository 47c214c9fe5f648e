/-
  Mcs51.SpecialRegister — the names of the special function registers and of their bits.

  The upper half of the directly addressed memory holds the registers of the processor and of its
  devices.  Some of them can also be addressed bit by bit; such a bit is named by its register and
  number, or by a name of its own.

  Main definitions:
    * `SpecialRegister.address?` : the address of a named register;
    * `SpecialRegister.bitAddress?` : the address of a named bit.
-/
namespace Mcs51.SpecialRegister

/-- The registers and their addresses. -/
def addresses : List (String × Nat) :=
  [("A", 0xE0), ("ACC", 0xE0), ("B", 0xF0), ("PSW", 0xD0), ("IP", 0xB8), ("P3", 0xB0),
   ("IE", 0xA2), ("P2", 0xA0), ("SBUF", 0x99), ("SCON", 0x98), ("P1", 0x90), ("TH1", 0x8D),
   ("TH0", 0x8C), ("TL1", 0x8B), ("TL0", 0x8A), ("TMOD", 0x89), ("TCON", 0x88), ("PCON", 0x87),
   ("DPH", 0x83), ("DPL", 0x82), ("SP", 0x81), ("P0", 0x80)]

/-- The bits of the input and output latches. -/
def latchBits : List (String × Nat) :=
  [("P0.0", 0x80), ("P0.1", 0x81), ("P0.2", 0x82), ("P0.3", 0x83),
   ("P0.4", 0x84), ("P0.5", 0x85), ("P0.6", 0x86), ("P0.7", 0x87),
   ("P1.0", 0x90), ("P1.1", 0x91), ("P1.2", 0x92), ("P1.3", 0x93),
   ("P1.4", 0x94), ("P1.5", 0x95), ("P1.6", 0x96), ("P1.7", 0x97),
   ("P2.0", 0xA0), ("P2.1", 0xA1), ("P2.2", 0xA2), ("P2.3", 0xA3),
   ("P2.4", 0xA4), ("P2.5", 0xA5), ("P2.6", 0xA6), ("P2.7", 0xA7),
   ("P3.0", 0xB0), ("P3.1", 0xB1), ("P3.2", 0xB2), ("P3.3", 0xB3),
   ("P3.4", 0xB4), ("P3.5", 0xB5), ("P3.6", 0xB6), ("P3.7", 0xB7)]

/-- The bits of the timers, the serial line and the interrupt controller. -/
def deviceBits : List (String × Nat) :=
  [("TCON.0", 0x88), ("IT0", 0x88), ("TCON.1", 0x89), ("IE0", 0x89),
   ("TCON.2", 0x8A), ("IT1", 0x8A), ("TCON.3", 0x8B), ("IE1", 0x8B),
   ("TCON.4", 0x8C), ("TR0", 0x8C), ("TCON.5", 0x8D), ("TF0", 0x8D),
   ("TCON.6", 0x8E), ("TR1", 0x8E), ("TCON.7", 0x8F), ("TF1", 0x8F),
   ("SCON.0", 0x98), ("SCON.1", 0x99), ("SCON.2", 0x9A), ("SCON.3", 0x9B),
   ("SCON.4", 0x9C), ("SCON.5", 0x9D), ("SCON.6", 0x9E), ("SCON.7", 0x9F),
   ("IE.0", 0xA8), ("IE.1", 0xA9), ("IE.2", 0xAA), ("IE.3", 0xAB), ("IE.4", 0xAC), ("IE.7", 0xAF),
   ("IP.0", 0xB8), ("IP.1", 0xB9), ("IP.2", 0xBA), ("IP.3", 0xBB), ("IP.4", 0xBC)]

/-- The bits of the status word, the accumulator and register B. -/
def processorBits : List (String × Nat) :=
  [("PSW.0", 0xD0), ("PSW.1", 0xD1), ("PSW.2", 0xD2), ("PSW.3", 0xD3),
   ("PSW.4", 0xD4), ("PSW.5", 0xD5), ("PSW.6", 0xD6), ("PSW.7", 0xD7),
   ("ACC.0", 0xE0), ("ACC.1", 0xE1), ("ACC.2", 0xE2), ("ACC.3", 0xE3),
   ("ACC.4", 0xE4), ("ACC.5", 0xE5), ("ACC.6", 0xE6), ("ACC.7", 0xE7),
   ("A.0", 0xE0), ("A.1", 0xE1), ("A.2", 0xE2), ("A.3", 0xE3),
   ("A.4", 0xE4), ("A.5", 0xE5), ("A.6", 0xE6), ("A.7", 0xE7),
   ("B.0", 0xF0), ("B.1", 0xF1), ("B.2", 0xF2), ("B.3", 0xF3),
   ("B.4", 0xF4), ("B.5", 0xF5), ("B.6", 0xF6), ("B.7", 0xF7),
   ("P", 0xD0), ("OV", 0xD2), ("RS0", 0xD3), ("RS1", 0xD4),
   ("F0", 0xD5), ("AC", 0xD6), ("CY", 0xD7), ("C", 0xD7)]

/-- The named bits and their addresses. -/
def bitAddresses : List (String × Nat) :=
  latchBits ++ deviceBits ++ processorBits

/-- The address of a register, by its name in capitals. -/
def address? (name : String) : Option Nat :=
  addresses.lookup name

/-- The address of a bit, by its name in capitals. -/
def bitAddress? (name : String) : Option Nat :=
  bitAddresses.lookup name

end Mcs51.SpecialRegister
