/-
  Mcs51.Mnemonic — the operations that produce code.

  Main definitions:
    * `Mnemonic` : the operations;
    * `Mnemonic.name`, `Mnemonic.ofName?` : their names, and back.

  Main statement:
    * `Mnemonic.ofName?_name` : every operation is found by its name.
-/
namespace Mcs51

/-- The operations that produce code. -/
inductive Mnemonic where
  | nop | ret | reti
  | rr | rrc | rl | rlc
  | inc | dec
  | add | addc | subb | orl | anl | xrl
  | mul | div | swap | da
  | mov | movc | movx | push | pop | xch | xchd
  | clr | setb | cpl
  | ajmp | acall | ljmp | lcall | jmp
  | jc | jnc | jz | jnz | sjmp
  | jbc | jb | jnb
  | cjne | djnz
  deriving Repr, DecidableEq

namespace Mnemonic

/-- Every operation. -/
def all : List Mnemonic :=
  [.nop, .ret, .reti, .rr, .rrc, .rl, .rlc, .inc, .dec, .add, .addc, .subb, .orl, .anl, .xrl, .mul,
   .div, .swap, .da, .mov, .movc, .movx, .push, .pop, .xch, .xchd, .clr, .setb, .cpl, .ajmp, .acall,
   .ljmp, .lcall, .jmp, .jc, .jnc, .jz, .jnz, .sjmp, .jbc, .jb, .jnb, .cjne, .djnz]

/-- The name of an operation, in capitals. -/
def name : Mnemonic → String
  | .nop => "NOP" | .ret => "RET" | .reti => "RETI"
  | .rr => "RR" | .rrc => "RRC" | .rl => "RL" | .rlc => "RLC"
  | .inc => "INC" | .dec => "DEC"
  | .add => "ADD" | .addc => "ADDC" | .subb => "SUBB"
  | .orl => "ORL" | .anl => "ANL" | .xrl => "XRL"
  | .mul => "MUL" | .div => "DIV" | .swap => "SWAP" | .da => "DA"
  | .mov => "MOV" | .movc => "MOVC" | .movx => "MOVX"
  | .push => "PUSH" | .pop => "POP" | .xch => "XCH" | .xchd => "XCHD"
  | .clr => "CLR" | .setb => "SETB" | .cpl => "CPL"
  | .ajmp => "AJMP" | .acall => "ACALL" | .ljmp => "LJMP" | .lcall => "LCALL" | .jmp => "JMP"
  | .jc => "JC" | .jnc => "JNC" | .jz => "JZ" | .jnz => "JNZ" | .sjmp => "SJMP"
  | .jbc => "JBC" | .jb => "JB" | .jnb => "JNB"
  | .cjne => "CJNE" | .djnz => "DJNZ"

/-- The operation of a name. -/
def ofName? (text : String) : Option Mnemonic :=
  all.find? fun mnemonic => mnemonic.name == text

/-- Every operation is found by its name. -/
theorem ofName?_name (mnemonic : Mnemonic) : ofName? mnemonic.name = some mnemonic := by
  cases mnemonic <;> rfl

end Mnemonic

end Mcs51
