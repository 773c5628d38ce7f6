/-!
# Mnemonics

* `Mnemonic` : the instructions of the catalog, in alphabetical order;
* `Mnemonic.name`, `Mnemonic.ofName?` : the written form and back, upper case only;
* `Mnemonic.all`, `Mnemonic.index` : the mnemonics as a list and the place of each in it.
-/

namespace Avr

/-- The instructions, by the names they have in source text. -/
inductive Mnemonic
  | ADC | ADD | ADIW | AND | ANDI | ASR | BCLR | BLD | BRBC | BRBS | BRCC | BRCS | BREAK | BREQ | BRGE
  | BRHC | BRHS | BRID | BRIE | BRLO | BRLT | BRMI | BRNE | BRPL | BRSH | BRTC | BRTS | BRVC | BRVS | BSET
  | BST | CALL | CBI | CBR | CLC | CLH | CLI | CLN | CLR | CLS | CLT | CLV | CLZ | COM | CP | CPC | CPI
  | CPSE | DEC | EOR | FMUL | FMULS | FMULSU | ICALL | IJMP | IN | INC | JMP | LD | LDD | LDI | LDS | LSL
  | LSR | MOV | MOVW | MUL | MULS | MULSU | NEG | NOP | OR | ORI | OUT | POP | PUSH | RCALL | RET | RETI
  | RJMP | ROL | ROR | SBC | SBCI | SBI | SBIC | SBIS | SBIW | SBR | SBRC | SBRS | SEC | SEH | SEI | SEN
  | SER | SES | SET | SEV | SEZ | SLEEP | ST | STD | STS | SUB | SUBI | SWAP | TST | WDR | XCH
deriving DecidableEq, Repr

namespace Mnemonic

def all : List Mnemonic := [
  ADC, ADD, ADIW, AND, ANDI, ASR, BCLR, BLD, BRBC, BRBS, BRCC, BRCS, BREAK, BREQ, BRGE, BRHC, BRHS, BRID,
  BRIE, BRLO, BRLT, BRMI, BRNE, BRPL, BRSH, BRTC, BRTS, BRVC, BRVS, BSET, BST, CALL, CBI, CBR, CLC, CLH,
  CLI, CLN, CLR, CLS, CLT, CLV, CLZ, COM, CP, CPC, CPI, CPSE, DEC, EOR, FMUL, FMULS, FMULSU, ICALL, IJMP,
  IN, INC, JMP, LD, LDD, LDI, LDS, LSL, LSR, MOV, MOVW, MUL, MULS, MULSU, NEG, NOP, OR, ORI, OUT, POP,
  PUSH, RCALL, RET, RETI, RJMP, ROL, ROR, SBC, SBCI, SBI, SBIC, SBIS, SBIW, SBR, SBRC, SBRS, SEC, SEH, SEI,
  SEN, SER, SES, SET, SEV, SEZ, SLEEP, ST, STD, STS, SUB, SUBI, SWAP, TST, WDR, XCH]

def name : Mnemonic → String
  | ADC => "ADC"
  | ADD => "ADD"
  | ADIW => "ADIW"
  | AND => "AND"
  | ANDI => "ANDI"
  | ASR => "ASR"
  | BCLR => "BCLR"
  | BLD => "BLD"
  | BRBC => "BRBC"
  | BRBS => "BRBS"
  | BRCC => "BRCC"
  | BRCS => "BRCS"
  | BREAK => "BREAK"
  | BREQ => "BREQ"
  | BRGE => "BRGE"
  | BRHC => "BRHC"
  | BRHS => "BRHS"
  | BRID => "BRID"
  | BRIE => "BRIE"
  | BRLO => "BRLO"
  | BRLT => "BRLT"
  | BRMI => "BRMI"
  | BRNE => "BRNE"
  | BRPL => "BRPL"
  | BRSH => "BRSH"
  | BRTC => "BRTC"
  | BRTS => "BRTS"
  | BRVC => "BRVC"
  | BRVS => "BRVS"
  | BSET => "BSET"
  | BST => "BST"
  | CALL => "CALL"
  | CBI => "CBI"
  | CBR => "CBR"
  | CLC => "CLC"
  | CLH => "CLH"
  | CLI => "CLI"
  | CLN => "CLN"
  | CLR => "CLR"
  | CLS => "CLS"
  | CLT => "CLT"
  | CLV => "CLV"
  | CLZ => "CLZ"
  | COM => "COM"
  | CP => "CP"
  | CPC => "CPC"
  | CPI => "CPI"
  | CPSE => "CPSE"
  | DEC => "DEC"
  | EOR => "EOR"
  | FMUL => "FMUL"
  | FMULS => "FMULS"
  | FMULSU => "FMULSU"
  | ICALL => "ICALL"
  | IJMP => "IJMP"
  | IN => "IN"
  | INC => "INC"
  | JMP => "JMP"
  | LD => "LD"
  | LDD => "LDD"
  | LDI => "LDI"
  | LDS => "LDS"
  | LSL => "LSL"
  | LSR => "LSR"
  | MOV => "MOV"
  | MOVW => "MOVW"
  | MUL => "MUL"
  | MULS => "MULS"
  | MULSU => "MULSU"
  | NEG => "NEG"
  | NOP => "NOP"
  | OR => "OR"
  | ORI => "ORI"
  | OUT => "OUT"
  | POP => "POP"
  | PUSH => "PUSH"
  | RCALL => "RCALL"
  | RET => "RET"
  | RETI => "RETI"
  | RJMP => "RJMP"
  | ROL => "ROL"
  | ROR => "ROR"
  | SBC => "SBC"
  | SBCI => "SBCI"
  | SBI => "SBI"
  | SBIC => "SBIC"
  | SBIS => "SBIS"
  | SBIW => "SBIW"
  | SBR => "SBR"
  | SBRC => "SBRC"
  | SBRS => "SBRS"
  | SEC => "SEC"
  | SEH => "SEH"
  | SEI => "SEI"
  | SEN => "SEN"
  | SER => "SER"
  | SES => "SES"
  | SET => "SET"
  | SEV => "SEV"
  | SEZ => "SEZ"
  | SLEEP => "SLEEP"
  | ST => "ST"
  | STD => "STD"
  | STS => "STS"
  | SUB => "SUB"
  | SUBI => "SUBI"
  | SWAP => "SWAP"
  | TST => "TST"
  | WDR => "WDR"
  | XCH => "XCH"

def ofName? (s : String) : Option Mnemonic := all.find? fun m => m.name == s

abbrev count : Nat := 110

/-- The place of the mnemonic in the list of all. -/
def index (m : Mnemonic) : Nat := m.ctorIdx

theorem index_lt (m : Mnemonic) : m.index < count := by cases m <;> decide

theorem getElem?_all_index (m : Mnemonic) : all[m.index]? = some m := by cases m <;> rfl

theorem mem_all (m : Mnemonic) : m ∈ all := List.mem_of_getElem? (getElem?_all_index m)

end Mnemonic

end Avr
