import Avr.Catalog
import Avr.Mnemonic
import Avr.Status

/-!
# The entry of each mnemonic

* `Mnemonic.entry` : operands, opcode template, flow and base cycles of a mnemonic;
* `Mnemonic.branchCondition?` : what a named branch tests;
* `Mnemonic.flagEffect?` : the status bit that a flag instruction sets or clears;
* `Mnemonic.isSkip`, `Mnemonic.isConditional` : the instructions that count as branches.
-/

namespace Avr

open Catalog

/-! ## Operand places -/

namespace Catalog.Place

def reg : ArgSpec := ⟨[.reg], .range 0 31⟩

def upperReg : ArgSpec := ⟨[.reg], .range 16 31⟩

def mulReg : ArgSpec := ⟨[.reg], .range 16 23⟩

/-- The lower register of an aligned pair. -/
def evenReg : ArgSpec := ⟨[.reg], .oneOf [0, 2, 4, 6, 8, 10, 12, 14, 16, 18, 20, 22, 24, 26, 28, 30]⟩

/-- The lower register of a pair for word arithmetic. -/
def wordReg : ArgSpec := ⟨[.reg], .oneOf [24, 26, 28, 30]⟩

def bit : ArgSpec := ⟨[.int], .range 0 7⟩

/-- An input/output cell with addressable bits. -/
def lowIo : ArgSpec := ⟨[.int], .range 0 31⟩

def io : ArgSpec := ⟨[.int], .range 0 63⟩

def sixBits : ArgSpec := ⟨[.int], .range 0 63⟩

def byte : ArgSpec := ⟨[.int], .range 0 255⟩

/-- A data address behind the registers and windows. -/
def dataAddress : ArgSpec := ⟨[.int], .range 256 65535⟩

def near : ArgSpec := ⟨[.int], .range (-64) 63⟩

def middle : ArgSpec := ⟨[.int], .range (-2048) 2047⟩

/-- The offset of a relative call, or a function of the simulator. -/
def middleOrFunc : ArgSpec := ⟨[.int, .func], .range (-2048) 2047⟩

def far : ArgSpec := ⟨[.int], .range 0 4194303⟩

def farOrFunc : ArgSpec := ⟨[.int, .func], .range 0 4194303⟩

def pointer : ArgSpec := ⟨[.word, .minusWord, .wordPlus], .any⟩

def pointerDisp : ArgSpec := ⟨[.wordPlusQ], .range 0 63⟩

def pointerZ : ArgSpec := ⟨[.word], .exact "Z"⟩

end Catalog.Place

namespace Mnemonic

open Catalog.Place

/-! ## Entries -/

def entry : Mnemonic → Entry
  | ADC => Entry.template [reg, reg] "dr" "000111rdddddrrrr"
  | ADD => Entry.template [reg, reg] "dr" "000011rdddddrrrr"
  | ADIW => (Entry.irregular [wordReg, sixBits]).taking 2
  | AND => Entry.template [reg, reg] "dr" "001000rdddddrrrr"
  | ANDI => Entry.template [upperReg, byte] "dK" "0111KKKKddddKKKK"
  | ASR => Entry.template [reg] "d" "1001010ddddd0101"
  | BCLR => Entry.template [bit] "s" "100101001sss1000"
  | BLD => Entry.template [reg, bit] "db" "1111100ddddd0bbb"
  | BRBC => (Entry.template [bit, near] "sk" "111101kkkkkkksss").relative
  | BRBS => (Entry.template [bit, near] "sk" "111100kkkkkkksss").relative
  | BRCC => (Entry.template [near] "k" "111101kkkkkkk000").relative
  | BRCS => (Entry.template [near] "k" "111100kkkkkkk000").relative
  | BREAK => Entry.template [] "" "1001010110011000"
  | BREQ => (Entry.template [near] "k" "111100kkkkkkk001").relative
  | BRGE => (Entry.template [near] "k" "111101kkkkkkk100").relative
  | BRHC => (Entry.template [near] "k" "111101kkkkkkk101").relative
  | BRHS => (Entry.template [near] "k" "111100kkkkkkk101").relative
  | BRID => (Entry.template [near] "k" "111101kkkkkkk111").relative
  | BRIE => (Entry.template [near] "k" "111100kkkkkkk111").relative
  | BRLO => (Entry.template [near] "k" "111100kkkkkkk000").relative
  | BRLT => (Entry.template [near] "k" "111100kkkkkkk100").relative
  | BRMI => (Entry.template [near] "k" "111100kkkkkkk010").relative
  | BRNE => (Entry.template [near] "k" "111101kkkkkkk001").relative
  | BRPL => (Entry.template [near] "k" "111101kkkkkkk010").relative
  | BRSH => (Entry.template [near] "k" "111101kkkkkkk000").relative
  | BRTC => (Entry.template [near] "k" "111101kkkkkkk110").relative
  | BRTS => (Entry.template [near] "k" "111100kkkkkkk110").relative
  | BRVC => (Entry.template [near] "k" "111101kkkkkkk011").relative
  | BRVS => (Entry.template [near] "k" "111100kkkkkkk011").relative
  | BSET => Entry.template [bit] "s" "100101000sss1000"
  | BST => Entry.template [reg, bit] "db" "1111101ddddd0bbb"
  | CALL => (Entry.template [farOrFunc] "k" "1001010kkkkk111kkkkkkkkkkkkkkkkk").absolute.taking 4
  | CBI => (Entry.template [lowIo, bit] "Ab" "10011000AAAAAbbb").taking 2
  | CBR => Entry.irregular [upperReg, byte]
  | CLC => Entry.template [] "" "1001010010001000"
  | CLH => Entry.template [] "" "1001010011011000"
  | CLI => Entry.template [] "" "1001010011111000"
  | CLN => Entry.template [] "" "1001010010101000"
  | CLR => Entry.irregular [reg]
  | CLS => Entry.template [] "" "1001010011001000"
  | CLT => Entry.template [] "" "1001010011101000"
  | CLV => Entry.template [] "" "1001010010111000"
  | CLZ => Entry.template [] "" "1001010010011000"
  | COM => Entry.template [reg] "d" "1001010ddddd0000"
  | CP => Entry.template [reg, reg] "dr" "000101rdddddrrrr"
  | CPC => Entry.template [reg, reg] "dr" "000001rdddddrrrr"
  | CPI => Entry.template [upperReg, byte] "dK" "0011KKKKddddKKKK"
  | CPSE => Entry.template [reg, reg] "dr" "000100rdddddrrrr"
  | DEC => Entry.template [reg] "d" "1001010ddddd1010"
  | EOR => Entry.template [reg, reg] "dr" "001001rdddddrrrr"
  | FMUL => (Entry.template [mulReg, mulReg] "dr" "000000110ddd1rrr").taking 2
  | FMULS => (Entry.template [mulReg, mulReg] "dr" "000000111ddd0rrr").taking 2
  | FMULSU => (Entry.template [mulReg, mulReg] "dr" "000000111ddd1rrr").taking 2
  | ICALL => (Entry.template [] "" "1001010100001001").taking 3
  | IJMP => (Entry.template [] "" "1001010000001001").taking 2
  | IN => Entry.template [reg, io] "dA" "10110AAdddddAAAA"
  | INC => Entry.template [reg] "d" "1001010ddddd0011"
  | JMP => (Entry.template [far] "k" "1001010kkkkk110kkkkkkkkkkkkkkkkk").absolute.taking 3
  | LD => (Entry.irregular [reg, pointer]).taking 2
  | LDD => (Entry.irregular [reg, pointerDisp]).taking 2
  | LDI => Entry.template [upperReg, byte] "dK" "1110KKKKddddKKKK"
  | LDS => (Entry.template [reg, dataAddress] "dk" "1001000ddddd0000kkkkkkkkkkkkkkkk").taking 2
  | LSL => Entry.irregular [reg]
  | LSR => Entry.template [reg] "d" "1001010ddddd0110"
  | MOV => Entry.template [reg, reg] "dr" "001011rdddddrrrr"
  | MOVW => Entry.irregular [evenReg, evenReg]
  | MUL => (Entry.template [reg, reg] "dr" "100111rdddddrrrr").taking 2
  | MULS => (Entry.template [upperReg, upperReg] "dr" "00000010ddddrrrr").taking 2
  | MULSU => (Entry.template [mulReg, mulReg] "dr" "000000110ddd0rrr").taking 2
  | NEG => Entry.template [reg] "d" "1001010ddddd0001"
  | NOP => Entry.template [] "" "0000000000000000"
  | OR => Entry.template [reg, reg] "dr" "001010rdddddrrrr"
  | ORI => Entry.template [upperReg, byte] "dK" "0110KKKKddddKKKK"
  | OUT => Entry.template [io, reg] "Ar" "10111AArrrrrAAAA"
  | POP => (Entry.template [reg] "d" "1001000ddddd1111").taking 2
  | PUSH => (Entry.template [reg] "r" "1001001rrrrr1111").taking 2
  | RCALL => (Entry.template [middleOrFunc] "k" "1101kkkkkkkkkkkk").relative.taking 3
  | RET => (Entry.template [] "" "1001010100001000").taking 4
  | RETI => (Entry.template [] "" "1001010100011000").taking 4
  | RJMP => (Entry.template [middle] "k" "1100kkkkkkkkkkkk").relative.taking 2
  | ROL => Entry.irregular [reg]
  | ROR => Entry.template [reg] "d" "1001010ddddd0111"
  | SBC => Entry.template [reg, reg] "dr" "000010rdddddrrrr"
  | SBCI => Entry.template [upperReg, byte] "dK" "0100KKKKddddKKKK"
  | SBI => (Entry.template [lowIo, bit] "Ab" "10011010AAAAAbbb").taking 2
  | SBIC => Entry.template [lowIo, bit] "Ab" "10011001AAAAAbbb"
  | SBIS => Entry.template [lowIo, bit] "Ab" "10011011AAAAAbbb"
  | SBIW => (Entry.irregular [wordReg, sixBits]).taking 2
  | SBR => Entry.template [upperReg, byte] "dK" "0110KKKKddddKKKK"
  | SBRC => Entry.template [reg, bit] "rb" "1111110rrrrr0bbb"
  | SBRS => Entry.template [reg, bit] "rb" "1111111rrrrr0bbb"
  | SEC => Entry.template [] "" "1001010000001000"
  | SEH => Entry.template [] "" "1001010001011000"
  | SEI => Entry.template [] "" "1001010001111000"
  | SEN => Entry.template [] "" "1001010000101000"
  | SER => Entry.template [upperReg] "d" "11101111dddd1111"
  | SES => Entry.template [] "" "1001010001001000"
  | SET => Entry.template [] "" "1001010001101000"
  | SEV => Entry.template [] "" "1001010000111000"
  | SEZ => Entry.template [] "" "1001010000011000"
  | SLEEP => Entry.template [] "" "1001010110001000"
  | ST => (Entry.irregular [pointer, reg]).taking 2
  | STD => (Entry.irregular [pointerDisp, reg]).taking 2
  | STS => (Entry.template [dataAddress, reg] "kr" "1001001rrrrr0000kkkkkkkkkkkkkkkk").taking 2
  | SUB => Entry.template [reg, reg] "dr" "000110rdddddrrrr"
  | SUBI => Entry.template [upperReg, byte] "dK" "0101KKKKddddKKKK"
  | SWAP => Entry.template [reg] "d" "1001010ddddd0010"
  | TST => Entry.irregular [reg]
  | WDR => Entry.template [] "" "1001010110101000"
  | XCH => (Entry.template [pointerZ, reg] "_d" "1001001ddddd0100").taking 2

/-! ## Conditions and flags -/

/-- The status bit that a named branch tests, and the value with which it is taken. -/
def branchCondition? : Mnemonic → Option (StatusBit × Bool)
  | BRCC | BRSH => some (.C, false)
  | BRCS | BRLO => some (.C, true)
  | BRNE => some (.Z, false)
  | BREQ => some (.Z, true)
  | BRPL => some (.N, false)
  | BRMI => some (.N, true)
  | BRVC => some (.V, false)
  | BRVS => some (.V, true)
  | BRGE => some (.S, false)
  | BRLT => some (.S, true)
  | BRHC => some (.H, false)
  | BRHS => some (.H, true)
  | BRTC => some (.T, false)
  | BRTS => some (.T, true)
  | BRID => some (.I, false)
  | BRIE => some (.I, true)
  | _ => none

/-- The one status bit that a flag instruction writes, and the value it writes. -/
def flagEffect? : Mnemonic → Option (StatusBit × Bool)
  | SEC => some (.C, true)
  | SEZ => some (.Z, true)
  | SEN => some (.N, true)
  | SEV => some (.V, true)
  | SES => some (.S, true)
  | SEH => some (.H, true)
  | SET => some (.T, true)
  | SEI => some (.I, true)
  | CLC => some (.C, false)
  | CLZ => some (.Z, false)
  | CLN => some (.N, false)
  | CLV => some (.V, false)
  | CLS => some (.S, false)
  | CLH => some (.H, false)
  | CLT => some (.T, false)
  | CLI => some (.I, false)
  | _ => none

def isSkip : Mnemonic → Bool
  | CPSE | SBRC | SBRS | SBIC | SBIS => true
  | _ => false

/-- Whether the instruction counts as a branch. -/
def isConditional (m : Mnemonic) : Bool :=
  m.isSkip || m.branchCondition?.isSome || m == BRBC || m == BRBS

end Mnemonic

end Avr
