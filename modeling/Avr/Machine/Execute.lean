import Avr.Machine.Access

/-!
# The instructions

* `combine`, `compare`, `combineImm`, `modifyRegister`, … : what families of instructions have in common;
* `execute` : the effect of an instruction and where the machine goes after it.

Operands are asked for where an instruction needs them. An operand of the wrong shape is a fault at that moment,
and what the instruction did before stays done.
-/

namespace Avr.Machine

variable {γ : Type}

/-! ## Families -/

def thenNext (f : Machine γ → Machine γ) : Exec γ Control := do
  modify f
  return .next

def onRegisters (i : Instruction) (f : Nat → Nat → Machine γ → Machine γ) : Exec γ Control := do
  let rd ← i.reg 0
  let rr ← i.reg 1
  thenNext (f rd rr)

/-- Two registers combined into the first, given their values, the carry and the zero bit. -/
def combine (i : Instruction) (f : Byte → Byte → Bool → Bool → Alu.Result Byte) : Exec γ Control :=
  onRegisters i fun rd rr m => m.writeResult rd (f (m.register rd) (m.register rr) (m.flag .C) (m.flag .Z))

/-- Two registers compared: only the status bits of the result are kept. -/
def compare (i : Instruction) (f : Byte → Byte → Bool → Bool → Alu.Result Byte) : Exec γ Control :=
  onRegisters i fun rd rr m => m.applyFlags (f (m.register rd) (m.register rr) (m.flag .C) (m.flag .Z))

/-- Two registers multiplied into the lowest pair. -/
def multiply (i : Instruction) (f : Byte → Byte → Alu.Result Word) : Exec γ Control :=
  onRegisters i fun rd rr m => m.writeWordResult 0 (f (m.register rd) (m.register rr))

def onConstant (i : Instruction) (f : Nat → Byte → Machine γ → Machine γ) : Exec γ Control := do
  let rd ← i.reg 0
  let k ← i.imm 1
  thenNext (f rd (BitVec.ofInt 8 k))

def combineImm (i : Instruction) (f : Byte → Byte → Bool → Bool → Alu.Result Byte) : Exec γ Control :=
  onConstant i fun rd k m => m.writeResult rd (f (m.register rd) k (m.flag .C) (m.flag .Z))

def onRegister (i : Instruction) (f : Nat → Machine γ → Machine γ) : Exec γ Control := do
  let rd ← i.reg 0
  thenNext (f rd)

/-- One register changed, given its value and the carry. -/
def modifyRegister (i : Instruction) (f : Byte → Bool → Alu.Result Byte) : Exec γ Control :=
  onRegister i fun rd m => m.writeResult rd (f (m.register rd) (m.flag .C))

def combineWord (i : Instruction) (f : Word → Word → Alu.Result Word) : Exec γ Control := do
  let rd ← i.reg 0
  let k ← i.imm 1
  thenNext fun m => m.writeWordResult rd (f (m.pair rd) (BitVec.ofInt 16 k))

def assignBit (b : Byte) (n : Nat) (v : Bool) : Byte := if v then b ||| 1#8 <<< n else b &&& ~~~(1#8 <<< n)

def assignIoBit (i : Instruction) (v : Bool) : Exec γ Control := do
  let a := ioAddressOf (← i.imm 0)
  let n ← i.bit 1
  let b ← load a
  store a (assignBit b n v)
  return .next

def branchOn (b : StatusBit) (v : Bool) (k : Int) : Exec γ Control := do
  branch ((← get).flag b == v) k

/-! ## All instructions -/

def execute [Console γ] (i : Instruction) : Exec γ Control :=
  match i.mnemonic with
  | .ADD => combine i fun d r _ _ => Alu.add d r false
  | .ADC => combine i fun d r c _ => Alu.add d r c
  | .SUB => combine i fun d r _ _ => Alu.sub d r false true
  | .SBC => combine i fun d r c z => Alu.sub d r c z
  | .AND => combine i fun d r _ _ => Alu.logic (d &&& r)
  | .OR => combine i fun d r _ _ => Alu.logic (d ||| r)
  | .EOR => combine i fun d r _ _ => Alu.logic (d ^^^ r)
  | .CP => compare i fun d r _ _ => Alu.sub d r false true
  | .CPC => compare i fun d r c z => Alu.sub d r c z
  | .MOV => onRegisters i fun rd rr m => m.write rd (m.register rr)
  | .MOVW => onRegisters i fun rd rr m => m.writePair rd (m.pair rr)
  | .MUL => multiply i fun d r => Alu.mul d r .unsigned
  | .MULS => multiply i fun d r => Alu.mul d r .signed
  | .MULSU => multiply i fun d r => Alu.mul d r .mixed
  | .FMUL => multiply i fun d r => Alu.fmul d r .unsigned
  | .FMULS => multiply i fun d r => Alu.fmul d r .signed
  | .FMULSU => multiply i fun d r => Alu.fmul d r .mixed
  | .CPSE => do
    let rd ← i.reg 0
    let rr ← i.reg 1
    let m ← get
    skip (m.register rd == m.register rr)
  | .ANDI => combineImm i fun d k _ _ => Alu.logic (d &&& k)
  | .ORI | .SBR => combineImm i fun d k _ _ => Alu.logic (d ||| k)
  | .CBR => combineImm i fun d k _ _ => Alu.logic (d &&& ~~~k)
  | .SUBI => combineImm i fun d k _ _ => Alu.sub d k false true
  | .SBCI => combineImm i fun d k c z => Alu.sub d k c z
  | .CPI => onConstant i fun rd k m => m.applyFlags (Alu.sub (m.register rd) k false true)
  | .LDI => onConstant i fun rd k m => m.write rd k
  | .ASR => modifyRegister i fun d _ => Alu.asr d
  | .COM => modifyRegister i fun d _ => Alu.com d
  | .DEC => modifyRegister i fun d _ => Alu.dec d
  | .INC => modifyRegister i fun d _ => Alu.inc d
  | .LSL => modifyRegister i fun d _ => Alu.add d d false
  | .LSR => modifyRegister i fun d _ => Alu.lsr d
  | .NEG => modifyRegister i fun d _ => Alu.neg d
  | .ROL => modifyRegister i fun d c => Alu.add d d c
  | .ROR => modifyRegister i fun d c => Alu.ror d c
  | .CLR => modifyRegister i fun _ _ => Alu.logic 0
  | .SWAP => onRegister i fun rd m => m.write rd ((m.register rd).rotateLeft 4)
  | .TST => onRegister i fun rd m => m.applyFlags (Alu.logic (m.register rd))
  | .SER => onRegister i fun rd m => m.write rd 0xFF
  | .ADIW => combineWord i Alu.addWord
  | .SBIW => combineWord i Alu.subWord
  | .BSET => do
    let n ← i.bit 0
    thenNext fun m => m.setFlag (.ofIndex n) true
  | .BCLR => do
    let n ← i.bit 0
    thenNext fun m => m.setFlag (.ofIndex n) false
  | .SEC => thenNext fun m => m.setFlag .C true
  | .SEZ => thenNext fun m => m.setFlag .Z true
  | .SEN => thenNext fun m => m.setFlag .N true
  | .SEV => thenNext fun m => m.setFlag .V true
  | .SES => thenNext fun m => m.setFlag .S true
  | .SEH => thenNext fun m => m.setFlag .H true
  | .SET => thenNext fun m => m.setFlag .T true
  | .SEI => thenNext fun m => m.setFlag .I true
  | .CLC => thenNext fun m => m.setFlag .C false
  | .CLZ => thenNext fun m => m.setFlag .Z false
  | .CLN => thenNext fun m => m.setFlag .N false
  | .CLV => thenNext fun m => m.setFlag .V false
  | .CLS => thenNext fun m => m.setFlag .S false
  | .CLH => thenNext fun m => m.setFlag .H false
  | .CLT => thenNext fun m => m.setFlag .T false
  | .CLI => thenNext fun m => m.setFlag .I false
  | .BST => do
    let rd ← i.reg 0
    let n ← i.bit 1
    thenNext fun m => m.setFlag .T ((m.register rd).getLsbD n)
  | .BLD => do
    let rd ← i.reg 0
    let n ← i.bit 1
    thenNext fun m => m.write rd (assignBit (m.register rd) n (m.flag .T))
  | .BRBC => do
    let n ← i.bit 0
    branchOn (.ofIndex n) false (← i.imm 1)
  | .BRBS => do
    let n ← i.bit 0
    branchOn (.ofIndex n) true (← i.imm 1)
  | .BRCC | .BRSH => do branchOn .C false (← i.imm 0)
  | .BRCS | .BRLO => do branchOn .C true (← i.imm 0)
  | .BRNE => do branchOn .Z false (← i.imm 0)
  | .BREQ => do branchOn .Z true (← i.imm 0)
  | .BRPL => do branchOn .N false (← i.imm 0)
  | .BRMI => do branchOn .N true (← i.imm 0)
  | .BRVC => do branchOn .V false (← i.imm 0)
  | .BRVS => do branchOn .V true (← i.imm 0)
  | .BRGE => do branchOn .S false (← i.imm 0)
  | .BRLT => do branchOn .S true (← i.imm 0)
  | .BRHC => do branchOn .H false (← i.imm 0)
  | .BRHS => do branchOn .H true (← i.imm 0)
  | .BRTC => do branchOn .T false (← i.imm 0)
  | .BRTS => do branchOn .T true (← i.imm 0)
  | .BRID => do branchOn .I false (← i.imm 0)
  | .BRIE => do branchOn .I true (← i.imm 0)
  | .SBRC => do
    let r ← i.reg 0
    let n ← i.bit 1
    skip (!((← get).register r).getLsbD n)
  | .SBRS => do
    let r ← i.reg 0
    let n ← i.bit 1
    skip (((← get).register r).getLsbD n)
  | .SBIC => do
    let b ← load (ioAddressOf (← i.imm 0))
    let n ← i.bit 1
    skip (!b.getLsbD n)
  | .SBIS => do
    let b ← load (ioAddressOf (← i.imm 0))
    let n ← i.bit 1
    skip (b.getLsbD n)
  | .CBI => assignIoBit i false
  | .SBI => assignIoBit i true
  | .IN => do
    let b ← load (ioAddressOf (← i.imm 1))
    let rd ← i.reg 0
    thenNext fun m => m.write rd b
  | .OUT => do
    let r ← i.reg 1
    let a := ioAddressOf (← i.imm 0)
    store a ((← get).register r)
    return .next
  | .LD | .LDD => do
    let rd ← i.reg 0
    let (p, mode) ← i.ptr 1
    let (a, update) := (← get).address p mode
    let b ← load a
    thenNext fun m => (m.updatePointer p update).write rd b
  | .ST | .STD => do
    let (p, mode) ← i.ptr 0
    let r ← i.reg 1
    let m ← get
    let (b, a, update) := (m.register r, m.address p mode)
    store a b
    thenNext fun m => m.updatePointer p update
  | .LDS => do
    let b ← load (addressOf (← i.imm 1))
    let rd ← i.reg 0
    thenNext fun m => m.write rd b
  | .STS => do
    let r ← i.reg 1
    let a := addressOf (← i.imm 0)
    store a ((← get).register r)
    return .next
  | .XCH => do
    let rd ← i.reg 1
    let a := ((← get).pointer .Z).toNat
    let old ← load a
    store a ((← get).register rd)
    thenNext fun m => m.write rd old
  | .PUSH => do
    let r ← i.reg 0
    push ((← get).register r)
    return .next
  | .POP => do
    let b ← pop
    let rd ← i.reg 0
    thenNext fun m => m.write rd b
  | .RJMP => do return .jump (← relative (← i.imm 0))
  | .JMP => do return .jump (← absolute (← i.imm 0))
  | .IJMP => do return .jump (← absolute ((← get).pointer .Z).toNat)
  | .RCALL =>
    if i.callsFunc then do
      print
      return .next
    else do
      let target ← relative (← i.imm 0)
      call target i.width
  | .CALL =>
    if i.callsFunc then do
      print
      return .next
    else do
      let target ← absolute (← i.imm 0)
      call target i.width
  | .ICALL => do
    let target ← absolute ((← get).pointer .Z).toNat
    call target i.width
  | .RET => do
    if (← get).sp.toNat = ramEnd then return .stop
    return .jump (← popReturn)
  | .RETI => do
    if (← get).sp.toNat = ramEnd then return .stop
    let target ← popReturn
    modify fun m => m.setFlag .I true
    return .jump target
  | .BREAK => return .stop
  | .NOP | .SLEEP | .WDR => return .next

end Avr.Machine
