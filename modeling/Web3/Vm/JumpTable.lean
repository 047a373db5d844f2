import Web3.Vm.GasTable

/-! # Jump tables

The operation of each opcode (`jump_table.go`) in the eight instruction sets, and the changes that can
be enabled in addition (`eips.go`). A function of an operation is named by a constructor, so that what
a table contains can be decided. -/

namespace Web3.Vm

namespace OpCode

def STOP : OpCode := 0x00
def ADD : OpCode := 0x01
def MUL : OpCode := 0x02
def SUB : OpCode := 0x03
def DIV : OpCode := 0x04
def SDIV : OpCode := 0x05
def MOD : OpCode := 0x06
def SMOD : OpCode := 0x07
def ADDMOD : OpCode := 0x08
def MULMOD : OpCode := 0x09
def EXP : OpCode := 0x0a
def SIGNEXTEND : OpCode := 0x0b
def LT : OpCode := 0x10
def GT : OpCode := 0x11
def SLT : OpCode := 0x12
def SGT : OpCode := 0x13
def EQ : OpCode := 0x14
def ISZERO : OpCode := 0x15
def AND : OpCode := 0x16
def OR : OpCode := 0x17
def XOR : OpCode := 0x18
def NOT : OpCode := 0x19
def BYTE : OpCode := 0x1a
def SHL : OpCode := 0x1b
def SHR : OpCode := 0x1c
def SAR : OpCode := 0x1d
def SHA3 : OpCode := 0x20
def ADDRESS : OpCode := 0x30
def BALANCE : OpCode := 0x31
def ORIGIN : OpCode := 0x32
def CALLER : OpCode := 0x33
def CALLVALUE : OpCode := 0x34
def CALLDATALOAD : OpCode := 0x35
def CALLDATASIZE : OpCode := 0x36
def CALLDATACOPY : OpCode := 0x37
def CODESIZE : OpCode := 0x38
def CODECOPY : OpCode := 0x39
def GASPRICE : OpCode := 0x3a
def EXTCODESIZE : OpCode := 0x3b
def EXTCODECOPY : OpCode := 0x3c
def RETURNDATASIZE : OpCode := 0x3d
def RETURNDATACOPY : OpCode := 0x3e
def EXTCODEHASH : OpCode := 0x3f
def BLOCKHASH : OpCode := 0x40
def COINBASE : OpCode := 0x41
def TIMESTAMP : OpCode := 0x42
def NUMBER : OpCode := 0x43
def DIFFICULTY : OpCode := 0x44
def GASLIMIT : OpCode := 0x45
def CHAINID : OpCode := 0x46
def SELFBALANCE : OpCode := 0x47
def POP : OpCode := 0x50
def MLOAD : OpCode := 0x51
def MSTORE : OpCode := 0x52
def MSTORE8 : OpCode := 0x53
def SLOAD : OpCode := 0x54
def SSTORE : OpCode := 0x55
def JUMP : OpCode := 0x56
def JUMPI : OpCode := 0x57
def PC : OpCode := 0x58
def MSIZE : OpCode := 0x59
def GAS : OpCode := 0x5a
def RETURNSUB : OpCode := 0x5d
def JUMPSUB : OpCode := 0x5e
def DUP1 : OpCode := 0x80
def SWAP1 : OpCode := 0x90
def LOG0 : OpCode := 0xa0
def CREATE : OpCode := 0xf0
def CALL : OpCode := 0xf1
def CALLCODE : OpCode := 0xf2
def RETURN : OpCode := 0xf3
def DELEGATECALL : OpCode := 0xf4
def CREATE2 : OpCode := 0xf5
def STATICCALL : OpCode := 0xfa
def REVERT : OpCode := 0xfd
def SELFDESTRUCT : OpCode := 0xff

end OpCode

/-! ## Operations -/

structure Operation where
  execute : ExecutionFunc
  constantGas : UInt64 := 0
  dynamicGas : Option GasFunc := none
  minStack : ℕ
  maxStack : ℕ
  memorySize : Option MemorySizeFunc := none
  halts : Bool := false
  jumps : Bool := false
  writes : Bool := false
  reverts : Bool := false
  returns : Bool := false

def stackLimit : ℕ := 1024

def minStack (pops _push : ℕ) : ℕ := pops

def maxStack (pop push : ℕ) : ℕ := stackLimit + pop - push

def op (execute : ExecutionFunc) (constantGas : UInt64) (pops push : ℕ) : Operation :=
  { execute, constantGas, minStack := minStack pops push, maxStack := maxStack pops push }

/-- The operations with their opcodes; of several with the same opcode the first one counts. -/
abbrev JumpTable := List (OpCode × Operation)

namespace JumpTable

def set (code : OpCode) (o : Operation) (jt : JumpTable) : JumpTable := (code, o) :: jt

def update (code : OpCode) (f : Operation → Operation) (jt : JumpTable) : JumpTable :=
  match jt.lookup code with
  | some o => jt.set code (f o)
  | none => jt

def setConstantGas (code : OpCode) (gas : UInt64) : JumpTable → JumpTable :=
  update code fun o => { o with constantGas := gas }

def setDynamicGas (code : OpCode) (gas : GasFunc) : JumpTable → JumpTable :=
  update code fun o => { o with dynamicGas := some gas }

end JumpTable

open JumpTable OpCode

/-! ## EIPs -/

def enable1884 (jt : JumpTable) : JumpTable :=
  jt |> setConstantGas SLOAD sloadGasEIP1884
    |> setConstantGas BALANCE balanceGasEIP1884
    |> setConstantGas EXTCODEHASH extcodeHashGasEIP1884
    |> set SELFBALANCE (op .opSelfBalance gasFastStep 0 1)

def enable1344 (jt : JumpTable) : JumpTable := jt.set CHAINID (op .opChainID gasQuickStep 0 1)

def enable2200 (jt : JumpTable) : JumpTable :=
  jt |> setConstantGas SLOAD sloadGasEIP2200
    |> setDynamicGas SSTORE .gasSStoreEIP2200

def enable2315 (jt : JumpTable) : JumpTable :=
  jt |> set BEGINSUB (op .opBeginSub gasQuickStep 0 0)
    |> set JUMPSUB { op .opJumpSub gasSlowStep 1 0 with jumps := true }
    |> set RETURNSUB { op .opReturnSub gasFastStep 0 0 with jumps := true }

/-- Older tables have no `EXTCODEHASH` whose cost could be changed. -/
def enableEIP (eipNum : ℤ) (jt : JumpTable) : Except String JumpTable :=
  if eipNum = 2200 then .ok (enable2200 jt)
  else if eipNum = 1884 then
    if (jt.lookup EXTCODEHASH).isNone then .error "nil pointer dereference" else .ok (enable1884 jt)
  else if eipNum = 1344 then .ok (enable1344 jt)
  else if eipNum = 2315 then .ok (enable2315 jt)
  else .error s!"undefined eip {eipNum}"

/-! ## Instruction sets -/

def pushOperations : JumpTable := (List.range 31).map fun i =>
  (PUSH1 + 1 + UInt8.ofNat i, op (.makePush (UInt64.ofNat (i + 2)) (i + 2)) gasFastestStep 0 1)

def dupOperations : JumpTable := (List.range 16).map fun i =>
  (DUP1 + UInt8.ofNat i, op (.makeDup (i + 1)) gasFastestStep (i + 1) (i + 2))

def swapOperations : JumpTable := (List.range 16).map fun i =>
  (SWAP1 + UInt8.ofNat i, op (.makeSwap (i + 1)) gasFastestStep (i + 2) (i + 2))

def logOperations : JumpTable := (List.range 5).map fun i =>
  (LOG0 + UInt8.ofNat i, { op (.makeLog i) 0 (i + 2) 0 with
        dynamicGas := some (.makeGasLog (UInt64.ofNat i)), memorySize := some .memoryLog, writes := true })

def newFrontierInstructionSet : JumpTable :=
  [ (STOP, { op .opStop 0 0 0 with halts := true }), (ADD, op .opAdd gasFastestStep 2 1),
    (MUL, op .opMul gasFastStep 2 1),
    (SUB, op .opSub gasFastestStep 2 1),
    (DIV, op .opDiv gasFastStep 2 1),
    (SDIV, op .opSdiv gasFastStep 2 1),
    (MOD, op .opMod gasFastStep 2 1),
    (SMOD, op .opSmod gasFastStep 2 1),
    (ADDMOD, op .opAddmod gasMidStep 3 1),
    (MULMOD, op .opMulmod gasMidStep 3 1),
    (EXP, { op .opExp 0 2 1 with dynamicGas := some .gasExpFrontier }),
    (SIGNEXTEND, op .opSignExtend gasFastStep 2 1),
    (LT, op .opLt gasFastestStep 2 1),
    (GT, op .opGt gasFastestStep 2 1),
    (SLT, op .opSlt gasFastestStep 2 1),
    (SGT, op .opSgt gasFastestStep 2 1),
    (EQ, op .opEq gasFastestStep 2 1),
    (ISZERO, op .opIszero gasFastestStep 1 1),
    (AND, op .opAnd gasFastestStep 2 1),
    (XOR, op .opXor gasFastestStep 2 1),
    (OR, op .opOr gasFastestStep 2 1),
    (NOT, op .opNot gasFastestStep 1 1),
    (BYTE, op .opByte gasFastestStep 2 1),
    (SHA3, { op .opSha3 sha3Gas 2 1 with dynamicGas := some .gasSha3, memorySize := some .memorySha3 }),
    (ADDRESS, op .opAddress gasQuickStep 0 1),
    (BALANCE, op .opBalance balanceGasFrontier 1 1),
    (ORIGIN, op .opOrigin gasQuickStep 0 1),
    (CALLER, op .opCaller gasQuickStep 0 1),
    (CALLVALUE, op .opCallValue gasQuickStep 0 1),
    (CALLDATALOAD, op .opCallDataLoad gasFastestStep 1 1),
    (CALLDATASIZE, op .opCallDataSize gasQuickStep 0 1),
    (CALLDATACOPY, { op .opCallDataCopy gasFastestStep 3 0 with
        dynamicGas := some .gasCallDataCopy, memorySize := some .memoryCallDataCopy }),
    (CODESIZE, op .opCodeSize gasQuickStep 0 1),
    (CODECOPY, { op .opCodeCopy gasFastestStep 3 0 with
        dynamicGas := some .gasCodeCopy, memorySize := some .memoryCodeCopy }),
    (GASPRICE, op .opGasprice gasQuickStep 0 1),
    (EXTCODESIZE, op .opExtCodeSize extcodeSizeGasFrontier 1 1),
    (EXTCODECOPY, { op .opExtCodeCopy extcodeCopyBaseFrontier 4 0 with
        dynamicGas := some .gasExtCodeCopy, memorySize := some .memoryExtCodeCopy }),
    (BLOCKHASH, op .opBlockhash gasExtStep 1 1),
    (COINBASE, op .opCoinbase gasQuickStep 0 1),
    (TIMESTAMP, op .opTimestamp gasQuickStep 0 1),
    (NUMBER, op .opNumber gasQuickStep 0 1),
    (DIFFICULTY, op .opDifficulty gasQuickStep 0 1),
    (GASLIMIT, op .opGasLimit gasQuickStep 0 1),
    (POP, op .opPop gasQuickStep 1 0),
    (MLOAD, { op .opMload gasFastestStep 1 1 with
        dynamicGas := some .gasMLoad, memorySize := some .memoryMLoad }),
    (MSTORE, { op .opMstore gasFastestStep 2 0 with
        dynamicGas := some .gasMStore, memorySize := some .memoryMStore }),
    (MSTORE8, { op .opMstore8 gasFastestStep 2 0 with
        dynamicGas := some .gasMStore8, memorySize := some .memoryMStore8 }),
    (SLOAD, op .opSload sloadGasFrontier 1 1),
    (SSTORE, { op .opSstore 0 2 0 with dynamicGas := some .gasSStore, writes := true }),
    (JUMP, { op .opJump gasMidStep 1 0 with jumps := true }),
    (JUMPI, { op .opJumpi gasSlowStep 2 0 with jumps := true }),
    (PC, op .opPc gasQuickStep 0 1),
    (MSIZE, op .opMsize gasQuickStep 0 1),
    (GAS, op .opGas gasQuickStep 0 1),
    (JUMPDEST, op .opJumpdest jumpdestGas 0 0),
    (PUSH1, op .opPush1 gasFastestStep 0 1),
    (CREATE, { op .opCreate createGas 3 1 with
        dynamicGas := some .gasCreate, memorySize := some .memoryCreate, writes := true, returns := true }),
    (CALL, { op .opCall callGasFrontier 7 1 with
        dynamicGas := some .gasCall, memorySize := some .memoryCall, returns := true }),
    (CALLCODE, { op .opCallCode callGasFrontier 7 1 with
        dynamicGas := some .gasCallCode, memorySize := some .memoryCall, returns := true }),
    (RETURN, { op .opReturn 0 2 0 with
        dynamicGas := some .gasReturn, memorySize := some .memoryReturn, halts := true }),
    (SELFDESTRUCT, { op .opSuicide 0 1 0 with
        dynamicGas := some .gasSelfdestruct, halts := true, writes := true })] ++ pushOperations ++ dupOperations ++ swapOperations ++ logOperations

def newHomesteadInstructionSet : JumpTable :=
  newFrontierInstructionSet.set DELEGATECALL { op .opDelegateCall callGasFrontier 6 1 with
        dynamicGas := some .gasDelegateCall, memorySize := some .memoryDelegateCall, returns := true }

def newTangerineWhistleInstructionSet : JumpTable :=
  newHomesteadInstructionSet
    |> setConstantGas BALANCE balanceGasEIP150
    |> setConstantGas EXTCODESIZE extcodeSizeGasEIP150
    |> setConstantGas SLOAD sloadGasEIP150
    |> setConstantGas EXTCODECOPY extcodeCopyBaseEIP150
    |> setConstantGas CALL callGasEIP150
    |> setConstantGas CALLCODE callGasEIP150
    |> setConstantGas DELEGATECALL callGasEIP150

def newSpuriousDragonInstructionSet : JumpTable :=
  newTangerineWhistleInstructionSet.setDynamicGas EXP .gasExpEIP158

def newByzantiumInstructionSet : JumpTable :=
  newSpuriousDragonInstructionSet
    |> set STATICCALL { op .opStaticCall callGasEIP150 6 1 with
        dynamicGas := some .gasStaticCall, memorySize := some .memoryStaticCall, returns := true }
    |> set RETURNDATASIZE (op .opReturnDataSize gasQuickStep 0 1)
    |> set RETURNDATACOPY { op .opReturnDataCopy gasFastestStep 3 0 with
        dynamicGas := some .gasReturnDataCopy, memorySize := some .memoryReturnDataCopy }
    |> set REVERT { op .opRevert 0 2 0 with
        dynamicGas := some .gasRevert, memorySize := some .memoryRevert, reverts := true, returns := true }

def newConstantinopleInstructionSet : JumpTable :=
  newByzantiumInstructionSet
    |> set SHL (op .opSHL gasFastestStep 2 1)
    |> set SHR (op .opSHR gasFastestStep 2 1)
    |> set SAR (op .opSAR gasFastestStep 2 1)
    |> set EXTCODEHASH (op .opExtCodeHash extcodeHashGasConstantinople 1 1)
    |> set CREATE2 { op .opCreate2 create2Gas 4 1 with
        dynamicGas := some .gasCreate2, memorySize := some .memoryCreate2, writes := true, returns := true }

def newIstanbulInstructionSet : JumpTable :=
  newConstantinopleInstructionSet |> enable1344 |> enable1884 |> enable2200

def newYoloV2InstructionSet : JumpTable := enable2315 newIstanbulInstructionSet

inductive InstructionSet where
  | frontier | homestead | tangerineWhistle | spuriousDragon | byzantium | constantinople | istanbul
  | yoloV2

def InstructionSet.table : InstructionSet → JumpTable
  | frontier => newFrontierInstructionSet
  | homestead => newHomesteadInstructionSet
  | tangerineWhistle => newTangerineWhistleInstructionSet
  | spuriousDragon => newSpuriousDragonInstructionSet
  | byzantium => newByzantiumInstructionSet
  | constantinople => newConstantinopleInstructionSet
  | istanbul => newIstanbulInstructionSet
  | yoloV2 => newYoloV2InstructionSet

/-- The set that an interpreter takes for the rules. -/
def Rules.instructionSet (rules : Rules) : InstructionSet :=
  if rules.IsYoloV2 then .yoloV2
  else if rules.IsIstanbul then .istanbul
  else if rules.IsConstantinople then .constantinople
  else if rules.IsByzantium then .byzantium
  else if rules.IsEIP158 then .spuriousDragon
  else if rules.IsEIP150 then .tangerineWhistle
  else if rules.IsHomestead then .homestead
  else .frontier

/-- The table of `NewEVMInterpreter`, which is configured with extra EIPs and no table. -/
def newEVMInterpreter (rules : Rules) (ExtraEips : List ℤ) : Except String JumpTable :=
  ExtraEips.foldlM (fun jt eip => enableEIP eip jt) rules.instructionSet.table

end Web3.Vm
