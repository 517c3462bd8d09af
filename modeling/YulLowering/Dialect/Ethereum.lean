import YulLowering.Dialect

/-!
# The host interface

The builtins of the `eth` namespace, which a contract's host environment provides. Pointers and
lengths are `i32`. A function of the host may write memory, and `storageStore` alone writes storage.
-/

namespace YulLowering.Dialect.Ethereum

/-- A function of the host. -/
def hostFunction (name : String) (parameters results : List String) : Builtin where
  name := "eth." ++ name
  parameters := parameters
  results := results
  movable := false
  sideEffectFree := false
  sideEffectFreeIfNoMsize := false
  isMsize := false
  invalidatesStorage := name == "storageStore"
  invalidatesMemory := true
  literalArguments := false

/-- All functions of the host. -/
def hostFunctions : List Builtin :=
  [hostFunction "getAddress" ["i32"] [],
    hostFunction "getExternalBalance" ["i32", "i32"] [],
    hostFunction "getBlockHash" ["i64", "i32"] ["i32"],
    hostFunction "call" ["i64", "i32", "i32", "i32", "i32"] ["i32"],
    hostFunction "callDataCopy" ["i32", "i32", "i32"] [],
    hostFunction "getCallDataSize" [] ["i32"],
    hostFunction "callCode" ["i64", "i32", "i32", "i32", "i32"] ["i32"],
    hostFunction "callDelegate" ["i64", "i32", "i32", "i32"] ["i32"],
    hostFunction "callStatic" ["i64", "i32", "i32", "i32"] ["i32"],
    hostFunction "storageStore" ["i32", "i32"] [],
    hostFunction "storageLoad" ["i32", "i32"] [],
    hostFunction "getCaller" ["i32"] [],
    hostFunction "getCallValue" ["i32"] [],
    hostFunction "codeCopy" ["i32", "i32", "i32"] [],
    hostFunction "getCodeSize" ["i32"] [],
    hostFunction "getBlockCoinbase" ["i32"] [],
    hostFunction "create" ["i32", "i32", "i32", "i32"] ["i32"],
    hostFunction "getBlockDifficulty" ["i32"] [],
    hostFunction "externalCodeCopy" ["i32", "i32", "i32", "i32"] [],
    hostFunction "getExternalCodeSize" ["i32"] ["i32"],
    hostFunction "getGasLeft" [] ["i64"],
    hostFunction "getBlockGasLimit" [] ["i64"],
    hostFunction "getTxGasPrice" ["i32"] [],
    hostFunction "log" ["i32", "i32", "i32", "i32", "i32", "i32", "i32"] [],
    hostFunction "getBlockNumber" [] ["i64"],
    hostFunction "getTxOrigin" ["i32"] [],
    hostFunction "finish" ["i32", "i32"] [],
    hostFunction "revert" ["i32", "i32"] [],
    hostFunction "getReturnDataSize" [] ["i32"],
    hostFunction "returnDataCopy" ["i32", "i32", "i32"] [],
    hostFunction "selfDestruct" ["i32"] [],
    hostFunction "getBlockTimestamp" [] ["i64"]]

/-- The dialect of the target: the typed flavour with the host interface. -/
def dialect : Dialect :=
  (Dialect.empty .strict).registerAll hostFunctions

end YulLowering.Dialect.Ethereum
