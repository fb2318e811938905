/-!
# Help and version

The texts that `--help` and `--version` print.
-/

namespace MemoryKit.CommandLine

def programName : String := "procmem"

def programVersion : String := "0.1.0"

def versionText : String :=
  programName ++ " " ++ programVersion

def helpLines : List String :=
  [versionText,
   "Typed access to another Windows process's memory, and an instruction-name",
   "table regenerator for assembler sources.",
   "",
   "USAGE:",
   "    procmem [OPTIONS] <COMMAND> [ARGS]",
   "",
   "COMMANDS:",
   "    read      Read one value:   -p <PID> -a <ADDR> -t <TYPE>",
   "    write     Write one value:  -p <PID> -a <ADDR> -t <TYPE> -w <VALUE>",
   "    demo      Read a double at ADDR, then write the float 1.5 there",
   "    types     List the supported data types",
   "    regen     Regenerate instruction-name tables in FILE... [default: DefsX86X64.cpp]",
   "",
   "MEMORY OPTIONS:",
   "    -p, --pid <PID>        Target process id (decimal or 0x hex)",
   "    -a, --address <ADDR>   Address in the target process",
   "    -t, --type <TYPE>      Data type name, alias or tag (see 'types')",
   "    -w, --value <VALUE>    Value to write",
   "        --access <MASK>    Access mask for OpenProcess [default: 0x001F0FFF]",
   "",
   "REGEN OPTIONS:",
   "        --table <IDENT>    Table identifier   [default: instructionDescription]",
   "        --blob <NAME>      Emitted constant   [default: instructionName]",
   "        --prefix <P>       Symbol prefix      [default: INST_]",
   "        --suffix <S>       Symbol suffix      [default: _INDEX]",
   "        --begin <MARKER>   Begin marker line  [default: // $\x7bINSTRUCTION_DATA_BEGIN\x7d]",
   "        --end <MARKER>     End marker line    [default: // $\x7bINSTRUCTION_DATA_END\x7d]",
   "",
   "GLOBAL OPTIONS:",
   "    -v, --verbose          More log output (repeat for more)",
   "    -q, --quiet            Only log errors",
   "    -h, --help             Print help information",
   "    -V, --version          Print version information",
   "",
   "EXAMPLES:",
   "    procmem read -p 4284 -a 0x63DE0C -t double",
   "    procmem write -p 4284 -a 0x63DE0C -t float -w 1.5",
   "    procmem demo --pid=4284 --address=0x63DE0C",
   "    procmem regen contrib/AsmJit/DefsX86X64.cpp"]

def helpText : String :=
  "\n".intercalate helpLines

end MemoryKit.CommandLine
