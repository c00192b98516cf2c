import BlockLang.Evaluator.State

/-!
# What the command says about itself
-/

namespace BlockLang

namespace Usage

/-- The version of the command. -/
def version : Text := "1.7.0"

/-- When the command was built. -/
def buildDate : Text := "unknown"

/-- The state of the sources it was built from. -/
def commit : Text := "unknown"

/-- The line about the version. -/
def versionLine : Text :=
  "lang417 version 'v" ++ version ++ "' " ++ buildDate ++ " " ++ commit ++ "\n"

/-- The line that is shown when the arguments are wrong. -/
def hint : Text :=
  "Usage: lang417 [options] [file]  (try -h)\n"

/-- The help. -/
def help : Text :=
  "Usage: lang417 [options] [file]\n\n" ++
  "  The program is read from file, or from stdin when no file is given.\n\n" ++
  "Options:\n" ++
  "  -h, -help            Display this help information and exit.\n" ++
  "  -v, -version         Display version information and exit.\n" ++
  "  -t                   Enable tracing during evaluation.\n" ++
  "  -d                   Enable dynamic scoping (default lexical).\n" ++
  "  -np                  Do not print the final value.\n" ++
  "  -max-depth <n>       Evaluation depth limit. Default is " ++
    Text.ofNat Settings.defaultLimit ++ ".\n" ++
  "  -config <file>       Load settings from a .yaml, .yml or .toml file. Flags win.\n" ++
  "  -history <dsn>       Where runs are recorded: sqlite3://<path>, mysql://<dsn>,\n" ++
  "                       postgres://... or a file path. Default is ~/.lang417/history.db.\n" ++
  "  -no-history          Do not record runs.\n" ++
  "  -debug-ast           Print the desugared AST and exit.\n" ++
  "  -ast-format <fmt>    json (default) or text.\n" ++
  "  -repl                Start an interactive session.\n" ++
  "  -log-level <level>   Set the log level: trace, debug, info, warn, error, none. " ++
    "Default is 'none'.\n" ++
  "  -log-file <path>     Specify a log file to write logs. Default is stderr.\n\n" ++
  "Examples:\n" ++
  "  lang417 example.417           Run a program\n" ++
  "  lang417 -t < example.417      Run a program from stdin with tracing\n" ++
  "  lang417 -d -np example.417    Run with dynamic scoping and no final print\n" ++
  "  lang417 -repl                 Start the REPL\n\n" ++
  "Version Information:\n" ++
  "  Version:    " ++ version ++ "\n" ++
  "  Build Date: " ++ buildDate ++ "\n" ++
  "  Commit:     " ++ commit ++ "\n"

/-- The first line of a dialog. -/
def banner : Text :=
  "417 interpreter. Type :quit to exit.\n"

end Usage

end BlockLang
